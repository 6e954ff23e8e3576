/-
A receive request, the send request it is connected to, and the messages between.

Both sides call Start and then Wait, over and over, and the user touches a buffer only
between a Wait and the next Start.  The messages of the sender reach the handler in
the order they were sent.  A rendezvous message is the announcement only; its bytes
are read from the send buffer when the transfer into the receive buffer completes, and
only then may the send be complete.

When the receive request is alone in its process, handlers run only inside the
`ucp_worker_progress` calls made for it.  Otherwise a process that waits for another
request calls `ucp_worker_progress` as well, at any time but within the last part of
`b_recv`.
-/
import CompMatch.ActiveMessage.Request
import Mathlib.Data.List.Range

namespace CompMatch.ActiveMessage

/-- Where a process is with its send request. -/
inductive SendPc
  | idle                    -- between Wait and Start
  | start (p : SendPoint)   -- in b_send
  | started                 -- between Start and Wait
  | wait (w : SendWait)     -- in e_send
deriving DecidableEq, Repr

/-- Where a process is with its receive request. -/
inductive RecvPc
  | idle
  | start (p : RecvPoint)   -- in b_recv, called from Start
  | started
  | wait (w : RecvWait)     -- in e_recv
deriving DecidableEq, Repr

/-- The function of the receive request is in `ucp_worker_progress`. -/
def RecvPc.progressing : RecvPc → Bool
  | .start .progress | .wait .progress | .wait (.blocking .progress) => true
  | _ => false

/-- What UCX tells the sender. -/
structure SendAnswer where
  /-- `ucp_am_send_nbx` completes at once. -/
  imm : Bool
  /-- `ucp_request_check_status` finds the send complete. -/
  done : Bool
deriving DecidableEq, Repr

/-- The sender's side. -/
structure Peer where
  pc : SendPc
  loc : Local
  /-- The messages on their way to the handler. -/
  inFlight : List AmMsg
  /-- What the buffer held when a message was sent. -/
  payload : Nat → List UInt8

inductive PeerAct
  | write (bytes : List UInt8)   -- the user fills the buffer
  | start
  | run (ans : SendAnswer)
  | wait

namespace Peer

/-- How many messages were sent. -/
def sent (q : Peer) : Nat := if q.pc = .start .post then q.loc.starts - 1 else q.loc.starts

def setLoc (q : Peer) (pc : SendPc) (l : Local) : Peer := { q with pc := pc, loc := l }

/-- A message is handed to UCX. -/
def emit (q : Peer) : Option AmMsg → Peer
  | some msg =>
      { q with
        inFlight := q.inFlight ++ [msg]
        payload := Function.update q.payload msg.number q.loc.req.buf }
  | none => q

/-- One step of a process inside `b_send` or `e_send`. -/
def run (mode : Mode) (ans : SendAnswer) (q : Peer) : Option Peer :=
  match q.pc with
  | .start p =>
      match bSend mode ans.imm p q.loc with
      | (.goto p', l, msg) => some ((q.setLoc (.start p') l).emit msg)
      | (_, l, msg) => some ((q.setLoc .started l).emit msg)
  | .wait w =>
      match eSend ans.done w q.loc with
      | (.goto w', l) => some (q.setLoc (.wait w') l)
      | (.progressOther w', l) => some (q.setLoc (.wait w') l)
      | (.ret, l) => some (q.setLoc .idle l)
  | _ => none

/-- `complete` says which messages' bytes the sender has to keep no longer. -/
def step (mode : Mode) (complete : Nat → Bool) (q : Peer) : PeerAct → Option Peer
  | .write bytes =>
      if q.pc = .idle ∧ bytes.length = q.loc.req.size then
        some { q with loc := q.loc.setBuf bytes }
      else none
  | .start =>
      if q.pc = .idle ∧ q.loc.req.type = .send then some (q.setLoc (.start .post) q.loc.countStart)
      else none
  | .run ans =>
      if (ans.imm → mode = .eager) ∧ (ans.done → ∀ h ∈ q.loc.req.ucxRequestDataTransfer, complete h)
      then q.run mode ans else none
  | .wait =>
      if q.pc = .started ∧ q.loc.req.type = .send then some (q.setLoc (.wait .test) q.loc) else none

end Peer

structure Link where
  pc : RecvPc
  recv : Local
  peer : Peer

inductive LinkAct
  | peer (a : PeerAct)
  | lands (number : Nat)          -- the transfer of this message completes
  | write (bytes : List UInt8)    -- the user touches the receive buffer
  | start
  | run (imm : Bool)
  | wait
  | deliver (imm : Bool)          -- ucp_worker_progress runs the handler
  /-- MPI changes what it uses of the request, before the first operation over active messages. -/
  | mpi (amId : Nat) (type : RequestType) (backup exchange : Option Nat)

namespace Link

/-- The bytes a transfer brings, if it is complete at once. -/
def here (l : Link) (imm : Bool) : Option (List UInt8) := if imm then some l.peer.loc.req.buf else none

/-- The bytes of this message need not stay in the send buffer. -/
def complete (mode : Mode) (l : Link) (number : Nat) : Bool :=
  decide (mode = .eager) ||
    ((l.recv.taken.map Prod.fst).contains number && !l.recv.transfers.contains number)

/-- One step of the sender's process, or of its user. -/
def peerStep (mode : Mode) (l : Link) (a : PeerAct) : Option Link :=
  match l.peer.step mode (l.complete mode) a with
  | some q => some { l with peer := q }
  | none => none

/-- The bytes of a message whose transfer was started arrive. -/
def lands (l : Link) (number : Nat) : Option Link :=
  if number ∈ l.recv.transfers then
    some { l with recv := l.recv.land number l.peer.loc.req.buf }
  else none

/-- The handler runs for the next message. -/
def deliver (mode : Mode) (imm : Bool) (l : Link) : Option Link :=
  match l.peer.inFlight with
  | msg :: rest =>
      some { l with
        recv := incomingAmMsgHandler mode (l.here imm) msg l.recv
        peer := { l.peer with inFlight := rest } }
  | [] => none

/-- One step of a process inside `b_recv` or `e_recv`. -/
def run (mode : Mode) (imm : Bool) (l : Link) : Option Link :=
  match l.pc with
  | .start p =>
      match bRecv mode (l.here imm) p l.recv with
      | (.goto p', r) => some { l with pc := .start p', recv := r }
      | (_, r) => some { l with pc := .started, recv := r }
  | .wait w =>
      match eRecv w l.recv with
      | (.goto w', r) => some { l with pc := .wait w', recv := r }
      | (.progressOther w', r) => some { l with pc := .wait w', recv := r }
      | (.ret, r) => some { l with pc := .idle, recv := r.recordReturn }
  | _ => none

/-- Handlers may run here. -/
def mayDeliver (alone : Bool) (pc : RecvPc) : Bool :=
  if alone then pc.progressing else pc ≠ .start .fetch

/-- `alone` says that the process has no other request. -/
def step (mode : Mode) (alone : Bool) (l : Link) : LinkAct → Option Link
  | .peer a => l.peerStep mode a
  | .lands number => l.lands number
  | .write bytes =>
      if l.pc = .idle ∧ bytes.length = l.recv.req.size then
        some { l with recv := l.recv.setBuf bytes }
      else none
  | .start =>
      if l.pc = .idle ∧ l.recv.req.type = .recv then
        some { l with pc := .start .progress, recv := l.recv.countStart }
      else none
  | .run imm => l.run mode imm
  | .wait =>
      if l.pc = .started ∧ l.recv.req.type = .recv then
        some { l with pc := .wait (eRecvEntry mode) }
      else none
  | .deliver imm => if mayDeliver alone l.pc then l.deliver mode imm else none
  | .mpi amId type backup exchange =>
      if alone = false ∧ l.pc = .idle then
        some { l with
          recv := { l.recv with
            req := { l.recv.req with
              amId := amId, type := type, backupRequest := backup
              rdmaExchangeRequest := exchange } } }
      else none

/-- Nothing has happened yet on this side. -/
structure Quiet (l : Local) : Prop where
  transfer : l.req.ucxRequestDataTransfer = none
  ready : l.req.isReadyToRecv = false
  pending : l.req.listOfPendingMsgs = []
  backup : l.req.backupRequest = none
  buf : l.req.buf.length = l.req.size
  transfers : l.transfers = []
  failed : l.failed = false
  starts : l.starts = 0
  taken : l.taken = []
  returned : l.returned = []

/-- A connected pair before its first operation over active messages. -/
structure Init (l : Link) : Prop where
  pc : l.pc = .idle
  peerPc : l.peer.pc = .idle
  type : l.peer.loc.req.type = .send
  size : l.peer.loc.req.size = l.recv.req.size
  recv : Quiet l.recv
  peer : Quiet l.peer.loc
  inFlight : l.peer.inFlight = []

/-- What Wait owes the user of a receive request. -/
structure Delivers (l : Link) : Prop where
  /-- The message of the operation is in the buffer, with nothing left under way. -/
  returned : ∀ x ∈ l.recv.returned,
    x.ready = false ∧ x.arrived = x.number ∧ x.underWay = [] ∧ x.buf = l.peer.payload x.number
  /-- No assertion of the handler, of `b_recv` or of `e_recv` failed. -/
  asserted : l.recv.failed = false

/-- The messages pass through the list and the buffer first in, first out. -/
structure Fifo (l : Link) : Prop where
  /-- The Waits return one for each operation, in order. -/
  numbered : l.recv.returned.map Return.number = List.range' 1 l.recv.returned.length
  /-- The `n`-th Wait has returned with the `n`-th payload in the buffer. -/
  returned : ∀ x ∈ l.recv.returned, x.buf = l.peer.payload x.number
  /-- The list holds what has arrived and was not received, in the order of arrival. -/
  pending : l.recv.req.listOfPendingMsgs.map AmMsg.data =
    (List.range' (l.recv.taken.length + 1) l.recv.req.listOfPendingMsgs.length).map l.peer.payload
  arrived : l.recv.taken.length + l.recv.req.listOfPendingMsgs.length + l.peer.inFlight.length =
    l.peer.sent
  /-- No assertion of the handler, of `b_recv` or of `e_recv` failed. -/
  asserted : l.recv.failed = false

end Link

end CompMatch.ActiveMessage

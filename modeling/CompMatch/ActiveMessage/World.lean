/-
One process and the senders its receive requests are connected to.

The process is `Proc`, with all its requests in either mode.  For each receive request
there is the matching send request of another process, which goes through `b_send` and
`e_send` as in `Link.lean`.  MPI answers the process as it likes, and the messages of
the senders may be handed to the handlers, in order, in every `ucp_worker_progress`.
-/
import CompMatch.ActiveMessage.Process

namespace CompMatch.ActiveMessage

structure World where
  proc : Proc
  peers : Rid → Peer

inductive WorldAct
  | sendInit (args : InitArgs)
  /-- `bytes` is what the send buffer at the other end holds. -/
  | recvInit (args : InitArgs) (bytes : List UInt8)
  | start (r : Rid)
  | wait (r : Rid)
  | free (r : Rid)
  | run (imm flag : Bool)
  | write (r : Rid) (bytes : List UInt8)
  | lands (r : Rid) (number : Nat)
  | deliver (r : Rid) (imm : Bool)
  | peer (r : Rid) (a : PeerAct)

/-- A sender that has sent nothing over active messages. -/
def Peer.connected (args : InitArgs) (amId : Nat) (bytes : List UInt8) : Peer where
  pc := .idle
  loc :=
    { Proc.blankRequest .send { args with buf := bytes } with
      req := { (Proc.blankRequest .send { args with buf := bytes }).req with amId := amId } }
  inFlight := []
  payload := fun _ => []

namespace World

def setProc (w : World) (p : Proc) : World := { w with proc := p }

def setPeer (w : World) (r : Rid) (q : Peer) : World :=
  { w with peers := Function.update w.peers r q }

/-- A receive request with its sender. -/
def link (w : World) (r : Rid) : Link := ⟨w.proc.recvPc r, w.proc.reqs r, w.peers r⟩

/-- The request and its sender have changed, and nothing else. -/
def setLink (w : World) (r : Rid) : Option Link → Option World
  | some l => some ((w.setProc (w.proc.setLoc r l.recv)).setPeer r l.peer)
  | none => none

def answer (w : World) (imm flag : Bool) : Answer := ⟨imm, flag, fun r => (w.peers r).loc.req.buf⟩

def step (mode : Mode) (w : World) : WorldAct → Option World
  | .sendInit args => if w.proc.Free then some (w.setProc (w.proc.sendInit args).1) else none
  | .recvInit args bytes =>
      if w.proc.Free ∧ bytes.length = args.buf.length then
        some ((w.setProc (w.proc.recvInit args)).setPeer w.proc.nextRid
          (.connected args w.proc.amTag bytes))
      else none
  | .start r =>
      if w.proc.Free ∧ r ∈ w.proc.requestList ∧ w.proc.active r = false
      then some (w.setProc (w.proc.start r).1) else none
  | .wait r =>
      if w.proc.Free ∧ r ∈ w.proc.requestList ∧ w.proc.active r = true
      then some (w.setProc (w.proc.wait mode r)) else none
  | .free r =>
      if w.proc.Free ∧ r ∈ w.proc.requestList ∧ w.proc.active r = false
      then some (w.setProc (w.proc.free r)) else none
  | .run imm flag =>
      match w.proc.run mode (w.answer imm flag) with
      | some (p, _) => some (w.setProc p)
      | none => none
  | .write r bytes =>
      if w.proc.recvPc r = .idle ∧ r < w.proc.nextRid ∧ bytes.length = (w.proc.reqs r).req.size then
        some (w.setProc (w.proc.setLoc r ((w.proc.reqs r).setBuf bytes)))
      else none
  | .lands r number =>
      if r < w.proc.nextRid then w.setLink r ((w.link r).lands number) else none
  | .deliver r imm =>
      if w.proc.progressing ∧ r ∈ w.proc.handlers then
        w.setLink r ((w.link r).deliver mode imm)
      else none
  | .peer r a => if r < w.proc.nextRid then w.setLink r ((w.link r).peerStep mode a) else none

/-- No request was initialised yet. -/
structure Init (w : World) : Prop where
  requestList : w.proc.requestList = []
  handlers : w.proc.handlers = []
  nextRid : w.proc.nextRid = 0
  call : w.proc.call = .none
  nested : w.proc.nested = []

end World

/--
What progressing other requests must leave alone.  `taken` has the messages that were
copied into the buffer, or whose transfer was started, each with the Start it followed.
-/
structure Link.Harmless (mode : Mode) (l : Link) : Prop where
  /-- After a message of the operation, the request is not ready until its next Start. -/
  ready : ∀ x ∈ l.recv.taken, x.2 = l.recv.starts → l.recv.req.isReadyToRecv = false
  /-- The messages go into the buffer in order, and none twice. -/
  inOrder : l.recv.taken.map Prod.fst = List.range' 1 l.recv.taken.length
  /-- No message is written before its Start. -/
  timely : ∀ x ∈ l.recv.taken, x.1 ≤ x.2 ∧ x.2 ≤ l.recv.starts
  /-- No message is overwritten by one of the same operation. -/
  once : l.recv.taken.Pairwise (·.2 < ·.2)
  /-- No message is lost. -/
  kept : l.recv.taken.map Prod.fst ++ l.recv.req.listOfPendingMsgs.map AmMsg.number ++
    l.peer.inFlight.map AmMsg.number = List.range' 1 l.peer.sent
  /-- Every Wait sees the message of its operation, unless one has returned while still ready. -/
  seen : (∀ x ∈ l.recv.returned, x.ready = false) → ∀ x ∈ l.recv.returned,
    x.arrived = x.number ∧ x.underWay = [] ∧ x.buf = l.peer.payload x.number
  /-- Eager Waits never do that. -/
  eager : mode = .eager → ∀ x ∈ l.recv.returned, x.ready = false

/-- Progressing other requests is harmless to every receive request. -/
def World.Harmless (mode : Mode) (w : World) : Prop :=
  ∀ r, r < w.proc.nextRid → (w.proc.type r).isRecv = true → (w.link r).Harmless mode

end CompMatch.ActiveMessage

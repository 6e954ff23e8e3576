/-
One connected pair: a process whose only request has type `SEND_REQUEST_TYPE` and a
process whose only request is the matching one of type `RECV_REQUEST_TYPE`.

Each process calls Start and then Wait, over and over, and the user touches a buffer
only between a Wait and the next Start.  A step is one step of either process's code
or the effect of one posted operation.  With a single request in the list,
`progress_other_requests` finds nothing to progress and returns.

`landed`, `sent` and `received` record what has happened and are read by nothing.
-/
import CompMatch.Rendezvous.Transfer
import Mathlib.Logic.Function.Basic

namespace CompMatch.Rendezvous

/-- Where a process is with its send request. -/
inductive SendPc
  | idle                   -- between Wait and Start
  | start (p : Point)      -- in b_send
  | started                -- between Start and Wait
  | wait (w : SendWait)    -- in e_send
deriving DecidableEq, Repr

/-- Where a process is with its receive request. -/
inductive RecvPc
  | idle
  | start (p : Point)      -- in b_recv, called from Start
  | started
  | wait (w : RecvWait)    -- in e_recv
deriving DecidableEq, Repr

/-- Every operation of the worker goes to the one endpoint in use. -/
def oneEp (_ : RdmaOp) : Bool := true

/-- One step of a process inside `b_send` or `e_send`. -/
def sendRun (imm : Bool) : SendPc → Local RdmaOp → Option (SendPc × Local RdmaOp)
  | .start p, l =>
      match bSend id oneEp imm p l with
      | (.goto p', l') => some (.start p', l')
      | (_, l') => some (.started, l')
  | .wait w, l =>
      match eSend oneEp w l with
      | (.goto w', l') => some (.wait w', l')
      | (.progressOther w', l') => some (.wait w', l')
      | (.ret, l') => some (.idle, l')
  | _, _ => none

/-- One step of a process inside `b_recv` or `e_recv`. -/
def recvRun (imm : Bool) : RecvPc → Local RdmaOp → Option (RecvPc × Local RdmaOp)
  | .start p, l =>
      match bRecv id oneEp imm p l with
      | (.goto p', l') => some (.start p', l')
      | (_, l') => some (.started, l')
  | .wait w, l =>
      match eRecv id oneEp imm w l with
      | (.goto w', l') => some (.wait w', l')
      | (.progressOther w', l') => some (.wait w', l')
      | (.ret, l') => some (.idle, l')
  | _, _ => none

/-- `request->operation_number++`, the first statement of either Start. -/
def Local.countStart {Op : Type*} (l : Local Op) : Local Op :=
  { l with req := { l.req with operationNumber := l.req.operationNumber + 1 } }

structure Pair where
  sendPc : SendPc
  send : Local RdmaOp
  sendMem : Mem
  recvPc : RecvPc
  recv : Local RdmaOp
  recvMem : Mem
  /-- The payload transfers that took effect, each with its operation. -/
  landed : List (Int × Transfer)
  /-- What the send buffer held at each Start. -/
  sent : Int → List UInt8
  /-- What the receive buffer held when each Wait returned. -/
  received : Int → Option (List UInt8)

namespace Pair

def sendBuf (p : Pair) : List UInt8 := readMem p.sendMem p.send.req.buf p.send.req.size

def recvBuf (p : Pair) : List UInt8 := readMem p.recvMem p.recv.req.buf p.recv.req.size

/-- The effect of an operation the sender's process posted. -/
def landSend (p : Pair) : RdmaOp → Pair
  | .put number src len dst =>
      { p with
        recvMem := writeMem p.recvMem dst (readMem p.sendMem src len)
        landed := p.landed ++ [(number, .put)] }
  | .get number dst len src =>
      { p with
        sendMem := writeMem p.sendMem dst (readMem p.recvMem src len)
        landed := p.landed ++ [(number, .get)] }
  | .flag _ dst =>
      if dst = p.recv.req.flagAddr then { p with recv := p.recv.setFlag p.send.req.flagBuffer } else p

/-- The effect of an operation the receiver's process posted. -/
def landRecv (p : Pair) : RdmaOp → Pair
  | .put number src len dst =>
      { p with
        sendMem := writeMem p.sendMem dst (readMem p.recvMem src len)
        landed := p.landed ++ [(number, .put)] }
  | .get number dst len src =>
      { p with
        recvMem := writeMem p.recvMem dst (readMem p.sendMem src len)
        landed := p.landed ++ [(number, .get)] }
  | .flag _ dst =>
      if dst = p.send.req.flagAddr then { p with send := p.send.setFlag p.recv.req.flagBuffer } else p

end Pair

inductive PairAct
  | sendWrite (m : Mem)     -- the user writes to the memory of the sender's process
  | sendStart               -- MPIOPT_Start_send is called
  | sendRun (imm : Bool)
  | sendWait                -- MPIOPT_Wait_send is called
  | sendLands (i : Nat)
  | recvWrite (m : Mem)
  | recvStart
  | recvRun (imm : Bool)
  | recvWait
  | recvLands (i : Nat)

namespace Pair

def step (p : Pair) : PairAct → Option Pair
  | .sendWrite m => if p.sendPc = .idle then some { p with sendMem := m } else none
  | .sendStart =>
      if p.sendPc = .idle ∧ p.send.req.type = .send then
        some { p with
          sendPc := .start .test
          send := p.send.countStart
          sent := Function.update p.sent (p.send.req.operationNumber + 1) p.sendBuf }
      else none
  | .sendRun imm =>
      match sendRun imm p.sendPc p.send with
      | some (pc, l) => some { p with sendPc := pc, send := l }
      | none => none
  | .sendWait =>
      if p.sendPc = .started ∧ p.send.req.type = .send then
        some { p with sendPc := .wait .flagTransfer }
      else none
  | .sendLands i =>
      match p.send.worker.enabled? i with
      | some x => some (landSend { p with send := p.send.retire i } x.op)
      | none => none
  | .recvWrite m => if p.recvPc = .idle then some { p with recvMem := m } else none
  | .recvStart =>
      if p.recvPc = .idle ∧ p.recv.req.type = .recv then
        some { p with recvPc := .start .test, recv := p.recv.countStart }
      else none
  | .recvRun imm =>
      match recvRun imm p.recvPc p.recv with
      | some (.idle, l) =>
          some { p with
            recvPc := .idle
            recv := l
            received := Function.update p.received l.req.operationNumber (some p.recvBuf) }
      | some (pc, l) => some { p with recvPc := pc, recv := l }
      | none => none
  | .recvWait =>
      if p.recvPc = .started ∧ p.recv.req.type = .recv then
        some { p with recvPc := .wait .flagTransfer }
      else none
  | .recvLands i =>
      match p.recv.worker.enabled? i with
      | some x => some (landRecv { p with recv := p.recv.retire i } x.op)
      | none => none

/-- The request is matched by `other`, across the connection the handshake set up. -/
structure Matches (req other : MpioptRequest) : Prop where
  dataAddr : req.remoteDataAddr = other.buf
  flagAddr : req.remoteFlagAddr = other.flagAddr
  size : req.size = other.size

/-- Nothing the process posted is under way, no handle is held and no assertion has failed. -/
structure Quiet (l : Local RdmaOp) : Prop where
  pending : l.worker.pending = []
  dataTransfer : l.req.ucxRequestDataTransfer = none
  flagTransfer : l.req.ucxRequestFlagTransfer = none
  failed : l.failed = false

/-- A connected pair before operation `k + 1`. -/
structure Init (k : Int) (p : Pair) : Prop where
  sendPc : p.sendPc = .idle
  recvPc : p.recvPc = .idle
  sendType : p.send.req.type = .send
  recvType : p.recv.req.type = .recv
  sendMatches : Matches p.send.req p.recv.req
  recvMatches : Matches p.recv.req p.send.req
  sendNumber : p.send.req.operationNumber = k
  recvNumber : p.recv.req.operationNumber = k
  sendFlag : p.send.req.flag ≤ 2 * k
  recvFlag : p.recv.req.flag ≤ 2 * k
  sendQuiet : Quiet p.send
  recvQuiet : Quiet p.recv
  landed : p.landed = []
  received : ∀ n, p.received n = none

/-- The sender's Wait for operation `n` has returned. -/
def SendDone (p : Pair) (n : Int) : Prop :=
  n < p.send.req.operationNumber ∨ (n = p.send.req.operationNumber ∧ p.sendPc = .idle)

/-- The receiver's Wait for operation `n` has returned. -/
def RecvDone (p : Pair) (n : Int) : Prop :=
  n < p.recv.req.operationNumber ∨ (n = p.recv.req.operationNumber ∧ p.recvPc = .idle)

/-- What a pair owes its user for the operations after `k`. -/
structure Delivers (k : Int) (p : Pair) : Prop where
  /-- The payload of an operation is transferred at most once. -/
  once : ∀ n, transfersOf p.landed n ≤ 1
  /-- An operation over which either Wait has returned was transferred. -/
  transferred : ∀ n, k < n → p.SendDone n ∨ p.RecvDone n → transfersOf p.landed n = 1
  /-- The receiver's Wait returned with the bytes of the sender's Start in the buffer. -/
  received : ∀ n, k < n → p.RecvDone n → p.received n = some (p.sent n)
  /-- No assertion of the four functions failed. -/
  asserted : p.send.failed = false ∧ p.recv.failed = false

end Pair

end CompMatch.Rendezvous

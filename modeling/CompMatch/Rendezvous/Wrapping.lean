/-
A connected pair with 32-bit counters.

`flag`, `flag_buffer` and `operation_number` are C ints.  Here they are integers that
fit into 32 bits, and what the code computes from them wraps: `operation_number++`,
`operation_number * 2 + 1`, `operation_number * 2 + 2` and `flag++`.  Everything else is
the pair of `Pair.lean`.
-/
import CompMatch.Rendezvous.Progress
import Mathlib.Algebra.Group.Nat.Defs
import Mathlib.Algebra.Ring.Int.Defs

namespace CompMatch.Rendezvous

/-- The 32-bit int that arithmetic with result `x` leaves. -/
def int32 (x : Int) : Int := Int.bmod x (2 ^ 32)

/-- The value fits into a 32-bit int. -/
def Int32 (x : Int) : Prop := -2 ^ 31 ≤ x ∧ x < 2 ^ 31

instance (x : Int) : Decidable (Int32 x) := inferInstanceAs (Decidable (_ ∧ _))

section
variable {Op : Type*} (tag : RdmaOp → Op) (toEp : Op → Bool)

def bSend32 (imm : Bool) : Point → Local Op → Outcome Point × Local Op
  | .test, l =>
      if l.req.flag = int32 (l.req.operationNumber * 2 + 1) then (.goto .load, l)
      else (.goto .fillReady, l)
  | .store v, l => (.goto .fill, l.setFlag (int32 (v + 1)))
  | .fill, l =>
      (.goto .data,
        (l.assert (l.req.flag = int32 (l.req.operationNumber * 2 + 2))).setFlagBuffer
          (int32 (l.req.operationNumber * 2 + 2)))
  | .fillReady, l => (.goto .ready, l.setFlagBuffer (int32 (l.req.operationNumber * 2 + 1)))
  -- nothing is computed
  | p, l => bSend tag toEp imm p l

def bRecv32 (imm : Bool) : Point → Local Op → Outcome Point × Local Op
  | .test, l =>
      if l.req.flag = int32 (l.req.operationNumber * 2 + 1) then (.goto .load, l)
      else (.goto .fillReady, l)
  | .store v, l => (.goto .data, l.setFlag (int32 (v + 1)))
  | .data, l =>
      (.goto .fence,
        (l.assert (l.req.flag = int32 (l.req.operationNumber * 2 + 2))).post
          (tag (.get l.req.operationNumber l.req.buf l.req.size l.req.remoteDataAddr)))
  | .fill, l => (.goto .signal, l.setFlagBuffer (int32 (l.req.operationNumber * 2 + 2)))
  | .fillReady, l => (.goto .ready, l.setFlagBuffer (int32 (l.req.operationNumber * 2 + 1)))
  | p, l => bRecv tag toEp imm p l

def eSend32 : SendWait → Local Op → Outcome SendWait × Local Op
  | .spin count, l =>
      if l.req.flag < int32 (l.req.operationNumber * 2 + 2) ∧ count < rdmaSpinWaitThreshold
      then (.goto (.spin (count + 1)), l) else (.goto .poll, l)
  | .poll, l =>
      if l.req.flag < int32 (l.req.operationNumber * 2 + 2) then (.progressOther .poll, l)
      else (.ret, l)
  | w, l => eSend toEp w l

def eRecv32 (imm : Bool) : RecvWait → Local Op → Outcome RecvWait × Local Op
  | .spin count, l =>
      if l.req.flag < int32 (l.req.operationNumber * 2 + 1) ∧ count < rdmaSpinWaitThreshold
      then (.goto (.spin (count + 1)), l) else (.goto .poll, l)
  | .poll, l =>
      if l.req.flag < int32 (l.req.operationNumber * 2 + 1)
      then (.progressOther .poll, l) else (.goto .crosstalk, l)
  | .crosstalk, l =>
      if l.req.flag = int32 (l.req.operationNumber * 2 + 1) then (.goto (.fetch .test), l)
      else (.ret, l)
  | .fetch p, l =>
      match bRecv32 tag toEp imm p l with
      | (.goto p', l') => (.goto (.fetch p'), l')
      | (_, l') => (.goto .fetched, l')
  | w, l => eRecv tag toEp imm w l

end

/-- One step of a process inside `b_send` or `e_send`. -/
def sendRun32 (imm : Bool) : SendPc → Local RdmaOp → Option (SendPc × Local RdmaOp)
  | .start p, l =>
      match bSend32 id oneEp imm p l with
      | (.goto p', l') => some (.start p', l')
      | (_, l') => some (.started, l')
  | .wait w, l =>
      match eSend32 oneEp w l with
      | (.goto w', l') => some (.wait w', l')
      | (.progressOther w', l') => some (.wait w', l')
      | (.ret, l') => some (.idle, l')
  | _, _ => none

/-- One step of a process inside `b_recv` or `e_recv`. -/
def recvRun32 (imm : Bool) : RecvPc → Local RdmaOp → Option (RecvPc × Local RdmaOp)
  | .start p, l =>
      match bRecv32 id oneEp imm p l with
      | (.goto p', l') => some (.start p', l')
      | (_, l') => some (.started, l')
  | .wait w, l =>
      match eRecv32 id oneEp imm w l with
      | (.goto w', l') => some (.wait w', l')
      | (.progressOther w', l') => some (.wait w', l')
      | (.ret, l') => some (.idle, l')
  | _, _ => none

/-- `request->operation_number++`. -/
def Local.countStart32 {Op : Type*} (l : Local Op) : Local Op :=
  { l with req := { l.req with operationNumber := int32 (l.req.operationNumber + 1) } }

namespace Pair

def step32 (p : Pair) : PairAct → Option Pair
  | .sendStart =>
      if p.sendPc = .idle ∧ p.send.req.type = .send then
        some { p with
          sendPc := .start .test
          send := p.send.countStart32
          sent := Function.update p.sent (int32 (p.send.req.operationNumber + 1)) p.sendBuf }
      else none
  | .sendRun imm =>
      match sendRun32 imm p.sendPc p.send with
      | some (pc, l) => some { p with sendPc := pc, send := l }
      | none => none
  | .recvStart =>
      if p.recvPc = .idle ∧ p.recv.req.type = .recv then
        some { p with recvPc := .start .test, recv := p.recv.countStart32 }
      else none
  | .recvRun imm =>
      match recvRun32 imm p.recvPc p.recv with
      | some (.idle, l) =>
          some { p with
            recvPc := .idle
            recv := l
            received := Function.update p.received l.req.operationNumber (some p.recvBuf) }
      | some (pc, l) => some { p with recvPc := pc, recv := l }
      | none => none
  -- the user writes, a Wait is called or an operation lands
  | act => p.step act

/-- The counters of a request fit, and so does what is compared with them. -/
structure Fits (q : MpioptRequest) : Prop where
  flag : Int32 q.flag
  flagBuffer : Int32 q.flagBuffer
  number : 0 ≤ q.operationNumber ∧ q.operationNumber * 2 + 2 < 2 ^ 31

/-- A connected pair whose counters fit, before operation `k + 1`. -/
structure Init32 (k : Int) (p : Pair) : Prop extends Fresh k p where
  sendFits : Fits p.send.req
  recvFits : Fits p.recv.req

/-- Start is called only for operations whose last flag value fits. -/
def InRange (p : Pair) (act : PairAct) : Prop :=
  (act = .sendStart → (p.send.req.operationNumber + 1) * 2 + 2 < 2 ^ 31) ∧
    (act = .recvStart → (p.recv.req.operationNumber + 1) * 2 + 2 < 2 ^ 31)

/-- The tests answer as over the integers. -/
structure SameTests (q : MpioptRequest) : Prop where
  isReady : q.flag = int32 (q.operationNumber * 2 + 1) ↔ q.flag = q.operationNumber * 2 + 1
  beforeReady : q.flag < int32 (q.operationNumber * 2 + 1) ↔ q.flag < q.operationNumber * 2 + 1
  beforeDone : q.flag < int32 (q.operationNumber * 2 + 2) ↔ q.flag < q.operationNumber * 2 + 2

/-- Wrapping makes no difference. -/
structure AsUnbounded (k : Int) (p : Pair) : Prop where
  /-- The state is one that unbounded counters lead to. -/
  unbounded : Reach step anyStep (Fresh k) p
  sendTests : SameTests p.send.req
  recvTests : SameTests p.recv.req
  /-- No Wait has returned before the payload was transferred. -/
  delivers : p.Delivers k
  /-- A Wait can return if it could with unbounded counters. -/
  sendReturns : ∀ n, Leads step32 PairAct.OfSend (·.SendDone n) p ↔ p.SendCanReturn n
  recvReturns : ∀ n, Leads step32 PairAct.OfRecv (·.RecvDone n) p ↔ p.RecvCanReturn n
  /-- Once both sides have started and everything has landed, the receiver's Wait can return, and
  the sender's if the receiver has not left the payload to itself. -/
  returns : ∀ n, p.BothStarted n → p.AllLanded →
    Leads step32 PairAct.OfRecv (·.RecvDone n) p ∧
      (p.send.req.flag ≠ 2 * n + 1 → Leads step32 PairAct.OfSend (·.SendDone n) p)

end Pair

end CompMatch.Rendezvous

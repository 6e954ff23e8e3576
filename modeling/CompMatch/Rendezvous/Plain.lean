/-
A receiver whose sender uses plain MPI.

The process has one receive request.  No handshake info ever arrives for it, and nobody
takes its own.  The sender sends one message an operation, on the communicator of the
request; they arrive when they arrive, and the receives that were posted match them in
order.

Here a probe finds a message as soon as it has arrived, and a test finds a receive
complete as soon as its message has.  So what is left open is when the messages arrive.
`startProbe`, `consumed` and `returned` record what has happened and are read by nothing.
-/
import CompMatch.Lib.Runs
import CompMatch.Rendezvous.Handshake

namespace CompMatch.Rendezvous

/-- What there was as the first Wait returned. -/
structure FirstReturn where
  type : RequestType
  buf : List UInt8
  consumed : Nat
deriving DecidableEq, Repr

structure Plain where
  proc : Proc
  /-- The messages that have arrived. -/
  arrived : Nat
  /-- The receives that were posted. -/
  posted : Nat
  /-- The receives that are complete. -/
  consumed : Nat
  /-- What the receive buffer holds. -/
  buf : List UInt8
  /-- What the `MPI_Iprobe` in `start_recv_when_searching_for_connection` found first. -/
  startProbe : Option Bool
  returned : Option FirstReturn

inductive PlainAct
  | recv (a : ProcAct)
  | arrives

/-- What the receiver's process and its user do. -/
def PlainAct.OfRecv : PlainAct → Prop
  | .recv (.init _ _) | .recv .start | .recv .wait | .recv (.run _) => True
  | _ => False

namespace Plain

/-- A probe finds a message. -/
def probable (s : Plain) : Bool := decide (s.posted < s.arrived)

/-- Every receive that was posted is complete. -/
def filled (s : Plain) : Bool := decide (s.posted ≤ s.arrived)

/-- What MPI answers. -/
def permits (s : Plain) (flag : Bool) : Option MpiCall → Bool
  | some (.iprobe _ .comm) => flag == s.probable
  | some (.iprobe _ _) | some (.testExchange _) => !flag
  | some (.testBackup _) | some (.waitBackup _) => flag == s.filled
  | _ => true

/-- The receive behind the handle is complete: the buffer has its message. -/
def complete (s : Plain) (payload : Nat → List UInt8) (flag : Bool) : Plain :=
  if flag ∧ (s.proc.reqs 0).backupRequest.isSome then
    { s with buf := payload s.posted, consumed := s.consumed + 1 }
  else s

/-- What a call does to the messages. -/
def effect (s : Plain) (payload : Nat → List UInt8) (flag : Bool) : Option MpiCall → Plain
  | some (.irecv _) => { s with posted := s.posted + 1 }
  | some (.testBackup _) | some (.waitBackup _) => s.complete payload flag
  | some (.iprobe _ .comm) =>
      match s.proc.call with
      | .startRecv _ .probe => { s with startProbe := s.startProbe.or (some flag) }
      | _ => s
  | _ => s

/-- The process goes on as `p`; its first Wait may just have returned. -/
def setProc (s : Plain) (p : Proc) : Plain :=
  { s with
    proc := p
    returned :=
      if s.returned = none ∧ s.proc.active 0 = true ∧ p.active 0 = false then
        some ⟨(p.reqs 0).type, s.buf, s.consumed⟩
      else s.returned }

/-- `payload` has the messages, counted from 1. -/
def step (payload : Nat → List UInt8) (s : Plain) : PlainAct → Option Plain
  | .recv a =>
      match s.proc.act .recvSearch a with
      | some (p, call) =>
          if s.permits a.flag call then some ((s.effect payload a.flag call).setProc p) else none
      | none => none
  | .arrives => some { s with arrived := s.arrived + 1 }

/-- The process has no request, and nothing has arrived. -/
structure Init (s : Plain) : Prop where
  proc : s.proc.Blank
  active : s.proc.active 0 = false
  arrived : s.arrived = 0
  posted : s.posted = 0
  consumed : s.consumed = 0
  startProbe : s.startProbe = none
  returned : s.returned = none

/-- The first Wait returned: the request has fallen back, its buffer has the first message, and
only that was consumed. -/
def FirstDone (payload : Nat → List UInt8) (s : Plain) : Prop :=
  s.returned = some ⟨.recvFallback, payload 1, 1⟩

/-- The receiver alone can get its first Wait to return, or has. -/
def CanReturn (payload : Nat → List UInt8) (s : Plain) : Prop :=
  Leads (step payload) PlainAct.OfRecv (FirstDone payload) s

end Plain

end CompMatch.Rendezvous

/-
One process that waits, and what the others have done so far.

What the others do for a request of the process comes down to a few facts: whether a
handshake message for it was sent, whether its own was received, whether the payload it
has sent was received.  A probe finds no handshake message that was not sent, and a test
finds nothing complete that is not; either may miss what there is, as it may still be on
its way.  The flags are written by the other processes, and their values grow.

That nobody does anything more is a run with the steps of the process alone.
-/
import CompMatch.Lib.Runs
import CompMatch.Rendezvous.History

namespace CompMatch.Rendezvous

structure Alone where
  history : History
  /-- A handshake message for the request was sent and not received. -/
  offered : Rid → Bool
  /-- The handshake message of the request was received. -/
  taken : Rid → Bool
  /-- The payload that was posted for the send request was received. -/
  received : Rid → Bool

inductive AloneAct
  | history (act : HistoryAct)
  | takes (r : Rid)     -- the counterpart calls receive_rdma_info
  | receives (r : Rid)  -- a receive matches the payload of a send request
deriving DecidableEq, Repr

/-- The process goes on, and what it has handed to UCX takes effect. -/
def AloneAct.OfProc : AloneAct → Prop
  | .history (.run _) | .history (.lands _) => True
  | _ => False

/-- The request that the function the user called waits for. -/
def Call.waits : Call → Option Rid
  | .eSend r _ | .eRecv r _ | .waitSend r _ | .waitRecv r _ | .mpiWait r => some r
  | _ => Option.none

namespace Alone

def proc (s : Alone) : Proc := s.history.proc

/-- What MPI answers to a call. -/
def answers (s : Alone) (flag : Bool) : Option MpiCall → Bool
  | some (.iprobe r .handshake) | some (.iprobe r .response) => !flag || s.offered r
  | some (.testExchange r) => !flag || s.taken r
  | some (.testBackup r) | some (.waitBackup r) =>
      !flag || (s.proc.reqs r).type.isRecv || s.received r
  | _ => true

/-- The MPI call that a step makes. -/
def call (s : Alone) : HistoryAct → Option MpiCall
  | .run ans => (s.proc.run ans).bind (·.2)
  | .start r => (s.proc.start r).2
  | _ => none

/-- What the others allow. -/
def permits (s : Alone) : HistoryAct → Bool
  | .run ans => s.answers ans.flag (s.call (.run ans))
  | .writeFlag r v => decide ((s.proc.reqs r).flag ≤ v)
  | _ => true

/-- The history goes on as `h`. -/
def follow (s : Alone) (h : History) (act : HistoryAct) : Alone :=
  { s with
    history := h
    offered := fun r =>
      match act, s.call act with
      | .announces q _, _ => r = q || s.offered r
      | _, some (.recv q _) => r != q && s.offered r
      | _, _ => s.offered r
    received := fun r =>
      match s.call act with
      | some (.issend q _) | some (.isend q) => r != q && s.received r
      | _ => s.received r }

def step (s : Alone) : AloneAct → Option Alone
  | .history act =>
      match s.history.step act with
      | some h => if s.permits act then some (s.follow h act) else none
      | none => none
  | .takes r =>
      if r < s.proc.nextRid then some { s with taken := Function.update s.taken r true } else none
  | .receives r =>
      if (s.proc.reqs r).backupRequest.isSome ∧ (s.proc.reqs r).type.isRecv = false then
        some { s with received := Function.update s.received r true }
      else none

/-- No request was initialised yet. -/
structure Init (s : Alone) : Prop where
  history : History.Init s.history
  offered : ∀ r, s.offered r = false
  taken : ∀ r, s.taken r = false
  received : ∀ r, s.received r = false

/-! ### Waiting -/

/-- The process is in a Wait on request `a`. -/
def WaitsFor (s : Alone) (a : Rid) : Prop := s.proc.call.waits = some a

instance (s : Alone) (a : Rid) : Decidable (s.WaitsFor a) := inferInstanceAs (Decidable (_ = _))

/-- The operation behind `backup_request` is complete. -/
def BackupDone (s : Alone) (a : Rid) : Prop :=
  if (s.proc.reqs a).type.isRecv then
    0 < s.history.posted a ∧ s.history.delivered a = s.history.posted a
  else s.received a = true

instance (s : Alone) (a : Rid) : Decidable (s.BackupDone a) :=
  inferInstanceAs (Decidable (if (s.proc.reqs a).type.isRecv then
    0 < s.history.posted a ∧ s.history.delivered a = s.history.posted a else s.received a = true))

/-- The flag of request `a` has its final value, and its flushes are done. -/
def FlagDone (s : Alone) (a : Rid) : Prop :=
  (s.proc.reqs a).operationNumber * 2 + 2 ≤ (s.proc.reqs a).flag ∧
    flushed (s.proc.toEp a) s.proc.worker (s.proc.reqs a).ucxRequestFlagTransfer = true ∧
      flushed (s.proc.toEp a) s.proc.worker (s.proc.reqs a).ucxRequestDataTransfer = true

instance (s : Alone) (a : Rid) : Decidable (s.FlagDone a) := inferInstanceAs (Decidable (_ ∧ _))

/-- The operation of request `a` is complete. -/
def Completed (s : Alone) (a : Rid) : Prop :=
  match s.proc.call with
  | .eSend _ _ | .eRecv _ _ => s.FlagDone a
  | _ => s.BackupDone a

/-- The Wait can return by the steps of the process alone. -/
def CanReturn (s : Alone) : Prop := Leads step AloneAct.OfProc (fun s => s.history.Free) s

/-- The first Start of request `a` finds no payload before the handshake message. -/
def Unhurried (a : Rid) (s : Alone) : AloneAct → Prop
  | .history (.run ans) =>
      s.call (.run ans) = some (.iprobe a .comm) → s.proc.call = .startRecv a .probe → ans.flag = false
  | _ => True

/-- A handshake message is found only when the request's own was received. -/
def Answered (s : Alone) : AloneAct → Prop
  | .history (.run ans) =>
      match s.call (.run ans) with
      | some (.iprobe r .handshake) | some (.iprobe r .response) => ans.flag = true → s.taken r = true
      | _ => True
  | _ => True

/-- Both, for a Wait on request `a`. -/
def Harmless (a : Rid) (s : Alone) (act : AloneAct) : Prop := Unhurried a s act ∧ Answered s act

end Alone

end CompMatch.Rendezvous

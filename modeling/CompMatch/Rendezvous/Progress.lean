/-
When a Wait of a connected pair can return without the other side.

Once both sides have executed Start for an operation, MPI asks that either Wait can be
finished by its own process: by the steps of that process's code, and by the effects of
what it has handed to UCX.  The other process may be computing, or wait for something
else.
-/
import CompMatch.Lib.Runs
import CompMatch.Rendezvous.Pair

namespace CompMatch.Rendezvous

/-- What the sender's process does by itself. -/
def PairAct.OfSend : PairAct → Prop
  | .sendRun _ | .sendWait | .sendLands _ => True
  | _ => False

/-- What the receiver's process does by itself. -/
def PairAct.OfRecv : PairAct → Prop
  | .recvRun _ | .recvWait | .recvLands _ => True
  | _ => False

namespace Pair

/-- A connected pair before operation `k + 1`, with no fence ahead of what was posted. -/
structure Fresh (k : Int) (p : Pair) : Prop extends Init k p where
  fence : p.recv.worker.barrier ≤ p.recv.worker.clock

/-- Both sides have executed Start for operation `n`. -/
structure BothStarted (p : Pair) (n : Int) : Prop where
  sendNumber : p.send.req.operationNumber = n
  recvNumber : p.recv.req.operationNumber = n
  sendPc : ∀ pt, p.sendPc ≠ .start pt
  recvPc : ∀ pt, p.recvPc ≠ .start pt

/-- Everything that was handed to UCX has taken effect. -/
structure AllLanded (p : Pair) : Prop where
  send : p.send.worker.pending = []
  recv : p.recv.worker.pending = []

/-- The sender's Wait for operation `n` can return, or has. -/
def SendCanReturn (p : Pair) (n : Int) : Prop := Leads step PairAct.OfSend (·.SendDone n) p

/-- The receiver's Wait for operation `n` can return, or has. -/
def RecvCanReturn (p : Pair) (n : Int) : Prop := Leads step PairAct.OfRecv (·.RecvDone n) p

end Pair

end CompMatch.Rendezvous

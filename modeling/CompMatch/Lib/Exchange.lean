/-
One message sent in synchronous mode.

The send is complete once the receiver has begun to receive the message, and the
sender is told so.  Both ends learn of it in their own time: the receive is complete
when the message has arrived, the send when the acknowledgement has.
-/
import Mathlib.Logic.Basic

namespace CompMatch

structure Exchange where
  sent : Bool      -- the synchronous send was called
  posted : Bool    -- the receive was called
  arrived : Bool   -- the receive is complete
  acked : Bool     -- the send is complete
deriving DecidableEq, Repr

namespace Exchange

/-- Neither side has called anything. -/
def idle : Exchange := ⟨false, false, false, false⟩

def send (e : Exchange) : Exchange := { e with sent := true }

def post (e : Exchange) : Exchange := { e with posted := true }

/-- The message arrives, if it was sent and is awaited. -/
def arrive (e : Exchange) : Option Exchange :=
  if e.sent && e.posted then some { e with arrived := true } else none

/-- The acknowledgement arrives, if the message has. -/
def ack (e : Exchange) : Option Exchange := if e.arrived then some { e with acked := true } else none

/-- Nothing arrives before it was sent. -/
structure Causal (e : Exchange) : Prop where
  arrived : e.arrived = true → e.sent = true ∧ e.posted = true
  acked : e.acked = true → e.arrived = true

theorem causal_idle : idle.Causal := ⟨by simp [idle], by simp [idle]⟩

theorem Causal.send {e : Exchange} (h : e.Causal) : e.send.Causal :=
  ⟨fun ha => ⟨rfl, (h.arrived ha).2⟩, h.acked⟩

theorem Causal.post {e : Exchange} (h : e.Causal) : e.post.Causal :=
  ⟨fun ha => ⟨(h.arrived ha).1, rfl⟩, h.acked⟩

/-- What arrives was sent. -/
theorem causal_of_arrive {e e' : Exchange} (hs : e.arrive = some e') : e'.Causal := by
  unfold Exchange.arrive at hs
  split at hs <;> simp only [reduceCtorEq, Option.some.injEq] at hs
  rename_i hc
  subst hs
  exact ⟨fun _ => by simpa using hc, fun _ => rfl⟩

theorem Causal.ack {e e' : Exchange} (h : e.Causal) (hs : e.ack = some e') : e'.Causal := by
  unfold Exchange.ack at hs
  split at hs <;> simp only [reduceCtorEq, Option.some.injEq] at hs
  rename_i hc
  subst hs
  exact ⟨h.arrived, fun _ => hc⟩

end Exchange

end CompMatch

/-
Two calls in loops and in functions.

A request that an init call creates lives until it is freed.  In between loops may go round,
and functions may be left and called again.  The run of a program is cut down to what
matters for one init call and one other call: when each of them is executed, in which
iteration of the loops and in which activation of the functions around it, and when a
request is freed.  These are the loops and functions that the call is in, and those that
this code is called from.

The value of an operand is a recurrence: it depends on the counters of the loops and on the
activation, in any way.
-/
import CompMatch.Pass.ConflictDetection
import Mathlib.Data.Set.Basic

namespace CompMatch.Pass

/-- What is gone through again and again. -/
inductive Scope
  | loop (l : Nat)
  | function (f : FuncId)
deriving DecidableEq, Repr

/-- Which iteration of each loop it is, and which activation of each function. -/
abbrev Instant := Scope → Nat

inductive Event
  | init (at' : Instant)    -- creates a request, named by the place of this event in the run
  | other (at' : Instant)
  | free (request : Nat)

/-- What is around the init call and around the other call, and a run. -/
structure LoopRun where
  initScopes : List Scope
  otherScopes : List Scope
  events : List Event

/-- The values of the operands.  An integer constant has its own; any other constant, such as an
address or `undef`, has what it gets. -/
structure Recurrences where
  value : Value → Instant → Int
  constInt : ∀ bits v t, value (.constInt bits v) t = v

/-- The instants of the two calls at which the operands have the same value. -/
def Recurrences.meetings (rec : Recurrences) (a b : Value) : Set (Instant × Instant) :=
  {p | rec.value a p.1 = rec.value b p.2}

/-- What `isKnownPredicate(ICMP_NE, ..)` answers for the two operands; it is asked for an operand
that is computed, and that one is the first. -/
def LoopAnalysis.knowsDifferent (se : LoopAnalysis) (a b : Value) : Bool :=
  a.isInstruction && se.isKnownNe a b || !a.isInstruction && b.isInstruction && se.isKnownNe b a

/-- An integer constant. -/
def Value.isConstantInt : Value → Bool
  | .constInt _ _ => true
  | _ => false

namespace LoopRun

variable (r : LoopRun)

/-- At event `j` the other call is executed, in instant `w`, and the request that the init call
has created at event `i`, in instant `v`, is not freed yet. -/
def Alive (i j : Nat) (v w : Instant) : Prop :=
  r.events[i]? = some (.init v) ∧ r.events[j]? = some (.other w) ∧ i < j ∧
    ∀ k, i < k → k < j → ∀ e, r.events[k]? = some e → e ≠ .free i

/-- The two calls are in the same iteration of every loop around both, and in the same activation
of every function. -/
def SameIteration (v w : Instant) : Prop :=
  ∀ x ∈ r.initScopes, x ∈ r.otherScopes → v x = w x

/-- The instants of an init call, and of another call while the request is alive. -/
def lives : Set (Instant × Instant) := {p | ∃ i j, r.Alive i j p.1 p.2}

/-- Those for which a loop has gone round in between, or a function was called again. -/
def livesOn : Set (Instant × Instant) := {p ∈ r.lives | ¬ r.SameIteration p.1 p.2}

/-- What is assumed of `isKnownPredicate`: two values that it knows to differ do so whenever they
are evaluated in the same iteration. -/
def KnownNeSound (se : LoopAnalysis) (rec : Recurrences) : Prop :=
  ∀ a b v w, r.SameIteration v w →
    (se.isKnownNe a b = true ∨ se.isKnownNe b a = true) → rec.value a v ≠ rec.value b w

/--
How the recurrences must go together with the lives of the requests.  Constants that are no
integers must not meet at all; recurrences that are known to differ must not meet at the distance
of a life that goes on in another iteration or activation.
-/
def KeptApart (se : LoopAnalysis) (rec : Recurrences) (a b : Value) : Prop :=
  if a.isConstant && b.isConstant then
    a = b ∨ (a.isConstantInt && b.isConstantInt) = true ∨ ∀ p ∈ r.lives, p ∉ rec.meetings a b
  else se.knowsDifferent a b = true → ∀ p ∈ r.livesOn, p ∉ rec.meetings a b

/-- No request is alive in another iteration or activation. -/
def WithinIteration : Prop := r.livesOn = ∅

end LoopRun

end CompMatch.Pass

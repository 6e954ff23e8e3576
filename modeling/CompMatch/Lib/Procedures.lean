/-
Programs with procedures.

A state is the stack of activations, the innermost first.  An activation goes from
location to location, enters a procedure, or leaves its own, in one of several ways;
then its caller goes on, in a way that depends on how it was left.

What an activation can get to does not depend on its callers.  So what a run reaches
is found without stacks: `Gets` says where the activations of each procedure get to,
with the procedures they enter taken as one step, and `Enters` which procedures these
are.
-/
import CompMatch.Lib.Runs

namespace CompMatch

variable {P L E : Type*}

/-- Where an activation is. -/
inductive Spot (L E : Type*)
  | at (l : L)
  | left (e : E)

/-- A program of procedures `P`, with locations `L`, that are left in the ways `E`. -/
structure Procedures (P L E : Type*) where
  entry : P → L
  /-- The procedure entered at a location. -/
  target : P → L → Option P
  /-- Where an activation can go from a location at which no procedure is entered. -/
  next : P → L → List (Spot L E)
  /-- Where an activation goes on once the procedure it has entered is left. -/
  after : P → L → E → Spot L E

namespace Procedures

/-- A choice of the machine. -/
inductive Choice
  | goes (i : Nat)
  | enters
  | leaves

variable (pr : Procedures P L E)

def step : List (P × Spot L E) → Choice → Option (List (P × Spot L E))
  | (f, .at l) :: rest, .goes i =>
      match pr.target f l with
      | some _ => none
      | none => ((pr.next f l)[i]?).map fun s => (f, s) :: rest
  | (f, .at l) :: rest, .enters =>
      (pr.target f l).map fun g => (g, .at (pr.entry g)) :: (f, .at l) :: rest
  | (_, .left e) :: (f, .at l) :: rest, .leaves => some ((f, pr.after f l e) :: rest)
  | _, _ => none

/-- `f` was called. -/
def Started (f : P) (stack : List (P × Spot L E)) : Prop := stack = [(f, .at (pr.entry f))]

/-- Where an activation of a procedure can get to. -/
inductive Gets : P → Spot L E → Prop
  | entry (f : P) : Gets f (.at (pr.entry f))
  | goes {f : P} {l : L} {s : Spot L E} (h : Gets f (.at l)) (ht : pr.target f l = none)
      (hs : s ∈ pr.next f l) : Gets f s
  | returns {f g : P} {l : L} {e : E} (h : Gets f (.at l)) (ht : pr.target f l = some g)
      (hg : Gets g (.left e)) : Gets f (pr.after f l e)

/-- Every activation on the stack is where it can get to, and has entered the one above it. -/
inductive Stacked (f : P) : List (P × Spot L E) → Prop
  | base {s : Spot L E} (h : pr.Gets f s) : Stacked f [(f, s)]
  | call {g h : P} {l : L} {s : Spot L E} {rest : List (P × Spot L E)}
      (hr : Stacked f ((h, .at l) :: rest)) (ht : pr.target h l = some g) (hg : pr.Gets g s) :
      Stacked f ((g, s) :: (h, .at l) :: rest)

variable {pr} {f g : P} {s : Spot L E} {rest : List (P × Spot L E)}

theorem Stacked.gets (h : pr.Stacked f ((g, s) :: rest)) : pr.Gets g s := by
  cases h with
  | base h => exact h
  | call _ _ hg => exact hg

theorem Stacked.moves {s' : Spot L E} (h : pr.Stacked f ((g, s) :: rest)) (hs : pr.Gets g s') :
    pr.Stacked f ((g, s') :: rest) := by
  cases h with
  | base _ => exact .base hs
  | call hr ht _ => exact .call hr ht hs

theorem Stacked.step {stack stack' : List (P × Spot L E)} {c : Choice} (h : pr.Stacked f stack)
    (hs : pr.step stack c = some stack') : pr.Stacked f stack' := by
  unfold Procedures.step at hs
  split at hs
  · rename_i g l rest i
    split at hs
    · cases hs
    · rename_i ht
      obtain ⟨s, hn, rfl⟩ := Option.map_eq_some_iff.mp hs
      exact h.moves (.goes h.gets ht (List.mem_of_getElem? hn))
  · rename_i g l rest
    obtain ⟨k, ht, rfl⟩ := Option.map_eq_some_iff.mp hs
    exact .call h ht (.entry k)
  · cases hs
    cases h with
    | call hr ht hg => exact hr.moves (.returns hr.gets ht hg)
  · cases hs

/-- Whatever an activation can get to, it gets to above any stack. -/
theorem Gets.run {init : List (P × Spot L E) → Prop} (h : pr.Gets g s) :
    ∀ {rest}, Reach pr.step anyStep init ((g, .at (pr.entry g)) :: rest) →
      Reach pr.step anyStep init ((g, s) :: rest) := by
  induction h with
  | entry f =>
      intro rest hr
      exact hr
  | @goes f l s h ht hs ih =>
      intro rest hr
      obtain ⟨i, hi⟩ := List.mem_iff_getElem?.mp hs
      have hstep : pr.step ((f, .at l) :: rest) (.goes i) = some ((f, s) :: rest) := by
        simp [Procedures.step, ht, hi]
      exact .step (ih hr) trivial hstep
  | @returns f g l e h ht hg ih ihg =>
      intro rest hr
      have henter : pr.step ((f, .at l) :: rest) .enters =
          some ((g, .at (pr.entry g)) :: (f, .at l) :: rest) := by
        simp [Procedures.step, ht]
      have hleft := ihg (.step (ih hr) trivial henter)
      exact .step hleft trivial (a := .leaves) rfl

end Procedures

end CompMatch

/-
Differences across iterations.

Two recurrences that differ in every iteration may still meet: one has in a later
iteration the value the other had before.  It is the same with two parameters of a function
that is called twice.  So a difference that was proved for the same iteration holds for the
life of a request only if the recurrences do not meet at the distance of that life.  If they
go with one counter, that is one distance: the counter and the counter moved by ten meet
after ten iterations.

If nothing is known of the recurrences, no request may live on into another iteration or
activation at all: for any such life there are recurrences that meet at its end.
-/
import CompMatch.Pass.Iterations

namespace CompMatch.Pass

variable {build : Build} {se : LoopAnalysis} {rec : Recurrences} {a b : Value} {bits : Nat}

/-! ### What is proved -/

namespace LoopRun

variable {r : LoopRun} {v w : Instant}

/-! ### Lives -/

/-- Two that go with the same counter meet at one distance. -/
theorem meetings_of_affine {x : Scope} {slope base base' : Int}
    (ha : ∀ t, rec.value a t = slope * t x + base) (hb : ∀ t, rec.value b t = slope * t x + base') :
    (v, w) ∈ rec.meetings a b ↔ slope * ((w x : Int) - v x) = base - base' := by
  show rec.value a v = rec.value b w ↔ _
  rw [ha, hb, Int.mul_sub]
  omega

/-- The operand of the init call. -/
def counter : Value := .instruction (.int 32) 0 (0, 0)

/-- The operand of the other call. -/
def movedCounter : Value := .instruction (.int 32) 0 (0, 1)

/-- A counter, and the same moved by a distance. -/
def counters (x : Scope) (distance : Int) : Recurrences where
  value
    | .constInt _ v, _ => v
    | .instruction _ _ (_, 0), t => t x
    | .instruction _ _ (_, 1), t => t x + distance
    | _, _ => 0
  constInt _ _ _ := rfl

/-- It is known that the two differ. -/
def knowsCounters : LoopAnalysis where
  isKnownNe a b := a == counter && b == movedCounter
  isKnownEq _ _ := false
  isLoopComputable _ := true

/-- The counter and the moved one meet at that distance. -/
theorem counters_meet_iff {x : Scope} {distance : Int} :
    (v, w) ∈ (counters x distance).meetings counter movedCounter ↔ (v x : Int) - w x = distance := by
  have ha : ∀ t, (counters x distance).value counter t = 1 * t x + 0 := by
    intro t
    rw [Int.one_mul, Int.add_zero]
    rfl
  have hb : ∀ t, (counters x distance).value movedCounter t = 1 * t x + distance := by
    intro t
    rw [Int.one_mul]
    rfl
  rw [meetings_of_affine ha hb]
  omega

theorem counters_sound {x : Scope} {distance : Int} (hi : x ∈ r.initScopes) (ho : x ∈ r.otherScopes)
    (hd : distance ≠ 0) : r.KnownNeSound knowsCounters (counters x distance) := by
  intro a b v w hsame hknown
  have hx : v x = w x := hsame x hi ho
  simp only [knowsCounters, Bool.and_eq_true, beq_iff_eq] at hknown
  rcases hknown with ⟨rfl, rfl⟩ | ⟨rfl, rfl⟩
  · intro heq
    have hmeet : (v x : Int) - w x = distance := counters_meet_iff.mp heq
    omega
  · intro heq
    have hmeet : (w x : Int) - v x = distance := counters_meet_iff.mp heq.symm
    omega

/--
Whatever the recurrences are: what is known to differ does so while the request is alive, if and
only if no request lives on into another iteration or activation.
-/
theorem keptApart_always_iff : (∀ se rec a b, (a.isConstant && b.isConstant) = false →
    r.KnownNeSound se rec → r.KeptApart se rec a b) ↔ r.WithinIteration := by
  constructor
  · intro h
    refine Set.eq_empty_iff_forall_notMem.mpr ?_
    rintro ⟨v, w⟩ hlives
    refine hlives.2 fun x hi ho => ?_
    show v x = w x
    by_contra hne
    have hd : (v x : Int) - w x ≠ 0 := by omega
    have hapart := h knowsCounters (counters x ((v x : Int) - w x)) counter movedCounter rfl
      (counters_sound hi ho hd)
    exact hapart (by decide) (v, w) hlives (counters_meet_iff.mpr rfl)
  · intro h se rec a b hconst _
    rw [KeptApart, if_neg (by rw [hconst]; exact Bool.false_ne_true)]
    intro _ p hp
    rw [h] at hp
    exact hp.elim

end LoopRun

/-! ### Requests that are freed later -/

/-- Twice a request is created and then the other call is executed, in two iterations of a loop or
in two activations of a function.  The requests are freed in the end. -/
def twice (x : Scope) : LoopRun where
  initScopes := [x]
  otherScopes := [x]
  events := [.init fun _ => 0, .other fun _ => 0, .init fun _ => 1, .other fun _ => 1, .free 0, .free 2]

end CompMatch.Pass

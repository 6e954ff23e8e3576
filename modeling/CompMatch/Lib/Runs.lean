/-
Runs of a machine that may be stepped in many ways.

A machine is a partial function from a state and an action to the next state.
The action names everything the step leaves open: which party moves, what a
probe answers, which outstanding operation takes effect.  A run is then a list of
actions, and "every interleaving" is "every list".

`Reach` also carries a condition on the steps that were taken.  A property that
holds of a program only while some branch is not taken is a property of the runs
whose steps all meet that condition.
-/
import Mathlib.Logic.Relation

namespace CompMatch

variable {S A T B : Type*}

/-- Take the actions in order, if each is enabled where it comes up. -/
def runFrom (step : S → A → Option S) : S → List A → Option S
  | s, [] => some s
  | s, a :: rest =>
      match step s a with
      | some s' => runFrom step s' rest
      | none => none

/-- One list of actions after another. -/
theorem runFrom_append {step : S → A → Option S} {s s' : S} {as bs : List A}
    (h : runFrom step s as = some s') : runFrom step s (as ++ bs) = runFrom step s' bs := by
  induction as generalizing s with
  | nil =>
      rw [runFrom] at h
      rw [Option.some.inj h]
      rfl
  | cons a rest ih =>
      rw [runFrom] at h
      rw [List.cons_append, runFrom]
      cases hs : step s a with
      | none => simp [hs] at h
      | some s₁ =>
          rw [hs] at h
          exact ih h

/-- The states reached from `init` by steps that all meet `ok`. -/
inductive Reach (step : S → A → Option S) (ok : S → A → Prop) (init : S → Prop) : S → Prop
  | init {s : S} (h : init s) : Reach step ok init s
  | step {s s' : S} {a : A} (h : Reach step ok init s) (hok : ok s a)
      (hs : step s a = some s') : Reach step ok init s'

/-- The condition that every step meets. -/
def anyStep (_ : S) (_ : A) : Prop := True

/-- A machine that only takes the steps a test lets through. -/
def guarded (test : S → A → Bool) (step : S → A → Option S) (s : S) (a : A) : Option S :=
  if test s a then step s a else none

namespace Reach

variable {step : S → A → Option S} {ok : S → A → Prop} {init : S → Prop}

/-- What holds at the start and is kept by every step holds wherever a run leads. -/
theorem invariant {I : S → Prop} (h0 : ∀ s, init s → I s)
    (hstep : ∀ s s' a, I s → ok s a → step s a = some s' → I s') {s : S}
    (h : Reach step ok init s) : I s := by
  induction h with
  | init h => exact h0 _ h
  | step _ hok hs ih => exact hstep _ _ _ ih hok hs

/-- A list of actions that runs through reaches where it ends. -/
theorem of_runFrom : ∀ (as : List A) {s s' : S}, Reach step anyStep init s →
    runFrom step s as = some s' → Reach step anyStep init s' := by
  intro as
  induction as with
  | nil =>
      intro s s' h hrun
      rw [runFrom] at hrun
      exact Option.some.inj hrun ▸ h
  | cons a rest ih =>
      intro s s' h hrun
      rw [runFrom] at hrun
      split at hrun
      · rename_i s₁ hs
        exact ih (.step h trivial hs) hrun
      · simp at hrun

/-- The same for a list whose steps all meet a condition that can be tested. -/
theorem of_guarded {test : S → A → Bool} (htest : ∀ s a, test s a = true → ok s a) :
    ∀ (as : List A) {s s' : S}, Reach step ok init s →
      runFrom (guarded test step) s as = some s' → Reach step ok init s' := by
  intro as
  induction as with
  | nil =>
      intro s s' h hrun
      rw [runFrom] at hrun
      exact Option.some.inj hrun ▸ h
  | cons a rest ih =>
      intro s s' h hrun
      rw [runFrom] at hrun
      split at hrun
      · rename_i s₁ hs
        unfold guarded at hs
        split at hs
        · rename_i hok
          exact ih (.step h (htest s a hok) hs) hrun
        · simp at hs
      · simp at hrun

/--
**Forward simulation.**  If every step of one machine is matched by a run of the
other that keeps `R`, whatever the first reaches is related to something the second
reaches.
-/
theorem simulate {step₂ : T → B → Option T} {ok₂ : T → B → Prop} {init₂ : T → Prop}
    {R : S → T → Prop} (h0 : ∀ s, init s → ∃ t, init₂ t ∧ R s t)
    (hstep : ∀ s s' a t, R s t → Reach step₂ ok₂ init₂ t → ok s a → step s a = some s' →
      ∃ t', Reach step₂ ok₂ init₂ t' ∧ R s' t')
    {s : S} (h : Reach step ok init s) : ∃ t, Reach step₂ ok₂ init₂ t ∧ R s t := by
  induction h with
  | init h =>
      obtain ⟨t, ht, hR⟩ := h0 _ h
      exact ⟨t, .init ht, hR⟩
  | step _ hok hs ih =>
      obtain ⟨t, ht, hR⟩ := ih
      exact hstep _ _ _ t hR ht hok hs

end Reach

/-- Some steps that all meet `own` lead from `s` to a state that meets `goal`. -/
def Leads (step : S → A → Option S) (own : A → Prop) (goal : S → Prop) (s : S) : Prop :=
  ∃ (as : List A) (s' : S), (∀ a ∈ as, own a) ∧ runFrom step s as = some s' ∧ goal s'

namespace Leads

variable {step : S → A → Option S} {own : A → Prop} {goal : S → Prop} {s s' : S} {a : A}

theorem here (h : goal s) : Leads step own goal s := ⟨[], s, by simp, rfl, h⟩

theorem head (hown : own a) (hs : step s a = some s') (h : Leads step own goal s') :
    Leads step own goal s := by
  obtain ⟨as, t, has, hrun, ht⟩ := h
  refine ⟨a :: as, t, ?_, ?_, ht⟩
  · intro b hb
    rcases List.mem_cons.mp hb with rfl | hb
    · exact hown
    · exact has b hb
  · rw [runFrom, hs]
    exact hrun

/-- What the steps keep still holds where they lead. -/
theorem invariant {I : S → Prop} (hI : I s)
    (hstep : ∀ s s' a, I s → own a → step s a = some s' → I s') (h : Leads step own goal s) :
    ∃ t, I t ∧ goal t := by
  obtain ⟨as, t, has, hrun, ht⟩ := h
  refine ⟨t, ?_, ht⟩
  induction as generalizing s with
  | nil =>
      rw [runFrom] at hrun
      exact Option.some.inj hrun ▸ hI
  | cons a rest ih =>
      rw [runFrom] at hrun
      split at hrun
      · rename_i s₁ hs
        have h1 : I s₁ := hstep _ _ _ hI (has a List.mem_cons_self) hs
        exact ih h1 (fun b hb => has b (List.mem_cons_of_mem _ hb)) hrun
      · simp at hrun

/-- Two machines that take the same steps wherever `I` holds lead to the same. -/
theorem congr {step' : S → A → Option S} {I : S → Prop} (hI : I s)
    (heq : ∀ s a, I s → own a → step s a = step' s a)
    (hstep : ∀ s s' a, I s → own a → step s a = some s' → I s') :
    Leads step own goal s ↔ Leads step' own goal s := by
  have hrun : ∀ (as : List A) (s : S), I s → (∀ a ∈ as, own a) → runFrom step s as = runFrom step' s as := by
    intro as
    induction as with
    | nil => intro s _ _; rfl
    | cons a rest ih =>
        intro s hI has
        have hown : own a := has a List.mem_cons_self
        rw [runFrom, runFrom, ← heq s a hI hown]
        cases hs : step s a with
        | none => rfl
        | some s' => exact ih s' (hstep s s' a hI hown hs) fun b hb => has b (List.mem_cons_of_mem _ hb)
  constructor
  · rintro ⟨as, t, has, hr, ht⟩
    exact ⟨as, t, has, hrun as s hI has ▸ hr, ht⟩
  · rintro ⟨as, t, has, hr, ht⟩
    exact ⟨as, t, has, hrun as s hI has ▸ hr, ht⟩

end Leads

end CompMatch

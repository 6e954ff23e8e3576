/-
One-sided operations under way.

A worker posts operations that take effect later, on their own.  What orders them
is the fence: everything posted before a fence takes effect before anything posted
after it.  What tells the poster about them is the flush, which is complete once
everything posted before it has taken effect.

Both are the same test.  `clock` counts the operations posted so far, each posted
operation keeps its number as its `stamp`, and `clear t` says that nothing with a
stamp below `t` is still under way.  A fence moves `barrier` up to the clock; an
operation may take effect once its own barrier is clear.  A flush hands out the
clock; it is complete once that is clear.
-/
import Mathlib.Data.List.Basic
import Mathlib.Data.List.MinMax

namespace CompMatch

/-- An operation that was posted and has not taken effect yet. -/
structure Posted (Op : Type*) where
  stamp : Nat
  /-- Everything with a smaller stamp than this takes effect first. -/
  after : Nat
  op : Op
deriving DecidableEq, Repr

/-- The operations of one worker. -/
structure Worker (Op : Type*) where
  clock : Nat
  barrier : Nat
  pending : List (Posted Op)
deriving DecidableEq, Repr

namespace Worker

variable {Op : Type*}

/-- A worker that has posted nothing. -/
def idle : Worker Op := ⟨0, 0, []⟩

def post (w : Worker Op) (op : Op) : Worker Op :=
  { w with clock := w.clock + 1, pending := w.pending ++ [⟨w.clock, w.barrier, op⟩] }

def fence (w : Worker Op) : Worker Op := { w with barrier := w.clock }

/-- Nothing that `sel` selects and that was posted before `t` is still under way. -/
def clear (w : Worker Op) (sel : Op → Bool) (t : Nat) : Bool :=
  w.pending.all fun x => !sel x.op || decide (t ≤ x.stamp)

/-- The `i`-th operation under way, if no fence holds it back. -/
def enabled? (w : Worker Op) (i : Nat) : Option (Posted Op) :=
  match w.pending[i]? with
  | some x => if w.clear (fun _ => true) x.after then some x else none
  | none => none

/-- Take the `i`-th operation off the list. -/
def retire (w : Worker Op) (i : Nat) : Worker Op := { w with pending := w.pending.eraseIdx i }

@[simp] theorem post_clock (w : Worker Op) (op : Op) : (w.post op).clock = w.clock + 1 := rfl

@[simp] theorem post_barrier (w : Worker Op) (op : Op) : (w.post op).barrier = w.barrier := rfl

@[simp] theorem post_pending (w : Worker Op) (op : Op) :
    (w.post op).pending = w.pending ++ [⟨w.clock, w.barrier, op⟩] := rfl

@[simp] theorem fence_clock (w : Worker Op) : w.fence.clock = w.clock := rfl

@[simp] theorem fence_barrier (w : Worker Op) : w.fence.barrier = w.clock := rfl

@[simp] theorem fence_pending (w : Worker Op) : w.fence.pending = w.pending := rfl

@[simp] theorem retire_clock (w : Worker Op) (i : Nat) : (w.retire i).clock = w.clock := rfl

@[simp] theorem retire_barrier (w : Worker Op) (i : Nat) : (w.retire i).barrier = w.barrier := rfl

@[simp] theorem retire_pending (w : Worker Op) (i : Nat) :
    (w.retire i).pending = w.pending.eraseIdx i := rfl

theorem clear_iff {w : Worker Op} {sel : Op → Bool} {t : Nat} :
    w.clear sel t = true ↔ ∀ x ∈ w.pending, sel x.op = true → t ≤ x.stamp := by
  simp only [clear, List.all_eq_true, Bool.or_eq_true, Bool.not_eq_true', decide_eq_true_eq]
  constructor
  · intro h x hx hsel
    rcases h x hx with hf | hle
    · rw [hsel] at hf; exact Bool.noConfusion hf
    · exact hle
  · intro h x hx
    by_cases hsel : sel x.op = true
    · exact Or.inr (h x hx hsel)
    · exact Or.inl (by simpa using hsel)

theorem enabled?_eq_some {w : Worker Op} {i : Nat} {x : Posted Op} :
    w.enabled? i = some x ↔
      w.pending[i]? = some x ∧ ∀ y ∈ w.pending, x.after ≤ y.stamp := by
  unfold enabled?
  cases hx : w.pending[i]? with
  | none => simp
  | some y =>
      simp only [Option.some.injEq]
      split
      · rename_i hc
        simp only [Option.some.injEq]
        constructor
        · rintro rfl
          exact ⟨rfl, fun z hz => clear_iff.mp hc z hz rfl⟩
        · exact fun h => h.1
      · rename_i hc
        simp only [reduceCtorEq, false_iff, not_and]
        rintro rfl
        exact fun h => hc (clear_iff.mpr fun z hz _ => h z hz)

/-! ### Stamps and time -/

/-- Every operation under way was posted before now. -/
def Stamped (w : Worker Op) : Prop := ∀ x ∈ w.pending, x.stamp < w.clock

theorem Stamped.post {w : Worker Op} (h : w.Stamped) (op : Op) : (w.post op).Stamped := by
  intro x hx
  rw [post_pending, List.mem_append, List.mem_singleton] at hx
  rcases hx with hx | rfl
  · exact Nat.lt_succ_of_lt (h x hx)
  · exact Nat.lt_succ_self _

theorem Stamped.retire {w : Worker Op} (h : w.Stamped) (i : Nat) : (w.retire i).Stamped :=
  fun x hx => h x (List.mem_of_mem_eraseIdx hx)

/-- A flush that is complete stays complete, whatever is posted after it was issued. -/
theorem clear_post {w : Worker Op} {sel : Op → Bool} {t : Nat} (ht : t ≤ w.clock)
    (h : w.clear sel t = true) (op : Op) : (w.post op).clear sel t = true := by
  rw [clear_iff] at h ⊢
  intro x hx hsel
  rw [post_pending, List.mem_append, List.mem_singleton] at hx
  rcases hx with hx | rfl
  · exact h x hx hsel
  · exact ht

theorem clear_retire {w : Worker Op} {sel : Op → Bool} {t : Nat} (h : w.clear sel t = true)
    (i : Nat) : (w.retire i).clear sel t = true := by
  rw [clear_iff] at h ⊢
  exact fun x hx => h x (List.mem_of_mem_eraseIdx hx)

/-- No fence holds back an operation that was posted before it. -/
structure Ordered (w : Worker Op) : Prop where
  barrier : w.barrier ≤ w.clock
  after : ∀ x ∈ w.pending, x.after ≤ x.stamp

theorem Ordered.post {w : Worker Op} (h : w.Ordered) (op : Op) : (w.post op).Ordered := by
  refine ⟨Nat.le_succ_of_le h.barrier, fun x hx => ?_⟩
  rw [post_pending, List.mem_append, List.mem_singleton] at hx
  rcases hx with hx | rfl
  · exact h.after x hx
  · exact h.barrier

theorem Ordered.fence {w : Worker Op} (h : w.Ordered) : w.fence.Ordered := ⟨Nat.le_refl _, h.after⟩

theorem Ordered.retire {w : Worker Op} (h : w.Ordered) (i : Nat) : (w.retire i).Ordered :=
  ⟨h.barrier, fun x hx => h.after x (List.mem_of_mem_eraseIdx hx)⟩

/-- As long as something is under way, something may take effect: what was posted first. -/
theorem Ordered.exists_enabled {w : Worker Op} (h : w.Ordered) (hne : w.pending ≠ []) :
    ∃ i x, w.enabled? i = some x := by
  cases hx : w.pending.argmin Posted.stamp with
  | none => exact absurd (List.argmin_eq_none.mp hx) hne
  | some x =>
      have hmem : x ∈ w.pending := List.argmin_mem hx
      obtain ⟨i, hi⟩ := List.mem_iff_getElem?.mp hmem
      refine ⟨i, x, enabled?_eq_some.mpr ⟨hi, fun y hy => ?_⟩⟩
      exact Nat.le_trans (h.after x hmem) (List.le_of_mem_argmin hy hx)

/-- With nothing under way, everything is clear. -/
theorem clear_of_pending_nil {w : Worker Op} {sel : Op → Bool} {t : Nat} (h : w.pending = []) :
    w.clear sel t = true := by
  rw [clear, h]
  rfl

/-! ### The operations of one user

Several users may share a worker.  What one of them sees is a worker too: with its own
operations, the shared clock and the shared barrier.
-/

variable {Op' : Type*} {v : Op → Option Op'}

/-- A posted operation as the user sees it. -/
def Posted.view (v : Op → Option Op') (x : Posted Op) : Option (Posted Op') :=
  (v x.op).map fun op => ⟨x.stamp, x.after, op⟩

def view (v : Op → Option Op') (w : Worker Op) : Worker Op' :=
  ⟨w.clock, w.barrier, w.pending.filterMap (Posted.view v)⟩

@[simp] theorem view_clock (w : Worker Op) : (w.view v).clock = w.clock := rfl

@[simp] theorem view_barrier (w : Worker Op) : (w.view v).barrier = w.barrier := rfl

theorem view_post {op : Op} {op' : Op'} (h : v op = some op') (w : Worker Op) :
    (w.post op).view v = (w.view v).post op' := by
  simp [view, post, List.filterMap_append, Posted.view, h]

/-- Somebody else's operation only moves the clock. -/
theorem view_pending_post {op : Op} (h : v op = none) (w : Worker Op) :
    ((w.post op).view v).pending = (w.view v).pending := by
  simp [view, post, List.filterMap_append, Posted.view, h]

/-- What is clear for a selection is clear for a user whose operations it selects. -/
theorem view_clear {sel : Op → Bool} (hsel : ∀ op op', v op = some op' → sel op = true) {t : Nat}
    {w : Worker Op} (h : w.clear sel t = true) : (w.view v).clear (fun _ => true) t = true := by
  rw [clear_iff] at h ⊢
  intro y hy _
  simp only [view, List.mem_filterMap, Posted.view, Option.map_eq_some_iff] at hy
  obtain ⟨x, hx, op', hop, rfl⟩ := hy
  exact h x hx (hsel _ _ hop)

/-- What one user sees was posted before now as well. -/
theorem Stamped.view {w : Worker Op} (h : w.Stamped) : (w.view v).Stamped := by
  intro y hy
  simp only [Worker.view, List.mem_filterMap, Posted.view, Option.map_eq_some_iff] at hy
  obtain ⟨x, hx, op, -, rfl⟩ := hy
  exact h x hx

private theorem filterMap_eraseIdx {A B : Type*} (f : A → Option B) {x : A} {y : B} :
    ∀ {l : List A} {i : Nat}, l[i]? = some x → f x = some y →
      ∃ j, (l.filterMap f)[j]? = some y ∧ (l.eraseIdx i).filterMap f = (l.filterMap f).eraseIdx j := by
  intro l
  induction l with
  | nil => intro i hx; simp at hx
  | cons a rest ih =>
      intro i hx hy
      cases i with
      | zero =>
          obtain rfl : a = x := by simpa using hx
          exact ⟨0, by simp [hy], by simp [hy]⟩
      | succ i =>
          obtain ⟨j, hj, hl⟩ := ih (by simpa using hx) hy
          cases ha : f a with
          | none => exact ⟨j, by simp [ha, hj], by simp [ha, hl]⟩
          | some b => exact ⟨j + 1, by simp [ha, hj], by simp [ha, hl]⟩

private theorem filterMap_eraseIdx_none {A B : Type*} (f : A → Option B) {x : A} :
    ∀ {l : List A} {i : Nat}, l[i]? = some x → f x = none →
      (l.eraseIdx i).filterMap f = l.filterMap f := by
  intro l
  induction l with
  | nil => intro i hx; simp at hx
  | cons a rest ih =>
      intro i hx hn
      cases i with
      | zero =>
          obtain rfl : a = x := by simpa using hx
          simp [hn]
      | succ i =>
          have hl := ih (by simpa using hx) hn
          cases ha : f a <;> simp [ha, hl]

/-- An operation that may take effect may take effect for its user. -/
theorem view_enabled? {w : Worker Op} {i : Nat} {x : Posted Op} {op : Op'}
    (hx : w.enabled? i = some x) (hv : v x.op = some op) :
    ∃ j, (w.view v).enabled? j = some ⟨x.stamp, x.after, op⟩ ∧
      (w.retire i).view v = (w.view v).retire j := by
  obtain ⟨hget, hall⟩ := enabled?_eq_some.mp hx
  have hview : Posted.view v x = some ⟨x.stamp, x.after, op⟩ := by simp [Posted.view, hv]
  obtain ⟨j, hj, hl⟩ := filterMap_eraseIdx (Posted.view v) hget hview
  refine ⟨j, enabled?_eq_some.mpr ⟨hj, fun y hy => ?_⟩, ?_⟩
  · simp only [view, List.mem_filterMap, Posted.view, Option.map_eq_some_iff] at hy
    obtain ⟨z, hz, op', -, rfl⟩ := hy
    exact hall z hz
  · simp only [view, retire, hl]

/-- Somebody else's operation takes effect. -/
theorem view_retire {w : Worker Op} {i : Nat} {x : Posted Op} (hx : w.enabled? i = some x)
    (hv : v x.op = none) : (w.retire i).view v = w.view v := by
  obtain ⟨hget, -⟩ := enabled?_eq_some.mp hx
  have hl := filterMap_eraseIdx_none (Posted.view v) hget (by simp [Posted.view, hv])
  simp only [view, retire, hl]

end Worker

end CompMatch

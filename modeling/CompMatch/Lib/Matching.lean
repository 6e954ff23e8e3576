/-
Two streams that are matched in order.

The `k`-th message that is sent is taken by the `k`-th receive that is posted.  Some of
either stream belong to an owner, the others to nobody (`none`).  If owned messages are
matched with owned receives only, the `i`-th owned message goes with the `i`-th owned
receive.

Owners come one after another, and all but the last one have one place in the stream.
Then the place of the `i`-th owner in one stream is matched with that of the `i`-th
owner in the other.
-/
import Mathlib.Data.List.ReduceOption
import Mathlib.Data.List.Nodup

namespace CompMatch.Matching

variable {α β : Type*}

/-- The first place of owner `x` is `k`. -/
def First (l : List (Option α)) (x : α) (k : Nat) : Prop :=
  l[k]? = some (some x) ∧ some x ∉ l.take k

instance [DecidableEq α] (l : List (Option α)) (x : α) (k : Nat) : Decidable (First l x k) :=
  inferInstanceAs (Decidable (_ ∧ _))

/-- What is owned is matched with what is owned. -/
def SameKinds (l : List (Option α)) (m : List (Option β)) : Prop :=
  ∀ (k : Nat) (a : Option α) (b : Option β), l[k]? = some a → m[k]? = some b → a.isSome = b.isSome

/-- The owners `xs` one after another: one place for each, and any number for the last. -/
inductive Grouped : List α → List α → Prop
  | nil : Grouped [] []
  | last (xs : List α) (x : α) (n : Nat) : Grouped (xs ++ [x]) (xs ++ List.replicate n x)

/-! ### Owners of a stream -/

namespace Grouped

variable {xs places : List α} {x : α}

theorem subset (h : Grouped xs places) : places ⊆ xs := by
  cases h with
  | nil => exact List.Subset.refl _
  | last ys y n =>
      intro z hz
      rcases List.mem_append.mp hz with hz | hz
      · exact List.mem_append_left _ hz
      · rw [(List.mem_replicate.mp hz).2]
        simp

/-- The last owner gets another place. -/
theorem place (h : Grouped xs places) (hx : xs.getLast? = some x) : Grouped xs (places ++ [x]) := by
  cases h with
  | nil => simp at hx
  | last ys y n =>
      obtain rfl : y = x := by simpa using hx
      rw [List.append_assoc, ← List.replicate_succ']
      exact .last ys y (n + 1)

/-- A new owner, if the last one has its one place. -/
theorem owner [DecidableEq α] (h : Grouped xs places) (hn : xs.Nodup)
    (hone : ∀ y, xs.getLast? = some y → places.count y = 1) : Grouped (xs ++ [x]) places := by
  cases h with
  | nil => exact .last [] x 0
  | last ys y n =>
      have hy : y ∉ ys := fun hmem => (List.nodup_append.mp hn).2.2 y hmem y List.mem_cons_self rfl
      have hcount := hone y (by simp)
      rw [List.count_append, List.count_eq_zero_of_not_mem hy, List.count_replicate_self, Nat.zero_add] at hcount
      rw [hcount]
      simpa using Grouped.last (ys ++ [y]) x 0

/-- The `i`-th place is the first one of its owner if that is the `i`-th owner. -/
theorem first_iff (h : Grouped xs places) (hn : xs.Nodup) {i : Nat} (hi : places[i]? = some x) :
    x ∉ places.take i ↔ xs[i]? = some x := by
  cases h with
  | nil => simp at hi
  | last ys y n =>
      have hy : y ∉ ys := fun hmem => (List.nodup_append.mp hn).2.2 y hmem y List.mem_cons_self rfl
      have hys : ys.Nodup := (List.nodup_append.mp hn).1
      rcases Nat.lt_or_ge i ys.length with hlt | hge
      · rw [List.getElem?_append_left hlt] at hi
        rw [List.getElem?_append_left hlt, List.take_append_of_le_length (Nat.le_of_lt hlt)]
        refine ⟨fun _ => hi, fun _ hmem => ?_⟩
        obtain ⟨j, hj⟩ := List.mem_iff_getElem?.mp hmem
        rw [List.getElem?_take] at hj
        split at hj <;> rename_i hji
        · have := (List.getElem?_inj hlt hys).mp (hi.trans hj.symm)
          omega
        · cases hj
      · rw [List.getElem?_append_right hge] at hi
        obtain ⟨hlt, rfl⟩ : i - ys.length < n ∧ y = x := by simpa [List.getElem?_replicate] using hi
        rw [List.getElem?_append_right hge, List.take_append]
        rcases Nat.eq_or_lt_of_le hge with rfl | hgt
        · simp [hy]
        · have hlen : 1 ≤ i - ys.length := by omega
          have hmem : y ∈ (List.replicate n y).take (i - ys.length) := by
            rw [List.take_replicate, List.mem_replicate]
            exact ⟨by omega, rfl⟩
          simp only [List.mem_append, hmem, or_true, not_true_eq_false, false_iff]
          rw [List.getElem?_eq_none (by simpa using hlen)]
          simp

/-- A place before the last owner's, or at it, belongs to the owner of its number. -/
theorem getElem? (h : Grouped xs places) {i : Nat} (hi : places[i]? = some x) (hlt : i < xs.length) :
    xs[i]? = some x := by
  cases h with
  | nil => simp at hi
  | last ys y n =>
      rcases Nat.lt_or_ge i ys.length with hys | hge
      · rwa [List.getElem?_append_left hys] at hi ⊢
      · have heq : i = ys.length := by
          rw [List.length_append, List.length_singleton] at hlt
          omega
        subst heq
        obtain ⟨-, rfl⟩ : 0 < n ∧ y = x := by
          simpa [List.getElem?_append_right, List.getElem?_replicate] using hi
        simp

end Grouped

/-! ### Places of two streams -/

section
variable {l : List (Option α)} {m : List (Option β)} {x : α} {y : β} {k : Nat}

/-- How many places before `k` are owned. -/
def rank (l : List (Option α)) (k : Nat) : Nat := (l.take k).reduceOption.length

theorem count_reduceOption [DecidableEq α] (l : List (Option α)) (x : α) :
    l.reduceOption.count x = l.count (some x) := by
  induction l with
  | nil => rfl
  | cons a l ih =>
      cases a with
      | none => rw [List.reduceOption_cons_of_none, ih, List.count_cons_of_ne (by simp)]
      | some y => simp [List.reduceOption_cons_of_some, List.count_cons, ih]

theorem take_rank (l : List (Option α)) (k : Nat) :
    l.reduceOption.take (rank l k) = (l.take k).reduceOption := by
  have h : (l.take k).reduceOption ++ (l.drop k).reduceOption = l.reduceOption := by
    rw [← List.reduceOption_append, List.take_append_drop]
  rw [← h]
  exact List.take_left

theorem getElem?_rank (h : l[k]? = some (some x)) : l.reduceOption[rank l k]? = some x := by
  obtain ⟨hlt, hget⟩ := List.getElem?_eq_some_iff.mp h
  have hsplit : (l.take k).reduceOption ++ (l.drop k).reduceOption = l.reduceOption := by
    rw [← List.reduceOption_append, List.take_append_drop]
  rw [← hsplit, rank, List.getElem?_append_right (Nat.le_refl _), Nat.sub_self, List.drop_eq_getElem_cons hlt,
    hget, List.reduceOption_cons_of_some]
  rfl

theorem rank_succ (h : k < l.length) : rank l (k + 1) = rank l k + l[k].toList.length := by
  rw [rank, List.take_succ_eq_append_getElem h, List.reduceOption_append, List.length_append,
    List.reduceOption_singleton]
  rfl

/-- The first place of an owner is that of its number. -/
theorem first_iff {xs : List α} (hg : Grouped xs l.reduceOption) (hn : xs.Nodup) :
    First l x k ↔ l[k]? = some (some x) ∧ xs[rank l k]? = some x := by
  refine and_congr_right fun hk => ?_
  rw [← hg.first_iff hn (getElem?_rank hk), take_rank, List.reduceOption_mem_iff]

theorem SameKinds.symm (h : SameKinds l m) : SameKinds m l := fun k b a hb ha => (h k a b ha hb).symm

/-- An owner has a first place. -/
theorem exists_first (h : some x ∈ l) : ∃ k, First l x k := by
  obtain ⟨front, rest, rfl, hno⟩ := List.eq_append_cons_of_mem h
  refine ⟨front.length, ?_, ?_⟩
  · simp
  · rwa [List.take_left]

/-- As many are owned before a place in the one stream as in the other. -/
theorem SameKinds.rank (h : SameKinds l m) : ∀ {k : Nat}, k ≤ l.length → k ≤ m.length →
    Matching.rank l k = Matching.rank m k := by
  intro k
  induction k with
  | zero => intro _ _; rfl
  | succ k ih =>
      intro hl hm
      have hkind := h k l[k] m[k] (List.getElem?_eq_getElem hl) (List.getElem?_eq_getElem hm)
      rw [rank_succ hl, rank_succ hm, ih (Nat.le_of_succ_le hl) (Nat.le_of_succ_le hm)]
      cases hx : l[k] <;> cases hy : m[k] <;> simp_all

/-- What is added to the one stream keeps the kinds, if it is of the kind it is matched with. -/
theorem SameKinds.append (h : SameKinds l m) {a : Option α}
    (ha : ∀ b, m[l.length]? = some b → a.isSome = b.isSome) : SameKinds (l ++ [a]) m := by
  intro k a' b hl hm
  rcases Nat.lt_trichotomy k l.length with hlt | rfl | hgt
  · rw [List.getElem?_append_left hlt] at hl
    exact h k a' b hl hm
  · obtain rfl : a = a' := by simpa using hl
    exact ha b hm
  · rw [List.getElem?_eq_none (by simp; omega)] at hl
    cases hl

/-- **The first place of the `i`-th owner is matched with the first place of the `i`-th owner.** -/
theorem first_of_first {xs : List α} {ys : List β} {i : Nat} (h : SameKinds l m)
    (hxs : Grouped xs l.reduceOption) (hys : Grouped ys m.reduceOption) (hnx : xs.Nodup) (hny : ys.Nodup)
    (hx : xs[i]? = some x) (hy : ys[i]? = some y) (hk : First l x k) (hlt : k < m.length) : First m y k := by
  obtain ⟨hget, hrank⟩ := (first_iff hxs hnx).mp hk
  have hkl : k < l.length := (List.getElem?_eq_some_iff.mp hget).1
  have hi : Matching.rank l k = i := by
    have hlen := (List.getElem?_eq_some_iff.mp hrank).1
    exact (List.getElem?_inj hlen hnx).mp (hrank.trans hx.symm)
  have hrank' : Matching.rank m k = i := by
    rw [← h.rank (Nat.le_of_lt hkl) (Nat.le_of_lt hlt), hi]
  have hsome := h k _ _ hget (List.getElem?_eq_getElem hlt)
  obtain ⟨y', hy'⟩ := Option.isSome_iff_exists.mp hsome.symm
  have hget' : m[k]? = some (some y') := by rw [List.getElem?_eq_getElem hlt, hy']
  have hplace := getElem?_rank hget'
  rw [hrank'] at hplace
  have howner := hys.getElem? hplace (List.getElem?_eq_some_iff.mp hy).1
  obtain rfl : y' = y := Option.some.inj (howner.symm.trans hy)
  exact (first_iff hys hny).mpr ⟨hget', by rw [hrank', hy]⟩

end

/-! ### What is at the same place -/

section
variable [DecidableEq α] {l l' : List α} {m m' : List β} {x : α} {y : β}

/-- What the second list has at the place of `x` in the first. -/
def opposite (l : List α) (m : List β) (x : α) : Option β := if x ∈ l then m[l.idxOf x]? else none

theorem opposite_eq_some : opposite l m x = some y ↔ x ∈ l ∧ m[l.idxOf x]? = some y := by
  unfold opposite
  split
  · rename_i hx
    exact (and_iff_right hx).symm
  · rename_i hx
    exact ⟨nofun, fun h => absurd h.1 hx⟩

/-- What is added later changes nothing. -/
theorem opposite_append (h : opposite l m x = some y) : opposite (l ++ l') (m ++ m') x = some y := by
  obtain ⟨hx, hy⟩ := opposite_eq_some.mp h
  refine opposite_eq_some.mpr ⟨List.mem_append_left _ hx, ?_⟩
  rw [List.idxOf_append_of_mem hx, List.getElem?_append_left (List.getElem?_eq_some_iff.mp hy).1, hy]

/-- What is opposite was so before, if both were there. -/
theorem opposite_of_append (hn : (m ++ m').Nodup) (hx : x ∈ l) (hy : y ∈ m)
    (h : opposite (l ++ l') (m ++ m') x = some y) : opposite l m x = some y := by
  obtain ⟨-, hget⟩ := opposite_eq_some.mp h
  rw [List.idxOf_append_of_mem hx] at hget
  obtain ⟨i, hi⟩ := List.mem_iff_getElem?.mp hy
  have hlt : i < m.length := (List.getElem?_eq_some_iff.mp hi).1
  have hi' : (m ++ m')[i]? = some y := (List.getElem?_append_left hlt).trans hi
  have hplace : l.idxOf x = i := by
    have hlen := (List.getElem?_eq_some_iff.mp hget).1
    exact (List.getElem?_inj hlen hn).mp (hget.trans hi'.symm)
  exact opposite_eq_some.mpr ⟨hx, hplace ▸ hi⟩

theorem opposite_symm [DecidableEq β] (hm : m.Nodup) (h : opposite l m x = some y) : opposite m l y = some x := by
  obtain ⟨hx, hy⟩ := opposite_eq_some.mp h
  obtain ⟨hlt, hget⟩ := List.getElem?_eq_some_iff.mp hy
  have hplace : m.idxOf y = l.idxOf x := by
    rw [← hget]
    exact hm.idxOf_getElem _ hlt
  refine opposite_eq_some.mpr ⟨List.mem_of_getElem? hy, ?_⟩
  rw [hplace]
  exact List.getElem?_idxOf hx

end

end CompMatch.Matching

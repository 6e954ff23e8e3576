/-
Singly linked lists.

A cell holds an element and the address of the next cell.  `Chain` says which cells come
one after another from one address up to another one; a list that ends is a chain up to
`NULL`, where there is no cell.  Such a list has no cell twice, so a walk over it ends.

Cells are put in and taken out by giving one cell another successor.  `Chain.relink` is
the one rule for that.
-/
import Mathlib.Data.List.Nodup

namespace CompMatch.LinkedList

variable {ι α : Type*}

structure Cell (ι α : Type*) where
  elem : α
  next : ι
deriving DecidableEq, Repr

/-- The cells from `p` up to `q`, with what they hold. -/
def Chain (cell : ι → Option (Cell ι α)) : ι → List (ι × α) → ι → Prop
  | p, [], q => p = q
  | p, x :: xs, q => p = x.1 ∧ ∃ next, cell x.1 = some ⟨x.2, next⟩ ∧ Chain cell next xs q

/-- Walk from the cell `cur`, which comes after `prev`, to the first one that is looked for. -/
def walk (cell : ι → Option (Cell ι α)) (found : Cell ι α → Bool) : Nat → ι → ι → Option (ι × ι)
  | 0, _, _ => none
  | n + 1, prev, cur =>
      (cell cur).bind fun c => if found c then some (prev, cur) else walk cell found n cur c.next

namespace Chain

variable {cell cell' : ι → Option (Cell ι α)} {p q null : ι} {xs ys zs : List (ι × α)} {x y : ι × α}

theorem append_iff : Chain cell p (xs ++ ys) q ↔ ∃ m, Chain cell p xs m ∧ Chain cell m ys q := by
  induction xs generalizing p with
  | nil =>
      constructor
      · intro h
        exact ⟨p, rfl, h⟩
      · rintro ⟨m, rfl, h⟩
        exact h
  | cons x xs ih =>
      constructor
      · rintro ⟨hp, next, hx, h⟩
        obtain ⟨m, hxs, hys⟩ := ih.mp h
        exact ⟨m, ⟨hp, next, hx, hxs⟩, hys⟩
      · rintro ⟨m, ⟨hp, next, hx, hxs⟩, hys⟩
        exact ⟨hp, next, hx, ih.mpr ⟨m, hxs, hys⟩⟩

/-- Only the cells of the list count. -/
theorem congr (h : Chain cell p xs q) (hc : ∀ x ∈ xs, cell' x.1 = cell x.1) : Chain cell' p xs q := by
  induction xs generalizing p with
  | nil => exact h
  | cons x xs ih =>
      obtain ⟨hp, next, hx, hrest⟩ := h
      exact ⟨hp, next, (hc x List.mem_cons_self).trans hx,
        ih hrest fun y hy => hc y (List.mem_cons_of_mem _ hy)⟩

theorem cell_eq (h : Chain cell p xs q) (hx : x ∈ xs) : ∃ next, cell x.1 = some ⟨x.2, next⟩ := by
  induction xs generalizing p with
  | nil => cases hx
  | cons y xs ih =>
      obtain ⟨-, next, hy, hrest⟩ := h
      rcases List.mem_cons.mp hx with rfl | hx
      · exact ⟨next, hy⟩
      · exact ih hrest hx

theorem unique (hnull : cell null = none) (h : Chain cell p xs null) (h' : Chain cell p ys null) :
    xs = ys := by
  induction xs generalizing p ys with
  | nil =>
      cases ys with
      | nil => rfl
      | cons y ys =>
          obtain ⟨hp, next, hy, -⟩ := h'
          obtain rfl : p = null := h
          rw [← hp, hnull] at hy
          cases hy
  | cons x xs ih =>
      obtain ⟨hp, next, hx, hrest⟩ := h
      cases ys with
      | nil =>
          obtain rfl : p = null := h'
          rw [← hp, hnull] at hx
          cases hx
      | cons y ys =>
          obtain ⟨hp', next', hy, hrest'⟩ := h'
          have hxy : x.1 = y.1 := hp.symm.trans hp'
          rw [← hxy, hx] at hy
          obtain ⟨helem, rfl⟩ : x.2 = y.2 ∧ next = next' := by simpa using hy
          rw [ih hrest hrest', Prod.ext hxy helem]

/-- **A list that ends has no cell twice.** -/
theorem nodup (hnull : cell null = none) (h : Chain cell p xs null) : (xs.map Prod.fst).Nodup := by
  induction xs generalizing p with
  | nil => exact List.nodup_nil
  | cons x xs ih =>
      have hall := h
      obtain ⟨hp, next, hx, hrest⟩ := h
      rw [List.map_cons, List.nodup_cons]
      refine ⟨fun hmem => ?_, ih hrest⟩
      -- A second place of the cell would be the end of a shorter list, and of this one.
      obtain ⟨y, hy, hyx⟩ := List.mem_map.mp hmem
      obtain ⟨front, rest, rfl⟩ := List.append_of_mem hy
      obtain ⟨m, -, hm, next', hcell, hrest'⟩ := append_iff.mp hrest
      have hagain : Chain cell p (y :: rest) null :=
        ⟨hp.trans hyx.symm, next', hcell, hrest'⟩
      have hlen := congrArg List.length (unique hnull hall hagain)
      simp only [List.length_cons, List.length_append] at hlen
      omega

theorem ne_null (hnull : cell null = none) (h : Chain cell p xs q) (hx : x ∈ xs) : x.1 ≠ null := by
  obtain ⟨next, hcell⟩ := h.cell_eq hx
  intro heq
  rw [heq, hnull] at hcell
  cases hcell

/-- **A cell is given another successor**: the list goes on there. -/
theorem relink {next' q' : ι} (h : Chain cell p (xs ++ x :: ys) q) (hx : cell' x.1 = some ⟨x.2, next'⟩)
    (hzs : Chain cell' next' zs q') (hxs : ∀ y ∈ xs, cell' y.1 = cell y.1) :
    Chain cell' p (xs ++ x :: zs) q' := by
  obtain ⟨m, hfront, hm, -⟩ := append_iff.mp h
  exact append_iff.mpr ⟨m, hfront.congr hxs, hm, next', hx, hzs⟩

/-! ### Walks -/

section
variable {found : Cell ι α → Bool} {prev : ι} {n : Nat}

/-- The walk gets to the first cell that is looked for, and knows the one before. -/
theorem walk_eq (h : Chain cell p (xs ++ x :: ys) q) (hn : xs.length < n)
    (hxs : ∀ y ∈ xs, ∀ c, cell y.1 = some c → found c = false)
    (hx : ∀ c, cell x.1 = some c → found c = true) :
    walk cell found n prev p = some ((xs.getLast?.map Prod.fst).getD prev, x.1) := by
  induction xs generalizing p prev n with
  | nil =>
      obtain ⟨hp, next, hcell, -⟩ := h
      cases n with
      | zero => exact absurd hn (Nat.not_lt_zero _)
      | succ n => simp [walk, hp, hcell, hx _ hcell]
  | cons y xs ih =>
      obtain ⟨hp, next, hcell, hrest⟩ := h
      cases n with
      | zero => exact absurd hn (Nat.not_lt_zero _)
      | succ n =>
          have hrun : walk cell found n y.1 next = some ((xs.getLast?.map Prod.fst).getD y.1, x.1) :=
            ih hrest (Nat.lt_of_succ_lt_succ hn) fun z hz => hxs z (List.mem_cons_of_mem _ hz)
          have hno := hxs y List.mem_cons_self _ hcell
          rw [walk, hp, hcell, Option.bind_some, if_neg (by simp [hno]), hrun]
          rw [List.getLast?_cons]
          cases xs.getLast? <;> rfl

/-- It runs into `NULL` if there is no such cell. -/
theorem walk_none (hnull : cell null = none) (h : Chain cell p xs null)
    (hxs : ∀ y ∈ xs, ∀ c, cell y.1 = some c → found c = false) :
    walk cell found n prev p = none := by
  induction xs generalizing p prev n with
  | nil =>
      obtain rfl : p = null := h
      cases n with
      | zero => rfl
      | succ n => simp [walk, hnull]
  | cons y xs ih =>
      obtain ⟨hp, next, hcell, hrest⟩ := h
      cases n with
      | zero => rfl
      | succ n =>
          have hno := hxs y List.mem_cons_self _ hcell
          rw [walk, hp, hcell, Option.bind_some, if_neg (by simp [hno])]
          exact ih hrest fun z hz => hxs z (List.mem_cons_of_mem _ hz)

end

end Chain

end CompMatch.LinkedList

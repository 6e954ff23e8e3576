/-
What is acquired has to be released.

A ledger lists what is done with resources, the oldest entry first.  It is `Proper` if
each resource is acquired before it is used, used only while it is held, and released
once.  What becomes of a resource can be read off the ledger entry by entry (`after`), so
a ledger that grows is proper as long as each new entry is allowed where the last one
left the resources.
-/
import Mathlib.Data.List.Nodup
import Mathlib.Logic.Function.Basic

namespace CompMatch.Ledger

inductive Entry (α : Type*)
  | acquire (a : α)
  | use (a : α)
  | release (a : α)
deriving DecidableEq, Repr

inductive Status
  | fresh
  | held
  | released
deriving DecidableEq, Repr

section
variable {α : Type*}

/-- The resource an entry is about. -/
def Entry.of : Entry α → α
  | .acquire a | .use a | .release a => a

/-- What a resource must be for the entry to be made. -/
def Entry.allowed (s : α → Status) : Entry α → Prop
  | .acquire a => s a = .fresh
  | .use a | .release a => s a = .held

variable [DecidableEq α]

/-- What is left of the resources after an entry. -/
def Entry.apply (s : α → Status) : Entry α → α → Status
  | .acquire a => Function.update s a .held
  | .use _ => s
  | .release a => Function.update s a .released

/-- What is left of the resources after a ledger. -/
def after (s : α → Status) (es : List (Entry α)) : α → Status := es.foldl (fun s e => e.apply s) s

/-- Every entry is allowed where it is made. -/
def Proper (s : α → Status) : List (Entry α) → Prop
  | [] => True
  | e :: es => e.allowed s ∧ Proper (e.apply s) es

/-- No resource was acquired yet. -/
def unheld : α → Status := fun _ => .fresh

/-- No resource is released twice, and none is used after its release. -/
structure Kept (es : List (Entry α)) : Prop where
  once : ∀ a, es.count (.release a) ≤ 1
  unused : ∀ a before rest, es = before ++ .release a :: rest → .use a ∉ rest

/-- Everything that was acquired was released exactly once. -/
def Settled (es : List (Entry α)) : Prop := ∀ a, .acquire a ∈ es → es.count (.release a) = 1

/-! ### Ledgers that grow -/

variable {s : α → Status} {a : α} {es fs : List (Entry α)} {l : List α}

@[simp] theorem after_nil : after s [] = s := rfl

@[simp] theorem after_cons (e : Entry α) : after s (e :: es) = after (e.apply s) es := rfl

theorem after_append : after s (es ++ fs) = after (after s es) fs := List.foldl_append ..

theorem proper_append : Proper s (es ++ fs) ↔ Proper s es ∧ Proper (after s es) fs := by
  induction es generalizing s with
  | nil => simp [Proper]
  | cons e es ih => simp only [List.cons_append, Proper, ih, after_cons, and_assoc]

theorem after_uses : after s (l.map .use) = s := by
  induction l generalizing s with
  | nil => rfl
  | cons b l ih => exact ih

theorem proper_uses (h : ∀ b ∈ l, s b = .held) : Proper s (l.map .use) := by
  induction l with
  | nil => exact trivial
  | cons b l ih =>
      exact ⟨h b List.mem_cons_self, ih fun x hx => h x (List.mem_cons_of_mem _ hx)⟩

theorem after_acquires : after s (l.map .acquire) a = if a ∈ l then .held else s a := by
  induction l generalizing s with
  | nil => simp
  | cons b l ih =>
      show after (Function.update s b .held) (l.map .acquire) a = _
      rw [ih]
      by_cases hl : a ∈ l
      · simp [hl]
      · by_cases hb : a = b
        · simp [hb]
        · simp [hl, hb]

theorem proper_acquires (hl : l.Nodup) (h : ∀ b ∈ l, s b = .fresh) : Proper s (l.map .acquire) := by
  induction l generalizing s with
  | nil => exact trivial
  | cons b l ih =>
      obtain ⟨hb, hl⟩ := List.nodup_cons.mp hl
      refine ⟨h b List.mem_cons_self, ih hl fun x hx => ?_⟩
      have hne : x ≠ b := by
        rintro rfl
        exact hb hx
      show Function.update s b .held x = .fresh
      rw [Function.update_of_ne hne]
      exact h x (List.mem_cons_of_mem _ hx)

theorem after_releases : after s (l.map .release) a = if a ∈ l then .released else s a := by
  induction l generalizing s with
  | nil => simp
  | cons b l ih =>
      show after (Function.update s b .released) (l.map .release) a = _
      rw [ih]
      by_cases hl : a ∈ l
      · simp [hl]
      · by_cases hb : a = b
        · simp [hb]
        · simp [hl, hb]

theorem proper_releases (hl : l.Nodup) (h : ∀ b ∈ l, s b = .held) : Proper s (l.map .release) := by
  induction l generalizing s with
  | nil => exact trivial
  | cons b l ih =>
      obtain ⟨hb, hl⟩ := List.nodup_cons.mp hl
      refine ⟨h b List.mem_cons_self, ih hl fun x hx => ?_⟩
      have hne : x ≠ b := by
        rintro rfl
        exact hb hx
      show Function.update s b .released x = .held
      rw [Function.update_of_ne hne]
      exact h x (List.mem_cons_of_mem _ hx)

/-! ### What a proper ledger guarantees -/

/-- A resource that was released is left alone. -/
theorem Proper.left_alone (h : Proper s es) (ha : s a = .released) :
    (∀ e ∈ es, e.of ≠ a) ∧ after s es a = .released := by
  induction es generalizing s with
  | nil => exact ⟨fun _ he => absurd he List.not_mem_nil, ha⟩
  | cons e es ih =>
      have hne : e.of ≠ a := by
        rintro rfl
        have hallowed := h.1
        cases e <;> simp only [Entry.allowed, Entry.of] at hallowed ha <;> simp [hallowed] at ha
      have happly : e.apply s a = .released := by
        cases e with
        | acquire b => exact (Function.update_of_ne (Ne.symm hne) ..).trans ha
        | use b => exact ha
        | release b => exact (Function.update_of_ne (Ne.symm hne) ..).trans ha
      obtain ⟨hall, hafter⟩ := ih h.2 happly
      refine ⟨fun x hx => ?_, hafter⟩
      rcases List.mem_cons.mp hx with rfl | hx
      · exact hne
      · exact hall x hx

/-- Nothing is done with a resource after its release. -/
theorem Proper.rest {before rest : List (Entry α)} (h : Proper s (before ++ .release a :: rest)) :
    ∀ e ∈ rest, e.of ≠ a :=
  ((proper_append.mp h).2.2.left_alone (Function.update_self ..)).1

/-- A resource that is held was not released. -/
theorem Proper.not_released (h : Proper s es) (ha : after s es a ≠ .released) :
    .release a ∉ es := by
  intro hmem
  obtain ⟨before, rest, rfl⟩ := List.append_of_mem hmem
  refine ha ?_
  rw [after_append, after_cons]
  exact ((proper_append.mp h).2.2.left_alone (Function.update_self ..)).2

/-- What was acquired is not fresh any more. -/
theorem after_ne_fresh (h : s a ≠ .fresh ∨ .acquire a ∈ es) : after s es a ≠ .fresh := by
  induction es generalizing s with
  | nil => simpa using h
  | cons e es ih =>
      refine ih ?_
      by_cases hmem : .acquire a ∈ es
      · exact Or.inr hmem
      · refine Or.inl ?_
        cases e with
        | acquire b =>
            by_cases hb : a = b
            · simp [Entry.apply, hb]
            · have hs : s a ≠ .fresh := by simpa [hb, hmem] using h
              simpa [Entry.apply, hb] using hs
        | use b => simpa [Entry.apply, hmem] using h
        | release b =>
            by_cases hb : a = b
            · simp [Entry.apply, hb]
            · have hs : s a ≠ .fresh := by simpa [hb, hmem] using h
              simpa [Entry.apply, hb] using hs

/-- What was released at all was released once. -/
theorem Proper.count_eq (h : Proper s es) (hmem : .release a ∈ es) : es.count (.release a) = 1 := by
  obtain ⟨before, rest, rfl⟩ := List.append_of_mem hmem
  have hheld : after s before a = .held := (proper_append.mp h).2.1
  have hbefore : before.count (.release a) = 0 :=
    List.count_eq_zero.mpr ((proper_append.mp h).1.not_released (by simp [hheld]))
  have hrest : rest.count (.release a) = 0 :=
    List.count_eq_zero.mpr fun hr => h.rest _ hr rfl
  rw [List.count_append, List.count_cons_self, hbefore, hrest]

/-- **A proper ledger misuses nothing.** -/
theorem Proper.kept (h : Proper s es) : Kept es where
  once a := by
    by_cases hmem : .release a ∈ es
    · exact Nat.le_of_eq (h.count_eq hmem)
    · rw [List.count_eq_zero.mpr hmem]
      exact Nat.zero_le 1
  unused a before rest heq hmem := by
    subst heq
    exact h.rest _ hmem rfl

/-- What is released now was released before, or by one of the entries. -/
theorem release_mem (h : after s es a = .released) : s a = .released ∨ .release a ∈ es := by
  induction es generalizing s with
  | nil => exact Or.inl h
  | cons e es ih =>
      rcases ih h with he | hmem
      · cases e with
        | acquire b =>
            by_cases hb : a = b
            · simp [Entry.apply, hb] at he
            · exact Or.inl (by simpa [Entry.apply, hb] using he)
        | use b => exact Or.inl he
        | release b =>
            by_cases hb : a = b
            · exact Or.inr (by simp [hb])
            · exact Or.inl (by simpa [Entry.apply, hb] using he)
      · exact Or.inr (List.mem_cons_of_mem _ hmem)

/-- **When nothing is held any more**, everything was released exactly once. -/
theorem Proper.settled (h : Proper unheld es) (hnone : ∀ a, after unheld es a ≠ .held) :
    Settled es := by
  intro a hmem
  refine h.count_eq ?_
  have hfresh : after unheld es a ≠ .fresh := after_ne_fresh (Or.inr hmem)
  have hreleased : after unheld es a = .released := by
    cases hs : after unheld es a with
    | fresh => exact absurd hs hfresh
    | held => exact absurd hs (hnone a)
    | released => rfl
  exact (release_mem hreleased).resolve_left (by simp [unheld])

/-! ### Books -/

/-- A resource stands where what was acquired and what was given back leave it. -/
structure Tallies (acquired back : α → Prop) (s : α → Status) : Prop where
  fresh : ∀ a, ¬ acquired a → s a = .fresh
  held : ∀ a, acquired a → ¬ back a → s a = .held
  released : ∀ a, acquired a → back a → s a = .released

section
variable {acquired acquired' back back' : α → Prop}

omit [DecidableEq α] in
/-- The books do not change. -/
theorem Tallies.congr (h : Tallies acquired back s) (ha : ∀ a, acquired' a ↔ acquired a)
    (hb : ∀ a, acquired a → (back' a ↔ back a)) : Tallies acquired' back' s where
  fresh a hn := h.fresh a fun hacq => hn ((ha a).mpr hacq)
  held a hacq hn :=
    have hold : acquired a := (ha a).mp hacq
    h.held a hold fun hback => hn ((hb a hold).mpr hback)
  released a hacq hback :=
    have hold : acquired a := (ha a).mp hacq
    h.released a hold ((hb a hold).mp hback)

/-- What is acquired is entered. -/
theorem Tallies.acquires (h : Tallies acquired back s)
    (ha : ∀ a, acquired' a ↔ acquired a ∨ a ∈ l)
    (hb : ∀ a, acquired a → (back' a ↔ back a)) (hnew : ∀ a ∈ l, ¬ back' a) :
    Tallies acquired' back' (after s (l.map .acquire)) := by
  have hold : ∀ {a}, acquired' a → a ∉ l → acquired a := fun hacq hno =>
    ((ha _).mp hacq).resolve_right hno
  refine ⟨fun a hn => ?_, fun a hacq hn => ?_, fun a hacq hback => ?_⟩
  · have hno : a ∉ l := fun hmem => hn ((ha a).mpr (Or.inr hmem))
    rw [after_acquires, if_neg hno]
    exact h.fresh a fun hacq => hn ((ha a).mpr (Or.inl hacq))
  · rw [after_acquires]
    split
    · rfl
    · rename_i hno
      have hacq' := hold hacq hno
      exact h.held a hacq' fun hback => hn ((hb a hacq').mpr hback)
  · have hno : a ∉ l := fun hmem => hnew a hmem hback
    rw [after_acquires, if_neg hno]
    have hacq' := hold hacq hno
    exact h.released a hacq' ((hb a hacq').mp hback)

/-- What is released is entered. -/
theorem Tallies.releases (h : Tallies acquired back s) (ha : ∀ a, acquired' a ↔ acquired a)
    (hb : ∀ a, acquired a → (back' a ↔ back a ∨ a ∈ l)) (hl : ∀ a ∈ l, acquired a) :
    Tallies acquired' back' (after s (l.map .release)) := by
  refine ⟨fun a hn => ?_, fun a hacq hn => ?_, fun a hacq hback => ?_⟩
  · have hno : ¬ acquired a := fun hacq => hn ((ha a).mpr hacq)
    rw [after_releases, if_neg fun hmem => hno (hl a hmem)]
    exact h.fresh a hno
  · have hacq' := (ha a).mp hacq
    have hno : ¬ (back a ∨ a ∈ l) := fun hor => hn ((hb a hacq').mpr hor)
    rw [after_releases, if_neg fun hmem => hno (Or.inr hmem)]
    exact h.held a hacq' fun hback => hno (Or.inl hback)
  · rw [after_releases]
    split
    · rfl
    · rename_i hno
      have hacq' := (ha a).mp hacq
      exact h.released a hacq' (((hb a hacq').mp hback).resolve_right hno)

omit [DecidableEq α] in
/-- With everything given back, nothing is held. -/
theorem Tallies.none_held (h : Tallies acquired back s) (hall : ∀ a, acquired a → back a) (a : α) :
    s a ≠ .held := by
  by_cases hacq : acquired a
  · rw [h.released a hacq (hall a hacq)]
    simp
  · rw [h.fresh a hacq]
    simp

end

end

end CompMatch.Ledger

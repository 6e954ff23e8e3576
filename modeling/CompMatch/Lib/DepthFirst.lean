/-
Depth first search.

A visit of an item visits, one after another, what follows it and was not visited yet.
What was visited is a list with the last visit first, so an item lies before another in
the order of the search if it is behind it in the list.

A visit comes to just those items to which a path leads over items that were not visited
when it began.  So an item is visited below another one just when such a path leads from
the one to the other that avoids what lies before it in the order.
-/
import Mathlib.Data.List.Infix
import Mathlib.Data.List.Nodup
import Mathlib.Logic.Relation

namespace CompMatch

namespace DepthFirst

variable {α : Type*} [DecidableEq α]

/-- Visit the items one after another, unless they were visited. -/
def visitAll (visit : α → List α → Option (List α)) : List α → List α → Option (List α)
  | [], seen => some seen
  | w :: ws, seen =>
      if w ∈ seen then visitAll visit ws seen else (visit w seen).bind (visitAll visit ws)

variable (next : α → List α)

/-- What was visited after a visit of the item, the last first. -/
def visit : Nat → α → List α → Option (List α)
  | 0, _, _ => none
  | n + 1, v, seen => visitAll (visit n) (next v) (v :: seen)

omit [DecidableEq α] in
/-- A step to an item that was not visited. -/
def Fresh (seen : List α) (a b : α) : Prop := b ∈ next a ∧ b ∉ seen

omit [DecidableEq α] in
/-- A path from the item over items that were not visited. -/
def FreshPath (seen : List α) : α → α → Prop := Relation.ReflTransGen (Fresh next seen)

omit [DecidableEq α] in
/-- More was visited, with all that follows what is new. -/
structure Grows (seen seen' : List α) : Prop where
  suffix : seen <:+ seen'
  nodup : seen.Nodup → seen'.Nodup
  closed : ∀ x ∈ seen', x ∉ seen → ∀ y ∈ next x, y ∈ seen'

variable {next} {seen seen' seen'' ws : List α} {v w x : α} {n : Nat}

omit [DecidableEq α] in
theorem FreshPath.mono (h : FreshPath next seen' v x) (hs : ∀ y ∈ seen, y ∈ seen') : FreshPath next seen v x := by
  induction h with
  | refl => exact .refl
  | tail _ hab ih => exact .tail ih ⟨hab.1, fun hn => hab.2 (hs _ hn)⟩

omit [DecidableEq α] in
theorem FreshPath.notMem (h : FreshPath next seen v x) (hv : v ∉ seen) : x ∉ seen := by
  induction h with
  | refl => exact hv
  | tail _ hab _ => exact hab.2

/-- A path need not come back to where it starts. -/
theorem FreshPath.leave (h : FreshPath next seen v x) : FreshPath next (v :: seen) v x := by
  induction h with
  | refl => exact .refl
  | @tail a b _ hab ih =>
      by_cases hb : b = v
      · exact hb ▸ .refl
      · exact .tail ih ⟨hab.1, by simp [hb, hab.2]⟩

omit [DecidableEq α] in
theorem Grows.refl (seen : List α) : Grows next seen seen :=
  ⟨List.suffix_refl _, id, fun _ hx hn => (hn hx).elim⟩

omit [DecidableEq α] in
theorem Grows.trans (h : Grows next seen seen') (h' : Grows next seen' seen'') : Grows next seen seen'' where
  suffix := h.suffix.trans h'.suffix
  nodup hn := h'.nodup (h.nodup hn)
  closed x hx hn y hy := by
    by_cases hx' : x ∈ seen'
    · exact h'.suffix.subset (h.closed x hx' hn y hy)
    · exact h'.closed x hx hx' y hy

omit [DecidableEq α] in
/-- What is new includes all that a path gets to. -/
theorem Grows.mem_of_path (h : Grows next seen seen') (hv : v ∈ seen') (hn : v ∉ seen)
    (hp : FreshPath next seen v x) : x ∈ seen' := by
  induction hp with
  | refl => exact hv
  | @tail a b hpath hab ih => exact h.closed a ih (FreshPath.notMem hpath hn) b hab.1

/-! ### What a visit does -/

/-- What visits of single items do, visits of many do. -/
theorem visitAll_grows {f : α → List α → Option (List α)}
    (hf : ∀ w seen seen', w ∉ seen → f w seen = some seen' → Grows next seen seen' ∧ w ∈ seen')
    (h : visitAll f ws seen = some seen') : Grows next seen seen' ∧ ∀ w ∈ ws, w ∈ seen' := by
  induction ws generalizing seen with
  | nil =>
      cases h
      exact ⟨.refl _, by simp⟩
  | cons w ws ih =>
      rw [visitAll] at h
      by_cases hw : w ∈ seen
      · rw [if_pos hw] at h
        obtain ⟨hgrows, hall⟩ := ih h
        refine ⟨hgrows, fun u hu => ?_⟩
        rcases List.mem_cons.mp hu with rfl | hu
        · exact hgrows.suffix.subset hw
        · exact hall u hu
      · rw [if_neg hw] at h
        obtain ⟨mid, hmid, h⟩ := Option.bind_eq_some_iff.mp h
        obtain ⟨hfirst, hmem⟩ := hf w seen mid hw hmid
        obtain ⟨hrest, hall⟩ := ih h
        refine ⟨hfirst.trans hrest, fun u hu => ?_⟩
        rcases List.mem_cons.mp hu with rfl | hu
        · exact hrest.suffix.subset hmem
        · exact hall u hu

theorem visit_grows (hv : v ∉ seen) (h : visit next n v seen = some seen') :
    Grows next seen seen' ∧ v :: seen <:+ seen' := by
  induction n generalizing v seen seen' with
  | zero => cases h
  | succ n ih =>
      have hone : ∀ w seen seen', w ∉ seen → visit next n w seen = some seen' →
          Grows next seen seen' ∧ w ∈ seen' := by
        intro w seen seen' hw h
        obtain ⟨hgrows, hsuffix⟩ := ih hw h
        exact ⟨hgrows, hsuffix.subset List.mem_cons_self⟩
      obtain ⟨hgrows, hall⟩ := visitAll_grows hone h
      refine ⟨⟨(List.suffix_cons v seen).trans hgrows.suffix, ?_, ?_⟩, hgrows.suffix⟩
      · exact fun hn => hgrows.nodup (List.nodup_cons.mpr ⟨hv, hn⟩)
      · intro x hx hn y hy
        by_cases hxv : x = v
        · exact hall y (hxv ▸ hy)
        · exact hgrows.closed x hx (by simp [hxv, hn]) y hy

theorem visits_grow (h : visitAll (visit next n) ws seen = some seen') : Grows next seen seen' := by
  refine (visitAll_grows (fun w seen seen' hw hone => ?_) h).1
  obtain ⟨hgrows, hsuffix⟩ := visit_grows hw hone
  exact ⟨hgrows, hsuffix.subset List.mem_cons_self⟩

/-- What a visit is new at was found by a path. -/
theorem visitAll_sound {f : α → List α → Option (List α)}
    (hsub : ∀ w seen seen', w ∉ seen → f w seen = some seen' → seen ⊆ seen')
    (hf : ∀ w seen seen', w ∉ seen → f w seen = some seen' → ∀ x ∈ seen', x ∈ seen ∨ FreshPath next seen w x)
    (h : visitAll f ws seen = some seen') (hx : x ∈ seen') :
    x ∈ seen ∨ ∃ w ∈ ws, w ∉ seen ∧ FreshPath next seen w x := by
  induction ws generalizing seen with
  | nil =>
      cases h
      exact .inl hx
  | cons w ws ih =>
      rw [visitAll] at h
      by_cases hw : w ∈ seen
      · rw [if_pos hw] at h
        exact (ih h).imp_right fun ⟨u, hu, hp⟩ => ⟨u, List.mem_cons_of_mem _ hu, hp⟩
      · rw [if_neg hw] at h
        obtain ⟨mid, hmid, h⟩ := Option.bind_eq_some_iff.mp h
        have hmono := hsub w seen mid hw hmid
        rcases ih h with hmem | ⟨u, hu, hn, hp⟩
        · exact (hf w seen mid hw hmid x hmem).imp_right fun hp => ⟨w, List.mem_cons_self, hw, hp⟩
        · exact .inr ⟨u, List.mem_cons_of_mem _ hu, fun hs => hn (hmono hs), hp.mono fun y hy => hmono hy⟩

theorem visit_sound (hv : v ∉ seen) (h : visit next n v seen = some seen') (hx : x ∈ seen') :
    x ∈ seen ∨ FreshPath next seen v x := by
  induction n generalizing v seen seen' x with
  | zero => cases h
  | succ n ih =>
      have hsub : ∀ w seen seen', w ∉ seen → visit next n w seen = some seen' → seen ⊆ seen' :=
        fun w _ _ hw h => (visit_grows hw h).1.suffix.subset
      have hone : ∀ w seen seen', w ∉ seen → visit next n w seen = some seen' →
          ∀ x ∈ seen', x ∈ seen ∨ FreshPath next seen w x := fun w _ _ hw h x hx => ih hw h hx
      rcases visitAll_sound hsub hone h hx with hmem | ⟨w, hw, hn, hp⟩
      · rcases List.mem_cons.mp hmem with rfl | hmem
        · exact .inr .refl
        · exact .inl hmem
      · have hwseen : w ∉ seen := fun hs => hn (List.mem_cons_of_mem _ hs)
        exact .inr (.head ⟨hw, hwseen⟩ (hp.mono fun y hy => List.mem_cons_of_mem _ hy))

/-- **What a visit comes to**: all to which a path leads over items that were not visited. -/
theorem mem_visit_iff (hv : v ∉ seen) (h : visit next n v seen = some seen') :
    x ∈ seen' ∧ x ∉ seen ↔ FreshPath next seen v x := by
  obtain ⟨hgrows, hsuffix⟩ := visit_grows hv h
  constructor
  · rintro ⟨hx, hn⟩
    exact (visit_sound hv h hx).resolve_left hn
  · intro hp
    exact ⟨hgrows.mem_of_path (hsuffix.subset List.mem_cons_self) hv hp, hp.notMem hv⟩

/-! ### The visits come to an end -/

/-- How many of the items were not visited. -/
def unseen (items seen : List α) : Nat := (items.filter (· ∉ seen)).length

theorem unseen_le (items : List α) (h : ∀ x ∈ seen, x ∈ seen') : unseen items seen' ≤ unseen items seen := by
  refine List.Sublist.length_le (List.monotone_filter_right items fun x hx => ?_)
  simp only [decide_eq_true_eq] at hx ⊢
  exact fun hs => hx (h x hs)

theorem unseen_cons {items : List α} (hv : v ∈ items) (hn : v ∉ seen) :
    unseen items (v :: seen) < unseen items seen := by
  have hsub : items.filter (· ∉ v :: seen) = (items.filter (· ∉ seen)).filter (· ≠ v) := by
    rw [List.filter_filter]
    refine List.filter_congr fun x _ => ?_
    by_cases hxv : x = v
    · simp [hxv]
    · simp [hxv]
  have hmem : v ∈ items.filter (· ∉ seen) := List.mem_filter.mpr ⟨hv, by simpa using hn⟩
  unfold unseen
  rw [hsub]
  exact List.length_filter_lt_length_iff_exists.mpr ⟨v, hmem, by simp⟩

theorem visitAll_returns {f : α → List α → Option (List α)} {items : List α} {k : Nat}
    (hsub : ∀ w seen seen', w ∉ seen → f w seen = some seen' → seen ⊆ seen')
    (hf : ∀ w ∈ items, ∀ seen, w ∉ seen → unseen items seen < k → ∃ seen', f w seen = some seen')
    (hws : ∀ w ∈ ws, w ∈ items) (hk : unseen items seen < k) : ∃ seen', visitAll f ws seen = some seen' := by
  induction ws generalizing seen with
  | nil => exact ⟨seen, rfl⟩
  | cons w ws ih =>
      have htail : ∀ u ∈ ws, u ∈ items := fun u hu => hws u (List.mem_cons_of_mem _ hu)
      rw [visitAll]
      by_cases hw : w ∈ seen
      · rw [if_pos hw]
        exact ih htail hk
      · rw [if_neg hw]
        obtain ⟨mid, hmid⟩ := hf w (hws w List.mem_cons_self) seen hw hk
        rw [hmid, Option.bind_some]
        have hle := unseen_le items fun x hx => hsub w seen mid hw hmid hx
        exact ih htail (by omega)

/-- A visit returns if it may go deeper than there are items left. -/
theorem visit_returns {items : List α} (hitems : ∀ v ∈ items, ∀ w ∈ next v, w ∈ items) (hv : v ∈ items)
    (hn : v ∉ seen) (hk : unseen items seen < n) : ∃ seen', visit next n v seen = some seen' := by
  induction n generalizing v seen with
  | zero => omega
  | succ n ih =>
      have hsub : ∀ w seen seen', w ∉ seen → visit next n w seen = some seen' → seen ⊆ seen' :=
        fun w _ _ hw h => (visit_grows hw h).1.suffix.subset
      have hlt := unseen_cons hv hn
      exact visitAll_returns hsub (fun w hw seen hn hk => ih hw hn hk) (hitems v hv) (by omega)

end DepthFirst

end CompMatch

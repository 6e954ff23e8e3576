/-
When the search runs out of items.

A sweep is an order in which items can be looked at for the first time: each was named
before, by the start or an item ahead of it, and if it is the entry of a block, when no
item of the block had been taken.  If all that is named is in the sweep, the search can
run out.  It does for the addresses that ascend along the sweep: an item that is looked
at again names no block that is not marked.
-/
import CompMatch.Lib.WorkList.Termination

namespace CompMatch

namespace WorkList

variable {α β V : Type*} (w : WorkList α β V)

/-- The thread from an item ends, and names these. -/
def EndsWith (x : α) (bs : List β) (ys : List α) : Prop := ∃ z, w.Goes x z ∧ w.turn z = .ends bs ys

/-- Of `ts`, the last first, the last item or an earlier one has named the item. -/
def Due (start : α) (ts : List α) (y : α) : Prop :=
  ∃ us, us <:+ ts ∧ ∃ bs ys, w.EndsWith (us.headD start) bs ys ∧
    ((∃ b ∈ bs, b ∉ us.map w.block ∧ w.entry b = y) ∨ y ∈ ys)

/-- The items, the last first, can be looked at for the first time in this order. -/
inductive Sweep (start : α) : List α → Prop
  | nil : Sweep start []
  | cons {ts : List α} {y : α} (h : Sweep start ts) (hn : y ∉ ts) (hd : w.Due start ts y) :
      Sweep start (y :: ts)

/-- What `us` has named last is in the set or was taken. -/
def NamedIn (start : α) (set ts us : List α) : Prop :=
  ∃ bs ys, w.EndsWith (us.headD start) bs ys ∧ (∀ y ∈ ys, y ∈ set ∨ y ∈ ts) ∧
    ∀ b ∈ bs, b ∉ us.map w.block → w.entry b ∈ set ∨ w.entry b ∈ ts

/-- Nothing is left to look at after the sweep. -/
structure Complete (start : α) (zs : List α) : Prop where
  sweep : w.Sweep start zs
  named : ∀ us, us <:+ zs → w.NamedIn start [] zs us
  acyclic : ∀ z ∈ zs, ¬ Relation.TransGen w.Moves z z

/-- How a running search relates to the sweep of the items it has taken: it is behind `us`. -/
structure Swept (start : α) (ts us : List α) (x : α) (set : List α) (cs : List β) : Prop where
  sweep : w.Sweep start ts
  marks : ∀ b, b ∈ cs ↔ b ∈ ts.map w.block
  current : us <:+ ts
  goes : w.Goes (us.headD start) x
  due : ∀ y ∈ set, w.Due start ts y
  named : ∀ vs, vs <:+ ts → (us = ts → vs ≠ ts) → w.NamedIn start set ts vs

variable {w} {address : α → Nat} {start x y z : α} {b : β} {bs bs' cs : List β}
  {zs ts us vs ys ys' set set' : List α} {n : Nat}

theorem Due.mono (h : w.Due start us y) (hs : us <:+ ts) : w.Due start ts y := by
  obtain ⟨vs, hvs, h⟩ := h
  exact ⟨vs, hvs.trans hs, h⟩

theorem NamedIn.mono (h : w.NamedIn start set us vs) (hs : ∀ y, y ∈ set ∨ y ∈ us → y ∈ set' ∨ y ∈ ts) :
    w.NamedIn start set' ts vs := by
  obtain ⟨bs, ys, he, hys, hbs⟩ := h
  exact ⟨bs, ys, he, fun y hy => hs y (hys y hy), fun b hb hn => hs _ (hbs b hb hn)⟩

theorem Sweep.suffix (h : w.Sweep start ts) (hs : us <:+ ts) : w.Sweep start us := by
  induction h with
  | nil => exact List.suffix_nil.mp hs ▸ .nil
  | cons h hn hd ih =>
      rcases List.suffix_cons_iff.mp hs with rfl | hs
      · exact .cons h hn hd
      · exact ih hs

theorem Sweep.nodup (h : w.Sweep start ts) : ts.Nodup := by
  induction h with
  | nil => exact List.nodup_nil
  | cons _ hn _ ih => exact List.nodup_cons.mpr ⟨hn, ih⟩

/-- What is ahead in a thread is ahead from anywhere in it. -/
theorem Goes.total (h : w.Goes x y) (hz : w.Goes x z) : w.Goes y z ∨ w.Goes z y := by
  induction h with
  | refl => exact .inl hz
  | @tail u v _ hv ih =>
      rcases ih with hu | hu
      · rcases hu.cases_head with rfl | ⟨v', hv', hu⟩
        · exact .inr (.single hv)
        · rw [hv] at hv'
          cases hv'
          exact .inl hu
      · exact .inr (hu.tail hv)

theorem Goes.eq_of_ends (h : w.Goes x y) (ht : w.turn x = .ends bs ys) : x = y := by
  rcases h.cases_head with rfl | ⟨u, hu, -⟩
  · rfl
  · rw [ht] at hu
    cases hu

theorem EndsWith.unique (h : w.EndsWith x bs ys) (h' : w.EndsWith x bs' ys') :
    bs = bs' ∧ ys = ys' := by
  obtain ⟨z, hz, ht⟩ := h
  obtain ⟨z', hz', ht'⟩ := h'
  have heq : z = z' := by
    rcases hz.total hz' with h | h
    · exact Goes.eq_of_ends h ht
    · exact (Goes.eq_of_ends h ht').symm
  subst heq
  rw [ht] at ht'
  cases ht'
  exact ⟨rfl, rfl⟩

theorem swept_start : w.Swept start [] [] start [] [] where
  sweep := .nil
  marks := by simp
  current := List.suffix_refl _
  goes := .refl
  due := by simp
  named vs hvs hne := (hne rfl (List.suffix_nil.mp hvs)).elim

variable [DecidableEq α] [DecidableEq β]

/-! ### One turn -/

/-- When a thread has ended, everything that was named is in the set or was taken. -/
theorem Swept.push (h : w.Swept start ts us x set cs) (ht : w.turn x = .ends bs ys) :
    (∀ vs, vs <:+ ts → w.NamedIn start (insertAll set (w.due cs bs ys)) ts vs) ∧
      ∀ y ∈ insertAll set (w.due cs bs ys), w.Due start ts y := by
  have hends : w.EndsWith (us.headD start) bs ys := ⟨x, h.goes, ht⟩
  constructor
  · intro vs hvs
    by_cases hne : us = ts → vs ≠ ts
    · refine (h.named vs hvs hne).mono fun y hy => hy.imp_left fun hy => ?_
      exact mem_insertAll.mpr (.inl hy)
    · rw [Classical.not_imp, not_not] at hne
      obtain ⟨rfl, rfl⟩ := hne
      refine ⟨bs, ys, hends, fun y hy => .inl ?_, fun b hb hn => .inl ?_⟩
      · exact mem_insertAll.mpr (.inr (mem_due.mpr (.inr hy)))
      · have hcs : b ∉ cs := fun hc => hn ((h.marks b).mp hc)
        exact mem_insertAll.mpr (.inr (mem_due.mpr (.inl ⟨b, hb, hcs, rfl⟩)))
  · intro y hy
    rcases mem_insertAll.mp hy with hy | hy
    · exact h.due y hy
    · refine ⟨us, h.current, bs, ys, hends, ?_⟩
      refine (mem_due.mp hy).imp_left fun ⟨b, hb, hn, heq⟩ => ⟨b, hb, fun hc => hn ?_, heq⟩
      have hsub := h.current.subset
      exact (h.marks b).mpr (List.map_subset w.block hsub hc)

/-- The items that are left after one was taken out. -/
theorem mem_erase_or (h : z ∈ set) : z ∈ set.erase y ∨ z = y := by
  by_cases heq : z = y
  · exact .inr heq
  · exact .inl ((List.mem_erase_of_ne heq).mpr h)

/-- **A turn that goes on.**  The sweep grows by an item that is looked at for the first time. -/
theorem Swept.step {cs' : List β} (h : w.Swept start ts us x set cs)
    (hs : w.step address (.running x set cs) = .running y set' cs') :
    (∃ us', w.Swept start ts us' y set' cs') ∨
      y ∉ ts ∧ w.Due start ts y ∧ w.Swept start (y :: ts) (y :: ts) y set' cs' := by
  obtain ⟨_, _, _, heq, hz⟩ := step_running hs
  cases heq
  rcases hz with ⟨ht, rfl, rfl⟩ | ⟨bs, ys, ht, hy, rfl, rfl⟩
  · exact .inl ⟨us, { h with goes := h.goes.tail ht }⟩
  · obtain ⟨hnamed, hdue⟩ := h.push ht
    by_cases hyt : y ∈ ts
    · obtain ⟨pre, us', rfl⟩ := List.append_of_mem hyt
      have hmark : ∀ b, b ∈ w.block y :: cs ↔ b ∈ (pre ++ y :: us').map w.block := by
        intro b
        rw [List.mem_cons, h.marks]
        refine or_iff_right_of_imp ?_
        rintro rfl
        exact List.mem_map_of_mem hyt
      refine .inl ⟨y :: us', h.sweep, hmark, List.suffix_append _ _, .refl, ?_, ?_⟩
      · exact fun z hz => hdue z (List.mem_of_mem_erase hz)
      · intro vs hvs _
        refine (hnamed vs hvs).mono fun z hz => ?_
        rcases hz with hz | hz
        · refine (mem_erase_or hz).imp_right fun h => ?_
          exact h ▸ hyt
        · exact .inr hz
    · have hnew := hdue y hy
      refine .inr ⟨hyt, hnew, .cons h.sweep hyt hnew, ?_, List.suffix_refl _, .refl, ?_, ?_⟩
      · intro b
        rw [List.map_cons, List.mem_cons, List.mem_cons, h.marks]
      · exact fun z hz => (hdue z (List.mem_of_mem_erase hz)).mono (List.suffix_cons y ts)
      · intro vs hvs hne
        rcases List.suffix_cons_iff.mp hvs with rfl | hvs
        · exact (hne rfl rfl).elim
        · refine (hnamed vs hvs).mono fun z hz => ?_
          rcases hz with hz | hz
          · refine (mem_erase_or hz).imp_right fun h => ?_
            exact h ▸ List.mem_cons_self
          · exact .inr (List.mem_cons_of_mem _ hz)

/-! ### Searches that run out -/

theorem step_eq_exhausted (h : w.step address (.running x set cs) = .exhausted) :
    ∃ bs ys, w.turn x = .ends bs ys ∧ insertAll set (w.due cs bs ys) = [] := by
  cases hx : w.turn x with
  | answers u => simp [step_answers hx] at h
  | fails => simp [step_fails hx] at h
  | goes y => simp [step_goes hx] at h
  | ends bs ys =>
      rw [step_ends hx, take] at h
      split at h
      · rename_i hnone
        exact ⟨bs, ys, rfl, List.argmin_eq_none.mp hnone⟩
      · cases h

/-- A run sweeps over the items that it has taken. -/
theorem run_swept : ∀ {n x set cs}, w.run address start n = .running x set cs →
    ∃ ts us, w.Swept start ts us x set cs ∧
      ∀ z ∈ ts, ∃ k set' cs', w.run address start k = .running z set' cs' := by
  intro n
  induction n with
  | zero =>
      intro x set cs h
      cases h
      exact ⟨[], [], swept_start, by simp⟩
  | succ n ih =>
      intro x set cs h
      have hs := h
      rw [run_succ] at hs
      obtain ⟨z, set₀, cs₀, hz, -⟩ := step_running hs
      obtain ⟨ts, us, hswept, hlooked⟩ := ih hz
      rw [hz] at hs
      rcases hswept.step hs with ⟨us', hswept'⟩ | ⟨-, -, hswept'⟩
      · exact ⟨ts, us', hswept', hlooked⟩
      · refine ⟨x :: ts, x :: ts, hswept', fun u hu => ?_⟩
        rcases List.mem_cons.mp hu with rfl | hu
        · exact ⟨n + 1, set, cs, h⟩
        · exact hlooked u hu

theorem complete_of_exhausted (h : w.run address start n = .exhausted) :
    ∃ zs, w.Complete start zs := by
  obtain ⟨k, x, set, cs, hr, hs⟩ := run_stops (by rw [h]; rfl)
  obtain ⟨bs, ys, ht, hempty⟩ := step_eq_exhausted (hs.trans h)
  obtain ⟨ts, us, hswept, hlooked⟩ := run_swept hr
  refine ⟨ts, hswept.sweep, fun vs hvs => ?_, fun z hz hc => ?_⟩
  · exact hempty ▸ (hswept.push ht).1 vs hvs
  · obtain ⟨j, set', cs', hj⟩ := hlooked z hz
    exact not_exhausted_of_cycle hj hc h

/-! ### Addresses for a sweep -/

/-- What is least of the items that are left, if the next one of the sweep is among them. -/
theorem next_of_least {f : α → Nat} {q : α} (hnodup : zs.Nodup) (hts : q :: ts <:+ zs)
    (hn : y ∉ ts) (hle : listed zs.reverse f y ≤ listed zs.reverse f q) : y = q := by
  obtain ⟨pre, rfl⟩ := hts
  have hq : q ∉ ts.reverse := by
    have hnot := (List.nodup_cons.mp (List.Nodup.of_append_right hnodup)).1
    rwa [List.mem_reverse]
  have hrev : (pre ++ q :: ts).reverse = ts.reverse ++ q :: pre.reverse := by simp
  rw [hrev] at hle
  obtain ⟨-, hidx⟩ := of_listed_le (List.mem_append_right _ List.mem_cons_self) hle
  have hy : y ∉ ts.reverse := by rwa [List.mem_reverse]
  rw [List.idxOf_append_of_notMem hq, List.idxOf_append_of_notMem hy, List.idxOf_cons_self] at hidx
  by_contra hne
  rw [List.idxOf_cons_ne _ (Ne.symm hne)] at hidx
  omega

omit [DecidableEq α] [DecidableEq β] in
/-- What follows on itself, and what it goes to does. -/
theorem Goes.cycle (h : w.Goes x z) (hc : Relation.TransGen w.Moves x x) :
    Relation.TransGen w.Moves z z := by
  induction h with
  | refl => exact hc
  | @tail u v _ hv ih =>
      obtain ⟨c, hm, hcu⟩ := Relation.TransGen.head'_iff.mp ih
      have hcv : c = v := by
        rcases hm with ht | ⟨bs, ys, ht, -⟩
        · rw [hv] at ht
          cases ht
          rfl
        · rw [hv] at ht
          cases ht
      subst hcv
      exact .tail' hcu hm

omit [DecidableEq α] [DecidableEq β] in
/-- An item ahead of the end of a complete thread does not follow on itself. -/
theorem Complete.not_cycle (h : w.Complete start zs) (hus : us <:+ zs)
    (hx : w.Goes (us.headD start) x) : ¬ Relation.TransGen w.Moves x x := by
  intro hc
  obtain ⟨bs, ys, ⟨z, hz, ht⟩, hys, -⟩ := h.named us hus
  have hxz : w.Goes x z := by
    rcases hx.total hz with h | h
    · exact h
    · exact Goes.eq_of_ends h ht ▸ .refl
  obtain ⟨c, hm, hcz⟩ := Relation.TransGen.head'_iff.mp (hxz.cycle hc)
  have hcy : c ∈ ys := by
    rcases hm with ht' | ⟨bs', ys', ht', hc⟩
    · rw [ht] at ht'
      cases ht'
    · rw [ht] at ht'
      cases ht'
      exact hc
  rcases hys c hcy with hc | hc
  · cases hc
  · exact h.acyclic c hc (.tail' hcz hm)

/-- A search that has taken a part of a complete sweep, in its order. -/
structure Follows (w : WorkList α β V) (start : α) (zs ts us : List α) (x : α) (set : List α)
    (cs : List β) : Prop where
  swept : w.Swept start ts us x set cs
  part : ts <:+ zs
  inside : ∀ y ∈ set, y ∈ zs

/-- What the end of a thread puts into the set is in the sweep. -/
theorem Follows.inside_push (h : Follows w start zs ts us x set cs) (hz : w.Complete start zs)
    (ht : w.turn x = .ends bs ys) : ∀ y ∈ insertAll set (w.due cs bs ys), y ∈ zs := by
  obtain ⟨bs', ys', hends, hys, hbs⟩ := hz.named us (h.swept.current.trans h.part)
  obtain ⟨rfl, rfl⟩ := hends.unique ⟨x, h.swept.goes, ht⟩
  intro y hy
  rcases mem_insertAll.mp hy with hy | hy
  · exact h.inside y hy
  · rcases mem_due.mp hy with ⟨b, hb, hn, rfl⟩ | hy
    · have hus : b ∉ us.map w.block := fun hc =>
        hn ((h.swept.marks b).mpr (List.map_subset w.block h.swept.current.subset hc))
      exact (hbs b hb hus).resolve_left List.not_mem_nil
    · exact (hys y hy).resolve_left List.not_mem_nil

/-- The next item of the sweep is in the set when a thread has ended. -/
theorem Follows.next_mem {q : α} (h : Follows w start zs ts us x set cs) (hz : w.Complete start zs)
    (ht : w.turn x = .ends bs ys) (hq : q :: ts <:+ zs) : q ∈ insertAll set (w.due cs bs ys) := by
  cases hz.sweep.suffix hq with
  | cons _ hn hd =>
      obtain ⟨vs, hvs, bs', ys', hends, hnamed⟩ := hd
      obtain ⟨bs'', ys'', hends', hys, hbs⟩ := (h.swept.push ht).1 vs hvs
      obtain ⟨rfl, rfl⟩ := hends.unique hends'
      have hor : q ∈ insertAll set (w.due cs bs ys) ∨ q ∈ ts := by
        rcases hnamed with ⟨b, hb, hb', rfl⟩ | hy
        · exact hbs b hb hb'
        · exact hys q hy
      exact hor.resolve_right hn

/-- What is taken next was taken before or is the next item of the sweep. -/
theorem Follows.take {f : α → Nat} (h : Follows w start zs ts us x set cs)
    (hz : w.Complete start zs) (ht : w.turn x = .ends bs ys)
    (hne : insertAll set (w.due cs bs ys) ≠ []) :
    ∃ y, w.step (listed zs.reverse f) (.running x set cs) =
      .running y ((insertAll set (w.due cs bs ys)).erase y) (w.block y :: cs) ∧
      (y ∈ ts ∨ y :: ts <:+ zs) := by
  rw [step_ends ht]
  obtain ⟨pre, hpre⟩ := h.part
  rcases List.eq_nil_or_concat pre with rfl | ⟨pre, q, rfl⟩
  · obtain ⟨q, hq⟩ := List.exists_mem_of_ne_nil _ hne
    obtain ⟨y, hy, -, htake⟩ := take_of_mem w (listed zs.reverse f) cs hq
    have hyz := h.inside_push hz ht y hy
    rw [← hpre] at hyz
    exact ⟨y, htake, .inl hyz⟩
  · have hq : q :: ts <:+ zs := ⟨pre, by rw [← hpre]; simp⟩
    obtain ⟨y, -, hle, htake⟩ := take_of_mem w (listed zs.reverse f) cs (h.next_mem hz ht hq)
    refine ⟨y, htake, ?_⟩
    by_cases hy : y ∈ ts
    · exact .inl hy
    · exact .inr (next_of_least hz.sweep.nodup hq hy hle ▸ hq)

/-- The search goes on in the sweep, or has run out. -/
theorem Follows.step {f : α → Nat} (h : Follows w start zs ts us x set cs)
    (hz : w.Complete start zs) :
    w.step (listed zs.reverse f) (.running x set cs) = .exhausted ∨
      ∃ ts' us' y set' cs', w.step (listed zs.reverse f) (.running x set cs) = .running y set' cs' ∧
        Follows w start zs ts' us' y set' cs' := by
  obtain ⟨bs, ys, ⟨z, hz', ht⟩, -⟩ := hz.named us (h.swept.current.trans h.part)
  have hxz : w.Goes x z := by
    rcases h.swept.goes.total hz' with hg | hg
    · exact hg
    · exact Goes.eq_of_ends hg ht ▸ .refl
  rcases hxz.cases_head with rfl | ⟨y, hy, -⟩
  · by_cases hset : insertAll set (w.due cs bs ys) = []
    · left
      rw [step_ends ht, hset]
      rfl
    · obtain ⟨y, hstep, hy⟩ := h.take hz ht hset
      have hinside : ∀ u ∈ (insertAll set (w.due cs bs ys)).erase y, u ∈ zs := fun u hu =>
        h.inside_push hz ht u (List.mem_of_mem_erase hu)
      rcases h.swept.step hstep with ⟨us', hswept⟩ | ⟨hn, -, hswept⟩
      · exact .inr ⟨ts, us', y, _, _, hstep, hswept, h.part, hinside⟩
      · exact .inr ⟨y :: ts, y :: ts, y, _, _, hstep, hswept, hy.resolve_left hn, hinside⟩
  · refine .inr ⟨ts, us, y, set, cs, step_goes hy, { h.swept with goes := h.swept.goes.tail hy }, h.part, h.inside⟩

/--
**A complete sweep is run through** for the addresses that ascend along it.
-/
theorem exhausted_of_complete (h : w.Complete start zs) (f : α → Nat) :
    ∃ n, w.run (listed zs.reverse f) start n = .exhausted := by
  have hall : ∀ n, w.run (listed zs.reverse f) start n = .exhausted ∨
      ∃ ts us x set cs, w.run (listed zs.reverse f) start n = .running x set cs ∧
        Follows w start zs ts us x set cs := by
    intro n
    induction n with
    | zero => exact .inr ⟨[], [], start, [], [], rfl, swept_start, List.nil_suffix, by simp⟩
    | succ n ih =>
        rw [run_succ]
        rcases ih with hn | ⟨ts, us, x, set, cs, hn, hx⟩
        · rw [hn]
          exact .inl rfl
        · rw [hn]
          exact hx.step h
  have hgets : ∀ n x set cs, w.run (listed zs.reverse f) start n = .running x set cs →
      ∃ us, us <:+ zs ∧ w.Goes (us.headD start) x := by
    intro n x set cs hn
    rcases hall n with hn' | ⟨ts, us, x', set', cs', hn', hx⟩
    · rw [hn] at hn'
      cases hn'
    · rw [hn] at hn'
      cases hn'
      exact ⟨us, hx.swept.current.trans hx.part, hx.swept.goes⟩
  obtain ⟨n, hn⟩ := run_ends hgets fun x ⟨us, hus, hx⟩ => h.not_cycle hus hx
  rcases hall n with hn' | ⟨ts, us, x, set, cs, hn', -⟩
  · exact ⟨n, hn'⟩
  · rw [hn'] at hn
    cases hn

/-- **Which searches run out**, for some addresses. -/
theorem exhausted_iff [Countable α] : (∃ address : α → Nat, address.Injective ∧
      ∃ n, w.run address start n = .exhausted) ↔ ∃ zs, w.Complete start zs := by
  constructor
  · rintro ⟨address, -, n, h⟩
    exact complete_of_exhausted h
  · rintro ⟨zs, h⟩
    obtain ⟨f, hf⟩ := exists_injective_nat α
    exact ⟨_, listed_injective hf, exhausted_of_complete h f⟩

end WorkList

end CompMatch

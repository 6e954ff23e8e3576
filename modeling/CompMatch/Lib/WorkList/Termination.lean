/-
Which searches come to an end.

An entry is taken at most once.  Between two entries only such items are taken that
follow on what is looked at, so the search ends unless items follow on one another in a
cycle.  If a thread gets into a cycle, the search does not end for the addresses that
put the thread and the cycle first.
-/
import CompMatch.Lib.WorkList
import Mathlib.Logic.Hydra
import Mathlib.Order.WellFoundedSet

namespace CompMatch

namespace WorkList

variable {α β V : Type*} [DecidableEq α] [DecidableEq β] {w : WorkList α β V}
  {address : α → Nat} {start x y : α} {b : β} {bs cs : List β} {ps ts ys : List α} {n : Nat}

omit [DecidableEq α] in
/-- Descending chains in a finite relation without cycles end. -/
theorem wellFounded_of_acyclic {r : α → α → Prop} (hfin : {x | ∃ y, r y x}.Finite)
    (hac : ∀ x, ¬ Relation.TransGen r x x) : WellFounded r := by
  have hstrict : IsStrictOrder α (Relation.TransGen r) :=
    { irrefl := hac, trans := fun _ _ _ h₁ h₂ => h₁.trans h₂ }
  have hout : ∀ y, (¬ ∃ z, r z y) → Acc r y := fun y hy => .intro y fun z hz => (hy ⟨z, hz⟩).elim
  have hin : ∀ x ∈ {x | ∃ y, r y x}, Acc r x := by
    intro x hx
    refine Set.WellFoundedOn.induction (hfin.wellFoundedOn (r := Relation.TransGen r)) hx ?_
    intro y _ ih
    refine .intro y fun z hz => ?_
    by_cases hz' : ∃ u, r u z
    · exact ih z hz' (.single hz)
    · exact hout z hz'
  refine ⟨fun x => ?_⟩
  by_cases hx : ∃ y, r y x
  · exact hin x hx
  · exact hout x hx

/-- The blocks that are named. -/
def Named (w : WorkList α β V) (b : β) : Prop := ∃ x bs ys, w.turn x = .ends bs ys ∧ b ∈ bs

omit [DecidableEq α] [DecidableEq β] in
theorem named_finite : {b | w.Named b}.Finite := by
  refine (w.finite.biUnion (t := fun x => {b | ∃ bs ys, w.turn x = .ends bs ys ∧ b ∈ bs}) ?_).subset ?_
  · intro x _
    cases hx : w.turn x with
    | ends bs ys =>
        refine (List.finite_toSet bs).subset ?_
        rintro b ⟨bs', ys', heq, hb⟩
        cases heq
        exact hb
    | _ => exact Set.finite_empty.subset fun b ⟨_, _, heq, _⟩ => by cases heq
  · rintro b ⟨x, bs, ys, hx, hb⟩
    refine Set.mem_biUnion (x := x) ?_ ⟨bs, ys, hx, hb⟩
    intro hn
    rw [hx] at hn
    cases hn
    cases hb

theorem run_nodup : ∀ {n x ts cs}, w.run address start n = .running x ts cs → ts.Nodup := by
  intro n
  induction n with
  | zero =>
      intro x ts cs h
      cases h
      exact List.nodup_nil
  | succ n ih =>
      intro x ts cs h
      rw [run_succ] at h
      obtain ⟨z, ts₀, cs₀, hs, ⟨-, rfl, -⟩ | ⟨bs, ys, -, -, rfl, -⟩⟩ := step_running h
      · exact ih hs
      · exact (nodup_insertAll (ih hs)).erase _

omit [DecidableEq α] [DecidableEq β] in
/-- The entries that are in the set are those of named blocks. -/
theorem Threaded.named (h : w.Threaded start ts cs) (hb : w.entry b ∈ ts) : w.Named b := by
  obtain ⟨ps, ht, -⟩ := h.due _ hb
  obtain ⟨z, bs, ys, -, hz, ⟨c, hc, -, heq⟩ | hy⟩ := ht.behind
  · have hcb : c = b := by rw [← w.block_entry c, heq, w.block_entry]
    exact ⟨z, bs, ys, hz, hcb ▸ hc⟩
  · refine absurd ?_ (w.again_ne_entry z bs ys hz _ hy)
    rw [w.block_entry]

variable (w)

/-- The item is not the entry of its block. -/
def IsInner (x : α) : Prop := x ≠ w.entry (w.block x)

instance : DecidablePred w.IsInner := fun x => inferInstanceAs (Decidable (x ≠ w.entry (w.block x)))

/-- The blocks that can still be entered. -/
noncomputable def toEnter (ts : List α) (cs : List β) : Finset β :=
  (named_finite (w := w)).toFinset.filter fun b => b ∉ cs ∨ w.entry b ∈ ts

/-- The items that are due, the entries left out. -/
def inner (x : α) (ts : List α) : Multiset α := x ::ₘ (ts.filter (w.IsInner ·) : Multiset α)

variable {w}

theorem mem_toEnter : b ∈ w.toEnter ts cs ↔ w.Named b ∧ (b ∉ cs ∨ w.entry b ∈ ts) := by
  simp only [toEnter, Finset.mem_filter, Set.Finite.mem_toFinset, Set.mem_ofPred_eq]

/-- What is named and taken out leaves no more blocks to enter. -/
theorem toEnter_take (ht : w.turn x = .ends bs ys) :
    w.toEnter ((insertAll ts (w.due cs bs ys)).erase y) (w.block y :: cs) ⊆ w.toEnter ts cs := by
  intro b hb
  obtain ⟨hn, hb⟩ := mem_toEnter.mp hb
  refine mem_toEnter.mpr ⟨hn, ?_⟩
  rcases hb with hb | hb
  · exact .inl fun hc => hb (List.mem_cons_of_mem _ hc)
  · rcases mem_insertAll.mp (List.mem_of_mem_erase hb) with hb | hb
    · exact .inr hb
    · rcases mem_due.mp hb with ⟨c, -, hc, heq⟩ | hy
      · have hcb : c = b := by rw [← w.block_entry c, heq, w.block_entry]
        exact .inl (hcb ▸ hc)
      · refine absurd ?_ (w.again_ne_entry x bs ys ht _ hy)
        rw [w.block_entry]

/-- An entry that is taken out is one less to enter. -/
theorem toEnter_enter (ht : w.turn x = .ends bs ys) (hts : ts.Nodup)
    (hnamed : ∀ b, w.entry b ∈ ts → w.Named b) (hy : y ∈ insertAll ts (w.due cs bs ys))
    (hin : ¬ w.IsInner y) :
    w.toEnter ((insertAll ts (w.due cs bs ys)).erase y) (w.block y :: cs) ⊂ w.toEnter ts cs := by
  have hentry : w.entry (w.block y) = y := (not_not.mp hin).symm
  refine Finset.ssubset_iff_of_subset (toEnter_take ht) |>.mpr ⟨w.block y, mem_toEnter.mpr ?_, ?_⟩
  · rcases mem_insertAll.mp hy with hy | hy
    · exact ⟨hnamed _ (hentry.symm ▸ hy), .inr (hentry.symm ▸ hy)⟩
    · rcases mem_due.mp hy with ⟨c, hb, hc, heq⟩ | hy
      · have hcb : c = w.block y := by rw [← heq, w.block_entry]
        exact ⟨⟨x, bs, ys, ht, hcb ▸ hb⟩, .inl (hcb ▸ hc)⟩
      · exact absurd hentry.symm (w.again_ne_entry x bs ys ht y hy)
  · intro hmem
    rcases (mem_toEnter.mp hmem).2 with h | h
    · exact h List.mem_cons_self
    · rw [hentry] at h
      exact (nodup_insertAll hts).not_mem_erase h

/-- The inner items after an inner item was taken out. -/
theorem inner_take (hin : w.IsInner y) (hy : y ∈ insertAll ts (w.due cs bs ys)) :
    w.inner y ((insertAll ts (w.due cs bs ys)).erase y) + {x} = w.inner x ts +
      ((((w.due cs bs ys).filter (· ∉ ts)).dedup.filter (w.IsInner ·) : List α) : Multiset α) := by
  have hmem : y ∈ ((insertAll ts (w.due cs bs ys)).filter (w.IsInner ·) : Multiset α) := by
    rw [Multiset.mem_coe, List.mem_filter, decide_eq_true_eq]
    exact ⟨hy, hin⟩
  rw [inner, inner, ← List.erase_filter, ← Multiset.coe_erase, Multiset.cons_erase hmem, insertAll,
    List.filter_append, ← Multiset.coe_add, ← Multiset.singleton_add, add_comm, add_assoc]

/-- What a turn does to the blocks to enter and the inner items. -/
theorem step_decreases {r : α → α → Prop} {ts' : List α} {cs' : List β} (hts : ts.Nodup)
    (hnamed : ∀ b, w.entry b ∈ ts → w.Named b) (hr : ∀ y, w.Moves x y → r y x)
    (h : w.step address (.running x ts cs) = .running y ts' cs') :
    Prod.Lex (· < ·) (Relation.CutExpand r) ((w.toEnter ts' cs').card, w.inner y ts')
      ((w.toEnter ts cs).card, w.inner x ts) := by
  obtain ⟨_, _, _, heq, hz⟩ := step_running h
  cases heq
  rcases hz with ⟨ht, rfl, rfl⟩ | ⟨bs, ys, ht, hy, rfl, rfl⟩
  · rw [inner, inner, ← Multiset.singleton_add, ← Multiset.singleton_add]
    exact .right _ (Relation.cutExpand_single_add (hr y (.inl ht)) _)
  · by_cases hin : w.IsInner y
    · have hle := Finset.card_le_card (toEnter_take (y := y) ht : _ ⊆ w.toEnter ts cs)
      rcases Nat.lt_or_eq_of_le hle with hlt | heq
      · exact .left _ _ hlt
      · rw [heq]
        refine .right _ ⟨_, x, ?_, inner_take hin hy⟩
        intro z hz
        rw [Multiset.mem_coe, List.mem_filter, decide_eq_true_eq, List.mem_dedup, List.mem_filter] at hz
        obtain ⟨⟨hz, -⟩, hzin⟩ := hz
        rcases mem_due.mp hz with ⟨c, -, -, rfl⟩ | hz
        · rw [IsInner, w.block_entry] at hzin
          exact (hzin rfl).elim
        · exact hr z (.inr ⟨bs, ys, ht, hz⟩)
    · exact .left _ _ (Finset.card_lt_card (toEnter_enter ht hts hnamed hy hin))

/--
**Without a cycle the search ends**: if no item that a run gets to follows, through others,
on itself, the run stops for these addresses.
-/
theorem run_ends {P : α → Prop}
    (hP : ∀ n x ts cs, w.run address start n = .running x ts cs → P x)
    (hac : ∀ x, P x → ¬ Relation.TransGen w.Moves x x) :
    ∃ n, (w.run address start n).isRunning = false := by
  let r : α → α → Prop := fun y x => P x ∧ w.Moves x y
  have hwf : WellFounded r := by
    refine wellFounded_of_acyclic (w.finite.subset ?_) ?_
    · rintro x ⟨y, -, hm⟩ hx
      rcases hm with hm | ⟨bs, ys, hm, hy⟩
      · rw [hx] at hm
        cases hm
      · rw [hx] at hm
        cases hm
        cases hy
    · intro x hx
      have hcycle : Relation.TransGen (fun x y => P x ∧ w.Moves x y) x x := hx.swap
      obtain ⟨y, hy, -⟩ := Relation.TransGen.head'_iff.mp hcycle
      exact hac x hy.1 (hcycle.lift id fun _ _ h => h.2)
  by_contra hall
  have hrun : ∀ n, ∃ x ts cs, w.run address start n = .running x ts cs := by
    intro n
    exact exists_of_isRunning (Bool.of_not_eq_false fun h => hall ⟨n, h⟩)
  have hdesc : ∀ m n x ts cs, m = ((w.toEnter ts cs).card, w.inner x ts) →
      w.run address start n = .running x ts cs → False := by
    intro m
    induction m using (WellFounded.prod_lex Nat.lt_wfRel.wf hwf.cutExpand).induction with
    | _ m ih =>
        rintro n x ts cs rfl hs
        obtain ⟨y, ts', cs', hs'⟩ := hrun (n + 1)
        have hstep := hs'
        rw [run_succ, hs] at hstep
        have hnamed : ∀ b, w.entry b ∈ ts → w.Named b := fun b => (run_threaded hs).2.named
        exact ih _ (step_decreases (run_nodup hs) hnamed (fun y hy => ⟨hP n x ts cs hs, hy⟩) hstep)
          (n + 1) y ts' cs' rfl hs'
  obtain ⟨x, ts, cs, hs⟩ := hrun 0
  exact hdesc _ 0 x ts cs rfl hs

/-! ### Searches that do not -/

/-- Nothing in the thread from here stops the search. -/
def Safe (w : WorkList α β V) (x : α) : Prop := ∀ z, w.Goes x z →
  (∃ y, w.turn z = .goes y) ∨ ∃ bs ys, w.turn z = .ends bs ys

omit [DecidableEq α] [DecidableEq β] in
theorem Safe.of_ends (h : w.turn x = .ends bs ys) : w.Safe x := by
  intro z hz
  rcases hz.cases_head with rfl | ⟨y, hy, -⟩
  · exact .inr ⟨bs, ys, h⟩
  · rw [h] at hy
    cases hy

omit [DecidableEq α] [DecidableEq β] in
theorem Safe.goes (h : w.Safe x) (ht : w.turn x = .goes y) : w.Safe y := fun z hz =>
  h z (hz.head ht)

omit [DecidableEq α] [DecidableEq β] in
theorem Safe.of_goes (h : w.Goes x y) (hy : w.Safe y) : w.Safe x := by
  induction h using Relation.ReflTransGen.head_induction_on with
  | refl => exact hy
  | @head u v hu _ ih =>
      intro z hz
      rcases hz.cases_head with rfl | ⟨v', hv', hz⟩
      · exact .inl ⟨v, hu⟩
      · rw [hu] at hv'
        cases hv'
        exact ih z hz

omit [DecidableEq α] [DecidableEq β] in
/-- All that a thread has taken is safe if it is safe where the thread is. -/
theorem Trail.safe (h : w.Trail start ps x) (hx : w.Safe x) : ∀ q ∈ ps, w.Safe q := by
  induction ps generalizing x with
  | nil => simp
  | cons p rest ih =>
      intro q hq
      obtain ⟨z, bs, ys, hz, ht, -⟩ := h.behind
      rcases List.mem_cons.mp hq with rfl | hq
      · exact .of_goes h.here hx
      · exact ih hz (.of_ends ht) q hq

omit [DecidableEq α] in
theorem chain_items {r : α → α → Prop} (h : Relation.TransGen r x y) :
    ∃ zs : List α, x ∈ zs ∧ ∀ u ∈ zs, ∃ v, r u v ∧ (v ∈ zs ∨ v = y) := by
  induction h using Relation.TransGen.head_induction_on with
  | @single u hu => exact ⟨[u], by simp, fun u' hu' => ⟨y, List.mem_singleton.mp hu' ▸ hu, .inr rfl⟩⟩
  | @head u v hu _ ih =>
      obtain ⟨zs, hv, hzs⟩ := ih
      refine ⟨u :: zs, List.mem_cons_self, fun u' hu' => ?_⟩
      rcases List.mem_cons.mp hu' with rfl | hu'
      · exact ⟨v, hu, .inl (List.mem_cons_of_mem _ hv)⟩
      · obtain ⟨v', hr, hv'⟩ := hzs u' hu'
        exact ⟨v', hr, hv'.imp_left (List.mem_cons_of_mem _)⟩

/-- Each of the items is followed by one of them. -/
def Cyclic (w : WorkList α β V) (zs : List α) : Prop := ∀ u ∈ zs, ∃ v ∈ zs, w.Moves u v

omit [DecidableEq α] [DecidableEq β] in
/-- The items of a cycle. -/
theorem cycle_items (h : Relation.TransGen w.Moves x x) : ∃ zs, x ∈ zs ∧ w.Cyclic zs := by
  obtain ⟨zs, hx, hzs⟩ := chain_items h
  refine ⟨zs, hx, fun u hu => ?_⟩
  obtain ⟨v, hm, hv | rfl⟩ := hzs u hu
  · exact ⟨v, hv, hm⟩
  · exact ⟨v, hx, hm⟩

omit [DecidableEq α] [DecidableEq β] in
theorem Cyclic.goes {zs : List α} (h : w.Cyclic zs) (hx : x ∈ zs) (ht : w.turn x = .goes y) : y ∈ zs := by
  obtain ⟨v, hv, ht' | ⟨bs, ys, ht', -⟩⟩ := h x hx
  · rw [ht] at ht'
    cases ht'
    exact hv
  · rw [ht] at ht'
    cases ht'

omit [DecidableEq α] [DecidableEq β] in
theorem Cyclic.ends {zs : List α} (h : w.Cyclic zs) (hx : x ∈ zs) (ht : w.turn x = .ends bs ys) :
    ∃ v ∈ zs, v ∈ ys := by
  obtain ⟨v, hv, ht' | ⟨bs, ys, ht', hy⟩⟩ := h x hx
  · rw [ht] at ht'
    cases ht'
  · rw [ht] at ht'
    cases ht'
    exact ⟨v, hv, hy⟩

omit [DecidableEq α] [DecidableEq β] in
theorem Cyclic.safe {zs : List α} (h : w.Cyclic zs) (hx : x ∈ zs) : w.Safe x := by
  intro z hz
  have hmem : z ∈ zs := by
    induction hz with
    | refl => exact hx
    | tail _ hv ih => exact h.goes ih hv
  obtain ⟨v, -, ht | ⟨bs, ys, ht, -⟩⟩ := h z hmem
  · exact .inl ⟨v, ht⟩
  · exact .inr ⟨bs, ys, ht⟩

/-- Some of the items is looked at or is in the set. -/
def Held (zs : List α) (x : α) (ts : List α) : Prop := x ∈ zs ∨ ∃ y ∈ ts, y ∈ zs

omit [DecidableEq α] [DecidableEq β] in
theorem Held.goes {zs : List α} (h : Held zs x ts) (hz : w.Cyclic zs) (ht : w.turn x = .goes y) :
    Held zs y ts := h.imp_left fun hx => hz.goes hx ht

/-- When a thread ends, one of the items is in the set. -/
theorem Held.ends {zs : List α} (h : Held zs x ts) (hz : w.Cyclic zs) (ht : w.turn x = .ends bs ys) :
    ∃ v ∈ zs, v ∈ insertAll ts (w.due cs bs ys) := by
  rcases h with hx | ⟨y, hy, hyz⟩
  · obtain ⟨v, hv, hvy⟩ := hz.ends hx ht
    exact ⟨v, hv, mem_insertAll.mpr (.inr (mem_due.mpr (.inr hvy)))⟩
  · exact ⟨y, hyz, mem_insertAll.mpr (.inl hy)⟩

omit [DecidableEq β] in
theorem held_erase {zs : List α} (hx : x ∈ zs) (h : x ∈ ts) : Held zs y (ts.erase y) := by
  by_cases hxy : x = y
  · exact .inl (hxy ▸ hx)
  · exact .inr ⟨x, (List.mem_erase_of_ne hxy).mpr h, hx⟩

/-- A search that has come to a cycle stays there if nothing ahead of it stops the search. -/
theorem Held.step {qs zs : List α} {f : α → Nat} (hsafe : ∀ q ∈ qs, w.Safe q)
    (hsub : ∀ u ∈ zs, u ∈ qs) (hz : w.Cyclic zs) (h : Held zs x ts) (hx : w.Safe x) :
    ∃ y ts' cs', w.step (listed qs f) (.running x ts cs) = .running y ts' cs' ∧
      Held zs y ts' ∧ w.Safe y := by
  rcases hx x .refl with ⟨y, ht⟩ | ⟨bs, ys, ht⟩
  · exact ⟨y, ts, cs, step_goes ht, h.goes hz ht, hx.goes ht⟩
  · have hends : ∃ v ∈ zs, v ∈ insertAll ts (w.due cs bs ys) := h.ends hz ht
    obtain ⟨v, hv, hmem⟩ := hends
    obtain ⟨q, -, hle, htake⟩ := take_of_mem w (listed qs f) cs hmem
    obtain ⟨hq, -⟩ := of_listed_le (hsub v hv) hle
    exact ⟨q, _, _, (step_ends ht).trans htake, held_erase hv hmem, hsafe q hq⟩

/-- A search that has looked at an item of a cycle does not run out. -/
theorem not_exhausted_of_cycle {k : Nat} (hr : w.run address start k = .running x ts cs)
    (hc : Relation.TransGen w.Moves x x) : w.run address start n ≠ .exhausted := by
  obtain ⟨zs, hx, hz⟩ := cycle_items hc
  have hall : ∀ j, w.run address start (k + j) ≠ .exhausted ∧
      ∀ y ts cs, w.run address start (k + j) = .running y ts cs → Held zs y ts := by
    intro j
    induction j with
    | zero =>
        rw [Nat.add_zero, hr]
        refine ⟨by simp, ?_⟩
        intro y ts cs h
        cases h
        exact .inl hx
    | succ j ih =>
        rw [← Nat.add_assoc, run_succ]
        cases hs : w.run address start (k + j) with
        | running y ts cs =>
            have hheld := ih.2 y ts cs hs
            cases ht : w.turn y with
            | answers v => simp [step_answers ht]
            | fails => simp [step_fails ht]
            | goes y' =>
                rw [step_goes ht]
                refine ⟨by simp, ?_⟩
                intro u ts' cs' h
                cases h
                exact hheld.goes hz ht
            | ends bs ys =>
                have hends : ∃ v ∈ zs, v ∈ insertAll ts (w.due cs bs ys) := hheld.ends hz ht
                obtain ⟨v, hv, hmem⟩ := hends
                obtain ⟨q, -, -, htake⟩ := take_of_mem w address cs hmem
                rw [step_ends ht, htake]
                refine ⟨by simp, ?_⟩
                intro u ts' cs' h
                cases h
                exact held_erase hv hmem
        | answered v => simp [WorkList.step]
        | failed => simp [WorkList.step]
        | exhausted => exact (ih.1 hs).elim
  intro hn
  have hstop := run_stopped (by rw [hn]; rfl) k
  rw [Nat.add_comm, hn] at hstop
  exact (hall n).1 hstop

/--
**Where the search does not end**: there are addresses for which it runs on exactly if
some thread gets to an item that follows, through others, on itself.
-/
theorem endless_iff [Countable α] : (∃ address : α → Nat, address.Injective ∧
      ∀ n, (w.run address start n).isRunning = true) ↔
    ∃ x, w.Gets start x ∧ Relation.TransGen w.Moves x x := by
  constructor
  · rintro ⟨address, -, hrun⟩
    by_contra hno
    have hgets : ∀ n x ts cs, w.run address start n = .running x ts cs → w.Gets start x :=
      fun _ _ _ _ => gets_of_run
    obtain ⟨n, hn⟩ := run_ends hgets fun x hx hc => hno ⟨x, hx, hc⟩
    rw [hrun n] at hn
    cases hn
  · rintro ⟨x, ⟨ps, h⟩, hc⟩
    obtain ⟨zs, hx, hz⟩ := cycle_items hc
    obtain ⟨f, hf⟩ := exists_injective_nat α
    obtain ⟨n, ts, cs, hr, -⟩ := h.run zs f
    have hall : ∀ q ∈ ps ++ zs, w.Safe q := by
      intro q hq
      rcases List.mem_append.mp hq with hq | hq
      · exact h.safe (hz.safe hx) q hq
      · exact hz.safe hq
    have hheld : ∀ k, ∃ y ts' cs', w.run (listed (ps ++ zs) f) start (n + k) = .running y ts' cs' ∧
        Held zs y ts' ∧ w.Safe y := by
      intro k
      induction k with
      | zero => exact ⟨x, ts, cs, hr, .inl hx, hz.safe hx⟩
      | succ k ih =>
          obtain ⟨y, ts', cs', hk, hy, hsafe⟩ := ih
          rw [← Nat.add_assoc, run_succ, hk]
          exact hy.step hall (fun u hu => List.mem_append_right _ hu) hz hsafe
    refine ⟨listed (ps ++ zs) f, listed_injective hf, fun m => ?_⟩
    by_contra hm
    have hstop := run_stopped (Bool.of_not_eq_true hm) n
    obtain ⟨y, ts', cs', hy, -, -⟩ := hheld m
    rw [Nat.add_comm, hy] at hstop
    rw [← hstop] at hm
    exact hm rfl

end WorkList

end CompMatch

/-
What a search has left out.

Blocks are marked when one of their items is taken, and a marked block is not entered any
more.  So an item that was named is looked at or kept in the set, unless it is the entry of
a block that was marked before it was named for the first time: by an item further inside,
that was named itself.  `CutsInto` is such a turn, and the search has left something out
just when the block is named later on.
-/
import CompMatch.Lib.WorkList.Termination

namespace CompMatch

namespace WorkList

variable {α β V : Type*} [DecidableEq α] [DecidableEq β] (w : WorkList α β V)
  (address : α → Nat) (start : α)

/-- The item was looked at in one of the first `n` turns. -/
def LookedAt (n : Nat) (x : α) : Prop := ∃ k < n, ∃ ts cs, w.run address start k = .running x ts cs

/-- The item was looked at, or it is the next one, or it is in the set. -/
def Known (n : Nat) (y : α) : Prop :=
  w.LookedAt address start n y ∨ ∃ x ts cs, w.run address start n = .running x ts cs ∧ (y = x ∨ y ∈ ts)

omit [DecidableEq α] [DecidableEq β] in
/-- The block is named at the item. -/
def NamesBlock (x : α) (b : β) : Prop := ∃ bs ys, w.turn x = .ends bs ys ∧ b ∈ bs

omit [DecidableEq α] [DecidableEq β] in
/-- What is named at an item, whatever is marked. -/
inductive Leads (x : α) : α → Prop
  | goes {y : α} (ht : w.turn x = .goes y) : Leads x y
  | enters {b : β} (hb : w.NamesBlock x b) : Leads x (w.entry b)
  | again {y : α} {bs : List β} {ys : List α} (ht : w.turn x = .ends bs ys) (hy : y ∈ ys) : Leads x y

/-- The turn takes an item of the block that is not its entry, and nothing has named the block. -/
structure CutsInto (k : Nat) (b : β) : Prop where
  takes : ∃ x y ts ts' cs, w.run address start k = .running x ts cs ∧
    w.run address start (k + 1) = .running y ts' (b :: cs) ∧ y ≠ w.entry b
  first : ∀ x, w.LookedAt address start (k + 1) x → ¬ w.NamesBlock x b

variable {w} {address} {start} {x y : α} {b : β} {bs cs : List β} {ts ys : List α} {n k : Nat}

/-! ### How a run goes on -/

theorem running_of_succ (h : w.run address start (n + 1) = .running y ts cs) :
    ∃ x ts₀ cs₀, w.run address start n = .running x ts₀ cs₀ := by
  rw [run_succ] at h
  obtain ⟨x, ts₀, cs₀, hs, -⟩ := step_running h
  exact ⟨x, ts₀, cs₀, hs⟩

/-- A search that runs has run before. -/
theorem running_of_le (hle : k ≤ n) (h : w.run address start n = .running y ts cs) :
    ∃ x ts₀ cs₀, w.run address start k = .running x ts₀ cs₀ := by
  induction n, hle using Nat.le_induction generalizing y ts cs with
  | base => exact ⟨y, ts, cs, h⟩
  | succ n _ ih =>
      obtain ⟨x, ts₀, cs₀, hs⟩ := running_of_succ h
      exact ih hs

theorem LookedAt.mono (h : w.LookedAt address start k x) (hle : k ≤ n) : w.LookedAt address start n x := by
  obtain ⟨l, hl, hrun⟩ := h
  exact ⟨l, by omega, hrun⟩

theorem lookedAt_succ : w.LookedAt address start (n + 1) x ↔
    w.LookedAt address start n x ∨ ∃ ts cs, w.run address start n = .running x ts cs := by
  constructor
  · rintro ⟨k, hk, hrun⟩
    rcases Nat.lt_succ_iff_lt_or_eq.mp hk with hk | rfl
    · exact .inl ⟨k, hk, hrun⟩
    · exact .inr hrun
  · rintro (h | hrun)
    · exact h.mono (Nat.le_succ n)
    · exact ⟨n, Nat.lt_succ_self n, hrun⟩

/-- What is known stays known. -/
theorem Known.step (h : w.Known address start n x) (hrun : w.run address start (n + 1) = .running y ts cs) :
    w.Known address start (n + 1) x := by
  rcases h with h | ⟨z, ts₀, cs₀, hz, hx | hx⟩
  · exact .inl (h.mono (Nat.le_succ n))
  · exact .inl (lookedAt_succ.mpr (.inr ⟨ts₀, cs₀, hx ▸ hz⟩))
  · refine .inr ⟨y, ts, cs, hrun, ?_⟩
    rw [run_succ, hz] at hrun
    obtain ⟨z', ts₁, cs₁, heq, hcase⟩ := step_running hrun
    cases heq
    rcases hcase with ⟨-, rfl, -⟩ | ⟨bs, ys, -, hy, rfl, -⟩
    · exact .inr hx
    · by_cases hxy : x = y
      · exact .inl hxy
      · exact .inr ((List.mem_erase_of_ne hxy).mpr (mem_insertAll.mpr (.inl hx)))

theorem Known.mono (h : w.Known address start k x) (hle : k ≤ n)
    (hrun : w.run address start n = .running y ts cs) : w.Known address start n x := by
  induction n, hle using Nat.le_induction generalizing y ts cs with
  | base => exact h
  | succ n _ ih =>
      obtain ⟨z, ts₀, cs₀, hz⟩ := running_of_succ hrun
      exact (ih hz).step hrun

/-- Marks stay. -/
theorem marked_mono {us : List α} {zs : List β} (hle : k ≤ n)
    (hk : w.run address start k = .running x us zs) (hn : w.run address start n = .running y ts cs)
    (hb : b ∈ zs) : b ∈ cs := by
  induction n, hle using Nat.le_induction generalizing y ts cs with
  | base =>
      rw [hk] at hn
      cases hn
      exact hb
  | succ n _ ih =>
      obtain ⟨z, ts₀, cs₀, hz⟩ := running_of_succ hn
      have hb₀ := ih hz
      rw [run_succ, hz] at hn
      obtain ⟨z', ts₁, cs₁, heq, hcase⟩ := step_running hn
      cases heq
      rcases hcase with ⟨-, -, rfl⟩ | ⟨_, _, -, -, -, rfl⟩
      · exact hb₀
      · exact List.mem_cons_of_mem _ hb₀

/-! ### What a turn makes known -/

/-- A turn makes known what it names, but for the entries of marked blocks. -/
theorem known_of_leads (hx : w.run address start n = .running x ts cs)
    (hrun : (w.run address start (n + 1)).isRunning = true) (h : w.Leads x y) :
    w.Known address start (n + 1) y ∨ ∃ b ∈ cs, w.NamesBlock x b ∧ y = w.entry b := by
  obtain ⟨z, ts', cs', hz⟩ := exists_of_isRunning hrun
  have hstep := hz
  rw [run_succ, hx] at hstep
  obtain ⟨x', ts₁, cs₁, heq, hcase⟩ := step_running hstep
  cases heq
  have hput : ∀ bs ys, w.turn x = .ends bs ys → y ∈ insertAll ts (w.due cs bs ys) →
      w.Known address start (n + 1) y := by
    intro bs ys ht hy
    rcases hcase with ⟨hgo, -, -⟩ | ⟨bs', ys', ht', -, rfl, -⟩
    · rw [hgo] at ht
      cases ht
    · rw [ht'] at ht
      cases ht
      refine .inr ⟨z, _, cs', hz, ?_⟩
      by_cases hyz : y = z
      · exact .inl hyz
      · exact .inr ((List.mem_erase_of_ne hyz).mpr hy)
  cases h with
  | goes ht =>
      rcases hcase with ⟨hgo, -, -⟩ | ⟨bs', ys', ht', -⟩
      · rw [hgo] at ht
        cases ht
        exact .inl (.inr ⟨_, ts', cs', hz, .inl rfl⟩)
      · rw [ht'] at ht
        cases ht
  | @enters b hb =>
      obtain ⟨bs, ys, ht, hmem⟩ := hb
      by_cases hc : b ∈ cs
      · exact .inr ⟨b, hc, ⟨bs, ys, ht, hmem⟩, rfl⟩
      · exact .inl (hput bs ys ht (mem_insertAll.mpr (.inr (mem_due.mpr (.inl ⟨b, hmem, hc, rfl⟩)))))
  | again ht hy => exact .inl (hput _ _ ht (mem_insertAll.mpr (.inr (mem_due.mpr (.inr hy)))))

omit [DecidableEq α] in
/-- What is put into the set is named. -/
theorem leads_of_due (ht : w.turn x = .ends bs ys) (hy : y ∈ w.due cs bs ys) : w.Leads x y := by
  rcases mem_due.mp hy with ⟨b, hb, -, rfl⟩ | hy
  · exact .enters ⟨bs, ys, ht, hb⟩
  · exact .again ht hy

/-- What is true of the start, and of all that is named where it is true, holds in a run. -/
theorem run_forall {P : α → Prop} (hstart : P start)
    (hlead : ∀ n x ts cs, w.run address start n = .running x ts cs → P x → ∀ y, w.Leads x y → P y)
    (h : w.run address start n = .running x ts cs) : P x ∧ ∀ y ∈ ts, P y := by
  induction n generalizing x ts cs with
  | zero =>
      cases h
      exact ⟨hstart, by simp⟩
  | succ n ih =>
      obtain ⟨z, ts₀, cs₀, hz⟩ := running_of_succ h
      obtain ⟨hPz, hset⟩ := ih hz
      rw [run_succ, hz] at h
      obtain ⟨z', ts₁, cs₁, heq, hcase⟩ := step_running h
      cases heq
      rcases hcase with ⟨ht, rfl, -⟩ | ⟨bs, ys, ht, hx, rfl, -⟩
      · exact ⟨hlead n z ts cs₀ hz hPz x (.goes ht), hset⟩
      · have hall : ∀ y ∈ insertAll ts₀ (w.due cs₀ bs ys), P y := by
          intro y hy
          rcases mem_insertAll.mp hy with hy | hy
          · exact hset y hy
          · exact hlead n z ts₀ cs₀ hz hPz y (leads_of_due ht hy)
        exact ⟨hall x hx, fun y hy => hall y (List.mem_of_mem_erase hy)⟩

/-- A marked block was marked by an item of it that was taken. -/
theorem exists_taken (hn : w.run address start n = .running y ts cs) (hb : b ∈ cs) :
    ∃ k < n, ∃ x z ts₀ ts₁ cs₀, w.run address start k = .running x ts₀ cs₀ ∧
      w.run address start (k + 1) = .running z ts₁ (b :: cs₀) := by
  induction n generalizing y ts cs with
  | zero =>
      cases hn
      cases hb
  | succ n ih =>
      obtain ⟨x, ts₀, cs₀, hx⟩ := running_of_succ hn
      have hlater : b ∈ cs₀ → ∃ k < n + 1, ∃ x z ts₀ ts₁ cs₀, w.run address start k = .running x ts₀ cs₀ ∧
          w.run address start (k + 1) = .running z ts₁ (b :: cs₀) := by
        intro hb₀
        obtain ⟨k, hk, htaken⟩ := ih hx hb₀
        exact ⟨k, by omega, htaken⟩
      have hstep := hn
      rw [run_succ, hx] at hstep
      obtain ⟨x', ts₁, cs₁, heq, hcase⟩ := step_running hstep
      cases heq
      rcases hcase with ⟨-, -, rfl⟩ | ⟨bs, ys, -, -, -, rfl⟩
      · exact hlater hb
      · rcases List.mem_cons.mp hb with rfl | hb
        · exact ⟨n, Nat.lt_succ_self n, x, y, ts₀, ts, cs₀, hx, hn⟩
        · exact hlater hb

/-! ### Entries -/

/--
An entry is known only after its block was named while it was not marked, if the search
does not start at an entry and does not go on to one within a thread.
-/
theorem named_of_known (hstart : w.IsInner start)
    (hgoes : ∀ n x y, w.LookedAt address start n x → w.turn x = .goes y → w.IsInner y)
    (h : w.Known address start n (w.entry b)) :
    ∃ i < n, ∃ x ts cs, w.run address start i = .running x ts cs ∧ w.NamesBlock x b ∧ b ∉ cs := by
  induction n with
  | zero =>
      rcases h with ⟨k, hk, -⟩ | ⟨x, ts, cs, hrun, hx⟩
      · omega
      · cases hrun
        rcases hx with hx | hx
        · exact (hstart (by rw [← hx, w.block_entry])).elim
        · cases hx
  | succ n ih =>
      have hearlier : w.Known address start n (w.entry b) → ∃ i < n + 1, ∃ x ts cs,
          w.run address start i = .running x ts cs ∧ w.NamesBlock x b ∧ b ∉ cs := by
        intro hn
        obtain ⟨i, hi, hnamed⟩ := ih hn
        exact ⟨i, by omega, hnamed⟩
      rcases h with h | ⟨y, ts, cs, hrun, hy⟩
      · rcases lookedAt_succ.mp h with h | ⟨ts, cs, h⟩
        · exact hearlier (.inl h)
        · exact hearlier (.inr ⟨_, ts, cs, h, .inl rfl⟩)
      · obtain ⟨x, ts₀, cs₀, hx⟩ := running_of_succ hrun
        rw [run_succ, hx] at hrun
        obtain ⟨x', ts₁, cs₁, heq, hcase⟩ := step_running hrun
        cases heq
        rcases hcase with ⟨hgo, rfl, -⟩ | ⟨bs, ys, ht, hin, rfl, -⟩
        · rcases hy with rfl | hy
          · have hin := hgoes (n + 1) x _ (lookedAt_succ.mpr (.inr ⟨_, _, hx⟩)) hgo
            exact (hin (by rw [w.block_entry])).elim
          · exact hearlier (.inr ⟨x, _, _, hx, .inr hy⟩)
        · have hput : w.entry b ∈ insertAll ts₀ (w.due cs₀ bs ys) := by
            rcases hy with rfl | hy
            · exact hin
            · exact List.mem_of_mem_erase hy
          rcases mem_insertAll.mp hput with hold | hdue
          · exact hearlier (.inr ⟨x, _, _, hx, .inr hold⟩)
          · rcases mem_due.mp hdue with ⟨b', hb', hn', heq⟩ | hys
            · have hbb : b' = b := by rw [← w.block_entry b', heq, w.block_entry]
              exact ⟨n, Nat.lt_succ_self n, x, ts₀, cs₀, hx, ⟨bs, ys, ht, hbb ▸ hb'⟩, hbb ▸ hn'⟩
            · exact (w.again_ne_entry x bs ys ht _ hys (by rw [w.block_entry])).elim

/-- A block that was cut into, and is named later, has an entry that never gets known. -/
theorem CutsInto.not_known (h : w.CutsInto address start k b) (hstart : w.IsInner start)
    (hgoes : ∀ n x y, w.LookedAt address start n x → w.turn x = .goes y → w.IsInner y) :
    ¬ w.Known address start n (w.entry b) := by
  intro hknown
  obtain ⟨i, -, x, ts, cs, hx, hname, hn⟩ := named_of_known hstart hgoes hknown
  obtain ⟨-, y, -, ts', cs', -, hy, -⟩ := h.takes
  by_cases hle : i ≤ k
  · exact h.first x ⟨i, by omega, ts, cs, hx⟩ hname
  · exact hn (marked_mono (by omega) hy hx List.mem_cons_self)

/-- A marked block was cut into, if its entry is not known. -/
theorem cutsInto_of_marked (hn : w.run address start n = .running y ts cs) (hb : b ∈ cs)
    (hunknown : ¬ w.Known address start n (w.entry b)) : ∃ k < n, w.CutsInto address start k b := by
  classical
  have hex := exists_taken hn hb
  -- the first turn that marks the block
  obtain ⟨k, ⟨hk, x, z, ts₀, ts₁, cs₀, hx, hz⟩, hleast⟩ := Nat.findX hex
  refine ⟨k, hk, ⟨x, z, ts₀, ts₁, cs₀, hx, hz, ?_⟩, ?_⟩
  · rintro rfl
    exact hunknown (Known.mono (.inr ⟨_, ts₁, b :: cs₀, hz, .inl rfl⟩) hk hn)
  · rintro u ⟨i, hi, us, zs, hu⟩ hname
    obtain ⟨v, vs, ws, hv⟩ := running_of_le (k := i + 1) (by omega) hn
    rcases known_of_leads hu (by rw [hv]; rfl) (.enters hname) with hknown | ⟨b', hb', -, heq⟩
    · exact hunknown (hknown.mono (by omega) hn)
    · have hbb : b' = b := by rw [← w.block_entry b', ← heq, w.block_entry]
      obtain ⟨l, hl, htaken⟩ := exists_taken hu (hbb ▸ hb')
      exact hleast l (by omega) ⟨by omega, htaken⟩

/-- What was named is known, or it is the entry of a block that was cut into before. -/
theorem known_or_cut (hn : (w.run address start n).isRunning = true)
    (hx : w.LookedAt address start n x) (hlead : w.Leads x y) : w.Known address start n y ∨
      ∃ k b l ts cs, w.CutsInto address start k b ∧ k < l ∧ l < n ∧
        w.run address start l = .running x ts cs ∧ w.NamesBlock x b ∧ y = w.entry b := by
  obtain ⟨l, hl, ts, cs, hx⟩ := hx
  obtain ⟨u, us, zs, hu⟩ := exists_of_isRunning hn
  obtain ⟨v, vs, ws, hv⟩ := running_of_le (k := l + 1) (by omega) hu
  rcases known_of_leads hx (by rw [hv]; rfl) hlead with hknown | ⟨b, hb, hname, rfl⟩
  · exact .inl (hknown.mono (by omega) hu)
  · by_cases hbefore : w.Known address start l (w.entry b)
    · exact .inl (hbefore.mono (by omega) hu)
    · obtain ⟨k, hk, hcut⟩ := cutsInto_of_marked hx hb hbefore
      exact .inr ⟨k, b, l, ts, cs, hcut, hk, hl, hx, hname, rfl⟩

/--
**What a search leaves out.**  Of the items that are named, only entries of blocks get lost
that were cut into and named later on.
-/
theorem covered_iff {P : α → Prop} (hstart : w.IsInner start)
    (hgoes : ∀ n x y, w.LookedAt address start n x → w.turn x = .goes y → w.IsInner y)
    (hn : (w.run address start n).isRunning = true) :
    (∀ x y, w.LookedAt address start n x → w.Leads x y → P y → w.Known address start n y) ↔
      ∀ k b, w.CutsInto address start k b → P (w.entry b) → ∀ l x ts cs, k < l → l < n →
        w.run address start l = .running x ts cs → ¬ w.NamesBlock x b := by
  constructor
  · intro h k b hcut hP l x ts cs _ hl hx hname
    exact hcut.not_known hstart hgoes (h x _ ⟨l, hl, ts, cs, hx⟩ (.enters hname) hP)
  · intro h x y hx hlead hP
    rcases known_or_cut hn hx hlead with hknown | ⟨k, b, l, ts, cs, hcut, hk, hl, hrun, hname, rfl⟩
    · exact hknown
    · exact (h k b hcut hP l x ts cs hk hl hrun hname).elim

end WorkList

end CompMatch

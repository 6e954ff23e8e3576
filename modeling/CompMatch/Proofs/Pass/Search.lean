/-
When the search ends, and on what its verdict depends.

Both are read off the threads of the search.  A thread that gets to a return of a function
with an `invoke` among its callers takes the null pointer.  A thread that gets behind a call
and from there, by returns alone, behind the same call, may do so for ever.
-/
import CompMatch.Pass.Search
import CompMatch.Proofs.Pass.ConflictDetection
import CompMatch.Proofs.Pass.FunctionCoverage

namespace CompMatch.Pass

/-! ### The end of a request -/

namespace Module

variable {m : Module} {x : Site} {c call : CallBase} {build : Build}

theorem mem_callSites {f : FuncId} : x ∈ m.callSites f ↔
    ∃ c, (m.instruction x).bind Instruction.callBase = some c ∧ c.getCalledFunction = some f := by
  rw [callSites, List.mem_filter]
  constructor
  · rintro ⟨-, hany⟩
    obtain ⟨c, hc, hf⟩ := (Option.any_eq_true _ _).mp hany
    exact ⟨c, hc, by simpa using hf⟩
  · rintro ⟨c, hc, hf⟩
    obtain ⟨i, hi, -⟩ := Option.bind_eq_some_iff.mp hc
    exact ⟨mem_sites hi, by simp [hc, hf]⟩

theorem mem_callsWith {v : Value} : (x, c) ∈ m.callsWith v ↔
    (m.instruction x).bind Instruction.callBase = some c ∧ v ∈ c.args := by
  rw [callsWith, List.mem_filterMap]
  constructor
  · rintro ⟨y, -, hy⟩
    obtain ⟨c', hc', hif⟩ := Option.bind_eq_some_iff.mp hy
    obtain ⟨hmem, heq⟩ := Option.ite_none_right_eq_some.mp hif
    cases heq
    exact ⟨hc', hmem⟩
  · rintro ⟨hc, hmem⟩
    obtain ⟨i, hi, -⟩ := Option.bind_eq_some_iff.mp hc
    exact ⟨x, mem_sites hi, by rw [hc, Option.bind_some, if_pos hmem]⟩

/-- The scope of an init call ends where its request is freed, if that is a local variable, and
where MPI is left. -/
theorem mem_getScopeEndings_iff {req : Value} {ends : List Site}
    (hinit : m.calls call [.sendInit, .recvInit] = true) (hreq : call.getArgOperand 6 = some req)
    (h : m.getScopeEndings build call = some ends) : x ∈ ends ↔
      ∃ c, (m.instruction x).bind Instruction.callBase = some c ∧
        (m.isAlloca req = true ∧ req ∈ c.args ∧ c.getCalledFunction = m.mpiFunc .requestFree ∨
          ∃ f, m.mpiFunc .finalize = some f ∧ c.getCalledFunction = some f) := by
  rw [getScopeEndings, if_pos hinit, getCorrespondingFree] at h
  obtain ⟨-, -, h⟩ := Option.bind_eq_some_iff.mp h
  obtain ⟨-, -, h⟩ := Option.bind_eq_some_iff.mp h
  rw [hreq, Option.bind_some] at h
  obtain ⟨-, -, rfl⟩ := Option.map_eq_some_iff.mp h
  rw [List.mem_append]
  constructor
  · rintro (hfree | hfin)
    · obtain ⟨⟨y, c⟩, hmem, rfl⟩ := List.mem_map.mp hfree
      split at hmem
      · rename_i halloca
        obtain ⟨hwith, hf⟩ := List.mem_filter.mp hmem
        obtain ⟨hc, hargs⟩ := mem_callsWith.mp hwith
        exact ⟨c, hc, .inl ⟨halloca, hargs, by simpa using hf⟩⟩
      · cases hmem
    · cases hf : m.mpiFunc .finalize with
      | none => simp [hf] at hfin
      | some f =>
          rw [hf, Option.map_some, Option.getD_some] at hfin
          obtain ⟨c, hc, hcalled⟩ := mem_callSites.mp hfin
          exact ⟨c, hc, .inr ⟨f, rfl, hcalled⟩⟩
  · rintro ⟨c, hc, ⟨halloca, hargs, hf⟩ | ⟨f, hf, hcalled⟩⟩
    · refine .inl (List.mem_map.mpr ⟨(x, c), ?_, rfl⟩)
      rw [if_pos halloca]
      exact List.mem_filter.mpr ⟨mem_callsWith.mpr ⟨hc, hargs⟩, by simp [hf]⟩
    · right
      rw [hf, Option.map_some, Option.getD_some]
      exact mem_callSites.mpr ⟨c, hc, hcalled⟩

end Module

namespace Search

variable {m : Module} {s : Search m} {x y : Site} {address : Site → Nat} {n : Nat}

theorem run_eq (hx : m.getNextNode s.mpiCall = some x) : s.run address n = s.search.run address x n := by
  rw [run, hx]

theorem run_of_none (hx : m.getNextNode s.mpiCall = none) : s.run address n = .exhausted := by
  rw [run, hx]

theorem gets_iff (hx : m.getNextNode s.mpiCall = some x) : s.Gets y ↔ s.search.Gets x y := by
  constructor
  · rintro ⟨z, hz, hy⟩
    rw [hx] at hz
    cases hz
    exact hy
  · exact fun hy => ⟨x, hx, hy⟩

theorem turn_ret (h : m.instruction x = some .ret) :
    s.turn x = if none ∈ m.wheresReturn x.1 then .fails else .ends [] (m.wheresReturn x.1).reduceOption := by
  rw [turn, h]
  rfl

theorem turn_fails_iff : s.search.turn x = .fails ↔ ReturnsToInvoke m x := by
  constructor
  · intro h
    have ht : s.Turned x (s.search.turn x) := turn_turned x
    rw [h] at ht
    cases ht with
    | follows hi hf =>
        cases hf with
        | null hret hn => exact ⟨hret ▸ hi, hn⟩
  · rintro ⟨hi, hn⟩
    show s.turn x = .fails
    rw [turn_ret hi, if_pos hn]

theorem turn_answers_iff {v : Option Bool} : s.search.turn x = .answers v ↔
    ∃ c, (m.instruction x).bind Instruction.callBase = some c ∧ s.checkCall x c = some v := by
  constructor
  · intro h
    have ht : s.Turned x (s.search.turn x) := turn_turned x
    rw [h] at ht
    cases ht with
    | answers hc hv => exact ⟨_, hc, hv⟩
    | follows hi hf => cases hf
  · rintro ⟨c, hc, hv⟩
    obtain ⟨i, hi, hc⟩ := Option.bind_eq_some_iff.mp hc
    show s.turn x = .answers v
    have hbind : i.callBase.bind (s.checkCall x) = some v := by rw [hc, Option.bind_some, hv]
    rw [turn, hi]
    simp only [hbind]

/--
**When the search ends.**  For all addresses it comes to an end without a null pointer if
and only if it can get neither to a return to an `invoke` nor behind a call on which it can
come back by returns alone.
-/
theorem ends_iff : s.Ends ↔ (∀ x, s.Gets x → ¬ ReturnsToInvoke m x) ∧
    ∀ x, s.Gets x → ¬ Relation.TransGen s.search.Moves x x := by
  cases hx : m.getNextNode s.mpiCall with
  | none =>
      have hno : ∀ y, ¬ s.Gets y := by
        rintro y ⟨z, hz, -⟩
        rw [hx] at hz
        cases hz
      refine iff_of_true (fun address _ => ⟨0, ?_⟩) ⟨fun y hy => (hno y hy).elim, fun y hy => (hno y hy).elim⟩
      rw [run_of_none hx]
      exact ⟨rfl, by simp⟩
  | some x =>
      simp only [gets_iff hx]
      constructor
      · intro h
        constructor
        · intro y hy hr
          obtain ⟨address, hinj, n, hn⟩ := WorkList.failed_iff.mpr ⟨y, hy, turn_fails_iff.mpr hr⟩
          obtain ⟨k, hk, hne⟩ := h address hinj
          rw [run_eq hx] at hk hne
          exact hne (WorkList.run_unique hk (by rw [hn]; rfl) ▸ hn)
        · intro y hy hc
          obtain ⟨address, hinj, hrun⟩ := WorkList.endless_iff.mpr ⟨y, hy, hc⟩
          obtain ⟨k, hk, -⟩ := h address hinj
          rw [run_eq hx, hrun k] at hk
          cases hk
      · rintro ⟨hret, hcyc⟩ address hinj
        have hgets : ∀ n y ts cs, s.search.run address x n = .running y ts cs → s.search.Gets x y :=
          fun _ _ _ _ => WorkList.gets_of_run
        obtain ⟨n, hn⟩ := WorkList.run_ends hgets hcyc
        refine ⟨n, by rw [run_eq hx, hn], fun hf => ?_⟩
        rw [run_eq hx] at hf
        obtain ⟨y, hy, ht⟩ := WorkList.failed_iff.mp ⟨address, hinj, n, hf⟩
        exact hret y hy (turn_fails_iff.mp ht)

/-! ### The verdict -/

/-- What the search comes to; `none` is that it does not return. -/
inductive Outcome (s : Search m) (address : Site → Nat) : Option Bool → Prop
  | stops {n : Nat} (h : (s.run address n).isRunning = false) :
      Outcome s address (s.verdict (s.run address n))
  | runs (h : ∀ n, (s.run address n).isRunning = true) : Outcome s address none

variable {o o₁ o₂ : Option Bool}

theorem outcome_exists (s : Search m) (address : Site → Nat) : ∃ o, s.Outcome address o := by
  by_cases h : ∃ n, (s.run address n).isRunning = false
  · obtain ⟨n, hn⟩ := h
    exact ⟨_, .stops hn⟩
  · exact ⟨none, .runs fun n => Bool.of_not_eq_false fun hn => h ⟨n, hn⟩⟩

theorem run_unique {k : Nat} (hn : (s.run address n).isRunning = false)
    (hk : (s.run address k).isRunning = false) : s.run address n = s.run address k := by
  cases hx : m.getNextNode s.mpiCall with
  | none => rw [run_of_none hx, run_of_none hx]
  | some x =>
      rw [run_eq hx] at hn hk ⊢
      rw [run_eq hx]
      exact WorkList.run_unique hn hk

theorem Outcome.unique (h₁ : s.Outcome address o₁) (h₂ : s.Outcome address o₂) : o₁ = o₂ := by
  cases h₁ with
  | @stops n h₁ =>
      cases h₂ with
      | stops h₂ => rw [run_unique h₁ h₂]
      | runs h₂ =>
          rw [h₂ n] at h₁
          cases h₁
  | runs h₁ =>
      cases h₂ with
      | @stops n h₂ =>
          rw [h₁ n] at h₂
          cases h₂
      | runs _ => rfl

theorem mayCome_of_meets (h : s.Meets o) : s.MayCome o := by
  cases o with
  | none => exact .inl h
  | some v =>
      cases v with
      | false => exact h
      | true => exact .inl h

theorem meets_iff (hx : m.getNextNode s.mpiCall = some x) :
    s.Meets o ↔ ∃ y, s.search.Gets x y ∧ s.search.turn y = .answers o := by
  constructor
  · rintro ⟨y, c, hy, hc, hv⟩
    exact ⟨y, (gets_iff hx).mp hy, turn_answers_iff.mpr ⟨c, hc, hv⟩⟩
  · rintro ⟨y, hy, ht⟩
    obtain ⟨c, hc, hv⟩ := turn_answers_iff.mp ht
    exact ⟨y, c, (gets_iff hx).mpr hy, hc, hv⟩

/-- A search that runs out asserts that it does not, and returns. -/
theorem mayCome_of_runsOut (h : s.RunsOut) : s.MayCome (s.verdict .exhausted) := by
  unfold verdict
  cases hb : s.build with
  | debug => exact .inr (.inl ⟨hb, h⟩)
  | release => exact .inr ⟨hb, h⟩

theorem Outcome.mayCome (hinj : address.Injective) (h : s.Outcome address o) : s.MayCome o := by
  cases hx : m.getNextNode s.mpiCall with
  | none =>
      cases h with
      | stops h =>
          rw [run_of_none hx]
          refine mayCome_of_runsOut fun y hy => ?_
          rw [hx] at hy
          cases hy
      | runs h =>
          have hrun := h 0
          rw [run_of_none hx] at hrun
          cases hrun
  | some x =>
      cases h with
      | @stops n h =>
          cases hr : s.run address n with
          | running y ts cs =>
              rw [hr] at h
              cases h
          | answered v =>
              rw [run_eq hx] at hr
              exact mayCome_of_meets ((meets_iff hx).mpr (WorkList.answered_iff.mp ⟨address, hinj, n, hr⟩))
          | failed =>
              rw [run_eq hx] at hr
              obtain ⟨y, hy, ht⟩ := WorkList.failed_iff.mp ⟨address, hinj, n, hr⟩
              exact .inr (.inr ⟨y, (gets_iff hx).mpr hy, .inl (turn_fails_iff.mp ht)⟩)
          | exhausted =>
              rw [run_eq hx] at hr
              refine mayCome_of_runsOut fun y hy => ?_
              rw [hx] at hy
              cases hy
              exact WorkList.exhausted_iff.mp ⟨address, hinj, n, hr⟩
      | runs h =>
          simp only [run_eq hx] at h
          obtain ⟨y, hy, hc⟩ := WorkList.endless_iff.mp ⟨address, hinj, h⟩
          exact .inr (.inr ⟨y, (gets_iff hx).mpr hy, .inr hc⟩)

/-- There are addresses for which a search that has stopped in a state has its verdict. -/
theorem outcome_of_state {st : WorkList.State Site (FuncId × BlockId) (Option Bool)}
    (hx : m.getNextNode s.mpiCall = some x) (hst : st.isRunning = false)
    (h : ∃ address : Site → Nat, address.Injective ∧ ∃ n, s.search.run address x n = st) :
    ∃ address : Site → Nat, address.Injective ∧ s.Outcome address (s.verdict st) := by
  obtain ⟨address, hinj, n, rfl⟩ := h
  refine ⟨address, hinj, ?_⟩
  rw [← run_eq hx] at hst ⊢
  exact .stops hst

theorem outcome_of_runsOut (h : s.RunsOut) :
    ∃ address : Site → Nat, address.Injective ∧ s.Outcome address (s.verdict .exhausted) := by
  cases hx : m.getNextNode s.mpiCall with
  | none =>
      obtain ⟨f, hf⟩ := exists_injective_nat Site
      refine ⟨f, hf, ?_⟩
      have hrun : s.run f 0 = .exhausted := run_of_none hx
      rw [← hrun]
      exact .stops (by rw [hrun]; rfl)
  | some x => exact outcome_of_state hx rfl (WorkList.exhausted_iff.mpr (h x hx))

theorem outcome_of_meets (h : s.Meets o) :
    ∃ address : Site → Nat, address.Injective ∧ s.Outcome address o := by
  obtain ⟨y, c, ⟨x, hx, hy⟩, hc, hv⟩ := h
  have hstate := WorkList.answered_iff.mpr ⟨y, hy, turn_answers_iff.mpr ⟨c, hc, hv⟩⟩
  exact outcome_of_state hx rfl hstate

theorem outcome_of_mayCome (h : s.MayCome o) :
    ∃ address : Site → Nat, address.Injective ∧ s.Outcome address o := by
  cases o with
  | some v =>
      cases v with
      | false => exact outcome_of_meets h
      | true =>
          rcases h with h | ⟨hb, h⟩
          · exact outcome_of_meets h
          · have hout := outcome_of_runsOut h
            rw [verdict, hb] at hout
            exact hout
  | none =>
      rcases h with h | ⟨hb, h⟩ | ⟨y, ⟨x, hx, hy⟩, hret | hc⟩
      · exact outcome_of_meets h
      · have hout := outcome_of_runsOut h
        rw [verdict, hb] at hout
        exact hout
      · exact outcome_of_state hx rfl (WorkList.failed_iff.mpr ⟨y, hy, turn_fails_iff.mpr hret⟩)
      · obtain ⟨address, hinj, hrun⟩ := WorkList.endless_iff.mpr ⟨y, hy, hc⟩
        refine ⟨address, hinj, .runs fun n => ?_⟩
        rw [run_eq hx]
        exact hrun n

theorem returns_iff {v : Bool} : s.Returns address v ↔
    assert s.build (!s.scopeEndings.isEmpty) = some () ∧ s.Outcome address (some v) := by
  refine and_congr_right fun _ => ⟨?_, ?_⟩
  · rintro ⟨n, hn⟩
    have hstop : (s.run address n).isRunning = false := by
      cases hr : s.run address n with
      | running y ts cs =>
          rw [hr] at hn
          cases hn
      | _ => rfl
    exact hn ▸ .stops hstop
  · intro h
    generalize ho : some v = o at h
    cases h with
    | stops _ => exact ⟨_, rfl⟩
    | runs _ => cases ho

/--
**When the addresses do not matter.**  All addresses give one verdict if and only if the code
allows the search to come to no more than one: an end of the scope, or a conflict, or not to
return.
-/
theorem sameVerdict_iff : s.SameVerdict ↔ assert s.build (!s.scopeEndings.isEmpty) = none ∨
    ∀ o₁ o₂, s.MayCome o₁ → s.MayCome o₂ → o₁ = o₂ := by
  constructor
  · intro h
    cases hassert : assert s.build (!s.scopeEndings.isEmpty) with
    | none => exact .inl rfl
    | some u =>
        right
        have hverdict : ∀ v o, s.MayCome (some v) → s.MayCome o → some v = o := by
          intro v o hv ho
          obtain ⟨a₁, hinj₁, h₁⟩ := outcome_of_mayCome hv
          obtain ⟨a₂, hinj₂, h₂⟩ := outcome_of_mayCome ho
          have hreturns := h a₁ a₂ hinj₁ hinj₂ v (returns_iff.mpr ⟨hassert, h₁⟩)
          exact (returns_iff.mp hreturns).2.unique h₂
        intro o₁ o₂ h₁ h₂
        cases o₁ with
        | some v => exact hverdict v o₂ h₁ h₂
        | none =>
            cases o₂ with
            | some v => exact (hverdict v none h₂ h₁).symm
            | none => rfl
  · rintro h a₁ a₂ hinj₁ hinj₂ v hv
    obtain ⟨hassert, h₁⟩ := returns_iff.mp hv
    rcases h with h | h
    · rw [hassert] at h
      cases h
    · obtain ⟨o, h₂⟩ := outcome_exists s a₂
      have heq := h _ _ (h₁.mayCome hinj₁) (h₂.mayCome hinj₂)
      exact returns_iff.mpr ⟨hassert, heq ▸ h₂⟩

end Search

/-! ### A function that calls itself -/

/-- An init call in function `f`, where the request is a local variable. -/
def initCall (f g : FuncId) : CallBase :=
  ⟨some g, messageArgs ++ [.instruction (.ptr "ompi_request_t") f (0, 0)]⟩

/-- `work` calls itself or `prepare`, which makes a request. -/
def recursiveModule : Module where
  functions :=
    [⟨"main", false, [[.call ⟨some 1, []⟩, .call ⟨some 4, []⟩, .ret]]⟩,
     ⟨"work", false,
      [[.condBr (.argument (.int 1) 1 0) 1 2], [.call ⟨some 1, []⟩, .ret], [.call ⟨some 2, []⟩, .ret]]⟩,
     ⟨"prepare", false, [[.alloca, .call (initCall 2 3), .ret]]⟩,
     ⟨"MPI_Send_init", false, []⟩,
     ⟨"MPI_Finalize", false, []⟩]
  names := by decide

/-- The search from the init call; the request is not freed, so its scope ends in `main`. -/
def recursiveSearch : Search recursiveModule where
  build := .release
  se := noAnalysis
  impl := wildcards
  getLibFunc := noLibrary
  mpiCall := (2, 0, 1)
  call := initCall 2 3
  scopeEndings := (recursiveModule.getScopeEndings .release (initCall 2 3)).getD []
  isSending := true
  isCall := rfl

/--
From `prepare` the search gets to the end of `work`, behind the call of `prepare`, and from
there behind the call of `work` in itself, again and again.
-/
theorem recursiveSearch_runs_on : ¬ recursiveSearch.Ends := by
  have hprepare : recursiveSearch.search.turn (2, 0, 2) = .ends [] [(1, 2, 1)] := by decide
  have hwork : recursiveSearch.search.turn (1, 2, 1) = .ends [] [(0, 0, 1), (1, 1, 1)] := by
    decide +kernel
  have hself : recursiveSearch.search.turn (1, 1, 1) = .ends [] [(0, 0, 1), (1, 1, 1)] := by
    decide +kernel
  have hnext : recursiveModule.getNextNode recursiveSearch.mpiCall = some (2, 0, 2) := by decide
  have hgets : recursiveSearch.search.Gets (2, 0, 2) (1, 1, 1) :=
    ⟨_, .again (.again .start hprepare List.mem_cons_self) hwork (by decide)⟩
  have hcycle : Relation.TransGen recursiveSearch.search.Moves (1, 1, 1) (1, 1, 1) :=
    .single (.inr ⟨_, _, hself, by decide⟩)
  intro h
  obtain ⟨address, hinj, hrun⟩ := WorkList.endless_iff.mpr ⟨_, hgets, hcycle⟩
  obtain ⟨n, hn, -⟩ := h address hinj
  rw [Search.run_eq hnext, hrun n] at hn
  cases hn

/-! ### A branch to an unknown function -/

/-- `main` makes a request, may call `work`, of which nothing is known, and frees the request. -/
def branchingModule : Module where
  functions :=
    [⟨"main", false,
      [[.alloca, .call (initCall 0 1), .condBr (.argument (.int 1) 0 0) 1 2], [.call ⟨some 3, []⟩, .br 2],
        [.call ⟨some 2, [.instruction (.ptr "ompi_request_t") 0 (0, 0)]⟩, .ret]]⟩,
     ⟨"MPI_Send_init", false, []⟩,
     ⟨"MPI_Request_free", false, []⟩,
     ⟨"work", false, []⟩]
  names := by decide

def branchingSearch : Search branchingModule where
  build := .release
  se := noAnalysis
  impl := wildcards
  getLibFunc := noLibrary
  mpiCall := (0, 0, 1)
  call := initCall 0 1
  scopeEndings := (branchingModule.getScopeEndings .release (initCall 0 1)).getD []
  isSending := true
  isCall := rfl

/-- Of the two successors of the branch, the one with the smaller address decides. -/
theorem branchingSearch_differs : ¬ branchingSearch.SameVerdict := by
  have hbranch : branchingSearch.search.turn (0, 0, 2) = .ends [(0, 1), (0, 2)] [] := by
    decide +kernel
  have hwork : branchingSearch.search.turn (0, 1, 0) = .answers (some true) := by decide
  have hfree : branchingSearch.search.turn (0, 2, 0) = .answers (some false) := by decide
  have hnext : branchingModule.getNextNode branchingSearch.mpiCall = some (0, 0, 2) := by decide
  have htoWork : branchingSearch.search.Gets (0, 0, 2) (0, 1, 0) :=
    ⟨_, .enters .start hbranch List.mem_cons_self (by simp)⟩
  have htoFree : branchingSearch.search.Gets (0, 0, 2) (0, 2, 0) :=
    ⟨_, .enters .start hbranch (List.mem_cons_of_mem _ List.mem_cons_self) (by simp)⟩
  obtain ⟨a₁, hinj₁, h₁⟩ := Search.outcome_of_state hnext rfl
    (WorkList.answered_iff.mpr ⟨_, htoWork, hwork⟩)
  obtain ⟨a₂, hinj₂, h₂⟩ := Search.outcome_of_state hnext rfl
    (WorkList.answered_iff.mpr ⟨_, htoFree, hfree⟩)
  intro h
  have hreturns := h a₁ a₂ hinj₁ hinj₂ true (Search.returns_iff.mpr ⟨rfl, h₁⟩)
  have heq := (Search.returns_iff.mp hreturns).2.unique h₂
  cases heq

end CompMatch.Pass

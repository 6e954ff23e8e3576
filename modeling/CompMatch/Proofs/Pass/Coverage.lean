/-
What the search covers.

A turn that goes on names just what control can reach next.  The search starts behind a
call, and what it takes lies behind the PHIs of its block, so it comes to the head of a
block only by naming it.  With that, what the work list leaves out is what the search
leaves out.
-/
import CompMatch.Pass.Coverage
import CompMatch.Proofs.Pass.Search

namespace CompMatch.Pass

/-! ### Behind the PHIs -/

namespace Module

variable {m : Module} {x y : Site}

/-- No PHI follows the first instruction that is none. -/
def BehindPhis (m : Module) (x : Site) : Prop := (m.block (x.1, x.2.1)).findIdx (!·.isPhi) ≤ x.2.2

theorem behindPhis_entry (b : FuncId × BlockId) : m.BehindPhis (m.getFirstNonPHI b) := Nat.le_refl _

theorem behindPhis_of_not_phi {i : Instruction} (hi : m.instruction x = some i) (hphi : i.isPhi = false) :
    m.BehindPhis x := by
  by_contra hlt
  obtain ⟨hlen, hget⟩ := List.getElem?_eq_some_iff.mp (instruction_eq hi)
  have hnot := List.not_of_lt_findIdx (Nat.lt_of_not_le hlt)
  rw [hget] at hnot
  simp [hphi] at hnot

theorem getNextNode_eq (h : m.getNextNode x = some y) : y = (x.1, x.2.1, x.2.2 + 1) := by
  unfold getNextNode at h
  split at h
  · cases h
    rfl
  · cases h

/-- The instruction after one behind the PHIs is behind them, and not the first. -/
theorem BehindPhis.next (hx : m.BehindPhis x) (h : m.getNextNode x = some y) :
    m.BehindPhis y ∧ y ≠ m.getFirstNonPHI (y.1, y.2.1) := by
  obtain rfl := getNextNode_eq h
  unfold BehindPhis at hx ⊢
  refine ⟨Nat.le_succ_of_le hx, fun heq => ?_⟩
  have hidx : x.2.2 + 1 = (m.block (x.1, x.2.1)).findIdx (!·.isPhi) := congrArg (·.2.2) heq
  omega

end Module

namespace Search

variable {m : Module} {s : Search m} {x y : Site} {b : FuncId × BlockId} {address : Site → Nat} {n : Nat}
  {ts : List Site} {cs : List (FuncId × BlockId)}

/-! ### What a turn names -/

/-- What comes of a turn that gives no verdict. -/
theorem turn_eq_follow {i : Instruction} (hi : m.instruction x = some i)
    (hv : ∀ v, s.search.turn x ≠ .answers v) : s.search.turn x = s.follow x i := by
  have hcall : i.callBase.bind (s.checkCall x) = none := by
    rw [Option.eq_none_iff_forall_ne_some]
    intro v heq
    obtain ⟨c, hc, hv'⟩ := Option.bind_eq_some_iff.mp heq
    exact hv v (turn_answers_iff.mpr ⟨c, by rw [hi, Option.bind_some, hc], hv'⟩)
  show s.turn x = s.follow x i
  rw [turn, hi]
  simp only [hcall]

theorem follow_terminator {i : Instruction} (hret : i ≠ .ret) (ht : i.isTerminator = true) :
    s.follow x i = .ends ((s.nextBlocks i).map (x.1, ·)) [] := by
  unfold follow
  split
  · exact (hret rfl).elim
  · rw [if_pos ht]

theorem follow_next {i : Instruction} (ht : i.isTerminator = false) : s.follow x i =
    match m.getNextNode x with
    | some y => if m.instruction y = some .unreachable then .ends [] [] else .goes y
    | none => .ends [] [] := by
  unfold follow
  split
  · cases ht
  · simp only [ht]
    rfl

theorem nextBlocks_ret : s.nextBlocks .ret = [] := rfl

theorem nextBlocks_of_not_terminator {i : Instruction} (ht : i.isTerminator = false) : s.nextBlocks i = [] := by
  cases i with
  | phi | alloca | other | call c => rfl
  | _ => cases ht

theorem namesBlock_iff (hv : ∀ v, s.search.turn x ≠ .answers v) :
    s.search.NamesBlock x b ↔ s.LeadsInto x b := by
  cases hi : m.instruction x with
  | none =>
      have hturn : s.search.turn x = .ends [] [] := by
        show s.turn x = _
        rw [turn, hi]
      constructor
      · rintro ⟨bs, ys, ht, hb⟩
        rw [hturn] at ht
        cases ht
        cases hb
      · rintro ⟨i, hi', -⟩
        rw [hi] at hi'
        cases hi'
  | some i =>
      have hturn := turn_eq_follow hi hv
      have hlead : s.LeadsInto x b ↔ x.1 = b.1 ∧ b.2 ∈ s.nextBlocks i := by
        constructor
        · rintro ⟨i', hi', h⟩
          rw [hi] at hi'
          cases hi'
          exact h
        · exact fun h => ⟨i, hi, h⟩
      rw [hlead, WorkList.NamesBlock, hturn]
      by_cases hret : i = .ret
      · subst hret
        refine iff_of_false ?_ (by simp [nextBlocks_ret])
        rintro ⟨bs, ys, ht, hb⟩
        rw [← hturn, show s.search.turn x = s.turn x from rfl, turn_ret hi] at ht
        split at ht
        · cases ht
        · cases ht
          cases hb
      · cases hterm : i.isTerminator with
        | true =>
            rw [follow_terminator hret hterm]
            constructor
            · rintro ⟨bs, ys, ht, hb⟩
              cases ht
              obtain ⟨b', hb', rfl⟩ := List.mem_map.mp hb
              exact ⟨rfl, hb'⟩
            · rintro ⟨hf, hb⟩
              exact ⟨_, _, rfl, List.mem_map.mpr ⟨b.2, hb, by rw [hf]⟩⟩
        | false =>
            refine iff_of_false ?_ (by simp [nextBlocks_of_not_terminator hterm])
            rintro ⟨bs, ys, ht, hb⟩
            rw [follow_next hterm] at ht
            split at ht
            · split at ht
              · cases ht
                cases hb
              · cases ht
            · cases ht
              cases hb

/-- A turn that goes on names what control can reach next. -/
theorem leads_of_edge (hv : ∀ v, s.search.turn x ≠ .answers v) (hf : s.search.turn x ≠ .fails)
    (h : s.Edge x y) (hy : m.instruction y ≠ some .unreachable) : s.search.Leads x y := by
  cases h with
  | next hi ht hj =>
      refine .goes ?_
      rw [turn_eq_follow hi hv, follow_next ht, hj]
      exact if_neg hy
  | block hb => exact .enters ((namesBlock_iff hv).mpr hb)
  | returns hi hz hj =>
      have hturn : s.search.turn x = _ := turn_ret hi
      by_cases hn : none ∈ m.wheresReturn x.1
      · exact (hf (turn_fails_iff.mpr ⟨hi, hn⟩)).elim
      · rw [if_neg hn] at hturn
        exact .again hturn (List.reduceOption_mem_iff.mpr (List.mem_map.mpr ⟨_, hz, hj⟩))

/-- What a turn names, control can reach next. -/
theorem edge_of_leads (h : s.search.Leads x y) : s.Edge x y := by
  cases h with
  | goes ht =>
      have hturned : s.Turned x (s.search.turn x) := turn_turned x
      rw [ht] at hturned
      cases hturned with
      | follows hi hf =>
          cases hf with
          | next hy hterm => exact .next hi hterm hy
  | enters hb =>
      refine .block ((namesBlock_iff fun v hv => ?_).mp hb)
      obtain ⟨bs, ys, ht, -⟩ := hb
      rw [hv] at ht
      cases ht
  | again ht hy =>
      have hturned : s.Turned x (s.search.turn x) := turn_turned x
      rw [ht] at hturned
      cases hturned with
      | none => cases hy
      | follows hi hf =>
          cases hf with
          | returns hret _ =>
              rw [List.reduceOption_mem_iff, Module.wheresReturn, List.mem_map] at hy
              obtain ⟨z, hz, hnext⟩ := hy
              exact .returns (hret ▸ hi) hz hnext
          | blocks _ => cases hy

/-! ### Where the search is -/

/-- Control stays behind the PHIs. -/
theorem Edge.behindPhis (h : s.Edge x y) (hx : m.BehindPhis x) : m.BehindPhis y := by
  cases h with
  | next _ _ hj => exact (hx.next hj).1
  | block _ => exact Module.behindPhis_entry _
  | returns _ hz hj =>
      obtain ⟨i, hi, hphi⟩ := callSites_call hz
      exact ((Module.behindPhis_of_not_phi hi hphi).next hj).1

theorem mpiCall_instruction (s : Search m) :
    ∃ i, m.instruction s.mpiCall = some i ∧ i.isPhi = false := by
  obtain ⟨i, hi, hc⟩ := Option.bind_eq_some_iff.mp s.isCall
  refine ⟨i, hi, ?_⟩
  cases i with
  | phi => cases hc
  | _ => rfl

/-- The search starts behind the PHIs and not at the head of a block. -/
theorem start_inner (hx : m.getNextNode s.mpiCall = some x) : m.BehindPhis x ∧ s.search.IsInner x := by
  obtain ⟨i, hi, hphi⟩ := mpiCall_instruction s
  exact (Module.behindPhis_of_not_phi hi hphi).next hx

/-- Within a thread the search does not come to the head of a block. -/
theorem goes_inner (hx : m.getNextNode s.mpiCall = some x) (k : Nat) (y z : Site)
    (hy : s.search.LookedAt address x k y) (ht : s.search.turn y = .goes z) : s.search.IsInner z := by
  obtain ⟨l, -, ts, cs, hrun⟩ := hy
  have hbehind : m.BehindPhis y :=
    (WorkList.run_forall (start_inner hx).1 (fun _ _ _ _ _ hu _ hlead => (edge_of_leads hlead).behindPhis hu)
      hrun).1
  have hturned : s.Turned y (s.search.turn y) := turn_turned y
  rw [ht] at hturned
  cases hturned with
  | follows _ hf =>
      cases hf with
      | next hnext _ => exact (hbehind.next hnext).2

/-! ### What is left out -/

theorem examined_iff (hx : m.getNextNode s.mpiCall = some x) :
    s.Examined address n y ↔ s.search.LookedAt address x n y := by
  simp only [Examined, WorkList.LookedAt, run_eq hx]

/-- An instruction that was examined has given no verdict, and no null pointer. -/
theorem examined_turn (hn : (s.search.run address x n).isRunning = true) (hy : s.search.LookedAt address x n y) :
    (∀ v, s.search.turn y ≠ .answers v) ∧ s.search.turn y ≠ .fails := by
  obtain ⟨k, hk, ts, cs, hrun⟩ := hy
  obtain ⟨z, us, zs, hz⟩ := WorkList.exists_of_isRunning hn
  obtain ⟨u, vs, ws, hu⟩ := WorkList.running_of_le (k := k + 1) (by omega) hz
  rw [WorkList.run_succ, hrun] at hu
  obtain ⟨y', ts', cs', heq, hcase⟩ := WorkList.step_running hu
  cases heq
  rcases hcase with ⟨ht, -⟩ | ⟨bs, ys, ht, -⟩
  · rw [ht]
    exact ⟨by simp, by simp⟩
  · rw [ht]
    exact ⟨by simp, by simp⟩

/-- The two ways to say that a block is entered in the middle. -/
theorem cutsInto_iff {k : Nat} (hx : m.getNextNode s.mpiCall = some x) :
    s.search.CutsInto address x k b ↔ s.EntersInTheMiddle address k b := by
  have hfirst : (∃ y ts, ∃ cs, s.search.run address x (k + 1) = .running y ts cs) →
      ∀ i, s.search.LookedAt address x (k + 1) i → (s.search.NamesBlock i b ↔ s.LeadsInto i b) := by
    rintro ⟨y, ts, cs, hy⟩ i hi
    exact namesBlock_iff (examined_turn (by rw [hy]; rfl) hi).1
  constructor
  · rintro ⟨⟨u, y, ts, ts', cs, hu, hy, hne⟩, hf⟩
    refine ⟨⟨u, y, ts, ts', cs, ?_, ?_, hne⟩, fun i hi hlead => ?_⟩
    · rw [run_eq hx, hu]
    · rw [run_eq hx, hy]
    · have hi := (examined_iff hx).mp hi
      exact hf i hi ((hfirst ⟨_, _, _, hy⟩ i hi).mpr hlead)
  · rintro ⟨⟨u, y, ts, ts', cs, hu, hy, hne⟩, hf⟩
    rw [run_eq hx] at hu hy
    refine ⟨⟨u, y, ts, ts', cs, hu, hy, hne⟩, fun i hi hname => ?_⟩
    exact hf i ((examined_iff hx).mpr hi) ((hfirst ⟨_, _, _, hy⟩ i hi).mp hname)

/-- What is known at the head of a turn. -/
theorem known_iff {z : Site} (hx : m.getNextNode s.mpiCall = some x) (hrun : s.run address n = .running y ts cs) :
    s.search.Known address x n z ↔ s.Examined address n z ∨ z = y ∨ z ∈ ts := by
  rw [examined_iff hx]
  rw [run_eq hx] at hrun
  refine or_congr Iff.rfl ⟨?_, fun h => ⟨y, ts, cs, hrun, h⟩⟩
  rintro ⟨u, us, zs, hu, h⟩
  rw [hrun] at hu
  cases hu
  exact h

theorem Plain.reachable (h : Plain m y) : m.instruction y ≠ some .unreachable := by
  obtain ⟨i, hi, -, hne⟩ := h
  rw [hi]
  exact fun heq => hne (Option.some.inj heq)

/--
**What the search covers.**  At the head of a turn something is left out just when a block
that was entered in the middle, before anything had led into it, was led into later, and its
head is no `unreachable`.
-/
theorem covers_iff (s : Search m) (address : Site → Nat) : s.Covers address ↔
    ∀ n next toCheck checked, s.run address n = .running next toCheck checked → ∀ k b,
      s.EntersInTheMiddle address k b → Plain m (m.getFirstNonPHI b) → ¬ s.LedIntoAfter address k n b := by
  unfold Covers
  refine forall_congr' fun n => forall_congr' fun next => forall_congr' fun toCheck =>
    forall_congr' fun checked => forall_congr' fun hrun => ?_
  cases hx : m.getNextNode s.mpiCall with
  | none =>
      rw [run_of_none hx] at hrun
      cases hrun
  | some x =>
      have hrunning : (s.search.run address x n).isRunning = true := by
        rw [← run_eq hx, hrun]
        rfl
      have hcovered := WorkList.covered_iff (P := Plain m) (start_inner hx).2 (goes_inner hx) hrunning
      constructor
      · rintro h k b hcut hplain ⟨l, hk, hl, u, us, zs, hu, hlead⟩
        have hknown : ∀ i j, s.search.LookedAt address x n i → s.search.Leads i j → Plain m j →
            s.search.Known address x n j := fun i j hi hij hj =>
          (known_iff hx hrun).mpr (h i j ((examined_iff hx).mpr hi) (edge_of_leads hij) hj)
        rw [run_eq hx] at hu
        refine hcovered.mp hknown k b ((cutsInto_iff hx).mpr hcut) hplain l u us zs hk hl hu ?_
        exact (namesBlock_iff (examined_turn hrunning ⟨l, hl, us, zs, hu⟩).1).mpr hlead
      · intro h i j hi hij hj
        have hi := (examined_iff hx).mp hi
        obtain ⟨hv, hf⟩ := examined_turn hrunning hi
        refine (known_iff hx hrun).mp (hcovered.mpr ?_ i j hi (leads_of_edge hv hf hij hj.reachable) hj)
        intro k b hcut hplain l u us zs hk hl hu hname
        refine h k b ((cutsInto_iff hx).mp hcut) hplain ⟨l, hk, hl, u, us, zs, by rw [run_eq hx, hu], ?_⟩
        exact (namesBlock_iff (examined_turn hrunning ⟨l, hl, us, zs, hu⟩).1).mp hname

end Search

/-! ### A call in a loop -/

/-- An init call for a request that is a global variable. -/
def globalInitCall : CallBase := ⟨some 2, messageArgs ++ [.global "ompi_request_t" "request"]⟩

/-- In a loop `main` calls `work`, of which nothing is known, and `prepare`, which makes a request;
behind the loop the request is freed.  As it is no local variable, its scope ends at
`MPI_Finalize`. -/
def loopModule : Module where
  functions :=
    [⟨"main", false,
      [[.br 1], [.call ⟨some 4, []⟩, .call ⟨some 1, []⟩, .condBr (.argument (.int 1) 0 0) 1 2],
        [.call ⟨some 3, [.global "ompi_request_t" "request"]⟩, .call ⟨some 5, []⟩, .ret]]⟩,
     ⟨"prepare", false, [[.other, .call globalInitCall, .ret]]⟩,
     ⟨"MPI_Send_init", false, []⟩,
     ⟨"MPI_Request_free", false, []⟩,
     ⟨"work", false, []⟩,
     ⟨"MPI_Finalize", false, []⟩]
  names := by decide

def loopSearch : Search loopModule where
  build := .release
  se := noAnalysis
  impl := wildcards
  getLibFunc := noLibrary
  mpiCall := (1, 0, 1)
  call := globalInitCall
  scopeEndings := (loopModule.getScopeEndings .release globalInitCall).getD []
  isSending := true
  isCall := rfl

/-- The search returns from `prepare` into the middle of the loop, and goes on behind it. -/
theorem loopSearch_run (address : Site → Nat) :
    loopSearch.run address 0 = .running (1, 0, 2) [] [] ∧
    loopSearch.run address 1 = .running (0, 1, 2) [] [(0, 1)] ∧
    loopSearch.run address 2 = .running (0, 2, 0) [] [(0, 2), (0, 1)] ∧
    loopSearch.run address 4 = .answered (some false) :=
  ⟨rfl, rfl, rfl, rfl⟩

/-- Whatever the addresses are, the call of `work` at the head of the loop is left out. -/
theorem loopSearch_leaves_out : ¬ ∃ address : Site → Nat, loopSearch.Covers address := by
  rintro ⟨address, h⟩
  obtain ⟨h0, h1, h2, -⟩ := loopSearch_run address
  have hedge : loopSearch.Edge (0, 1, 2) (0, 1, 0) :=
    .block (b := (0, 1)) ⟨_, rfl, rfl, List.mem_cons_self⟩
  have hplain : Search.Plain loopModule (0, 1, 0) := ⟨_, rfl, rfl, by simp⟩
  rcases h 2 _ _ _ h2 _ _ ⟨1, by omega, _, _, h1⟩ hedge hplain with ⟨k, hk, ts, cs, hrun⟩ | heq | hmem
  · have hk : k = 0 ∨ k = 1 := by omega
    rcases hk with rfl | rfl
    · rw [h0] at hrun
      cases hrun
    · rw [h1] at hrun
      cases hrun
  · cases heq
  · cases hmem

end CompMatch.Pass

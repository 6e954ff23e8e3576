/-
When the search is right to return false.

It returns at the first end of the scope that it comes to, and whatever is still in
`to_check` is not looked at any more.  A way to a conflicting call starts among what was
examined, where no such call is.  So it gets on to what the search has left, and the
verdict is right just when no way leads from there over a conflicting call.
-/
import CompMatch.Proofs.Pass.Coverage

namespace CompMatch.Pass

namespace Search

variable {m : Module} {s : Search m} {x y z : Site} {address : Site → Nat} {n : Nat}

/-! ### What a call gives -/

theorem checkCall_false_iff {c : CallBase} : s.checkCall x c = some (some false) ↔
    m.isMpiCall c = true ∧ (c.getCalledFunction = m.mpiFunc .finalize ∨ x ∈ s.scopeEndings) := by
  have hcompare : s.compare c ≠ some (some false) := by
    unfold compare
    split <;> simp
  unfold checkCall
  by_cases hmpi : m.isMpiCall c = true
  · rw [if_pos hmpi]
    by_cases hfin : c.getCalledFunction = m.mpiFunc .finalize
    · rw [if_pos hfin]
      exact iff_of_true rfl ⟨hmpi, .inl hfin⟩
    · rw [if_neg hfin]
      by_cases hend : x ∈ s.scopeEndings
      · rw [if_pos hend]
        exact iff_of_true rfl ⟨hmpi, .inr hend⟩
      · rw [if_neg hend]
        refine iff_of_false ?_ fun h => h.2.elim hfin hend
        split
        · exact hcompare
        · split
          · exact hcompare
          · simp
  · rw [if_neg hmpi]
    refine iff_of_false ?_ fun h => hmpi h.1
    split
    · simp
    · split <;> simp

/-- The search returns false at the ends of the scope. -/
theorem answers_false_iff : s.search.turn x = .answers (some false) ↔ s.EndsScope x := by
  rw [turn_answers_iff]
  exact exists_congr fun c => and_congr_right fun _ => checkCall_false_iff

/-- The search ends where the request is freed, if that is a local variable, and where MPI is
left. -/
theorem endsScope_iff {req : Value} (hinit : m.calls s.call [.sendInit, .recvInit] = true)
    (hreq : s.call.getArgOperand 6 = some req)
    (hends : m.getScopeEndings s.build s.call = some s.scopeEndings) : s.EndsScope x ↔
      ∃ c, (m.instruction x).bind Instruction.callBase = some c ∧ m.isMpiCall c = true ∧
        (c.getCalledFunction = m.mpiFunc .finalize ∨
          m.isAlloca req = true ∧ req ∈ c.args ∧ c.getCalledFunction = m.mpiFunc .requestFree) := by
  refine exists_congr fun c => and_congr_right fun hc => and_congr_right fun _ => ?_
  rw [Module.mem_getScopeEndings_iff hinit hreq hends]
  constructor
  · rintro (hfin | ⟨c', hc', hfree | ⟨f, hf, hcalled⟩⟩)
    · exact .inl hfin
    · rw [hc, Option.some.injEq] at hc'
      exact .inr (hc' ▸ hfree)
    · rw [hc, Option.some.injEq] at hc'
      exact .inl (by rw [hc', hcalled, hf])
  · rintro (hfin | hfree)
    · exact .inl hfin
    · exact .inr ⟨c, hc, .inl hfree⟩

/-- The search returns true at a conflicting call. -/
theorem answers_true (h : s.Conflicts x) (hn : ¬ s.EndsScope x) : s.search.turn x = .answers (some true) := by
  obtain ⟨c, hc, hconf⟩ := h
  refine turn_answers_iff.mpr ⟨c, hc, ?_⟩
  unfold checkCall
  by_cases hmpi : m.isMpiCall c = true
  · rw [if_pos hmpi] at hconf ⊢
    obtain ⟨hfun, hcalls⟩ := hconf
    have hcompare : s.compare c = some (some true) := by rw [compare, hcalls]
    rw [if_neg fun hfin => hn ⟨c, hc, hmpi, .inl hfin⟩, if_neg fun hend => hn ⟨c, hc, hmpi, .inr hend⟩]
    cases hs : s.isSending with
    | true =>
        rw [hs, if_pos rfl] at hfun
        rw [hfun]
        exact hcompare
    | false =>
        rw [hs, if_neg Bool.false_ne_true] at hfun
        rw [hfun]
        exact hcompare
  · rw [if_neg hmpi] at hconf ⊢
    by_cases hmay : m.mayConflict s.getLibFunc c.getCalledFunction = true
    · rw [if_pos hmay]
    · rw [if_neg hmay, if_pos (hconf.resolve_left hmay)]

/-! ### Steps of control -/

theorem Edge.passes (h : s.Edge x y) : s.Passes x y := by
  cases h with
  | next hi ht hj => exact .next hi ht hj
  | block hb => exact .block hb
  | returns hi hz hj => exact .returns hi hz (by rw [behindCall, hj])

/-- The search follows every step of control, unless it takes a null pointer. -/
theorem Passes.edge (h : s.Passes x y) (hf : s.search.turn x ≠ .fails) : s.Edge x y := by
  cases h with
  | next hi ht hj => exact .next hi ht hj
  | block hb => exact .block hb
  | @returns z _ hi hz hj =>
      cases hnext : m.getNextNode z with
      | none => exact (hf (turn_fails_iff.mpr ⟨hi, List.mem_map.mpr ⟨z, hz, hnext⟩⟩)).elim
      | some w =>
          rw [behindCall, hnext] at hj
          cases hj
          exact .returns hi hz hnext

/-- No way goes on from `unreachable`. -/
theorem Unsafe.reachable (h : s.Unsafe x) : m.instruction x ≠ some .unreachable := by
  intro hi
  obtain ⟨y, z, hway, ⟨c, hc, -⟩, -⟩ := h
  rcases Relation.ReflTransGen.cases_head hway with rfl | ⟨w, ⟨-, hpass⟩, -⟩
  · rw [hi] at hc
    cases hc
  · cases hpass with
    | next hi' ht _ =>
        rw [hi] at hi'
        cases hi'
        cases ht
    | block hb =>
        obtain ⟨i, hi', -, hb⟩ := hb
        rw [hi] at hi'
        cases hi'
        cases hb
    | returns hi' _ _ =>
        rw [hi] at hi'
        cases hi'

/-- What is not safe further on is not safe here. -/
theorem Unsafe.back (h : s.Unsafe y) (hway : s.Way x y) : s.Unsafe x := by
  obtain ⟨u, v, hu, hconf, hend, hv, hscope⟩ := h
  exact ⟨u, v, hway.trans hu, hconf, hend, hv, hscope⟩

/-! ### What the search has left -/

/-- The search returns false in a turn at an end of the scope. -/
theorem returns_false_iff (hx : m.getNextNode s.mpiCall = some x) : s.Returns address false ↔
    assert s.build (!s.scopeEndings.isEmpty) = some () ∧
      ∃ n y ts cs, s.run address n = .running y ts cs ∧ s.EndsScope y := by
  refine and_congr_right fun _ => ⟨?_, ?_⟩
  · rintro ⟨n, hn⟩
    have hrun : s.search.run address x n = .answered (some false) := by
      rw [run_eq hx] at hn
      cases hr : s.search.run address x n with
      | answered v =>
          rw [hr] at hn
          rw [show v = some false from hn]
      | exhausted =>
          rw [hr] at hn
          obtain ⟨u, -, hu⟩ := Option.map_eq_some_iff.mp hn
          cases hu
      | _ =>
          rw [hr] at hn
          cases hn
    obtain ⟨k, y, ts, cs, hk, hstep⟩ := WorkList.run_stops (by rw [hrun]; rfl)
    rw [hrun] at hstep
    exact ⟨k, y, ts, cs, by rw [run_eq hx, hk], answers_false_iff.mp (WorkList.step_eq_answered hstep)⟩
  · rintro ⟨n, y, ts, cs, hn, hend⟩
    refine ⟨n + 1, ?_⟩
    rw [run_eq hx] at hn
    rw [run_eq hx, WorkList.run_succ, hn, WorkList.step_answers (answers_false_iff.mpr hend)]
    rfl

/-- There is a way to all that the search takes and keeps. -/
theorem way_of_run (hx : m.getNextNode s.mpiCall = some x) {ts : List Site} {cs : List (FuncId × BlockId)}
    (h : s.run address n = .running y ts cs) : s.Way x y ∧ ∀ z ∈ ts, s.Way x z := by
  rw [run_eq hx] at h
  refine WorkList.run_forall (P := s.Way x) .refl (fun k u us zs _ hu v hlead => hu.tail ⟨?_, ?_⟩) h
  · intro hend
    have hturn := answers_false_iff.mpr hend
    cases hlead with
    | goes ht =>
        rw [ht] at hturn
        cases hturn
    | enters hb =>
        obtain ⟨bs, ys, ht, -⟩ := hb
        rw [ht] at hturn
        cases hturn
    | again ht _ =>
        rw [ht] at hturn
        cases hturn
  · exact (edge_of_leads hlead).passes

/-- There is a way to what the search has left. -/
theorem Left.way (h : s.Left address n z) (hx : m.getNextNode s.mpiCall = some x)
    {ts : List Site} {cs : List (FuncId × BlockId)} (hrun : s.run address n = .running y ts cs) :
    s.Way x z := by
  cases h with
  | toCheck h hz => exact (way_of_run hx h).2 z hz
  | head _ hled =>
      obtain ⟨l, -, hl, u, us, zs, hu, hlead⟩ := hled
      refine (way_of_run hx hu).1.tail ⟨fun hend => ?_, .block hlead⟩
      rw [run_eq hx] at hrun hu
      exact (examined_turn (by rw [hrun]; rfl) ⟨l, hl, us, zs, hu⟩).1 _ (answers_false_iff.mpr hend)

/-- A way that is not safe, from what was examined, gets on to what the search has left. -/
theorem Unsafe.left (hx : m.getNextNode s.mpiCall = some x) {ts : List Site} {cs : List (FuncId × BlockId)}
    (hrun : s.run address n = .running y ts cs) (hend : s.EndsScope y) (hz : s.Unsafe z)
    (hlook : s.search.LookedAt address x n z ∨ z = y) : ∃ w, s.Left address n w ∧ s.Unsafe w := by
  rw [run_eq hx] at hrun
  have hrunning : (s.search.run address x n).isRunning = true := by
    rw [hrun]
    rfl
  obtain ⟨u, v, hway, hconf, hnot, hrest, hv⟩ := hz
  induction hway using Relation.ReflTransGen.head_induction_on with
  | refl =>
      rcases hlook with hlook | rfl
      · exact ((examined_turn hrunning hlook).1 _ (answers_true hconf hnot)).elim
      · exact (hnot hend).elim
  | @head z z' hstep hway ih =>
      rcases hlook with hlook | rfl
      · obtain ⟨hans, hfails⟩ := examined_turn hrunning hlook
        have hbad : s.Unsafe z' := ⟨u, v, hway, hconf, hnot, hrest, hv⟩
        have hlead := leads_of_edge hans hfails (hstep.2.edge hfails) hbad.reachable
        rcases WorkList.known_or_cut hrunning hlook hlead with hknown | ⟨k, b, l, us, zs, hcut, hk, hl, hu, hb, rfl⟩
        · rcases hknown with hlook' | ⟨y', ts', cs', hrun', rfl | hmem⟩
          · exact ih (.inl hlook')
          · rw [hrun] at hrun'
            cases hrun'
            exact ih (.inr rfl)
          · exact ⟨z', .toCheck (by rw [run_eq hx, hrun']) hmem, hbad⟩
        · refine ⟨_, .head ((cutsInto_iff hx).mp hcut) ⟨l, hk, hl, z, us, zs, by rw [run_eq hx, hu], ?_⟩, hbad⟩
          exact (namesBlock_iff hans).mp hb
      · exact (hstep.1 hend).elim

/--
**When false is right.**  If the search returns false, then it is right just when no way
leads over a conflicting call from what is left in the turn in which it returns.
-/
theorem sound_iff (s : Search m) (address : Site → Nat) : s.Sound address ↔
    (assert s.build (!s.scopeEndings.isEmpty) = some () → ∀ n next toCheck checked,
      s.run address n = .running next toCheck checked → s.EndsScope next →
        ∀ j, s.Left address n j → ¬ s.Unsafe j) := by
  cases hx : m.getNextNode s.mpiCall with
  | none =>
      refine iff_of_true ?_ ?_
      · rintro ⟨-, n, hn⟩
        rw [run_of_none hx] at hn
        obtain ⟨u, -, hu⟩ := Option.map_eq_some_iff.mp hn
        cases hu
      · intro _ n next toCheck checked hrun
        rw [run_of_none hx] at hrun
        cases hrun
  | some x =>
      have hbehind : behindCall m s.mpiCall = some x := by rw [behindCall, hx]
      constructor
      · intro h hassert n next toCheck checked hrun hend j hleft hbad
        have hreturns := (returns_false_iff hx).mpr ⟨hassert, n, next, toCheck, checked, hrun, hend⟩
        exact h hreturns x hbehind (hbad.back (hleft.way hx hrun))
      · rintro h hreturns x' hx' hbad
        rw [hbehind] at hx'
        cases hx'
        obtain ⟨hassert, n, y, ts, cs, hrun, hend⟩ := (returns_false_iff hx).mp hreturns
        have hstart : s.search.LookedAt address x n x ∨ x = y := by
          cases n with
          | zero =>
              rw [run_eq hx] at hrun
              cases hrun
              exact .inr rfl
          | succ n => exact .inl ⟨0, Nat.succ_pos n, [], [], rfl⟩
        obtain ⟨w, hleft, hw⟩ := hbad.left hx hrun hend hstart
        exact h hassert n y ts cs hrun hend w hleft hw

end Search

/-- Not an end of the scope: the search does something else there. -/
theorem not_endsScope {m : Module} {s : Search m} {x : Site}
    {t : Turn Site (FuncId × BlockId) (Option Bool)} (ht : s.search.turn x = t)
    (hne : t ≠ .answers (some false)) : ¬ s.EndsScope x := by
  intro hend
  rw [Search.answers_false_iff.mpr hend] at ht
  exact hne ht.symm

/--
One way from the branch calls `work` before the request is freed, and the other does not.
With addresses for which the second is taken first, the search returns false.
-/
theorem branchingSearch_unsound :
    ¬ ∀ address : Site → Nat, address.Injective → branchingSearch.Sound address := by
  have hbranch : branchingSearch.search.turn (0, 0, 2) = .ends [(0, 1), (0, 2)] [] := by decide
  have hwork : branchingSearch.search.turn (0, 1, 0) = .answers (some true) := by decide
  have hjump : branchingSearch.search.turn (0, 1, 1) = .ends [(0, 2)] [] := by decide
  have hfree : branchingSearch.search.turn (0, 2, 0) = .answers (some false) := by decide
  have hnext : branchingModule.getNextNode branchingSearch.mpiCall = some (0, 0, 2) := by decide
  have hgets : branchingSearch.search.Gets (0, 0, 2) (0, 2, 0) :=
    ⟨_, .enters .start hbranch (List.mem_cons_of_mem _ List.mem_cons_self) (by simp)⟩
  obtain ⟨address, hinj, hout⟩ := Search.outcome_of_state hnext rfl
    (WorkList.answered_iff.mpr ⟨_, hgets, hfree⟩)
  have htoWork : branchingSearch.Way (0, 0, 2) (0, 1, 0) := by
    refine .single ⟨not_endsScope hbranch (by simp), .block (b := (0, 1)) ⟨_, rfl, rfl, List.mem_cons_self⟩⟩
  have hconflicts : branchingSearch.Conflicts (0, 1, 0) := ⟨⟨some 3, []⟩, rfl, by decide⟩
  have hbehind : branchingSearch.Way (0, 1, 0) (0, 1, 1) :=
    .single ⟨not_endsScope hwork (by simp), .next rfl rfl (by decide)⟩
  have htoFree : branchingSearch.Way (0, 1, 1) (0, 2, 0) :=
    .single ⟨not_endsScope hjump (by simp), .block (b := (0, 2)) ⟨_, rfl, rfl, List.mem_cons_self⟩⟩
  intro h
  refine h address hinj (Search.returns_iff.mpr ⟨rfl, hout⟩) (0, 0, 2) (by decide) ?_
  exact ⟨(0, 1, 0), (0, 2, 0), htoWork, hconflicts, not_endsScope hwork (by simp), hbehind.trans htoFree,
    Search.answers_false_iff.mp hfree⟩

end CompMatch.Pass

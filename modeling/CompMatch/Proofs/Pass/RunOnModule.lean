/-
What the pass makes of the runs of a program.

The functions of the runtime are new in the module and have names of their own, so what is
put into the code can be told from what was there.  Erasing the inserted calls leaves the code
that the replacement has made, and that is the code of the program seen through a map of
addresses.  So the whole pass is a rewriting, and both programs have the same runs.
-/
import CompMatch.Proofs.Pass.AddInit
import CompMatch.Proofs.Pass.Runs

namespace CompMatch.Pass

namespace Module

/-! ### The functions of the runtime -/

section
variable {m : Module} {name x : String} {f g : FuncId} {n k : MpiFunction}

theorem names_getOrInsert :
    x ∈ (m.getOrInsertFunction name).functions.map Function.getName ↔
      x ∈ m.functions.map Function.getName ∨ x = name := by
  unfold getOrInsertFunction
  split
  · rename_i h
    constructor
    · exact Or.inl
    · rintro (hx | rfl)
      · exact hx
      · exact h
  · simp

theorem functions_getOrInsert : m.functions <+: (m.getOrInsertFunction name).functions := by
  unfold getOrInsertFunction
  split
  · exact List.prefix_refl _
  · exact List.prefix_append _ _

theorem foldl_getOrInsert (l : List String) : ∀ m : Module,
    m.functions <+: (l.foldl getOrInsertFunction m).functions ∧
      ∀ x, x ∈ (l.foldl getOrInsertFunction m).functions.map Function.getName ↔
        x ∈ m.functions.map Function.getName ∨ x ∈ l := by
  induction l with
  | nil =>
      intro m
      exact ⟨List.prefix_refl _, by simp⟩
  | cons name rest ih =>
      intro m
      obtain ⟨hfront, hnames⟩ := ih (m.getOrInsertFunction name)
      refine ⟨functions_getOrInsert.trans hfront, fun x => ?_⟩
      rw [List.foldl_cons, hnames, names_getOrInsert, List.mem_cons, or_assoc]

theorem functions_used : m.functions <+: m.getUsedMpiFunctions.functions := (foldl_getOrInsert _ m).1

theorem names_used : x ∈ m.getUsedMpiFunctions.functions.map Function.getName ↔
    x ∈ m.functions.map Function.getName ∨ x ∈ m.constructed := (foldl_getOrInsert _ m).2 x

theorem constructed_subset : m.constructed ⊆ runtimeNames := by
  intro x hx
  rcases List.mem_append.mp hx with hx | hx
  · obtain ⟨y, hy, rfl⟩ := List.mem_map.mp hx
    exact List.mem_append_left _ (List.mem_map_of_mem (List.mem_of_mem_filter hy))
  · split at hx
    · exact List.mem_append_right _ hx
    · cases hx

theorem name_not_runtime (n : MpiFunction) : n.name ∉ runtimeNames := by
  cases n <;> decide

theorem findIdx_of_prefix {α : Type*} {p : α → Bool} {l l' : List α} {i : Nat} (h : l <+: l')
    (hi : l.findIdx? p = some i) : l'.findIdx? p = some i := by
  obtain ⟨t, rfl⟩ := h
  rw [List.findIdx?_append, hi]
  rfl

/-- The functions of MPI are found where they were. -/
theorem mpiFunc_used (n : MpiFunction) : m.getUsedMpiFunctions.mpiFunc n = m.mpiFunc n := by
  cases h : m.mpiFunc n with
  | some f => exact findIdx_of_prefix functions_used h
  | none =>
      rw [mpiFunc, List.findIdx?_eq_none_iff] at h ⊢
      intro F hF
      have hnot : n.name ∉ m.getUsedMpiFunctions.functions.map Function.getName := by
        rw [names_used, not_or]
        refine ⟨fun hn => ?_, fun hn => name_not_runtime n (constructed_subset hn)⟩
        obtain ⟨G, hG, hname⟩ := List.mem_map.mp hn
        simpa [hname] using h G hG
      rw [beq_eq_false_iff_ne]
      exact fun hname => hnot (hname ▸ List.mem_map_of_mem hF)

theorem constructedFunc_name (h : m.constructedFunc name = some f) :
    name ∈ m.constructed ∧ ∃ F, m.getUsedMpiFunctions.functions[f]? = some F ∧ F.getName = name := by
  unfold constructedFunc at h
  split at h
  · rename_i hname
    obtain ⟨hlt, hF, -⟩ := List.findIdx?_eq_some_iff_getElem.mp h
    exact ⟨hname, _, List.getElem?_eq_getElem hlt, by simpa using hF⟩
  · cases h

/-- A function is constructed for every name. -/
theorem constructedFunc_isSome (h : name ∈ m.constructed) : (m.constructedFunc name).isSome = true := by
  rw [constructedFunc, if_pos h, List.findIdx?_isSome, List.any_eq_true]
  obtain ⟨F, hF, hname⟩ := List.mem_map.mp (names_used.mpr (Or.inr h))
  exact ⟨F, hF, by simpa using hname⟩

/-- Where there is something to initialise or to finalise, both functions are there. -/
theorem optimizedInit_isSome (h : m.usesInit = true) :
    m.optimizedInit.isSome = true ∧ m.optimizedFinalize.isSome = true := by
  constructor
  · exact constructedFunc_isSome (by simp [constructed, h])
  · exact constructedFunc_isSome (by simp [constructed, h])

theorem constructedFunc_inj (h : m.constructedFunc name = some f) (h' : m.constructedFunc x = some f) :
    name = x := by
  obtain ⟨-, F, hF, rfl⟩ := constructedFunc_name h
  obtain ⟨-, G, hG, rfl⟩ := constructedFunc_name h'
  rw [Option.some.inj (hF.symm.trans hG)]

/-- It is a new one. -/
theorem constructedFunc_new (hnew : m.Pristine) (h : m.constructedFunc name = some f) :
    m.functions.length ≤ f := by
  obtain ⟨hname, F, hF, rfl⟩ := constructedFunc_name h
  by_contra hlt
  obtain ⟨t, ht⟩ := functions_used (m := m)
  rw [← ht, List.getElem?_append_left (Nat.lt_of_not_le hlt)] at hF
  exact hnew _ (constructed_subset hname) (List.mem_map_of_mem (List.mem_of_getElem? hF))

theorem isMpi_constructed (h : m.constructedFunc name = some f) :
    m.getUsedMpiFunctions.isMpiFunction (some f) = true := by
  obtain ⟨hname, F, hF, rfl⟩ := constructedFunc_name h
  have hall : ∀ x ∈ runtimeNames, decide ("MPI".toList <:+: x.toList) = true := by decide
  simp only [isMpiFunction, hF, Option.any_some]
  exact hall _ (constructed_subset hname)

theorem isMpi_mpiFunc (h : m.mpiFunc n = some f) : m.isMpiFunction (some f) = true := by
  obtain ⟨F, hF, hname⟩ := mpiFunc_name h
  simp only [isMpiFunction, hF, Option.any_some, hname]
  cases n <;> decide

theorem optimized_eq (h : m.optimized n = some f) :
    ∃ name, optimizedFunctions.lookup n = some name ∧ m.constructedFunc name = some f :=
  Option.bind_eq_some_iff.mp h

end

/-! ### What is inserted -/

section
variable {m : Module} {malloc : Code → Ptr} {base cur : Code} {f : FuncId} {u new : Node}

/-- Without the inserted calls the code is `base`. -/
structure Grown (m : Module) (base cur : Code) : Prop where
  erase : cur.mapNodes (·.filter fun n => !m.isInserted n) = base
  calls : ∀ n ∈ cur.nodes, m.isInserted n = true → ∃ g, n.op = .call (.function g) []

theorem isInserted_call (hf : m.optimizedInit = some f ∨ m.optimizedFinalize = some f)
    (hop : new.op = .call (.function f) []) : m.isInserted new = true := by
  rcases hf with hf | hf <;> simp [isInserted, hop, Op.getCalledFunction, Op.callBase, hf]

theorem mem_mapNodes {g : List Node → List Node} {n : Node} (h : n ∈ (cur.mapNodes g).nodes) :
    ∃ b ∈ cur, n ∈ g b.nodes := by
  obtain ⟨b', hb', hn⟩ := List.mem_flatMap.mp h
  obtain ⟨b, hb, rfl⟩ := List.mem_map.mp hb'
  exact ⟨b, hb, hn⟩

theorem Grown.start (h : ∀ n ∈ base.nodes, m.isInserted n = false) : Grown m base base := by
  refine ⟨?_, fun n hn hins => ?_⟩
  · have hid : base.mapNodes (·.filter fun n => !m.isInserted n) = base.mapNodes id := by
      refine Code.mapNodes_congr fun b hb => List.filter_eq_self.mpr fun n hn => ?_
      simp [h n (Code.mem_nodes hb hn)]
    rw [hid]
    exact List.map_id base
  · rw [h n hn] at hins
    cases hins

/-- Something is put beside instructions. -/
theorem Grown.beside (h : Grown m base cur) {g : Node → List Node}
    (herase : ∀ n, (g n).filter (fun n => !m.isInserted n) = [n].filter fun n => !m.isInserted n)
    (hmem : ∀ n, ∀ k ∈ g n, k = n ∨ k.op = .call (.function f) []) :
    Grown m base (cur.mapNodes (·.flatMap g)) := by
  refine ⟨?_, fun n hn hins => ?_⟩
  · rw [Code.mapNodes_mapNodes, ← h.erase]
    refine Code.mapNodes_congr fun b _ => ?_
    induction b.nodes with
    | nil => rfl
    | cons n rest ih =>
        rw [List.flatMap_cons, List.filter_append, ih, herase, ← List.filter_append]
        rfl
  · obtain ⟨b, hb, hn⟩ := mem_mapNodes hn
    obtain ⟨k, hk, hn⟩ := List.mem_flatMap.mp hn
    rcases hmem k n hn with rfl | hop
    · exact h.calls n (Code.mem_nodes hb hk) hins
    · exact ⟨f, hop⟩

theorem Grown.insertAfter (h : Grown m base cur) (hins : m.isInserted new = true)
    (hop : new.op = .call (.function f) []) (p : Ptr) : Grown m base (cur.insertAfter p new) := by
  refine h.beside (f := f) (fun n => ?_) fun n k hk => ?_
  · split
    · rw [← List.singleton_append, List.filter_append, List.filter_cons_of_neg (a := new) (by simp [hins])]
      simp
    · rfl
  · split at hk <;> simp only [List.mem_cons, List.not_mem_nil, or_false] at hk
    · rcases hk with rfl | rfl
      · exact Or.inl rfl
      · exact Or.inr hop
    · exact Or.inl hk

theorem Grown.insertBefore (h : Grown m base cur) (hins : m.isInserted new = true)
    (hop : new.op = .call (.function f) []) (p : Ptr) : Grown m base (cur.insertBefore p new) := by
  refine h.beside (f := f) (fun n => ?_) fun n k hk => ?_
  · split
    · rw [List.filter_cons_of_neg (a := new) (by simp [hins])]
    · rfl
  · split at hk <;> simp only [List.mem_cons, List.not_mem_nil, or_false] at hk
    · rcases hk with rfl | rfl
      · exact Or.inr hop
      · exact Or.inl rfl
    · exact Or.inl hk

theorem Grown.insertBehindPhis (h : Grown m base cur) (hins : m.isInserted new = true)
    (hop : new.op = .call (.function f) []) (b : BlockId) :
    Grown m base (cur.insertBehindPhis b new) := by
  have hnodes : ∀ ns : List Node, (ns.takeWhile (·.op.isPhi) ++ new :: ns.dropWhile (·.op.isPhi)).filter
      (fun n => !m.isInserted n) = ns.filter fun n => !m.isInserted n := by
    intro ns
    rw [List.filter_append, List.filter_cons_of_neg (by simp [hins]), ← List.filter_append,
      List.takeWhile_append_dropWhile]
  refine ⟨?_, fun n hn hn' => ?_⟩
  · rw [← h.erase]
    refine List.ext_getElem? fun c => ?_
    simp only [Code.mapNodes, Code.insertBehindPhis, List.getElem?_map]
    by_cases hc : b = c
    · subst hc
      rw [List.getElem?_modify_eq]
      cases cur[b]? with
      | none => rfl
      | some blk => simp only [Option.map_eq_map, Option.map_some, hnodes]
    · rw [List.getElem?_modify_ne _ _ hc]
  · obtain ⟨blk, hblk, hn⟩ := List.mem_flatMap.mp hn
    obtain ⟨c, hc⟩ := List.mem_iff_getElem?.mp hblk
    by_cases hbc : b = c
    · subst hbc
      rw [Code.insertBehindPhis, List.getElem?_modify_eq] at hc
      obtain ⟨blk', hblk', rfl⟩ := Option.map_eq_some_iff.mp hc
      have hold : ∀ k ∈ blk'.nodes, k ∈ cur.nodes := fun k hk =>
        Code.mem_nodes (List.mem_of_getElem? hblk') hk
      rcases List.mem_append.mp hn with hn | hn
      · exact h.calls n (hold n ((List.takeWhile_sublist _).subset hn)) hn'
      · rcases List.mem_cons.mp hn with rfl | hn
        · exact ⟨f, hop⟩
        · exact h.calls n (hold n ((List.dropWhile_sublist _).subset hn)) hn'
    · rw [Code.insertBehindPhis, List.getElem?_modify_ne _ _ hbc] at hc
      exact h.calls n (Code.mem_nodes (List.mem_of_getElem? hc) hn) hn'

/-- What every turn of a loop keeps, the loop keeps. -/
theorem Grown.loop {turn : Code → Node → Code} (us : List Node)
    (hturn : ∀ cur, ∀ u ∈ us, Grown m base cur → Grown m base (turn cur u)) :
    ∀ {cur}, Grown m base cur → Grown m base (us.foldl turn cur) := by
  induction us with
  | nil =>
      intro cur h
      exact h
  | cons u rest ih =>
      intro cur h
      exact ih (fun cur v hv => hturn cur v (List.mem_cons_of_mem _ hv)) (hturn cur u List.mem_cons_self h)

theorem Grown.addInit (malloc : Code → Ptr) (h : Grown m base cur) :
    Grown m base (m.getUsedMpiFunctions.addInit (m.optimizedInit.getD 0) malloc cur).2 := by
  have hturn : ∀ n : MpiFunction, (n = .init ∨ n = .initThread) → ∀ (src cur : Code),
      ∀ u ∈ callUsers src (m.getUsedMpiFunctions.mpiFunc n), Grown m base cur →
        Grown m base (addInitTurn (m.optimizedInit.getD 0) malloc cur u) := by
    intro n hn src cur u hu hcur
    -- there is a call, so the function was constructed
    have huses : m.usesInit = true := by
      rw [mpiFunc_used] at hu
      cases hf : m.mpiFunc n with
      | none => simp [hf, callUsers] at hu
      | some f => rcases hn with rfl | rfl <;> simp [usesInit, hf]
    obtain ⟨f, hinit⟩ := Option.isSome_iff_exists.mp (optimizedInit_isSome huses).1
    have hop : (initCall (m.optimizedInit.getD 0) malloc cur).op = .call (.function f) [] := by
      rw [hinit]
      rfl
    have hins := isInserted_call (Or.inl hinit) hop
    unfold addInitTurn
    split
    · exact hcur.insertBehindPhis hins hop _
    · exact hcur.insertAfter hins hop _
  have hfirst := Grown.loop _ (hturn .init (Or.inl rfl) cur) h
  exact Grown.loop _ (hturn .initThread (Or.inr rfl) _) hfirst

theorem Grown.addFinalize (malloc : Code → Ptr) (h : Grown m base cur) :
    Grown m base (m.getUsedMpiFunctions.addFinalize (m.optimizedFinalize.getD 0) malloc cur).2 := by
  refine Grown.loop _ (fun cur u hu hcur => ?_) h
  have huses : m.usesInit = true := by
    rw [mpiFunc_used] at hu
    cases hf : m.mpiFunc .finalize with
    | none => simp [hf, callUsers] at hu
    | some f => simp [usesInit, hf]
  obtain ⟨f, hfinalize⟩ := Option.isSome_iff_exists.mp (optimizedInit_isSome huses).2
  have hop : (finalizeCall (m.optimizedFinalize.getD 0) malloc cur).op = .call (.function f) [] := by
    rw [hfinalize]
    rfl
  exact hcur.insertBefore (isInserted_call (Or.inr hfinalize) hop) hop _

end

/-! ### What is replaced -/

section
variable {m : Module} {build : Build} {malloc : Code → Ptr} {sendConflict recvConflict : Ptr → Bool}
  {code replaced code' : Code} {changed : Bool} {address : Ptr → Ptr} {calls : List Ptr} {n : Node} {f : FuncId}

/-- The code between the replacement and the insertions. -/
theorem runOnModule_image (hwf : code.WellFormed) (hmalloc : Fresh malloc)
    (h : m.runOnModule build malloc sendConflict recvConflict code = some (changed, code')) :
    ∃ replaced address, m.getUsedMpiFunctions.Image m.optimized
        (m.rewritten build sendConflict recvConflict code) code replaced address ∧
      (∀ p ∈ m.rewritten build sendConflict recvConflict code, IsCallPtr code p) ∧
      code' = (m.getUsedMpiFunctions.addFinalize (m.optimizedFinalize.getD 0) malloc
        (m.getUsedMpiFunctions.addInit (m.optimizedInit.getD 0) malloc replaced).2).2 := by
  obtain ⟨replaced, hreplaced, heq⟩ := Option.map_eq_some_iff.mp h
  refine ⟨replaced, ?_⟩
  have hcode' := (congrArg Prod.snd heq).symm
  unfold rewritten
  simp only
  split at hreplaced
  · rename_i hr
    rw [if_pos hr]
    obtain ⟨calls, hcalls, hloop⟩ := Option.bind_eq_some_iff.mp hreplaced
    obtain ⟨hnodup, hptrs⟩ := callsToReplace_calls hcalls
    obtain ⟨address, hI⟩ := image_of_foldlM hwf hmalloc calls [] code id image_start hnodup hptrs hloop
    rw [List.nil_append] at hI
    rw [hcalls]
    exact ⟨address, hI, hptrs, hcode'⟩
  · rename_i hr
    rw [if_neg hr]
    obtain rfl : code = replaced := Option.some.inj hreplaced
    exact ⟨id, image_start, by simp, hcode'⟩

/-- What a call of the runtime looks like that takes the place of another one. -/
theorem replacement_eq (hn : n.op.callBase.isSome = true) (hr : m.getUsedMpiFunctions.Replaces calls n)
    (hf : ((m.getUsedMpiFunctions.replaceableCall n.op).bind m.optimized).isSome = true) :
    ∃ k f callee args, m.mpiFunc k = n.op.getCalledFunction ∧ n.op.getCalledFunction.isSome = true ∧
      m.optimized k = some f ∧ n.op.callBase = some (callee, args) ∧
        m.getUsedMpiFunctions.replacement m.optimized n.op = .call (.function f) args := by
  obtain ⟨k, hk⟩ := Option.isSome_iff_exists.mp hr.2
  rw [hk] at hf
  obtain ⟨f, hf⟩ := Option.isSome_iff_exists.mp hf
  obtain ⟨⟨callee, args⟩, hc⟩ := Option.isSome_iff_exists.mp hn
  have hcalled : n.op.getCalledFunction = m.mpiFunc k := by
    have hfound := List.find?_some hk
    rw [mpiFunc_used] at hfound
    exact eq_of_beq hfound
  have hsome : (m.mpiFunc k).isSome = true := by
    obtain ⟨name, hname, hcon⟩ := optimized_eq hf
    obtain ⟨hmem, -⟩ := constructedFunc_name hcon
    rcases List.mem_append.mp hmem with hmem | hmem
    · obtain ⟨x, hx, rfl⟩ := List.mem_map.mp hmem
      obtain ⟨hx, hx'⟩ := List.mem_filter.mp hx
      have hkx : x.1 = k := by
        have hall : ∀ y ∈ optimizedFunctions, ∀ j, optimizedFunctions.lookup j = some y.2 → y.1 = j := by
          intro y hy j
          cases j <;> revert y <;> decide
        exact hall x hx k hname
      rwa [hkx] at hx'
    · exfalso
      have hall : ∀ j, optimizedFunctions.lookup j ≠ some "MPIOPT_INIT" ∧
          optimizedFunctions.lookup j ≠ some "MPIOPT_FINALIZE" := by
        intro j
        cases j <;> decide
      split at hmem
      · simp only [List.mem_cons, List.not_mem_nil, or_false] at hmem
        rcases hmem with rfl | rfl
        · exact (hall k).1 hname
        · exact (hall k).2 hname
      · cases hmem
  refine ⟨k, f, callee, args, hcalled.symm, hcalled ▸ hsome, hf, hc, ?_⟩
  simp only [replacement, hk, hf, hc]

/-! ### The rewriting -/

/-- The function that is called is an operand. -/
theorem called_mem {op : Op} (h : op.getCalledFunction = some f) : .function f ∈ op.operands := by
  unfold Op.getCalledFunction at h
  split at h
  · rename_i g args hc
    obtain rfl : g = f := Option.some.inj h
    cases op <;> simp_all [Op.callBase, Op.operands]
  · cases h

theorem control_moved (g : Operand → Operand) (op : Op) : (op.mapOperands g).control = op.control := by
  cases op <;> rfl

/-- An instruction that is not replaced calls what it has called. -/
theorem called_expected (h : ¬ m.getUsedMpiFunctions.Replaces calls n) :
    (m.getUsedMpiFunctions.expected m.optimized calls address n).op.getCalledFunction =
      n.op.getCalledFunction := by
  rw [expected, if_neg h, getCalledFunction_moved]

/-- One that is replaced calls a function of the runtime. -/
theorem called_replaced (address : Ptr → Ptr) (hn : n.op.callBase.isSome = true) (hr : m.getUsedMpiFunctions.Replaces calls n)
    (hf : ((m.getUsedMpiFunctions.replaceableCall n.op).bind m.optimized).isSome = true) :
    ∃ k f g, m.mpiFunc k = some g ∧ n.op.getCalledFunction = some g ∧ m.optimized k = some f ∧
      (m.getUsedMpiFunctions.expected m.optimized calls address n).op.getCalledFunction = some f := by
  obtain ⟨k, f, callee, args, hk, hsome, hf, -, hrep⟩ := replacement_eq hn hr hf
  obtain ⟨g, hg⟩ := Option.isSome_iff_exists.mp hsome
  refine ⟨k, f, g, hk.trans hg, hg, hf, ?_⟩
  rw [expected, if_pos hr, getCalledFunction_moved, hrep]
  rfl

variable (m) in
/-- The functions that are declared for the runtime are not defined. -/
theorem entered_new (hof : code.Of m) (hf : m.functions.length ≤ f) {op : Op} (hop : op.getCalledFunction = some f) :
    code.entered op = none := by
  rw [Code.entered, hop, Option.filter_eq_none_iff]
  intro g hg
  obtain rfl : f = g := Option.some.inj hg
  simp only [List.any_eq_true, beq_iff_eq, not_exists, not_and]
  intro b hb heq
  have hlt := hof.blocks b hb
  rw [heq] at hlt
  exact absurd hf (Nat.not_le_of_lt hlt)

theorem isInserted_iff : m.isInserted n = true ↔
    ∃ f, n.op.getCalledFunction = some f ∧ (m.optimizedInit = some f ∨ m.optimizedFinalize = some f) := by
  unfold isInserted
  cases n.op.getCalledFunction with
  | none => simp
  | some g =>
      simp only [Option.any_some, Bool.or_eq_true, beq_iff_eq]
      constructor
      · rintro (h | h)
        · exact ⟨g, rfl, Or.inl h.symm⟩
        · exact ⟨g, rfl, Or.inr h.symm⟩
      · rintro ⟨f, hf, h⟩
        obtain rfl := Option.some.inj hf
        exact h.imp Eq.symm Eq.symm

/-- `MPIOPT_INIT` and `MPIOPT_FINALIZE` take the place of no call. -/
theorem optimized_ne (hf : m.optimizedInit = some f ∨ m.optimizedFinalize = some f) (k : MpiFunction) :
    m.optimized k ≠ some f := by
  have hall : ∀ j, optimizedFunctions.lookup j ≠ some "MPIOPT_INIT" ∧
      optimizedFunctions.lookup j ≠ some "MPIOPT_FINALIZE" := by
    intro j
    cases j <;> decide
  intro hk
  obtain ⟨name, hlookup, hcon⟩ := optimized_eq hk
  rcases hf with hf | hf
  · exact (hall k).1 (constructedFunc_inj hcon hf ▸ hlookup)
  · exact (hall k).2 (constructedFunc_inj hcon hf ▸ hlookup)

theorem inserted_new (hnew : m.Pristine) (hf : m.optimizedInit = some f ∨ m.optimizedFinalize = some f) :
    m.functions.length ≤ f ∧ m.getUsedMpiFunctions.isMpiFunction (some f) = true := by
  rcases hf with hf | hf <;> exact ⟨constructedFunc_new hnew hf, isMpi_constructed hf⟩

/-- No instruction of the program is taken for an inserted one. -/
theorem isInserted_expected (hof : code.Of m) (hnew : m.Pristine) (hwf : code.WellFormed)
    (hI : m.getUsedMpiFunctions.Image m.optimized calls code replaced address)
    (hcalls : ∀ p ∈ calls, IsCallPtr code p) (hn : n ∈ code.nodes) :
    m.isInserted (m.getUsedMpiFunctions.expected m.optimized calls address n) = false := by
  by_contra hins
  obtain ⟨f, hcalled, hf⟩ := isInserted_iff.mp (by simpa using hins)
  by_cases hr : m.getUsedMpiFunctions.Replaces calls n
  · obtain ⟨k, hk, hptr, hc⟩ := hcalls n.ptr hr.1
    obtain rfl : k = n := eq_of_ptr hwf hk hn hptr
    obtain ⟨j, f', g, -, -, hf', hcalled'⟩ := called_replaced address hc hr (hI.constructed k hn hr)
    obtain rfl := Option.some.inj (hcalled.symm.trans hcalled')
    exact optimized_ne hf j hf'
  · rw [called_expected hr] at hcalled
    have hlt := hof.operands n hn f (called_mem hcalled)
    have hle := (inserted_new hnew hf).1
    omega

/-- What the pass makes of the code: without the inserted calls it is the code of the program, seen
through a map of addresses. -/
theorem runOnModule_erase (hwf : code.WellFormed) (hof : code.Of m) (hnew : m.Pristine)
    (hmalloc : Fresh malloc)
    (h : m.runOnModule build malloc sendConflict recvConflict code = some (changed, code')) :
    ∃ replaced address, m.getUsedMpiFunctions.Image m.optimized
        (m.rewritten build sendConflict recvConflict code) code replaced address ∧
      (∀ n ∈ code.nodes, m.getUsedMpiFunctions.Replaces (m.rewritten build sendConflict recvConflict code) n →
        n.op.callBase.isSome = true) ∧ Grown m replaced code' := by
  obtain ⟨replaced, address, hI, hcalls, rfl⟩ := runOnModule_image hwf hmalloc h
  refine ⟨replaced, address, hI, fun n hn hr => ?_, ?_⟩
  · obtain ⟨k, hk, hptr, hc⟩ := hcalls n.ptr hr.1
    obtain rfl : k = n := eq_of_ptr hwf hk hn hptr
    exact hc
  · have hstart : Grown m replaced replaced := by
      refine .start fun k hk => ?_
      rw [hI.code_eq, Code.nodes_mapNodes_map] at hk
      obtain ⟨n, hn, rfl⟩ := List.mem_map.mp hk
      exact isInserted_expected hof hnew hwf hI hcalls hn
    exact (hstart.addInit malloc).addFinalize malloc

/-- **The pass is a rewriting**, if it replaces no `invoke`. -/
theorem runOnModule_rewriting (hwf : code.WellFormed) (hof : code.Of m) (hnew : m.Pristine)
    (hmalloc : Fresh malloc)
    (h : m.runOnModule build malloc sendConflict recvConflict code = some (changed, code'))
    (hinv : ∀ n ∈ code.nodes,
      m.getUsedMpiFunctions.Replaces (m.rewritten build sendConflict recvConflict code) n → n.op.isInvoke = false) :
    ∃ address, (∀ p q, p ∈ code.nodes.map Node.ptr → q ∈ code.nodes.map Node.ptr →
        address p = address q → p = q) ∧
      Code.Rewriting m.getUsedMpiFunctions m.isInserted (m.getUsedMpiFunctions.expected m.optimized
        (m.rewritten build sendConflict recvConflict code) address) code code' := by
  obtain ⟨replaced, address, hI, hreplaced, hgrown⟩ := runOnModule_erase hwf hof hnew hmalloc h
  have herase := hgrown.erase.trans hI.code_eq
  have hfunctions := Code.function_mapNodes code' (·.filter fun n => !m.isInserted n)
  rw [herase, Code.function_mapNodes] at hfunctions
  refine ⟨address, hI.injective, herase, fun n hn hins => ?_, fun n hn => ?_, fun n hn => ?_, fun n hn => ?_⟩
  · obtain ⟨f, hcalled, hf⟩ := isInserted_iff.mp hins
    obtain ⟨hle, hmpi⟩ := inserted_new hnew hf
    refine ⟨hgrown.calls n hn hins, ?_, hcalled ▸ hmpi⟩
    have hentered := entered_new m hof hle hcalled
    rw [Code.entered_congr hfunctions] at hentered
    exact hentered
  · by_cases hr : m.getUsedMpiFunctions.Replaces (m.rewritten build sendConflict recvConflict code) n
    · obtain ⟨k, f, callee, args, -, -, -, hc, hrep⟩ :=
        replacement_eq (hreplaced n hn hr) hr (hI.constructed n hn hr)
      rw [expected, if_pos hr, control_moved, hrep]
      have hno := hinv n hn hr
      cases hop : n.op <;> simp_all [Op.callBase, Op.isInvoke, Op.control]
    · rw [expected, if_neg hr, control_moved]
  · by_cases hr : m.getUsedMpiFunctions.Replaces (m.rewritten build sendConflict recvConflict code) n
    · obtain ⟨k, f, g, hk, hg, hf, hcalled⟩ :=
        called_replaced address (hreplaced n hn hr) hr (hI.constructed n hn hr)
      obtain ⟨name, -, hcon⟩ := optimized_eq hf
      rw [entered_new m hof (constructedFunc_new hnew hcon) hcalled, Code.entered, hg, eq_comm,
        Option.filter_eq_none_iff]
      intro g' hg'
      obtain rfl : g = g' := Option.some.inj hg'
      simp only [List.any_eq_true, beq_iff_eq, not_exists, not_and]
      intro b hb heq
      exact hof.external b hb k (heq ▸ hk)
    · rw [Code.entered, Code.entered, called_expected hr]
  · by_cases hr : m.getUsedMpiFunctions.Replaces (m.rewritten build sendConflict recvConflict code) n
    · obtain ⟨k, f, g, hk, hg, hf, hcalled⟩ :=
        called_replaced address (hreplaced n hn hr) hr (hI.constructed n hn hr)
      obtain ⟨name, -, hcon⟩ := optimized_eq hf
      rw [hcalled, hg, isMpi_constructed hcon, isMpi_mpiFunc ((mpiFunc_used k).trans hk)]
    · rw [called_expected hr]

/--
**The pass preserves what the program does**: both programs go through the same instructions
and end in the same way, but for the inserted calls and the functions that are called in the
place of others.
-/
theorem runOnModule_sameRuns (hwf : code.WellFormed) (hof : code.Of m) (hnew : m.Pristine)
    (hmalloc : Fresh malloc)
    (h : m.runOnModule build malloc sendConflict recvConflict code = some (changed, code'))
    (hinv : ∀ n ∈ code.nodes,
      m.getUsedMpiFunctions.Replaces (m.rewritten build sendConflict recvConflict code) n → n.op.isInvoke = false) :
    ∃ address, m.SameRuns (m.rewritten build sendConflict recvConflict code) code code' address := by
  obtain ⟨address, hinj, hr⟩ := runOnModule_rewriting hwf hof hnew hmalloc h hinv
  exact ⟨address, hinj, fun _ trace' _ ht => hr.runs.1 trace' ht, fun _ trace _ ht => hr.runs.2 trace ht⟩

end

/-! ### A program with persistent requests -/

/-- That the code is of a module can be tested. -/
theorem of_check {m : Module} {code : Code} (hblocks : code.all (fun b => decide (b.function < m.functions.length)) = true)
    (hoperands : (code.nodes.all fun n => n.op.operands.all fun v =>
      match v with
      | .function f => decide (f < m.functions.length)
      | _ => true) = true)
    (hexternal : ∀ b ∈ code, ∀ n, m.mpiFunc n ≠ some b.function) : code.Of m := by
  refine ⟨fun b hb => ?_, fun n hn f hf => ?_, hexternal⟩
  · exact of_decide_eq_true (List.all_eq_true.mp hblocks b hb)
  · exact of_decide_eq_true (List.all_eq_true.mp (List.all_eq_true.mp hoperands n hn) _ hf)

def persistentModule : Module where
  functions := ["main", "MPI_Init", "MPI_Send_init", "MPI_Recv_init", "MPI_Start", "MPI_Wait",
    "MPI_Request_free", "MPI_Finalize"].map (⟨·, false, []⟩)
  names := by decide

/-- A loop that sends and receives, and sends once more with the request `other`. -/
def persistentCode (other : Ptr) : Code :=
  let init := (List.range 6).map Operand.other
  [⟨0, [⟨0, .other []⟩, ⟨1, .other []⟩, ⟨2, .other []⟩, ⟨3, .call (.function 1) [.other 0, .other 1]⟩,
      ⟨4, .call (.function 2) (init ++ [.inst 0])⟩, ⟨5, .call (.function 3) (init ++ [.inst 1])⟩,
      ⟨6, .call (.function 2) (init ++ [.inst other])⟩, ⟨7, .br [] [1]⟩]⟩,
    ⟨0, [⟨8, .call (.function 4) [.inst 0]⟩, ⟨9, .call (.function 4) [.inst 1]⟩,
      ⟨10, .call (.function 4) [.inst other]⟩, ⟨11, .call (.function 5) [.inst 0, .other 9]⟩,
      ⟨12, .call (.function 5) [.inst 1, .other 9]⟩, ⟨13, .call (.function 5) [.inst other, .other 9]⟩,
      ⟨14, .br [.other 6] [1, 2]⟩]⟩,
    ⟨0, [⟨15, .call (.function 6) [.inst 0]⟩, ⟨16, .call (.function 6) [.inst 1]⟩,
      ⟨17, .call (.function 6) [.inst other]⟩, ⟨18, .call (.function 7) []⟩, ⟨19, .ret [.other 7]⟩]⟩]

/-- A conflict was found for the other request. -/
def persistentRun (other : Ptr) : Option (Bool × Code) :=
  persistentModule.runOnModule .debug nextPtr (· == 6) (fun _ => false) (persistentCode other)

theorem persistentCode_of (other : Ptr) : (persistentCode other).Of persistentModule := by
  have hexternal : ∀ n, persistentModule.mpiFunc n ≠ some 0 := by
    intro n
    cases n <;> decide
  refine of_check rfl rfl fun b hb n => ?_
  simp only [persistentCode, List.mem_cons, List.not_mem_nil, or_false] at hb
  rcases hb with rfl | rfl | rfl <;> exact hexternal n

theorem persistentModule_pristine : persistentModule.Pristine := by
  have hall : ∀ name ∈ runtimeNames, name ∉ persistentModule.functions.map Function.getName := by decide
  exact hall

theorem persistentCode_sameRuns :
    match persistentRun 2 with
    | some (_, code') => ∃ address,
        persistentModule.SameRuns [4, 5, 8, 9, 11, 12, 15, 16] (persistentCode 2) code' address
    | none => False := by
  have hrun : (persistentRun 2).isSome = true := by decide
  have hcalls : persistentModule.rewritten .debug (· == 6) (fun _ => false) (persistentCode 2) =
      [4, 5, 8, 9, 11, 12, 15, 16] := by
    decide +kernel
  cases h : persistentRun 2 with
  | none => simp [h] at hrun
  | some x =>
      obtain ⟨changed, code'⟩ := x
      have hsame := runOnModule_sameRuns (Code.wellFormed_of_check (by decide)) (persistentCode_of 2)
        persistentModule_pristine fresh_nextPtr h (by decide)
      rw [hcalls] at hsame
      exact hsame

end Module

end CompMatch.Pass

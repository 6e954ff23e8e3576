/-
What the guard of an init call is while its requests are alive.

The block of the call is entered by one branch only, and that is on the guard, so in the
block the guard is what the branch has read.  It cannot be computed in the block: then it
would have to be read before the first time.  After the call it stays what it is until its
instruction is executed again in the same activation.
-/
import CompMatch.Pass.Guard
import CompMatch.Proofs.Pass.Search

namespace CompMatch.Pass

/-! ### Values of a frame -/

namespace Frame

variable {fr : Frame} {l : Loc} {v : Option Bool} {g : Value} {sp : Spot Loc Module.Exit}

@[simp] theorem eval_goto : (fr.goto sp).eval g = fr.eval g := by
  cases g <;> rfl

theorem eval_assign : (fr.assign l v).eval g = if g.definedAt fr.function l then v else fr.eval g := by
  cases g with
  | instruction ty f k =>
      by_cases hf : f = fr.function
      · by_cases hk : k = l
        · simp [eval, assign, Value.definedAt, hf, hk]
        · simp [eval, assign, Value.definedAt, hf, hk]
      · simp [eval, assign, Value.definedAt, hf]
  | _ => rfl

/-- A constant is the same in all activations. -/
theorem eval_constant {fr' : Frame} (h : g.isConstant = true) : fr.eval g = fr'.eval g := by
  cases g with
  | constInt bits v => rfl
  | global pointee name => rfl
  | constant ty expr => rfl
  | _ => cases h

end Frame

/-! ### The branch into the block -/

namespace Module

variable {m : Module} {x : Site} {f : FuncId} {l : Loc} {b : BlockId} {i : Instruction}

theorem mem_instructions (h : m.instruction (f, l) = some i) :
    ∃ F, m.functions[f]? = some F ∧ i ∈ F.instructions := by
  obtain ⟨F, hF, h⟩ := Option.bind_eq_some_iff.mp h
  obtain ⟨is, his, hi⟩ := Option.bind_eq_some_iff.mp h
  exact ⟨F, hF, List.mem_flatten.mpr ⟨is, List.mem_of_getElem? his, List.mem_of_getElem? hi⟩⟩

/-- Every edge of an instruction to the block is one of its predecessors. -/
theorem predecessors_edges (h : m.instruction (f, l) = some i) :
    ∃ pre post, m.predecessors (f, b) =
      pre ++ ((i.getSuccessors.filter (· = b)).map fun _ => i) ++ post := by
  obtain ⟨F, hF, hi⟩ := mem_instructions h
  obtain ⟨pre, post, heq⟩ := List.append_of_mem hi
  let edges : Instruction → List Instruction := fun j => (j.getSuccessors.filter (· = b)).map fun _ => j
  refine ⟨pre.flatMap edges, post.flatMap edges, ?_⟩
  simp only [predecessors, hF, Option.elim_some, heq, List.flatMap_append, List.flatMap_cons]
  rw [← List.append_assoc]

theorem guard_predecessors {g : Value} {way : Bool} (h : m.getGuardingCompare x = some (g, way)) :
    ∃ t e, m.predecessors (x.1, x.2.1) = [.condBr g t e] ∧ way = decide (t = x.2.1) := by
  unfold getGuardingCompare at h
  split at h
  · rename_i cond ifTrue ifFalse hp
    cases h
    exact ⟨ifTrue, ifFalse, hp, rfl⟩
  · cases h

/-- An instruction that leads to the block is its one predecessor, and leads there once. -/
theorem only_edge {j : Instruction} (hp : m.predecessors (f, b) = [j]) (h : m.instruction (f, l) = some i)
    (hb : b ∈ i.getSuccessors) : i = j ∧ (i.getSuccessors.filter (· = b)).length = 1 := by
  obtain ⟨pre, post, heq⟩ := predecessors_edges (b := b) h
  rw [hp] at heq
  have hmem : b ∈ i.getSuccessors.filter (· = b) := List.mem_filter.mpr ⟨hb, by simp⟩
  have hpos := List.length_pos_of_mem hmem
  have hlen := congrArg List.length heq
  simp only [List.length_append, List.length_map, List.length_singleton] at hlen
  refine ⟨?_, by omega⟩
  have hij : i ∈ [j] := by
    rw [heq]
    refine List.mem_append_left _ (List.mem_append_right _ ?_)
    exact List.mem_map.mpr ⟨b, hmem, rfl⟩
  exact List.mem_singleton.mp hij

end Module

theorem Value.definedAt_unique {g : Value} {f f' : FuncId} {l l' : Loc} (h : g.definedAt f l = true)
    (h' : g.definedAt f' l' = true) : l = l' := by
  cases g with
  | instruction ty f k =>
      simp only [Value.definedAt, Bool.and_eq_true, beq_iff_eq] at h h'
      exact h.2.symm.trans h'.2
  | _ => cases h

namespace Search

variable {m : Module} {s : Search m} {g : Value} {way : Bool} {rs : List Nat} {fr : Frame}
  {l : Loc} {i : Instruction} {v : Option Bool} {sp : Spot Loc Module.Exit}

/-- The guard in one activation, if the requests `rs` are alive. -/
structure Kept (s : Search m) (g : Value) (way : Bool) (rs : List Nat) (fr : Frame) : Prop where
  inBlock : ∀ k, fr.function = s.mpiCall.1 → fr.spot = .at (s.mpiCall.2.1, k) → fr.eval g = some way
  live : fr.id ∈ rs → fr.eval g ≠ some !way
  unset : ∀ k, fr.function = s.mpiCall.1 → g.definedAt s.mpiCall.1 (s.mpiCall.2.1, k) = true →
    fr.eval g = none

/-- In the block of the call no instruction computes the guard. -/
theorem Kept.not_defined (h : s.Kept g way rs fr) (hl : fr.spot = .at l) (hf : fr.function = s.mpiCall.1)
    (hb : l.1 = s.mpiCall.2.1) : g.definedAt fr.function l = false := by
  by_contra hd
  have hd' : g.definedAt s.mpiCall.1 (s.mpiCall.2.1, l.2) = true := by
    rw [← hf, ← hb]
    exact Bool.of_not_eq_false hd
  have hsome := h.inBlock l.2 hf (by rw [hl, ← hb])
  rw [h.unset l.2 hf hd'] at hsome
  cases hsome

/-- Where an instruction other than a branch with a condition leads. -/
def LeadsTo (i : Instruction) (l : Loc) (sp : Spot Loc Module.Exit) : Prop :=
  (∃ e, sp = .left e) ∨ sp = .at (l.1, l.2 + 1) ∨
    ((∀ cond t e, i ≠ .condBr cond t e) ∧ ∃ b ∈ i.getSuccessors, sp = .at (b, 0))

/-- **What a step leaves of the guard** in the activation that takes it. -/
theorem Kept.moves {fr' : Frame} (hg : s.guard = some (g, way)) (h : s.Kept g way rs fr)
    (hl : fr.spot = .at l) (hi : m.instruction (fr.function, l) = some i) (hsp : LeadsTo i l sp)
    (hfr : fr' = fr ∨ fr' = fr.assign l v ∧
      (fr.id ∈ rs → g.definedAt fr.function l = true → v ≠ some !way)) :
    s.Kept g way rs (fr'.goto sp) := by
  have hid : fr'.id = fr.id := by rcases hfr with rfl | ⟨rfl, -⟩ <;> rfl
  have hfun : fr'.function = fr.function := by rcases hfr with rfl | ⟨rfl, -⟩ <;> rfl
  have hsame : g.definedAt fr.function l = false → fr'.eval g = fr.eval g := by
    intro hd
    rcases hfr with rfl | ⟨rfl, -⟩
    · rfl
    · rw [Frame.eval_assign, hd]
      rfl
  refine ⟨?_, ?_, ?_⟩
  · intro k hf hk
    have hf' : fr.function = s.mpiCall.1 := hfun.symm.trans hf
    have hk' : sp = .at (s.mpiCall.2.1, k) := hk
    rw [Frame.eval_goto]
    rcases hsp with ⟨e, he⟩ | hnext | ⟨hne, b, hb, hsp⟩
    · rw [hk'] at he
      cases he
    · rw [hk'] at hnext
      have hb : l.1 = s.mpiCall.2.1 := (congrArg Prod.fst (Spot.at.inj hnext)).symm
      rw [hsame (h.not_defined hl hf' hb)]
      exact h.inBlock l.2 hf' (by rw [hl, ← hb])
    · rw [hk'] at hsp
      cases hsp
      obtain ⟨t, e, hp, -⟩ := m.guard_predecessors hg
      rw [← hf'] at hp
      exact (hne g t e (m.only_edge hp hi hb).1).elim
  · intro hmem
    have hmem' : fr.id ∈ rs := hid ▸ hmem
    rw [Frame.eval_goto]
    rcases hfr with rfl | ⟨rfl, hv⟩
    · exact h.live hmem'
    · rw [Frame.eval_assign]
      by_cases hd : g.definedAt fr.function l = true
      · rw [if_pos hd]
        exact hv hmem' hd
      · rw [if_neg hd]
        exact h.live hmem'
  · intro k hf hd
    have hf' : fr.function = s.mpiCall.1 := hfun.symm.trans hf
    have hnot : g.definedAt fr.function l = false := by
      by_contra hdl
      have hll := Value.definedAt_unique (Bool.of_not_eq_false hdl) hd
      exact hdl (h.not_defined hl hf' (by rw [hll]))
    rw [Frame.eval_goto, hsame hnot]
    exact h.unset k hf' hd

/-- A branch on a condition. -/
theorem Kept.branches {cond : Value} {ifTrue ifFalse : BlockId} {v : Bool}
    (hg : s.guard = some (g, way)) (h : s.Kept g way rs fr)
    (hi : m.instruction (fr.function, l) = some (.condBr cond ifTrue ifFalse))
    (hv : fr.eval cond = some v) :
    s.Kept g way rs (fr.goto (.at (if v then ifTrue else ifFalse, 0))) := by
  refine ⟨?_, fun hmem => ?_, fun k hf hd => ?_⟩
  · intro k hf hk
    obtain ⟨t, e, hp, hway⟩ := m.guard_predecessors hg
    have hf' : fr.function = s.mpiCall.1 := hf
    rw [← hf'] at hp
    have hb : (if v then ifTrue else ifFalse) = s.mpiCall.2.1 := congrArg Prod.fst (Spot.at.inj hk)
    have hmem : s.mpiCall.2.1 ∈ (Instruction.condBr cond ifTrue ifFalse).getSuccessors := by
      rw [← hb]
      cases v with
      | false => exact List.mem_cons_of_mem _ List.mem_cons_self
      | true => exact List.mem_cons_self
    obtain ⟨heq, hone⟩ := m.only_edge hp hi hmem
    cases heq
    rw [Frame.eval_goto, hv, hway]
    cases v with
    | true => simp only [if_true] at hb; simp [hb]
    | false =>
        have hne : ifTrue ≠ s.mpiCall.2.1 := by
          intro ht
          simp only [Bool.false_eq_true, if_false] at hb
          simp [Instruction.getSuccessors, ht, hb] at hone
        simp [hne]
  · rw [Frame.eval_goto]
    exact h.live hmem
  · rw [Frame.eval_goto]
    exact h.unset k hf hd

/-! ### One step -/

/-- What a step can do. -/
inductive Executed (s : Search m) (e : Execution) (a : Execution.Choice) : Execution → Prop
  | moves {fr fr' : Frame} {rest : List Frame} {l : Loc} {i : Instruction}
      {sp : Spot Loc Module.Exit} {rs : List Nat} (htop : m.top e = some (fr, rest, l, i))
      (hsp : LeadsTo i l sp)
      (hfr : fr' = fr ∨ ∃ v, fr' = fr.assign l v ∧ m.written e a = some (fr, l, v))
      (hrs : ∀ x ∈ rs, x ∈ e.requests ∨ x = fr.id ∧ (fr.function, l) = s.mpiCall) :
      Executed s e a ⟨fr'.goto sp :: rest, e.entered, rs⟩
  | branches {fr : Frame} {rest : List Frame} {l : Loc} {cond : Value} {ifTrue ifFalse : BlockId}
      {v : Bool} (htop : m.top e = some (fr, rest, l, .condBr cond ifTrue ifFalse))
      (hv : fr.eval cond = some v) :
      Executed s e a ⟨fr.goto (.at (if v then ifTrue else ifFalse, 0)) :: rest, e.entered, e.requests⟩
  | enters {fr : Frame} {rest : List Frame} {l : Loc} {i : Instruction} {f : FuncId}
      {args : Nat → Option Bool} (htop : m.top e = some (fr, rest, l, i)) :
      Executed s e a ⟨⟨e.entered, f, .at (0, 0), args, fun _ => none⟩ :: fr :: rest, e.entered + 1,
        e.requests⟩
  | resumes {fr caller fr' : Frame} {rest : List Frame} {l : Loc} {i : Instruction}
      {sp : Spot Loc Module.Exit} (hstack : e.stack = fr :: caller :: rest) (hl : caller.spot = .at l)
      (hi : m.instruction (caller.function, l) = some i) (hsp : LeadsTo i l sp)
      (hfr : fr' = caller ∨ ∃ v, fr' = caller.assign l v ∧ m.written e a = some (caller, l, v)) :
      Executed s e a ⟨fr'.goto sp :: rest, e.entered, e.requests⟩

theorem leadsTo_continuation (i : Instruction) (l : Loc) (x : Module.Exit) :
    LeadsTo i l (Module.continuation i l x) := by
  cases i with
  | invoke c normal unwind =>
      cases x with
      | ret => exact .inr (.inr ⟨by simp, normal, List.mem_cons_self, rfl⟩)
      | unwind => exact .inr (.inr ⟨by simp, unwind, List.mem_cons_of_mem _ List.mem_cons_self, rfl⟩)
  | _ =>
      cases x with
      | ret => exact .inr (.inl rfl)
      | unwind => exact .inl ⟨_, rfl⟩

theorem leadsTo_successors {k : Nat} (hi : i.callBase = none) (hbr : ∀ cond t e, i ≠ .condBr cond t e)
    (h : (m.successors i l)[k]? = some sp) : LeadsTo i l sp := by
  have hmem := List.mem_of_getElem? h
  cases i with
  | phi | alloca | other => exact .inr (.inl (List.mem_singleton.mp hmem))
  | call c | invoke c _ _ => cases hi
  | br dest => exact .inr (.inr ⟨hbr, dest, List.mem_singleton_self _, List.mem_singleton.mp hmem⟩)
  | condBr cond t e => exact (hbr cond t e rfl).elim
  | switch cond dests =>
      obtain ⟨b, hb, rfl⟩ := List.mem_map.mp hmem
      exact .inr (.inr ⟨hbr, b, hb, rfl⟩)
  | ret | resume => exact .inl ⟨_, List.mem_singleton.mp hmem⟩
  | unreachable => cases hmem

theorem mem_requestsAfter {c : CallBase} {x : Module.Exit} {freed : Option Nat} {a : Nat}
    (h : a ∈ s.requestsAfter fr l c x freed rs) : a ∈ rs ∨ a = fr.id ∧ (fr.function, l) = s.mpiCall := by
  unfold requestsAfter at h
  split at h
  · rename_i hc
    rcases List.mem_cons.mp h with rfl | h
    · exact .inr ⟨rfl, hc.1⟩
    · exact .inl h
  · split at h
    · cases freed with
      | none => exact .inl h
      | some k => exact .inl (List.mem_of_mem_eraseIdx h)
    · exact .inl h

theorem execute_executed {e e' : Execution} {a : Execution.Choice} (h : s.execute e a = some e') :
    s.Executed e a e' := by
  cases a with
  | computes v =>
      obtain ⟨⟨fr, rest, l, i⟩, htop, h⟩ := Option.bind_eq_some_iff.mp h
      have hw : m.written e (.computes v) = some (fr, l, v) := by
        rw [Module.written, htop]
        rfl
      cases i with
      | phi | alloca | other =>
          cases h
          exact .moves htop (.inr (.inl rfl)) (.inr ⟨v, rfl, hw⟩) fun x hx => .inl hx
      | _ => cases h
  | goes k =>
      obtain ⟨⟨fr, rest, l, i⟩, htop, h⟩ := Option.bind_eq_some_iff.mp h
      cases i with
      | br dest | switch cond dests | ret | resume =>
          obtain ⟨sp, hsp, rfl⟩ := Option.map_eq_some_iff.mp h
          exact .moves htop (leadsTo_successors rfl (by simp) hsp) (.inl rfl) fun x hx => .inl hx
      | _ => cases h
  | decides =>
      obtain ⟨⟨fr, rest, l, i⟩, htop, h⟩ := Option.bind_eq_some_iff.mp h
      cases i with
      | condBr cond ifTrue ifFalse =>
          obtain ⟨v, hv, rfl⟩ := Option.map_eq_some_iff.mp h
          exact .branches htop hv
      | _ => cases h
  | returns x v freed =>
      obtain ⟨⟨fr, rest, l, i⟩, htop, h⟩ := Option.bind_eq_some_iff.mp h
      obtain ⟨c, hc, h⟩ := Option.bind_eq_some_iff.mp h
      split at h
      · cases h
        have hrs : ∀ a ∈ s.requestsAfter fr l c x freed e.requests,
            a ∈ e.requests ∨ a = fr.id ∧ (fr.function, l) = s.mpiCall := fun _ => mem_requestsAfter
        cases x with
        | ret =>
            have hw : m.written e (.returns .ret v freed) = some (fr, l, v) := by
              rw [Module.written, htop]
              rfl
            exact .moves htop (leadsTo_continuation i l .ret) (.inr ⟨v, rfl, hw⟩) hrs
        | unwind => exact .moves htop (leadsTo_continuation i l .unwind) (.inl rfl) hrs
      · cases h
  | enters args =>
      obtain ⟨⟨fr, rest, l, i⟩, htop, h⟩ := Option.bind_eq_some_iff.mp h
      obtain ⟨c, hc, h⟩ := Option.bind_eq_some_iff.mp h
      obtain ⟨f, hf, rfl⟩ := Option.map_eq_some_iff.mp h
      exact .enters htop
  | resumes v =>
      simp only [execute] at h
      split at h
      · rename_i fr caller rest hstack
        split at h
        · rename_i x l hx hl
          obtain ⟨i, hi, rfl⟩ := Option.map_eq_some_iff.mp h
          cases x with
          | ret =>
              have hw : m.written e (.resumes v) = some (caller, l, v) := by
                simp only [Module.written, hstack, hx, hl]
              exact .resumes hstack hl hi (leadsTo_continuation i l .ret) (.inr ⟨v, rfl, hw⟩)
          | unwind => exact .resumes hstack hl hi (leadsTo_continuation i l .unwind) (.inl rfl)
        · cases h
      · cases h

/-! ### Executions -/

/-- The guard in all activations of an execution. -/
structure Inv (s : Search m) (g : Value) (way : Bool) (e : Execution) : Prop where
  frames : ∀ fr ∈ e.stack, s.Kept g way e.requests fr
  ids : (e.stack.map (·.id)).Nodup
  fresh : ∀ fr ∈ e.stack, fr.id < e.entered
  made : ∀ a ∈ e.requests, a < e.entered
  constant : e.requests ≠ [] → g.isConstant = true → ∀ fr : Frame, fr.eval g = some way

variable {e e' : Execution} {a : Execution.Choice} {rest : List Frame}

theorem top_stack (h : m.top e = some (fr, rest, l, i)) :
    e.stack = fr :: rest ∧ fr.spot = .at l ∧ m.instruction (fr.function, l) = some i := by
  unfold Module.top at h
  split at h
  · rename_i fr' rest' hstack
    split at h
    · rename_i l' hl
      obtain ⟨i', hi, heq⟩ := Option.map_eq_some_iff.mp h
      cases heq
      exact ⟨hstack, hl, hi⟩
    · cases h
  · cases h

/-- An activation that was entered now. -/
theorem kept_entered {n : Nat} {f : FuncId} {args : Nat → Option Bool} (hm : m.EntriesFree)
    (hg : s.guard = some (g, way)) (hn : n ∉ rs) :
    s.Kept g way rs ⟨n, f, .at (0, 0), args, fun _ => none⟩ := by
  refine ⟨?_, fun hmem => (hn hmem).elim, ?_⟩
  · intro k hf hk
    obtain ⟨t, e, hp, -⟩ := m.guard_predecessors hg
    have hb : s.mpiCall.2.1 = 0 := (congrArg Prod.fst (Spot.at.inj hk)).symm
    rw [hb, hm s.mpiCall.1] at hp
    cases hp
  · intro k hf hd
    cases g with
    | instruction ty f' k' => simp [Frame.eval]
    | _ => cases hd

theorem inv_started {f : FuncId} (hm : m.EntriesFree) (hg : s.guard = some (g, way))
    (h : Execution.Started f e) : s.Inv g way e := by
  obtain ⟨args, rfl⟩ := h
  refine ⟨?_, by simp, by simp, by simp, fun hne => (hne rfl).elim⟩
  intro fr hfr
  obtain rfl := List.mem_singleton.mp hfr
  exact kept_entered hm hg List.not_mem_nil

theorem careful_guard (hg : s.guard = some (g, way)) (h : s.careful e a = true) :
    (∀ fr l v, m.written e a = some (fr, l, v) → fr.id ∈ e.requests →
      g.definedAt fr.function l = true → v ≠ some !way) ∧ m.branchesOwn g e = true := by
  simp only [careful, hg, Bool.and_eq_true] at h
  refine ⟨?_, h.2⟩
  intro fr l v hw hmem hd hv
  have hk := h.1
  rw [Module.keepsGuard, hw] at hk
  simp [hmem, hd, hv] at hk

/-- An activation on top that goes on. -/
theorem Inv.replace {fr fr' : Frame} {rs : List Nat} (h : s.Inv g way e) (hstack : e.stack = fr :: rest)
    (hk : s.Kept g way rs fr') (hid : fr'.id = fr.id) (hrs : ∀ x ∈ rs, x ∈ e.requests ∨ x = fr.id)
    (hc : rs ≠ [] → g.isConstant = true → ∀ fr : Frame, fr.eval g = some way) :
    s.Inv g way ⟨fr' :: rest, e.entered, rs⟩ := by
  have hids := h.ids
  rw [hstack, List.map_cons, List.nodup_cons] at hids
  have hfr : fr ∈ e.stack := by
    rw [hstack]
    exact List.mem_cons_self
  refine ⟨?_, ?_, ?_, ?_, hc⟩
  · intro fr₂ hfr₂
    rcases List.mem_cons.mp hfr₂ with rfl | hmem
    · exact hk
    · have hold := h.frames fr₂ (by rw [hstack]; exact List.mem_cons_of_mem _ hmem)
      refine ⟨hold.inBlock, fun hlive => ?_, hold.unset⟩
      rcases hrs _ hlive with hlive | heq
      · exact hold.live hlive
      · exact (hids.1 (List.mem_map.mpr ⟨fr₂, hmem, heq⟩)).elim
  · rw [List.map_cons, List.nodup_cons, hid]
    exact hids
  · intro fr₂ hfr₂
    rcases List.mem_cons.mp hfr₂ with rfl | hmem
    · rw [hid]
      exact h.fresh fr hfr
    · exact h.fresh fr₂ (by rw [hstack]; exact List.mem_cons_of_mem _ hmem)
  · intro x hx
    rcases hrs x hx with hx | rfl
    · exact h.made x hx
    · exact h.fresh fr hfr

theorem Inv.pop {fr : Frame} (h : s.Inv g way e) (hstack : e.stack = fr :: rest) :
    s.Inv g way ⟨rest, e.entered, e.requests⟩ := by
  have hids := h.ids
  rw [hstack, List.map_cons, List.nodup_cons] at hids
  have hsub : ∀ fr₂ ∈ rest, fr₂ ∈ e.stack := by
    intro fr₂ hfr₂
    rw [hstack]
    exact List.mem_cons_of_mem _ hfr₂
  exact ⟨fun fr₂ hfr₂ => h.frames fr₂ (hsub fr₂ hfr₂), hids.2, fun fr₂ hfr₂ => h.fresh fr₂ (hsub fr₂ hfr₂),
    h.made, h.constant⟩

theorem Kept.written {fr' : Frame} (hg : s.guard = some (g, way)) (h : s.Kept g way e.requests fr)
    (hwrite : ∀ fr l v, m.written e a = some (fr, l, v) → fr.id ∈ e.requests →
      g.definedAt fr.function l = true → v ≠ some !way)
    (hl : fr.spot = .at l) (hi : m.instruction (fr.function, l) = some i) (hsp : LeadsTo i l sp)
    (hfr : fr' = fr ∨ ∃ v, fr' = fr.assign l v ∧ m.written e a = some (fr, l, v)) :
    s.Kept g way e.requests (fr'.goto sp) ∧ fr'.id = fr.id := by
  rcases hfr with rfl | ⟨v, rfl, hw⟩
  · exact ⟨h.moves (v := none) hg hl hi hsp (.inl rfl), rfl⟩
  · exact ⟨h.moves hg hl hi hsp (.inr ⟨rfl, hwrite fr l v hw⟩), rfl⟩

/-- The call itself leaves the guard as it is. -/
theorem Kept.call {fr' : Frame} (h : s.Kept g way rs fr) (hl : fr.spot = .at l)
    (hcall : (fr.function, l) = s.mpiCall) (hfr : fr' = fr ∨ ∃ v, fr' = fr.assign l v) :
    fr'.eval g = some way := by
  have hf : fr.function = s.mpiCall.1 := congrArg Prod.fst hcall
  have hb : l.1 = s.mpiCall.2.1 := congrArg (·.2.1) hcall
  have heval : fr.eval g = some way := h.inBlock l.2 hf (by rw [hl, ← hb])
  rcases hfr with rfl | ⟨v, rfl⟩
  · exact heval
  · rw [Frame.eval_assign, h.not_defined hl hf hb]
    exact heval

/-- **One careful step.** -/
theorem Inv.step (hm : m.EntriesFree) (hg : s.guard = some (g, way)) (h : s.Inv g way e)
    (hcare : s.careful e a = true) (hs : s.execute e a = some e') : s.Inv g way e' := by
  obtain ⟨hwrite, -⟩ := careful_guard hg hcare
  cases execute_executed hs with
  | @moves fr fr' rest l i sp rs htop hsp hfr hrs =>
      obtain ⟨hstack, hl, hi⟩ := top_stack htop
      have hk := h.frames fr (by rw [hstack]; exact List.mem_cons_self)
      obtain ⟨hmoved, hid⟩ := hk.written hg hwrite hl hi hsp hfr
      have hcall : (fr.function, l) = s.mpiCall → fr'.eval g = some way := fun hc =>
        hk.call hl hc (hfr.imp_right fun ⟨v, hv, _⟩ => ⟨v, hv⟩)
      refine h.replace hstack ⟨hmoved.inBlock, fun hmem => ?_, hmoved.unset⟩ hid
        (fun x hx => (hrs x hx).imp_right And.left) fun hne hconst fr₂ => ?_
      · rcases hrs _ hmem with hmem | ⟨-, hc⟩
        · exact hmoved.live hmem
        · rw [Frame.eval_goto, hcall hc]
          cases way <;> simp
      · obtain ⟨x, hx⟩ := List.exists_mem_of_ne_nil _ hne
        rcases hrs x hx with hx | ⟨-, hc⟩
        · exact h.constant (List.ne_nil_of_mem hx) hconst fr₂
        · rw [← hcall hc]
          exact Frame.eval_constant hconst
  | @branches fr rest l cond ifTrue ifFalse v htop hv =>
      obtain ⟨hstack, hl, hi⟩ := top_stack htop
      have hk := h.frames fr (by rw [hstack]; exact List.mem_cons_self)
      exact h.replace hstack (hk.branches hg hi hv) rfl (fun x hx => .inl hx) h.constant
  | @enters fr rest l i f args htop =>
      obtain ⟨hstack, -, -⟩ := top_stack htop
      rw [← hstack]
      have hnew : e.entered ∉ e.requests := fun hmem => Nat.lt_irrefl _ (h.made _ hmem)
      refine ⟨?_, ?_, ?_, fun x hx => Nat.lt_succ_of_lt (h.made x hx), h.constant⟩
      · intro fr₂ hfr₂
        rcases List.mem_cons.mp hfr₂ with rfl | hmem
        · exact kept_entered hm hg hnew
        · exact h.frames fr₂ hmem
      · rw [List.map_cons, List.nodup_cons]
        refine ⟨fun hmem => ?_, h.ids⟩
        obtain ⟨fr₂, hfr₂, heq⟩ := List.mem_map.mp hmem
        exact Nat.lt_irrefl _ (heq ▸ h.fresh fr₂ hfr₂)
      · intro fr₂ hfr₂
        rcases List.mem_cons.mp hfr₂ with rfl | hmem
        · exact Nat.lt_succ_self _
        · exact Nat.lt_succ_of_lt (h.fresh fr₂ hmem)
  | @resumes fr caller fr' rest l i sp hstack hl hi hsp hfr =>
      have hk := h.frames caller (by rw [hstack]; exact List.mem_cons_of_mem _ List.mem_cons_self)
      obtain ⟨hmoved, hid⟩ := hk.written hg hwrite hl hi hsp hfr
      exact (h.pop hstack).replace rfl hmoved hid (fun x hx => .inl hx) h.constant

/-- A branch is decided by its condition. -/
theorem execute_condBr {cond : Value} {ifTrue ifFalse : BlockId}
    (htop : m.top e = some (fr, rest, l, .condBr cond ifTrue ifFalse)) (hs : s.execute e a = some e') :
    ∃ v, fr.eval cond = some v ∧
      e'.stack = fr.goto (.at (if v then ifTrue else ifFalse, 0)) :: rest := by
  obtain ⟨hstack, hl, -⟩ := top_stack htop
  cases a with
  | decides =>
      simp only [execute, htop, Option.bind_some, Option.map_eq_some_iff] at hs
      obtain ⟨v, hv, rfl⟩ := hs
      exact ⟨v, hv, rfl⟩
  | resumes v =>
      simp only [execute, hstack] at hs
      cases rest with
      | nil => cases hs
      | cons caller rest => simp [hl] at hs
  | _ => simp [execute, htop, Instruction.callBase] at hs

/-- At a branch the search adds one successor only for the guard. -/
theorem nextBlocks_single {cond : Value} {ifTrue ifFalse b : BlockId}
    (h : s.nextBlocks (.condBr cond ifTrue ifFalse) = [b]) :
    ∃ way, s.guard = some (cond, way) ∧ b = if way then ifTrue else ifFalse := by
  unfold nextBlocks at h
  split at h
  · rename_i cond' t f g way heq hg
    cases heq
    split at h
    · rename_i hc
      subst hc
      exact ⟨way, hg, (List.singleton_inj.mp h).symm⟩
    · cases h
  · cases h

/--
**When the pruning is sound.**  In a run of careful steps every branch on the guard is taken
the way that the search keeps.
-/
theorem takesKept_of_careful {f : FuncId} (hm : m.EntriesFree)
    (hr : Reach s.execute (fun e a => s.careful e a = true) (Execution.Started f) e)
    (hcare : s.careful e a = true) (hs : s.execute e a = some e') : s.TakesKept e e' := by
  intro hne fr rest l cond ifTrue ifFalse b htop hb
  obtain ⟨way, hg, rfl⟩ := nextBlocks_single hb
  have hinv : s.Inv cond way e := hr.invariant (I := s.Inv cond way)
    (fun _ h => inv_started hm hg h) fun _ _ _ h hok hs => h.step hm hg hok hs
  obtain ⟨hstack, -, -⟩ := top_stack htop
  obtain ⟨v, hv, hstack'⟩ := execute_condBr htop hs
  have hway : v = way := by
    by_cases hconst : cond.isConstant = true
    · have hc := hinv.constant hne hconst fr
      rw [hv] at hc
      exact Option.some.inj hc
    · have hown := (careful_guard hg hcare).2
      rw [Module.branchesOwn, htop] at hown
      have hlive : fr.id ∈ e.requests := by simpa [hconst, hne] using hown
      have hk := (hinv.frames fr (by rw [hstack]; exact List.mem_cons_self)).live hlive
      rw [hv] at hk
      cases v <;> cases way <;> first | rfl | exact (hk rfl).elim
  rw [hstack', hway]

end Search

/-! ### Two runs -/

/-- Where the activation on top is. -/
def Execution.location (e : Execution) : Option Loc :=
  match e.stack with
  | fr :: _ =>
      match fr.spot with
      | .at l => some l
      | .left _ => none
  | [] => none

def startedMain : Execution := ⟨[⟨0, 0, .at (0, 0), fun _ => none, fun _ => none⟩], 1, []⟩

theorem startedMain_started : Execution.Started 0 startedMain := ⟨_, rfl⟩

/-- `main` computes a value, and branches on it before and after it makes a request. -/
def checkedModule : Module where
  functions :=
    [⟨"main", false,
      [[.alloca, .other, .condBr (.instruction (.int 1) 0 (0, 1)) 1 2],
        [.call (initCall 0 1), .condBr (.instruction (.int 1) 0 (0, 1)) 3 2],
        [.ret],
        [.call ⟨some 2, [.instruction (.ptr "ompi_request_t") 0 (0, 0)]⟩, .ret]]⟩,
     ⟨"MPI_Send_init", false, []⟩,
     ⟨"MPI_Request_free", false, []⟩]
  names := by decide

def checkedSearch : Search checkedModule where
  build := .release
  se := noAnalysis
  impl := wildcards
  getLibFunc := noLibrary
  mpiCall := (0, 1, 0)
  call := initCall 0 1
  scopeEndings := (checkedModule.getScopeEndings .release (initCall 0 1)).getD []
  isSending := true
  isCall := rfl

theorem checkedModule_entries : checkedModule.EntriesFree := by
  intro f
  match f with
  | 0 => rfl
  | 1 => rfl
  | 2 => rfl
  | _ + 3 => rfl

def checkedRun : List Execution.Choice :=
  [.computes none, .computes (some true), .decides, .returns .ret none none]

/-- The second branch goes to where the request is freed. -/
theorem checkedRun_takesKept :
    match runFrom (guarded checkedSearch.careful checkedSearch.execute) startedMain checkedRun with
    | some e => ∃ e', checkedSearch.execute e .decides = some e' ∧ e.requests ≠ [] ∧
        e'.location = some (3, 0) ∧ checkedSearch.TakesKept e e'
    | none => False := by
  have hrun : (runFrom (guarded checkedSearch.careful checkedSearch.execute) startedMain
      checkedRun).any (fun e => checkedSearch.careful e .decides && decide (e.requests ≠ []) &&
        (checkedSearch.execute e .decides).any fun e' => decide (e'.location = some (3, 0))) = true := by
    decide +kernel
  cases h : runFrom (guarded checkedSearch.careful checkedSearch.execute) startedMain checkedRun with
  | none => simp [h] at hrun
  | some e =>
      simp only [h, Option.any_some, Bool.and_eq_true, decide_eq_true_eq] at hrun
      obtain ⟨⟨hcare, hne⟩, hany⟩ := hrun
      cases hs : checkedSearch.execute e .decides with
      | none => simp [hs] at hany
      | some e' =>
          rw [hs, Option.any_some, decide_eq_true_eq] at hany
          have hreach : Reach checkedSearch.execute (fun e a => checkedSearch.careful e a = true)
              (Execution.Started 0) e :=
            .of_guarded (fun _ _ h => h) checkedRun (.init startedMain_started) h
          exact ⟨e', hs, hne, hany, Search.takesKept_of_careful checkedModule_entries hreach hcare hs⟩

/-- `main` computes a value in each round of a loop, and makes a request while it is true. -/
def roundsModule : Module where
  functions :=
    [⟨"main", false,
      [[.alloca, .br 1],
        [.other, .condBr (.instruction (.int 1) 0 (1, 0)) 2 3],
        [.call (initCall 0 1), .br 1],
        [.call ⟨some 2, [.instruction (.ptr "ompi_request_t") 0 (0, 0)]⟩, .ret]]⟩,
     ⟨"MPI_Send_init", false, []⟩,
     ⟨"MPI_Request_free", false, []⟩]
  names := by decide

def roundsSearch : Search roundsModule where
  build := .release
  se := noAnalysis
  impl := wildcards
  getLibFunc := noLibrary
  mpiCall := (0, 2, 0)
  call := initCall 0 1
  scopeEndings := (roundsModule.getScopeEndings .release (initCall 0 1)).getD []
  isSending := true
  isCall := rfl

/-- One round with a request, and the value of the next round. -/
def roundsRun : List Execution.Choice :=
  [.computes none, .goes 0, .computes (some true), .decides, .returns .ret none none, .goes 0,
    .computes (some false)]

/-- The search goes round again only, and the execution leaves the loop with the request alive. -/
theorem roundsRun_leaves : ¬ roundsSearch.PrunesSoundly := by
  have hrun : (runFrom roundsSearch.execute startedMain roundsRun).any (fun e =>
      decide (e.requests ≠ []) && decide ((roundsModule.top e).map (·.2.2.2) =
        some (.condBr (.instruction (.int 1) 0 (1, 0)) 2 3)) &&
        (roundsSearch.execute e .decides).any fun e' => decide (e'.location = some (3, 0))) = true := by
    decide +kernel
  intro h
  cases hr : runFrom roundsSearch.execute startedMain roundsRun with
  | none => simp [hr] at hrun
  | some e =>
      simp only [hr, Option.any_some, Bool.and_eq_true, decide_eq_true_eq] at hrun
      obtain ⟨⟨hne, htop⟩, hany⟩ := hrun
      obtain ⟨⟨fr, rest, l, i⟩, htop, hi⟩ := Option.map_eq_some_iff.mp htop
      cases hi
      cases hs : roundsSearch.execute e .decides with
      | none => simp [hs] at hany
      | some e' =>
          rw [hs, Option.any_some, decide_eq_true_eq] at hany
          have hkept := h 0 e .decides e' (.of_runFrom roundsRun (.init startedMain_started) hr) hs
          have hstack := hkept hne fr rest l _ _ _ 2 htop (by decide)
          rw [Execution.location, hstack] at hany
          cases hany

end CompMatch.Pass

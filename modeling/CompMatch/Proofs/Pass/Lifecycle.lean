/-
The runtime is set up and taken down with MPI.

Where the calls are inserted is a matter of each block: an instruction of the program, with what
was put beside it, leaves nothing open for the next one.  So what comes after what in a block does so
in every execution, as control goes from one block to another only where nothing is open.

An execution of the program that keeps to the rules of MPI is then one of the changed program that
keeps to those of the runtime.
-/
import CompMatch.Pass.Lifecycle
import CompMatch.Proofs.Pass.Handles

namespace CompMatch.Pass

namespace Code

/-! ### What comes after what in an execution -/

section
variable {m : Module} {ok : Option Node → Node → Prop} {code : Code} {last : Option Node} {n : Node}

/-- In every block what comes next fits, and control gets away from a block only where anything fits that
may come first. -/
structure Fitting (m : Module) (ok : Option Node → Node → Prop) (code : Code) : Prop where
  blocks : ∀ b ∈ code, Consecutive ok none b.nodes
  idle : ∀ n ∈ code.nodes, Idle ok (some n) ∨
    (m.isMpiFunction n.op.getCalledFunction = true ∧ code.entered n.op = none ∧ n.op.isInvoke = false)

theorem Fitting.block (h : Fitting m ok code) (b : BlockId) : Consecutive ok none (code.blockNodes b) := by
  unfold blockNodes
  cases hb : code[b]? with
  | none => trivial
  | some blk => exact h.blocks blk (List.mem_of_getElem? hb)

theorem Fitting.entry (h : Fitting m ok code) (f : FuncId) : Consecutive ok none (code.entryNodes f) := by
  unfold entryNodes
  cases code.findIdx? (·.function == f) with
  | none => trivial
  | some b => exact h.block b

theorem idle_none : Idle ok none := fun _ => Iff.rfl

/-- What is ahead of an activation fits; if it was left, nothing is open. -/
def Stands (ok : Option Node → Node → Prop) (last : Option Node) : Spot (List Node) Module.Exit → Prop
  | .at ns => Consecutive ok last ns
  | .left _ => Idle ok last

/-- An activation that waits for a function it has called. -/
def Entered (ok : Option Node → Node → Prop) (w : FuncId × Spot (List Node) Module.Exit) : Prop :=
  ∃ n rest, w.2 = .at (n :: rest) ∧ Idle ok (some n) ∧ Consecutive ok (some n) rest

structure FittingInv (ok : Option Node → Node → Prop) (code : Code) (x : Run) : Prop where
  trace : Consecutive ok none x.trace
  stack : StackIn code x.stack
  top : ∃ f s rest, x.stack = (f, s) :: rest ∧ Stands ok x.trace.getLast? s ∧ ∀ w ∈ rest, Entered ok w

theorem Fitting.continuation (h : Fitting m ok code) {rest : List Node} (hlast : Idle ok last)
    (hrest : Consecutive ok last rest) (e : Module.Exit) : Stands ok last (code.continuation n rest e) := by
  cases e with
  | ret =>
      simp only [Code.continuation]
      split
      · exact (h.block _).of_idle idle_none hlast
      · exact hrest
  | unwind =>
      simp only [Code.continuation]
      split
      · exact (h.block _).of_idle idle_none hlast
      · exact hlast

/-- Where control gets from an instruction. -/
theorem Fitting.moves (h : Fitting m ok code) (hn : n ∈ code.nodes) {rest : List Node} {s : Spot (List Node) Module.Exit}
    {i : Nat} (hrest : Consecutive ok (some n) rest) (hs : (code.moves n rest)[i]? = some s)
    (hok : m.isMpiFunction n.op.getCalledFunction = true → i = 0) : Stands ok (some n) s := by
  rcases h.idle n hn with hidle | ⟨hmpi, -, hinv⟩
  · have hmem := List.mem_of_getElem? hs
    unfold Code.moves at hmem
    split at hmem
    case h_4 | h_5 =>
      obtain ⟨e, -, rfl⟩ := List.mem_map.mp hmem
      exact h.continuation hidle hrest e
    case h_6 =>
      obtain ⟨b, -, rfl⟩ := List.mem_map.mp hmem
      exact (h.block b).of_idle idle_none hidle
    case h_1 | h_2 | h_3 =>
      obtain rfl := List.mem_singleton.mp hmem
      exact hrest
    case h_7 | h_8 =>
      obtain rfl := List.mem_singleton.mp hmem
      exact hidle
    case h_9 => cases hmem
  · -- a call of MPI comes back
    obtain rfl := hok hmpi
    cases hop : n.op with
    | call callee args =>
        simp only [Code.moves, hop, List.map_cons, List.getElem?_cons_zero, Option.some.injEq, Code.continuation] at hs
        subst hs
        exact hrest
    | invoke callee args normal unwind => simp [hop, Op.isInvoke] at hinv
    | _ => simp [hop, Op.getCalledFunction, Op.callBase, Module.isMpiFunction] at hmpi

/-- **Step lemma.** -/
theorem Fitting.step (h : Fitting m ok code) {x x' : Run} {c : Procedures.Choice} (hI : FittingInv ok code x)
    (hok : Procedures.Meets m.NoThrow x c) (hs : code.procedures.exec visible x c = some x') :
    FittingInv ok code x' := by
  obtain ⟨stack, hstep, rfl⟩ := Option.map_eq_some_iff.mp hs
  have hin := hI.stack.step hstep
  obtain ⟨f, s, below, hx, htop, hwaits⟩ := hI.top
  cases c with
  | goes i =>
      cases s with
      | left e => simp [hx, Procedures.step] at hstep
      | «at» ns =>
          rw [hx] at hstep
          simp only [Procedures.step] at hstep
          split at hstep
          · cases hstep
          · obtain ⟨s', hnext, rfl⟩ := Option.map_eq_some_iff.mp hstep
            cases ns with
            | nil => simp [procedures] at hnext
            | cons n rest =>
                have hn : n ∈ code.nodes := hI.stack f _ (hx ▸ List.mem_cons_self) n List.mem_cons_self
                have hshows : Procedures.shows visible x.stack (.goes i) = [n] := by
                  rw [hx]
                  rfl
                rw [hshows]
                refine ⟨consecutive_append.mpr ⟨hI.trace, ?_, trivial⟩, hin, f, s', below, rfl, ?_, hwaits⟩
                · rw [Option.or_none]
                  exact htop.1
                · rw [List.getLast?_concat]
                  exact h.moves hn htop.2 hnext fun hmpi => hok f _ below i hx rfl n rfl hmpi
  | enters =>
      cases s with
      | left e => simp [hx, Procedures.step] at hstep
      | «at» ns =>
          rw [hx] at hstep
          obtain ⟨g, htarget, rfl⟩ := Option.map_eq_some_iff.mp hstep
          cases ns with
          | nil => simp [procedures] at htarget
          | cons n rest =>
              have hn : n ∈ code.nodes := hI.stack f _ (hx ▸ List.mem_cons_self) n List.mem_cons_self
              have hidle : Idle ok (some n) := by
                refine (h.idle n hn).resolve_right fun hno => ?_
                have htarget : code.entered n.op = some g := htarget
                rw [hno.2.1] at htarget
                cases htarget
              have hshows : Procedures.shows visible x.stack .enters = [n] := by
                rw [hx]
                rfl
              rw [hshows]
              refine ⟨consecutive_append.mpr ⟨hI.trace, ?_, trivial⟩, hin, g, _, _, rfl, ?_, ?_⟩
              · rw [Option.or_none]
                exact htop.1
              · rw [List.getLast?_concat]
                exact (h.entry g).of_idle idle_none hidle
              · intro w hw
                rcases List.mem_cons.mp hw with rfl | hw
                · exact ⟨n, rest, rfl, hidle, htop.2⟩
                · exact hwaits w hw
  | leaves =>
      cases s with
      | «at» ns => simp [hx, Procedures.step] at hstep
      | left e =>
          cases below with
          | nil => simp [hx, Procedures.step] at hstep
          | cons w below =>
              obtain ⟨g, t⟩ := w
              obtain ⟨n, rest, ht, hidle, hrest⟩ := hwaits _ List.mem_cons_self
              obtain rfl : t = _ := ht
              rw [hx] at hstep
              cases hstep
              have hshows : Procedures.shows visible x.stack .leaves = [] := by
                rw [hx]
                rfl
              rw [hshows, List.append_nil]
              refine ⟨hI.trace, hin, g, _, below, rfl, ?_, fun w hw => hwaits w (List.mem_cons_of_mem _ hw)⟩
              exact h.continuation htop (hrest.of_idle hidle htop) e

/-- **What fits in every block fits in every execution.** -/
theorem Fitting.runs (h : Fitting m ok code) {f : FuncId} {trace : List Node} {outcome : Option Module.Exit}
    (hr : Runs m code f trace outcome) : Consecutive ok none trace := by
  obtain ⟨x, hx, rfl, -⟩ := hr
  refine (hx.invariant (I := FittingInv ok code) (fun x hx => ?_) fun _ _ _ hI hok hs => h.step hI hok hs).trace
  obtain ⟨hstack, htrace⟩ := hx
  refine ⟨?_, stackIn_started hstack, f, _, [], hstack, ?_, fun w hw => absurd hw List.not_mem_nil⟩
  · rw [htrace]
    trivial
  · rw [htrace]
    exact h.entry f

end

/-! ### What is put where -/

/-- The code `cur` is `base` with calls of `f` put before, and of `g` behind instructions, as many as these say. -/
structure Surrounded (g f : FuncId) (base cur : Code) (pre post : Ptr → List Node) : Prop where
  code : cur = base.mapNodes (·.flatMap fun n => pre n.ptr ++ n :: post n.ptr)
  before : ∀ p, ∀ k ∈ pre p, k.op = .call (.function f) [] ∧ k.ptr ∉ base.nodes.map Node.ptr
  behind : ∀ p, ∀ k ∈ post p, k.op = .call (.function g) [] ∧ k.ptr ∉ base.nodes.map Node.ptr

section
variable {g f : FuncId} {base cur : Code} {pre post : Ptr → List Node} {n new u : Node} {p : Ptr}

theorem surrounded_start : Surrounded g f base base (fun _ => []) fun _ => [] := by
  refine ⟨?_, fun _ _ hk => absurd hk List.not_mem_nil, fun _ _ hk => absurd hk List.not_mem_nil⟩
  simp [mapNodes]

theorem flatMap_other {h : Node → List Node} {ks : List Node} (hks : ∀ k ∈ ks, h k = [k]) : ks.flatMap h = ks := by
  induction ks with
  | nil => rfl
  | cons k rest ih =>
      rw [List.flatMap_cons, hks k List.mem_cons_self, ih fun j hj => hks j (List.mem_cons_of_mem _ hj)]
      rfl

theorem Surrounded.mem (h : Surrounded g f base cur pre post) (hn : n ∈ base.nodes) : n ∈ cur.nodes := by
  obtain ⟨b, hb, hn⟩ := List.mem_flatMap.mp hn
  rw [h.code]
  refine List.mem_flatMap.mpr ⟨_, List.mem_map_of_mem hb, ?_⟩
  exact List.mem_flatMap.mpr ⟨n, hn, List.mem_append_right _ List.mem_cons_self⟩

/-- What an allocator gives is not yet in the code. -/
theorem Surrounded.fresh (h : Surrounded g f base cur pre post) (hnew : new.ptr ∉ cur.nodes.map Node.ptr) :
    new.ptr ∉ base.nodes.map Node.ptr := by
  intro hmem
  obtain ⟨n, hn, heq⟩ := List.mem_map.mp hmem
  exact hnew (heq ▸ List.mem_map_of_mem (h.mem hn))

theorem Surrounded.insertAfter (h : Surrounded g f base cur pre post) (hp : p ∈ base.nodes.map Node.ptr)
    (hop : new.op = .call (.function g) []) (hnew : new.ptr ∉ cur.nodes.map Node.ptr) :
    Surrounded g f base (cur.insertAfter p new) pre (Function.update post p (new :: post p)) := by
  have hne : ∀ k : Node, k.ptr ∉ base.nodes.map Node.ptr → (if k.ptr = p then [k, new] else [k]) = [k] :=
    by
    intro k hk
    exact if_neg fun (heq : k.ptr = p) => hk (heq ▸ hp)
  refine ⟨?_, h.before, fun q k hk => ?_⟩
  · rw [h.code, Code.insertAfter, mapNodes_mapNodes]
    refine mapNodes_congr fun b _ => ?_
    rw [List.flatMap_assoc]
    refine List.flatMap_congr fun n _ => ?_
    rw [List.flatMap_append, flatMap_other fun k hk => hne k (h.before _ k hk).2, List.flatMap_cons,
      flatMap_other fun k hk => hne k (h.behind _ k hk).2]
    by_cases hn : n.ptr = p
    · rw [if_pos hn, hn, Function.update_self]
      rfl
    · rw [if_neg hn, Function.update_of_ne hn]
      rfl
  · by_cases hq : q = p
    · subst hq
      rw [Function.update_self] at hk
      rcases List.mem_cons.mp hk with rfl | hk
      · exact ⟨hop, h.fresh hnew⟩
      · exact h.behind _ k hk
    · rw [Function.update_of_ne hq] at hk
      exact h.behind _ k hk

theorem Surrounded.insertBefore (h : Surrounded g f base cur pre post) (hp : p ∈ base.nodes.map Node.ptr)
    (hop : new.op = .call (.function f) []) (hnew : new.ptr ∉ cur.nodes.map Node.ptr) :
    Surrounded g f base (cur.insertBefore p new) (Function.update pre p (pre p ++ [new])) post := by
  have hne : ∀ k : Node, k.ptr ∉ base.nodes.map Node.ptr → (if k.ptr = p then [new, k] else [k]) = [k] :=
    by
    intro k hk
    exact if_neg fun (heq : k.ptr = p) => hk (heq ▸ hp)
  refine ⟨?_, fun q k hk => ?_, h.behind⟩
  · rw [h.code, Code.insertBefore, mapNodes_mapNodes]
    refine mapNodes_congr fun b _ => ?_
    rw [List.flatMap_assoc]
    refine List.flatMap_congr fun n _ => ?_
    rw [List.flatMap_append, flatMap_other fun k hk => hne k (h.before _ k hk).2, List.flatMap_cons,
      flatMap_other fun k hk => hne k (h.behind _ k hk).2]
    by_cases hn : n.ptr = p
    · rw [if_pos hn, hn, Function.update_self, List.append_assoc]
      rfl
    · rw [if_neg hn, Function.update_of_ne hn]
      rfl
  · by_cases hq : q = p
    · subst hq
      rw [Function.update_self] at hk
      rcases List.mem_append.mp hk with hk | hk
      · exact h.before _ k hk
      · obtain rfl := List.mem_singleton.mp hk
        exact ⟨hop, h.fresh hnew⟩
    · rw [Function.update_of_ne hq] at hk
      exact h.before _ k hk

/-- The users of other functions are those of the program. -/
theorem Surrounded.users (h : Surrounded g f base cur pre post) {x : FuncId} (hg : x ≠ g) (hf : x ≠ f) :
    cur.users (.function x) = base.users (.function x) := by
  have hnone : ∀ {y : FuncId}, x ≠ y → ∀ ks : List Node, (∀ k ∈ ks, k.op = .call (.function y) []) →
      (ks.flatMap fun k => (k.op.operands.filter (· == .function x)).map fun _ => k) = [] := by
    intro y hy ks hks
    rw [List.flatMap_eq_nil_iff]
    intro k hk
    have hne : (Operand.function y == Operand.function x) = false := by simpa using Ne.symm hy
    simp [hks k hk, Op.operands, hne]
  rw [h.code]
  simp only [Code.users, Code.nodes, mapNodes, List.flatMap_map, List.flatMap_assoc]
  refine List.flatMap_congr fun b _ => List.flatMap_congr fun n _ => ?_
  rw [List.flatMap_append, hnone hf _ fun k hk => (h.before _ k hk).1, List.flatMap_cons,
    hnone hg _ fun k hk => (h.behind _ k hk).1]
  simp

/-- How often an instruction is among the users of a value. -/
theorem countP_users {v : Operand} (hnodup : (base.nodes.map Node.ptr).Nodup) (hn : n ∈ base.nodes) :
    (base.users v).countP (·.ptr == n.ptr) = n.op.operands.count v := by
  have hother : ∀ ns : List Node, (∀ k ∈ ns, k.ptr ≠ n.ptr) →
      (ns.flatMap fun k => (k.op.operands.filter (· == v)).map fun _ => k).countP (·.ptr == n.ptr) = 0 := by
    intro ns hns
    rw [List.countP_eq_zero]
    intro u hu
    obtain ⟨k, hk, hu⟩ := List.mem_flatMap.mp hu
    obtain ⟨-, -, rfl⟩ := List.mem_map.mp hu
    simpa using hns k hk
  obtain ⟨l₁, l₂, heq⟩ := List.append_of_mem hn
  rw [heq, List.map_append, List.map_cons, List.nodup_middle, List.nodup_cons] at hnodup
  have hne : ∀ k, k ∈ l₁ ∨ k ∈ l₂ → k.ptr ≠ n.ptr := by
    intro k hk heq
    refine hnodup.1 (heq ▸ ?_)
    rw [← List.map_append]
    exact List.mem_map_of_mem (List.mem_append.mpr hk)
  rw [users, heq, List.flatMap_append, List.flatMap_cons, List.countP_append, List.countP_append,
    hother l₁ fun k hk => hne k (Or.inl hk), hother l₂ fun k hk => hne k (Or.inr hk), List.countP_map]
  simp [Function.comp_def, List.count_eq_countP, List.countP_eq_length_filter]

end

end Code

namespace Module

/-! ### What the loops insert -/

section
variable {m : Module} {malloc : Code → Ptr} {base cur : Code} {pre post : Ptr → List Node} {n u : Node}
  {x f g : FuncId} {k : MpiFunction}

/-- The functions in question. -/
def setups : List MpiFunction := [.init, .initThread, .finalize]

/-- The code into which the calls are inserted. -/
structure Ready (m : Module) (base : Code) : Prop extends m.OnlyCalled base where
  ptrs : (base.nodes.map Node.ptr).Nodup
  plain : ∀ n ∈ base.nodes, m.isInserted n = false

theorem ne_inserted (hk : k ∈ setups) (hx : m.mpiFunc k = some x) :
    x ≠ m.optimizedInit.getD 0 ∧ x ≠ m.optimizedFinalize.getD 0 := by
  have huses : m.usesInit = true := by
    simp only [setups, List.mem_cons, List.not_mem_nil, or_false] at hk
    rcases hk with rfl | rfl | rfl <;> simp [usesInit, hx]
  obtain ⟨hinit, hfinalize⟩ := optimizedInit_isSome huses
  obtain ⟨y, hy⟩ := Option.isSome_iff_exists.mp hinit
  obtain ⟨z, hz⟩ := Option.isSome_iff_exists.mp hfinalize
  rw [hy, hz]
  constructor
  · rintro rfl
    exact mpiFunc_ne_constructed hx hy
  · rintro rfl
    exact mpiFunc_ne_constructed hx hz

/-- A call is a user once if the function is what it calls, and it is no other user. -/
theorem Ready.countP_callUsers (h : Ready m base) (hn : n ∈ base.nodes) (hk : k ∈ setups) :
    (callUsers base (m.mpiFunc k)).countP (·.ptr == n.ptr) = if n.op.calls (m.mpiFunc k) then 1 else 0 := by
  cases hx : m.mpiFunc k with
  | none =>
      have hno : n.op.calls none = false := by
        unfold Op.calls
        cases n.op.getCalledFunction <;> rfl
      rw [hno]
      rfl
  | some x =>
      have hsame : ∀ u ∈ base.users (.function x), ((u.ptr == n.ptr) && u.op.callBase.isSome) =
          ((u.ptr == n.ptr) && n.op.callBase.isSome) := by
        intro u hu
        by_cases hun : u.ptr = n.ptr
        · rw [List.inj_on_of_nodup_map h.ptrs (mem_users hu) hn hun]
        · rw [beq_eq_false_iff_ne.mpr hun, Bool.false_and, Bool.false_and]
      rw [callUsers, List.countP_filter, List.countP_congr fun u hu => by rw [hsame u hu]]
      cases hc : n.op.callBase with
      | none =>
          have hcalled : n.op.calls (some x) = false := by simp [Op.calls, Op.getCalledFunction, hc]
          simp [hcalled]
      | some c =>
          obtain ⟨callee, args⟩ := c
          have hargs : .function x ∉ args := h.args n hn callee args hc k hk x hx
          have hcalls : n.op.calls (some x) = (callee == .function x) := by
            unfold Op.calls Op.getCalledFunction
            rw [hc]
            cases callee <;> simp
          have hops : n.op.operands = callee :: args := by
            cases hop : n.op <;> simp_all [Op.callBase, Op.operands]
          have hcount := Code.countP_users (v := .function x) h.ptrs hn
          simp only [Option.isSome_some, Bool.and_true, hcount, hops, hcalls, List.count_cons,
            List.count_eq_zero_of_not_mem hargs, Nat.zero_add]

theorem surrounded_init (hmalloc : Fresh malloc) (us : List Node) : ∀ {cur post},
    Code.Surrounded g f base cur pre post → (∀ u ∈ us, u ∈ base.nodes ∧ u.op.isInvoke = false) →
      ∃ post', Code.Surrounded g f base (us.foldl (addInitTurn g malloc) cur) pre post' ∧
        ∀ p, (post' p).length = (post p).length + us.countP (·.ptr == p) := by
  induction us with
  | nil =>
      intro cur post h _
      exact ⟨post, h, fun p => rfl⟩
  | cons u rest ih =>
      intro cur post h hus
      obtain ⟨hu, hinv⟩ := hus u List.mem_cons_self
      have hturn : addInitTurn g malloc cur u = cur.insertAfter u.ptr (initCall g malloc cur) := by
        unfold addInitTurn
        split
        · rename_i hop
          rw [hop] at hinv
          cases hinv
        · rfl
      have hop : (initCall g malloc cur).op = .call (.function g) [] := rfl
      have hnext := h.insertAfter (List.mem_map_of_mem hu) hop (hmalloc cur)
      rw [← hturn] at hnext
      obtain ⟨post', h', hlen⟩ := ih hnext fun v hv => hus v (List.mem_cons_of_mem _ hv)
      refine ⟨post', h', fun p => ?_⟩
      rw [hlen, length_update rfl, List.countP_cons]
      simp only [beq_iff_eq]
      omega

theorem surrounded_finalize (hmalloc : Fresh malloc) (us : List Node) : ∀ {cur pre},
    Code.Surrounded g f base cur pre post → (∀ u ∈ us, u ∈ base.nodes) →
      ∃ pre', Code.Surrounded g f base (us.foldl (addFinalizeTurn f malloc) cur) pre' post ∧
        ∀ p, (pre' p).length = (pre p).length + us.countP (·.ptr == p) := by
  induction us with
  | nil =>
      intro cur pre h _
      exact ⟨pre, h, fun p => rfl⟩
  | cons u rest ih =>
      intro cur pre h hus
      have hu := hus u List.mem_cons_self
      have hop : (finalizeCall f malloc cur).op = .call (.function f) [] := rfl
      have hnext := h.insertBefore (List.mem_map_of_mem hu) hop (hmalloc cur)
      obtain ⟨pre', h', hlen⟩ := ih hnext fun v hv => hus v (List.mem_cons_of_mem _ hv)
      refine ⟨pre', h', fun p => ?_⟩
      rw [hlen, List.countP_cons]
      by_cases hp : p = u.ptr
      · subst hp
        simp only [Function.update_self, List.length_append, List.length_singleton, beq_self_eq_true, if_true]
        omega
      · rw [Function.update_of_ne hp, if_neg (by simpa using Ne.symm hp)]
        rfl

/-- One call behind each that sets MPI up, and one before each that takes it down. -/
theorem Ready.surrounded (h : Ready m base) (hmalloc : Fresh malloc) :
    ∃ pre post, Code.Surrounded (m.optimizedInit.getD 0) (m.optimizedFinalize.getD 0) base
        (m.getUsedMpiFunctions.addFinalize (m.optimizedFinalize.getD 0) malloc
          (m.getUsedMpiFunctions.addInit (m.optimizedInit.getD 0) malloc base).2).2 pre post ∧
      (∀ n ∈ base.nodes, (pre n.ptr).length = if n.op.calls (m.mpiFunc .finalize) then 1 else 0) ∧
        ∀ n ∈ base.nodes, (post n.ptr).length = if m.targetsInit n.op then 1 else 0 := by
  have husers : ∀ k ∈ [MpiFunction.init, .initThread], ∀ u ∈ callUsers base (m.mpiFunc k),
      u ∈ base.nodes ∧ u.op.isInvoke = false := by
    intro k hk u hu
    obtain ⟨hmem, hc⟩ := mem_callUsers hu
    have hsetup : k ∈ setups := by
      revert hk
      cases k <;> decide
    -- a user is counted, so it calls the function
    have hcalls : u.op.calls (m.mpiFunc k) = true := by
      by_contra hno
      have hzero := h.countP_callUsers hmem hsetup
      rw [if_neg hno, List.countP_eq_zero] at hzero
      exact hzero u hu (beq_self_eq_true _)
    refine ⟨hmem, h.invoke u hmem ?_⟩
    unfold Op.calls at hcalls
    cases hf : u.op.getCalledFunction with
    | none => simp [hf] at hcalls
    | some y =>
        simp only [hf, Option.any_some, beq_iff_eq] at hcalls
        simp only [List.mem_cons, List.not_mem_nil, or_false] at hk
        rcases hk with rfl | rfl <;> simp [targetsInit, hf, ← hcalls]
  have hsame : ∀ {cur pre post} {k : MpiFunction}, k ∈ setups →
      Code.Surrounded (m.optimizedInit.getD 0) (m.optimizedFinalize.getD 0) base cur pre post →
        callUsers cur (m.mpiFunc k) = callUsers base (m.mpiFunc k) := by
    intro cur pre post k hk hcur
    cases hx : m.mpiFunc k with
    | none => rfl
    | some x =>
        obtain ⟨hinit, hfinalize⟩ := ne_inserted hk hx
        rw [callUsers, hcur.users hinit hfinalize, callUsers]
  have hstart : Code.Surrounded (m.optimizedInit.getD 0) (m.optimizedFinalize.getD 0) base base (fun _ => [])
      fun _ => [] := Code.surrounded_start
  obtain ⟨post₁, h₁, hlen₁⟩ := surrounded_init hmalloc _ hstart (husers .init (by simp))
  obtain ⟨post₂, h₂, hlen₂⟩ := surrounded_init hmalloc _ h₁ (husers .initThread (by simp))
  obtain ⟨pre₃, h₃, hlen₃⟩ := surrounded_finalize hmalloc (callUsers base (m.mpiFunc .finalize)) h₂
    fun u hu => (mem_callUsers hu).1
  refine ⟨pre₃, post₂, ?_, fun n hn => ?_, fun n hn => ?_⟩
  · simp only [addFinalize, addInit, addInitLoop, mpiFunc_used]
    rw [hsame (k := .initThread) (by decide) h₁, hsame (k := .finalize) (by decide) h₂]
    exact h₃
  · rw [hlen₃, h.countP_callUsers hn (by decide), List.length_nil, Nat.zero_add]
  · rw [hlen₂, hlen₁, h.countP_callUsers hn (by decide), h.countP_callUsers hn (by decide), List.length_nil, Nat.zero_add]
    -- it calls one of the two
    have hone : ¬ (n.op.calls (m.mpiFunc .init) = true ∧ n.op.calls (m.mpiFunc .initThread) = true) := by
      rintro ⟨hi, ht⟩
      unfold Op.calls at hi ht
      cases hf : n.op.getCalledFunction with
      | none => simp [hf] at hi
      | some y =>
          simp only [hf, Option.any_some, beq_iff_eq] at hi ht
          exact absurd (mpiFunc_inj hi.symm ht.symm) (by decide)
    have heither : m.targetsInit n.op = (n.op.calls (m.mpiFunc .init) || n.op.calls (m.mpiFunc .initThread)) := by
      unfold targetsInit Op.calls
      cases n.op.getCalledFunction <;> simp
    rw [heither]
    cases hi : n.op.calls (m.mpiFunc .init) <;> cases ht : n.op.calls (m.mpiFunc .initThread) <;> simp_all

end

/-! ### The code after the insertions -/

section
variable {m : Module} {malloc : Code → Ptr} {base code : Code} {pre post : Ptr → List Node} {n k : Node}
  {f : FuncId} {last : Option Node}

theorem calls_call (hf : n.op = .call (.function f) []) (g : Option FuncId) : n.op.calls g = (some f == g) := by
  rw [hf]
  rfl

/-- Which function a call is to that sets MPI up. -/
theorem targetsInit_iff : m.targetsInit n.op = true ↔ ∃ k f, n.op.getCalledFunction = some f ∧
    m.mpiFunc k = some f ∧ (k = .init ∨ k = .initThread) := by
  unfold targetsInit
  cases n.op.getCalledFunction with
  | none => simp
  | some f =>
      simp only [Option.isSome_some, Bool.true_and, Bool.or_eq_true, beq_iff_eq]
      constructor
      · rintro (h | h)
        · exact ⟨.init, f, rfl, h.symm, Or.inl rfl⟩
        · exact ⟨.initThread, f, rfl, h.symm, Or.inr rfl⟩
      · rintro ⟨k, g, hg, hk, rfl | rfl⟩
        · exact Or.inl (hg.trans hk.symm)
        · exact Or.inr (hg.trans hk.symm)

theorem beside_idle (hinit : m.targetsInit n.op = false) (hfinalize : n.op.calls m.optimizedFinalize = false) :
    Idle m.Beside (some n) := by
  intro k
  simp [Beside, hinit, hfinalize]

/-- An inserted call sets up nothing of MPI. -/
theorem targetsInit_inserted (h : m.isInserted n = true) : m.targetsInit n.op = false := by
  by_contra hno
  obtain ⟨f, hf, hcon⟩ := isInserted_iff.mp h
  obtain ⟨k, g, hg, hk, -⟩ := targetsInit_iff.mp (by simpa using hno)
  obtain rfl : f = g := Option.some.inj (hf.symm.trans hg)
  rcases hcon with hcon | hcon <;> exact mpiFunc_ne_constructed hk hcon

theorem calls_inserted (h : m.isInserted n = true) (j : MpiFunction) : n.op.calls (m.mpiFunc j) = false := by
  obtain ⟨f, hf, hcon⟩ := isInserted_iff.mp h
  rw [Op.calls, hf, Option.any_some, beq_eq_false_iff_ne]
  intro hj
  rcases hcon with hcon | hcon <;> exact mpiFunc_ne_constructed hj.symm hcon

theorem calls_plain (h : m.isInserted n = false) :
    n.op.calls m.optimizedInit = false ∧ n.op.calls m.optimizedFinalize = false := by
  unfold isInserted at h
  unfold Op.calls
  cases hf : n.op.getCalledFunction with
  | none => exact ⟨rfl, rfl⟩
  | some f =>
      rw [hf, Option.any_some, Bool.or_eq_false_iff] at h
      exact h

/-- The two functions that are constructed differ. -/
theorem optimizedInit_ne (h : m.optimizedInit = some f) : m.optimizedFinalize ≠ some f := by
  intro h'
  exact absurd (constructedFunc_inj h h') (by decide)

/-- An instruction of the program with what stands beside it leaves nothing open. -/
theorem Ready.around (h : Ready m base) {cur : Code} (hs : Code.Surrounded (m.optimizedInit.getD 0)
      (m.optimizedFinalize.getD 0) base cur pre post) (hn : n ∈ base.nodes)
    (hpre : (pre n.ptr).length = if n.op.calls (m.mpiFunc .finalize) then 1 else 0)
    (hpost : (post n.ptr).length = if m.targetsInit n.op then 1 else 0) (hlast : Idle m.Beside last) :
    Consecutive m.Beside last (pre n.ptr ++ n :: post n.ptr) ∧
      Idle m.Beside ((pre n.ptr ++ n :: post n.ptr).getLast?.or last) := by
  obtain ⟨hnoinit, hnofinalize⟩ := calls_plain (h.plain n hn)
  have hfirst : ∀ x, m.Beside last x ↔ x.op.calls m.optimizedInit = false ∧ x.op.calls (m.mpiFunc .finalize) = false := by
    intro x
    rw [hlast x, Beside, Option.any_none, Option.any_none]
    exact and_congr eq_comm eq_comm
  cases hfin : n.op.calls (m.mpiFunc .finalize) with
  | true =>
      -- the call before it
      rw [hfin, if_pos rfl] at hpre
      obtain ⟨j, hj⟩ := List.length_eq_one_iff.mp hpre
      obtain ⟨y, hy⟩ : ∃ y, n.op.getCalledFunction = some y := by
        unfold Op.calls at hfin
        cases hf : n.op.getCalledFunction with
        | none => simp [hf] at hfin
        | some y => exact ⟨y, rfl⟩
      have hfun : m.mpiFunc .finalize = some y := by
        rw [Op.calls, hy, Option.any_some, beq_iff_eq] at hfin
        exact hfin.symm
      have htargets : m.targetsInit n.op = false := by
        by_contra hno
        obtain ⟨k, z, hz, hk, hor⟩ := targetsInit_iff.mp (by simpa using hno)
        obtain rfl : y = z := Option.some.inj (hy.symm.trans hz)
        obtain rfl := mpiFunc_inj hfun hk
        rcases hor with hor | hor <;> cases hor
      rw [htargets, if_neg Bool.false_ne_true, List.length_eq_zero_iff] at hpost
      obtain ⟨z, hz⟩ := Option.isSome_iff_exists.mp
        (optimizedInit_isSome (m := m) (by simp [usesInit, hfun])).2
      have hop : j.op = .call (.function z) [] := by
        rw [(hs.before n.ptr j (hj ▸ List.mem_singleton_self _)).1, hz]
        rfl
      have hins := isInserted_call (Or.inr hz) hop
      have hjinit : j.op.calls m.optimizedInit = false := by
        rw [calls_call hop, beq_eq_false_iff_ne]
        exact fun heq => optimizedInit_ne heq.symm hz
      have hjfin : j.op.calls m.optimizedFinalize = true := by
        rw [calls_call hop, hz]
        exact beq_self_eq_true _
      rw [hj, hpost]
      refine ⟨⟨(hfirst j).mpr ⟨hjinit, calls_inserted hins _⟩, ⟨?_, ?_⟩, trivial⟩,
        beside_idle htargets hnofinalize⟩
      · rw [Option.any_some, targetsInit_inserted hins, hnoinit]
      · rw [Option.any_some, hjfin, hfin]
  | false =>
      rw [hfin, if_neg Bool.false_ne_true, List.length_eq_zero_iff] at hpre
      rw [hpre, List.nil_append]
      have hok := (hfirst n).mpr ⟨hnoinit, hfin⟩
      cases htargets : m.targetsInit n.op with
      | false =>
          rw [htargets, if_neg Bool.false_ne_true, List.length_eq_zero_iff] at hpost
          rw [hpost]
          exact ⟨⟨hok, trivial⟩, beside_idle htargets hnofinalize⟩
      | true =>
          -- the call behind it
          rw [htargets, if_pos rfl] at hpost
          obtain ⟨j, hj⟩ := List.length_eq_one_iff.mp hpost
          have huses : m.usesInit = true := by
            obtain ⟨k, y, -, hk, rfl | rfl⟩ := targetsInit_iff.mp htargets <;> simp [usesInit, hk]
          obtain ⟨z, hz⟩ := Option.isSome_iff_exists.mp (optimizedInit_isSome huses).1
          have hop : j.op = .call (.function z) [] := by
            rw [(hs.behind n.ptr j (hj ▸ List.mem_singleton_self _)).1, hz]
            rfl
          have hins := isInserted_call (Or.inl hz) hop
          have hjinit : j.op.calls m.optimizedInit = true := by
            rw [calls_call hop, hz]
            exact beq_self_eq_true _
          have hjfin : j.op.calls m.optimizedFinalize = false := by
            rw [calls_call hop, beq_eq_false_iff_ne]
            exact fun heq => optimizedInit_ne hz heq.symm
          rw [hj]
          refine ⟨⟨hok, ⟨?_, ?_⟩, trivial⟩, beside_idle (targetsInit_inserted hins) hjfin⟩
          · rw [Option.any_some, htargets, hjinit]
          · rw [Option.any_some, hnofinalize, calls_inserted hins]

theorem Ready.block (h : Ready m base) {cur : Code} (hs : Code.Surrounded (m.optimizedInit.getD 0)
      (m.optimizedFinalize.getD 0) base cur pre post)
    (hpre : ∀ n ∈ base.nodes, (pre n.ptr).length = if n.op.calls (m.mpiFunc .finalize) then 1 else 0)
    (hpost : ∀ n ∈ base.nodes, (post n.ptr).length = if m.targetsInit n.op then 1 else 0) (ns : List Node) :
    ∀ {last}, Idle m.Beside last → (∀ n ∈ ns, n ∈ base.nodes) →
      Consecutive m.Beside last (ns.flatMap fun n => pre n.ptr ++ n :: post n.ptr) := by
  induction ns with
  | nil =>
      intro last _ _
      trivial
  | cons n rest ih =>
      intro last hlast hns
      have hn := hns n List.mem_cons_self
      obtain ⟨hfits, hidle⟩ := h.around hs hn (hpre n hn) (hpost n hn) hlast
      rw [List.flatMap_cons]
      exact consecutive_append.mpr ⟨hfits, ih hidle fun k hk => hns k (List.mem_cons_of_mem _ hk)⟩

/-- The inserted calls are where they should be, in every block. -/
theorem Ready.fitting (h : Ready m base) (hmalloc : Fresh malloc) (hof : code.Of m) (hnew : m.Pristine)
    (hfunctions : base.map Block.function = code.map Block.function)
    (hgrown : Grown m base (m.getUsedMpiFunctions.addFinalize (m.optimizedFinalize.getD 0) malloc
      (m.getUsedMpiFunctions.addInit (m.optimizedInit.getD 0) malloc base).2).2) :
    Code.Fitting m.getUsedMpiFunctions m.Beside
      (m.getUsedMpiFunctions.addFinalize (m.optimizedFinalize.getD 0) malloc
        (m.getUsedMpiFunctions.addInit (m.optimizedInit.getD 0) malloc base).2).2 := by
  obtain ⟨pre, post, hs, hpre, hpost⟩ := h.surrounded hmalloc
  generalize (m.getUsedMpiFunctions.addFinalize (m.optimizedFinalize.getD 0) malloc
    (m.getUsedMpiFunctions.addInit (m.optimizedInit.getD 0) malloc base).2).2 = cur at hs hgrown ⊢
  have hsame : cur.map Block.function = code.map Block.function := by
    rw [hs.code, Code.function_mapNodes, hfunctions]
  refine ⟨fun b hb => ?_, fun n hn => ?_⟩
  · rw [hs.code] at hb
    obtain ⟨b, hbase, rfl⟩ := List.mem_map.mp hb
    exact h.block hs hpre hpost b.nodes Code.idle_none fun n hn => Code.mem_nodes hbase hn
  · rw [Code.entered_congr hsame]
    cases hins : m.isInserted n with
    | true =>
        obtain ⟨g, hop⟩ := hgrown.calls n hn hins
        obtain ⟨f, hcalled, hf⟩ := isInserted_iff.mp hins
        obtain ⟨hle, hmpi⟩ := inserted_new hnew hf
        exact Or.inr ⟨hcalled ▸ hmpi, entered_new m hof hle hcalled, by rw [hop]; rfl⟩
    | false =>
        have hbase : n ∈ base.nodes := by
          rw [← hgrown.erase]
          obtain ⟨b, hb, hnb⟩ := List.mem_flatMap.mp hn
          exact List.mem_flatMap.mpr ⟨_, List.mem_map_of_mem hb, List.mem_filter.mpr ⟨hnb, by simp [hins]⟩⟩
        cases htargets : m.targetsInit n.op with
        | false => exact Or.inl (beside_idle htargets (calls_plain hins).2)
        | true =>
            obtain ⟨k, f, hcalled, hk, -⟩ := targetsInit_iff.mp htargets
            refine Or.inr ⟨hcalled ▸ isMpi_mpiFunc ((mpiFunc_used k).trans hk), ?_, h.invoke n hbase htargets⟩
            rw [Code.entered, hcalled, Option.filter_eq_none_iff]
            intro g hg
            obtain rfl : f = g := Option.some.inj hg
            simp only [List.any_eq_true, beq_iff_eq, not_exists, not_and]
            intro b hb heq
            exact hof.external b hb k (heq ▸ hk)

end

/-! ### The whole pass -/

section
variable {m : Module} {build : Build} {malloc : Code → Ptr} {sendConflict recvConflict : Ptr → Bool}
  {code code' replaced : Code} {changed : Bool} {address : Ptr → Ptr} {calls : List Ptr} {n : Node} {f : FuncId}
  {k : MpiFunction} {trace : List Node} {outcome : Option Exit}

theorem calls_iff {op : Op} : op.calls (some f) = true ↔ op.getCalledFunction = some f := by
  unfold Op.calls
  cases op.getCalledFunction <;> simp

theorem calls_eq_true {op : Op} {g : Option FuncId} (h : op.calls g = true) :
    ∃ f, g = some f ∧ op.getCalledFunction = some f := by
  unfold Op.calls at h
  cases hf : op.getCalledFunction with
  | none => simp [hf] at h
  | some f =>
      rw [hf, Option.any_some, beq_iff_eq] at h
      exact ⟨f, h.symm, rfl⟩

theorem usesRuntime_iff : m.usesRuntime n = true ↔
    ∃ k f, k ∈ replaceable ∧ m.optimized k = some f ∧ n.op.getCalledFunction = some f := by
  rw [usesRuntime, List.any_eq_true]
  constructor
  · rintro ⟨k, hk, hcalls⟩
    obtain ⟨f, hf, hcalled⟩ := calls_eq_true hcalls
    exact ⟨k, f, hk, hf, hcalled⟩
  · rintro ⟨k, f, hk, hf, hcalled⟩
    exact ⟨k, hk, hf ▸ calls_iff.mpr hcalled⟩

/-- A call that is replaced is to one of the functions that have a version in the runtime. -/
theorem usesMpi_of_replaceable (hc : n.op.callBase.isSome = true) (hr : m.getUsedMpiFunctions.Replaces calls n)
    (hcon : ((m.getUsedMpiFunctions.replaceableCall n.op).bind m.optimized).isSome = true) : m.usesMpi n = true := by
  obtain ⟨k, hk⟩ := Option.isSome_iff_exists.mp hr.2
  have hmem : k ∈ replaceable := List.mem_of_find?_eq_some hk
  have hfound := List.find?_some hk
  rw [mpiFunc_used, beq_iff_eq] at hfound
  obtain ⟨-, -, g, -, hg, -⟩ := called_replaced id hc hr hcon
  rw [usesMpi, List.any_eq_true]
  refine ⟨k, hmem, ?_⟩
  rw [← hfound, hg]
  exact calls_iff.mpr hg

/-- Of the functions of MPI, a call that takes the place of another one is to none. -/
theorem called_mpi (hk : m.mpiFunc k = some f)
    (hisCall : m.getUsedMpiFunctions.Replaces calls n → n.op.callBase.isSome = true)
    (hcon : m.getUsedMpiFunctions.Replaces calls n →
      ((m.getUsedMpiFunctions.replaceableCall n.op).bind m.optimized).isSome = true)
    (hcalled : (m.getUsedMpiFunctions.expected m.optimized calls address n).op.getCalledFunction = some f) :
    ¬ m.getUsedMpiFunctions.Replaces calls n := by
  intro hr
  obtain ⟨j, g, -, -, -, hg, hcalled'⟩ := called_replaced address (hisCall hr) hr (hcon hr)
  obtain rfl := Option.some.inj (hcalled.symm.trans hcalled')
  exact mpiFunc_ne_optimized hk hg

/-- A call that is replaced is to none that sets MPI up or takes it down. -/
theorem not_replaces (hk : k ∈ setups) (hf : m.mpiFunc k = some f) (hcalled : n.op.getCalledFunction = some f) :
    ¬ m.getUsedMpiFunctions.Replaces calls n := by
  rintro ⟨-, hsome⟩
  obtain ⟨j, hj⟩ := Option.isSome_iff_exists.mp hsome
  have hmem : j ∈ replaceable := List.mem_of_find?_eq_some hj
  have hfound := List.find?_some hj
  rw [mpiFunc_used, hcalled, beq_iff_eq] at hfound
  obtain rfl := mpiFunc_inj hf hfound.symm
  revert hmem hk
  cases k <;> decide

theorem ready_replaced (hwf : code.WellFormed) (hof : code.Of m) (hnew : m.Pristine) (honly : m.OnlyCalled code)
    (hI : m.getUsedMpiFunctions.Image m.optimized calls code replaced address)
    (hcalls : ∀ p ∈ calls, IsCallPtr code p) : Ready m replaced := by
  have hisCall : ∀ n ∈ code.nodes, m.getUsedMpiFunctions.Replaces calls n → n.op.callBase.isSome = true := by
    intro n hn hr
    obtain ⟨k, hk, hptr, hc⟩ := hcalls n.ptr hr.1
    obtain rfl : k = n := eq_of_ptr hwf hk hn hptr
    exact hc
  have hnodes : replaced.nodes =
      code.nodes.map (m.getUsedMpiFunctions.expected m.optimized calls address) := by
    rw [hI.code_eq, Code.nodes_mapNodes_map]
  have hsource : ∀ n ∈ replaced.nodes, ∃ n₀ ∈ code.nodes,
      n = m.getUsedMpiFunctions.expected m.optimized calls address n₀ := by
    intro n hn
    rw [hnodes] at hn
    obtain ⟨n₀, hn₀, heq⟩ := List.mem_map.mp hn
    exact ⟨n₀, hn₀, heq.symm⟩
  refine ⟨⟨fun n hn callee args hc k hk f hf hmem => ?_, fun n hn htargets => ?_⟩, ?_, fun n hn => ?_⟩
  · obtain ⟨n₀, hn₀, rfl⟩ := hsource n hn
    -- the arguments are those of the program
    have hargs : ∀ callee₀ args₀, n₀.op.callBase = some (callee₀, args₀) →
        .function f ∉ args₀.map (Moved address) := by
      intro callee₀ args₀ hc₀ hmem₀
      obtain ⟨v, hv, heq⟩ := List.mem_map.mp hmem₀
      have hvf : v = .function f := by
        cases v with
        | inst p => cases heq
        | function g | other i => exact heq
      exact honly.args n₀ hn₀ callee₀ args₀ hc₀ k hk f hf (hvf ▸ hv)
    by_cases hr : m.getUsedMpiFunctions.Replaces calls n₀
    · obtain ⟨j, g, callee₀, args₀, -, -, -, hc₀, hrep⟩ :=
        replacement_eq (hisCall n₀ hn₀ hr) hr (hI.constructed n₀ hn₀ hr)
      rw [expected, if_pos hr, hrep] at hc
      simp only [Op.mapOperands, Op.callBase, Option.some.injEq, Prod.mk.injEq] at hc
      exact hargs callee₀ args₀ hc₀ (hc.2 ▸ hmem)
    · rw [expected, if_neg hr, Op.callBase_mapOperands] at hc
      obtain ⟨⟨callee₀, args₀⟩, hc₀, heq⟩ := Option.map_eq_some_iff.mp hc
      obtain ⟨-, rfl⟩ := Prod.mk.inj heq
      exact hargs callee₀ args₀ hc₀ hmem
  · obtain ⟨n₀, hn₀, rfl⟩ := hsource n hn
    obtain ⟨k, f, hcalled, hk, hor⟩ := targetsInit_iff.mp htargets
    have hr := called_mpi hk (hisCall n₀ hn₀) (hI.constructed n₀ hn₀) hcalled
    rw [called_expected hr] at hcalled
    have hno := honly.invoke n₀ hn₀ (targetsInit_iff.mpr ⟨k, f, hcalled, hk, hor⟩)
    rw [expected, if_neg hr]
    cases hop : n₀.op <;> simp_all [Op.mapOperands, Op.isInvoke]
  · rw [hnodes, List.map_map]
    have hmap : (Node.ptr ∘ m.getUsedMpiFunctions.expected m.optimized calls address) = address ∘ Node.ptr := rfl
    rw [hmap, ← List.map_map]
    exact List.Nodup.map_on (fun p hp q hq heq => hI.injective p q hp hq heq) hwf.ptrs
  · obtain ⟨n₀, hn₀, rfl⟩ := hsource n hn
    exact isInserted_expected hof hnew hwf hI hcalls hn₀

/--
**The runtime is set up right after MPI, and taken down right before it**, in every execution of
what the pass makes of the program.
-/
theorem runOnModule_beside (hwf : code.WellFormed) (hof : code.Of m) (hnew : m.Pristine) (hmalloc : Fresh malloc)
    (honly : m.OnlyCalled code)
    (h : m.runOnModule build malloc sendConflict recvConflict code = some (changed, code'))
    (hr : Code.Runs m.getUsedMpiFunctions code' f trace outcome) : Consecutive m.Beside none trace := by
  obtain ⟨replaced, address, hI, hcalls, rfl⟩ := runOnModule_image hwf hmalloc h
  have hready := ready_replaced hwf hof hnew honly hI hcalls
  have hgrown := ((Grown.start hready.plain).addInit malloc).addFinalize malloc
  have hfunctions : replaced.map Block.function = code.map Block.function := by
    rw [hI.code_eq, Code.function_mapNodes]
  exact (hready.fitting hmalloc hof hnew hfunctions hgrown).runs hr

/--
**An execution that uses MPI between `MPI_Init` and `MPI_Finalize` becomes one that uses the runtime
between `MPIOPT_INIT` and `MPIOPT_FINALIZE`.**
-/
theorem runOnModule_lifecycle (hwf : code.WellFormed) (hof : code.Of m) (hnew : m.Pristine) (hmalloc : Fresh malloc)
    (honly : m.OnlyCalled code)
    (h : m.runOnModule build malloc sendConflict recvConflict code = some (changed, code'))
    (hinv : ∀ n ∈ code.nodes,
      m.getUsedMpiFunctions.Replaces (m.rewritten build sendConflict recvConflict code) n → n.op.isInvoke = false) :
    ∃ address, ∀ f trace' outcome, Code.Runs m.getUsedMpiFunctions code' f trace' outcome →
      ∃ trace, Code.Runs m.getUsedMpiFunctions code f trace outcome ∧
        trace'.filter (fun n => !m.isInserted n) = trace.map (m.getUsedMpiFunctions.expected m.optimized
          (m.rewritten build sendConflict recvConflict code) address) ∧
        (m.InMpi trace → m.InRuntime trace') := by
  obtain ⟨address, hsame⟩ := runOnModule_sameRuns hwf hof hnew hmalloc h hinv
  obtain ⟨replaced, address₀, hI, hcalls, -⟩ := runOnModule_image hwf hmalloc h
  refine ⟨address, fun f trace' outcome hr => ?_⟩
  obtain ⟨trace, ht, hmap⟩ := hsame.forth f trace' outcome hr
  have hisCall : ∀ n ∈ code.nodes, m.getUsedMpiFunctions.Replaces (m.rewritten build sendConflict recvConflict code) n →
      n.op.callBase.isSome = true := by
    intro n hn hr
    obtain ⟨k, hk, hptr, hc⟩ := hcalls n.ptr hr.1
    obtain rfl : k = n := eq_of_ptr hwf hk hn hptr
    exact hc
  have hmpi : ∀ x ∈ trace, ∀ k f, m.mpiFunc k = some f →
      (m.getUsedMpiFunctions.expected m.optimized (m.rewritten build sendConflict recvConflict code) address
        x).op.getCalledFunction = some f → x.op.getCalledFunction = some f := by
    intro x hx k f hf hcalled
    have hx := ht.mem hx
    have hno := called_mpi hf (hisCall x hx) (hI.constructed x hx) hcalled
    rwa [called_expected hno] at hcalled
  refine ⟨trace, ht, hmap, fun hin => hin.map hmap (runOnModule_beside hwf hof hnew hmalloc honly h hr) ?_ ?_ ?_ ?_⟩
  · -- no inserted call uses the runtime
    intro y hy
    by_contra hno
    obtain ⟨f, hf, hins⟩ := isInserted_iff.mp (by simpa using hno)
    obtain ⟨k, g, -, hg, hcalled⟩ := usesRuntime_iff.mp hy
    obtain rfl := Option.some.inj (hf.symm.trans hcalled)
    exact optimized_ne hins k hg
  · -- the program has only such calls that were replaced
    intro x hx hy
    have hx := ht.mem hx
    obtain ⟨k, g, hk, hg, hcalled⟩ := usesRuntime_iff.mp hy
    by_cases hr : m.getUsedMpiFunctions.Replaces (m.rewritten build sendConflict recvConflict code) x
    · exact usesMpi_of_replaceable (hisCall x hx hr) hr (hI.constructed x hx hr)
    · rw [called_expected hr] at hcalled
      obtain ⟨name, -, hcon⟩ := optimized_eq hg
      have hlt := hof.operands x hx g (called_mem hcalled)
      have hle := constructedFunc_new hnew hcon
      omega
  · intro x hx y hy htargets
    obtain ⟨k, f, hcalled, hk, hor⟩ := targetsInit_iff.mp htargets
    have hno : ¬ m.getUsedMpiFunctions.Replaces (m.rewritten build sendConflict recvConflict code) x :=
      not_replaces (by rcases hor with rfl | rfl <;> decide) hk hcalled
    have hinit := hy.1
    rw [Option.any_some, targetsInit_iff.mpr ⟨k, f, (called_expected hno).trans hcalled, hk, hor⟩] at hinit
    refine ⟨hinit.symm, ?_⟩
    by_contra huse
    obtain ⟨j, g, -, hg, hcalledy⟩ := usesRuntime_iff.mp (by simpa using huse)
    obtain ⟨z, hz, hzy⟩ := calls_eq_true hinit.symm
    obtain rfl := Option.some.inj (hcalledy.symm.trans hzy)
    exact optimized_ne (Or.inl hz) j hg
  · intro y z hyz hend
    have hfin := hyz.2
    rw [Option.any_some, hend] at hfin
    obtain ⟨f, hf, hz⟩ := calls_eq_true hfin.symm
    refine ⟨?_, ?_, fun x hx heq => ?_⟩
    · rw [Bool.not_eq_true']
      by_contra hins
      have hno := calls_inserted (by simpa using hins) .finalize
      rw [← hfin] at hno
      cases hno
    · by_contra huse
      obtain ⟨j, g, -, hg, hcalled⟩ := usesRuntime_iff.mp (by simpa using huse)
      obtain rfl := Option.some.inj (hcalled.symm.trans hz)
      exact mpiFunc_ne_optimized hf hg
    · rw [hf]
      exact calls_iff.mpr (hmpi x hx .finalize f hf (heq ▸ hz))

end

/-! ### The program with persistent requests -/

theorem persistentCode_onlyCalled : persistentModule.OnlyCalled (persistentCode 2) := by
  refine ⟨?_, by decide⟩
  have hall : ∀ n ∈ (persistentCode 2).nodes, ∀ c ∈ n.op.callBase, ∀ k ∈ setups,
      ∀ f ∈ persistentModule.mpiFunc k, .function f ∉ c.2 := by
    decide +kernel
  intro n hn callee args hc k hk f hf
  exact hall n hn (callee, args) hc k hk f hf

/-- A step at which no function of MPI throws. -/
def comesBack (m : Module) (x : Code.Run) (c : Procedures.Choice) : Bool :=
  match x.stack, c with
  | (_, .at (n :: _)) :: _, .goes i => i == 0 || !m.isMpiFunction n.op.getCalledFunction
  | _, _ => true

theorem meets_of_comesBack {m : Module} {x : Code.Run} {c : Procedures.Choice} (h : comesBack m x c = true) :
    Procedures.Meets m.NoThrow x c := by
  rintro f ns rest i hx rfl n hn hmpi
  cases ns with
  | nil => cases hn
  | cons k ns =>
      obtain rfl : k = n := Option.some.inj hn
      simpa [comesBack, hx, hmpi] using h

/-- Function `0` is called. -/
def runStart (code : Code) : Code.Run := ⟨[(0, .at (code.entryNodes 0))], []⟩

theorem persistentCode_beside :
    match persistentRun 2 with
    | some (_, code') =>
        match runFrom (guarded (comesBack persistentModule.getUsedMpiFunctions) (code'.procedures.exec Code.visible))
          (runStart code') (handleActs.map HandleAct.choice) with
        | some x => Consecutive persistentModule.Beside none x.trace ∧
            x.trace.map Node.ptr = [0, 1, 2, 3, 28, 20, 21, 6, 7] ++ [22, 23, 10, 24, 25, 13, 14] ++
              [22, 23, 10, 24, 25, 13, 14] ++ [26, 27, 17, 29, 18, 19]
        | none => False
    | none => False := by
  have hrun : (persistentRun 2).any (fun y => (runFrom
      (guarded (comesBack persistentModule.getUsedMpiFunctions) (y.2.procedures.exec Code.visible)) (runStart y.2)
      (handleActs.map HandleAct.choice)).any fun x => decide (x.trace.map Node.ptr =
        [0, 1, 2, 3, 28, 20, 21, 6, 7] ++ [22, 23, 10, 24, 25, 13, 14] ++ [22, 23, 10, 24, 25, 13, 14] ++
          [26, 27, 17, 29, 18, 19])) = true := by
    decide +kernel
  cases h : persistentRun 2 with
  | none => simp [h] at hrun
  | some y =>
      obtain ⟨changed, code'⟩ := y
      rw [h, Option.any_some] at hrun
      simp only
      cases hx : runFrom (guarded (comesBack persistentModule.getUsedMpiFunctions)
          (code'.procedures.exec Code.visible)) (runStart code') (handleActs.map HandleAct.choice) with
      | none => simp [hx] at hrun
      | some x =>
          simp only [hx, Option.any_some, decide_eq_true_eq] at hrun
          have hstart : code'.procedures.Begins 0 (runStart code') := ⟨rfl, rfl⟩
          have hreach := Reach.of_guarded (fun _ _ hok => meets_of_comesBack hok) _ (.init hstart) hx
          have hruns : Code.Runs persistentModule.getUsedMpiFunctions code' 0 x.trace x.outcome := ⟨x, hreach, rfl, rfl⟩
          exact ⟨runOnModule_beside (Code.wellFormed_of_check (by decide)) (persistentCode_of 2)
            persistentModule_pristine fresh_nextPtr persistentCode_onlyCalled h hruns, hrun⟩

theorem persistentCode_lifecycle :
    match persistentRun 2 with
    | some (_, code') => ∃ address, ∀ f trace' outcome,
        Code.Runs persistentModule.getUsedMpiFunctions code' f trace' outcome →
          ∃ trace, Code.Runs persistentModule.getUsedMpiFunctions (persistentCode 2) f trace outcome ∧
            trace'.filter (fun n => !persistentModule.isInserted n) =
              trace.map (persistentModule.getUsedMpiFunctions.expected persistentModule.optimized
                (persistentModule.rewritten .debug (· == 6) (fun _ => false) (persistentCode 2)) address) ∧
            (persistentModule.InMpi trace → persistentModule.InRuntime trace')
    | none => False := by
  have hrun : (persistentRun 2).isSome = true := by decide
  cases h : persistentRun 2 with
  | none => simp [h] at hrun
  | some x =>
      obtain ⟨changed, code'⟩ := x
      exact runOnModule_lifecycle (Code.wellFormed_of_check (by decide)) (persistentCode_of 2)
        persistentModule_pristine fresh_nextPtr persistentCode_onlyCalled h (by decide)

end Module

end CompMatch.Pass

/-
What replacing the calls of a request leaves.

Every turn of the loop puts one new call in the place of an old one and moves the uses of
its result, so after any number of turns the code is the old one seen through a map of
addresses (`Image`).  That says everything but where the blocks end: a call does not end a
block, so a block that an `invoke` ended is left open.  The blocks are whole exactly if no
`invoke` was replaced.
-/
import CompMatch.Pass.Replacement

namespace CompMatch.Pass

/-! ### Operands -/

namespace Op

variable {g h : Operand → Operand} {op : Op}

theorem mapOperands_congr (hgh : ∀ v ∈ op.operands, g v = h v) :
    op.mapOperands g = op.mapOperands h := by
  cases op with
  | bitCast v => simp only [mapOperands, hgh v (by simp [operands])]
  | unreachable => rfl
  | call callee args | invoke callee args normal unwind =>
      have hcallee : g callee = h callee := hgh callee (by simp [operands])
      have hargs : args.map g = args.map h :=
        List.map_congr_left fun v hv => hgh v (by simp [operands, hv])
      simp only [mapOperands, hcallee, hargs]
  | phi vs | other vs | br vs dests | ret vs | resume vs =>
      have hvs : vs.map g = vs.map h := List.map_congr_left hgh
      simp only [mapOperands, hvs]

theorem mapOperands_mapOperands :
    (op.mapOperands g).mapOperands h = op.mapOperands fun v => h (g v) := by
  cases op <;> simp [mapOperands, Function.comp_def]

@[simp] theorem isTerminator_mapOperands : (op.mapOperands g).isTerminator = op.isTerminator := by
  cases op <;> rfl

@[simp] theorem successors_mapOperands : (op.mapOperands g).successors = op.successors := by
  cases op <;> rfl

@[simp] theorem callBase_mapOperands :
    (op.mapOperands g).callBase = op.callBase.map fun (callee, args) => (g callee, args.map g) := by
  cases op <;> rfl

end Op

theorem mem_operands_of_callBase {op : Op} {callee v : Operand} {args : List Operand}
    (hc : op.callBase = some (callee, args)) (hv : v ∈ args) : v ∈ op.operands := by
  cases op <;> simp only [Op.callBase, reduceCtorEq, Option.some.injEq, Prod.mk.injEq] at hc
  all_goals
    obtain ⟨-, rfl⟩ := hc
    exact List.mem_cons_of_mem _ hv

namespace Module

variable {m : Module} {optimized : MpiFunction → Option FuncId} {build : Build}
  {malloc : Code → Ptr} {address : Ptr → Ptr} {op : Op}

theorem getCalledFunction_moved :
    (op.mapOperands (Moved address)).getCalledFunction = op.getCalledFunction := by
  unfold Op.getCalledFunction
  rw [Op.callBase_mapOperands]
  cases hc : op.callBase with
  | none => rfl
  | some c =>
      obtain ⟨callee, args⟩ := c
      cases callee <;> rfl

theorem replaceableCall_moved :
    m.replaceableCall (op.mapOperands (Moved address)) = m.replaceableCall op := by
  simp only [replaceableCall, getCalledFunction_moved]

/-- A replaced call has no operands but those of the old one. -/
theorem operands_replacement {v : Operand} (hv : v ∈ (m.replacement optimized op).operands) :
    v ∈ op.operands ∨ ∃ f, v = .function f := by
  unfold replacement at hv
  split at hv
  · rename_i f callee args hf hc
    simp only [Op.operands, List.mem_cons] at hv
    rcases hv with rfl | hv
    · exact Or.inr ⟨f, rfl⟩
    · exact Or.inl (mem_operands_of_callBase hc hv)
  · exact Or.inl hv

end Module

/-! ### One instruction in the place of another -/

namespace Code

variable {old : Ptr} {new : Node} {code : Code} {g h : List Node → List Node}

theorem mapNodes_mapNodes : (code.mapNodes g).mapNodes h = code.mapNodes fun ns => h (g ns) := by
  simp only [mapNodes, List.map_map]
  rfl

theorem mapNodes_congr (hgh : ∀ b ∈ code, g b.nodes = h b.nodes) : code.mapNodes g = code.mapNodes h :=
  List.map_congr_left fun b hb => by rw [hgh b hb]

theorem nodes_mapNodes_map {e : Node → Node} :
    (code.mapNodes (·.map e)).nodes = code.nodes.map e := by
  simp only [nodes, mapNodes, List.flatMap_map, List.map_flatMap]

theorem mem_nodes {b : Block} {n : Node} (hb : b ∈ code) (hn : n ∈ b.nodes) : n ∈ code.nodes :=
  List.mem_flatMap.mpr ⟨b, hb, hn⟩

theorem node_eq_some {n : Node} {p : Ptr} (h : code.node p = some n) : n ∈ code.nodes ∧ n.ptr = p := by
  refine ⟨List.mem_of_find?_eq_some h, ?_⟩
  simpa using List.find?_some h

/-- An instruction after the uses of `old` were moved to `new`. -/
def rewire (old new : Ptr) (n : Node) : Node :=
  { n with op := n.op.mapOperands fun v => if v = .inst old then .inst new else v }

/-- The test whether the code is as LLVM guarantees. -/
def wellFormedCheck (code : Code) : Bool :=
  decide (code.nodes.map Node.ptr).Nodup &&
    (code.nodes.all fun n => n.op.operands.all fun
      | .inst p => decide (p ∈ code.nodes.map Node.ptr)
      | _ => true) &&
    (code.all fun b => match b.nodes.reverse with
      | last :: front => last.op.isTerminator && front.all fun n => !n.op.isTerminator
      | [] => false) &&
    code.nodes.all fun n => n.op.successors.all fun b => match code[b]? with
      | some blk => decide (code.findIdx? (·.function == blk.function) ≠ some b)
      | none => true

theorem wellFormed_of_check (h : code.wellFormedCheck = true) : code.WellFormed := by
  simp only [wellFormedCheck, Bool.and_eq_true, decide_eq_true_eq, List.all_eq_true] at h
  obtain ⟨⟨⟨hptrs, hdefined⟩, hends⟩, hentries⟩ := h
  refine ⟨hptrs, fun n hn p hp => ?_, fun b hb => ?_, fun n hn b hb f hf => ?_⟩
  · simpa using hdefined n hn (.inst p) hp
  · have hend := hends b hb
    cases hrev : b.nodes.reverse with
    | nil => simp [hrev] at hend
    | cons last front =>
        simp only [hrev, Bool.and_eq_true, List.all_eq_true, Bool.not_eq_true'] at hend
        refine ⟨front.reverse, last, ?_, hend.1, fun n hn => hend.2 n (List.mem_reverse.mp hn)⟩
        rw [← List.reverse_reverse b.nodes, hrev, List.reverse_cons]
  · have hentry := hentries n hn b hb
    obtain ⟨hlt, hname, -⟩ := List.findIdx?_eq_some_iff_getElem.mp hf
    have hblk : code[b].function = f := by simpa using hname
    rw [List.getElem?_eq_getElem hlt] at hentry
    simp only [hblk, decide_eq_true_eq] at hentry
    exact hentry hf

end Code

namespace Module

variable {m : Module} {optimized : MpiFunction → Option FuncId} {build : Build}
  {malloc : Code → Ptr} {address : Ptr → Ptr} {old : Ptr} {new : Node} {code : Code}

theorem replaceInstWithInst_eq (hne : new.ptr ≠ old) :
    replaceInstWithInst old new code =
      code.mapNodes (·.map fun n => Code.rewire old new.ptr (if n.ptr = old then new else n)) := by
  unfold replaceInstWithInst Code.insertBefore Code.replaceAllUsesWith Code.eraseFromParent
  rw [Code.mapNodes_mapNodes, Code.mapNodes_mapNodes]
  refine Code.mapNodes_congr fun b _ => ?_
  induction b.nodes with
  | nil => rfl
  | cons n rest ih =>
      by_cases hn : n.ptr = old
      · simp [hn, hne, Code.rewire, ih]
      · simp [hn, Code.rewire, ih]

/-! ### The code seen through a map of addresses -/

variable (m optimized) in
/-- `cur` is `code` with the calls `done` replaced. -/
structure Image (done : List Ptr) (code cur : Code) (address : Ptr → Ptr) : Prop where
  injective : ∀ p q, p ∈ code.nodes.map Node.ptr → q ∈ code.nodes.map Node.ptr →
    address p = address q → p = q
  fixed : ∀ n ∈ code.nodes, ¬ m.Replaces done n → address n.ptr = n.ptr
  constructed : ∀ n ∈ code.nodes, m.Replaces done n →
    ((m.replaceableCall n.op).bind optimized).isSome
  code_eq : cur = code.mapNodes (·.map (m.expected optimized done address))

section
variable {cur cur' : Code} {done calls : List Ptr} {call : Ptr} {n : Node}

theorem moved_id (v : Operand) : Moved id v = v := by
  cases v <;> rfl

theorem image_start : m.Image optimized [] code code id := by
  refine ⟨fun p q _ _ h => h, fun _ _ _ => rfl, fun n _ h => absurd h.1 List.not_mem_nil, ?_⟩
  have hid : m.expected optimized [] id = id := by
    funext n
    have hno : ¬ m.Replaces [] n := fun h => absurd h.1 List.not_mem_nil
    have hop : n.op.mapOperands (Moved id) = n.op.mapOperands id :=
      Op.mapOperands_congr fun v _ => moved_id v
    have hsame : n.op.mapOperands id = n.op := by
      cases n.op <;> simp [Op.mapOperands]
    simp only [expected, if_neg hno, hop, hsame]
    rfl
  simp only [hid, List.map_id]
  exact (List.map_id code).symm

theorem eq_of_ptr (hwf : code.WellFormed) {n k : Node} (hn : n ∈ code.nodes) (hk : k ∈ code.nodes)
    (h : n.ptr = k.ptr) : n = k :=
  List.inj_on_of_nodup_map hwf.ptrs hn hk h

/-- What the turn for a call finds is the call, with its operands moved. -/
theorem Image.node (hI : m.Image optimized done code cur address) (hwf : code.WellFormed)
    {n : Node} (hn : n ∈ code.nodes) (hdone : n.ptr ∉ done) {k : Node} (hk : cur.node n.ptr = some k) :
    k = ⟨n.ptr, n.op.mapOperands (Moved address)⟩ := by
  have hno : ∀ x : Node, x.ptr = n.ptr → ¬ m.Replaces done x := fun x hx h => hdone (hx ▸ h.1)
  have hfix : address n.ptr = n.ptr := hI.fixed n hn (hno n rfl)
  obtain ⟨hmem, hptr⟩ := Code.node_eq_some hk
  rw [hI.code_eq, Code.nodes_mapNodes_map] at hmem
  obtain ⟨x, hx, rfl⟩ := List.mem_map.mp hmem
  have hxp : x.ptr = n.ptr :=
    hI.injective _ _ (List.mem_map_of_mem hx) (List.mem_map_of_mem hn) (hptr.trans hfix.symm)
  obtain rfl : x = n := eq_of_ptr hwf hx hn hxp
  simp only [expected, if_neg (hno x rfl), hfix]

theorem replaces_append {x : Node} (hne : x.ptr ≠ call) :
    m.Replaces (done ++ [call]) x ↔ m.Replaces done x := by
  simp only [Replaces, List.mem_append, List.mem_singleton, hne, or_false]

/-- The use of a result follows the call to its new address. -/
theorem rewire_moved {call new : Ptr} {v : Operand} (hfix : address call = call)
    (hinj : ∀ p, v = .inst p → address p = call → p = call) :
    (if Moved address v = .inst call then .inst new else Moved address v) =
      Moved (Function.update address call new) v := by
  cases v with
  | function f | other k => rfl
  | inst p =>
      by_cases hp : p = call
      · subst hp
        simp [Moved, hfix]
      · have hne : address p ≠ call := fun h => hp (hinj p rfl h)
        simp [Moved, hp, hne]

/-- A turn for a call to a function that is replaced. -/
theorem Image.replace (hI : m.Image optimized done code cur address) (hwf : code.WellFormed)
    (hn : n ∈ code.nodes) (hdone : n.ptr ∉ done) {k : MpiFunction} {f : FuncId}
    {callee : Operand} {args : List Operand} (hcall : n.op.callBase = some (callee, args))
    (hk : m.replaceableCall n.op = some k) (hf : optimized k = some f)
    (hfresh : malloc cur ∉ cur.nodes.map Node.ptr) :
    m.Image optimized (done ++ [n.ptr]) code
      (replaceCall malloc cur ⟨n.ptr, n.op.mapOperands (Moved address)⟩ f)
      (Function.update address n.ptr (malloc cur)) := by
  have hnodes : cur.nodes = code.nodes.map (m.expected optimized done address) := by
    rw [hI.code_eq, Code.nodes_mapNodes_map]
  have hptrs : cur.nodes.map Node.ptr = (code.nodes.map Node.ptr).map address := by
    rw [hnodes, List.map_map, List.map_map]
    rfl
  have hno : ¬ m.Replaces done n := fun h => hdone h.1
  have hfix : address n.ptr = n.ptr := hI.fixed n hn hno
  have hnp : n.ptr ∈ code.nodes.map Node.ptr := List.mem_map_of_mem hn
  have haddr : ∀ p ∈ code.nodes.map Node.ptr, address p ≠ malloc cur := by
    intro p hp heq
    exact hfresh (hptrs ▸ heq ▸ List.mem_map_of_mem hp)
  have hnew : malloc cur ≠ n.ptr := fun h => haddr n.ptr hnp (hfix.trans h.symm)
  -- an operand of the old code refers to the call exactly if its address is the call's
  have hback : ∀ x ∈ code.nodes, ∀ v ∈ x.op.operands, ∀ p, v = .inst p → address p = n.ptr →
      p = n.ptr := by
    rintro x hx v hv p rfl hp
    exact hI.injective p n.ptr (hwf.defined x hx p hv) hnp (hp.trans hfix.symm)
  refine ⟨?_, ?_, ?_, ?_⟩
  · intro p q hp hq heq
    by_cases hpc : p = n.ptr <;> by_cases hqc : q = n.ptr
    · rw [hpc, hqc]
    · simp only [hpc, Function.update_self, Function.update_of_ne hqc] at heq
      exact absurd heq.symm (haddr q hq)
    · simp only [hqc, Function.update_self, Function.update_of_ne hpc] at heq
      exact absurd heq (haddr p hp)
    · simp only [Function.update_of_ne hpc, Function.update_of_ne hqc] at heq
      exact hI.injective p q hp hq heq
  · intro x hx hxr
    by_cases hxc : x.ptr = n.ptr
    · obtain rfl : x = n := eq_of_ptr hwf hx hn hxc
      exact absurd ⟨by simp, by rw [hk]; rfl⟩ hxr
    · rw [Function.update_of_ne hxc]
      exact hI.fixed x hx fun h => hxr ((replaces_append hxc).mpr h)
  · intro x hx hxr
    by_cases hxc : x.ptr = n.ptr
    · obtain rfl : x = n := eq_of_ptr hwf hx hn hxc
      rw [hk, Option.bind_some, hf]
      rfl
    · exact hI.constructed x hx ((replaces_append hxc).mp hxr)
  · unfold replaceCall
    rw [replaceInstWithInst_eq hnew, hI.code_eq, Code.mapNodes_mapNodes, ← hI.code_eq]
    refine Code.mapNodes_congr fun b hb => ?_
    rw [List.map_map]
    refine List.map_congr_left fun x hxb => ?_
    have hx : x ∈ code.nodes := Code.mem_nodes hb hxb
    by_cases hxc : x.ptr = n.ptr
    · obtain rfl : x = n := eq_of_ptr hwf hx hn hxc
      have hr : m.Replaces (done ++ [x.ptr]) x := ⟨by simp, by rw [hk]; rfl⟩
      have hrep : m.replacement optimized x.op = .call (.function f) args := by
        simp only [replacement, hk, Option.bind_some, hf, hcall]
      have hargs : ∀ v ∈ args, (if Moved address v = .inst x.ptr then .inst (malloc cur)
          else Moved address v) = Moved (Function.update address x.ptr (malloc cur)) v := by
        intro v hv
        exact rewire_moved hfix (hback x hx v (mem_operands_of_callBase hcall hv))
      have hnewArgs : ((x.op.mapOperands (Moved address)).callBase.map Prod.snd).getD [] =
          args.map (Moved address) := by
        rw [Op.callBase_mapOperands, hcall]
        rfl
      simp only [Function.comp_apply, expected, hfix, if_true, if_pos hr, hrep, hnewArgs,
        Code.rewire]
      simp only [Op.mapOperands, List.map_map, Function.update_self, Node.mk.injEq, Op.call.injEq,
        true_and]
      exact ⟨rfl, List.map_congr_left hargs⟩
    · have hne : address x.ptr ≠ n.ptr := fun h =>
        hxc (hI.injective _ _ (List.mem_map_of_mem hx) hnp (h.trans hfix.symm))
      have hexp : (m.expected optimized done address x).ptr ≠ n.ptr := hne
      have hiff : m.Replaces (done ++ [n.ptr]) x ↔ m.Replaces done x := replaces_append hxc
      have hmoved : ∀ v ∈ (if m.Replaces done x then m.replacement optimized x.op else x.op).operands,
          (if Moved address v = .inst n.ptr then .inst (malloc cur) else Moved address v) =
            Moved (Function.update address n.ptr (malloc cur)) v := by
        intro v hv
        refine rewire_moved hfix ?_
        have hv' : v ∈ x.op.operands ∨ ∃ f, v = .function f := by
          split at hv
          · exact operands_replacement hv
          · exact Or.inl hv
        rcases hv' with hv' | ⟨f, rfl⟩
        · exact hback x hx v hv'
        · exact fun p hp => absurd hp (by simp)
      rw [Function.comp_apply, if_neg hexp]
      simp only [Code.rewire, expected, hiff, Function.update_of_ne hxc, Op.mapOperands_mapOperands,
        Node.mk.injEq, true_and]
      exact Op.mapOperands_congr hmoved

/-- A turn for a call to another function changes nothing. -/
theorem Image.skip (hI : m.Image optimized done code cur address) (hwf : code.WellFormed)
    (hn : n ∈ code.nodes) (hk : m.replaceableCall n.op = none) :
    m.Image optimized (done ++ [n.ptr]) code cur address := by
  have hiff : ∀ x ∈ code.nodes, (m.Replaces (done ++ [n.ptr]) x ↔ m.Replaces done x) := by
    intro x hx
    by_cases hxc : x.ptr = n.ptr
    · obtain rfl : x = n := eq_of_ptr hwf hx hn hxc
      simp [Replaces, hk]
    · exact replaces_append hxc
  refine ⟨hI.injective, fun x hx h => hI.fixed x hx fun hr => h ((hiff x hx).mpr hr),
    fun x hx h => hI.constructed x hx ((hiff x hx).mp h), ?_⟩
  rw [hI.code_eq]
  refine Code.mapNodes_congr fun b hb => List.map_congr_left fun x hx => ?_
  simp only [expected, hiff x (Code.mem_nodes hb hx)]

/-- What the allocator guarantees: an address that nothing has. -/
def Fresh (malloc : Code → Ptr) : Prop := ∀ code : Code, malloc code ∉ code.nodes.map Node.ptr

/-- **Step lemma.**  One turn of the loop. -/
theorem Image.turn (hI : m.Image optimized done code cur address) (hwf : code.WellFormed)
    (hmalloc : Fresh malloc) (hn : n ∈ code.nodes) (hcall : n.op.callBase.isSome)
    (hdone : n.ptr ∉ done)
    (h : m.replaceTurn optimized build malloc cur n.ptr = some cur') :
    ∃ address', m.Image optimized (done ++ [n.ptr]) code cur' address' := by
  unfold replaceTurn at h
  cases hk : cur.node n.ptr with
  | none => simp [hk] at h
  | some k =>
      obtain rfl := hI.node hwf hn hdone hk
      rw [hk, Option.bind_some, replaceableCall_moved] at h
      cases hr : m.replaceableCall n.op with
      | none =>
          rw [hr] at h
          have heq : cur = cur' := by
            simp only [Option.map_eq_some_iff] at h
            exact h.choose_spec.2
          exact ⟨address, heq ▸ hI.skip hwf hn hr⟩
      | some fn =>
          simp only [hr, Option.map_eq_some_iff] at h
          obtain ⟨f, hf, rfl⟩ := h
          obtain ⟨⟨callee, args⟩, hc⟩ := Option.isSome_iff_exists.mp hcall
          exact ⟨_, hI.replace hwf hn hdone hc hr hf (hmalloc cur)⟩

/-- **Run lemma.**  The whole loop. -/
theorem image_of_foldlM (hwf : code.WellFormed) (hmalloc : Fresh malloc) (calls : List Ptr) :
    ∀ (done : List Ptr) (cur : Code) (address : Ptr → Ptr),
      m.Image optimized done code cur address → (done ++ calls).Nodup →
      (∀ p ∈ calls, ∃ n ∈ code.nodes, n.ptr = p ∧ n.op.callBase.isSome) →
      calls.foldlM (m.replaceTurn optimized build malloc) cur = some cur' →
      ∃ address', m.Image optimized (done ++ calls) code cur' address' := by
  induction calls with
  | nil =>
      intro done cur address hI _ _ h
      rw [List.foldlM_nil] at h
      obtain rfl : cur = cur' := Option.some.inj h
      exact ⟨address, by rwa [List.append_nil]⟩
  | cons p rest ih =>
      intro done cur address hI hnodup hcalls h
      rw [List.foldlM_cons] at h
      obtain ⟨n, hn, rfl, hcall⟩ := hcalls p List.mem_cons_self
      have hdone : n.ptr ∉ done := fun hd =>
        (List.nodup_append.mp hnodup).2.2 n.ptr hd n.ptr List.mem_cons_self rfl
      cases hturn : m.replaceTurn optimized build malloc cur n.ptr with
      | none => simp [hturn] at h
      | some mid =>
          rw [hturn] at h
          obtain ⟨address', hI'⟩ := hI.turn hwf hmalloc hn hcall hdone hturn
          have hassoc : done ++ n.ptr :: rest = done ++ [n.ptr] ++ rest := by simp
          rw [hassoc] at hnodup ⊢
          exact ih _ _ _ hI' hnodup (fun q hq => hcalls q (List.mem_cons_of_mem _ hq)) h

end

/-! ### The set of calls -/

/-- What is collected over a list comes from its elements, and each of them gives something. -/
theorem mem_of_mapM {α β : Type*} {f : α → Option β} (l : List α) :
    ∀ {ys : List β}, l.mapM f = some ys →
      (∀ y ∈ ys, ∃ x ∈ l, f x = some y) ∧ ∀ x ∈ l, ∃ y ∈ ys, f x = some y := by
  induction l with
  | nil =>
      intro ys h
      rw [List.mapM_nil] at h
      obtain rfl : [] = ys := Option.some.inj h
      simp
  | cons a rest ih =>
      intro ys h
      rw [List.mapM_cons] at h
      cases ha : f a with
      | none => simp [ha] at h
      | some b =>
          cases hrest : rest.mapM f with
          | none => simp [ha, hrest] at h
          | some bs =>
              rw [ha, hrest] at h
              obtain rfl : b :: bs = ys := Option.some.inj h
              obtain ⟨h1, h2⟩ := ih hrest
              constructor
              · intro y hy
                rcases List.mem_cons.mp hy with rfl | hy
                · exact ⟨a, List.mem_cons_self, ha⟩
                · obtain ⟨x, hx, hf⟩ := h1 y hy
                  exact ⟨x, List.mem_cons_of_mem _ hx, hf⟩
              · intro x hx
                rcases List.mem_cons.mp hx with rfl | hx
                · exact ⟨b, List.mem_cons_self, ha⟩
                · obtain ⟨y, hy, hf⟩ := h2 x hx
                  exact ⟨y, List.mem_cons_of_mem _ hy, hf⟩

section
variable {n : Node} {p call : Ptr} {inits calls ps : List Ptr}

/-- The pointer is to a call of the code. -/
def IsCallPtr (code : Code) (p : Ptr) : Prop :=
  ∃ n ∈ code.nodes, n.ptr = p ∧ n.op.callBase.isSome

theorem mem_users {v : Operand} (h : n ∈ code.users v) : n ∈ code.nodes := by
  obtain ⟨k, hk, hn⟩ := List.mem_flatMap.mp h
  obtain ⟨-, -, rfl⟩ := List.mem_map.mp hn
  exact hk

theorem isCallPtr_usage (hn : n ∈ code.nodes) (h : m.usage build code n = some ps) (hp : p ∈ ps) :
    IsCallPtr code p := by
  unfold usage at h
  split at h
  · rename_i c hc
    split at h
    · obtain rfl : [n.ptr] = ps := Option.some.inj h
      obtain rfl := List.mem_singleton.mp hp
      exact ⟨n, hn, rfl, by rw [hc]; rfl⟩
    · obtain ⟨-, -, rfl⟩ := Option.map_eq_some_iff.mp h
      exact absurd hp List.not_mem_nil
  · split at h <;>
    · obtain ⟨-, -, rfl⟩ := Option.map_eq_some_iff.mp h
      exact absurd hp List.not_mem_nil

/-- The call itself and what `get_usage_of_request` finds for it are calls. -/
theorem isCallPtr_getUsage (h : m.getUsageOfRequest build code call = some ps) :
    IsCallPtr code call ∧ ∀ p ∈ ps, IsCallPtr code p := by
  simp only [getUsageOfRequest, Option.bind_eq_some_iff] at h
  obtain ⟨n, hn, -, -, ⟨callee, args⟩, hc, -, -, req, -, h⟩ := h
  obtain ⟨hmem, rfl⟩ := Code.node_eq_some hn
  refine ⟨⟨n, hmem, rfl, by rw [hc]; rfl⟩, fun p hp => ?_⟩
  obtain ⟨uses, huses, rfl⟩ := Option.map_eq_some_iff.mp h
  obtain ⟨us, hus, hp⟩ := List.mem_flatten.mp hp
  obtain ⟨u, hu, heq⟩ := (mem_of_mapM _ huses).1 us hus
  exact isCallPtr_usage (mem_users hu) heq hp

theorem callsToReplace_calls (h : m.callsToReplace build code inits = some calls) :
    calls.Nodup ∧ ∀ p ∈ calls, IsCallPtr code p := by
  obtain ⟨usages, husages, rfl⟩ := Option.map_eq_some_iff.mp h
  obtain ⟨hfrom, hall⟩ := mem_of_mapM _ husages
  constructor
  · exact (List.perm_insertionSort _ _).nodup_iff.mpr (List.nodup_dedup _)
  · intro p hp
    rw [List.mem_insertionSort, List.mem_dedup, List.mem_append] at hp
    rcases hp with hp | hp
    · obtain ⟨us, -, hus⟩ := hall p hp
      exact (isCallPtr_getUsage hus).1
    · obtain ⟨us, hus, hp⟩ := List.mem_flatten.mp hp
      obtain ⟨init, -, hinit⟩ := hfrom us hus
      exact (isCallPtr_getUsage hinit).2 p hp

end

/-! ### Where the blocks end -/

section
variable {calls : List Ptr} {n : Node} {ns : List Node}

theorem expected_other (h : ¬ m.Replaces calls n) :
    (m.expected optimized calls address n).op.isTerminator = n.op.isTerminator ∧
      (m.expected optimized calls address n).op.successors = n.op.successors := by
  simp [expected, if_neg h]

theorem expected_call (hn : n.op.isInvoke = false) :
    (m.expected optimized calls address n).op.isTerminator = n.op.isTerminator ∧
      (m.expected optimized calls address n).op.successors = n.op.successors := by
  by_cases hr : m.Replaces calls n
  · simp only [expected, if_pos hr, Op.isTerminator_mapOperands, Op.successors_mapOperands,
      replacement]
    split
    · rename_i hc
      cases hop : n.op <;> simp_all [Op.callBase, Op.isInvoke, Op.isTerminator, Op.successors]
    · exact ⟨rfl, rfl⟩
  · exact expected_other hr

/-- Without an `invoke` among the replaced calls, a block ends as before. -/
theorem oneTerminator_expected (h : Code.OneTerminator ns)
    (hns : ∀ n ∈ ns, m.Replaces calls n → n.op.isInvoke = false) :
    Code.OneTerminator (ns.map (m.expected optimized calls address)) ∧
      ((ns.map (m.expected optimized calls address)).getLast?).map (·.op.successors) =
        (ns.getLast?).map (·.op.successors) := by
  have hsame : ∀ n ∈ ns, (m.expected optimized calls address n).op.isTerminator = n.op.isTerminator ∧
      (m.expected optimized calls address n).op.successors = n.op.successors := by
    intro n hn
    by_cases hr : m.Replaces calls n
    · exact expected_call (hns n hn hr)
    · exact expected_other hr
  obtain ⟨front, last, rfl, hlast, hfront⟩ := h
  have hl := hsame last (by simp)
  refine ⟨⟨front.map (m.expected optimized calls address), m.expected optimized calls address last,
    by simp, hl.1.trans hlast, ?_⟩, by simp [hl.2]⟩
  intro k hk
  obtain ⟨n, hn, rfl⟩ := List.mem_map.mp hk
  exact (hsame n (by simp [hn])).1.trans (hfront n hn)

/-- Where an `invoke` is replaced, the block has no terminator. -/
theorem not_oneTerminator_expected (h : Code.OneTerminator ns) (hn : n ∈ ns)
    (hr : m.Replaces calls n) (hopt : (m.replacement optimized n.op).isTerminator = false)
    (hinv : n.op.isInvoke = true) :
    ¬ Code.OneTerminator (ns.map (m.expected optimized calls address)) := by
  obtain ⟨front, last, rfl, hlast, hfront⟩ := h
  have hnlast : n = last := by
    rcases List.mem_append.mp hn with hn | hn
    · have hf := hfront n hn
      cases hop : n.op <;> simp_all [Op.isInvoke, Op.isTerminator]
    · exact List.mem_singleton.mp hn
  subst hnlast
  rintro ⟨front', last', heq, hlast', -⟩
  rw [List.map_append, List.map_singleton] at heq
  have hl : m.expected optimized calls address n = last' := by
    have hgl := congrArg List.getLast? heq
    simpa using hgl
  have hno : (m.expected optimized calls address n).op.isTerminator = false := by
    simpa only [expected, if_pos hr, Op.isTerminator_mapOperands] using hopt
  rw [hl, hlast'] at hno
  exact absurd hno (by decide)

end

/-! ### What is preserved -/

section
variable {calls : List Ptr} {code' : Code}

theorem Image.preserves (hI : m.Image optimized calls code code' address) (hwf : code.WellFormed)
    (hcalls : ∀ n ∈ code.nodes, m.Replaces calls n → n.op.isInvoke = false) :
    m.Preserves optimized calls code code' := by
  refine ⟨⟨?_, ?_⟩, address, hI.injective, hI.fixed, hI.code_eq⟩
  · rw [hI.code_eq]
    exact List.length_map _
  · intro i b b' hb hb'
    have hmem : b ∈ code := List.mem_of_getElem? hb
    rw [hI.code_eq, Code.mapNodes, List.getElem?_map, hb] at hb'
    obtain rfl := Option.some.inj hb'
    exact oneTerminator_expected (hwf.terminators b hmem) fun n hn =>
      hcalls n (Code.mem_nodes hmem hn)

theorem Image.calls_of_preserves (hI : m.Image optimized calls code code' address)
    (hwf : code.WellFormed) (hcall : ∀ p ∈ calls, IsCallPtr code p)
    (h : m.Preserves optimized calls code code') :
    ∀ n ∈ code.nodes, m.Replaces calls n → n.op.isInvoke = false := by
  intro n hn hr
  by_contra hinv
  obtain ⟨b, hb, hnb⟩ := List.mem_flatMap.mp hn
  obtain ⟨i, hi⟩ := List.mem_iff_getElem?.mp hb
  have hi' : code'[i]? = some { b with nodes := b.nodes.map (m.expected optimized calls address) } := by
    rw [hI.code_eq, Code.mapNodes, List.getElem?_map, hi]
    rfl
  have hopt : (m.replacement optimized n.op).isTerminator = false := by
    obtain ⟨k, hk, hptr, hc⟩ := hcall n.ptr hr.1
    obtain rfl : k = n := eq_of_ptr hwf hk hn hptr
    obtain ⟨f, hf⟩ := Option.isSome_iff_exists.mp (hI.constructed k hn hr)
    obtain ⟨⟨callee, args⟩, hc⟩ := Option.isSome_iff_exists.mp hc
    simp only [replacement, hf, hc]
    rfl
  exact not_oneTerminator_expected (hwf.terminators b hb) hnb hr hopt (by simpa using hinv)
    (h.blocks.2 i b _ hi hi').1

/--
**Replacing the calls of a request.**  Whatever is in the set, in whatever order it is
gone through and wherever the new calls are allocated: the replacement preserves the
shape of the program exactly if none of the replaced calls is an `invoke`.
-/
theorem replaceCommunicationCalls_preserves {sends recvs : List Ptr} (hwf : code.WellFormed)
    (hmalloc : Fresh malloc)
    (h : m.replaceCommunicationCalls optimized build malloc code sends recvs = some code') :
    ∃ calls, m.callsToReplace build code (sends ++ recvs) = some calls ∧
      (m.Preserves optimized calls code code' ↔
        ∀ n ∈ code.nodes, m.Replaces calls n → n.op.isInvoke = false) := by
  obtain ⟨calls, hcalls, hloop⟩ := Option.bind_eq_some_iff.mp h
  obtain ⟨hnodup, hptrs⟩ := callsToReplace_calls hcalls
  obtain ⟨address, hI⟩ := image_of_foldlM hwf hmalloc calls [] code id image_start hnodup hptrs hloop
  rw [List.nil_append] at hI
  exact ⟨calls, hcalls, hI.calls_of_preserves hwf hptrs, hI.preserves hwf⟩

end

/-! ### One request, waited for by a call and by an `invoke` -/

def requestModule : Module where
  functions := ["main", "MPI_Send_init", "MPI_Start", "MPI_Wait", "MPI_Request_free",
    "MPIOPT_Send_init", "MPIOPT_Start", "MPIOPT_Wait", "MPIOPT_Request_free"].map (⟨·, false, []⟩)
  names := by decide

def requestOptimized : MpiFunction → Option FuncId
  | .sendInit => some 5
  | .start => some 6
  | .wait => some 7
  | .requestFree => some 8
  | _ => none

/-- `main`, which waits in this way for its request. -/
def requestCode (wait : List Node) : Code :=
  [⟨0, [⟨0, .other []⟩,
      ⟨1, .call (.function 1) ((List.range 6).map .other ++ [.inst 0])⟩,
      ⟨2, .call (.function 2) [.inst 0]⟩] ++ wait⟩,
    ⟨0, [⟨4, .call (.function 4) [.inst 0]⟩, ⟨5, .ret [.inst 3]⟩]⟩,
    ⟨0, [⟨6, .other []⟩, ⟨7, .resume [.inst 6]⟩]⟩]

def callingCode : Code :=
  requestCode [⟨3, .call (.function 3) [.inst 0, .other 9]⟩, ⟨8, .br [] [1]⟩]

def invokingCode : Code := requestCode [⟨3, .invoke (.function 3) [.inst 0, .other 9] 1 2⟩]

/-- An allocator: the address after the last one. -/
def nextPtr (code : Code) : Ptr := (code.nodes.map Node.ptr).foldr max 0 + 1

theorem fresh_nextPtr : Fresh nextPtr := by
  intro code h
  have hle : ∀ (l : List Ptr) (p : Ptr), p ∈ l → p ≤ l.foldr max 0 := by
    intro l p hp
    induction l with
    | nil => exact absurd hp List.not_mem_nil
    | cons q rest ih =>
        rcases List.mem_cons.mp hp with rfl | hp
        · exact Nat.le_max_left _ _
        · exact Nat.le_trans (ih hp) (Nat.le_max_right _ _)
  have hmax : nextPtr code ≤ (code.nodes.map Node.ptr).foldr max 0 := hle _ _ h
  exact absurd hmax (Nat.not_succ_le_self _)

theorem callingCode_wellFormed : callingCode.WellFormed := Code.wellFormed_of_check (by decide)

theorem invokingCode_wellFormed : invokingCode.WellFormed :=
  Code.wellFormed_of_check (by decide)

/-- A request that only calls use. -/
theorem callingCode_preserved :
    match requestModule.replaceCommunicationCalls requestOptimized .debug nextPtr callingCode [1] []
      with
    | some code' => requestModule.Preserves requestOptimized [1, 2, 3, 4] callingCode code'
    | none => False := by
  have hcalls : requestModule.callsToReplace .debug callingCode [1] = some [1, 2, 3, 4] := by
    decide +kernel
  have hsome : (requestModule.replaceCommunicationCalls requestOptimized .debug nextPtr callingCode
      [1] []).isSome = true := by
    decide +kernel
  obtain ⟨code', h⟩ := Option.isSome_iff_exists.mp hsome
  obtain ⟨calls, hc, hiff⟩ :=
    replaceCommunicationCalls_preserves callingCode_wellFormed fresh_nextPtr h
  obtain rfl : calls = [1, 2, 3, 4] := Option.some.inj (hc.symm.trans hcalls)
  simp only [h]
  exact hiff.mpr (by decide)

/-- A request that is waited for by an `invoke`: its block is left without a terminator. -/
theorem invokingCode_broken :
    invokingCode.WellFormed ∧
      match requestModule.callsToReplace .release invokingCode [1],
        requestModule.replaceCommunicationCalls requestOptimized .release nextPtr invokingCode [1] []
        with
      | some calls, some code' =>
          ¬ requestModule.Preserves requestOptimized calls invokingCode code' ∧
            ∃ b, code'[0]? = some b ∧ ∀ n ∈ b.nodes, n.op.isTerminator = false
      | _, _ => False := by
  refine ⟨invokingCode_wellFormed, ?_⟩
  have hcalls : (requestModule.callsToReplace .release invokingCode [1]).isSome = true := by
    decide +kernel
  have hrun : (requestModule.replaceCommunicationCalls requestOptimized .release nextPtr invokingCode
      [1] []).any (fun code' => (code'[0]?).any fun b => b.nodes.all fun n => !n.op.isTerminator) =
        true := by
    decide +kernel
  obtain ⟨calls, hc⟩ := Option.isSome_iff_exists.mp hcalls
  cases h : requestModule.replaceCommunicationCalls requestOptimized .release nextPtr invokingCode
      [1] [] with
  | none => simp [h] at hrun
  | some code' =>
      rw [h, Option.any_some] at hrun
      cases hb : code'[0]? with
      | none => simp [hb] at hrun
      | some b =>
          simp only [hb, Option.any_some, List.all_eq_true, Bool.not_eq_true'] at hrun
          simp only [hc]
          refine ⟨fun hp => ?_, b, hb, hrun⟩
          obtain ⟨front, last, heq, hlast, -⟩ := (hp.blocks.2 0 _ b rfl hb).1
          have hno := hrun last (by simp [heq])
          rw [hlast] at hno
          exact absurd hno (by decide)

end Module

end CompMatch.Pass

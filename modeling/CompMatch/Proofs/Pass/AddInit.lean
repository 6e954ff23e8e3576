/-
Where the initialisation is inserted, and when it runs.

Whatever is inserted stands behind the PHIs of a block or behind a call, so the code keeps
its form through both loops (`Inserted`), and how much stands where is a count of users.
In an execution the insertions ahead are those between where control is and the next
instruction of the program.  There is one exactly if `MPI_Init` has just returned, as long
as control enters blocks as the condition asks for.
-/
import CompMatch.Pass.AddInit
import CompMatch.Proofs.Pass.ConflictDetection
import CompMatch.Proofs.Pass.Replacement
import Mathlib.Data.List.TakeWhile

namespace CompMatch.Pass

/-! ### What is inserted where -/

/-- Every instruction with what stands behind it. -/
def spread (post : Ptr → List Node) (ns : List Node) : List Node :=
  ns.flatMap fun n => n :: post n.ptr

/-- A block with what is inserted behind its PHIs and behind its calls. -/
def layout (head : List Node) (post : Ptr → List Node) (ns : List Node) : List Node :=
  ns.takeWhile (·.op.isPhi) ++ (head ++ spread post (ns.dropWhile (·.op.isPhi)))

/-- An inserted call. -/
structure Insertion (mpioptInit : FuncId) (code : Code) (n : Node) : Prop where
  op : n.op = .call (.function mpioptInit) []
  fresh : n.ptr ∉ code.nodes.map Node.ptr

/-- The code `cur` is `code` with calls inserted. -/
structure Inserted (mpioptInit : FuncId) (code cur : Code) (head : BlockId → List Node)
    (post : Ptr → List Node) : Prop where
  block : ∀ b, cur[b]? =
    (code[b]?).map fun blk : Block => { blk with nodes := layout (head b) post blk.nodes }
  heads : ∀ b, ∀ n ∈ head b, Insertion mpioptInit code n
  posts : ∀ p, ∀ n ∈ post p, Insertion mpioptInit code n

section
variable {mpioptInit : FuncId} {code cur : Code} {head : BlockId → List Node}
  {post : Ptr → List Node} {ns hd : List Node} {n new : Node}

theorem Insertion.not_phi (h : Insertion mpioptInit code n) : n.op.isPhi = false := by
  rw [h.op]
  rfl

theorem Insertion.ne (h : Insertion mpioptInit code new) (hn : n ∈ code.nodes) : new.ptr ≠ n.ptr :=
  fun heq => h.fresh (heq ▸ List.mem_map_of_mem hn)

theorem spread_nil (ns : List Node) : spread (fun _ => []) ns = ns := by
  induction ns with
  | nil => rfl
  | cons n rest ih => simp only [spread, List.flatMap_cons] at ih ⊢; rw [ih]; rfl

theorem spread_cons (post : Ptr → List Node) (n : Node) (rest : List Node) :
    spread post (n :: rest) = n :: (post n.ptr ++ spread post rest) := rfl

theorem layout_nil (ns : List Node) : layout [] (fun _ => []) ns = ns := by
  rw [layout, spread_nil, List.nil_append, List.takeWhile_append_dropWhile]

theorem inserted_start : Inserted mpioptInit code code (fun _ => []) fun _ => [] := by
  refine ⟨fun b => ?_, by simp, by simp⟩
  simp only [layout_nil]
  exact Option.map_id'.symm

/-- The PHIs of a block are those it had. -/
theorem split_layout (hhd : ∀ n ∈ hd, Insertion mpioptInit code n) :
    (layout hd post ns).takeWhile (·.op.isPhi) = ns.takeWhile (·.op.isPhi) ∧
      (layout hd post ns).dropWhile (·.op.isPhi) =
        hd ++ spread post (ns.dropWhile (·.op.isPhi)) := by
  have hphis : ∀ n ∈ ns.takeWhile (·.op.isPhi), n.op.isPhi = true := fun n hn =>
    List.mem_takeWhile_imp (p := fun n : Node => n.op.isPhi) hn
  have hrest : ∀ n, (hd ++ spread post (ns.dropWhile (·.op.isPhi))).head? = some n →
      n.op.isPhi = false := by
    intro n hn
    cases hd with
    | cons k rest =>
        obtain rfl : k = n := Option.some.inj hn
        exact (hhd k List.mem_cons_self).not_phi
    | nil =>
        cases hdrop : ns.dropWhile (·.op.isPhi) with
        | nil => simp [hdrop, spread] at hn
        | cons k rest =>
            rw [hdrop, List.nil_append, spread_cons] at hn
            obtain rfl : k = n := Option.some.inj hn
            have hhead := List.head?_dropWhile_not (fun n : Node => n.op.isPhi) ns
            simpa [hdrop] using hhead
  have hempty : (hd ++ spread post (ns.dropWhile (·.op.isPhi))).takeWhile (·.op.isPhi) = [] ∧
      (hd ++ spread post (ns.dropWhile (·.op.isPhi))).dropWhile (·.op.isPhi) =
        hd ++ spread post (ns.dropWhile (·.op.isPhi)) := by
    cases heq : hd ++ spread post (ns.dropWhile (·.op.isPhi)) with
    | nil => exact ⟨rfl, rfl⟩
    | cons k rest =>
        have hk := hrest k (by rw [heq]; rfl)
        simp [hk]
  unfold layout
  rw [List.takeWhile_append_of_pos hphis, List.dropWhile_append_of_pos hphis, hempty.1, hempty.2,
    List.append_nil]
  exact ⟨rfl, rfl⟩

/-- An insertion behind the PHIs of a block. -/
theorem Inserted.behindPhis (h : Inserted mpioptInit code cur head post)
    (hnew : Insertion mpioptInit code new) (b : BlockId) :
    Inserted mpioptInit code (cur.insertBehindPhis b new)
      (Function.update head b (new :: head b)) post := by
  refine ⟨fun c => ?_, fun c n hn => ?_, h.posts⟩
  · by_cases hc : b = c
    · subst hc
      rw [Code.insertBehindPhis, List.getElem?_modify_eq, h.block b, Function.update_self]
      cases code[b]? with
      | none => rfl
      | some blk =>
          have hsplit : (layout (head b) post blk.nodes).takeWhile (·.op.isPhi) =
                blk.nodes.takeWhile (·.op.isPhi) ∧
              (layout (head b) post blk.nodes).dropWhile (·.op.isPhi) =
                head b ++ spread post (blk.nodes.dropWhile (·.op.isPhi)) := split_layout (h.heads b)
          obtain ⟨htake, hdrop⟩ := hsplit
          simp only [Option.map_eq_map, Option.map_some, htake, hdrop]
          rfl
    · rw [Code.insertBehindPhis, List.getElem?_modify_ne _ _ hc, h.block c,
        Function.update_of_ne (Ne.symm hc)]
  · by_cases hc : c = b
    · subst hc
      rw [Function.update_self] at hn
      rcases List.mem_cons.mp hn with rfl | hn
      · exact hnew
      · exact h.heads c n hn
    · rw [Function.update_of_ne hc] at hn
      exact h.heads c n hn

/-- Put something behind the instruction at an address. -/
def putAfter (p : Ptr) (new : Node) (ns : List Node) : List Node :=
  ns.flatMap fun n => if n.ptr = p then [n, new] else [n]

theorem putAfter_append (p : Ptr) (as bs : List Node) :
    putAfter p new (as ++ bs) = putAfter p new as ++ putAfter p new bs :=
  List.flatMap_append

theorem putAfter_of_ne {p : Ptr} (h : ∀ n ∈ ns, n.ptr ≠ p) : putAfter p new ns = ns := by
  induction ns with
  | nil => rfl
  | cons n rest ih =>
      have hrest := ih fun k hk => h k (List.mem_cons_of_mem _ hk)
      unfold putAfter at hrest ⊢
      rw [List.flatMap_cons, if_neg (h n List.mem_cons_self), hrest]
      rfl

theorem putAfter_spread {p : Ptr} (hpost : ∀ q, ∀ n ∈ post q, n.ptr ≠ p) :
    putAfter p new (spread post ns) = spread (Function.update post p (new :: post p)) ns := by
  induction ns with
  | nil => rfl
  | cons n rest ih =>
      have hsame : putAfter p new (post n.ptr) = post n.ptr := putAfter_of_ne (hpost n.ptr)
      rw [spread_cons, spread_cons, ← ih]
      show (if n.ptr = p then [n, new] else [n]) ++ putAfter p new (post n.ptr ++ spread post rest) = _
      rw [putAfter_append, hsame]
      by_cases hn : n.ptr = p
      · rw [if_pos hn, hn, Function.update_self]
        rfl
      · rw [if_neg hn, Function.update_of_ne hn]
        rfl

/-- An insertion behind a call. -/
theorem Inserted.after {u : Node} (h : Inserted mpioptInit code cur head post)
    (hnew : Insertion mpioptInit code new) (hwf : code.WellFormed) (hu : u ∈ code.nodes)
    (hphi : u.op.isPhi = false) :
    Inserted mpioptInit code (cur.insertAfter u.ptr new) head
      (Function.update post u.ptr (new :: post u.ptr)) := by
  refine ⟨fun b => ?_, h.heads, fun p n hn => ?_⟩
  · rw [Code.insertAfter, Code.mapNodes, List.getElem?_map, h.block b]
    cases hb : code[b]? with
    | none => rfl
    | some blk =>
        have hmem : ∀ n ∈ blk.nodes, n ∈ code.nodes := fun n hn =>
          Code.mem_nodes (List.mem_of_getElem? hb) hn
        -- the call is no PHI, and its address is its own
        have hphis : putAfter u.ptr new (blk.nodes.takeWhile (·.op.isPhi)) =
            blk.nodes.takeWhile (·.op.isPhi) := by
          refine putAfter_of_ne fun n hn heq => ?_
          obtain rfl : n = u :=
            Module.eq_of_ptr hwf (hmem n ((List.takeWhile_sublist _).subset hn)) hu heq
          have hisPhi : n.op.isPhi = true := List.mem_takeWhile_imp (p := fun n : Node => n.op.isPhi) hn
          rw [hphi] at hisPhi
          exact absurd hisPhi (by decide)
        have hhead : putAfter u.ptr new (head b) = head b :=
          putAfter_of_ne fun n hn => (h.heads b n hn).ne hu
        have hspread : putAfter u.ptr new (spread post (blk.nodes.dropWhile (·.op.isPhi))) = _ :=
          putAfter_spread fun q n hn => (h.posts q n hn).ne hu
        show some { blk with nodes := putAfter u.ptr new (layout (head b) post blk.nodes) } = _
        rw [layout, putAfter_append, putAfter_append, hphis, hhead, hspread]
        rfl
  · by_cases hp : p = u.ptr
    · subst hp
      rw [Function.update_self] at hn
      rcases List.mem_cons.mp hn with rfl | hn
      · exact hnew
      · exact h.posts _ n hn
    · rw [Function.update_of_ne hp] at hn
      exact h.posts p n hn

/-! ### The loops -/

theorem mem_layout (hn : n ∈ ns) : n ∈ layout hd post ns := by
  rw [← List.takeWhile_append_dropWhile (p := fun n : Node => n.op.isPhi) (l := ns)] at hn
  rcases List.mem_append.mp hn with hn | hn
  · exact List.mem_append_left _ hn
  · refine List.mem_append_right _ (List.mem_append_right _ ?_)
    exact List.mem_flatMap.mpr ⟨n, hn, List.mem_cons_self⟩

/-- The instructions of the program are still there. -/
theorem Inserted.mem (h : Inserted mpioptInit code cur head post) (hn : n ∈ code.nodes) :
    n ∈ cur.nodes := by
  obtain ⟨blk, hblk, hn⟩ := List.mem_flatMap.mp hn
  obtain ⟨b, hb⟩ := List.mem_iff_getElem?.mp hblk
  have hcur := h.block b
  rw [hb] at hcur
  exact Code.mem_nodes (List.mem_of_getElem? hcur) (mem_layout hn)

theorem flatMap_inserted {β : Type*} {g : Node → List β}
    (hg : ∀ n, Insertion mpioptInit code n → g n = []) :
    ∀ {hd : List Node}, (∀ n ∈ hd, Insertion mpioptInit code n) → hd.flatMap g = [] := by
  intro hd hhd
  rw [List.flatMap_eq_nil_iff]
  exact fun n hn => hg n (hhd n hn)

theorem flatMap_layout {β : Type*} {g : Node → List β}
    (hg : ∀ n, Insertion mpioptInit code n → g n = [])
    (hhd : ∀ n ∈ hd, Insertion mpioptInit code n)
    (hpost : ∀ p, ∀ n ∈ post p, Insertion mpioptInit code n) :
    (layout hd post ns).flatMap g = ns.flatMap g := by
  have hspread : ∀ rest : List Node, (spread post rest).flatMap g = rest.flatMap g := by
    intro rest
    induction rest with
    | nil => rfl
    | cons n rest ih =>
        rw [spread_cons, List.flatMap_cons, List.flatMap_append,
          flatMap_inserted hg (hpost n.ptr), List.nil_append, ih, List.flatMap_cons]
  rw [layout, List.flatMap_append, List.flatMap_append, flatMap_inserted hg hhd, List.nil_append,
    hspread, ← List.flatMap_append, List.takeWhile_append_dropWhile]

/-- The users of another function are those of the program. -/
theorem Inserted.users (h : Inserted mpioptInit code cur head post) {f : FuncId}
    (hf : f ≠ mpioptInit) : cur.users (.function f) = code.users (.function f) := by
  have hg : ∀ n, Insertion mpioptInit code n →
      (n.op.operands.filter (· == .function f)).map (fun _ => n) = [] := by
    intro n hn
    have hne : (Operand.function mpioptInit == Operand.function f) = false := by
      simpa using Ne.symm hf
    simp [hn.op, Op.operands, hne]
  have hblocks : cur.map (fun blk => blk.nodes.flatMap fun n =>
        (n.op.operands.filter (· == .function f)).map fun _ => n) =
      code.map (fun blk => blk.nodes.flatMap fun n =>
        (n.op.operands.filter (· == .function f)).map fun _ => n) := by
    refine List.ext_getElem? fun b => ?_
    rw [List.getElem?_map, List.getElem?_map, h.block b, Option.map_map]
    refine Option.map_congr fun blk _ => ?_
    exact flatMap_layout hg (h.heads b) h.posts
  simp only [Code.users, Code.nodes, List.flatMap_assoc]
  simpa only [List.flatMap_def] using congrArg List.flatten hblocks

end

namespace Module

variable {m : Module} {mpioptInit : FuncId} {malloc : Code → Ptr} {code cur : Code}
  {head : BlockId → List Node} {post : Ptr → List Node} {u : Node} {us vs : List Node}

/-- The user is an `invoke` that goes on in block `b`. -/
def isInto (b : BlockId) (u : Node) : Bool :=
  match u.op with
  | .invoke _ _ normal _ => normal == b
  | _ => false

/-- The user is a call, at address `p`. -/
def isAt (p : Ptr) (u : Node) : Bool := u.ptr == p && !u.op.isInvoke

/-- The code `cur` is `code` with a call inserted for each of these users. -/
structure Handled (mpioptInit : FuncId) (code cur : Code) (us : List Node)
    (head : BlockId → List Node) (post : Ptr → List Node) : Prop
    extends Inserted mpioptInit code cur head post where
  intoBlock : ∀ b, (head b).length = us.countP (isInto b)
  atCall : ∀ p, (post p).length = us.countP (isAt p)

theorem handled_start : Handled mpioptInit code code [] (fun _ => []) fun _ => [] :=
  ⟨inserted_start, fun _ => rfl, fun _ => rfl⟩

theorem isPhi_of_callBase {op : Op} (h : op.callBase.isSome) : op.isPhi = false := by
  cases op <;> first | rfl | simp [Op.callBase] at h

theorem length_update {α β : Type*} [DecidableEq α] {g : α → List β} {a c : α} {x : β} {k : Nat}
    (h : (g c).length = k) :
    (Function.update g a (x :: g a) c).length = k + if a = c then 1 else 0 := by
  by_cases hc : a = c
  · subst hc
    rw [Function.update_self, if_pos rfl, List.length_cons, h]
  · rw [Function.update_of_ne (Ne.symm hc), if_neg hc, h, Nat.add_zero]

/-- **Step lemma.**  One turn of a loop. -/
theorem Handled.turn (h : Handled mpioptInit code cur us head post) (hwf : code.WellFormed)
    (hmalloc : Fresh malloc) (hu : u ∈ code.nodes) (hc : u.op.callBase.isSome) :
    ∃ head' post',
      Handled mpioptInit code (addInitTurn mpioptInit malloc cur u) (us ++ [u]) head' post' := by
  have hnew : Insertion mpioptInit code (initCall mpioptInit malloc cur) := by
    refine ⟨rfl, fun hmem => ?_⟩
    obtain ⟨n, hn, heq⟩ := List.mem_map.mp hmem
    exact hmalloc cur (List.mem_map.mpr ⟨n, h.toInserted.mem hn, heq⟩)
  cases hop : u.op with
  | invoke callee args normal unwind =>
      simp only [addInitTurn, hop]
      refine ⟨_, _, h.toInserted.behindPhis hnew normal, fun b => ?_, fun p => ?_⟩
      · rw [length_update (h.intoBlock b), List.countP_append]
        simp [isInto, hop, List.countP_cons]
      · rw [h.atCall p, List.countP_append]
        simp [isAt, hop, Op.isInvoke]
  | call callee args =>
      have hphi : u.op.isPhi = false := isPhi_of_callBase hc
      simp only [addInitTurn, hop]
      refine ⟨_, _, h.toInserted.after hnew hwf hu hphi, fun b => ?_, fun p => ?_⟩
      · rw [h.intoBlock b, List.countP_append]
        simp [isInto, hop]
      · rw [length_update (h.atCall p), List.countP_append]
        simp [isAt, hop, Op.isInvoke, List.countP_cons]
  | _ => simp [hop, Op.callBase] at hc

theorem Handled.loop (hwf : code.WellFormed) (hmalloc : Fresh malloc) (vs : List Node) :
    ∀ {cur us head post}, Handled mpioptInit code cur us head post →
      (∀ v ∈ vs, v ∈ code.nodes ∧ v.op.callBase.isSome) →
      ∃ head' post', Handled mpioptInit code (vs.foldl (addInitTurn mpioptInit malloc) cur)
        (us ++ vs) head' post' := by
  induction vs with
  | nil =>
      intro cur us head post h _
      exact ⟨head, post, by rwa [List.append_nil]⟩
  | cons v rest ih =>
      intro cur us head post h hvs
      obtain ⟨hv, hc⟩ := hvs v List.mem_cons_self
      obtain ⟨head', post', h'⟩ := h.turn hwf hmalloc hv hc
      obtain ⟨head'', post'', h''⟩ := ih h' fun k hk => hvs k (List.mem_cons_of_mem _ hk)
      rw [List.append_assoc] at h''
      exact ⟨head'', post'', h''⟩

theorem mem_callUsers {f : Option FuncId} (hu : u ∈ callUsers code f) :
    u ∈ code.nodes ∧ u.op.callBase.isSome := by
  cases f with
  | none => exact absurd hu List.not_mem_nil
  | some f =>
      obtain ⟨hmem, hc⟩ := List.mem_filter.mp hu
      exact ⟨mem_users hmem, hc⟩

/-- `MPIOPT_INIT` is the function of that name. -/
def IsMpioptInit (m : Module) (f : FuncId) : Prop :=
  (m.functions[f]?).map Function.getName = some "MPIOPT_INIT"

theorem IsMpioptInit.ne (h : m.IsMpioptInit mpioptInit) (n : MpiFunction) :
    m.mpiFunc n ≠ some mpioptInit := by
  intro heq
  obtain ⟨F, hF, hname⟩ := mpiFunc_name heq
  unfold IsMpioptInit at h
  rw [hF, Option.map_some, hname] at h
  cases n <;> exact absurd h (by decide)

/-- What `add_init` makes of the code. -/
theorem addInit_handled (hwf : code.WellFormed) (hmalloc : Fresh malloc)
    (hinit : m.IsMpioptInit mpioptInit) :
    ∃ head post, Handled mpioptInit code (m.addInit mpioptInit malloc code).2 (m.initUsers code)
      head post := by
  have hstart : Handled mpioptInit code code [] (fun _ => []) fun _ => [] := handled_start
  obtain ⟨head, post, h⟩ := Handled.loop hwf hmalloc (callUsers code (m.mpiFunc .init)) hstart
    fun v hv => mem_callUsers hv
  have hsame : callUsers ((callUsers code (m.mpiFunc .init)).foldl (addInitTurn mpioptInit malloc) code)
      (m.mpiFunc .initThread) = callUsers code (m.mpiFunc .initThread) := by
    cases hf : m.mpiFunc .initThread with
    | none => rfl
    | some f =>
        have hne : f ≠ mpioptInit := fun heq => hinit.ne .initThread (heq ▸ hf)
        rw [callUsers, h.toInserted.users hne, callUsers]
  obtain ⟨head', post', h'⟩ := Handled.loop hwf hmalloc (callUsers code (m.mpiFunc .initThread)) h
    fun v hv => mem_callUsers hv
  refine ⟨head', post', ?_⟩
  unfold addInit addInitLoop
  simp only [hsame]
  exact h'

/-! ### What is ahead of an execution -/

/-- There are `k` insertions between here and the next instruction of the program. -/
def Ahead (mpioptInit : FuncId) (code : Code) (post : Ptr → List Node) (k : Nat) (ns : List Node) :
    Prop :=
  ns = [] ∨ ∃ phis ins rest, ns = phis ++ (ins ++ spread post rest) ∧
    (∀ n ∈ phis, n.op.isPhi = true) ∧ (∀ n ∈ ins, Insertion mpioptInit code n) ∧ ins.length = k ∧
    ∀ n ∈ rest, n ∈ code.nodes

section
variable {k : Nat} {n : Node} {rest : List Node} {b : BlockId} {f : FuncId}

/-- The next instruction is a PHI, an insertion, or one of the program. -/
theorem Ahead.cases (hpost : ∀ p, ∀ n ∈ post p, Insertion mpioptInit code n)
    (h : Ahead mpioptInit code post k (n :: rest)) :
    (n.op.isPhi = true ∧ Ahead mpioptInit code post k rest) ∨
      (Insertion mpioptInit code n ∧ ∃ j, k = j + 1 ∧ Ahead mpioptInit code post j rest) ∨
      (k = 0 ∧ n ∈ code.nodes ∧ Ahead mpioptInit code post (post n.ptr).length rest) := by
  rcases h with h | ⟨phis, ins, tail, heq, hphis, hins, hk, htail⟩
  · cases h
  cases phis with
  | cons p phis =>
      obtain ⟨rfl, rfl⟩ := List.cons.inj heq
      exact Or.inl ⟨hphis n List.mem_cons_self,
        Or.inr ⟨phis, ins, tail, rfl, fun k hk => hphis k (List.mem_cons_of_mem _ hk), hins, hk, htail⟩⟩
  | nil =>
      cases ins with
      | cons i ins =>
          obtain ⟨rfl, rfl⟩ := List.cons.inj heq
          refine Or.inr (Or.inl ⟨hins n List.mem_cons_self, ins.length, hk.symm, Or.inr ?_⟩)
          exact ⟨[], ins, tail, rfl, by simp, fun k hk => hins k (List.mem_cons_of_mem _ hk), rfl, htail⟩
      | nil =>
          cases tail with
          | nil => cases heq
          | cons t tail =>
              rw [spread_cons] at heq
              obtain ⟨rfl, rfl⟩ := List.cons.inj heq
              refine Or.inr (Or.inr ⟨hk.symm, htail n List.mem_cons_self, Or.inr ?_⟩)
              exact ⟨[], post n.ptr, tail, rfl, by simp, hpost n.ptr, rfl,
                fun k hk => htail k (List.mem_cons_of_mem _ hk)⟩

theorem Handled.block_ahead (h : Handled mpioptInit code cur us head post) (b : BlockId) :
    Ahead mpioptInit code post (us.countP (isInto b)) (cur.blockNodes b) := by
  rw [Code.blockNodes, h.toInserted.block b]
  cases hb : code[b]? with
  | none => exact Or.inl rfl
  | some blk =>
      refine Or.inr ⟨_, head b, _, rfl, fun n hn => ?_, h.heads b, h.intoBlock b, fun n hn => ?_⟩
      · exact List.mem_takeWhile_imp (p := fun n : Node => n.op.isPhi) hn
      · exact Code.mem_nodes (List.mem_of_getElem? hb) ((List.dropWhile_sublist _).subset hn)

theorem Handled.findIdx (h : Handled mpioptInit code cur us head post) (f : FuncId) :
    cur.findIdx? (·.function == f) = code.findIdx? (·.function == f) := by
  have hfun : cur.map Block.function = code.map Block.function := by
    refine List.ext_getElem? fun b => ?_
    rw [List.getElem?_map, List.getElem?_map, h.toInserted.block b, Option.map_map]
    rfl
  have hmap := fun c : Code => List.findIdx?_map (f := Block.function) (p := (· == f)) (l := c)
  have hcur := hmap cur
  rw [hfun, hmap code] at hcur
  exact hcur.symm

/-- No `invoke` goes on where a function starts. -/
theorem invokesInto_entry (hwf : code.WellFormed)
    (hb : code.findIdx? (·.function == f) = some b) : m.invokesInto code b = 0 := by
  refine List.countP_eq_zero.mpr fun u hu hinto => ?_
  have hmem : u ∈ code.nodes := by
    rcases List.mem_append.mp hu with hu | hu
    · exact (mem_callUsers hu).1
    · exact (mem_callUsers hu).1
  cases hop : u.op with
  | invoke callee args normal unwind =>
      simp only [hop, beq_iff_eq] at hinto
      have hsucc : b ∈ u.op.successors := by simp [hop, Op.successors, hinto]
      exact hwf.entries u hmem b hsucc f hb
  | _ => simp [hop] at hinto

theorem Handled.entry_ahead (h : Handled mpioptInit code cur (m.initUsers code) head post)
    (hwf : code.WellFormed) (f : FuncId) : Ahead mpioptInit code post 0 (cur.entryNodes f) := by
  rw [Code.entryNodes, h.findIdx f]
  cases hb : code.findIdx? (·.function == f) with
  | none => exact Or.inl rfl
  | some b =>
      have hahead := h.block_ahead b
      have hzero : (m.initUsers code).countP (isInto b) = 0 := invokesInto_entry hwf hb
      rw [hzero] at hahead
      exact hahead

/-- Only a call has users that are it. -/
theorem usesOf_eq_zero (hwf : code.WellFormed) (hn : n ∈ code.nodes) (hc : n.op.callBase = none) :
    m.usesOf code n = 0 := by
  refine List.countP_eq_zero.mpr fun u hu hat => ?_
  have hcall : u ∈ code.nodes ∧ u.op.callBase.isSome := by
    rcases List.mem_append.mp hu with hu | hu
    · exact mem_callUsers hu
    · exact mem_callUsers hu
  simp only [Bool.and_eq_true, beq_iff_eq] at hat
  obtain rfl : u = n := eq_of_ptr hwf hcall.1 hn hat.1
  rw [hc] at hcall
  exact absurd hcall.2 (by decide)

end

/-! ### What was done -/

/-- How many insertions are ahead after this. -/
def due (history : List InitEvent) : Nat := if history.getLast? = some .returned then 1 else 0

section
variable {history : List InitEvent} {e : InitEvent}

theorem due_push (history : List InitEvent) (e : InitEvent) :
    due (history ++ [e]) = if e = .returned then 1 else 0 := by
  simp [due]

theorem RunsOnce.nil : RunsOnce [] := ⟨by simp, by simp⟩

/-- The next thing done is the call of `MPIOPT_INIT` exactly if it is due. -/
theorem RunsOnce.push (h : RunsOnce history) (he : due history = 1 ↔ e = .ran) :
    RunsOnce (history ++ [e]) := by
  have hdue : history.getLast? = some .returned ↔ e = .ran := by
    rw [← he, due]
    split <;> simp_all
  constructor
  · intro i d hi hd
    have hlt : i < history.length := by
      by_contra hge
      rw [List.getElem?_eq_none (by simp; omega)] at hd
      cases hd
    rw [List.getElem?_append_left hlt] at hi
    by_cases hnext : i + 1 < history.length
    · rw [List.getElem?_append_left hnext] at hd
      exact h.after i d hi hd
    · have hlen : i + 1 = history.length := by omega
      have hlast : history.getLast? = some .returned := by
        rw [List.getLast?_eq_getElem?, ← hlen, Nat.add_sub_cancel, hi]
      rw [hlen, List.getElem?_concat_length] at hd
      exact (Option.some.inj hd).symm.trans (hdue.mp hlast)
  · intro i hi
    by_cases hlt : i < history.length
    · rw [List.getElem?_append_left hlt] at hi
      obtain ⟨j, rfl, hj⟩ := h.only i hi
      exact ⟨j, rfl, by rw [List.getElem?_append_left (by omega), hj]⟩
    · have hlen : i = history.length := by
        have hle := (List.getElem?_eq_some_iff.mp hi).1
        rw [List.length_append, List.length_singleton] at hle
        omega
      subst hlen
      rw [List.getElem?_concat_length] at hi
      have hlast := hdue.mpr (Option.some.inj hi)
      rw [List.getLast?_eq_getElem?] at hlast
      have hpos : 0 < history.length := by
        by_contra hzero
        rw [List.getElem?_eq_none (by omega)] at hlast
        cases hlast
      refine ⟨history.length - 1, by omega, ?_⟩
      rw [List.getElem?_append_left (by omega), hlast]

end

/-! ### Runs -/

/-- A call that has not come back yet, and what is ahead when it does. -/
def Waits (m : Module) (mpioptInit : FuncId) (code : Code) (post : Ptr → List Node) :
    List Node → Prop
  | n :: rest => n.op.callBase.isSome ∧
      ((Insertion mpioptInit code n ∧ Ahead mpioptInit code post 0 rest) ∨
        (n ∈ code.nodes ∧ Ahead mpioptInit code post (m.usesOf code n) rest))
  | [] => False

/-- Where control is with `k` insertions ahead. -/
def Stands (mpioptInit : FuncId) (code : Code) (post : Ptr → List Node) (k : Nat) :
    Spot (List Node) Exit → Prop
  | .at ns => Ahead mpioptInit code post k ns
  | .left _ => k = 0

/-- The whole stack. -/
def Stacked (m : Module) (mpioptInit : FuncId) (code : Code) (post : Ptr → List Node) (k : Nat) :
    Stack → Prop
  | [] => True
  | (_, s) :: below => Stands mpioptInit code post k s ∧
      ∀ x ∈ below, ∃ ns, x.2 = .at ns ∧ Waits m mpioptInit code post ns

structure InitInv (m : Module) (mpioptInit : FuncId) (code : Code) (post : Ptr → List Node)
    (r : InitRun) : Prop where
  once : RunsOnce r.history
  stack : Stacked m mpioptInit code post (due r.history) r.stack

section
variable {n : Node} {rest : List Node} {r r' : InitRun} {c : Procedures.Choice} {e : Exit}

theorem targetsInit_insertion (hinit : m.IsMpioptInit mpioptInit)
    (hn : Insertion mpioptInit code n) : m.targetsInit n.op = false := by
  have h1 : (some mpioptInit == m.mpiFunc .init) = false := by
    simpa using Ne.symm (hinit.ne .init)
  have h2 : (some mpioptInit == m.mpiFunc .initThread) = false := by
    simpa using Ne.symm (hinit.ne .initThread)
  simp [targetsInit, hn.op, Op.getCalledFunction, Op.callBase, h1, h2]

theorem credit_ret (n : Node) : (if m.exitEvent n .ret = .returned then 1 else 0) =
    if m.targetsInit n.op = true then 1 else 0 := by
  by_cases h : m.targetsInit n.op = true <;> simp [exitEvent, h]

theorem credit_unwind (n : Node) : (if m.exitEvent n .unwind = .returned then 1 else 0) = 0 := rfl

/-- A call that comes back. -/
theorem stands_continuation (h : Handled mpioptInit code cur (m.initUsers code) head post)
    (hinit : m.IsMpioptInit mpioptInit)
    (hw : (Insertion mpioptInit code n ∧ Ahead mpioptInit code post 0 rest) ∨
      (n ∈ code.nodes ∧ Ahead mpioptInit code post (m.usesOf code n) rest ∧
        m.properExit code n e = true)) :
    Stands mpioptInit code post (if m.exitEvent n e = .returned then 1 else 0)
      (cur.continuation n rest e) := by
  rcases hw with ⟨hn, hrest⟩ | ⟨-, hrest, hproper⟩
  · cases e with
    | ret =>
        have hc : cur.continuation n rest .ret = .at rest := by simp [Code.continuation, hn.op]
        rw [credit_ret, targetsInit_insertion hinit hn, hc]
        exact hrest
    | unwind =>
        have hc : cur.continuation n rest .unwind = .left .unwind := by
          simp [Code.continuation, hn.op]
        rw [credit_unwind, hc]
        rfl
  · cases e with
    | ret =>
        rw [credit_ret]
        cases hop : n.op with
        | invoke callee args normal unwind =>
            have hc : cur.continuation n rest .ret = .at (cur.blockNodes normal) := by
              simp [Code.continuation, hop]
            have hinto : (m.initUsers code).countP (isInto normal) =
                if m.targetsInit n.op = true then 1 else 0 := by
              simp only [properExit, hop, beq_iff_eq] at hproper
              rw [hop]
              exact hproper
            rw [hc, ← hop, ← hinto]
            exact h.block_ahead normal
        | _ =>
            have hc : cur.continuation n rest .ret = .at rest := by simp [Code.continuation, hop]
            have huses : m.usesOf code n = if m.targetsInit n.op = true then 1 else 0 := by
              simp only [properExit, hop, beq_iff_eq] at hproper
              rw [hop]
              exact hproper
            rw [hc, ← hop, ← huses]
            exact hrest
    | unwind =>
        rw [credit_unwind]
        cases hop : n.op with
        | invoke callee args normal unwind =>
            have hc : cur.continuation n rest .unwind = .at (cur.blockNodes unwind) := by
              simp [Code.continuation, hop]
            have hinto : (m.initUsers code).countP (isInto unwind) = 0 := by
              simp only [properExit, hop, beq_iff_eq] at hproper
              exact hproper
            rw [hc, ← hinto]
            exact h.block_ahead unwind
        | _ =>
            have hc : cur.continuation n rest .unwind = .left .unwind := by
              simp [Code.continuation, hop]
            rw [hc]
            rfl

theorem InitInv.push {stack : Stack} {d : InitEvent} (hI : InitInv m mpioptInit code post r)
    (hd : due r.history = 1 ↔ d = .ran)
    (hstack : Stacked m mpioptInit code post (if d = .returned then 1 else 0) stack) :
    InitInv m mpioptInit code post ⟨stack, r.history ++ [d]⟩ :=
  ⟨hI.once.push hd, by rw [due_push]; exact hstack⟩

/-- The program does not call `MPIOPT_INIT` itself. -/
def Unprepared (mpioptInit : FuncId) (code : Code) : Prop :=
  ∀ n ∈ code.nodes, targetsMpioptInit mpioptInit n.op = false

theorem targetsMpioptInit_insertion (hn : Insertion mpioptInit code n) :
    targetsMpioptInit mpioptInit n.op = true := by
  simp [targetsMpioptInit, hn.op, Op.getCalledFunction, Op.callBase]

theorem exitEvent_ne_ran (n : Node) (e : Exit) : m.exitEvent n e ≠ .ran := by
  cases e with
  | ret => by_cases h : m.targetsInit n.op = true <;> simp [exitEvent, h]
  | unwind => simp [exitEvent]

/-- An instruction of the program that enters no function. -/
theorem stands_moves (h : Handled mpioptInit code cur (m.initUsers code) head post)
    (hwf : code.WellFormed) (hinit : m.IsMpioptInit mpioptInit) (hn : n ∈ code.nodes)
    (hphi : n.op.isPhi = false) (hsource : targetsMpioptInit mpioptInit n.op = false)
    (hrest : Ahead mpioptInit code post (m.usesOf code n) rest) {f : FuncId} {below : Stack}
    {i : Nat} {s : Spot (List Node) Exit} (hs : (cur.moves n rest)[i]? = some s)
    (hproper : m.properStep code ((f, .at (n :: rest)) :: below) (.goes i) = true) :
    ∃ d, m.stepEvent mpioptInit ((f, .at (n :: rest)) :: below) (.goes i) = [d] ∧ d ≠ .ran ∧
      Stands mpioptInit code post (if d = .returned then 1 else 0) s := by
  have hplain : n.op.callBase = none →
      m.stepEvent mpioptInit ((f, .at (n :: rest)) :: below) (.goes i) = [.other] := by
    intro hc
    simp [stepEvent, hphi, hsource, hc]
  have hcall : n.op.callBase.isSome → (∀ e, [Exit.ret, .unwind][i]? = some e → m.properExit code n e = true) →
      cur.moves n rest = [Exit.ret, .unwind].map (cur.continuation n rest) →
      ∃ d, m.stepEvent mpioptInit ((f, .at (n :: rest)) :: below) (.goes i) = [d] ∧ d ≠ .ran ∧
        Stands mpioptInit code post (if d = .returned then 1 else 0) s := by
    intro hc hp hm
    rw [hm, List.getElem?_map, Option.map_eq_some_iff] at hs
    obtain ⟨e, he, rfl⟩ := hs
    refine ⟨m.exitEvent n e, ?_, exitEvent_ne_ran n e, ?_⟩
    · simp [stepEvent, hphi, hsource, hc, he]
    · exact stands_continuation h hinit (Or.inr ⟨hn, hrest, hp e he⟩)
  have hzero : n.op.callBase = none → Ahead mpioptInit code post 0 rest := fun hc =>
    usesOf_eq_zero (m := m) hwf hn hc ▸ hrest
  simp only [properStep] at hproper
  cases hop : n.op with
  | phi vs => simp [hop, Op.isPhi] at hphi
  | bitCast v | other vs =>
      have hc : n.op.callBase = none := by simp [hop, Op.callBase]
      refine ⟨.other, hplain hc, by simp, ?_⟩
      simp only [Code.moves, hop] at hs
      obtain rfl : s = .at rest := by
        cases i with
        | zero => exact (Option.some.inj hs).symm
        | succ i => cases hs
      exact hzero hc
  | call callee args | invoke callee args normal unwind =>
      simp only [hop] at hproper
      refine hcall (by simp [hop, Op.callBase]) ?_ (by simp [Code.moves, hop])
      intro e he
      simpa only [he, Option.all_some] using hproper
  | br vs dests =>
      have hc : n.op.callBase = none := by simp [hop, Op.callBase]
      refine ⟨.other, hplain hc, by simp, ?_⟩
      simp only [hop] at hproper
      simp only [Code.moves, hop, List.getElem?_map, Option.map_eq_some_iff] at hs
      obtain ⟨b, hb, rfl⟩ := hs
      rw [hb, Option.all_some, beq_iff_eq] at hproper
      have hinto : (m.initUsers code).countP (isInto b) = 0 := hproper
      have hahead := h.block_ahead b
      rw [hinto] at hahead
      exact hahead
  | ret vs | resume vs =>
      have hc : n.op.callBase = none := by simp [hop, Op.callBase]
      refine ⟨.other, hplain hc, by simp, ?_⟩
      simp only [Code.moves, hop] at hs
      cases i with
      | zero => exact Option.some.inj hs ▸ rfl
      | succ i => cases hs
  | unreachable => simp [Code.moves, hop] at hs

theorem due_le (history : List InitEvent) : due history = 0 ∨ due history = 1 := by
  unfold due
  split <;> simp

section
variable {stack : Stack} {history : List InitEvent} {f g : FuncId} {ns : List Node} {below : Stack}

theorem InitInv.goes {i : Nat} {s : Spot (List Node) Exit}
    (h : Handled mpioptInit code cur (m.initUsers code) head post) (hwf : code.WellFormed)
    (hinit : m.IsMpioptInit mpioptInit) (hsource : Unprepared mpioptInit code)
    (hI : InitInv m mpioptInit code post ⟨(f, .at (n :: rest)) :: below, history⟩)
    (hproper : m.properStep code ((f, .at (n :: rest)) :: below) (.goes i) = true)
    (hs : (cur.moves n rest)[i]? = some s) :
    InitInv m mpioptInit code post ⟨(f, s) :: below,
      history ++ m.stepEvent mpioptInit ((f, .at (n :: rest)) :: below) (.goes i)⟩ := by
  obtain ⟨hahead, hbelow⟩ := hI.stack
  have hdue : due history = 0 ∨ due history = 1 := due_le history
  have phi : n.op.isPhi = true →
      m.stepEvent mpioptInit ((f, .at (n :: rest)) :: below) (.goes i) = [] ∧ s = .at rest ∧
        n.op.callBase = none := by
    intro hphi
    refine ⟨by simp [stepEvent, hphi], ?_⟩
    cases hop : n.op <;> simp only [hop, Op.isPhi, Bool.false_eq_true] at hphi
    simp only [Code.moves, hop] at hs
    refine ⟨?_, rfl⟩
    cases i with
    | zero => exact (Option.some.inj hs).symm
    | succ i => cases hs
  rcases Ahead.cases h.toInserted.posts hahead with ⟨hphi, hrest⟩ | ⟨hn, j, hj, hrest⟩ |
    ⟨hzero, hn, hrest⟩
  · obtain ⟨hev, rfl, -⟩ := phi hphi
    rw [hev, List.append_nil]
    exact ⟨hI.once, hrest, hbelow⟩
  · -- an insertion
    have hone : due history = 1 := hdue.resolve_left (by simp only at hj; omega)
    obtain rfl : j = 0 := by simp only at hj; omega
    have hev : m.stepEvent mpioptInit ((f, .at (n :: rest)) :: below) (.goes i) = [.ran] := by
      simp [stepEvent, hn.not_phi, targetsMpioptInit_insertion hn]
    rw [hev]
    refine hI.push (by simp [hone]) ⟨?_, hbelow⟩
    simp only [Code.moves, hn.op, List.getElem?_map, Option.map_eq_some_iff] at hs
    obtain ⟨e, -, rfl⟩ := hs
    cases e with
    | ret =>
        simp only [Code.continuation, hn.op]
        exact hrest
    | unwind =>
        simp only [Code.continuation, hn.op]
        rfl
  · -- an instruction of the program
    have huses : (post n.ptr).length = m.usesOf code n := h.atCall n.ptr
    have hzero' : due history = 0 := hzero
    rw [huses] at hrest
    by_cases hphi : n.op.isPhi = true
    · obtain ⟨hev, rfl, hc⟩ := phi hphi
      rw [usesOf_eq_zero hwf hn hc] at hrest
      rw [hev, List.append_nil]
      refine ⟨hI.once, ?_, hbelow⟩
      rw [hzero']
      exact hrest
    · obtain ⟨d, hev, hran, hstands⟩ := stands_moves h hwf hinit hn (by simpa using hphi)
        (hsource n hn) hrest hs hproper
      rw [hev]
      exact hI.push (by simp [hzero', hran]) ⟨hstands, hbelow⟩

theorem InitInv.enters (h : Handled mpioptInit code cur (m.initUsers code) head post)
    (hwf : code.WellFormed) (hsource : Unprepared mpioptInit code)
    (hI : InitInv m mpioptInit code post ⟨(f, .at (n :: rest)) :: below, history⟩)
    (hc : n.op.callBase.isSome) (g : FuncId) :
    InitInv m mpioptInit code post ⟨(g, .at (cur.entryNodes g)) :: (f, .at (n :: rest)) :: below,
      history ++ m.stepEvent mpioptInit ((f, .at (n :: rest)) :: below) .enters⟩ := by
  obtain ⟨hahead, hbelow⟩ := hI.stack
  have hdue : due history = 0 ∨ due history = 1 := due_le history
  have hentry := h.entry_ahead (m := m) hwf g
  rcases Ahead.cases h.toInserted.posts hahead with ⟨hphi, hrest⟩ | ⟨hn, j, hj, hrest⟩ |
    ⟨hzero, hn, hrest⟩
  · rw [isPhi_of_callBase hc] at hphi
    cases hphi
  · have hone : due history = 1 := hdue.resolve_left (by simp only at hj; omega)
    obtain rfl : j = 0 := by simp only at hj; omega
    have hev : m.stepEvent mpioptInit ((f, .at (n :: rest)) :: below) .enters = [.ran] := by
      simp [stepEvent, targetsMpioptInit_insertion hn]
    rw [hev]
    refine hI.push (by simp [hone]) ⟨hentry, ?_⟩
    rintro x (_ | ⟨_, hx⟩)
    · exact ⟨_, rfl, hc, Or.inl ⟨hn, hrest⟩⟩
    · exact hbelow x hx
  · have huses : (post n.ptr).length = m.usesOf code n := h.atCall n.ptr
    have hzero' : due history = 0 := hzero
    rw [huses] at hrest
    have hev : m.stepEvent mpioptInit ((f, .at (n :: rest)) :: below) .enters = [.other] := by
      simp [stepEvent, hsource n hn]
    rw [hev]
    refine hI.push (by simp [hzero']) ⟨hentry, ?_⟩
    rintro x (_ | ⟨_, hx⟩)
    · exact ⟨_, rfl, hc, Or.inr ⟨hn, hrest⟩⟩
    · exact hbelow x hx

theorem InitInv.leaves (h : Handled mpioptInit code cur (m.initUsers code) head post)
    (hinit : m.IsMpioptInit mpioptInit)
    (hI : InitInv m mpioptInit code post ⟨(g, .left e) :: (f, .at ns) :: below, history⟩)
    (hproper : m.properStep code ((g, .left e) :: (f, .at ns) :: below) .leaves = true) :
    InitInv m mpioptInit code post ⟨(f, cur.procedures.after f ns e) :: below,
      history ++ m.stepEvent mpioptInit ((g, .left e) :: (f, .at ns) :: below) .leaves⟩ := by
  obtain ⟨hzero, hbelow⟩ := hI.stack
  obtain ⟨ns', heq, hwaits⟩ := hbelow _ List.mem_cons_self
  obtain rfl : ns = ns' := by simpa using heq
  have hzero' : due history = 0 := hzero
  cases ns with
  | nil => exact hwaits.elim
  | cons n rest =>
      obtain ⟨hc, hw⟩ := hwaits
      have hev : m.stepEvent mpioptInit ((g, .left e) :: (f, .at (n :: rest)) :: below) .leaves =
          [m.exitEvent n e] := rfl
      rw [hev]
      refine hI.push (by simp [hzero', exitEvent_ne_ran]) ⟨?_, fun x hx => hbelow x (.tail _ hx)⟩
      exact stands_continuation h hinit (hw.imp id fun ⟨hn, hrest⟩ => ⟨hn, hrest, hproper⟩)

end

/-- **Step lemma.** -/
theorem InitInv.step (h : Handled mpioptInit code cur (m.initUsers code) head post)
    (hwf : code.WellFormed) (hinit : m.IsMpioptInit mpioptInit) (hsource : Unprepared mpioptInit code)
    (hI : InitInv m mpioptInit code post r) (hproper : m.properStep code r.stack c = true)
    (hs : m.initStep mpioptInit cur r c = some r') : InitInv m mpioptInit code post r' := by
  obtain ⟨stack', hstep, rfl⟩ := Option.map_eq_some_iff.mp hs
  obtain ⟨stack, history⟩ := r
  simp only at hstep hproper ⊢
  unfold Procedures.step at hstep
  split at hstep
  · rename_i f ns below i
    split at hstep
    · cases hstep
    · obtain ⟨s, hnext, rfl⟩ := Option.map_eq_some_iff.mp hstep
      cases ns with
      | nil => simp [Code.procedures] at hnext
      | cons n rest => exact hI.goes h hwf hinit hsource hproper hnext
  · rename_i f ns below
    obtain ⟨g, htarget, rfl⟩ := Option.map_eq_some_iff.mp hstep
    cases ns with
    | nil => simp [Code.procedures] at htarget
    | cons n rest =>
        have hc : n.op.callBase.isSome := by
          have hcalled : n.op.getCalledFunction.isSome := by
            simp only [Code.procedures, List.head?_cons, Option.bind_some] at htarget
            rw [(Option.filter_eq_some_iff.mp htarget).1]
            rfl
          cases hop : n.op <;> simp_all [Op.getCalledFunction, Op.callBase]
        exact hI.enters h hwf hsource hc g
  · cases hstep
    exact hI.leaves h hinit hproper
  · cases hstep

/--
**The initialisation runs exactly once**: in every execution that takes proper steps only,
`MPIOPT_INIT` runs once right after each normal return of `MPI_Init` or `MPI_Init_thread`, and
nowhere else.
-/
theorem addInit_runsOnce {f : FuncId} (hwf : code.WellFormed) (hmalloc : Fresh malloc)
    (hinit : m.IsMpioptInit mpioptInit) (hsource : Unprepared mpioptInit code)
    (hr : Reach (m.initStep mpioptInit (m.addInit mpioptInit malloc code).2)
      (fun r c => m.properStep code r.stack c = true)
      (InitStarted (m.addInit mpioptInit malloc code).2 f) r) : RunsOnce r.history := by
  obtain ⟨head, post, h⟩ := addInit_handled (m := m) hwf hmalloc hinit
  have hI : InitInv m mpioptInit code post r := by
    refine hr.invariant ?_ fun _ _ _ hI hproper hs => hI.step h hwf hinit hsource hproper hs
    rintro ⟨stack, history⟩ ⟨rfl, rfl⟩
    exact ⟨.nil, h.entry_ahead hwf f, by simp⟩
  exact hI.once

end

/-! ### Two programs -/

def initModule : Module where
  functions := ["main", "MPI_Init", "MPI_Init_thread", "MPIOPT_INIT"].map (⟨·, false, []⟩)
  names := by decide

/-- `main` calls `MPI_Init` and invokes `MPI_Init_thread`. -/
def initCode : Code :=
  [⟨0, [⟨0, .call (.function 1) []⟩, ⟨1, .invoke (.function 2) [] 1 2⟩]⟩,
    ⟨0, [⟨2, .phi [.inst 1]⟩, ⟨3, .ret []⟩]⟩,
    ⟨0, [⟨4, .other []⟩, ⟨5, .resume [.inst 4]⟩]⟩]

/-- `main` goes on in one block whether it has invoked `MPI_Init` or not. -/
def sharedCode : Code :=
  [⟨0, [⟨0, .br [.other 0] [1, 2]⟩]⟩,
    ⟨0, [⟨1, .invoke (.function 1) [] 2 3⟩]⟩,
    ⟨0, [⟨2, .ret []⟩]⟩,
    ⟨0, [⟨3, .other []⟩, ⟨4, .resume [.inst 3]⟩]⟩]

def preparedCode (code : Code) : Code := (initModule.addInit 3 nextPtr code).2

/-- `main` is called. -/
def mainStarts (code : Code) : InitRun := ⟨[(0, .at (code.entryNodes 0))], []⟩

/-- Both calls return. -/
def initRun : List Procedures.Choice := List.replicate 6 (.goes 0)

theorem initCode_runsOnce :
    match runFrom (guarded (fun r c => initModule.properStep initCode r.stack c)
      (initModule.initStep 3 (preparedCode initCode))) (mainStarts (preparedCode initCode))
      initRun with
    | some r => RunsOnce r.history ∧ r.history = [.returned, .ran, .returned, .ran, .other]
    | none => False := by
  have hrun : (runFrom (guarded (fun r c => initModule.properStep initCode r.stack c)
      (initModule.initStep 3 (preparedCode initCode))) (mainStarts (preparedCode initCode))
      initRun).any
        (fun r => decide (r.history = [.returned, .ran, .returned, .ran, .other])) = true := by
    decide +kernel
  cases h : runFrom (guarded (fun r c => initModule.properStep initCode r.stack c)
      (initModule.initStep 3 (preparedCode initCode))) (mainStarts (preparedCode initCode))
      initRun with
  | none => simp [h] at hrun
  | some r =>
      simp only [h, Option.any_some, decide_eq_true_eq] at hrun
      have hstart : InitStarted (preparedCode initCode) 0 (mainStarts (preparedCode initCode)) :=
        ⟨rfl, rfl⟩
      have hinit : initModule.IsMpioptInit 3 := rfl
      have hsource : ∀ n ∈ initCode.nodes, targetsMpioptInit 3 n.op = false := by decide
      exact ⟨addInit_runsOnce (Code.wellFormed_of_check (by decide)) fresh_nextPtr
        hinit hsource (.of_guarded (fun _ _ hp => hp) _ (.init hstart) h), hrun⟩

/-- A run of `main` that does not call `MPI_Init`, and runs `MPIOPT_INIT`. -/
theorem sharedCode_runsWithout :
    sharedCode.WellFormed ∧
      match runFrom (initModule.initStep 3 (preparedCode sharedCode))
        (mainStarts (preparedCode sharedCode)) [.goes 1, .goes 0] with
      | some r => r.history = [.other, .ran] ∧ ¬ RunsOnce r.history
      | none => False := by
  refine ⟨Code.wellFormed_of_check (by decide), ?_⟩
  have hrun : (runFrom (initModule.initStep 3 (preparedCode sharedCode))
      (mainStarts (preparedCode sharedCode)) [.goes 1, .goes 0]).any
        (fun r => decide (r.history = [.other, .ran])) = true := by
    decide +kernel
  cases h : runFrom (initModule.initStep 3 (preparedCode sharedCode))
      (mainStarts (preparedCode sharedCode)) [.goes 1, .goes 0] with
  | none => simp [h] at hrun
  | some r =>
      simp only [h, Option.any_some, decide_eq_true_eq] at hrun
      refine ⟨hrun, fun honce => ?_⟩
      rw [hrun] at honce
      obtain ⟨j, hj, hreturned⟩ := honce.only 1 rfl
      obtain rfl : j = 0 := by omega
      cases hreturned

end Module

end CompMatch.Pass

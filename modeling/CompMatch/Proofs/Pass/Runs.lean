/-
What an execution of changed code has to do with one of the code before.

`Rewriting` says what may be changed: an instruction may be replaced by one that passes
control on in the same way, and calls of functions that are not defined may be inserted
anywhere.  Either program follows the other one then.  Control is at related places where
the rest of the block is the same, but for the inserted calls.
-/
import CompMatch.Pass.RunOnModule
import CompMatch.Proofs.Pass.Replacement

namespace CompMatch.Pass

/-- An instruction without its operands: what matters for where control goes. -/
def Op.control : Op → Op
  | .phi _ | .bitCast _ | .other _ => .other []
  | .call _ _ => .call (.other 0) []
  | .invoke _ _ normal unwind => .invoke (.other 0) [] normal unwind
  | .br _ dests => .br [] dests
  | .ret _ => .ret []
  | .resume _ => .resume []
  | .unreachable => .unreachable

namespace Code

/-! ### Where control goes -/

section
variable {A B : Code} {R : List Node → List Node → Prop} {n k : Node} {rest rest' : List Node}
  {e : Module.Exit} {i : Nat} {s : Spot (List Node) Module.Exit}

theorem continuation_control (code : Code) (n : Node) :
    code.continuation n rest e = code.continuation ⟨0, n.op.control⟩ rest e := by
  obtain ⟨p, op⟩ := n
  cases e <;> cases op <;> rfl

theorem moves_control (code : Code) (n : Node) :
    code.moves n rest = code.moves ⟨0, n.op.control⟩ rest := by
  obtain ⟨p, op⟩ := n
  cases op <;> rfl

theorem continuation_alike (hblocks : ∀ b, R (A.blockNodes b) (B.blockNodes b))
    (hop : n.op.control = k.op.control) (hrest : R rest rest') (e : Module.Exit) :
    (A.continuation n rest e).Alike R (B.continuation k rest' e) := by
  rw [continuation_control A, continuation_control B, hop]
  cases e with
  | ret =>
      cases k.op.control with
      | invoke callee args normal unwind => exact .at (hblocks normal)
      | _ => exact .at hrest
  | unwind =>
      cases k.op.control with
      | invoke callee args normal unwind => exact .at (hblocks unwind)
      | _ => exact .left _

/-- Control can go to related places. -/
theorem moves_alike (hblocks : ∀ b, R (A.blockNodes b) (B.blockNodes b))
    (hop : n.op.control = k.op.control) (hrest : R rest rest') (hs : (A.moves n rest)[i]? = some s) :
    ∃ t, (B.moves k rest')[i]? = some t ∧ s.Alike R t := by
  have hcall : ∀ {op : Op}, ([Module.Exit.ret, .unwind].map (A.continuation ⟨0, op⟩ rest))[i]? = some s →
      ∃ t, ([Module.Exit.ret, .unwind].map (B.continuation ⟨0, op⟩ rest'))[i]? = some t ∧ s.Alike R t := by
    intro op hs
    rw [List.getElem?_map] at hs ⊢
    obtain ⟨e, he, rfl⟩ := Option.map_eq_some_iff.mp hs
    refine ⟨_, by rw [he]; rfl, ?_⟩
    exact continuation_alike hblocks rfl hrest e
  have hone : ∀ {x y : Spot (List Node) Module.Exit}, [x][i]? = some s → x.Alike R y →
      ∃ t, [y][i]? = some t ∧ s.Alike R t := by
    intro x y hs hxy
    cases i with
    | zero =>
        obtain rfl : x = s := Option.some.inj hs
        exact ⟨y, rfl, hxy⟩
    | succ i => simp at hs
  rw [moves_control] at hs ⊢
  rw [hop] at hs
  cases hk : k.op.control with
  | phi vs | bitCast v | other vs =>
      rw [hk] at hs
      exact hone hs (.at hrest)
  | call callee args | invoke callee args normal unwind =>
      rw [hk] at hs
      exact hcall hs
  | br vs dests =>
      rw [hk] at hs
      simp only [moves, List.getElem?_map] at hs ⊢
      obtain ⟨b, hb, rfl⟩ := Option.map_eq_some_iff.mp hs
      exact ⟨_, by rw [hb]; rfl, .at (hblocks b)⟩
  | ret vs | resume vs =>
      rw [hk] at hs
      exact hone hs (.left _)
  | unreachable =>
      rw [hk] at hs
      simp [moves] at hs

end

/-! ### Where control is -/

section
variable {code : Code} {stack stack' : Stack} {c : Procedures.Choice} {n : Node} {b : BlockId}

theorem mem_blockNodes (hn : n ∈ code.blockNodes b) : n ∈ code.nodes := by
  unfold blockNodes at hn
  cases hc : code[b]? with
  | none => simp [hc] at hn
  | some blk =>
      rw [hc] at hn
      exact mem_nodes (List.mem_of_getElem? hc) hn

/-- What lies ahead of every activation is code. -/
def StackIn (code : Code) (stack : Stack) : Prop :=
  ∀ f ns, (f, .at ns) ∈ stack → ∀ n ∈ ns, n ∈ code.nodes

theorem mem_entryNodes {f : FuncId} (hn : n ∈ code.entryNodes f) : n ∈ code.nodes := by
  unfold entryNodes at hn
  cases hf : code.findIdx? (·.function == f) with
  | none => simp [hf] at hn
  | some b =>
      rw [hf] at hn
      exact mem_blockNodes hn

theorem stackIn_started {f : FuncId} (h : code.procedures.Started f stack) : StackIn code stack := by
  intro g ns hmem n hn
  rw [h, List.mem_singleton] at hmem
  cases hmem
  exact mem_entryNodes hn

/-- Where a call comes back to, there is code ahead. -/
theorem mem_continuation {rest ns : List Node} {e : Module.Exit} (hrest : ∀ n ∈ rest, n ∈ code.nodes)
    (he : code.continuation n rest e = .at ns) : ∀ k ∈ ns, k ∈ code.nodes := by
  cases e <;> unfold continuation at he <;> simp only at he <;> split at he <;> cases he
  · exact fun k hk => mem_blockNodes hk
  · exact hrest
  · exact fun k hk => mem_blockNodes hk

theorem mem_moves {rest ns : List Node} (hrest : ∀ n ∈ rest, n ∈ code.nodes)
    (hs : .at ns ∈ code.moves n rest) : ∀ k ∈ ns, k ∈ code.nodes := by
  unfold moves at hs
  split at hs
  case h_4 | h_5 =>
    obtain ⟨e, -, he⟩ := List.mem_map.mp hs
    exact mem_continuation hrest he
  case h_6 =>
    obtain ⟨b, -, he⟩ := List.mem_map.mp hs
    cases he
    exact fun k hk => mem_blockNodes hk
  all_goals simp at hs
  all_goals
    subst hs
    exact hrest

theorem StackIn.step (h : StackIn code stack) (hs : code.procedures.step stack c = some stack') :
    StackIn code stack' := by
  unfold Procedures.step at hs
  split at hs
  · rename_i f ns below i
    split at hs
    · cases hs
    · obtain ⟨s, hnext, rfl⟩ := Option.map_eq_some_iff.mp hs
      intro g ns' hmem
      rcases List.mem_cons.mp hmem with heq | hmem
      · cases ns with
        | nil => simp [procedures] at hnext
        | cons k rest =>
            obtain ⟨rfl, rfl⟩ := Prod.mk.inj heq
            refine mem_moves (fun n hn => ?_) (List.mem_of_getElem? hnext)
            exact h _ _ List.mem_cons_self n (List.mem_cons_of_mem _ hn)
      · exact h g ns' (List.mem_cons_of_mem _ hmem)
  · rename_i f ns below
    obtain ⟨g, -, rfl⟩ := Option.map_eq_some_iff.mp hs
    intro g' ns' hmem
    rcases List.mem_cons.mp hmem with heq | hmem
    · cases heq
      exact fun n hn => mem_entryNodes hn
    · exact h g' ns' hmem
  · rename_i f e g ns below
    cases hs
    intro g' ns' hmem
    rcases List.mem_cons.mp hmem with heq | hmem
    · cases ns with
      | nil => simp [procedures] at heq
      | cons k rest =>
          refine mem_continuation (fun n hn => ?_) (Prod.mk.inj heq).2.symm
          exact h g _ (List.mem_cons_of_mem _ List.mem_cons_self) n (List.mem_cons_of_mem _ hn)
    · exact h g' ns' (List.mem_cons_of_mem _ (List.mem_cons_of_mem _ hmem))
  · cases hs

/-- A step goes through one instruction at most. -/
theorem shows_cases (stack : Stack) (c : Procedures.Choice) :
    Procedures.shows visible stack c = [] ∨ ∃ n, Procedures.shows visible stack c = [n] := by
  unfold Procedures.shows
  split
  · rename_i f ns below i
    cases ns with
    | nil => exact Or.inl rfl
    | cons n rest => exact Or.inr ⟨n, rfl⟩
  · rename_i f ns below
    cases ns with
    | nil => exact Or.inl rfl
    | cons n rest => exact Or.inr ⟨n, rfl⟩
  · exact Or.inl rfl

/-- What is gone through is an instruction of the code. -/
theorem mem_shows (h : StackIn code stack) (hn : n ∈ Procedures.shows visible stack c) : n ∈ code.nodes := by
  unfold Procedures.shows at hn
  split at hn
  · rename_i f ns below i
    cases ns with
    | nil => simp [visible] at hn
    | cons k rest =>
        obtain rfl : n = k := by simpa [visible] using hn
        exact h f _ List.mem_cons_self n List.mem_cons_self
  · rename_i f ns below
    cases ns with
    | nil => simp [visible] at hn
    | cons k rest =>
        obtain rfl : n = k := by simpa [visible] using hn
        exact h f _ List.mem_cons_self n List.mem_cons_self
  · cases hn

/-- An execution goes through instructions of the code. -/
theorem Runs.mem {m : Module} {f : FuncId} {trace : List Node} {outcome : Option Module.Exit}
    (h : Runs m code f trace outcome) (hn : n ∈ trace) : n ∈ code.nodes := by
  obtain ⟨x, hx, rfl, -⟩ := h
  have hI : StackIn code x.stack ∧ ∀ k ∈ x.trace, k ∈ code.nodes := by
    refine hx.invariant (I := fun x : Run => StackIn code x.stack ∧ ∀ k ∈ x.trace, k ∈ code.nodes) ?_ ?_
    · rintro x ⟨hstack, htrace⟩
      exact ⟨stackIn_started hstack, by simp [htrace]⟩
    · rintro x x' c ⟨hstack, htrace⟩ - hs
      obtain ⟨stack, hstep, rfl⟩ := Option.map_eq_some_iff.mp hs
      refine ⟨hstack.step hstep, fun k hk => ?_⟩
      rcases List.mem_append.mp hk with hk | hk
      · exact htrace k hk
      · exact mem_shows hstack hk
  exact hI.2 n hn

end

/-! ### Code that was changed -/

/-- The defined function that an instruction enters. -/
def entered (code : Code) (op : Op) : Option FuncId :=
  op.getCalledFunction.filter fun f => code.any (·.function == f)

/-- The code `code'` is `code` with every instruction `n` replaced by `e n`, and with calls inserted. -/
structure Rewriting (m : Module) (ins : Node → Bool) (e : Node → Node) (code code' : Code) : Prop where
  erase : code'.mapNodes (·.filter fun n => !ins n) = code.mapNodes (·.map e)
  inserted : ∀ n ∈ code'.nodes, ins n = true →
    (∃ f, n.op = .call (.function f) []) ∧ code'.entered n.op = none ∧
      m.isMpiFunction n.op.getCalledFunction = true
  control : ∀ n ∈ code.nodes, (e n).op.control = n.op.control
  enters : ∀ n ∈ code.nodes, code.entered (e n).op = code.entered n.op
  mpi : ∀ n ∈ code.nodes,
    m.isMpiFunction (e n).op.getCalledFunction = m.isMpiFunction n.op.getCalledFunction

section
variable {m : Module} {ins : Node → Bool} {e : Node → Node} {code code' : Code} {n k : Node}
  {ns ns' rest rest' : List Node} {f g : FuncId} {i : Nat}

variable (ins e code code') in
/-- Control is at the same place: what is left of the block is the same. -/
structure SamePlace (ns' ns : List Node) : Prop where
  rest : ns'.filter (fun n => !ins n) = ns.map e
  new : ∀ n ∈ ns', n ∈ code'.nodes
  old : ∀ n ∈ ns, n ∈ code.nodes

theorem function_mapNodes (code : Code) (g : List Node → List Node) :
    (code.mapNodes g).map Block.function = code.map Block.function := by
  simp [mapNodes]

theorem Rewriting.functions (h : Rewriting m ins e code code') :
    code'.map Block.function = code.map Block.function := by
  rw [← function_mapNodes code' (·.filter fun n => !ins n), h.erase, function_mapNodes]

/-- Which functions are defined is all that counts. -/
theorem entered_congr {A B : Code} (h : A.map Block.function = B.map Block.function) {op : Op} :
    A.entered op = B.entered op := by
  have hany : ∀ c : Code, (fun f => c.any (·.function == f)) =
      fun f => (c.map Block.function).any (· == f) := by
    intro c
    funext f
    rw [List.any_map]
    rfl
  rw [entered, entered, hany, hany, h]

theorem Rewriting.entered_eq (h : Rewriting m ins e code code') (op : Op) :
    code'.entered op = code.entered op := entered_congr h.functions

theorem Rewriting.block (h : Rewriting m ins e code code') (b : BlockId) :
    SamePlace ins e code code' (code'.blockNodes b) (code.blockNodes b) := by
  have hb := congrArg (fun A : Code => A[b]?) h.erase
  simp only [mapNodes, List.getElem?_map] at hb
  refine ⟨?_, fun n hn => mem_blockNodes hn, fun n hn => mem_blockNodes hn⟩
  unfold blockNodes
  cases hc : code[b]? with
  | none =>
      rw [hc, Option.map_none, Option.map_eq_none_iff] at hb
      rw [hb]
      rfl
  | some blk =>
      rw [hc, Option.map_some] at hb
      obtain ⟨blk', hblk', heq⟩ := Option.map_eq_some_iff.mp hb
      rw [hblk']
      exact congrArg Block.nodes heq

theorem Rewriting.entry (h : Rewriting m ins e code code') (f : FuncId) :
    SamePlace ins e code code' (code'.entryNodes f) (code.entryNodes f) := by
  have hfind : ∀ c : Code, c.findIdx? (·.function == f) = (c.map Block.function).findIdx? (· == f) := by
    intro c
    rw [List.findIdx?_map]
    rfl
  unfold entryNodes
  rw [hfind code', h.functions, ← hfind code]
  cases code.findIdx? (·.function == f) with
  | none => exact ⟨rfl, by simp, by simp⟩
  | some b => exact h.block b

theorem SamePlace.skip (h : SamePlace ins e code code' (k :: rest') ns) (hk : ins k = true) :
    SamePlace ins e code code' rest' ns := by
  refine ⟨?_, fun n hn => h.new n (List.mem_cons_of_mem _ hn), h.old⟩
  have hrest := h.rest
  rwa [List.filter_cons_of_neg (by simp [hk])] at hrest

/-- The next instruction is the one that replaces the one of the program. -/
theorem SamePlace.next (h : SamePlace ins e code code' (k :: rest') ns) (hk : ins k = false) :
    ∃ n rest, ns = n :: rest ∧ k = e n ∧ n ∈ code.nodes ∧ SamePlace ins e code code' rest' rest := by
  have hrest := h.rest
  rw [List.filter_cons_of_pos (by simp [hk])] at hrest
  obtain ⟨n, rest, rfl, hn, hrest⟩ := List.map_eq_cons_iff.mp hrest.symm
  exact ⟨n, rest, rfl, hn.symm, h.old n List.mem_cons_self, hrest.symm,
    fun x hx => h.new x (List.mem_cons_of_mem _ hx), fun x hx => h.old x (List.mem_cons_of_mem _ hx)⟩

/-- What is shown of the changed code: not the inserted calls. -/
def shown (ins : Node → Bool) (n : Node) : List Node := if ins n then [] else [n]

theorem flatMap_shown (l : List Node) : l.flatMap (shown ins) = l.filter fun n => !ins n := by
  induction l with
  | nil => rfl
  | cons n rest ih =>
      rw [List.flatMap_cons, ih]
      cases hn : ins n <;> simp [shown, hn]

theorem target_eq (code : Code) (f : FuncId) (n : Node) (rest : List Node) :
    code.procedures.target f (n :: rest) = code.entered n.op := rfl

/-! ### Either program follows the other -/

/-- The changed program does what the program does. -/
theorem Rewriting.forth (h : Rewriting m ins e code code') :
    Follows code'.procedures code.procedures (fun f ns => (visible f ns).flatMap (shown ins))
      (fun f ns => (visible f ns).flatMap fun n => [e n]) m.NoThrow m.NoThrow
      fun _ => SamePlace ins e code code' := by
  refine ⟨h.entry, ?_, ?_⟩
  · intro f ns' ns i s hp ht hs hok
    cases ns' with
    | nil => simp [procedures] at hs
    | cons k rest' =>
        cases hk : ins k with
        | true =>
            -- the inserted call returns
            left
            obtain ⟨⟨g, hop⟩, -, hmpi⟩ := h.inserted k (hp.new k List.mem_cons_self) hk
            obtain rfl : i = 0 := hok k rfl hmpi
            have hs' : (code'.moves k rest')[0]? = some s := hs
            rw [moves, hop] at hs'
            simp only [List.map_cons, List.getElem?_cons_zero, Option.some.injEq, continuation, hop] at hs'
            subst hs'
            exact ⟨by simp [visible, shown, hk], rest', rfl, hp.skip hk⟩
        | false =>
            right
            obtain ⟨n, rest, rfl, rfl, hn, hrest⟩ := hp.next hk
            obtain ⟨t, ht', halike⟩ := moves_alike h.block (h.control n hn) hrest hs
            rw [target_eq, h.entered_eq, h.enters n hn] at ht
            refine ⟨n :: rest, i, t, .here _, by simp [visible, shown, hk], ht, ht', ?_, halike⟩
            intro x hx hmpi
            cases hx
            exact hok (e n) rfl (h.mpi n hn ▸ hmpi)
  · intro f ns' ns g hp ht
    cases ns' with
    | nil => simp [procedures] at ht
    | cons k rest' =>
        rw [target_eq] at ht
        cases hk : ins k with
        | true =>
            obtain ⟨-, hnone, -⟩ := h.inserted k (hp.new k List.mem_cons_self) hk
            rw [hnone] at ht
            cases ht
        | false =>
            obtain ⟨n, rest, rfl, rfl, hn, hrest⟩ := hp.next hk
            rw [h.entered_eq, h.enters n hn] at ht
            refine ⟨n :: rest, .here _, by simp [visible, shown, hk], ht, fun x => ?_⟩
            exact continuation_alike h.block (h.control n hn) hrest x

/-- Control gets past the inserted calls. -/
theorem Rewriting.alone (h : Rewriting m ins e code code') (hp : SamePlace ins e code code' ns' (n :: rest)) :
    ∃ rest', code'.procedures.Alone (fun f ns => (visible f ns).flatMap (shown ins)) m.NoThrow f ns'
      (e n :: rest') ∧ ins (e n) = false ∧ SamePlace ins e code code' rest' rest := by
  induction ns' with
  | nil =>
      have hrest := hp.rest
      simp at hrest
  | cons k rest' ih =>
      cases hk : ins k with
      | true =>
          obtain ⟨tail, halone, hlast, htail⟩ := ih (hp.skip hk)
          obtain ⟨⟨g, hop⟩, hnone, hmpi⟩ := h.inserted k (hp.new k List.mem_cons_self) hk
          refine ⟨tail, .goes (i := 0) ((target_eq code' f k rest').trans hnone) ?_ ?_ ?_ halone, hlast, htail⟩
          · show (code'.moves k rest')[0]? = _
            rw [moves, hop]
            simp [continuation, hop]
          · intro x hx _
            rfl
          · simp [visible, shown, hk]
      | false =>
          obtain ⟨x, xs, heq, rfl, hx, hxs⟩ := hp.next hk
          obtain ⟨rfl, rfl⟩ := List.cons.inj heq
          exact ⟨rest', .here _, hk, hxs⟩

/-- The program does what the changed program does. -/
theorem Rewriting.back (h : Rewriting m ins e code code') :
    Follows code.procedures code'.procedures (fun f ns => (visible f ns).flatMap fun n => [e n])
      (fun f ns => (visible f ns).flatMap (shown ins)) m.NoThrow m.NoThrow
      fun _ ns ns' => SamePlace ins e code code' ns' ns := by
  have hblocks : ∀ b, SamePlace ins e code code' (code'.blockNodes b) (code.blockNodes b) := h.block
  refine ⟨h.entry, ?_, ?_⟩
  · intro f ns ns' i s hp ht hs hok
    cases ns with
    | nil => simp [procedures] at hs
    | cons n rest =>
        right
        have hn : n ∈ code.nodes := hp.old n List.mem_cons_self
        obtain ⟨rest', halone, hk, hrest⟩ := h.alone (f := f) hp
        obtain ⟨t, ht', halike⟩ := moves_alike (R := fun ns ns' => SamePlace ins e code code' ns' ns)
          hblocks (h.control n hn).symm hrest hs
        rw [target_eq, ← h.enters n hn, ← h.entered_eq] at ht
        refine ⟨e n :: rest', i, t, halone, by simp [visible, shown, hk], ht, ht', ?_, halike⟩
        intro x hx hmpi
        cases hx
        exact hok n rfl (h.mpi n hn ▸ hmpi)
  · intro f ns ns' g hp ht
    cases ns with
    | nil => simp [procedures] at ht
    | cons n rest =>
        have hn : n ∈ code.nodes := hp.old n List.mem_cons_self
        obtain ⟨rest', halone, hk, hrest⟩ := h.alone (f := f) hp
        rw [target_eq, ← h.enters n hn, ← h.entered_eq] at ht
        refine ⟨e n :: rest', halone, by simp [visible, shown, hk], ht, fun x => ?_⟩
        exact continuation_alike (R := fun ns ns' => SamePlace ins e code code' ns' ns) hblocks
          (h.control n hn).symm hrest x

/-! ### The runs -/

theorem outcome_eq {A B : Procedures FuncId (List Node) Module.Exit} {R : FuncId → List Node → List Node → Prop}
    {x y : Run} (h : Paired A B R x y) : x.outcome = y.outcome := by
  obtain ⟨htop, hrest⟩ := h
  cases htop with
  | «at» hR => rfl
  | left e =>
      cases hrest with
      | nil => rfl
      | cons hx hrest => rfl

/-- What two executions show that correspond to each other. -/
theorem runs_of_follows {A B : Code} {R : FuncId → List Node → List Node → Prop} {a b : Node → List Node}
    (h : Follows A.procedures B.procedures (fun f ns => (visible f ns).flatMap a)
      (fun f ns => (visible f ns).flatMap b) m.NoThrow m.NoThrow R) {trace : List Node}
    {outcome : Option Module.Exit} (hr : Runs m A f trace outcome) :
    ∃ trace', Runs m B f trace' outcome ∧ trace.flatMap a = trace'.flatMap b := by
  obtain ⟨x, hx, rfl, rfl⟩ := hr
  obtain ⟨y, hy, hp⟩ := h.reach (Procedures.Begins.view a hx)
  obtain ⟨z, hz, hstack, htrace⟩ := Procedures.Begins.of_view hy
  refine ⟨z.trace, ⟨z, hz, rfl, ?_⟩, ?_⟩
  · have houtcome : Run.outcome ⟨x.stack, x.trace.flatMap a⟩ = Run.outcome y := outcome_eq hp
    unfold Run.outcome at houtcome ⊢
    rw [← hstack]
    exact houtcome.symm
  · rw [← htrace]
    exact hp.trace_eq

/-- **Both programs have the same runs**, but for the inserted calls. -/
theorem Rewriting.runs (h : Rewriting m ins e code code') {f : FuncId} {outcome : Option Module.Exit} :
    (∀ trace', Runs m code' f trace' outcome →
      ∃ trace, Runs m code f trace outcome ∧ trace'.filter (fun n => !ins n) = trace.map e) ∧
    ∀ trace, Runs m code f trace outcome →
      ∃ trace', Runs m code' f trace' outcome ∧ trace'.filter (fun n => !ins n) = trace.map e := by
  have hmap : ∀ l : List Node, (l.flatMap fun n => [e n]) = l.map e := fun l => List.map_eq_flatMap.symm
  constructor
  · intro trace' hr
    obtain ⟨trace, htrace, heq⟩ := runs_of_follows h.forth hr
    rw [flatMap_shown, hmap] at heq
    exact ⟨trace, htrace, heq⟩
  · intro trace hr
    obtain ⟨trace', htrace, heq⟩ := runs_of_follows h.back hr
    rw [flatMap_shown, hmap] at heq
    exact ⟨trace', htrace, heq.symm⟩

end

end Code

end CompMatch.Pass

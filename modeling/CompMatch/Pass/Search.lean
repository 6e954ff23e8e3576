/-
The search for conflicts.

`check_call_for_conflict` follows the code from an init call on.  `search` is its loop as
a work list: `to_check` and `already_checked` are the two sets, the elements of `to_check`
are taken in the order of their addresses, and what one turn of the loop does is `turn`.

The null pointer has the least address of all, so once it is in `to_check` it is taken in
the same turn, and its parent is asked for.  That and the assertion against it are the
failing turn.
-/
import CompMatch.Lib.WorkList.Sweep
import CompMatch.Pass.ConflictDetection
import CompMatch.Pass.FunctionCoverage
import Mathlib.Data.List.ReduceOption

namespace CompMatch.Pass

/-- An instruction of a module. -/
abbrev Site := FuncId × Loc

namespace Instruction

def isPhi : Instruction → Bool
  | .phi => true
  | _ => false

def isTerminator : Instruction → Bool
  | .phi | .alloca | .other | .call _ => false
  | _ => true

def getSuccessors : Instruction → List BlockId
  | .invoke _ normal unwind => [normal, unwind]
  | .br dest => [dest]
  | .condBr _ ifTrue ifFalse => [ifTrue, ifFalse]
  | .switch _ dests => dests
  | _ => []

end Instruction

namespace Module

variable (m : Module)

def instruction (x : Site) : Option Instruction := m.instructionAt x.1 x.2

def block (b : FuncId × BlockId) : List Instruction := ((m.functions[b.1]?).bind (·.blocks[b.2]?)).getD []

/-- `getNextNode`; the last instruction of a block has none. -/
def getNextNode (x : Site) : Option Site :=
  if (m.instruction (x.1, x.2.1, x.2.2 + 1)).isSome then some (x.1, x.2.1, x.2.2 + 1) else none

/-- `getFirstNonPHI`; every block ends with a terminator, so there is one. -/
def getFirstNonPHI (b : FuncId × BlockId) : Site := (b.1, b.2, (m.block b).findIdx (!·.isPhi))

def sites : List Site :=
  m.functions.zipIdx.flatMap fun (F, f) =>
    F.blocks.zipIdx.flatMap fun (is, b) => (List.range is.length).map fun i => (f, b, i)

/-- The users of a function that are calls to it. -/
def callSites (f : FuncId) : List Site :=
  m.sites.filter fun x => ((m.instruction x).bind (·.callBase)).any (·.getCalledFunction == some f)

/-- The instructions after these calls, or null. -/
def wheresReturn (f : FuncId) : List (Option Site) := (m.callSites f).map m.getNextNode

/-! ### The end of a request -/

/-- The value is what an `alloca` gives. -/
def isAlloca : Value → Bool
  | .instruction _ f l => m.instructionAt f l == some .alloca
  | _ => false

/-- The calls among the users of a value. -/
def callsWith (v : Value) : List (Site × CallBase) :=
  m.sites.filterMap fun x =>
    ((m.instruction x).bind (·.callBase)).bind fun c => if v ∈ c.args then some (x, c) else none

/-- `get_corresponding_free`; none is a failed assertion, or a read outside of the operands. -/
def getCorrespondingFree (build : Build) (call : CallBase) : Option (List Site) :=
  (assert build (m.calls call [.sendInit, .recvInit])).bind fun _ =>
  (assert build (call.args.length == 7)).bind fun _ =>
  (call.getArgOperand 6).bind fun req =>
  let frees :=
    if m.isAlloca req then
      (m.callsWith req).filter fun (_, c) => c.getCalledFunction == m.mpiFunc .requestFree
    else []
  (assert build (frees.all fun (_, c) => c.args == [req])).map fun _ =>
    frees.map Prod.fst ++ ((m.mpiFunc .finalize).map m.callSites).getD []

/-- `get_scope_endings`.  It is only asked for init calls; what it does for others is left out. -/
def getScopeEndings (build : Build) (call : CallBase) : Option (List Site) :=
  if m.calls call [.sendInit, .recvInit] then m.getCorrespondingFree build call else some []

/-! ### The guard of a call -/

/-- `predecessors`: the terminator at the start of every edge to the block. -/
def predecessors (b : FuncId × BlockId) : List Instruction :=
  ((m.functions[b.1]?).elim [] Function.instructions).flatMap fun i =>
    (i.getSuccessors.filter (· = b.2)).map fun _ => i

/-- `get_guarding_compare`: the value, and the way to the block of the call. -/
def getGuardingCompare (call : Site) : Option (Value × Bool) :=
  match m.predecessors (call.1, call.2.1) with
  | [.condBr cond ifTrue _] => some (cond, decide (ifTrue = call.2.1))
  | _ => none

variable {m}

theorem mem_sites {x : Site} {i : Instruction} (h : m.instruction x = some i) : x ∈ m.sites := by
  obtain ⟨f, b, k⟩ := x
  obtain ⟨F, hF, h⟩ := Option.bind_eq_some_iff.mp h
  obtain ⟨is, his, hk⟩ := Option.bind_eq_some_iff.mp h
  have hlt : k < is.length := (List.getElem?_eq_some_iff.mp hk).1
  refine List.mem_flatMap.mpr ⟨(F, f), List.mk_mem_zipIdx_iff_getElem?.mpr hF, ?_⟩
  refine List.mem_flatMap.mpr ⟨(is, b), List.mk_mem_zipIdx_iff_getElem?.mpr his, ?_⟩
  exact List.mem_map.mpr ⟨k, List.mem_range.mpr hlt, rfl⟩

theorem instruction_eq {x : Site} {i : Instruction} (h : m.instruction x = some i) :
    (m.block (x.1, x.2.1))[x.2.2]? = some i := by
  obtain ⟨F, hF, h⟩ := Option.bind_eq_some_iff.mp h
  obtain ⟨is, his, hk⟩ := Option.bind_eq_some_iff.mp h
  rw [block, hF, Option.bind_some, his]
  exact hk

/-- The instruction after one that is not a PHI is not the first of its block that is none. -/
theorem getNextNode_ne {x y : Site} {i : Instruction} (hi : m.instruction x = some i)
    (hphi : i.isPhi = false) (h : m.getNextNode x = some y) :
    y ≠ m.getFirstNonPHI (y.1, y.2.1) := by
  unfold getNextNode at h
  split at h
  · cases h
    intro heq
    have hidx : x.2.2 + 1 = (m.block (x.1, x.2.1)).findIdx (!·.isPhi) := congrArg (·.2.2) heq
    obtain ⟨hlt, hget⟩ := List.getElem?_eq_some_iff.mp (instruction_eq hi)
    have hlt : x.2.2 < (m.block (x.1, x.2.1)).findIdx (!·.isPhi) := by omega
    have hnot := List.not_of_lt_findIdx hlt
    rw [hget] at hnot
    simp [hphi] at hnot
  · cases h

end Module

/-- A call of `check_call_for_conflict`, and what it asks others. -/
structure Search (m : Module) where
  build : Build
  se : LoopAnalysis
  impl : ImplementationSpecifics
  getLibFunc : Function → Bool
  mpiCall : Site
  call : CallBase
  scopeEndings : List Site   -- from `get_scope_endings`; what is proved of the loop holds for any
  isSending : Bool
  isCall : (m.instruction mpiCall).bind Instruction.callBase = some call

namespace Search

variable {m : Module} (s : Search m)

def guard : Option (Value × Bool) := m.getGuardingCompare s.mpiCall

/-- Compare the call with another one. -/
def compare (c : CallBase) : Option (Option Bool) :=
  match m.areCallsConflicting s.build s.se s.impl s.call c s.isSending with
  | some true => some (some true)
  | some false => none
  | none => some none

/-- What a call gives: a verdict, or a failed assertion, or nothing. -/
def checkCall (x : Site) (c : CallBase) : Option (Option Bool) :=
  if m.isMpiCall c then
    if c.getCalledFunction = m.mpiFunc .finalize then some (some false)
    else if x ∈ s.scopeEndings then some (some false)
    else if s.isSending && m.isSendFunction c.getCalledFunction then s.compare c
    else if !s.isSending && m.isRecvFunction c.getCalledFunction then s.compare c
    else none
  else if m.mayConflict s.getLibFunc c.getCalledFunction then some (some true)
  else if m.isUnknown s.getLibFunc c.getCalledFunction then some (some true)
  else none

/-- The successors that are added at a terminator. -/
def nextBlocks (i : Instruction) : List BlockId :=
  match i, s.guard with
  | .condBr cond ifTrue ifFalse, some (guard, wayToTake) =>
      if cond = guard then [if wayToTake then ifTrue else ifFalse] else [ifTrue, ifFalse]
  | i, _ => i.getSuccessors

/-- What is next in the code. -/
def follow (x : Site) (i : Instruction) : Turn Site (FuncId × BlockId) (Option Bool) :=
  match i with
  | .ret =>
      -- after each call of the function; an `invoke` is the last of its block
      if none ∈ m.wheresReturn x.1 then .fails else .ends [] (m.wheresReturn x.1).reduceOption
  | i =>
      if i.isTerminator then .ends ((s.nextBlocks i).map (x.1, ·)) []
      else
        match m.getNextNode x with
        | some y => if m.instruction y = some .unreachable then .ends [] [] else .goes y
        | none => .ends [] []

def turn (x : Site) : Turn Site (FuncId × BlockId) (Option Bool) :=
  match m.instruction x with
  | none => .ends [] []
  | some i =>
      match i.callBase.bind (s.checkCall x) with
      | some v => .answers v
      | none => s.follow x i

variable {s}

/-- What follows an instruction. -/
inductive Followed (s : Search m) (x : Site) (i : Instruction) :
    Turn Site (FuncId × BlockId) (Option Bool) → Prop
  | null (hi : i = .ret) (hn : none ∈ m.wheresReturn x.1) : Followed s x i .fails
  | returns (hi : i = .ret) (hn : none ∉ m.wheresReturn x.1) :
      Followed s x i (.ends [] (m.wheresReturn x.1).reduceOption)
  | blocks (bs : List (FuncId × BlockId)) : Followed s x i (.ends bs [])
  | next {y : Site} (hy : m.getNextNode x = some y) (hi : i.isTerminator = false) : Followed s x i (.goes y)

theorem follow_followed (x : Site) (i : Instruction) : s.Followed x i (s.follow x i) := by
  unfold follow
  split
  · by_cases hn : none ∈ m.wheresReturn x.1
    · rw [if_pos hn]
      exact .null rfl hn
    · rw [if_neg hn]
      exact .returns rfl hn
  · split
    · exact .blocks _
    · rename_i hterm
      split
      · rename_i y hy
        split
        · exact .blocks _
        · exact .next hy (Bool.of_not_eq_true hterm)
      · exact .blocks _

/-- What one turn does. -/
inductive Turned (s : Search m) (x : Site) : Turn Site (FuncId × BlockId) (Option Bool) → Prop
  | none : Turned s x (.ends [] [])
  | answers {c : CallBase} {v : Option Bool} (hc : (m.instruction x).bind Instruction.callBase = some c)
      (hv : s.checkCall x c = some v) : Turned s x (.answers v)
  | follows {i : Instruction} {t : Turn Site (FuncId × BlockId) (Option Bool)}
      (hi : m.instruction x = some i) (h : s.Followed x i t) : Turned s x t

theorem turn_turned (x : Site) : s.Turned x (s.turn x) := by
  unfold turn
  split
  · exact .none
  · rename_i i hi
    split
    · rename_i v hv
      obtain ⟨c, hc, hv⟩ := Option.bind_eq_some_iff.mp hv
      exact .answers (by rw [hi, Option.bind_some, hc]) hv
    · exact .follows hi (follow_followed x i)

/-- Only a return names items to look at, and they are behind a call. -/
theorem turn_again {x y : Site} {bs : List (FuncId × BlockId)} {ys : List Site}
    (h : s.turn x = .ends bs ys) (hy : y ∈ ys) : ∃ z ∈ m.callSites x.1, m.getNextNode z = some y := by
  have ht := turn_turned (s := s) x
  rw [h] at ht
  cases ht with
  | none => cases hy
  | follows _ hf =>
      cases hf with
      | returns _ _ =>
          rw [List.reduceOption_mem_iff, Module.wheresReturn, List.mem_map] at hy
          exact hy
      | blocks _ => cases hy

theorem callSites_call {f : FuncId} {x : Site} (h : x ∈ m.callSites f) :
    ∃ i, m.instruction x = some i ∧ i.isPhi = false := by
  have hany := (List.mem_filter.mp h).2
  cases hi : m.instruction x with
  | none => simp [hi] at hany
  | some i =>
      refine ⟨i, rfl, ?_⟩
      cases i with
      | phi => simp [hi, Instruction.callBase] at hany
      | _ => rfl

variable (s)

/-- The loop. -/
def search : WorkList Site (FuncId × BlockId) (Option Bool) where
  turn := s.turn
  entry := m.getFirstNonPHI
  block x := (x.1, x.2.1)
  block_entry _ := rfl
  again_ne_entry := by
    intro x bs ys h y hy
    obtain ⟨z, hz, hnext⟩ := turn_again h hy
    obtain ⟨i, hi, hphi⟩ := callSites_call hz
    exact m.getNextNode_ne hi hphi hnext
  finite := by
    refine (List.finite_toSet m.sites).subset ?_
    intro x hx
    cases hi : m.instruction x with
    | none => exact (hx (by rw [turn, hi])).elim
    | some i => exact m.mem_sites hi

/-- What a state of the loop returns; behind the loop there is an assertion. -/
def verdict : WorkList.State Site (FuncId × BlockId) (Option Bool) → Option Bool
  | .answered v => v
  | .exhausted => (assert s.build false).map fun _ => true
  | _ => none

/-- The state after some turns; the call is not looked at itself. -/
def run (address : Site → Nat) (n : Nat) : WorkList.State Site (FuncId × BlockId) (Option Bool) :=
  match m.getNextNode s.mpiCall with
  | some x => s.search.run address x n
  | none => .exhausted

/-- `check_call_for_conflict` returns. -/
def Returns (address : Site → Nat) (v : Bool) : Prop :=
  assert s.build (!s.scopeEndings.isEmpty) = some () ∧ ∃ n, s.verdict (s.run address n) = some v

/-! ### What the search should do -/

/-- The search can get to an instruction. -/
def Gets (x : Site) : Prop := ∃ y, m.getNextNode s.mpiCall = some y ∧ s.search.Gets y x

/-- For all addresses the loop ends, and no null pointer was taken. -/
def Ends : Prop := ∀ address : Site → Nat, address.Injective →
  ∃ n, (s.run address n).isRunning = false ∧ s.run address n ≠ .failed

/-- For any addresses the verdict is that for any other addresses. -/
def SameVerdict : Prop := ∀ a₁ a₂ : Site → Nat, a₁.Injective → a₂.Injective →
  ∀ v, s.Returns a₁ v → s.Returns a₂ v

/-- A return of a function that is called where the block ends: by an `invoke`. -/
def ReturnsToInvoke (m : Module) (x : Site) : Prop :=
  m.instruction x = some .ret ∧ none ∈ m.wheresReturn x.1

/-- The search can get to a call that gives this. -/
def Meets (v : Option Bool) : Prop :=
  ∃ x c, s.Gets x ∧ (m.instruction x).bind Instruction.callBase = some c ∧ s.checkCall x c = some v

/-- There is an order in which all that the search finds is looked at, and no call gives anything. -/
def RunsOut : Prop := ∀ x, m.getNextNode s.mpiCall = some x → ∃ zs, s.search.Complete x zs

/-- What the code allows the search to come to; `none` is that it does not return. -/
def MayCome : Option Bool → Prop
  | some false => s.Meets (some false)
  | some true => s.Meets (some true) ∨ s.build = .release ∧ s.RunsOut
  | none => s.Meets none ∨ s.build = .debug ∧ s.RunsOut ∨
      ∃ x, s.Gets x ∧ (ReturnsToInvoke m x ∨ Relation.TransGen s.search.Moves x x)

end Search

end CompMatch.Pass

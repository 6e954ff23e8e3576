/-
Replacing the calls of a request: `replace_communication_calls`.

The five functions of a persistent request are replaced by their `MPIOPT_` versions,
which `get_used_mpi_functions` has constructed.  An instruction that is created is given
an address by the allocator, here a parameter.

`none` is a failed assertion of a build with assertions, and a null pointer that is used.
-/
import CompMatch.Pass.Code
import CompMatch.Pass.ConflictDetection
import Mathlib.Data.List.Sort

namespace CompMatch.Pass

/-- The functions that are replaced. -/
def replaceable : List MpiFunction := [.wait, .start, .requestFree, .sendInit, .recvInit]

namespace Module

variable (m : Module) (optimized : MpiFunction → Option FuncId) (build : Build)
  (malloc : Code → Ptr)

/-- `ReplaceInstWithInst`. -/
def replaceInstWithInst (old : Ptr) (new : Node) (code : Code) : Code :=
  ((code.insertBefore old new).replaceAllUsesWith old new.ptr).eraseFromParent old

/-- `replace_call`. -/
def replaceCall (code : Code) (call : Node) (func : FuncId) : Code :=
  let args := (call.op.callBase.map Prod.snd).getD []
  replaceInstWithInst call.ptr ⟨malloc code, .call (.function func) args⟩ code

/-- `check_if_all_usages_of_ptr_are_lifetime`. -/
def allUsagesAreLifetime (code : Code) (p : Ptr) : Bool :=
  (code.users (.inst p)).all fun u =>
    (u.op.getCalledFunction.bind (m.functions[·]?)).any Function.isIntrinsic

/-- What a user of the request contributes to the calls to replace. -/
def usage (code : Code) (u : Node) : Option (List Ptr) :=
  match u.op.callBase with
  | some _ =>
      if m.isMpiFunction u.op.getCalledFunction then some [u.ptr]
      else (assert build false).map fun _ => []
  | none =>
      match u.op with
      | .bitCast _ => (assert build (m.allUsagesAreLifetime code u.ptr)).map fun _ => []
      | _ => (assert build false).map fun _ => []

/-- `get_usage_of_request`. -/
def getUsageOfRequest (code : Code) (call : Ptr) : Option (List Ptr) :=
  (code.node call).bind fun n =>
  (assert build (n.op.getCalledFunction == m.mpiFunc .sendInit ||
    n.op.getCalledFunction == m.mpiFunc .recvInit)).bind fun _ =>
  n.op.callBase.bind fun (_, args) =>
  (assert build (args.length == 7)).bind fun _ =>
  args[6]?.bind fun req =>
  ((code.users req).mapM (m.usage build code)).map List.flatten

/-- `calls_to_replace`: a set of pointers, in the order of the addresses. -/
def callsToReplace (code : Code) (inits : List Ptr) : Option (List Ptr) :=
  (inits.mapM (m.getUsageOfRequest build code)).map fun usages =>
    (inits ++ usages.flatten).dedup.insertionSort (· ≤ ·)

/-- The function a call is to, of those that are replaced. -/
def replaceableCall (op : Op) : Option MpiFunction :=
  replaceable.find? fun n => op.getCalledFunction == m.mpiFunc n

/-- One turn of the loop that replaces. -/
def replaceTurn (code : Code) (call : Ptr) : Option Code :=
  (code.node call).bind fun n =>
    match m.replaceableCall n.op with
    | some k => (optimized k).map (replaceCall malloc code n)
    | none => (assert build false).map fun _ => code

/-- `replace_communication_calls`. -/
def replaceCommunicationCalls (code : Code) (initSendCalls initRecvCalls : List Ptr) : Option Code :=
  (m.callsToReplace build code (initSendCalls ++ initRecvCalls)).bind fun calls =>
    calls.foldlM (m.replaceTurn optimized build malloc) code

/-! ### What the replacement should be -/

/-- The instruction that takes the place of one. -/
def replacement (op : Op) : Op :=
  match (m.replaceableCall op).bind optimized, op.callBase with
  | some f, some (_, args) => .call (.function f) args
  | _, _ => op

/-- The call is in the set and to a function that is replaced. -/
def Replaces (calls : List Ptr) (n : Node) : Prop :=
  n.ptr ∈ calls ∧ (m.replaceableCall n.op).isSome

instance (calls : List Ptr) (n : Node) : Decidable (m.Replaces calls n) :=
  inferInstanceAs (Decidable (_ ∧ _))

/-- An operand, with the results of the replaced calls found at their new addresses. -/
def Moved (address : Ptr → Ptr) : Operand → Operand
  | .inst p => .inst (address p)
  | v => v

/-- The instruction that is expected in the place of one. -/
def expected (calls : List Ptr) (address : Ptr → Ptr) (n : Node) : Node :=
  ⟨address n.ptr,
    (if m.Replaces calls n then m.replacement optimized n.op else n.op).mapOperands (Moved address)⟩

/-- The code `code'` is `code` with these calls replaced, and nothing else changed. -/
structure Preserves (calls : List Ptr) (code code' : Code) : Prop where
  /-- Every block has one terminator, with the same successors. -/
  blocks : code'.length = code.length ∧ ∀ (i : Nat) (b b' : Block), code[i]? = some b → code'[i]? = some b' →
    Code.OneTerminator b'.nodes ∧
      (b'.nodes.getLast?).map (·.op.successors) = (b.nodes.getLast?).map (·.op.successors)
  /-- Every instruction is at its place, and every use of a result still refers to it. -/
  instructions : ∃ address : Ptr → Ptr,
    (∀ p q, p ∈ code.nodes.map Node.ptr → q ∈ code.nodes.map Node.ptr →
      address p = address q → p = q) ∧
    (∀ n ∈ code.nodes, ¬ m.Replaces calls n → address n.ptr = n.ptr) ∧
    code' = code.mapNodes (·.map (m.expected optimized calls address))

end Module

end CompMatch.Pass

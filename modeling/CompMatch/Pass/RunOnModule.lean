/-
The whole pass: `runOnModule`.

The functions of the runtime are declared where the module uses their counterparts, the
calls that initialise a request are collected, those for which a conflict was found are left
out, the others are replaced, and `MPIOPT_INIT` and `MPIOPT_FINALIZE` are inserted.  What the
conflict analysis says of a call is a parameter here; it is asked before anything is changed.

An execution shows the instructions it goes through.  What an instruction computes is left
out, so it may go on from a branch in every way.  A function of MPI is not defined in the
module, and none of them throws.
-/
import CompMatch.Lib.Traces
import CompMatch.Pass.AddInit
import CompMatch.Pass.Replacement

namespace CompMatch.Pass

/-- The functions of which the runtime has a version, and its name. -/
def optimizedFunctions : List (MpiFunction × String) :=
  [(.wait, "MPIOPT_Wait"), (.start, "MPIOPT_Start"), (.sendInit, "MPIOPT_Send_init"),
    (.recvInit, "MPIOPT_Recv_init"), (.requestFree, "MPIOPT_Request_free")]

/-- The names that `get_used_mpi_functions` declares. -/
def runtimeNames : List String :=
  optimizedFunctions.map Prod.snd ++ ["MPIOPT_INIT", "MPIOPT_FINALIZE"]

namespace Module

variable (m : Module)

/-- `getOrInsertFunction`. -/
def getOrInsertFunction (name : String) : Module :=
  if h : name ∈ m.functions.map Function.getName then m
  else
    { functions := m.functions ++ [⟨name, false, []⟩]
      names := by
        rw [List.map_append, List.map_singleton, List.nodup_append]
        refine ⟨m.names, List.nodup_singleton _, ?_⟩
        intro a ha b hb heq
        obtain rfl := List.mem_singleton.mp hb
        exact h (heq ▸ ha) }

/-- The module has `MPI_Init`, `MPI_Init_thread` or `MPI_Finalize`. -/
def usesInit : Bool :=
  (m.mpiFunc .init).isSome || (m.mpiFunc .initThread).isSome || (m.mpiFunc .finalize).isSome

/-- The functions that are constructed, if the original ones are used. -/
def constructed : List String :=
  (optimizedFunctions.filter fun x => (m.mpiFunc x.1).isSome).map Prod.snd ++
    if m.usesInit then ["MPIOPT_INIT", "MPIOPT_FINALIZE"] else []

/-- What `get_used_mpi_functions` makes of the module. -/
def getUsedMpiFunctions : Module := m.constructed.foldl getOrInsertFunction m

/-- The function that was constructed under this name. -/
def constructedFunc (name : String) : Option FuncId :=
  if name ∈ m.constructed then m.getUsedMpiFunctions.functions.findIdx? (·.getName == name) else none

/-- The fields of `mpiopt_functions`. -/
def optimized (n : MpiFunction) : Option FuncId := (optimizedFunctions.lookup n).bind m.constructedFunc

def optimizedInit : Option FuncId := m.constructedFunc "MPIOPT_INIT"

def optimizedFinalize : Option FuncId := m.constructedFunc "MPIOPT_FINALIZE"

/-! ### `add_finalize` -/

section
variable (mpioptFinalize : FuncId) (malloc : Code → Ptr)

/-- What `builder.CreateCall(mpi_func->optimized.finalize)` inserts. -/
def finalizeCall (code : Code) : Node := ⟨malloc code, .call (.function mpioptFinalize) []⟩

/-- The body of the loop, for a user that is a call. -/
def addFinalizeTurn (code : Code) (u : Node) : Code :=
  code.insertBefore u.ptr (finalizeCall mpioptFinalize malloc code)

/-- `add_finalize`. -/
def addFinalize (code : Code) : Bool × Code :=
  let calls := callUsers code (m.mpiFunc .finalize)
  (!calls.isEmpty, calls.foldl (addFinalizeTurn mpioptFinalize malloc) code)

end

/-! ### `runOnModule` -/

/-- The calls of a function that initialises requests. -/
def initCalls (n : MpiFunction) (code : Code) : List Ptr :=
  ((callUsers code (m.mpiFunc n)).filter fun u => u.op.getCalledFunction == m.mpiFunc n).map Node.ptr

/-- The calls that initialise requests, less those for which a conflict was found. -/
def survivors (sendConflict recvConflict : Ptr → Bool) (code : Code) : List Ptr × List Ptr :=
  ((m.initCalls .sendInit code).filter fun p => !sendConflict p,
    (m.initCalls .recvInit code).filter fun p => !recvConflict p)

/-- Nothing is replaced if there is nothing to send or nothing to receive. -/
def replaces (x : List Ptr × List Ptr) : Bool := !x.1.isEmpty && !x.2.isEmpty

variable (build : Build) (malloc : Code → Ptr) (sendConflict recvConflict : Ptr → Bool)

/-- `runOnModule`: whether something was changed, and the code.  A module without `MPI_Init` or
`MPI_Finalize` has no call of it, and the function that is constructed for it is not needed. -/
def runOnModule (code : Code) : Option (Bool × Code) :=
  let m' := m.getUsedMpiFunctions
  let calls := m'.survivors sendConflict recvConflict code
  (if replaces calls then m'.replaceCommunicationCalls m.optimized build malloc code calls.1 calls.2
    else some code).map fun replaced =>
  let init := m'.addInit (m.optimizedInit.getD 0) malloc replaced
  let finalize := m'.addFinalize (m.optimizedFinalize.getD 0) malloc init.2
  (replaces calls || init.1 || finalize.1, finalize.2)

/-- The calls in the set that is gone through. -/
def rewritten (code : Code) : List Ptr :=
  let m' := m.getUsedMpiFunctions
  let calls := m'.survivors sendConflict recvConflict code
  if replaces calls then (m'.callsToReplace build code (calls.1 ++ calls.2)).getD [] else []

/-! ### Executions -/

/-- No function of MPI, nor of the runtime, throws. -/
def NoThrow (_ : FuncId) (ns : List Node) (i : Nat) : Prop :=
  ∀ n, ns.head? = some n → m.isMpiFunction n.op.getCalledFunction = true → i = 0

end Module

namespace Code

/-- What is shown of an instruction that is gone through. -/
def visible (_ : FuncId) (ns : List Node) : List Node := ns.head?.toList

abbrev Run := Execution FuncId (List Node) Module.Exit Node

/-- How the function that was called first was left. -/
def Run.outcome (x : Run) : Option Module.Exit :=
  match x.stack with
  | [(_, .left e)] => some e
  | _ => none

/-- An execution of `f` has gone through these instructions, and has ended in this way. -/
def Runs (m : Module) (code : Code) (f : FuncId) (trace : List Node) (outcome : Option Module.Exit) : Prop :=
  ∃ x : Run, Reach (code.procedures.exec visible) (Procedures.Meets m.NoThrow) (code.procedures.Begins f) x ∧
    x.trace = trace ∧ x.outcome = outcome

/-- The code is that of the module. -/
structure Of (m : Module) (code : Code) : Prop where
  blocks : ∀ b ∈ code, b.function < m.functions.length
  operands : ∀ n ∈ code.nodes, ∀ f, .function f ∈ n.op.operands → f < m.functions.length
  /-- The functions of MPI are in a library. -/
  external : ∀ b ∈ code, ∀ n, m.mpiFunc n ≠ some b.function

end Code

namespace Module

variable (m : Module)

/-- None of the functions of the runtime is in the module yet. -/
def Pristine : Prop := ∀ name ∈ runtimeNames, name ∉ m.functions.map Function.getName

/-- A call that was inserted. -/
def isInserted (n : Node) : Bool :=
  n.op.getCalledFunction.any fun f => some f == m.optimizedInit || some f == m.optimizedFinalize

/-- **The executions of `code'` are those of `code`**, with the inserted calls in between, and with
these calls to the functions of the runtime instead of MPI. -/
structure SameRuns (calls : List Ptr) (code code' : Code) (address : Ptr → Ptr) : Prop where
  injective : ∀ p q, p ∈ code.nodes.map Node.ptr → q ∈ code.nodes.map Node.ptr → address p = address q → p = q
  forth : ∀ f trace' outcome, Code.Runs m.getUsedMpiFunctions code' f trace' outcome →
    ∃ trace, Code.Runs m.getUsedMpiFunctions code f trace outcome ∧
      trace'.filter (fun n => !m.isInserted n) =
        trace.map (m.getUsedMpiFunctions.expected m.optimized calls address)
  back : ∀ f trace outcome, Code.Runs m.getUsedMpiFunctions code f trace outcome →
    ∃ trace', Code.Runs m.getUsedMpiFunctions code' f trace' outcome ∧
      trace'.filter (fun n => !m.isInserted n) =
        trace.map (m.getUsedMpiFunctions.expected m.optimized calls address)

end Module

end CompMatch.Pass

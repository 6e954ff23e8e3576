/-
When the runtime is set up and taken down.

The runtime may be called once `MPIOPT_INIT` has run, until `MPIOPT_FINALIZE` does.  The pass puts
the one behind `MPI_Init`, and the other before `MPI_Finalize`, wherever these are used.
-/
import CompMatch.Pass.RunOnModule

namespace CompMatch.Pass

/-- The function is called. -/
def Op.calls (op : Op) (f : Option FuncId) : Bool := op.getCalledFunction.any (some · == f)

namespace Module

variable (m : Module)

/-- What comes right before an instruction: `MPIOPT_INIT` is called right after `MPI_Init` or
`MPI_Init_thread` is, and at no other time, and `MPIOPT_FINALIZE` right before `MPI_Finalize`. -/
def Beside (last : Option Node) (n : Node) : Prop :=
  last.any (fun k => m.targetsInit k.op) = n.op.calls m.optimizedInit ∧
    last.any (fun k => k.op.calls m.optimizedFinalize) = n.op.calls (m.mpiFunc .finalize)

/-- The functions that set MPI up and take it down are called, and not used in another way; and none
that sets it up is called by an `invoke`. -/
structure OnlyCalled (code : Code) : Prop where
  args : ∀ n ∈ code.nodes, ∀ callee args, n.op.callBase = some (callee, args) →
    ∀ k ∈ [MpiFunction.init, .initThread, .finalize], ∀ f, m.mpiFunc k = some f → .function f ∉ args
  invoke : ∀ n ∈ code.nodes, m.targetsInit n.op = true → n.op.isInvoke = false

/-- A call to one of the functions that have a version in the runtime. -/
def usesMpi (n : Node) : Bool := replaceable.any fun k => n.op.calls (m.mpiFunc k)

/-- A call to one of these versions. -/
def usesRuntime (n : Node) : Bool := replaceable.any fun k => n.op.calls (m.optimized k)

/-- Between `MPI_Init` and `MPI_Finalize`. -/
def InMpi (trace : List Node) : Prop :=
  Bracketed (fun n => m.targetsInit n.op) (fun n => n.op.calls (m.mpiFunc .finalize)) m.usesMpi trace

/-- Between `MPIOPT_INIT` and `MPIOPT_FINALIZE`. -/
def InRuntime (trace : List Node) : Prop :=
  Bracketed (fun n => n.op.calls m.optimizedInit) (fun n => n.op.calls m.optimizedFinalize) m.usesRuntime trace

end Module

end CompMatch.Pass

/-
Which library a request comes from.

A request variable holds what `MPI_Send_init` or `MPIOPT_Send_init` has written to it, and the
one is of no use to the other library.  Here an execution knows who has written a variable last,
and records of every call which library it is to, and who has written its request.

A call finds its request variable by one operand.  Which variable that is may change from step
to step, as an operand may be an element of an array.  Other instructions may read and write
variables too, through an operand or a bitcast of it; what one of them has read may be written
to any variable.
-/
import CompMatch.Pass.RunOnModule

namespace CompMatch.Pass

inductive Library
  | mpi
  | mpiopt
deriving DecidableEq, Repr

/-- The functions that get the address of one request. -/
def requestFunctions : List MpiFunction :=
  [.start, .wait, .test, .requestFree, .sendInit, .recvInit, .isend, .ibsend, .issend, .irsend, .irecv,
    .ibarrier, .iallreduce]

namespace MpiFunction

/-- Which argument that is. -/
def requestPos : MpiFunction → Nat
  | .ibarrier => 1
  | .sendInit | .recvInit | .isend | .ibsend | .issend | .irsend | .irecv | .iallreduce => 6
  | _ => 0

/-- The function writes to the variable. -/
def writesRequest : MpiFunction → Bool
  | .start | .wait | .test => false
  | _ => true

end MpiFunction

/-- What an instruction other than a call to MPI does with a variable. -/
inductive Access
  | nothing
  | reads
  | writes (handle : Option Library)   -- a handle of this library, or anything else
deriving DecidableEq, Repr

/-- Only these instructions access memory. -/
def Op.accesses : Op → Bool
  | .other _ | .call _ _ | .invoke _ _ _ _ => true
  | _ => false

structure HandleRun where
  stack : Stack
  /-- Whose handle a variable holds. -/
  writer : Nat → Option Library
  /-- A handle of the runtime was read from its variable. -/
  escaped : Bool
  /-- The calls, each with whose handle it was given. -/
  calls : List (Library × Option Library)

/-- A step, and what its instruction does with which variable. -/
structure HandleAct where
  choice : Procedures.Choice
  var : Nat
  access : Access

namespace Module

variable (m : Module)

/-- The library that is called, and the function. -/
def requestCall (op : Op) : Option (Library × MpiFunction) :=
  op.getCalledFunction.bind fun f => requestFunctions.findSome? fun k =>
    if m.mpiFunc k = some f then some (.mpi, k)
    else if m.optimized k = some f then some (.mpiopt, k)
    else none

/-- The operand by which a call finds its request. -/
def requestOf (op : Op) : Option Operand :=
  (m.requestCall op).bind fun x => op.callBase.bind fun c => c.2[x.2.requestPos]?

/-- What an instruction does that an execution goes through. -/
def handleEffect (a : HandleAct) (r : HandleRun) (n : Node) : Option HandleRun :=
  match m.requestCall n.op with
  | some (lib, k) =>
      some { r with
        calls := r.calls ++ [(lib, r.writer a.var)]
        writer := if k.writesRequest then Function.update r.writer a.var (some lib) else r.writer }
  | none =>
      match a.access with
      | .nothing => some r
      | .reads => some { r with escaped := r.escaped || r.writer a.var == some .mpiopt }
      | .writes h =>
          if h = some .mpiopt ∧ r.escaped = false then none
          else some { r with writer := Function.update r.writer a.var h }

def handleStep (code : Code) (r : HandleRun) (a : HandleAct) : Option HandleRun :=
  (code.procedures.step r.stack a.choice).bind fun stack =>
    ((Procedures.shows Code.visible r.stack a.choice).foldlM (m.handleEffect a) r).map fun r' =>
      { r' with stack := stack }

/-- Function `f` is called, and no variable holds a handle. -/
def HandleStarted (code : Code) (f : FuncId) (r : HandleRun) : Prop :=
  code.procedures.Started f r.stack ∧ r.writer = (fun _ => none) ∧ r.escaped = false ∧ r.calls = []

/-- An intrinsic is called. -/
def callsIntrinsic (op : Op) : Bool :=
  (op.getCalledFunction.bind (m.getUsedMpiFunctions.functions[·]?)).any Function.isIntrinsic

/-- Every variable is found by one operand, or a bitcast of it, in the whole execution, and
intrinsics only mark that it has no value. -/
structure OneOperand (code : Code) (operandOf : Nat → Operand) (r : HandleRun) (a : HandleAct) : Prop where
  request : ∀ n ∈ Procedures.shows Code.visible r.stack a.choice, (m.requestCall n.op).isSome = true →
    m.requestOf n.op = some (operandOf a.var)
  access : ∀ n ∈ Procedures.shows Code.visible r.stack a.choice, m.requestCall n.op = none →
    a.access ≠ .nothing → n.op.accesses = true ∧ (operandOf a.var ∈ n.op.operands ∨
      ∃ b ∈ code.nodes, b.op = .bitCast (operandOf a.var) ∧ .inst b.ptr ∈ n.op.operands)
  intrinsic : ∀ n ∈ Procedures.shows Code.visible r.stack a.choice, m.callsIntrinsic n.op = true →
    a.access = .nothing ∨ a.access = .writes none

/-- The address of a request is of a type of its own: where a call to MPI gets it, it is the request. -/
def RequestsTyped (code : Code) : Prop :=
  ∀ x ∈ code.nodes, ∀ n ∈ code.nodes, ∀ v, m.requestOf x.op = some v → v ∈ n.op.operands →
    (m.requestCall n.op).isSome = true → m.requestOf n.op = some v

/-- The calls for which the requests are replaced. -/
def replacedInits (sendConflict recvConflict : Ptr → Bool) (code : Code) : List Ptr :=
  let calls := m.getUsedMpiFunctions.survivors sendConflict recvConflict code
  if replaces calls then calls.1 ++ calls.2 else []

/-- A request of this operand is initialised by one of these calls. -/
def InitialisedBy (inits : List Ptr) (code : Code) (v : Operand) : Prop :=
  ∃ x ∈ code.nodes, x.ptr ∈ inits ∧ m.requestOf x.op = some v

end Module

end CompMatch.Pass

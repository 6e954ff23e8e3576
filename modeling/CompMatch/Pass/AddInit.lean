/-
Inserting the initialisation: `add_init`.

A call of `MPIOPT_INIT` is put behind every call of `MPI_Init` and `MPI_Init_thread`, and
for an `invoke` behind the PHIs of its normal destination.  The instruction before which
the source inserts is the next one of a call, and the first of a block that is no PHI.

In an execution, where a function goes on is the rest of its block.  A function that is not
defined in the module returns or throws.  What an execution does is recorded, as far as it
matters here.
-/
import CompMatch.Lib.Procedures
import CompMatch.Pass.Code

namespace CompMatch.Pass

namespace Code

/-- Insert an instruction before the next one of the one at an address. -/
def insertAfter (p : Ptr) (new : Node) (code : Code) : Code :=
  code.mapNodes fun ns => ns.flatMap fun n => if n.ptr = p then [n, new] else [n]

/-- Insert an instruction before the first one of a block that is no PHI. -/
def insertBehindPhis (b : BlockId) (new : Node) (code : Code) : Code :=
  code.modify b fun blk =>
    { blk with nodes := blk.nodes.takeWhile (·.op.isPhi) ++ new :: blk.nodes.dropWhile (·.op.isPhi) }

end Code

namespace Module

variable (m : Module) (mpioptInit : FuncId) (malloc : Code → Ptr)

/-- What `builder.CreateCall(mpi_func->optimized.init)` inserts. -/
def initCall (code : Code) : Node := ⟨malloc code, .call (.function mpioptInit) []⟩

/-- The body of either loop, for a user that is a call. -/
def addInitTurn (code : Code) (u : Node) : Code :=
  match u.op with
  | .invoke _ _ normal _ => code.insertBehindPhis normal (initCall mpioptInit malloc code)
  | _ => code.insertAfter u.ptr (initCall mpioptInit malloc code)

/-- The users of a function that are calls. -/
def callUsers (code : Code) : Option FuncId → List Node
  | some f => (code.users (.function f)).filter fun u => u.op.callBase.isSome
  | none => []

/-- One of the two loops; it answers whether it has inserted anything. -/
def addInitLoop (f : Option FuncId) (code : Code) : Bool × Code :=
  let calls := callUsers code f
  (!calls.isEmpty, calls.foldl (addInitTurn mpioptInit malloc) code)

/-- `add_init`. -/
def addInit (code : Code) : Bool × Code :=
  let (result, code) := addInitLoop mpioptInit malloc (m.mpiFunc .init) code
  let (result', code) := addInitLoop mpioptInit malloc (m.mpiFunc .initThread) code
  (result || result', code)

/-! ### Executions -/

/-- A call is to `MPI_Init` or `MPI_Init_thread`. -/
def targetsInit (op : Op) : Bool :=
  op.getCalledFunction.isSome &&
    (op.getCalledFunction == m.mpiFunc .init || op.getCalledFunction == m.mpiFunc .initThread)

def targetsMpioptInit (op : Op) : Bool := op.getCalledFunction == some mpioptInit

end Module

namespace Code

open CompMatch.Pass.Module (Exit)

variable (code : Code)

/-- The instructions of a block. -/
def blockNodes (b : BlockId) : List Node := ((code[b]?).map Block.nodes).getD []

/-- Where a defined function starts. -/
def entryNodes (f : FuncId) : List Node :=
  ((code.findIdx? (·.function == f)).map code.blockNodes).getD []

/-- Where control goes from a call that comes back. -/
def continuation (n : Node) (rest : List Node) : Exit → Spot (List Node) Exit
  | .ret =>
      match n.op with
      | .invoke _ _ normal _ => .at (code.blockNodes normal)
      | _ => .at rest
  | .unwind =>
      match n.op with
      | .invoke _ _ _ unwind => .at (code.blockNodes unwind)
      | _ => .left .unwind

/-- Where control goes from an instruction that enters no function. -/
def moves (n : Node) (rest : List Node) : List (Spot (List Node) Exit) :=
  match n.op with
  | .phi _ | .bitCast _ | .other _ => [.at rest]
  | .call _ _ | .invoke _ _ _ _ => [.ret, .unwind].map (code.continuation n rest)
  | .br _ dests => dests.map fun b => .at (code.blockNodes b)
  | .ret _ => [.left .ret]
  | .resume _ => [.left .unwind]
  | .unreachable => []

def procedures : Procedures FuncId (List Node) Exit where
  entry f := code.entryNodes f
  target _ ns := (ns.head?.bind (·.op.getCalledFunction)).filter fun f =>
    code.any (·.function == f)
  next _ ns :=
    match ns with
    | n :: rest => code.moves n rest
    | [] => []
  after _ ns e :=
    match ns with
    | n :: rest => code.continuation n rest e
    | [] => .left e

end Code

inductive InitEvent
  | returned   -- MPI_Init or MPI_Init_thread has returned
  | ran        -- MPIOPT_INIT was called
  | other      -- any other instruction that is no PHI
deriving DecidableEq, Repr

abbrev Stack := List (FuncId × Spot (List Node) Module.Exit)

/-- An execution, with what it has done. -/
structure InitRun where
  stack : Stack
  history : List InitEvent

namespace Module

variable (m : Module) (mpioptInit : FuncId)

/-- What a call that comes back has done. -/
def exitEvent (n : Node) : Exit → InitEvent
  | .ret => if m.targetsInit n.op then .returned else .other
  | .unwind => .other

/-- What a step does. -/
def stepEvent : Stack → Procedures.Choice → List InitEvent
  | (_, .at (n :: _)) :: _, .goes i =>
      if n.op.isPhi then []
      else if targetsMpioptInit mpioptInit n.op then [.ran]
      else if n.op.callBase.isSome then
        match [Exit.ret, .unwind][i]? with
        | some e => [m.exitEvent n e]
        | none => []
      else [.other]
  | (_, .at (n :: _)) :: _, .enters =>
      if targetsMpioptInit mpioptInit n.op then [.ran] else [.other]
  | (_, .left e) :: (_, .at (n :: _)) :: _, .leaves => [m.exitEvent n e]
  | _, _ => []

/-- A step of an execution of the code. -/
def initStep (code : Code) (r : InitRun) (c : Procedures.Choice) : Option InitRun :=
  (code.procedures.step r.stack c).map fun stack =>
    ⟨stack, r.history ++ m.stepEvent mpioptInit r.stack c⟩

/-- Function `f` is called. -/
def InitStarted (code : Code) (f : FuncId) (r : InitRun) : Prop :=
  code.procedures.Started f r.stack ∧ r.history = []

/-- `MPIOPT_INIT` runs once right after each return of `MPI_Init`, and nowhere else. -/
structure RunsOnce (history : List InitEvent) : Prop where
  after : ∀ i e, history[i]? = some .returned → history[i + 1]? = some e → e = .ran
  only : ∀ i, history[i]? = some .ran → ∃ j, i = j + 1 ∧ history[j]? = some .returned

/-! ### The condition -/

/-- The users for which a call is inserted. -/
def initUsers (code : Code) : List Node :=
  callUsers code (m.mpiFunc .init) ++ callUsers code (m.mpiFunc .initThread)

/-- How many of them are an `invoke` that goes on in this block. -/
def invokesInto (code : Code) (b : BlockId) : Nat :=
  (m.initUsers code).countP fun u => match u.op with
    | .invoke _ _ normal _ => normal == b
    | _ => false

/-- How often a call is one of them. -/
def usesOf (code : Code) (n : Node) : Nat :=
  (m.initUsers code).countP fun u => u.ptr == n.ptr && !u.op.isInvoke

/-- A call that returns normally comes with as many insertions as it should. -/
def properExit (code : Code) (n : Node) : Exit → Bool
  | .ret =>
      match n.op with
      | .invoke _ _ normal _ => m.invokesInto code normal == if m.targetsInit n.op then 1 else 0
      | _ => m.usesOf code n == if m.targetsInit n.op then 1 else 0
  | .unwind =>
      match n.op with
      | .invoke _ _ _ unwind => m.invokesInto code unwind == 0
      | _ => true

/--
The condition on a step: control gets to the normal destination of an `invoke` of `MPI_Init`
only as that `invoke` returns, and it is the only one that goes on there; a call that returns
mentions `MPI_Init` only as what it calls, and then once.
-/
def properStep (code : Code) (stack : Stack) (c : Procedures.Choice) : Bool :=
  match stack, c with
  | (_, .at (n :: _)) :: _, .goes i =>
      match n.op with
      | .br _ dests => (dests[i]?).all fun b => m.invokesInto code b == 0
      | .call _ _ | .invoke _ _ _ _ => ([Exit.ret, .unwind][i]?).all (m.properExit code n)
      | _ => true
  | (_, .left e) :: (_, .at (n :: _)) :: _, .leaves => m.properExit code n e
  | _, _ => true

end Module

end CompMatch.Pass

/-
Executions with the values that branches depend on.

An SSA value stands for what its instruction has computed last, in one activation of the
function: `eval` reads it there.  What the instructions compute is left open, as are the
arguments of a function, so a step chooses them; a value that is no truth value is `none`,
and a branch on it is stuck.

An execution keeps track of the requests that one init call has made: of each that is not
freed, the activation that has made it.
-/
import CompMatch.Pass.Search

namespace CompMatch.Pass

/-- The value is computed there. -/
def Value.definedAt (f : FuncId) (l : Loc) : Value → Bool
  | .instruction _ g k => g == f && k == l
  | _ => false

/-- An activation of a function. -/
structure Frame where
  id : Nat
  function : FuncId
  spot : Spot Loc Module.Exit
  args : Nat → Option Bool
  /-- What its instructions have computed last. -/
  regs : Loc → Option Bool

namespace Frame

variable (fr : Frame)

def eval : Value → Option Bool
  | .constInt _ v => some (decide (v ≠ 0))
  | .global _ _ | .constant _ _ => none
  | .argument _ f i => if f = fr.function then fr.args i else none
  | .instruction _ f l => if f = fr.function then fr.regs l else none

def assign (l : Loc) (v : Option Bool) : Frame := { fr with regs := Function.update fr.regs l v }

def goto (s : Spot Loc Module.Exit) : Frame := { fr with spot := s }

/-- A call comes back; if it unwinds it has no value. -/
def comesBack (i : Instruction) (l : Loc) (e : Module.Exit) (v : Option Bool) : Frame :=
  match e with
  | .ret => (fr.assign l v).goto (Module.continuation i l .ret)
  | .unwind => fr.goto (Module.continuation i l .unwind)

end Frame

structure Execution where
  stack : List Frame
  /-- How many activations there were. -/
  entered : Nat
  /-- Of each request that is alive, the activation that has made it. -/
  requests : List Nat

namespace Execution

inductive Choice
  | computes (v : Option Bool)
  | goes (i : Nat)
  | decides
  /-- A function without a body comes back; it may free a request. -/
  | returns (e : Module.Exit) (v : Option Bool) (freed : Option Nat)
  | enters (args : Nat → Option Bool)
  /-- The caller goes on. -/
  | resumes (v : Option Bool)

def Started (f : FuncId) (e : Execution) : Prop :=
  ∃ args, e = ⟨[⟨0, f, .at (0, 0), args, fun _ => none⟩], 1, []⟩

end Execution

namespace Module

/-- The activation on top, its callers, and what it is about to execute. -/
def top (m : Module) (e : Execution) : Option (Frame × List Frame × Loc × Instruction) :=
  match e.stack with
  | fr :: rest =>
      match fr.spot with
      | .at l => (m.instruction (fr.function, l)).map fun i => (fr, rest, l, i)
      | .left _ => none
  | [] => none

/-- No branch leads to the first block of a function. -/
def EntriesFree (m : Module) : Prop := ∀ f, m.predecessors (f, 0) = []

/-- The value that a step gives an instruction, and in which activation. -/
def written (m : Module) (e : Execution) : Execution.Choice → Option (Frame × Loc × Option Bool)
  | .computes v => (m.top e).map fun (fr, _, l, _) => (fr, l, v)
  | .returns .ret v _ => (m.top e).map fun (fr, _, l, _) => (fr, l, v)
  | .resumes v =>
      match e.stack with
      | fr :: caller :: _ =>
          match fr.spot, caller.spot with
          | .left .ret, .at l => some (caller, l, v)
          | _, _ => none
      | _ => none
  | _ => none

/-- The guard gets no other value in an activation that has a live request. -/
def keepsGuard (m : Module) (guard : Value) (way : Bool) (e : Execution) (a : Execution.Choice) : Bool :=
  match m.written e a with
  | some (fr, l, v) => !(e.requests.contains fr.id && guard.definedAt fr.function l && v == some !way)
  | none => true

/-- Only an activation that has a live request branches on the guard. -/
def branchesOwn (m : Module) (guard : Value) (e : Execution) : Bool :=
  match m.top e with
  | some (fr, _, _, .condBr cond _ _) =>
      cond != guard || guard.isConstant || e.requests.isEmpty || e.requests.contains fr.id
  | _ => true

end Module

namespace Search

variable {m : Module} (s : Search m)

/-- The requests after a call of a function without a body. -/
def requestsAfter (fr : Frame) (l : Loc) (c : CallBase) (e : Module.Exit) (freed : Option Nat)
    (requests : List Nat) : List Nat :=
  if (fr.function, l) = s.mpiCall ∧ e = .ret then fr.id :: requests
  else if c.getCalledFunction = m.mpiFunc .requestFree then freed.elim requests requests.eraseIdx
  else requests

def execute (e : Execution) : Execution.Choice → Option Execution
  | .computes v =>
      (m.top e).bind fun (fr, rest, l, i) =>
        match i with
        | .phi | .alloca | .other => some { e with stack := (fr.assign l v).goto (.at (l.1, l.2 + 1)) :: rest }
        | _ => none
  | .goes k =>
      (m.top e).bind fun (fr, rest, l, i) =>
        match i with
        | .br _ | .switch _ _ | .ret | .resume =>
            ((m.successors i l)[k]?).map fun s => { e with stack := fr.goto s :: rest }
        | _ => none
  | .decides =>
      (m.top e).bind fun (fr, rest, _, i) =>
        match i with
        | .condBr cond ifTrue ifFalse =>
            (fr.eval cond).map fun v =>
              { e with stack := fr.goto (.at (if v then ifTrue else ifFalse, 0)) :: rest }
        | _ => none
  | .returns x v freed =>
      (m.top e).bind fun (fr, rest, l, i) =>
        i.callBase.bind fun c =>
          if m.entered c = none ∧ x ∈ m.exits c then
            some { e with
              stack := fr.comesBack i l x v :: rest
              requests := s.requestsAfter fr l c x freed e.requests }
          else none
  | .enters args =>
      (m.top e).bind fun (fr, rest, _, i) =>
        i.callBase.bind fun c =>
          (m.entered c).map fun g =>
            { e with
              stack := ⟨e.entered, g, .at (0, 0), args, fun _ => none⟩ :: fr :: rest
              entered := e.entered + 1 }
  | .resumes v =>
      match e.stack with
      | fr :: caller :: rest =>
          match fr.spot, caller.spot with
          | .left x, .at l =>
              (m.instruction (caller.function, l)).map fun i =>
                { e with stack := caller.comesBack i l x v :: rest }
          | _, _ => none
      | _ => none

/--
The branch at which the search adds one successor is taken that way while a request is alive.
-/
def TakesKept (e e' : Execution) : Prop :=
  e.requests ≠ [] → ∀ fr rest l cond ifTrue ifFalse b,
    m.top e = some (fr, rest, l, .condBr cond ifTrue ifFalse) →
    s.nextBlocks (.condBr cond ifTrue ifFalse) = [b] →
    e'.stack = fr.goto (.at (b, 0)) :: rest

/-- All executions do. -/
def PrunesSoundly : Prop := ∀ f e a e', Reach s.execute anyStep (Execution.Started f) e →
  s.execute e a = some e' → s.TakesKept e e'

def careful (e : Execution) (a : Execution.Choice) : Bool :=
  match s.guard with
  | some (guard, way) => m.keepsGuard guard way e a && m.branchesOwn guard e
  | none => true

end Search

end CompMatch.Pass

/-
The LLVM module the pass looks at.

A function is its name, one attribute and its basic blocks; without blocks it is only
declared.  What an instruction computes is left out, as the pass never looks at it: an
instruction is a call, or something that passes control on, or an `alloca`, or none of
these.  An SSA value is known by where it is computed, and a constant by what it is, as
LLVM keeps every constant once.

`Module.procedures` is how control goes in an execution.  Branches may go either way.
A function that is not defined in the module returns, unless it is marked as one that
does not, or it throws; what is thrown goes up to the next `invoke`.
-/
import CompMatch.Lib.Procedures
import Mathlib.Data.List.Infix

namespace CompMatch.Pass

inductive Ty
  | int (bits : Nat)
  | ptr (pointee : String)
deriving DecidableEq, Repr

abbrev FuncId := Nat

abbrev BlockId := Nat

/-- A block of a function, and an instruction of the block. -/
abbrev Loc := BlockId × Nat

inductive Value
  | constInt (bits : Nat) (v : Int)
  | global (pointee name : String)
  | constant (ty : Ty) (expr : String)   -- any other one, such as `undef` or an address as an integer
  | argument (ty : Ty) (f : FuncId) (i : Nat)
  | instruction (ty : Ty) (f : FuncId) (l : Loc)
deriving DecidableEq, Repr

namespace Value

def getType : Value → Ty
  | .constInt bits _ => .int bits
  | .global pointee _ => .ptr pointee
  | .constant ty _ | .argument ty _ _ | .instruction ty _ _ => ty

def isConstant : Value → Bool
  | .constInt _ _ | .global _ _ | .constant _ _ => true
  | .argument _ _ _ | .instruction _ _ _ => false

def isInstruction : Value → Bool
  | .instruction _ _ _ => true
  | _ => false

end Value

structure CallBase where
  /-- The function that is called; none if it is called through a pointer. -/
  getCalledFunction : Option FuncId
  args : List Value
deriving DecidableEq, Repr

/-- `getArgOperand`. -/
def CallBase.getArgOperand (c : CallBase) (i : Nat) : Option Value := c.args[i]?

inductive Instruction
  | phi
  | alloca
  | other
  | call (c : CallBase)
  | invoke (c : CallBase) (normal unwind : BlockId)
  | br (dest : BlockId)
  | condBr (cond : Value) (ifTrue ifFalse : BlockId)
  | switch (cond : Value) (dests : List BlockId)
  | ret
  | resume
  | unreachable
deriving DecidableEq, Repr

/-- The call an instruction is. -/
def Instruction.callBase : Instruction → Option CallBase
  | .call c | .invoke c _ _ => some c
  | _ => none

structure Function where
  getName : String
  /-- The attribute `NoReturn`. -/
  noReturn : Bool
  blocks : List (List Instruction)
deriving DecidableEq, Repr

namespace Function

def isDeclaration (f : Function) : Bool := f.blocks.isEmpty

/-- The names of the intrinsics are reserved. -/
def isIntrinsic (f : Function) : Bool := decide ("llvm.".toList <+: f.getName.toList)

/-- The instructions, from `inst_begin` to `inst_end`. -/
def instructions (f : Function) : List Instruction := f.blocks.flatten

def instructionAt (f : Function) (l : Loc) : Option Instruction := (f.blocks[l.1]?).bind (·[l.2]?)

end Function

/-- No two functions of a module have the same name. -/
structure Module where
  functions : List Function
  names : (functions.map Function.getName).Nodup

namespace Module

variable (m : Module)

def hasBody (f : FuncId) : Bool := (m.functions[f]?).any (!·.isDeclaration)

def instructionAt (f : FuncId) (l : Loc) : Option Instruction :=
  (m.functions[f]?).bind (·.instructionAt l)

/-- The call at a location. -/
def callAt (f : FuncId) (l : Loc) : Option CallBase := (m.instructionAt f l).bind (·.callBase)

/-! ### Executions -/

/-- How a function is left. -/
inductive Exit
  | ret
  | unwind
deriving DecidableEq, Repr

/-- A call of a function without a body comes back in these ways. -/
def exits (c : CallBase) : List Exit :=
  if (c.getCalledFunction.bind (m.functions[·]?)).any (·.noReturn) then [.unwind] else [.ret, .unwind]

/-- The defined function that a call enters. -/
def entered (c : CallBase) : Option FuncId := c.getCalledFunction.filter m.hasBody

/-- Where control goes from a call that comes back. -/
def continuation (i : Instruction) (l : Loc) : Exit → Spot Loc Exit
  | .ret =>
      match i with
      | .invoke _ normal _ => .at (normal, 0)
      | _ => .at (l.1, l.2 + 1)
  | .unwind =>
      match i with
      | .invoke _ _ unwind => .at (unwind, 0)
      | _ => .left .unwind

/-- Where control goes from an instruction that enters no function. -/
def successors (i : Instruction) (l : Loc) : List (Spot Loc Exit) :=
  match i with
  | .phi | .alloca | .other => [.at (l.1, l.2 + 1)]
  | .call c | .invoke c _ _ => (m.exits c).map (continuation i l)
  | .br dest => [.at (dest, 0)]
  | .condBr _ ifTrue ifFalse => [.at (ifTrue, 0), .at (ifFalse, 0)]
  | .switch _ dests => dests.map fun b => .at (b, 0)
  | .ret => [.left .ret]
  | .resume => [.left .unwind]
  | .unreachable => []

def procedures : Procedures FuncId Loc Exit where
  entry _ := (0, 0)
  target f l := (m.callAt f l).bind m.entered
  next f l :=
    match m.instructionAt f l with
    | some i => m.successors i l
    | none => []
  after f l e :=
    match m.instructionAt f l with
    | some i => continuation i l e
    | none => .left e

end Module

end CompMatch.Pass

/-
The code of a module as the pass changes it.

When calls are replaced and inserted, which instruction a pointer points to matters, and
so does which instruction an operand refers to.  An instruction is known by its address
here, and a result that is used by the address of the instruction that computes it.  The
blocks of all functions are in one list; the place of a block in it is its address, as
no block is moved.
-/
import CompMatch.Pass.MpiFunctions
import Mathlib.Data.List.Dedup

namespace CompMatch.Pass

/-- The address of an instruction. -/
abbrev Ptr := Nat

inductive Operand
  | inst (p : Ptr)
  | function (f : FuncId)
  | other (n : Nat)         -- an argument, a constant or a global variable
deriving DecidableEq, Repr

inductive Op
  | phi (incoming : List Operand)
  | bitCast (v : Operand)
  | other (operands : List Operand)
  | call (callee : Operand) (args : List Operand)
  | invoke (callee : Operand) (args : List Operand) (normal unwind : BlockId)
  | br (operands : List Operand) (dests : List BlockId)   -- also a switch
  | ret (operands : List Operand)
  | resume (operands : List Operand)
  | unreachable
deriving DecidableEq, Repr

namespace Op

def isTerminator : Op → Bool
  | .invoke _ _ _ _ | .br _ _ | .ret _ | .resume _ | .unreachable => true
  | _ => false

def successors : Op → List BlockId
  | .invoke _ _ normal unwind => [normal, unwind]
  | .br _ dests => dests
  | _ => []

def isPhi : Op → Bool
  | .phi _ => true
  | _ => false

def isInvoke : Op → Bool
  | .invoke _ _ _ _ => true
  | _ => false

/-- `dyn_cast<CallBase>`: the callee and the operands of the call. -/
def callBase : Op → Option (Operand × List Operand)
  | .call callee args | .invoke callee args _ _ => some (callee, args)
  | _ => none

/-- `getCalledFunction`: null if the function is called through a pointer. -/
def getCalledFunction (op : Op) : Option FuncId :=
  match op.callBase with
  | some (.function f, _) => some f
  | _ => none

def operands : Op → List Operand
  | .phi vs | .other vs | .br vs _ | .ret vs | .resume vs => vs
  | .bitCast v => [v]
  | .call callee args | .invoke callee args _ _ => callee :: args
  | .unreachable => []

/-- The same instruction with other operands. -/
def mapOperands (g : Operand → Operand) : Op → Op
  | .phi vs => .phi (vs.map g)
  | .bitCast v => .bitCast (g v)
  | .other vs => .other (vs.map g)
  | .call callee args => .call (g callee) (args.map g)
  | .invoke callee args normal unwind => .invoke (g callee) (args.map g) normal unwind
  | .br vs dests => .br (vs.map g) dests
  | .ret vs => .ret (vs.map g)
  | .resume vs => .resume (vs.map g)
  | .unreachable => .unreachable

end Op

structure Node where
  ptr : Ptr
  op : Op
deriving DecidableEq, Repr

structure Block where
  function : FuncId
  nodes : List Node
deriving DecidableEq, Repr

abbrev Code := List Block

namespace Code

def nodes (code : Code) : List Node := code.flatMap Block.nodes

/-- The instruction at an address. -/
def node (code : Code) (p : Ptr) : Option Node := code.nodes.find? (·.ptr == p)

/-- `users`: an instruction comes up once for each operand that is the value. -/
def users (code : Code) (v : Operand) : List Node :=
  code.nodes.flatMap fun n => (n.op.operands.filter (· == v)).map fun _ => n

/-- Change the list of instructions of every block. -/
def mapNodes (g : List Node → List Node) (code : Code) : Code :=
  code.map fun b => { b with nodes := g b.nodes }

/-- Insert an instruction before the one at an address. -/
def insertBefore (at' : Ptr) (new : Node) (code : Code) : Code :=
  code.mapNodes fun ns => ns.flatMap fun n => if n.ptr = at' then [new, n] else [n]

def replaceAllUsesWith (old new : Ptr) (code : Code) : Code :=
  code.mapNodes fun ns => ns.map fun n =>
    { n with op := n.op.mapOperands fun v => if v = .inst old then .inst new else v }

def eraseFromParent (p : Ptr) (code : Code) : Code :=
  code.mapNodes fun ns => ns.filter fun n => n.ptr != p

/-- The last instruction ends the block, and no other one. -/
def OneTerminator (ns : List Node) : Prop :=
  ∃ front last, ns = front ++ [last] ∧ last.op.isTerminator = true ∧
    ∀ n ∈ front, n.op.isTerminator = false

/-- What LLVM guarantees of the code of a module. -/
structure WellFormed (code : Code) : Prop where
  ptrs : (code.nodes.map Node.ptr).Nodup
  /-- Every result that is used is computed. -/
  defined : ∀ n ∈ code.nodes, ∀ p, .inst p ∈ n.op.operands → p ∈ code.nodes.map Node.ptr
  terminators : ∀ b ∈ code, OneTerminator b.nodes
  /-- The block a function starts with is no successor of any. -/
  entries : ∀ n ∈ code.nodes, ∀ b ∈ n.op.successors, ∀ f, code.findIdx? (·.function == f) ≠ some b

end Code

end CompMatch.Pass

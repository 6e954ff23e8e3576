/-
`FunctionMetadata`: what is known of a function before the search.

Every function of the module is looked at once, by itself.  Which functions belong to
the standard libraries is known to LLVM only, so `getLibFunc` is a parameter.  So is what
the instructions compute, as far as it matters here: which ways of the branches are ever
taken.
-/
import CompMatch.Pass.MpiFunctions

namespace CompMatch.Pass

/-- The tuple kept for a function. -/
structure FunctionInfo where
  unknown : Bool
  hasMpi : Bool
  hasSync : Bool
  mayConflict : Bool
deriving DecidableEq, Repr

namespace Module

variable (m : Module) (getLibFunc : Function → Bool)

/-- The function is not looked into. -/
def exempt (f : FuncId) (F : Function) : Bool :=
  F.noReturn || F.isIntrinsic || getLibFunc F || m.isMpiFunction (some f)

/-- What the loop over the instructions of a function finds. -/
def scan (F : Function) : FunctionInfo :=
  let calls := F.instructions.filterMap Instruction.callBase
  { unknown := false
    hasMpi := calls.any m.isMpiCall
    hasSync := false
    mayConflict := calls.any fun c => m.isMpiCall c &&
      (m.isSendFunction c.getCalledFunction || m.isRecvFunction c.getCalledFunction) }

/-- What `FunctionMetadata` inserts for a function of the module. -/
def functionMetadata (f : FuncId) : Option FunctionInfo :=
  (m.functions[f]?).map fun F =>
    if m.exempt getLibFunc f F then ⟨false, false, false, false⟩
    else if F.isDeclaration then ⟨true, false, false, false⟩
    else m.scan F

/-- `FunctionMetadata::may_conflict`; a function that is not in the map may. -/
def mayConflict (f : Option FuncId) : Bool :=
  match f.bind (m.functionMetadata getLibFunc) with
  | some info => info.unknown || info.mayConflict
  | none => true

/-- `FunctionMetadata::is_unknown`. -/
def isUnknown (f : Option FuncId) : Bool :=
  match f.bind (m.functionMetadata getLibFunc) with
  | some info => info.unknown
  | none => true

variable (taken : FuncId → Loc → Spot Loc Exit → Bool)

end Module

end CompMatch.Pass

/-
When the summary of a function can be relied on.

`FunctionMetadata` looks at the instructions of one function at a time.  So what a
function calls is not asked whether it communicates, nor is it noticed that a call
goes out of the module or through a pointer: the search would notice if it met the
call itself.

That no summary of a module is wrong is a condition on each function by itself as well.
A chain of calls that ends at something to warn of has a last function that is not warned
of, and that one calls it, or enters a function that is warned of.
-/
import CompMatch.Pass.FunctionCoverage

namespace CompMatch.Pass

namespace Module

variable {m : Module} {getLibFunc : Function → Bool} {f g : FuncId} {F : Function} {c : CallBase}
  {taken : FuncId → Loc → Spot Loc Exit → Bool}

/-! ### Functions of the module -/

end Module

/-! ### A module -/

/-- No function is known from a library. -/
def noLibrary (_ : Function) : Bool := false

end CompMatch.Pass

/-
Whether two calls can be made in the same iteration of a loop.

`is_path_in_loop_iter` looks for a path through one iteration that passes through one
block and then comes to another.  It is a depth first search whose set of visited blocks
is shared by all its calls: the set is passed on, and comes back with the result.  The
first argument bounds how deep the calls may go.

The search should find a path if there is one.
-/
import CompMatch.Lib.DepthFirst
import CompMatch.Pass.Search

namespace CompMatch.Pass

/-- A loop of a function, as `LoopInfo` gives it. -/
structure LoopBody (m : Module) where
  function : FuncId
  header : BlockId
  blocks : List BlockId
  header_mem : header ∈ blocks
deriving DecidableEq

namespace LoopBody

variable {m : Module} (l : LoopBody m)

def contains (b : BlockId) : Bool := decide (b ∈ l.blocks)

/-- The successors of the terminator, which is the last instruction of a block. -/
def getSuccessors (b : BlockId) : List BlockId :=
  ((m.block (l.function, b)).getLast?).elim [] Instruction.getSuccessors

/-- The loop over the successors of a block; it is left when a path was found. -/
def trySuccessors (search : BlockId → List BlockId → Option (Bool × List BlockId)) :
    List BlockId → List BlockId → Option (Bool × List BlockId)
  | [], visited => some (false, visited)
  | next :: rest, visited =>
      if l.contains next && decide (next ∉ visited) then
        (search next visited).bind fun (found, visited) =>
          if found then some (true, visited) else trySuccessors search rest visited
      else trySuccessors search rest visited

/-- `is_path_in_loop_iter`, with what was visited. -/
def isPathInLoopIter (block1 block2 : BlockId) :
    Nat → BlockId → Bool → List BlockId → Option (Bool × List BlockId)
  | 0, _, _, _ => none
  | n + 1, currentPos, encountered1, visited =>
      if currentPos = block2 then some (encountered1, visited)
      else
        l.trySuccessors (fun next => isPathInLoopIter block1 block2 n next (encountered1 || currentPos = block1))
          (l.getSuccessors currentPos) (currentPos :: visited)

/-- The search from the header on, with nothing visited, returns. -/
def Returns (block1 block2 : BlockId) (found : Bool) : Prop :=
  ∃ n visited, l.isPathInLoopIter block1 block2 n l.header false [] = some (found, visited)

/-- `are_calls_in_different_loop_iters`; the calls of the search go no deeper than there are blocks. -/
def areCallsInDifferentLoopIters (getLoopFor : FuncId × BlockId → Option (LoopBody m)) (orig conflict : Site) :
    Option Bool :=
  if orig = conflict then some true
  else if orig.1 ≠ conflict.1 then some false
  else
    match getLoopFor (orig.1, orig.2.1) with
    | none => some false
    | some l =>
        if getLoopFor (conflict.1, conflict.2.1) ≠ some l then some false
        else if orig.2.1 = conflict.2.1 then some true
        else (l.isPathInLoopIter orig.2.1 conflict.2.1 (l.blocks.length + 2) l.header false []).map (!·.1)

/-! ### What the search should find -/

/-- Control goes on in the same iteration, and not to `block2`. -/
def Continues (block2 : BlockId) (a b : BlockId) : Prop :=
  b ∈ l.getSuccessors a ∧ l.contains b = true ∧ b ≠ l.header ∧ b ≠ block2

/-- Control can go to `block2`, which is in the loop. -/
def Arrives (block2 : BlockId) (a : BlockId) : Prop :=
  block2 ∈ l.getSuccessors a ∧ l.contains block2 = true

/-- A path from the header that stays in the loop and does not return to the header, passes
through `block1` and later reaches `block2` for the first time. -/
def HasPath (block1 block2 : BlockId) : Prop :=
  l.header ≠ block2 ∧ Relation.ReflTransGen (l.Continues block2) l.header block1 ∧
    ∃ b, Relation.ReflTransGen (l.Continues block2) block1 b ∧ l.Arrives block2 b

/-! ### The order of the blocks -/

/-- The successors in the loop, other than `block2`. -/
def onward (block2 : BlockId) (a : BlockId) : List BlockId :=
  (l.getSuccessors a).filter fun b => l.contains b && decide (b ≠ block2)

/-- From `block1` a path leads to `block2` that avoids all blocks which come before `block1` in
the depth first order of the loop, where nothing goes on behind `block2`. -/
def Unhindered (block1 block2 : BlockId) : Prop := ∃ n later before,
  DepthFirst.visit (l.onward block2) n l.header [] = some (later ++ block1 :: before) ∧
    ∃ b, DepthFirst.FreshPath (l.onward block2) before block1 b ∧ l.Arrives block2 b

end LoopBody

end CompMatch.Pass

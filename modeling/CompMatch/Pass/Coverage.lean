/-
What the search for conflicts should cover.

The invariant of its loop is that of every work list: whatever control can reach from an
instruction that was examined has been examined itself, or is the next one, or is in
`to_check`.  What should come of it is that the search returns false only if no way from
the init call to the end of its scope leads over a conflicting call.

`to_check` holds instructions, but `already_checked` holds blocks, and a block is entered
in the middle when a function returns into it.
-/
import CompMatch.Lib.WorkList.Coverage
import CompMatch.Pass.Search

namespace CompMatch.Pass

namespace Search

variable {m : Module} (s : Search m)

/-! ### The invariant of the loop -/

/-- At the head of turn `n` the instruction was examined. -/
def Examined (address : Site → Nat) (n : Nat) (i : Site) : Prop :=
  ∃ k < n, ∃ toCheck checked, s.run address k = .running i toCheck checked

/-- Control goes from the instruction to the head of the block, as the guard allows. -/
def LeadsInto (i : Site) (b : FuncId × BlockId) : Prop :=
  ∃ instr, m.instruction i = some instr ∧ i.1 = b.1 ∧ b.2 ∈ s.nextBlocks instr

/-- The edges that the search follows. -/
inductive Edge (i : Site) : Site → Prop
  | next {instr : Instruction} {j : Site} (hi : m.instruction i = some instr)
      (ht : instr.isTerminator = false) (hj : m.getNextNode i = some j) : Edge i j
  | block {b : FuncId × BlockId} (hb : s.LeadsInto i b) : Edge i (m.getFirstNonPHI b)
  | returns {z j : Site} (hi : m.instruction i = some .ret) (hz : z ∈ m.callSites i.1)
      (hj : m.getNextNode z = some j) : Edge i j

/-- An instruction that is neither a PHI nor `unreachable`. -/
def Plain (m : Module) (j : Site) : Prop :=
  ∃ instr, m.instruction j = some instr ∧ instr.isPhi = false ∧ instr ≠ .unreachable

/-- At the head of every turn, what control can reach next was not left out. -/
def Covers (address : Site → Nat) : Prop := ∀ n next toCheck checked,
  s.run address n = .running next toCheck checked → ∀ i j, s.Examined address n i → s.Edge i j →
    Plain m j → s.Examined address n j ∨ j = next ∨ j ∈ toCheck

/-- At the end of turn `k` the block is entered in the middle, and nothing has led into it. -/
structure EntersInTheMiddle (address : Site → Nat) (k : Nat) (b : FuncId × BlockId) : Prop where
  takes : ∃ x y toCheck toCheck' checked, s.run address k = .running x toCheck checked ∧
    s.run address (k + 1) = .running y toCheck' (b :: checked) ∧ y ≠ m.getFirstNonPHI b
  first : ∀ i, s.Examined address (k + 1) i → ¬ s.LeadsInto i b

/-- A later turn than `k`, and before turn `n`, examines an instruction that leads into the block. -/
def LedIntoAfter (address : Site → Nat) (k n : Nat) (b : FuncId × BlockId) : Prop :=
  ∃ l, k < l ∧ l < n ∧ ∃ x toCheck checked, s.run address l = .running x toCheck checked ∧ s.LeadsInto x b

/-! ### The ways through the code -/

/-- The call ends the scope, or the use of MPI. -/
def EndsScope (x : Site) : Prop := ∃ c, (m.instruction x).bind Instruction.callBase = some c ∧
  m.isMpiCall c = true ∧ (c.getCalledFunction = m.mpiFunc .finalize ∨ x ∈ s.scopeEndings)

/-- A call that conflicts with the init call, or may do so. -/
def Conflicts (x : Site) : Prop := ∃ c, (m.instruction x).bind Instruction.callBase = some c ∧
  if m.isMpiCall c then
    (if s.isSending then m.isSendFunction c.getCalledFunction else m.isRecvFunction c.getCalledFunction) = true ∧
      m.areCallsConflicting s.build s.se s.impl s.call c s.isSending = some true
  else m.mayConflict s.getLibFunc c.getCalledFunction = true ∨ m.isUnknown s.getLibFunc c.getCalledFunction = true

/-- Where control goes on behind a call. -/
def behindCall (m : Module) (z : Site) : Option Site :=
  match m.getNextNode z, m.instruction z with
  | some y, _ => some y
  | none, some (.invoke _ normal _) => some (m.getFirstNonPHI (z.1, normal))
  | none, _ => none

/-- One step of control, over calls and behind returns. -/
inductive Passes (i : Site) : Site → Prop
  | next {instr : Instruction} {j : Site} (hi : m.instruction i = some instr)
      (ht : instr.isTerminator = false) (hj : m.getNextNode i = some j) : Passes i j
  | block {b : FuncId × BlockId} (hb : s.LeadsInto i b) : Passes i (m.getFirstNonPHI b)
  | returns {z j : Site} (hi : m.instruction i = some .ret) (hz : z ∈ m.callSites i.1)
      (hj : behindCall m z = some j) : Passes i j

/-- A way that does not go on behind an end of the scope. -/
def Way : Site → Site → Prop := Relation.ReflTransGen fun i j => ¬ s.EndsScope i ∧ s.Passes i j

/-- On some way from here to the end of the scope there is a conflicting call. -/
def Unsafe (x : Site) : Prop :=
  ∃ y z, s.Way x y ∧ s.Conflicts y ∧ ¬ s.EndsScope y ∧ s.Way y z ∧ s.EndsScope z

/-- If the search returns false, then no way behind the init call leads over a conflicting call. -/
def Sound (address : Site → Nat) : Prop :=
  s.Returns address false → ∀ x, behindCall m s.mpiCall = some x → ¬ s.Unsafe x

/-- At the head of turn `n` the search has left the instruction to look at, or left it out. -/
inductive Left (address : Site → Nat) (n : Nat) : Site → Prop
  | toCheck {x y : Site} {toCheck : List Site} {checked : List (FuncId × BlockId)}
      (h : s.run address n = .running x toCheck checked) (hy : y ∈ toCheck) : Left address n y
  | head {k : Nat} {b : FuncId × BlockId} (h : s.EntersInTheMiddle address k b)
      (hb : s.LedIntoAfter address k n b) : Left address n (m.getFirstNonPHI b)

end Search

end CompMatch.Pass

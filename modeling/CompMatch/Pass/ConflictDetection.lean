/-
How the search tells two calls apart.

`are_calls_conflicting` compares the communicators, the peers and the tags of two calls.
Which operands these are is written in three tables, one for each.

A function that fails an assertion does not return in a build with assertions, and goes
on in one without; `none` is the end of the first, and also a read outside of the
operands of a call.  What LLVM's analyses know of two values is a parameter.
-/
import CompMatch.Pass.MpiFunctions

namespace CompMatch.Pass

inductive Build
  | debug     -- with assertions
  | release   -- built with `NDEBUG`
deriving DecidableEq, Repr

def assert (b : Build) (c : Bool) : Option Unit :=
  match b with
  | .debug => if c then some () else none
  | .release => some ()

/-- What ScalarEvolution and LoopInfo answer. -/
structure LoopAnalysis where
  /-- `isKnownPredicate(ICMP_NE, a, b)` -/
  isKnownNe : Value → Value → Bool
  /-- `isKnownPredicate(ICMP_EQ, a, b)` -/
  isKnownEq : Value → Value → Bool
  /-- The value is computed in a loop, and `LoopComputable` there. -/
  isLoopComputable : Value → Bool

/-- `can_prove_val_different_respecting_loops`. -/
def canProveValDifferentRespectingLoops (se : LoopAnalysis) (a b : Value) : Bool :=
  match a.isInstruction, b.isInstruction with
  | false, true => se.isKnownNe b a
  | false, false => false
  | true, _ => se.isKnownNe a b

/-- `can_prove_val_different_for_different_loop_iters`. -/
def canProveValDifferentForDifferentLoopIters (build : Build) (se : LoopAnalysis) (a b : Value) :
    Option Bool :=
  if a ≠ b then some false
  else
    (assert build (!a.isConstant || !b.isConstant)).bind fun _ =>
      -- without an instruction there is no function to look at
      if a.isInstruction then
        (assert build (a.getType matches .int _)).bind fun _ =>
          some (se.isLoopComputable a && se.isKnownEq a b)
      else none

/-- `can_prove_val_different`. -/
def canProveValDifferent (build : Build) (se : LoopAnalysis) (a b : Value)
    (checkForLoopIterDifference : Bool) : Option Bool :=
  if a.getType ≠ b.getType then (assert build false).map fun _ => true
  else if a.isConstant && b.isConstant then some (decide (a ≠ b))
  else if canProveValDifferentRespectingLoops se a b then some true
  else if checkForLoopIterDifference then canProveValDifferentForDifferentLoopIters build se a b
  else some false

/-- The wildcards of the MPI implementation. -/
structure ImplementationSpecifics where
  anySource : Int
  anyTag : Int

namespace ImplementationSpecifics

variable (impl : ImplementationSpecifics)

/-- `ANY_SOURCE` -/
def sourceWildcard : Value := .constInt 32 impl.anySource

/-- `ANY_TAG` -/
def tagWildcard : Value := .constInt 32 impl.anyTag

end ImplementationSpecifics

namespace Module

variable (m : Module) (build : Build)

/-- The call is to one of these functions. -/
def calls (c : CallBase) (ns : List MpiFunction) : Bool :=
  ns.any fun n => c.getCalledFunction == m.mpiFunc n

/-- The operand at a position, of the number of operands that are expected. -/
def operand (c : CallBase) (totalNumArgs pos : Nat) : Option Value :=
  (assert build (c.args.length == totalNumArgs)).bind fun _ => c.getArgOperand pos

/-- A function that is not in a table: both numbers are still 0. -/
def notSupported (c : CallBase) : Option Value :=
  (assert build false).bind fun _ => operand build c 0 0

/-- `get_communicator`. -/
def getCommunicator (c : CallBase) : Option Value :=
  if m.calls c [.send, .bsend, .ssend, .rsend] then operand build c 6 5
  else if m.calls c [.isend] then operand build c 7 5
  else if m.calls c [.recv, .irecv] then operand build c 7 5
  else if m.calls c [.sendrecv] then operand build c 12 10
  else notSupported build c

/-- `get_src`. -/
def getSrc (c : CallBase) (isSend : Bool) : Option Value :=
  if m.calls c [.send, .bsend, .ssend, .rsend] then
    (assert build isSend).bind fun _ => operand build c 6 3
  else if m.calls c [.isend] then (assert build isSend).bind fun _ => operand build c 7 3
  else if m.calls c [.recv, .irecv] then (assert build !isSend).bind fun _ => operand build c 7 3
  else if m.calls c [.sendrecv] then operand build c 12 (if isSend then 3 else 8)
  else notSupported build c

/-- `get_tag`. -/
def getTag (c : CallBase) (isSend : Bool) : Option Value :=
  if m.calls c [.send, .bsend, .ssend, .rsend] then
    (assert build isSend).bind fun _ => operand build c 6 4
  else if m.calls c [.isend] then (assert build isSend).bind fun _ => operand build c 7 4
  else if m.calls c [.recv, .irecv] then (assert build !isSend).bind fun _ => operand build c 7 4
  else if m.calls c [.sendrecv] then operand build c 12 (if isSend then 4 else 9)
  else notSupported build c

/-- Unless the values are proved different, go on with `rest`. -/
def unlessDifferent (se : LoopAnalysis) (a b : Value) (rest : Option Bool) : Option Bool :=
  (canProveValDifferent build se a b false).bind fun different =>
    if different then some false else rest

/-- `are_calls_conflicting`. -/
def areCallsConflicting (se : LoopAnalysis) (impl : ImplementationSpecifics)
    (orig conflict : CallBase) (isSend : Bool) : Option Bool :=
  (m.getCommunicator build orig).bind fun comm1 =>
  (m.getCommunicator build conflict).bind fun comm2 =>
  unlessDifferent build se comm1 comm2 <|
  (m.getSrc build orig isSend).bind fun src1 =>
  (m.getSrc build conflict isSend).bind fun src2 =>
  let tags :=
    (m.getTag build orig isSend).bind fun tag1 =>
    (m.getTag build conflict isSend).bind fun tag2 =>
    if tag1 = impl.tagWildcard ∨ tag2 = impl.tagWildcard then some true
    else unlessDifferent build se tag1 tag2 (some true)
  if src1 = impl.sourceWildcard ∨ src2 = impl.sourceWildcard then tags
  else unlessDifferent build se src1 src2 tags

end Module

/-! ### What the answer should be -/

/-- The positions of a message's envelope among the operands of an MPI function. -/
structure Signature where
  count : Nat
  communicator : Nat
  peer : Nat
  tag : Nat

/-- The signature of a function that sends or receives; for `MPI_Sendrecv` its half. -/
def MpiFunction.signature (isSend : Bool) : MpiFunction → Option Signature
  | .send | .bsend | .ssend | .rsend => some ⟨6, 5, 3, 4⟩
  | .isend | .ibsend | .issend | .irsend | .sendInit => some ⟨7, 5, 3, 4⟩
  | .recv | .irecv | .recvInit => some ⟨7, 5, 3, 4⟩
  | .sendrecv => some (if isSend then ⟨12, 10, 3, 4⟩ else ⟨12, 10, 8, 9⟩)
  | _ => none

/-- An integer constant, or the address of a global variable. -/
def Value.isIntegerOrGlobal : Value → Bool
  | .constInt _ _ | .global _ _ => true
  | _ => false

structure Envelope where
  communicator : Value
  peer : Value
  tag : Value
deriving DecidableEq, Repr

namespace Envelope

def isConstant (e : Envelope) : Bool :=
  e.communicator.isIntegerOrGlobal && e.peer.isIntegerOrGlobal && e.tag.isIntegerOrGlobal

/-- No message can match both. -/
def Differ (impl : ImplementationSpecifics) (e₁ e₂ : Envelope) : Prop :=
  e₁.communicator ≠ e₂.communicator ∨
    (e₁.peer ≠ e₂.peer ∧ e₁.peer ≠ impl.sourceWildcard ∧ e₂.peer ≠ impl.sourceWildcard) ∨
    (e₁.tag ≠ e₂.tag ∧ e₁.tag ≠ impl.tagWildcard ∧ e₂.tag ≠ impl.tagWildcard)

end Envelope

namespace Module

variable (m : Module)

/-- A call to a function that sends or receives, with the operands it takes. -/
structure IsCall (isSend : Bool) (n : MpiFunction) (c : CallBase) (e : Envelope) : Prop where
  function : ∃ f, c.getCalledFunction = some f ∧ m.mpiFunc n = some f
  operands : ∃ s, n.signature isSend = some s ∧ c.args.length = s.count ∧
    c.args[s.communicator]? = some e.communicator ∧ c.args[s.peer]? = some e.peer ∧
    c.args[s.tag]? = some e.tag

/-- The search compares these calls. -/
structure Compared (isSend : Bool) (n : MpiFunction) (orig conflict : CallBase) (e₁ e₂ : Envelope) :
    Prop where
  origCall : m.IsCall isSend (if isSend then .sendInit else .recvInit) orig e₁
  conflictCall : m.IsCall isSend n conflict e₂
  accepted : (if isSend then m.isSendFunction conflict.getCalledFunction
    else m.isRecvFunction conflict.getCalledFunction) = true
  constant : e₁.isConstant = true ∧ e₂.isConstant = true

/-- The operands that are taken for the envelope of a call are those. -/
structure ReadsEnvelope (build : Build) (isSend : Bool) (c : CallBase) (e : Envelope) : Prop where
  communicator : m.getCommunicator build c = some e.communicator
  peer : m.getSrc build c isSend = some e.peer
  tag : m.getTag build c isSend = some e.tag

/-- The calls are told apart as they should. -/
structure AnswersRight (se : LoopAnalysis) (impl : ImplementationSpecifics) (isSend : Bool)
    (orig conflict : CallBase) (e₁ e₂ : Envelope) : Prop where
  operands : ∀ build, m.ReadsEnvelope build isSend orig e₁ ∧ m.ReadsEnvelope build isSend conflict e₂
  asserted : m.areCallsConflicting .debug se impl orig conflict isSend ≠ none
  answer : ∀ build, m.areCallsConflicting build se impl orig conflict isSend = some false ↔
    e₁.Differ impl e₂
  builds : m.areCallsConflicting .debug se impl orig conflict isSend =
    m.areCallsConflicting .release se impl orig conflict isSend

end Module

end CompMatch.Pass

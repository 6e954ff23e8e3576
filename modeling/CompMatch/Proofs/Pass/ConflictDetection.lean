/-
What comparing two calls gives.

The call that is compared with the others initialises a persistent request, and no
table has the functions that do.  So a build with assertions stops there, and a build
without them takes the buffer of the request for its communicator, its peer and its
tag: these are of another type, and are found different.

The tables are right about the functions they have (`IsCall.reads`).
-/
import CompMatch.Pass.ConflictDetection

namespace CompMatch.Pass

/-! ### Which function is called -/

namespace MpiFunction

def all : List MpiFunction :=
  [.init, .initThread, .finalize, .send, .bsend, .ssend, .rsend, .isend, .ibsend, .issend, .irsend,
    .sendrecv, .recv, .irecv, .test, .wait, .waitall, .bufferDetach, .barrier, .allreduce, .ibarrier,
    .iallreduce, .start, .sendInit, .recvInit, .requestFree]

theorem find_name (n : MpiFunction) : all.find? (fun k => k.name == n.name) = some n := by
  cases n <;> decide

theorem name_injective {n k : MpiFunction} (h : n.name = k.name) : n = k := by
  have hn := find_name n
  rw [h, find_name k] at hn
  exact (Option.some.inj hn).symm

end MpiFunction

namespace Module

variable {m : Module} {n k : MpiFunction} {f : FuncId} {c : CallBase} {isSend : Bool} {e : Envelope}
  {build : Build}

theorem mpiFunc_name (h : m.mpiFunc n = some f) :
    ∃ F, m.functions[f]? = some F ∧ F.getName = n.name := by
  obtain ⟨hlt, hname, -⟩ := List.findIdx?_eq_some_iff_getElem.mp h
  exact ⟨m.functions[f], List.getElem?_eq_getElem hlt, by simpa using hname⟩

/-- A function is kept under one name. -/
theorem mpiFunc_inj (h : m.mpiFunc n = some f) (hk : m.mpiFunc k = some f) : n = k := by
  obtain ⟨F, hF, hname⟩ := mpiFunc_name h
  obtain ⟨G, hG, hname'⟩ := mpiFunc_name hk
  obtain rfl : F = G := Option.some.inj (hF.symm.trans hG)
  exact MpiFunction.name_injective (hname.symm.trans hname')

theorem calls_eq (h : c.getCalledFunction = some f) (hn : m.mpiFunc n = some f)
    (ns : List MpiFunction) : m.calls c ns = decide (n ∈ ns) := by
  have hiff : m.calls c ns = true ↔ n ∈ ns := by
    simp only [calls, List.any_eq_true, beq_iff_eq, h]
    constructor
    · rintro ⟨k, hk, hf⟩
      rwa [mpiFunc_inj hn hf.symm]
    · intro hmem
      exact ⟨n, hmem, hn.symm⟩
  by_cases hmem : n ∈ ns
  · rw [hiff.mpr hmem, decide_eq_true hmem]
  · rw [decide_eq_false hmem]
    exact Bool.eq_false_iff.mpr fun ht => hmem (hiff.mp ht)

/-! ### The tables -/

/-- The functions that the tables have. -/
def supported (isSend : Bool) : List MpiFunction :=
  if isSend then [.send, .bsend, .ssend, .rsend, .isend, .sendrecv] else [.recv, .irecv, .sendrecv]

theorem operand_of_length {total pos : Nat} {v : Value} (hlen : c.args.length = total)
    (hv : c.args[pos]? = some v) : operand build c total pos = some v := by
  have hassert : assert build (c.args.length == total) = some () := by
    cases build <;> simp [assert, hlen]
  rw [operand, hassert]
  exact hv

theorem assert_true : assert build true = some () := by
  cases build <;> rfl

/-- The operands of a function in the tables are found. -/
theorem IsCall.reads (h : m.IsCall isSend n c e) (hn : n ∈ supported isSend) :
    m.ReadsEnvelope build isSend c e := by
  obtain ⟨f, hf, hmf⟩ := h.function
  obtain ⟨s, hs, hlen, hcomm, hpeer, htag⟩ := h.operands
  have hcalls := calls_eq hf hmf
  cases isSend with
  | true =>
      simp only [supported, if_true, List.mem_cons, List.not_mem_nil, or_false] at hn
      rcases hn with rfl | rfl | rfl | rfl | rfl | rfl <;>
        simp only [MpiFunction.signature, if_true, Option.some.injEq] at hs <;> subst hs <;>
        constructor <;>
        simp [getCommunicator, getSrc, getTag, hcalls, assert_true, operand_of_length hlen hcomm,
          operand_of_length hlen hpeer, operand_of_length hlen htag]
  | false =>
      simp only [supported, Bool.false_eq_true, if_false, List.mem_cons, List.not_mem_nil,
        or_false] at hn
      rcases hn with rfl | rfl | rfl <;>
        simp only [MpiFunction.signature, Bool.false_eq_true, if_false, Option.some.injEq] at hs <;>
        subst hs <;> constructor <;>
        simp [getCommunicator, getSrc, getTag, hcalls, assert_true, operand_of_length hlen hcomm,
          operand_of_length hlen hpeer, operand_of_length hlen htag]

/-- What is taken for every operand of a function that is not in the tables. -/
structure ReadsFirst (m : Module) (build : Build) (isSend : Bool) (c : CallBase) : Prop where
  communicator : m.getCommunicator build c = notSupported build c
  peer : m.getSrc build c isSend = notSupported build c
  tag : m.getTag build c isSend = notSupported build c

theorem IsCall.readsFirst (h : m.IsCall isSend n c e)
    (hn : n ∈ [.ibsend, .irsend, .issend, .sendInit, .recvInit]) : m.ReadsFirst build isSend c := by
  obtain ⟨f, hf, hmf⟩ := h.function
  have hcalls := calls_eq hf hmf
  simp only [List.mem_cons, List.not_mem_nil, or_false] at hn
  rcases hn with rfl | rfl | rfl | rfl | rfl <;> constructor <;>
    simp [getCommunicator, getSrc, getTag, hcalls]

theorem notSupported_debug : notSupported .debug c = none := rfl

theorem notSupported_release : notSupported .release c = c.args[0]? := rfl

/-! ### The comparison -/

section
variable {se : LoopAnalysis} {impl : ImplementationSpecifics} {orig conflict : CallBase}
  {e₁ e₂ : Envelope}

/-- The tables do not have the call that initialises the request. -/
theorem Compared.readsFirst (h : m.Compared isSend n orig conflict e₁ e₂) (build : Build) :
    m.ReadsFirst build isSend orig := by
  refine h.origCall.readsFirst ?_
  cases isSend <;> simp

/-- A build with assertions stops at the call that initialises the request. -/
theorem Compared.debug (h : m.Compared isSend n orig conflict e₁ e₂) :
    m.areCallsConflicting .debug se impl orig conflict isSend = none := by
  rw [areCallsConflicting, (h.readsFirst .debug).communicator, notSupported_debug]
  rfl

/-- A build without assertions finds the buffer of the request different from a communicator, so
no call that the tables have is ever found in conflict. -/
theorem Compared.release {buf : Value} (h : m.Compared isSend n orig conflict e₁ e₂)
    (hn : n ∈ supported isSend) (hbuf : orig.args[0]? = some buf)
    (htype : buf.getType ≠ e₂.communicator.getType) :
    m.areCallsConflicting .release se impl orig conflict isSend = some false := by
  have horig : m.getCommunicator .release orig = some buf := by
    rw [(h.readsFirst .release).communicator, notSupported_release, hbuf]
  have hconflict : m.getCommunicator .release conflict = some e₂.communicator :=
    (h.conflictCall.reads hn).communicator
  have hdifferent : canProveValDifferent .release se buf e₂.communicator false = some true := by
    simp [canProveValDifferent, htype, assert]
  simp [areCallsConflicting, horig, hconflict, unlessDifferent, hdifferent]

/--
**No two calls are told apart as they should be**, as one of them always initialises a request.
-/
theorem answersRight_never (h : m.Compared isSend n orig conflict e₁ e₂) :
    ¬ m.AnswersRight se impl isSend orig conflict e₁ e₂ := by
  intro hright
  exact hright.asserted h.debug

end

end Module

/-! ### Two calls with one envelope -/

/-- Nothing is known of any two values. -/
def noAnalysis : LoopAnalysis := ⟨fun _ _ => false, fun _ _ => false, fun _ => false⟩

def wildcards : ImplementationSpecifics := ⟨-1, -1⟩

def sendModule : Module where
  functions := [⟨"MPI_Send_init", false, []⟩, ⟨"MPI_Send", false, []⟩]
  names := by decide

/-- To rank 1 with tag 0 in the world. -/
def worldEnvelope : Envelope :=
  ⟨.global "ompi_communicator_t" "ompi_mpi_comm_world", .constInt 32 1, .constInt 32 0⟩

def messageArgs : List Value :=
  [.global "i8" "buffer", .constInt 32 1, .global "ompi_datatype_t" "ompi_mpi_byte", .constInt 32 1,
    .constInt 32 0, .global "ompi_communicator_t" "ompi_mpi_comm_world"]

def sendInitCall : CallBase := ⟨some 0, messageArgs ++ [.argument (.ptr "ompi_request_t") 0 0]⟩

def sendCall : CallBase := ⟨some 1, messageArgs⟩

theorem sendCalls_compared :
    sendModule.Compared true .send sendInitCall sendCall worldEnvelope worldEnvelope where
  origCall := ⟨⟨0, rfl, by decide⟩, ⟨7, 5, 3, 4⟩, rfl, rfl, rfl, rfl, rfl⟩
  conflictCall := ⟨⟨1, rfl, by decide⟩, ⟨6, 5, 3, 4⟩, rfl, rfl, rfl, rfl, rfl⟩
  accepted := by decide
  constant := by decide

theorem sendCalls_never :
    ¬ sendModule.AnswersRight noAnalysis wildcards true sendInitCall sendCall worldEnvelope
      worldEnvelope :=
  Module.answersRight_never sendCalls_compared

/-- The envelopes are the same; one build stops, and the other finds no conflict. -/
theorem sendCalls_notTold :
    sendModule.Compared true .send sendInitCall sendCall worldEnvelope worldEnvelope ∧
      ¬ worldEnvelope.Differ wildcards worldEnvelope ∧
      sendModule.areCallsConflicting .debug noAnalysis wildcards sendInitCall sendCall true = none ∧
      sendModule.areCallsConflicting .release noAnalysis wildcards sendInitCall sendCall true =
        some false ∧
      ¬ sendModule.AnswersRight noAnalysis wildcards true sendInitCall sendCall worldEnvelope
        worldEnvelope := by
  have hdebug : sendModule.areCallsConflicting .debug noAnalysis wildcards sendInitCall sendCall true =
      none := by
    decide +kernel
  refine ⟨sendCalls_compared, ?_, hdebug, by decide, fun h => h.asserted hdebug⟩
  rintro (h | h | h)
  · exact h rfl
  · exact h.1 rfl
  · exact h.1 rfl

end CompMatch.Pass

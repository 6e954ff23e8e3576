/-
When the counters of a connected pair may wrap.

As long as the largest value that is computed for an operation fits, every step of the
pair is the step it would be over the integers, so a run is one of `Pair.lean` and
everything proved there holds of it.  The largest value is `operation_number * 2 + 2`.
The first operation for which it does not fit has number `2 ^ 30 - 1`: the sender's Wait
on it compares its flag with the smallest int there is, and returns at once.
-/
import CompMatch.Rendezvous.Wrapping
import CompMatch.Proofs.Rendezvous.Progress

namespace CompMatch.Rendezvous

/-! ### Values that fit -/

theorem int32_eq {x : Int} (h : Int32 x) : int32 x = x := by
  unfold int32
  obtain ⟨h1, h2⟩ := h
  exact Int.bmod_eq_of_le (by omega) (by omega)

namespace Pair.Fits

variable {q : MpioptRequest}

theorem ready (h : Fits q) : Int32 (q.operationNumber * 2 + 1) := by
  obtain ⟨h1, h2⟩ := h.number
  exact ⟨by omega, by omega⟩

theorem done (h : Fits q) : Int32 (q.operationNumber * 2 + 2) := by
  obtain ⟨h1, h2⟩ := h.number
  exact ⟨by omega, by omega⟩

theorem sameTests (h : Fits q) : SameTests q := by
  constructor
  · rw [int32_eq h.ready]
  · rw [int32_eq h.ready]
  · rw [int32_eq h.done]

theorem setFlag {v : Int} (h : Fits q) (hv : Int32 v) : Fits { q with flag := v } :=
  ⟨hv, h.flagBuffer, h.number⟩

theorem setFlagBuffer {v : Int} (h : Fits q) (hv : Int32 v) : Fits { q with flagBuffer := v } :=
  ⟨h.flag, hv, h.number⟩

theorem setHandles (h : Fits q) (data ready : Option Nat) :
    Fits { q with ucxRequestDataTransfer := data, ucxRequestFlagTransfer := ready } :=
  ⟨h.flag, h.flagBuffer, h.number⟩

end Pair.Fits

open Pair (Fits)

/-! ### The same steps -/

section
variable {Op : Type*} {tag : RdmaOp → Op} {toEp : Op → Bool} {imm : Bool} {l : Local Op}

theorem bSend32_eq {p : Point} (h : Fits l.req) (hstore : ∀ v, p = .store v → Int32 (v + 1)) :
    bSend32 tag toEp imm p l = bSend tag toEp imm p l ∧ Fits (bSend tag toEp imm p l).2.req := by
  have hready := int32_eq h.ready
  have hdone := int32_eq h.done
  cases p with
  | test =>
      refine ⟨by simp only [bSend32, bSend, hready], ?_⟩
      simp only [bSend]
      split <;> exact h
  | store v =>
      have hv := hstore v rfl
      exact ⟨by simp only [bSend32, bSend, int32_eq hv], h.setFlag hv⟩
  | fill => exact ⟨by simp only [bSend32, bSend, hdone], h.setFlagBuffer h.done⟩
  | fillReady => exact ⟨by simp only [bSend32, bSend, hready], h.setFlagBuffer h.ready⟩
  | flush => exact ⟨rfl, h.setHandles _ _⟩
  | flushReady => exact ⟨rfl, h.setHandles _ _⟩
  | _ => exact ⟨rfl, h⟩

theorem bRecv32_eq {p : Point} (h : Fits l.req) (hstore : ∀ v, p = .store v → Int32 (v + 1)) :
    bRecv32 tag toEp imm p l = bRecv tag toEp imm p l ∧ Fits (bRecv tag toEp imm p l).2.req := by
  have hready := int32_eq h.ready
  have hdone := int32_eq h.done
  cases p with
  | test =>
      refine ⟨by simp only [bRecv32, bRecv, hready], ?_⟩
      simp only [bRecv]
      split <;> exact h
  | store v =>
      have hv := hstore v rfl
      exact ⟨by simp only [bRecv32, bRecv, fetchStep, int32_eq hv], h.setFlag hv⟩
  | data => exact ⟨by simp only [bRecv32, bRecv, fetchStep, hdone], h⟩
  | fill => exact ⟨by simp only [bRecv32, bRecv, fetchStep, hdone], h.setFlagBuffer h.done⟩
  | fillReady => exact ⟨by simp only [bRecv32, bRecv, hready], h.setFlagBuffer h.ready⟩
  | flush => exact ⟨rfl, h.setHandles _ _⟩
  | flushReady => exact ⟨rfl, h.setHandles _ _⟩
  | _ => exact ⟨rfl, h⟩

theorem eSend32_eq {w : SendWait} (h : Fits l.req) :
    eSend32 toEp w l = eSend toEp w l ∧ Fits (eSend toEp w l).2.req := by
  have hdone := int32_eq h.done
  cases w with
  | spin count =>
      refine ⟨by simp only [eSend32, eSend, hdone], ?_⟩
      simp only [eSend]
      split <;> exact h
  | poll =>
      refine ⟨by simp only [eSend32, eSend, hdone], ?_⟩
      simp only [eSend]
      split <;> exact h
  | _ =>
      refine ⟨rfl, ?_⟩
      simp only [eSend]
      split
      · exact h.setHandles _ _
      · exact h

theorem eRecv32_eq {w : RecvWait} (h : Fits l.req)
    (hstore : ∀ v, w = .fetch (.store v) → Int32 (v + 1)) :
    eRecv32 tag toEp imm w l = eRecv tag toEp imm w l ∧ Fits (eRecv tag toEp imm w l).2.req := by
  have hready := int32_eq h.ready
  cases w with
  | spin count =>
      refine ⟨by simp only [eRecv32, eRecv, hready], ?_⟩
      simp only [eRecv]
      split <;> exact h
  | poll =>
      refine ⟨by simp only [eRecv32, eRecv, hready], ?_⟩
      simp only [eRecv]
      split <;> exact h
  | crosstalk =>
      refine ⟨by simp only [eRecv32, eRecv, hready], ?_⟩
      simp only [eRecv]
      split <;> exact h
  | fetch p =>
      have hs : ∀ v, p = .store v → Int32 (v + 1) := fun v hv => hstore v (congrArg RecvWait.fetch hv)
      have heq : bRecv32 tag toEp imm p l = bRecv tag toEp imm p l := (bRecv32_eq h hs).1
      have hfits : Fits (bRecv tag toEp imm p l).2.req := (bRecv32_eq h hs).2
      constructor
      · simp only [eRecv32, eRecv]
        exact heq ▸ rfl
      · simp only [eRecv]
        split <;> rename_i hb <;> rwa [hb] at hfits
  | _ =>
      refine ⟨rfl, ?_⟩
      simp only [eRecv]
      split
      · exact h.setHandles _ _
      · exact h

end

/-- The value that `flag++` has loaded. -/
def SendPc.stores : SendPc → Option Int
  | .start (.store v) => some v
  | _ => none

def RecvPc.stores : RecvPc → Option Int
  | .start (.store v) | .wait (.fetch (.store v)) => some v
  | _ => none

section
variable {imm : Bool} {l : Local RdmaOp}

theorem sendRun32_eq {pc : SendPc} (h : Fits l.req)
    (hstore : ∀ v, pc.stores = some v → Int32 (v + 1)) :
    sendRun32 imm pc l = sendRun imm pc l ∧
      ∀ pc' l', sendRun imm pc l = some (pc', l') → Fits l'.req := by
  cases pc with
  | idle => exact ⟨rfl, by simp [sendRun]⟩
  | started => exact ⟨rfl, by simp [sendRun]⟩
  | start p =>
      have hs : ∀ v, p = .store v → Int32 (v + 1) := fun v hv => hstore v (by subst hv; rfl)
      have heq : bSend32 id oneEp imm p l = bSend id oneEp imm p l := (bSend32_eq h hs).1
      have hfits : Fits (bSend id oneEp imm p l).2.req := (bSend32_eq h hs).2
      constructor
      · simp only [sendRun32, sendRun]
        exact heq ▸ rfl
      · intro pc' l' hrun
        simp only [sendRun] at hrun
        split at hrun <;> rename_i hb <;> rw [hb] at hfits <;> cases hrun <;> exact hfits
  | wait w =>
      have heq : eSend32 oneEp w l = eSend oneEp w l := (eSend32_eq h).1
      have hfits : Fits (eSend oneEp w l).2.req := (eSend32_eq h).2
      constructor
      · simp only [sendRun32, sendRun]
        exact heq ▸ rfl
      · intro pc' l' hrun
        simp only [sendRun] at hrun
        split at hrun <;> rename_i hb <;> rw [hb] at hfits <;> cases hrun <;> exact hfits

theorem recvRun32_eq {pc : RecvPc} (h : Fits l.req)
    (hstore : ∀ v, pc.stores = some v → Int32 (v + 1)) :
    recvRun32 imm pc l = recvRun imm pc l ∧
      ∀ pc' l', recvRun imm pc l = some (pc', l') → Fits l'.req := by
  cases pc with
  | idle => exact ⟨rfl, by simp [recvRun]⟩
  | started => exact ⟨rfl, by simp [recvRun]⟩
  | start p =>
      have hs : ∀ v, p = .store v → Int32 (v + 1) := fun v hv => hstore v (by subst hv; rfl)
      have heq : bRecv32 id oneEp imm p l = bRecv id oneEp imm p l := (bRecv32_eq h hs).1
      have hfits : Fits (bRecv id oneEp imm p l).2.req := (bRecv32_eq h hs).2
      constructor
      · simp only [recvRun32, recvRun]
        exact heq ▸ rfl
      · intro pc' l' hrun
        simp only [recvRun] at hrun
        split at hrun <;> rename_i hb <;> rw [hb] at hfits <;> cases hrun <;> exact hfits
  | wait w =>
      have hs : ∀ v, w = .fetch (.store v) → Int32 (v + 1) := fun v hv => hstore v (by subst hv; rfl)
      have heq : eRecv32 id oneEp imm w l = eRecv id oneEp imm w l := (eRecv32_eq h hs).1
      have hfits : Fits (eRecv id oneEp imm w l).2.req := (eRecv32_eq h hs).2
      constructor
      · simp only [recvRun32, recvRun]
        exact heq ▸ rfl
      · intro pc' l' hrun
        simp only [recvRun] at hrun
        split at hrun <;> rename_i hb <;> rw [hb] at hfits <;> cases hrun <;> exact hfits

end

/-! ### The same runs -/

section
variable {k n : Int} {p p' : Pair} {a : Proto (List UInt8)} {v : Int}

/-- `flag++` is reached only by an announcement of the current operation. -/
theorem PairRel.sendStores (h : PairRel p a) (hv : p.sendPc.stores = some v) :
    v = p.send.req.operationNumber * 2 + 1 := by
  obtain ⟨fl, -, hA⟩ := h.send.sim
  unfold SendPc.stores at hv
  split at hv
  · rename_i u hpc
    rw [hpc] at hA
    have hu : u = p.send.req.operationNumber * 2 + 1 := hA.2.2.2
    exact (Option.some.inj hv).symm.trans hu
  · exact absurd hv (by simp)

theorem PairRel.recvStores (h : PairRel p a) (hv : p.recvPc.stores = some v) :
    v = p.recv.req.operationNumber * 2 + 1 := by
  obtain ⟨fl, -, hA⟩ := h.recv.sim
  unfold RecvPc.stores at hv
  split at hv
  · rename_i u hpc
    rw [hpc] at hA
    have hu : u = p.recv.req.operationNumber * 2 + 1 := hA.1.2.2.2.2
    exact (Option.some.inj hv).symm.trans hu
  · rename_i u hpc
    rw [hpc] at hA
    have hu : u = p.recv.req.operationNumber * 2 + 1 := hA.1.2.2.2.2
    exact (Option.some.inj hv).symm.trans hu
  · exact absurd hv (by simp)

/-- A run over the integers, with counters that fit. -/
structure Wrapless (k : Int) (p : Pair) : Prop where
  unbounded : Reach Pair.step anyStep (Pair.Fresh k) p
  sendFits : Fits p.send.req
  recvFits : Fits p.recv.req

theorem Wrapless.rel (h : Wrapless k p) : ∃ a, Proto.Reached k a ∧ PairRel p a :=
  (followed_of_reach h.unbounded).rel

theorem Wrapless.sendStore (h : Wrapless k p) (hv : p.sendPc.stores = some v) : Int32 (v + 1) := by
  obtain ⟨a, -, hR⟩ := h.rel
  have hdone := h.sendFits.done
  rw [hR.sendStores hv, Int.add_assoc]
  exact hdone

theorem Wrapless.recvStore (h : Wrapless k p) (hv : p.recvPc.stores = some v) : Int32 (v + 1) := by
  obtain ⟨a, -, hR⟩ := h.rel
  have hdone := h.recvFits.done
  rw [hR.recvStores hv, Int.add_assoc]
  exact hdone

theorem Pair.Fits.countStart {l : Local RdmaOp} (h : Fits l.req)
    (hr : (l.req.operationNumber + 1) * 2 + 2 < 2 ^ 31) : Fits l.countStart.req := by
  have h0 := h.number
  exact ⟨h.flag, h.flagBuffer, by show 0 ≤ l.req.operationNumber + 1; omega, hr⟩

theorem Pair.Fits.countStart32 {l : Local RdmaOp} (h : Fits l.req)
    (hr : (l.req.operationNumber + 1) * 2 + 2 < 2 ^ 31) :
    int32 (l.req.operationNumber + 1) = l.req.operationNumber + 1 := by
  obtain ⟨h1, h2⟩ := h.number
  exact int32_eq ⟨by omega, by omega⟩

/-- What lands at the other side is a flag buffer that fits. -/
theorem fits_landSend (op : RdmaOp) (hs : Fits p.send.req) (hr : Fits p.recv.req) :
    Fits (p.landSend op).recv.req := by
  cases op with
  | put number src len dst | get number dst len src => exact hr
  | flag number dst =>
      simp only [Pair.landSend]
      split
      · exact hr.setFlag hs.flagBuffer
      · exact hr

theorem fits_landRecv (op : RdmaOp) (hs : Fits p.send.req) (hr : Fits p.recv.req) :
    Fits (p.landRecv op).send.req := by
  cases op with
  | put number src len dst | get number dst len src => exact hs
  | flag number dst =>
      simp only [Pair.landRecv]
      split
      · exact hs.setFlag hr.flagBuffer
      · exact hs

/-- **Step lemma.**  In range, the next step is the one over the integers. -/
theorem Wrapless.step_eq (h : Wrapless k p) {act : PairAct} (hr : p.InRange act) :
    p.step32 act = p.step act := by
  cases act with
  | sendStart =>
      have heq := h.sendFits.countStart32 (hr.1 rfl)
      simp only [Pair.step32, Pair.step, Local.countStart32, Local.countStart, heq]
  | recvStart =>
      have heq := h.recvFits.countStart32 (hr.2 rfl)
      simp only [Pair.step32, Pair.step, Local.countStart32, Local.countStart, heq]
  | sendRun imm =>
      have heq : sendRun32 imm p.sendPc p.send = sendRun imm p.sendPc p.send :=
        (sendRun32_eq h.sendFits fun v hv => h.sendStore hv).1
      simp only [Pair.step32, Pair.step]
      exact heq ▸ rfl
  | recvRun imm =>
      have heq : recvRun32 imm p.recvPc p.recv = recvRun imm p.recvPc p.recv :=
        (recvRun32_eq h.recvFits fun v hv => h.recvStore hv).1
      simp only [Pair.step32, Pair.step]
      exact heq ▸ rfl
  | _ => rfl

theorem Wrapless.step (h : Wrapless k p) {act : PairAct} (hr : p.InRange act)
    (hs : p.step act = some p') : Wrapless k p' := by
  have hreach : Reach Pair.step anyStep (Pair.Fresh k) p' := .step h.unbounded trivial hs
  have hsend := h.sendFits
  have hrecv := h.recvFits
  cases act with
  | sendStart =>
      simp only [Pair.step] at hs
      split at hs <;> cases hs
      exact ⟨hreach, hsend.countStart (hr.1 rfl), hrecv⟩
  | recvStart =>
      simp only [Pair.step] at hs
      split at hs <;> cases hs
      exact ⟨hreach, hsend, hrecv.countStart (hr.2 rfl)⟩
  | sendRun imm =>
      simp only [Pair.step] at hs
      split at hs <;> cases hs
      rename_i pc l hrun
      exact ⟨hreach, (sendRun32_eq hsend fun v hv => h.sendStore hv).2 pc l hrun, hrecv⟩
  | recvRun imm =>
      have hkept : ∀ pc' l', recvRun imm p.recvPc p.recv = some (pc', l') → Fits l'.req :=
        (recvRun32_eq hrecv fun v hv => h.recvStore hv).2
      simp only [Pair.step] at hs
      split at hs <;> cases hs
      all_goals
        rename_i hrun
        exact ⟨hreach, hsend, hkept _ _ hrun⟩
  | sendLands i =>
      simp only [Pair.step] at hs
      split at hs <;> cases hs
      rename_i x hx
      obtain ⟨-, heq, -⟩ := landSend_send (p := { p with send := p.send.retire i }) x.op
      exact ⟨hreach, by rw [heq]; exact hsend, fits_landSend x.op hsend hrecv⟩
  | recvLands i =>
      simp only [Pair.step] at hs
      split at hs <;> cases hs
      rename_i x hx
      obtain ⟨-, heq, -⟩ := landRecv_recv (p := { p with recv := p.recv.retire i }) x.op
      exact ⟨hreach, fits_landRecv x.op hsend hrecv, by rw [heq]; exact hrecv⟩
  | _ =>
      simp only [Pair.step] at hs
      split at hs <;> cases hs
      exact ⟨hreach, hsend, hrecv⟩

/-- **Run lemma.** -/
theorem wrapless_of_reach (h : Reach Pair.step32 Pair.InRange (Pair.Init32 k) p) : Wrapless k p := by
  refine h.invariant (fun p h0 => ?_) fun p p' act hI hr hs => ?_
  · exact ⟨.init h0.toFresh, h0.sendFits, h0.recvFits⟩
  · rw [hI.step_eq hr] at hs
    exact hI.step hr hs

theorem PairAct.OfSend.inRange {act : PairAct} (h : act.OfSend) (p : Pair) : p.InRange act := by
  constructor <;> rintro rfl <;> exact h.elim

theorem PairAct.OfRecv.inRange {act : PairAct} (h : act.OfRecv) (p : Pair) : p.InRange act := by
  constructor <;> rintro rfl <;> exact h.elim

theorem Wrapless.sendReturns (h : Wrapless k p) :
    Leads Pair.step32 PairAct.OfSend (·.SendDone n) p ↔ p.SendCanReturn n :=
  Leads.congr h (fun p _ hI hown => hI.step_eq (hown.inRange p))
    fun p _ _ hI hown hs => hI.step (hown.inRange p) (hI.step_eq (hown.inRange p) ▸ hs)

theorem Wrapless.recvReturns (h : Wrapless k p) :
    Leads Pair.step32 PairAct.OfRecv (·.RecvDone n) p ↔ p.RecvCanReturn n :=
  Leads.congr h (fun p _ hI hown => hI.step_eq (hown.inRange p))
    fun p _ _ hI hown hs => hI.step (hown.inRange p) (hI.step_eq (hown.inRange p) ▸ hs)

/--
**32-bit counters.**  As long as Start is called only for operations whose last flag
value fits, wrapping makes no difference: not to the tests, not to what has been
transferred when a Wait returns, and not to whether it can return.
-/
theorem asUnbounded_of_inRange (h : Reach Pair.step32 Pair.InRange (Pair.Init32 k) p) :
    p.AsUnbounded k := by
  have hw := wrapless_of_reach h
  obtain ⟨a, ha, hR⟩ := hw.rel
  refine ⟨hw.unbounded, hw.sendFits.sameTests, hw.recvFits.sameTests, hR.delivers ha,
    fun n => hw.sendReturns, fun n => hw.recvReturns, fun n hs hl => ⟨?_, fun hne => ?_⟩⟩
  · exact hw.recvReturns.mpr (recv_canReturn hw.unbounded hs hl)
  · exact hw.sendReturns.mpr ((send_canReturn_iff hw.unbounded hs hl).mpr hne)

end

/-! ### The operation that wraps

`freshPair` performs `2 ^ 30 - 2` operations, the sender pushing each payload.  Then the
sender alone starts the next one.
-/

namespace Pair

/-- A request of `freshPair` with other counters. -/
def sideAt (type : RequestType) (number flag flagBuffer : Int) (w : Worker RdmaOp) : Local RdmaOp :=
  ⟨{ freshRequest type 2 with
      operationNumber := number
      flag := flag
      flagBuffer := flagBuffer }, w, false⟩

theorem sideAt_setFlag (type : RequestType) (number flag flagBuffer v : Int) (w : Worker RdmaOp) :
    (sideAt type number flag flagBuffer w).setFlag v = sideAt type number v flagBuffer w := rfl

/-- The receiver starts and announces itself. -/
def announceActs : List PairAct :=
  [.recvStart] ++ List.replicate 5 (.recvRun false) ++ [.recvLands 0]

/-- The sender starts, and its payload and its signal land. -/
def pushActs : List PairAct :=
  [.sendStart] ++ List.replicate 9 (.sendRun false) ++ [.sendLands 0, .sendLands 0]

def sendWaitActs : List PairAct := [.sendWait] ++ List.replicate 4 (.sendRun false)

def recvWaitActs : List PairAct := [.recvWait] ++ List.replicate 5 (.recvRun false)

/-- One operation, from Start to Wait on both sides. -/
def operationActs : List PairAct := announceActs ++ (pushActs ++ (sendWaitActs ++ recvWaitActs))

/-- The sender starts, announces itself and waits. -/
def aloneActs : List PairAct :=
  [.sendStart] ++ List.replicate 5 (.sendRun false) ++ [.sendLands 0] ++ sendWaitActs

/-- The flag values of operation `n` fit. -/
structure Fitting (n : Int) : Prop where
  number : int32 n = n
  ready : int32 (n * 2 + 1) = n * 2 + 1
  done : int32 (n * 2 + 2) = n * 2 + 2

theorem fitting {n : Int} (h0 : 0 ≤ n) (hn : n * 2 + 2 < 2 ^ 31) : Fitting n :=
  ⟨int32_eq ⟨by omega, by omega⟩, int32_eq ⟨by omega, by omega⟩, int32_eq ⟨by omega, by omega⟩⟩

section
variable {n f b : Int} {c e t : Nat} {other : Local RdmaOp} {m m' : Mem}
variable {landed : List (Int × Transfer)} {sent : Int → List UInt8}
variable {received : Int → Option (List UInt8)}

theorem announceActs_run (h : Fitting (n + 1)) (hf : f ≤ n * 2 + 2) (he : e ≤ c)
    (hother : other.req.flagAddr = 4) :
    runFrom step32
        ⟨.idle, other, m, .idle, sideAt .recv n f b ⟨c, e, []⟩, m', landed, sent, received⟩
        announceActs =
      some ⟨.idle, other.setFlag ((n + 1) * 2 + 1), m, .started,
        (sideAt .recv (n + 1) f ((n + 1) * 2 + 1) ⟨c + 1, e, []⟩).setFlagTransfer (some (c + 1)),
        m', landed, sent, received⟩ := by
  have hne : f ≠ (n + 1) * 2 + 1 := by omega
  simp [announceActs, runFrom, step32, step, sideAt, freshRequest, recvRun32, bRecv32, bRecv,
    fetchStep, Local.countStart32, hne, h.number, h.ready, Local.setFlagBuffer, Local.post,
    Worker.post, Local.assert, Local.setFlagTransfer, ucpEpFlushNb, Worker.enabled?, Worker.clear,
    he, landRecv, Local.retire, Worker.retire, Local.setFlag, hother]

theorem pushActs_run (h : Fitting (n + 1)) (he : e ≤ c) (hother : other.req.flagAddr = 4) :
    runFrom step32
        ⟨.idle, sideAt .send n ((n + 1) * 2 + 1) b ⟨c, e, []⟩, m, .started, other, m', landed, sent,
          received⟩
        pushActs =
      some ⟨.started,
        (sideAt .send (n + 1) ((n + 1) * 2 + 2) ((n + 1) * 2 + 2)
          ⟨c + 2, c + 1, []⟩).setDataTransfer (some (c + 2)),
        m, .started, other.setFlag ((n + 1) * 2 + 2), writeMem m' 8 (readMem m 8 2),
        landed ++ [(n + 1, .put)], Function.update sent (n + 1) (readMem m 8 2), received⟩ := by
  have hstored : int32 ((n + 1) * 2 + 1 + 1) = (n + 1) * 2 + 2 := by
    rw [Int.add_assoc]
    exact h.done
  have he' : e ≤ c + 1 := Nat.le_succ_of_le he
  simp [pushActs, runFrom, step32, step, sideAt, freshRequest, sendRun32, bSend32, bSend, sendBuf,
    Local.countStart32, h.number, h.ready, h.done, hstored, Local.setFlagBuffer, Local.post,
    Worker.post, Local.assert, Local.setDataTransfer, ucpEpFlushNb, Worker.enabled?, Worker.clear,
    he, he', landSend, Local.retire, Worker.retire, Local.setFlag, hother, Local.fence,
    Worker.fence]

theorem sendWaitActs_run (h : Fitting n) :
    runFrom step32
        ⟨.started, (sideAt .send n (n * 2 + 2) b ⟨c, e, []⟩).setDataTransfer (some t), m, .started,
          other, m', landed, sent, received⟩
        sendWaitActs =
      some ⟨.idle, sideAt .send n (n * 2 + 2) b ⟨c, e, []⟩, m, .started, other, m', landed, sent,
        received⟩ := by
  simp [sendWaitActs, runFrom, step32, step, sideAt, freshRequest, sendRun32, eSend32, eSend,
    h.done, Local.setFlagTransfer, Local.setDataTransfer, flushed, Worker.clear]

theorem recvWaitActs_run (h : Fitting n) :
    runFrom step32
        ⟨.idle, other, m, .started,
          ((sideAt .recv n f b ⟨c, e, []⟩).setFlagTransfer (some t)).setFlag (n * 2 + 2), m',
          landed, sent, received⟩
        recvWaitActs =
      some ⟨.idle, other, m, .idle, sideAt .recv n (n * 2 + 2) b ⟨c, e, []⟩, m', landed, sent,
        Function.update received n (some (readMem m' 8 2))⟩ := by
  have hlt : ¬ n * 2 + 2 < n * 2 + 1 := by omega
  have hne : ¬ n * 2 + 2 = n * 2 + 1 := by omega
  simp [recvWaitActs, runFrom, step32, step, sideAt, freshRequest, recvRun32, eRecv32, eRecv,
    h.ready, Local.setFlagTransfer, Local.setDataTransfer, flushed, Worker.clear, Local.setFlag,
    recvBuf, hlt, hne]

theorem operationActs_run {g d : Int} {u v : Nat} (h : Fitting (n + 1))
    (hg : g ≤ n * 2 + 2) (he : e ≤ c) (hv : v ≤ u) :
    runFrom step32
        ⟨.idle, sideAt .send n f b ⟨c, e, []⟩, m, .idle, sideAt .recv n g d ⟨u, v, []⟩, m', landed,
          sent, received⟩
        operationActs =
      some ⟨.idle, sideAt .send (n + 1) ((n + 1) * 2 + 2) ((n + 1) * 2 + 2) ⟨c + 2, c + 1, []⟩, m,
        .idle, sideAt .recv (n + 1) ((n + 1) * 2 + 2) ((n + 1) * 2 + 1) ⟨u + 1, v, []⟩,
        writeMem m' 8 (readMem m 8 2), landed ++ [(n + 1, .put)],
        Function.update sent (n + 1) (readMem m 8 2),
        Function.update received (n + 1) (some (readMem (writeMem m' 8 (readMem m 8 2)) 8 2))⟩ := by
  rw [operationActs, runFrom_append (announceActs_run h hg hv rfl), sideAt_setFlag,
    runFrom_append (pushActs_run h he rfl), runFrom_append (sendWaitActs_run h),
    recvWaitActs_run h]

/-- With a limit below its flag, the sender's Wait returns by itself. -/
theorem aloneActs_run (hnumber : int32 (n + 1) = n + 1)
    (hready : int32 ((n + 1) * 2 + 1) = (n + 1) * 2 + 1) (hdone : int32 ((n + 1) * 2 + 2) ≤ f)
    (hf : f ≤ n * 2 + 2) (he : e ≤ c) (hother : other.req.flagAddr = 4) :
    runFrom step32
        ⟨.idle, sideAt .send n f b ⟨c, e, []⟩, m, .idle, other, m', landed, sent, received⟩
        aloneActs =
      some ⟨.idle, sideAt .send (n + 1) f ((n + 1) * 2 + 1) ⟨c + 1, e, []⟩, m, .idle,
        other.setFlag ((n + 1) * 2 + 1), m', landed,
        Function.update sent (n + 1) (readMem m 8 2), received⟩ := by
  have hne : f ≠ (n + 1) * 2 + 1 := by omega
  have hlt : ¬ f < int32 ((n + 1) * 2 + 2) := by omega
  simp [aloneActs, sendWaitActs, runFrom, step32, step, sideAt, freshRequest, sendRun32, bSend32,
    bSend, eSend32, eSend, sendBuf, Local.countStart32, hnumber, hready, hne, hlt,
    Local.setFlagBuffer, Local.post, Worker.post, Local.assert, Local.setFlagTransfer,
    Local.setDataTransfer, ucpEpFlushNb, flushed, Worker.enabled?, Worker.clear, he, landSend,
    Local.retire, Worker.retire, Local.setFlag, hother]

end

/-- `freshPair` at rest, `n` operations later. -/
structure Resting (n : Int) (p : Pair) : Prop where
  sendPc : p.sendPc = .idle
  recvPc : p.recvPc = .idle
  send : ∃ f b c e, p.send = sideAt .send n f b ⟨c, e, []⟩ ∧ 0 ≤ f ∧ f ≤ n * 2 + 2 ∧ e ≤ c
  recv : ∃ f b c e, p.recv = sideAt .recv n f b ⟨c, e, []⟩ ∧ f ≤ n * 2 + 2 ∧ e ≤ c
  landed : ∀ x ∈ p.landed, x.1 ≤ n

theorem freshPair_resting : Resting 0 freshPair := by
  refine ⟨rfl, rfl, ⟨0, 0, 0, 0, rfl, ?_⟩, ⟨0, 0, 0, 0, rfl, ?_⟩, ?_⟩
  · decide
  · decide
  · intro x hx
    exact absurd hx List.not_mem_nil

theorem Resting.operation {n : Int} {p : Pair} (h : Resting n p) (hn : 0 ≤ n)
    (hfit : Fitting (n + 1)) :
    ∃ p', runFrom step32 p operationActs = some p' ∧ Resting (n + 1) p' := by
  obtain ⟨f, b, c, e, hsend, hf0, hf, he⟩ := h.send
  obtain ⟨g, d, u, v, hrecv, hg, hv⟩ := h.recv
  obtain ⟨sendPc, send, sendMem, recvPc, recv, recvMem, landed, sent, received⟩ := p
  have hlanded : ∀ x ∈ landed, x.1 ≤ n := h.landed
  obtain rfl : sendPc = .idle := h.sendPc
  obtain rfl : recvPc = .idle := h.recvPc
  obtain rfl : send = sideAt .send n f b ⟨c, e, []⟩ := hsend
  obtain rfl : recv = sideAt .recv n g d ⟨u, v, []⟩ := hrecv
  refine ⟨_, operationActs_run hfit hg he hv, rfl, rfl, ⟨_, _, _, _, rfl, ?_⟩,
    ⟨_, _, _, _, rfl, ?_⟩, ?_⟩
  · omega
  · omega
  · intro x hx
    rcases List.mem_append.mp hx with hx | hx
    · have hle := hlanded x hx
      omega
    · obtain rfl : x = (n + 1, .put) := List.mem_singleton.mp hx
      exact Int.le_refl (n + 1)

/-- `freshPair` can perform as many operations as there are flag values that fit. -/
theorem freshPair_operations (j : Nat) (hj : (j : Int) * 2 + 2 < 2 ^ 31) :
    ∃ p, runFrom step32 freshPair (List.replicate j operationActs).flatten = some p ∧
      Resting j p := by
  induction j with
  | zero => exact ⟨freshPair, rfl, freshPair_resting⟩
  | succ j ih =>
      obtain ⟨p, hrun, hp⟩ := ih (by omega)
      have hfit : Fitting ((j : Int) + 1) := fitting (by omega) (by omega)
      obtain ⟨p', hrun', hp'⟩ := hp.operation (by omega) hfit
      refine ⟨p', ?_, hp'⟩
      rw [List.replicate_succ', List.flatten_concat, runFrom_append hrun]
      exact hrun'

theorem Resting.alone {n : Int} {p : Pair} (h : Resting n p)
    (hnumber : int32 (n + 1) = n + 1) (hready : int32 ((n + 1) * 2 + 1) = (n + 1) * 2 + 1)
    (hdone : int32 ((n + 1) * 2 + 2) ≤ 0) :
    ∃ p', runFrom step32 p aloneActs = some p' ∧ p'.sendPc = .idle ∧
      p'.send.req.operationNumber = n + 1 ∧ 0 ≤ p'.send.req.flag ∧
      p'.send.req.flag ≤ n * 2 + 2 ∧ p'.landed = p.landed ∧ p'.recv.req.operationNumber = n := by
  obtain ⟨f, b, c, e, hsend, hf0, hf, he⟩ := h.send
  obtain ⟨g, d, u, v, hrecv, hg, hv⟩ := h.recv
  obtain ⟨sendPc, send, sendMem, recvPc, recv, recvMem, landed, sent, received⟩ := p
  obtain rfl : sendPc = .idle := h.sendPc
  obtain rfl : recvPc = .idle := h.recvPc
  obtain rfl : send = sideAt .send n f b ⟨c, e, []⟩ := hsend
  obtain rfl : recv = sideAt .recv n g d ⟨u, v, []⟩ := hrecv
  have hle : int32 ((n + 1) * 2 + 2) ≤ f := Int.le_trans hdone hf0
  exact ⟨_, aloneActs_run hnumber hready hle hf he rfl, rfl, rfl, hf0, hf, rfl, rfl⟩

/-- The last operation whose flag values fit. -/
def lastFitting : Nat := 2 ^ 30 - 2

/-- All operations that fit, and then the sender alone starts one more. -/
def wrappingRun : List PairAct := (List.replicate lastFitting operationActs).flatten ++ aloneActs

theorem freshPair_init32 : Init32 0 freshPair :=
  ⟨freshPair_fresh, ⟨by decide, by decide, by decide⟩, ⟨by decide, by decide, by decide⟩⟩

/-- The sender's Wait returns although the receiver has not even started. -/
theorem wrappingRun_returnsEarly :
    Init32 0 freshPair ∧
      ∃ p, runFrom step32 freshPair wrappingRun = some p ∧ p.SendDone (lastFitting + 1) ∧
        p.recv.req.operationNumber = lastFitting ∧
        transfersOf p.landed (lastFitting + 1) = 0 ∧ ¬ p.Delivers 0 ∧ ¬ SameTests p.send.req := by
  obtain ⟨q, hq, hrest⟩ := freshPair_operations lastFitting (by decide)
  obtain ⟨p, hp, hpc, hnumber, hf0, hf, hlanded, hrecv⟩ :=
    hrest.alone (by decide) (by decide) (by decide)
  have hrun : runFrom step32 freshPair wrappingRun = some p := by
    rw [wrappingRun, runFrom_append hq]
    exact hp
  have hdone : p.SendDone (lastFitting + 1) := Or.inr ⟨hnumber.symm, hpc⟩
  have hnone : transfersOf p.landed (lastFitting + 1) = 0 := by
    rw [hlanded, transfersOf, List.countP_eq_zero]
    intro x hx heq
    have hle := hrest.landed x hx
    have heq' : x.1 = lastFitting + 1 := by simpa using heq
    omega
  refine ⟨freshPair_init32, p, hrun, hdone, hrecv, hnone, fun hd => ?_, fun hsame => ?_⟩
  · have hone := hd.transferred (lastFitting + 1) (by decide) (Or.inl hdone)
    rw [hnone] at hone
    exact absurd hone (by decide)
  · have hiff := hsame.beforeDone
    rw [hnumber] at hiff
    have hlow : int32 (((lastFitting : Int) + 1) * 2 + 2) ≤ 0 := by decide
    have hlt := hiff.mpr (by omega)
    omega

/-- The test whether the next step is in range. -/
def inRange (p : Pair) : PairAct → Bool
  | .sendStart => decide ((p.send.req.operationNumber + 1) * 2 + 2 < 2 ^ 31)
  | .recvStart => decide ((p.recv.req.operationNumber + 1) * 2 + 2 < 2 ^ 31)
  | _ => true

theorem inRange_sound (p : Pair) (act : PairAct) (h : p.inRange act = true) : p.InRange act := by
  constructor
  · rintro rfl
    exact of_decide_eq_true h
  · rintro rfl
    exact of_decide_eq_true h

theorem operationActs_asUnbounded :
    match runFrom (guarded inRange step32) freshPair operationActs with
    | some p => p.AsUnbounded 0 ∧ p.landed = [(1, .put)]
    | none => False := by
  have hrun : (runFrom (guarded inRange step32) freshPair operationActs).any
      (fun p => decide (p.landed = [(1, .put)])) = true := by
    decide +kernel
  cases h : runFrom (guarded inRange step32) freshPair operationActs with
  | none => simp [h] at hrun
  | some p =>
      simp only [h, Option.any_some, decide_eq_true_eq] at hrun
      exact ⟨asUnbounded_of_inRange (.of_guarded inRange_sound _ (.init freshPair_init32) h), hrun⟩

end Pair

end CompMatch.Rendezvous

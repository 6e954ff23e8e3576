/-
When the progress rule of MPI holds for a connected pair.

The receiver's Wait can always be finished by the receiver: it finds the payload pushed,
or fetches it.  The sender's Wait cannot, if both sides announced themselves at once.
Then each has the other's announcement in its flag, and nobody but the receiver's Wait
moves the payload.  `waits_canReturn` says that this is the only exception.
-/
import CompMatch.Rendezvous.Progress
import CompMatch.Proofs.Rendezvous.Pair
import CompMatch.Proofs.Rendezvous.Shared

namespace CompMatch.Rendezvous

/-! ### What every step keeps -/

structure Pair.Shape (p : Pair) : Prop where
  sendType : p.send.req.type = .send
  recvType : p.recv.req.type = .recv
  fence : p.recv.worker.barrier ≤ p.recv.worker.clock

section
variable {p p' : Pair} {n k : Int} {imm : Bool}

theorem type_sendRun {pc pc' : SendPc} {l l' : Local RdmaOp}
    (h : sendRun imm pc l = some (pc', l')) : l'.req.type = l.req.type := by
  cases pc with
  | idle | started => simp [sendRun] at h
  | start pt =>
      have ht : (bSend id oneEp imm pt l).2.req.type = l.req.type := type_bSend pt
      simp only [sendRun] at h
      split at h <;> rename_i heq <;> rw [heq] at ht <;> cases h <;> exact ht
  | wait w =>
      have ht : (eSend oneEp w l).2.req.type = l.req.type := type_eSend w
      simp only [sendRun] at h
      split at h <;> rename_i heq <;> rw [heq] at ht <;> cases h <;> exact ht

theorem Worker.Moves.fence {w w' : Worker RdmaOp} {tag : RdmaOp → RdmaOp}
    (h : Worker.Moves tag w w') (hw : w.barrier ≤ w.clock) : w'.barrier ≤ w'.clock := by
  rcases h with rfl | ⟨op, rfl⟩ | rfl
  · exact hw
  · exact Nat.le_succ_of_le hw
  · exact Nat.le_refl _

theorem shape_recvRun {pc pc' : RecvPc} {l l' : Local RdmaOp}
    (h : recvRun imm pc l = some (pc', l')) :
    l'.req.type = l.req.type ∧
      (l.worker.barrier ≤ l.worker.clock → l'.worker.barrier ≤ l'.worker.clock) := by
  cases pc with
  | idle | started => simp [recvRun] at h
  | start pt =>
      have ht : (bRecv id oneEp imm pt l).2.req.type = l.req.type := type_bRecv pt
      have hm : Worker.Moves id l.worker (bRecv id oneEp imm pt l).2.worker := moves_bRecv pt
      simp only [recvRun] at h
      split at h <;> rename_i heq <;> rw [heq] at ht hm <;> cases h <;> exact ⟨ht, hm.fence⟩
  | wait w =>
      have ht : (eRecv id oneEp imm w l).2.req.type = l.req.type := type_eRecv w
      have hm : Worker.Moves id l.worker (eRecv id oneEp imm w l).2.worker := moves_eRecv w
      simp only [recvRun] at h
      split at h <;> rename_i heq <;> rw [heq] at ht hm <;> cases h <;> exact ⟨ht, hm.fence⟩

theorem landRecv_recv (op : RdmaOp) :
    (p.landRecv op).recvPc = p.recvPc ∧ (p.landRecv op).recv = p.recv ∧
      (p.landRecv op).send.req.type = p.send.req.type := by
  cases op with
  | put number src len dst | get number dst len src => exact ⟨rfl, rfl, rfl⟩
  | flag number dst =>
      simp only [Pair.landRecv]
      split <;> exact ⟨rfl, rfl, rfl⟩

theorem landSend_send (op : RdmaOp) :
    (p.landSend op).sendPc = p.sendPc ∧ (p.landSend op).send = p.send ∧
      (p.landSend op).recv.req.type = p.recv.req.type ∧
      (p.landSend op).recv.worker = p.recv.worker := by
  cases op with
  | put number src len dst | get number dst len src => exact ⟨rfl, rfl, rfl, rfl⟩
  | flag number dst =>
      simp only [Pair.landSend]
      split <;> exact ⟨rfl, rfl, rfl, rfl⟩

theorem Pair.Shape.step (h : p.Shape) {act : PairAct} (hs : p.step act = some p') : p'.Shape := by
  cases act with
  | sendRun imm =>
      simp only [Pair.step] at hs
      split at hs <;> cases hs
      rename_i pc l hrun
      exact ⟨(type_sendRun hrun).trans h.sendType, h.recvType, h.fence⟩
  | recvRun imm =>
      simp only [Pair.step] at hs
      split at hs <;> cases hs
      all_goals
        rename_i hrun
        obtain ⟨ht, hf⟩ := shape_recvRun hrun
        exact ⟨h.sendType, ht.trans h.recvType, hf h.fence⟩
  | sendLands i =>
      simp only [Pair.step] at hs
      split at hs <;> cases hs
      rename_i x hx
      obtain ⟨-, hsend, ht, hw⟩ := landSend_send (p := { p with send := p.send.retire i }) x.op
      exact ⟨by rw [hsend]; exact h.sendType, ht.trans h.recvType, by rw [hw]; exact h.fence⟩
  | recvLands i =>
      simp only [Pair.step] at hs
      split at hs <;> cases hs
      rename_i x hx
      obtain ⟨-, hrecv, ht⟩ := landRecv_recv (p := { p with recv := p.recv.retire i }) x.op
      exact ⟨ht.trans h.sendType, by rw [hrecv]; exact h.recvType, by rw [hrecv]; exact h.fence⟩
  | _ =>
      simp only [Pair.step] at hs
      split at hs <;> cases hs
      exact ⟨h.sendType, h.recvType, h.fence⟩

end

/-! ### The receiver alone -/

section
variable {p : Pair} {n : Int} {w : RecvWait} {l : Local RdmaOp}

/-- The receiver is at `w`, and what it has posted has taken effect. -/
structure RecvAlone (n : Int) (w : RecvWait) (p : Pair) : Prop where
  pc : p.recvPc = .wait w
  number : p.recv.req.operationNumber = n
  pending : p.recv.worker.pending = []
  fence : p.recv.worker.barrier ≤ p.recv.worker.clock

/-- A step that posts nothing. -/
theorem RecvAlone.next (h : RecvAlone n w p) {u : RecvWait}
    (hrun : recvRun false (.wait w) p.recv = some (.wait u, l))
    (hl : l.req.operationNumber = p.recv.req.operationNumber)
    (hw : l.worker = p.recv.worker ∨ l.worker = p.recv.worker.fence)
    (hnext : ∀ q, RecvAlone n u q → q.recv.req = l.req → q.RecvCanReturn n) :
    p.RecvCanReturn n := by
  let q : Pair := { p with recvPc := .wait u, recv := l }
  have hs : p.step (.recvRun false) = some q := by
    simp only [Pair.step, h.pc, hrun]
    rfl
  have hq : RecvAlone n u q := by
    refine ⟨rfl, hl.trans h.number, ?_, ?_⟩
    · show l.worker.pending = []
      rcases hw with hw | hw <;> rw [hw] <;> exact h.pending
    · show l.worker.barrier ≤ l.worker.clock
      rcases hw with hw | hw <;> rw [hw]
      · exact h.fence
      · exact Nat.le_refl _
  exact .head (a := .recvRun false) trivial hs (hnext q hq rfl)

theorem RecvAlone.returns (h : RecvAlone n w p)
    (hrun : recvRun false (.wait w) p.recv = some (.idle, l))
    (hn : l.req.operationNumber = p.recv.req.operationNumber) : p.RecvCanReturn n := by
  let q : Pair :=
    { p with
      recvPc := .idle
      recv := l
      received := Function.update p.received l.req.operationNumber (some p.recvBuf) }
  have hs : p.step (.recvRun false) = some q := by
    simp only [Pair.step, h.pc, hrun]
    rfl
  have hdone : q.RecvDone n := Or.inr ⟨(hn.trans h.number).symm, rfl⟩
  exact .head (a := .recvRun false) trivial hs (.here hdone)

/-- The receiver posts `op`, which lands before anything else happens. -/
theorem RecvAlone.posts (h : RecvAlone n w p) {u : RecvWait} {op : RdmaOp}
    (hrun : recvRun false (.wait w) p.recv = some (.wait u, l))
    (hreq : l.req = p.recv.req) (hw : l.worker = p.recv.worker.post op)
    (hnext : ∀ q, RecvAlone n u q → q.RecvCanReturn n) : p.RecvCanReturn n := by
  let q : Pair := { p with recvPc := .wait u, recv := l }
  let q' : Pair := { q with recv := l.retire 0 }
  have hs : p.step (.recvRun false) = some q := by
    simp only [Pair.step, h.pc, hrun]
    rfl
  have hpending : l.worker.pending = [⟨p.recv.worker.clock, p.recv.worker.barrier, op⟩] := by
    rw [hw, Worker.post_pending, h.pending]
    rfl
  have hen : l.worker.enabled? 0 =
      some ⟨p.recv.worker.clock, p.recv.worker.barrier, op⟩ := by
    rw [Worker.enabled?_eq_some, hpending]
    refine ⟨rfl, ?_⟩
    intro y hy
    rw [List.mem_singleton.mp hy]
    exact h.fence
  have hlands : q.step (.recvLands 0) = some (q'.landRecv op) := by
    simp only [Pair.step, q, hen]
    rfl
  obtain ⟨hpc, hrecv, -⟩ := landRecv_recv (p := q') op
  have hq : RecvAlone n u (q'.landRecv op) := by
    refine ⟨hpc, ?_, ?_, ?_⟩ <;> rw [hrecv]
    · exact (congrArg MpioptRequest.operationNumber hreq).trans h.number
    · show l.worker.pending.eraseIdx 0 = []
      rw [hpending]
      rfl
    · show l.worker.barrier ≤ l.worker.clock
      rw [hw]
      exact Nat.le_succ_of_le h.fence
  exact .head (a := .recvRun false) trivial hs (.head (a := .recvLands 0) trivial hlands (hnext _ hq))

theorem RecvAlone.flushed (h : RecvAlone n w p) (handle : Option Nat) :
    flushed oneEp p.recv.worker handle = true := by
  cases handle with
  | none => rfl
  | some t => simp [Rendezvous.flushed, Worker.clear, h.pending]

theorem RecvAlone.fetched (h : RecvAlone n .fetched p) : p.RecvCanReturn n := by
  refine h.returns (l := p.recv.setDataTransfer none) ?_ rfl
  simp [recvRun, eRecv, h.flushed]

theorem RecvAlone.fetchProgress (h : RecvAlone n (.fetch .progress) p) : p.RecvCanReturn n :=
  h.next rfl rfl (Or.inl rfl) fun _ hq _ => hq.fetched

theorem RecvAlone.fetchFlush (h : RecvAlone n (.fetch .flush) p) : p.RecvCanReturn n :=
  h.next rfl rfl (Or.inl rfl) fun _ hq _ => hq.fetchProgress

theorem RecvAlone.fetchSignal (h : RecvAlone n (.fetch .signal) p) : p.RecvCanReturn n :=
  h.posts rfl rfl rfl fun _ hq => hq.fetchFlush

theorem RecvAlone.fetchFill (h : RecvAlone n (.fetch .fill) p) : p.RecvCanReturn n :=
  h.next rfl rfl (Or.inl rfl) fun _ hq _ => hq.fetchSignal

theorem RecvAlone.fetchFence (h : RecvAlone n (.fetch .fence) p) : p.RecvCanReturn n :=
  h.next rfl rfl (Or.inr rfl) fun _ hq _ => hq.fetchFill

theorem RecvAlone.fetchData (h : RecvAlone n (.fetch .data) p) : p.RecvCanReturn n :=
  h.posts rfl rfl rfl fun _ hq => hq.fetchFence

theorem RecvAlone.fetchStore {v : Int} (h : RecvAlone n (.fetch (.store v)) p) :
    p.RecvCanReturn n :=
  h.next rfl rfl (Or.inl rfl) fun _ hq _ => hq.fetchData

theorem RecvAlone.fetchLoad (h : RecvAlone n (.fetch .load) p) : p.RecvCanReturn n :=
  h.next rfl rfl (Or.inl rfl) fun _ hq _ => hq.fetchStore

theorem RecvAlone.fetchTest (h : RecvAlone n (.fetch .test) p)
    (hf : p.recv.req.flag = p.recv.req.operationNumber * 2 + 1) : p.RecvCanReturn n := by
  refine h.next (u := .fetch .load) (l := p.recv) ?_ rfl (Or.inl rfl) fun _ hq _ => hq.fetchLoad
  simp [recvRun, eRecv, bRecv, hf]

/-- What the function does next depends on the flag, and it can return either way. -/
theorem RecvAlone.crosstalk (h : RecvAlone n .crosstalk p) : p.RecvCanReturn n := by
  by_cases hf : p.recv.req.flag = p.recv.req.operationNumber * 2 + 1
  · refine h.next (u := .fetch .test) (l := p.recv) ?_ rfl (Or.inl rfl) ?_
    · simp [recvRun, eRecv, hf]
    · intro q hq hreq
      exact hq.fetchTest (by rw [hreq]; exact hf)
  · refine h.returns (l := p.recv) ?_ rfl
    simp [recvRun, eRecv, hf]

/-- The sender has announced itself, or is done. -/
def Pair.RecvTold (p : Pair) : Prop := p.recv.req.operationNumber * 2 + 1 ≤ p.recv.req.flag

theorem RecvAlone.poll (h : RecvAlone n .poll p) (hf : p.RecvTold) : p.RecvCanReturn n := by
  refine h.next (u := .crosstalk) (l := p.recv) ?_ rfl (Or.inl rfl) fun _ hq _ => hq.crosstalk
  simp [recvRun, eRecv, Int.not_lt.mpr hf]

theorem RecvAlone.spin {count : Nat} (h : RecvAlone n (.spin count) p) (hf : p.RecvTold) :
    p.RecvCanReturn n := by
  refine h.next (u := .poll) (l := p.recv) ?_ rfl (Or.inl rfl) ?_
  · simp [recvRun, eRecv, Int.not_lt.mpr hf]
  · intro q hq hreq
    exact hq.poll (by unfold Pair.RecvTold; rw [hreq]; exact hf)

theorem RecvAlone.dataTransfer (h : RecvAlone n .dataTransfer p) (hf : p.RecvTold) :
    p.RecvCanReturn n := by
  refine h.next (u := .spin 0) (l := p.recv.setDataTransfer none) ?_ rfl (Or.inl rfl) ?_
  · simp [recvRun, eRecv, h.flushed]
  · intro q hq hreq
    exact hq.spin (by unfold Pair.RecvTold; rw [hreq]; exact hf)

theorem RecvAlone.flagTransfer (h : RecvAlone n .flagTransfer p) (hf : p.RecvTold) :
    p.RecvCanReturn n := by
  refine h.next (u := .dataTransfer) (l := p.recv.setFlagTransfer none) ?_ rfl (Or.inl rfl) ?_
  · simp [recvRun, eRecv, h.flushed]
  · intro q hq hreq
    exact hq.dataTransfer (by unfold Pair.RecvTold; rw [hreq]; exact hf)

end

/-! ### The sender alone -/

section
variable {p : Pair} {n : Int} {w : SendWait} {l : Local RdmaOp}

/-- The sender is at `w`, and what it has posted has taken effect. -/
structure SendAlone (n : Int) (w : SendWait) (p : Pair) : Prop where
  pc : p.sendPc = .wait w
  number : p.send.req.operationNumber = n
  pending : p.send.worker.pending = []

theorem SendAlone.next (h : SendAlone n w p) {u : SendWait}
    (hrun : sendRun false (.wait w) p.send = some (.wait u, l))
    (hl : l.req.operationNumber = p.send.req.operationNumber) (hw : l.worker = p.send.worker)
    (hnext : ∀ q, SendAlone n u q → q.send.req = l.req → q.SendCanReturn n) :
    p.SendCanReturn n := by
  let q : Pair := { p with sendPc := .wait u, send := l }
  have hs : p.step (.sendRun false) = some q := by
    simp only [Pair.step, h.pc, hrun]
    rfl
  have hq : SendAlone n u q := by
    refine ⟨rfl, hl.trans h.number, ?_⟩
    show l.worker.pending = []
    rw [hw]
    exact h.pending
  exact .head (a := .sendRun false) trivial hs (hnext q hq rfl)

theorem SendAlone.flushed (h : SendAlone n w p) (handle : Option Nat) :
    flushed oneEp p.send.worker handle = true := by
  cases handle with
  | none => rfl
  | some t => simp [Rendezvous.flushed, Worker.clear, h.pending]

/-- The operation is over for the sender. -/
def Pair.SendTold (p : Pair) : Prop := p.send.req.operationNumber * 2 + 2 ≤ p.send.req.flag

theorem SendAlone.poll (h : SendAlone n .poll p) (hf : p.SendTold) : p.SendCanReturn n := by
  let q : Pair := { p with sendPc := .idle }
  have hrun : sendRun false (.wait .poll) p.send = some (.idle, p.send) := by
    simp [sendRun, eSend, Int.not_lt.mpr hf]
  have hs : p.step (.sendRun false) = some q := by
    simp only [Pair.step, h.pc, hrun]
    rfl
  have hdone : q.SendDone n := Or.inr ⟨h.number.symm, rfl⟩
  exact .head (a := .sendRun false) trivial hs (.here hdone)

theorem SendAlone.spin {count : Nat} (h : SendAlone n (.spin count) p) (hf : p.SendTold) :
    p.SendCanReturn n := by
  refine h.next (u := .poll) (l := p.send) ?_ rfl rfl ?_
  · simp [sendRun, eSend, Int.not_lt.mpr hf]
  · intro q hq hreq
    exact hq.poll (by unfold Pair.SendTold; rw [hreq]; exact hf)

theorem SendAlone.dataTransfer (h : SendAlone n .dataTransfer p) (hf : p.SendTold) :
    p.SendCanReturn n := by
  refine h.next (u := .spin 0) (l := p.send.setDataTransfer none) ?_ rfl rfl ?_
  · simp [sendRun, eSend, h.flushed]
  · intro q hq hreq
    exact hq.spin (by unfold Pair.SendTold; rw [hreq]; exact hf)

theorem SendAlone.flagTransfer (h : SendAlone n .flagTransfer p) (hf : p.SendTold) :
    p.SendCanReturn n := by
  refine h.next (u := .dataTransfer) (l := p.send.setFlagTransfer none) ?_ rfl rfl ?_
  · simp [sendRun, eSend, h.flushed]
  · intro q hq hreq
    exact hq.dataTransfer (by unfold Pair.SendTold; rw [hreq]; exact hf)

/-- What the sender's own steps keep while it has not been told that the operation is over. -/
structure SendHeld (n : Int) (p : Pair) : Prop where
  pc : p.sendPc = .started ∨ ∃ w, p.sendPc = .wait w
  number : p.send.req.operationNumber = n
  pending : p.send.worker.pending = []
  flag : p.send.req.flag < n * 2 + 2

theorem SendHeld.step {p' : Pair} (h : SendHeld n p) {act : PairAct} (hown : act.OfSend)
    (hs : p.step act = some p') : SendHeld n p' := by
  cases act with
  | sendWait =>
      simp only [Pair.step] at hs
      split at hs <;> cases hs
      exact ⟨Or.inr ⟨_, rfl⟩, h.number, h.pending, h.flag⟩
  | sendLands i =>
      simp [Pair.step, Worker.enabled?, h.pending] at hs
  | sendRun imm =>
      simp only [Pair.step] at hs
      split at hs <;> cases hs
      rename_i pc l hrun
      rcases h.pc with hpc | ⟨w, hpc⟩
      · simp [hpc, sendRun] at hrun
      · rw [hpc] at hrun
        have hflag := h.flag
        rw [← h.number] at hflag
        cases w with
        | flagTransfer | dataTransfer =>
            simp only [sendRun, eSend] at hrun
            split at hrun <;> rename_i heq <;> split at heq <;> cases heq <;> cases hrun <;>
              exact ⟨Or.inr ⟨_, rfl⟩, h.number, h.pending, h.flag⟩
        | spin count =>
            simp only [sendRun, eSend] at hrun
            split at hrun <;> rename_i heq <;> split at heq <;> cases heq <;> cases hrun <;>
              exact ⟨Or.inr ⟨_, rfl⟩, h.number, h.pending, h.flag⟩
        | poll =>
            -- the loop goes on
            simp only [sendRun, eSend, if_pos hflag, Option.some.injEq, Prod.mk.injEq] at hrun
            obtain ⟨rfl, rfl⟩ := hrun
            exact ⟨Or.inr ⟨_, rfl⟩, h.number, h.pending, h.flag⟩
  | _ => exact hown.elim

/-- A sender that is not told that the operation is over waits on. -/
theorem SendHeld.not_canReturn (h : SendHeld n p) : ¬ p.SendCanReturn n := by
  intro hr
  obtain ⟨q, hq, hdone⟩ := hr.invariant h fun _ _ _ hI hown hs => hI.step hown hs
  rcases hdone with hlt | ⟨-, hidle⟩
  · rw [hq.number] at hlt
    exact absurd hlt (Int.lt_irrefl n)
  · rcases hq.pc with hpc | ⟨w, hpc⟩ <;> rw [hpc] at hidle <;> cases hidle

end

/-! ### Both together -/

section
variable {p p' : Pair} {n k : Int} {a a' : Proto (List UInt8)}

/-- Nothing takes the sender's flag back. -/
theorem sendFlag_le_step {act : PairAct} (h : PairRel p a) (hJ : Proto.Joint a)
    (hs : p.step act = some p') : p.send.req.flag ≤ p'.send.req.flag := by
  cases act with
  | sendRun imm =>
      simp only [Pair.step] at hs
      split at hs <;> cases hs
      rename_i pc l hrun
      obtain ⟨s', hm, -, -, -⟩ := h.send.run hJ hrun
      have hf := h.send.flag
      rcases hm with ⟨-, hm⟩ | ⟨act, -, hstep⟩
      · show p.send.req.flag ≤ l.req.flag
        omega
      · have hle : a.sendFlag ≤ l.req.flag := Proto.sendFlag_mono hJ hstep
        show p.send.req.flag ≤ l.req.flag
        omega
  | sendLands i =>
      simp only [Pair.step] at hs
      split at hs <;> cases hs
      rename_i x hx
      obtain ⟨-, hsend, -⟩ := landSend_send (p := { p with send := p.send.retire i }) x.op
      rw [hsend]
      exact Int.le_refl _
  | recvRun imm =>
      simp only [Pair.step] at hs
      split at hs <;> cases hs <;> exact Int.le_refl _
  | recvLands i =>
      simp only [Pair.step] at hs
      split at hs <;> cases hs
      rename_i x hx
      rcases h.recv.lands hx with ⟨hop, s', act, -, hstep, -⟩ | ⟨hop, -⟩
      · have hle : a.sendFlag ≤ p.recv.req.flagBuffer := Proto.sendFlag_mono hJ hstep
        have hf := h.send.flag
        rw [hop]
        simp only [Pair.landRecv, h.recvMatches.flagAddr, if_true, Local.setFlag]
        show p.send.req.flag ≤ p.recv.req.flagBuffer
        omega
      · rw [hop]
        exact Int.le_refl _
  | _ =>
      simp only [Pair.step] at hs
      split at hs <;> cases hs
      exact Int.le_refl _

/-- Where a receiver that polls, or has polled, can be in the protocol. -/
def Polled (s : RecvStage) : Prop := s = .ready true ∨ s.Pulls false true true true true

/-- A receiver that polls has announced itself, and the sender has been told so or more. -/
theorem told_of_polled (hJ : Proto.Joint a) (hs : Polled a.recv) :
    2 * a.recvNumber + 1 ≤ a.sendFlag := by
  obtain ⟨ns, nr, s, r, fs, fr, last, landed, sb, rb, sent, recd⟩ := a
  rcases hs with hs | ⟨torn, hs⟩ <;> simp only at hs <;> subst hs <;> cases s <;>
    simp only [Proto.Joint, Proto.Upto] at hJ ⊢ <;> grind

/-- While the receiver fetches in its Wait, its announcement stays with the sender. -/
def Pair.Announced (p : Pair) : Prop :=
  (∃ pt, p.recvPc = .wait (.fetch pt)) ∨ p.recvPc = .wait .fetched →
    2 * p.recv.req.operationNumber + 1 ≤ p.send.req.flag

theorem announced_step {act : PairAct} (h : PairRel p a) (hJ : Proto.Joint a)
    (ha : p.Announced) (hs : p.step act = some p') : p'.Announced := by
  have hmono := sendFlag_le_step h hJ hs
  -- a step that leaves the receiver where it is
  have keep : p'.recvPc = p.recvPc → p'.recv.req.operationNumber = p.recv.req.operationNumber →
      p'.Announced := by
    intro hpc hn hat
    rw [hpc] at hat
    have hle := ha hat
    omega
  cases act with
  | recvRun imm =>
      simp only [Pair.step] at hs
      split at hs <;> cases hs
      · intro hat
        simp at hat
      · rename_i pc l hpc hrun
        intro hat
        obtain ⟨-, -, -, hlink, -⟩ := h.recv.run hJ hrun (fun hidle => hpc (by rw [hidle]))
        have hn := h.recv.number
        have hf := h.send.flag
        obtain ⟨fl, -, hA⟩ := h.recv.sim
        show 2 * l.req.operationNumber + 1 ≤ p.send.req.flag
        rw [hlink.operationNumber]
        cases hw : p.recvPc with
        | idle | started => simp [hw, recvRun] at hrun
        | start pt =>
            rw [hw] at hrun
            simp only [recvRun] at hrun
            split at hrun <;> cases hrun <;> simp at hat
        | wait w =>
            rw [hw] at hrun hA
            cases w with
            | fetch pt => exact ha (Or.inl ⟨pt, hw⟩)
            | fetched => exact ha (Or.inr hw)
            | crosstalk =>
                have htold := told_of_polled hJ hA.1.stage
                omega
            | flagTransfer | dataTransfer | spin count | poll =>
                simp only [recvRun, eRecv] at hrun
                split at hrun <;> rename_i heq <;> split at heq <;> cases heq <;> cases hrun <;>
                  simp at hat
  | recvLands i =>
      simp only [Pair.step] at hs
      split at hs <;> cases hs
      rename_i x hx
      obtain ⟨hpc, hrecv, -⟩ := landRecv_recv (p := { p with recv := p.recv.retire i }) x.op
      exact keep hpc (by rw [hrecv]; rfl)
  | sendLands i =>
      simp only [Pair.step] at hs
      split at hs <;> cases hs
      rename_i x hx
      have hsame : ((Pair.landSend { p with send := p.send.retire i } x.op).recvPc = p.recvPc) ∧
          (Pair.landSend { p with send := p.send.retire i } x.op).recv.req.operationNumber =
            p.recv.req.operationNumber := by
        cases x.op with
        | put number src len dst | get number dst len src => exact ⟨rfl, rfl⟩
        | flag number dst =>
            simp only [Pair.landSend]
            split <;> exact ⟨rfl, rfl⟩
      exact keep hsame.1 hsame.2
  | sendRun imm =>
      simp only [Pair.step] at hs
      split at hs <;> cases hs
      exact keep rfl rfl
  | recvStart | recvWait =>
      simp only [Pair.step] at hs
      split at hs <;> cases hs
      intro hat
      simp at hat
  | _ =>
      simp only [Pair.step] at hs
      split at hs <;> cases hs
      exact keep rfl rfl

/-- What holds in every state a connected pair reaches. -/
structure Followed (k : Int) (p : Pair) : Prop where
  shape : p.Shape
  announced : p.Announced
  rel : ∃ a, Proto.Reached k a ∧ PairRel p a

theorem followed_of_reach (h : Reach Pair.step anyStep (Pair.Fresh k) p) : Followed k p := by
  refine h.invariant (I := Followed k) (fun p h0 => ?_) fun p p' act hI _ hs => ?_
  · refine ⟨⟨h0.sendType, h0.recvType, h0.fence⟩, ?_, _, .init (pairRel_init h0.toInit).1,
      (pairRel_init h0.toInit).2⟩
    intro hat
    simp [h0.recvPc] at hat
  · obtain ⟨a, ha, hR⟩ := hI.rel
    exact ⟨hI.shape.step hs, announced_step hR (Proto.reach_joint ha) hI.announced hs,
      pairRel_step hR ha hs⟩

/-- Where the protocol has the sender once its Start is over and everything has landed. -/
theorem PairRel.sendStage (h : PairRel p a) (hpc : ∀ pt, p.sendPc ≠ .start pt)
    (hp : p.send.worker.pending = []) :
    (p.sendPc = .idle ∧ a.send = .rest) ∨
      ((p.sendPc = .started ∨ ∃ w, p.sendPc = .wait w) ∧
        (a.send = .ready true ∨ a.send = .push true true true)) := by
  obtain ⟨fl, hC, hA⟩ := h.send.sim
  have hfl : fl = .empty := Flight.eq_empty_of_list (by rw [← hC.pending, hp])
  subst hfl
  have hwaits : (Pushed p.send .empty a.send ∨ SendReady p.send .empty a.send) →
      a.send = .ready true ∨ a.send = .push true true true := by
    rintro (h' | h')
    · exact Or.inr h'.stage
    · exact Or.inl h'.stage
  cases hpc' : p.sendPc with
  | start pt => exact absurd hpc' (hpc pt)
  | idle =>
      rw [hpc'] at hA
      exact Or.inl ⟨rfl, hA.1⟩
  | started =>
      rw [hpc'] at hA
      exact Or.inr ⟨Or.inl rfl, hwaits (hA.imp And.left And.left)⟩
  | wait w =>
      rw [hpc'] at hA
      refine Or.inr ⟨Or.inr ⟨w, rfl⟩, ?_⟩
      cases w with
      | flagTransfer => exact hwaits (hA.imp And.left And.left)
      | dataTransfer =>
          rcases hA with hA | hA
          · exact hwaits (Or.inl hA.1)
          · exact Or.inl hA.1
      | spin count | poll => exact hA.1.symm

/-- The same of the receiver, unless it fetches in its Wait. -/
theorem PairRel.recvStage (h : PairRel p a) (hpc : ∀ pt, p.recvPc ≠ .start pt)
    (hf : ∀ pt, p.recvPc ≠ .wait (.fetch pt)) (hp : p.recv.worker.pending = []) :
    (p.recvPc = .idle ∧ a.recv = .rest) ∨ Polled a.recv := by
  obtain ⟨fl, hC, hA⟩ := h.recv.sim
  have hfl : fl = .empty := Flight.eq_empty_of_list (by rw [← hC.pending, hp])
  subst hfl
  have hwaits : RecvWaits p.recv .empty a.recv → Polled a.recv := by
    rintro (h' | h')
    · exact Or.inr h'.stage
    · exact Or.inl h'.1.stage
  cases hpc' : p.recvPc with
  | start pt => exact absurd hpc' (hpc pt)
  | idle =>
      rw [hpc'] at hA
      exact Or.inl ⟨rfl, hA.1⟩
  | started =>
      rw [hpc'] at hA
      exact Or.inr (hwaits hA)
  | wait w =>
      rw [hpc'] at hA
      refine Or.inr ?_
      cases w with
      | fetch pt => exact absurd hpc' (hf pt)
      | flagTransfer => exact hwaits hA
      | dataTransfer =>
          rcases hA with hA | hA
          · exact hwaits (Or.inl hA.1)
          · exact hA.stage
      | spin count | poll => exact hA.stage
      | crosstalk => exact hA.1.stage
      | fetched => exact Or.inr hA.1.stage

/-- While it fetches in its Wait, the receiver moves the payload and has not announced that. -/
theorem PairRel.fetchStage (h : PairRel p a) {pt : Point} (hpc : p.recvPc = .wait (.fetch pt))
    (hp : p.recv.worker.pending = []) :
    (∃ st fi d nt, a.recv.Pulls false st fi d nt) ∧ pt ≠ .fillReady ∧ pt ≠ .ready ∧
      pt ≠ .flushReady ∧
      (pt = .test → a.recv = .pull ⟨false, false, false, false, false, false⟩) := by
  obtain ⟨fl, hC, hA⟩ := h.recv.sim
  have hfl : fl = .empty := Flight.eq_empty_of_list (by rw [← hC.pending, hp])
  subst hfl
  rw [hpc] at hA
  cases pt with
  | test => exact ⟨⟨_, _, _, _, _, hA.1⟩, by simp, by simp, by simp, fun _ => hA.1⟩
  | progress => exact ⟨⟨_, _, _, _, hA.1.stage⟩, by simp, by simp, by simp, by simp⟩
  | fillReady | ready | flushReady => exact hA.1.elim
  | fence => exact ⟨⟨_, _, _, _, hA.1.stage⟩, by simp, by simp, by simp, by simp⟩
  | fill => exact ⟨⟨_, _, _, _, hA.1.1.stage⟩, by simp, by simp, by simp, by simp⟩
  | load | store v | data | signal | flush =>
      exact ⟨⟨_, _, _, _, hA.1.1⟩, by simp, by simp, by simp, by simp⟩

/-- A sender that has announced itself or pushed, or is at rest. -/
def Offered (s : SendStage) : Prop := s = .rest ∨ s = .ready true ∨ s = .push true true true

/-- In an operation that both sides have started, a receiver that polls can stop. -/
theorem recvFlag_of_polled (hJ : Proto.Joint a) (hn : a.sendNumber = a.recvNumber)
    (hs : Offered a.send) (hr : Polled a.recv) : 2 * a.recvNumber + 1 ≤ a.recvFlag := by
  obtain ⟨ns, nr, s, r, fs, fr, last, landed, sb, rb, sent, recd⟩ := a
  rcases hs with hs | hs | hs <;> rcases hr with hr | ⟨torn, hr⟩ <;> simp only at hs hr hn <;>
    subst hs hr hn <;> simp only [Proto.Joint, Proto.Upto] at hJ ⊢ <;> grind

/-- What the sender of an operation that both sides have started can find in its flag. -/
theorem sendFlag_of_started (hJ : Proto.Joint a) (hn : a.sendNumber = a.recvNumber)
    (hs : a.send = .ready true ∨ a.send = .push true true true)
    (hr : a.recv = .rest ∨ Polled a.recv ∨
      (∃ st fi d nt, a.recv.Pulls false st fi d nt) ∧ 2 * a.recvNumber + 1 ≤ a.sendFlag) :
    a.sendFlag = 2 * a.sendNumber + 1 ∨ a.sendFlag = 2 * a.sendNumber + 2 := by
  obtain ⟨ns, nr, s, r, fs, fr, last, landed, sb, rb, sent, recd⟩ := a
  rcases hs with hs | hs <;> rcases hr with hr | (hr | ⟨torn, hr⟩) | ⟨⟨st, fi, d, nt, torn, hr⟩, hle⟩ <;>
    simp only at hs hr hn <;> subst hs hr hn <;>
    simp only [Proto.Joint, Proto.Upto] at hJ ⊢ <;> grind

/-- **The receiver's Wait can be finished by the receiver.** -/
theorem recv_canReturn (h : Reach Pair.step anyStep (Pair.Fresh k) p) (hs : p.BothStarted n)
    (hl : p.AllLanded) : p.RecvCanReturn n := by
  obtain ⟨hshape, -, a, ha, hR⟩ := followed_of_reach h
  have hJ := Proto.reach_joint ha
  have hn : a.recvNumber = n := hR.recv.number.trans hs.recvNumber
  have hnumbers : a.sendNumber = a.recvNumber :=
    (hR.send.number.trans hs.sendNumber).trans hn.symm
  have hsend : Offered a.send := (hR.sendStage hs.sendPc hl.send).imp And.right And.right
  have hfence := hshape.fence
  have alone : ∀ {w}, p.recvPc = .wait w → RecvAlone n w p := fun hpc =>
    ⟨hpc, hs.recvNumber, hl.recv, hfence⟩
  by_cases hfetch : ∃ pt, p.recvPc = .wait (.fetch pt)
  · obtain ⟨pt, hpc⟩ := hfetch
    obtain ⟨-, h1, h2, h3, htest⟩ := hR.fetchStage hpc hl.recv
    have hal := alone hpc
    cases pt with
    | test =>
        refine hal.fetchTest ?_
        have hflag := flag_of_pulls hJ ⟨false, htest rfl⟩
        have hf := hR.recv.flag
        have hm := hR.recv.number
        simp only [Bool.false_eq_true, if_false] at hflag
        omega
    | load => exact hal.fetchLoad
    | store v => exact hal.fetchStore
    | data => exact hal.fetchData
    | fence => exact hal.fetchFence
    | fill => exact hal.fetchFill
    | signal => exact hal.fetchSignal
    | flush => exact hal.fetchFlush
    | progress => exact hal.fetchProgress
    | fillReady => exact absurd rfl h1
    | ready => exact absurd rfl h2
    | flushReady => exact absurd rfl h3
  · have hstage := hR.recvStage hs.recvPc (fun pt hpc => hfetch ⟨pt, hpc⟩) hl.recv
    rcases hstage with ⟨hidle, -⟩ | hpolled
    · exact .here (Or.inr ⟨hs.recvNumber.symm, hidle⟩)
    · have htold : p.RecvTold := by
        have hle := recvFlag_of_polled hJ hnumbers hsend hpolled
        have hf := hR.recv.flag
        have hm := hR.recv.number
        unfold Pair.RecvTold
        omega
      cases hpc : p.recvPc with
      | idle => exact .here (Or.inr ⟨hs.recvNumber.symm, hpc⟩)
      | start pt => exact absurd hpc (hs.recvPc pt)
      | started =>
          let q : Pair := { p with recvPc := .wait .flagTransfer }
          have hq : RecvAlone n .flagTransfer q := ⟨rfl, hs.recvNumber, hl.recv, hfence⟩
          have hstep : p.step .recvWait = some q := by
            simp only [Pair.step, hpc, hshape.recvType, and_self, if_true]
            rfl
          exact .head (a := .recvWait) trivial hstep (hq.flagTransfer htold)
      | wait w =>
          have hal := alone hpc
          cases w with
          | flagTransfer => exact hal.flagTransfer htold
          | dataTransfer => exact hal.dataTransfer htold
          | spin count => exact hal.spin htold
          | poll => exact hal.poll htold
          | crosstalk => exact hal.crosstalk
          | fetch pt => exact absurd ⟨pt, hpc⟩ hfetch
          | fetched => exact hal.fetched

/-- **The sender's Wait can be finished by the sender**, unless its flag is the announcement. -/
theorem send_canReturn_iff (h : Reach Pair.step anyStep (Pair.Fresh k) p) (hs : p.BothStarted n)
    (hl : p.AllLanded) : p.SendCanReturn n ↔ p.send.req.flag ≠ 2 * n + 1 := by
  obtain ⟨hshape, hann, a, ha, hR⟩ := followed_of_reach h
  have hJ := Proto.reach_joint ha
  have hn : a.sendNumber = n := hR.send.number.trans hs.sendNumber
  have hm : a.recvNumber = n := hR.recv.number.trans hs.recvNumber
  have hf := hR.send.flag
  rcases hR.sendStage hs.sendPc hl.send with ⟨hidle, hrest⟩ | ⟨hpc, hstage⟩
  · have hne := Proto.reach_rested ha hrest
    refine ⟨fun _ => by omega, fun _ => .here (Or.inr ⟨hs.sendNumber.symm, hidle⟩)⟩
  · have hrecv : a.recv = .rest ∨ Polled a.recv ∨
        (∃ st fi d nt, a.recv.Pulls false st fi d nt) ∧ 2 * a.recvNumber + 1 ≤ a.sendFlag := by
      by_cases hfetch : ∃ pt, p.recvPc = .wait (.fetch pt)
      · obtain ⟨pt, hpt⟩ := hfetch
        have hle := hann (Or.inl ⟨pt, hpt⟩)
        have hnumber := hR.recv.number
        exact Or.inr (Or.inr ⟨(hR.fetchStage hpt hl.recv).1, by omega⟩)
      · have hstage' := hR.recvStage hs.recvPc (fun pt hpt => hfetch ⟨pt, hpt⟩) hl.recv
        exact hstage'.imp And.right Or.inl
    have hcases := sendFlag_of_started hJ (hn.trans hm.symm) hstage hrecv
    constructor
    · intro hret heq
      have hheld : SendHeld n p := ⟨hpc, hs.sendNumber, hl.send, by omega⟩
      exact hheld.not_canReturn hret
    · intro hne
      have htold : p.SendTold := by
        have hnumber := hs.sendNumber
        unfold Pair.SendTold
        omega
      rcases hpc with hpc | ⟨w, hpc⟩
      · let q : Pair := { p with sendPc := .wait .flagTransfer }
        have hq : SendAlone n .flagTransfer q := ⟨rfl, hs.sendNumber, hl.send⟩
        have hstep : p.step .sendWait = some q := by
          simp only [Pair.step, hpc, hshape.sendType, and_self, if_true]
          rfl
        exact .head (a := .sendWait) trivial hstep (hq.flagTransfer htold)
      · have hal : SendAlone n w p := ⟨hpc, hs.sendNumber, hl.send⟩
        cases w with
        | flagTransfer => exact hal.flagTransfer htold
        | dataTransfer => exact hal.dataTransfer htold
        | spin count => exact hal.spin htold
        | poll => exact hal.poll htold

/--
**Which Wait can be finished without the other side**: the receiver's always, and the
sender's exactly if its flag is not the receiver's announcement.
-/
theorem waits_canReturn (h : Reach Pair.step anyStep (Pair.Fresh k) p) (hs : p.BothStarted n)
    (hl : p.AllLanded) :
    p.RecvCanReturn n ∧ (p.SendCanReturn n ↔ p.send.req.flag ≠ 2 * n + 1) :=
  ⟨recv_canReturn h hs hl, send_canReturn_iff h hs hl⟩

end

/-! ### Two runs -/

theorem freshPair_fresh : Pair.Fresh 0 freshPair := ⟨freshPair_init, Nat.le_refl _⟩

/-- The receiver is first, and the sender pushes. -/
def pushRun : List PairAct :=
  [.recvStart] ++ List.replicate 5 (.recvRun false) ++ [.recvLands 0, .sendStart] ++
    List.replicate 9 (.sendRun false) ++ [.sendLands 0, .sendLands 0]

/-- Both sides announce themselves before either sees the other. -/
def announceRun : List PairAct :=
  [.sendStart, .recvStart] ++ List.replicate 5 (.sendRun false) ++ List.replicate 5 (.recvRun false) ++
    [.sendLands 0, .recvLands 0]

/-- Both sides have started operation 1 and are between Start and Wait. -/
def Pair.between (p : Pair) : Bool :=
  decide (p.send.req.operationNumber = 1 ∧ p.recv.req.operationNumber = 1 ∧
    p.sendPc = .started ∧ p.recvPc = .started ∧ p.send.worker.pending = [] ∧
    p.recv.worker.pending = [])

theorem Pair.between_sound {p : Pair} (h : p.between = true) : p.BothStarted 1 ∧ p.AllLanded := by
  simp only [Pair.between, decide_eq_true_eq] at h
  obtain ⟨hs, hr, hsp, hrp, hsl, hrl⟩ := h
  exact ⟨⟨hs, hr, by simp [hsp], by simp [hrp]⟩, hsl, hrl⟩

theorem pushRun_canReturn :
    match runFrom Pair.step freshPair pushRun with
    | some p => (p.RecvCanReturn 1 ∧ (p.SendCanReturn 1 ↔ p.send.req.flag ≠ 2 * 1 + 1)) ∧
        p.send.req.flag = 4 ∧ p.recv.req.flag = 4
    | none => False := by
  have hrun : (runFrom Pair.step freshPair pushRun).any (fun p => p.between &&
      decide (p.send.req.flag = 4 ∧ p.recv.req.flag = 4)) = true := by
    decide +kernel
  cases h : runFrom Pair.step freshPair pushRun with
  | none => simp [h] at hrun
  | some p =>
      simp only [h, Option.any_some, Bool.and_eq_true, decide_eq_true_eq] at hrun
      obtain ⟨hb, hf⟩ := hrun
      obtain ⟨hs, hl⟩ := Pair.between_sound hb
      exact ⟨waits_canReturn (.of_runFrom _ (.init freshPair_fresh) h) hs hl, hf⟩

/-- The sender waits for the receiver's Wait, whatever it does itself. -/
theorem announceRun_waits :
    match runFrom Pair.step freshPair announceRun with
    | some p => Reach Pair.step anyStep (Pair.Fresh 0) p ∧ p.BothStarted 1 ∧ p.AllLanded ∧
        p.send.req.flag = 3 ∧ p.recv.req.flag = 3 ∧ ¬ (p.SendCanReturn 1 ∧ p.RecvCanReturn 1)
    | none => False := by
  have hrun : (runFrom Pair.step freshPair announceRun).any (fun p => p.between &&
      decide (p.send.req.flag = 3 ∧ p.recv.req.flag = 3)) = true := by
    decide +kernel
  cases h : runFrom Pair.step freshPair announceRun with
  | none => simp [h] at hrun
  | some p =>
      simp only [h, Option.any_some, Bool.and_eq_true, decide_eq_true_eq] at hrun
      obtain ⟨hb, hf⟩ := hrun
      obtain ⟨hs, hl⟩ := Pair.between_sound hb
      have hreach : Reach Pair.step anyStep (Pair.Fresh 0) p := .of_runFrom _ (.init freshPair_fresh) h
      refine ⟨hreach, hs, hl, hf.1, hf.2, ?_⟩
      intro hret
      have hne : p.send.req.flag ≠ 2 * 1 + 1 := (send_canReturn_iff hreach hs hl).mp hret.1
      exact hne hf.1

end CompMatch.Rendezvous

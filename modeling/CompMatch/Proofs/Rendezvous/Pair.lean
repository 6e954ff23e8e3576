/-
A connected pair carries the protocol out.

`PairRel` puts the two sides together.  Every step of the pair is at most one step of
the protocol, so whatever a pair reaches is related to something the protocol reaches,
and what holds of the protocol in all its runs holds of the pair.
-/
import CompMatch.Proofs.Rendezvous.Sender
import CompMatch.Proofs.Rendezvous.Receiver

namespace CompMatch.Rendezvous

/-! ### The two sides together -/

structure PairRel (p : Pair) (a : Proto (List UInt8)) : Prop where
  send : SendRel p.sendPc p.send a
  recv : RecvRel p.recvPc none p.recv a
  sendMatches : Pair.Matches p.send.req p.recv.req
  recvMatches : Pair.Matches p.recv.req p.send.req
  sendBuf : a.sendBuf = p.sendBuf
  recvBuf : a.recvBuf = p.recvBuf
  landed : a.landed = p.landed
  sent : a.sent = p.sent
  received : a.received = p.received
  asserted : p.send.failed = false ∧ p.recv.failed = false

theorem Pair.Matches.left {req req' other : MpioptRequest} (h : Matches req other)
    (hl : SameLink req req') : Matches req' other :=
  ⟨by rw [hl.remoteDataAddr, h.dataAddr], by rw [hl.remoteFlagAddr, h.flagAddr],
    by rw [hl.size, h.size]⟩

theorem Pair.Matches.right {req other other' : MpioptRequest} (h : Matches req other)
    (hl : SameLink other other') : Matches req other' :=
  ⟨by rw [hl.buf, h.dataAddr], by rw [hl.flagAddr, h.flagAddr], by rw [hl.size, h.size]⟩

/-- The protocol state a reachable pair starts in. -/
def Pair.start (p : Pair) : Proto (List UInt8) where
  sendNumber := p.send.req.operationNumber
  recvNumber := p.recv.req.operationNumber
  send := .rest
  recv := .rest
  sendFlag := p.send.req.flag
  recvFlag := p.recv.req.flag
  last := p.send.req.operationNumber
  landed := p.landed
  sendBuf := p.sendBuf
  recvBuf := p.recvBuf
  sent := p.sent
  received := p.received

theorem pairRel_init {k : Int} {p : Pair} (h : Pair.Init k p) :
    Proto.Init k p.start ∧ PairRel p p.start := by
  refine ⟨⟨h.sendNumber, h.recvNumber, rfl, rfl, h.sendFlag, h.recvFlag, h.sendNumber, h.landed,
    h.received⟩, ?_⟩
  refine ⟨⟨⟨.empty, .of_empty h.sendQuiet.pending, ?_⟩, rfl, rfl⟩,
    ⟨⟨.empty, .of_empty h.recvQuiet.pending, ?_⟩, rfl, rfl⟩, h.sendMatches,
    h.recvMatches, rfl, rfl, rfl, rfl, rfl, h.sendQuiet.failed, h.recvQuiet.failed⟩
  · rw [h.sendPc]
    exact ⟨rfl, rfl, h.sendQuiet.dataTransfer, h.sendQuiet.flagTransfer⟩
  · rw [h.recvPc]
    exact ⟨rfl, rfl, h.recvQuiet.dataTransfer, h.recvQuiet.flagTransfer⟩

section
variable {β : Type*} {l : Local RdmaOp} {a : Proto β}

/-- The protocol as the sender starts its next operation. -/
def Proto.startSend (a : Proto β) : Proto β :=
  { a with
    sendNumber := a.sendNumber + 1
    send := .fresh
    sent := Function.update a.sent (a.sendNumber + 1) a.sendBuf }

/-- The protocol as the receiver starts its next operation. -/
def Proto.startRecv (a : Proto β) : Proto β :=
  { a with recvNumber := a.recvNumber + 1, recv := .fresh }

/-- Starting an operation with nothing under way. -/
theorem SendRel.countStart (h : SendRel .idle l a) :
    a.step .sendStart = some a.startSend ∧
      SendRel (.start .test) l.countStart a.startSend := by
  obtain ⟨fl, hC, hs, rfl, hu⟩ := h.sim
  refine ⟨by simp only [Proto.step, hs, Proto.startSend], ?_⟩
  exact ⟨⟨.empty, .of_empty hC.pending_empty, rfl, rfl, hu.1, hu.2⟩,
    by simp only [Proto.startSend, h.number]; rfl, h.flag⟩

theorem RecvRel.countStart (h : RecvRel .idle none l a) :
    a.step .recvStart = some a.startRecv ∧
      RecvRel (.start .test) none l.countStart a.startRecv := by
  obtain ⟨fl, hC, hs, rfl, hu⟩ := h.sim
  refine ⟨by simp only [Proto.step, hs, Proto.startRecv], ?_⟩
  exact ⟨⟨.empty, .of_empty hC.pending_empty, rfl, rfl, hu.1, hu.2⟩,
    by simp only [Proto.startRecv, h.number]; rfl, h.flag⟩

end

/-! ### Every step of the pair is one of the protocol, or none -/

section
variable {k : Int} {p p' : Pair} {a : Proto (List UInt8)}

/-- What the protocol reaches from operation `k` with timely fetches. -/
abbrev Proto.Reached (k : Int) (a : Proto (List UInt8)) : Prop :=
  Reach Proto.step Proto.Timely (Proto.Init k) a

theorem Proto.Reached.sendMoves (ha : Proto.Reached k a) {s : SendStage} {f : Int}
    (hm : SendMoves a s f) : Proto.Reached k { a with send := s, sendFlag := f } := by
  rcases hm with ⟨rfl, rfl⟩ | ⟨act, hact, hs⟩
  · exact ha
  · exact .step ha (fun h => absurd h hact) hs

theorem Proto.Reached.recvMoves (ha : Proto.Reached k a) {s : RecvStage} {f : Int}
    (hm : RecvMoves a s f) : Proto.Reached k (a.recvTo s f) := by
  rcases hm with ⟨rfl, rfl⟩ | ⟨act, hact, hs⟩
  · exact ha
  · exact .step ha hact hs

theorem pairRel_sendRun {imm : Bool} (h : PairRel p a) (ha : Proto.Reached k a)
    (hs : p.step (.sendRun imm) = some p') : ∃ a', Proto.Reached k a' ∧ PairRel p' a' := by
  simp only [Pair.step] at hs
  split at hs <;> simp only [reduceCtorEq, Option.some.injEq] at hs
  rename_i pc l hrun
  subst hs
  obtain ⟨s', hm, hrel, hlink, hfail⟩ := h.send.run (Proto.reach_joint ha) hrun
  refine ⟨_, ha.sendMoves hm, hrel, ⟨h.recv.sim, h.recv.number, h.recv.flag⟩,
    h.sendMatches.left hlink, h.recvMatches.right hlink, ?_, h.recvBuf, h.landed, h.sent, h.received,
    hfail.trans h.asserted.1, h.asserted.2⟩
  show a.sendBuf = readMem p.sendMem l.req.buf l.req.size
  rw [hlink.buf, hlink.size]
  exact h.sendBuf

theorem pairRel_recvRun {imm : Bool} (h : PairRel p a) (ha : Proto.Reached k a)
    (hs : p.step (.recvRun imm) = some p') : ∃ a', Proto.Reached k a' ∧ PairRel p' a' := by
  simp only [Pair.step] at hs
  split at hs
  · rename_i l hrun
    obtain rfl := Option.some.inj hs
    obtain ⟨hstep, hrel, -, hlink, hflag, hfail⟩ := h.recv.run_return hrun
    have hbuf : a.recvBuf = readMem p.recvMem l.req.buf l.req.size := by
      rw [hlink.buf, hlink.size]
      exact h.recvBuf
    refine ⟨_, .step ha (by simp [Proto.Timely]) hstep, ⟨h.send.sim, h.send.number, h.send.flag⟩,
      hrel, h.sendMatches.right hlink, h.recvMatches.left hlink, h.sendBuf, hbuf, h.landed, h.sent, ?_,
      h.asserted.1, hfail.trans h.asserted.2⟩
    show Function.update a.received a.recvNumber (some a.recvBuf) = _
    rw [h.received, h.recv.number, hlink.operationNumber, h.recvBuf]
  · rename_i pc l hpc hrun
    obtain rfl := Option.some.inj hs
    obtain ⟨s', hm, hrel, hlink, hfail⟩ :=
      h.recv.run (Proto.reach_joint ha) hrun (fun hidle => hpc (by rw [hidle]))
    refine ⟨_, ha.recvMoves hm, ⟨h.send.sim, h.send.number, h.send.flag⟩, hrel,
      h.sendMatches.right hlink, h.recvMatches.left hlink, h.sendBuf, ?_, h.landed, h.sent, h.received,
      h.asserted.1, hfail.trans h.asserted.2⟩
    show a.recvBuf = readMem p.recvMem l.req.buf l.req.size
    rw [hlink.buf, hlink.size]
    exact h.recvBuf
  · simp at hs

/-- What the sender's process posted lands. -/
theorem pairRel_sendLands {i : Nat} (h : PairRel p a) (ha : Proto.Reached k a)
    (hs : p.step (.sendLands i) = some p') : ∃ a', Proto.Reached k a' ∧ PairRel p' a' := by
  simp only [Pair.step] at hs
  split at hs <;> simp only [reduceCtorEq, Option.some.injEq] at hs
  rename_i x hx
  subst hs
  rcases h.send.lands hx with
    ⟨hop, s', act, hact, hstep, hrel⟩ | ⟨hop, s', hstep, hrel⟩
  · have hmono := Proto.recvFlag_mono (Proto.reach_joint ha) hstep
    refine ⟨_, .step ha (fun h => absurd h hact) hstep, ?_⟩
    rw [hop]
    simp only [Pair.landSend, h.sendMatches.flagAddr, if_true]
    exact ⟨hrel, h.recv.setFlag hmono s', h.sendMatches.right (.of_setters ..),
      h.recvMatches.left (.of_setters ..), h.sendBuf, h.recvBuf, h.landed, h.sent, h.received, h.asserted⟩
  · refine ⟨_, .step ha (by simp [Proto.Timely]) hstep, ?_⟩
    rw [hop]
    simp only [Pair.landSend, payloadOp]
    refine ⟨hrel, ⟨h.recv.sim, h.recv.number, h.recv.flag⟩, h.sendMatches, h.recvMatches, h.sendBuf, ?_, ?_,
      h.sent, h.received, h.asserted⟩
    · show a.sendBuf = readMem (writeMem p.recvMem p.send.req.remoteDataAddr p.sendBuf)
        p.recv.req.buf p.recv.req.size
      rw [h.sendBuf, h.sendMatches.dataAddr, h.recvMatches.size]
      exact (readMem_writeMem_of_length (length_readMem ..) _ _).symm
    · show a.landed ++ [(a.sendNumber, Transfer.put)] = _
      rw [h.landed, h.send.number]

/-- What the receiver's process posted lands. -/
theorem pairRel_recvLands {i : Nat} (h : PairRel p a) (ha : Proto.Reached k a)
    (hs : p.step (.recvLands i) = some p') : ∃ a', Proto.Reached k a' ∧ PairRel p' a' := by
  simp only [Pair.step] at hs
  split at hs <;> simp only [reduceCtorEq, Option.some.injEq] at hs
  rename_i x hx
  subst hs
  rcases h.recv.lands hx with ⟨hop, s', act, hact, hstep, hrel⟩ | ⟨hop, s', hstep, hrel⟩
  · refine ⟨_, .step ha (fun h => absurd h hact) hstep, ?_⟩
    rw [hop]
    simp only [Pair.landRecv, h.recvMatches.flagAddr, if_true]
    exact ⟨h.send.setFlag _ s', hrel, h.sendMatches.left (.of_setters ..),
      h.recvMatches.right (.of_setters ..), h.sendBuf, h.recvBuf, h.landed, h.sent, h.received,
      h.asserted⟩
  · refine ⟨_, .step ha (by simp [Proto.Timely]) hstep, ?_⟩
    rw [hop]
    simp only [Pair.landRecv, payloadOp]
    refine ⟨⟨h.send.sim, h.send.number, h.send.flag⟩, hrel, h.sendMatches, h.recvMatches, h.sendBuf,
      ?_, ?_, h.sent, h.received, h.asserted⟩
    · show a.sendBuf = readMem (writeMem p.recvMem p.recv.req.buf
        (readMem p.sendMem p.recv.req.remoteDataAddr p.recv.req.size)) p.recv.req.buf p.recv.req.size
      rw [h.sendBuf, h.recvMatches.dataAddr, h.recvMatches.size]
      exact (readMem_writeMem_of_length (length_readMem ..) _ _).symm
    · show a.landed ++ [(a.recvNumber, Transfer.get)] = _
      rw [h.landed, h.recv.number]

/-- **Step lemma.**  Whatever a pair does next, the protocol can follow. -/
theorem pairRel_step {act : PairAct} (h : PairRel p a) (ha : Proto.Reached k a)
    (hs : p.step act = some p') : ∃ a', Proto.Reached k a' ∧ PairRel p' a' := by
  cases act with
  | sendRun imm => exact pairRel_sendRun h ha hs
  | recvRun imm => exact pairRel_recvRun h ha hs
  | sendLands i => exact pairRel_sendLands h ha hs
  | recvLands i => exact pairRel_recvLands h ha hs
  | sendWrite m =>
      simp only [Pair.step] at hs
      split at hs <;> simp only [reduceCtorEq, Option.some.injEq] at hs
      rename_i hidle
      subst hs
      obtain ⟨fl, hC, hA⟩ := h.send.sim
      rw [hidle] at hA
      let b := readMem m p.send.req.buf p.send.req.size
      have hstep : a.step (.sendWrite b) = some { a with sendBuf := b } := by
        simp only [Proto.step, hA.1]
      exact ⟨_, .step ha (by simp [Proto.Timely]) hstep, ⟨h.send.sim, h.send.number, h.send.flag⟩,
        ⟨h.recv.sim, h.recv.number, h.recv.flag⟩, h.sendMatches, h.recvMatches, rfl, h.recvBuf,
        h.landed, h.sent, h.received, h.asserted⟩
  | recvWrite m =>
      simp only [Pair.step] at hs
      split at hs <;> simp only [reduceCtorEq, Option.some.injEq] at hs
      rename_i hidle
      subst hs
      obtain ⟨fl, hC, hA⟩ := h.recv.sim
      rw [hidle] at hA
      let b := readMem m p.recv.req.buf p.recv.req.size
      have hstep : a.step (.recvWrite b) = some { a with recvBuf := b } := by
        simp only [Proto.step, hA.1]
      exact ⟨_, .step ha (by simp [Proto.Timely]) hstep, ⟨h.send.sim, h.send.number, h.send.flag⟩,
        ⟨h.recv.sim, h.recv.number, h.recv.flag⟩, h.sendMatches, h.recvMatches, h.sendBuf, rfl,
        h.landed, h.sent, h.received, h.asserted⟩
  | sendStart =>
      simp only [Pair.step] at hs
      split at hs <;> simp only [reduceCtorEq, Option.some.injEq] at hs
      rename_i hidle
      subst hs
      have hrel := h.send
      rw [hidle.1] at hrel
      obtain ⟨hstep, hrel'⟩ := hrel.countStart
      refine ⟨_, .step ha (by simp [Proto.Timely]) hstep, hrel',
        ⟨h.recv.sim, h.recv.number, h.recv.flag⟩,
        ⟨h.sendMatches.1, h.sendMatches.2, h.sendMatches.3⟩,
        ⟨h.recvMatches.1, h.recvMatches.2, h.recvMatches.3⟩,
        h.sendBuf, h.recvBuf, h.landed, ?_, h.received, h.asserted⟩
      show Function.update a.sent (a.sendNumber + 1) a.sendBuf = _
      rw [h.sent, h.send.number, h.sendBuf]
  | recvStart =>
      simp only [Pair.step] at hs
      split at hs <;> simp only [reduceCtorEq, Option.some.injEq] at hs
      rename_i hidle
      subst hs
      have hrel := h.recv
      rw [hidle.1] at hrel
      obtain ⟨hstep, hrel'⟩ := hrel.countStart
      exact ⟨_, .step ha (by simp [Proto.Timely]) hstep, ⟨h.send.sim, h.send.number, h.send.flag⟩,
        hrel', ⟨h.sendMatches.1, h.sendMatches.2, h.sendMatches.3⟩,
        ⟨h.recvMatches.1, h.recvMatches.2, h.recvMatches.3⟩,
        h.sendBuf, h.recvBuf, h.landed, h.sent, h.received, h.asserted⟩
  | sendWait =>
      simp only [Pair.step] at hs
      split at hs <;> simp only [reduceCtorEq, Option.some.injEq] at hs
      rename_i hstarted
      subst hs
      obtain ⟨fl, hC, hA⟩ := h.send.sim
      rw [hstarted.1] at hA
      exact ⟨a, ha, ⟨⟨fl, hC, hA⟩, h.send.number, h.send.flag⟩, h.recv, h.sendMatches, h.recvMatches,
        h.sendBuf, h.recvBuf, h.landed, h.sent, h.received, h.asserted⟩
  | recvWait =>
      simp only [Pair.step] at hs
      split at hs <;> simp only [reduceCtorEq, Option.some.injEq] at hs
      rename_i hstarted
      subst hs
      obtain ⟨fl, hC, hA⟩ := h.recv.sim
      rw [hstarted.1] at hA
      exact ⟨a, ha, h.send, ⟨⟨fl, hC, hA⟩, h.recv.number, h.recv.flag⟩, h.sendMatches, h.recvMatches,
        h.sendBuf, h.recvBuf, h.landed, h.sent, h.received, h.asserted⟩

/-- Whatever a pair reaches, the protocol reaches. -/
theorem pair_simulates (h : Reach Pair.step anyStep (Pair.Init k) p) :
    ∃ a, Proto.Reached k a ∧ PairRel p a :=
  h.simulate (fun _ h0 => ⟨_, pairRel_init h0⟩) fun _ _ _ _ hR ha _ hs => pairRel_step hR ha hs

/-- A side whose Wait has returned is at rest. -/
theorem PairRel.sendDone (h : PairRel p a) {n : Int} (hd : p.SendDone n) :
    n < a.sendNumber ∨ (n = a.sendNumber ∧ a.send = .rest) := by
  obtain ⟨fl, -, hA⟩ := h.send.sim
  rw [h.send.number]
  refine hd.imp id fun ⟨hn, hpc⟩ => ⟨hn, ?_⟩
  rw [hpc] at hA
  exact hA.1

theorem PairRel.recvDone (h : PairRel p a) {n : Int} (hd : p.RecvDone n) :
    n < a.recvNumber ∨ (n = a.recvNumber ∧ a.recv = .rest) := by
  obtain ⟨fl, -, hA⟩ := h.recv.sim
  rw [h.recv.number]
  refine hd.imp id fun ⟨hn, hpc⟩ => ⟨hn, ?_⟩
  rw [hpc] at hA
  exact hA.1

end

/-- What a pair that carries the protocol out owes its user. -/
theorem PairRel.delivers {k : Int} {p : Pair} {a : Proto (List UInt8)} (ha : Proto.Reached k a)
    (hR : PairRel p a) : p.Delivers k := by
  have hJ := Proto.reach_joint ha
  have hC := Proto.reach_counted ha
  have hP := Proto.reach_payload ha
  have hT := Proto.reach_told ha
  refine ⟨fun n => ?_, fun n hn hd => ?_, fun n hn hd => ?_, hR.asserted⟩
  · rw [← hR.landed, hC.count n]
    split <;> omega
  · have hle : n ≤ a.last := by
      rcases hd with hd | hd
      · obtain ⟨h1, h2⟩ := Proto.last_of_send hJ hP.untorn
        rcases hR.sendDone hd with hlt | ⟨rfl, hrest⟩
        · omega
        · exact h2 hrest
      · obtain ⟨h1, h2⟩ := Proto.last_of_recv hJ
        rcases hR.recvDone hd with hlt | ⟨rfl, hrest⟩
        · omega
        · exact h2 hrest
    rw [← hR.landed, hC.count n, if_pos ⟨hn, hle⟩]
  · obtain ⟨b, hb⟩ := hT n hn (hR.recvDone hd)
    rw [← hR.received, ← hR.sent, hb, (hP.received n b hb).1]

/--
**A connected pair delivers.**  In every state that any interleaving of the two
processes and of the operations they posted leads to: no payload was transferred
twice, every operation either side has finished was transferred, and every operation
the receiver has finished left it the bytes of the sender's Start.
-/
theorem pair_delivers {k : Int} {p : Pair} (h : Reach Pair.step anyStep (Pair.Init k) p) :
    p.Delivers k := by
  obtain ⟨a, ha, hR⟩ := pair_simulates h
  exact hR.delivers ha

/-- A request over `len` bytes at address 8, connected to one like it, before operation 1. -/
def freshRequest (type : RequestType) (len : Nat) : MpioptRequest where
  flag := 0
  flagBuffer := 0
  flagAddr := 4
  remoteDataAddr := 8
  remoteFlagAddr := 4
  remoteDataRkey := 0
  remoteFlagRkey := 0
  buf := 8
  size := len
  ucxRequestDataTransfer := none
  ucxRequestFlagTransfer := none
  operationNumber := 0
  type := type
  backupRequest := none
  tag := 0
  dest := 0
  rdmaExchangeRequestSend := none

/-- A pair that is to send the two bytes 8 and 9. -/
def freshPair : Pair where
  sendPc := .idle
  send := ⟨freshRequest .send 2, .idle, false⟩
  sendMem := fun x => .ofNat x
  recvPc := .idle
  recv := ⟨freshRequest .recv 2, .idle, false⟩
  recvMem := fun _ => 0
  landed := []
  sent := fun _ => []
  received := fun _ => none

theorem freshPair_init : Pair.Init 0 freshPair :=
  ⟨rfl, rfl, rfl, rfl, ⟨rfl, rfl, rfl⟩, ⟨rfl, rfl, rfl⟩, rfl, rfl, Int.le_refl 0, Int.le_refl 0,
    ⟨rfl, rfl, rfl, rfl⟩, ⟨rfl, rfl, rfl, rfl⟩, rfl, fun _ => rfl⟩

/-- Both sides announce themselves at once, and the receiver fetches. -/
def crosstalkRun : List PairAct :=
  [.sendStart, .recvStart] ++ List.replicate 5 (.sendRun false) ++ List.replicate 5 (.recvRun false) ++
    [.sendLands 0, .recvLands 0, .recvWait] ++ List.replicate 14 (.recvRun false) ++
    [.recvLands 0, .recvLands 0, .recvRun false, .sendWait] ++ List.replicate 4 (.sendRun false)

theorem crosstalkRun_delivers :
    match runFrom Pair.step freshPair crosstalkRun with
    | some p => p.Delivers 0 ∧ p.SendDone 1 ∧ p.RecvDone 1 ∧ p.landed = [(1, .get)] ∧
        p.received 1 = some [8, 9]
    | none => False := by
  have hrun : (runFrom Pair.step freshPair crosstalkRun).any (fun p => decide
      (p.send.req.operationNumber = 1 ∧ p.sendPc = .idle ∧ p.recv.req.operationNumber = 1 ∧
        p.recvPc = .idle ∧ p.landed = [(1, .get)] ∧ p.received 1 = some [8, 9])) = true := by
    decide +kernel
  cases h : runFrom Pair.step freshPair crosstalkRun with
  | none => simp [h] at hrun
  | some p =>
      simp only [h, Option.any_some, decide_eq_true_eq] at hrun
      obtain ⟨hs, hsi, hr, hri, hl, hb⟩ := hrun
      exact ⟨pair_delivers (.of_runFrom _ (.init freshPair_init) h), Or.inr ⟨hs.symm, hsi⟩,
        Or.inr ⟨hr.symm, hri⟩, hl, hb⟩

end CompMatch.Rendezvous

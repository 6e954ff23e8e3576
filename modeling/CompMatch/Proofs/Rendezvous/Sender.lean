/-
The sender follows the protocol.

`SendRel` ties a send request to the abstract protocol: the request is at a program
point, its operations are a flight, and the stage is one that `SendAt` allows there.
Each step of `b_send` and `e_send` is then at most one step of the protocol, and so
is the effect of each operation the sender posted.
-/
import CompMatch.Proofs.Rendezvous.Protocol
import CompMatch.Proofs.Rendezvous.Stages

namespace CompMatch.Rendezvous

variable {β : Type*}

/-- The send request is where the protocol says the sender is. -/
structure SendRel (pc : SendPc) (l : Local RdmaOp) (a : Proto β) : Prop where
  sim : ∃ fl, Carries .put l fl ∧ SendAt l fl a.send pc
  number : a.sendNumber = l.req.operationNumber
  flag : a.sendFlag = l.req.flag

/-- The sender moves to stage `s` with flag `f`, by one step of the protocol at most. -/
def SendMoves (a : Proto β) (s : SendStage) (f : Int) : Prop :=
  (s = a.send ∧ f = a.sendFlag) ∨
    ∃ act, act ≠ .recvFetch ∧ a.step act = some { a with send := s, sendFlag := f }

/-- The sender's payload lands. -/
def Proto.put (a : Proto β) (s : SendStage) : Proto β :=
  { a with
    send := s
    recvBuf := a.sendBuf
    last := a.sendNumber
    landed := a.landed ++ [(a.sendNumber, .put)] }

/-! ### What landing does to the stage -/

section
variable {l l' : Local RdmaOp} {fl : Flight} {s : SendStage} {pc : SendPc} {x : Posted RdmaOp}

theorem SendReady.ready_lands (h : SendReady l fl s) (hx : fl.ready = some x)
    (hreq : l'.req = l.req) :
    s = .ready false ∧ l.req.flagBuffer = l.req.operationNumber * 2 + 1 ∧
      SendReady l' { fl with ready := none } (.ready true) :=
  ⟨by rw [h.stage, hx]; rfl, h.flagBuffer, rfl, h.data, h.notice, by rw [hreq]; exact h.flagBuffer⟩

theorem Pushed.data_lands (h : Pushed l fl s) (hx : fl.data = some x) (hreq : l'.req = l.req) :
    s = .push true false false ∧ Pushed l' { fl with data := none } (.push true true false) := by
  have hne : fl.notice ≠ none := by
    intro hn
    simp [h.last hn] at hx
  obtain ⟨n, hn⟩ := Option.ne_none_iff_exists'.mp hne
  exact ⟨by rw [h.stage, hx, hn]; rfl, by rw [hn]; rfl, h.ready, fun _ => rfl,
    by rw [hreq]; exact h.flagBuffer⟩

theorem Pushed.notice_lands (h : Pushed l fl s) (hx : fl.notice = some x) (hd : fl.data = none)
    (hreq : l'.req = l.req) :
    s = .push true true false ∧ l.req.flagBuffer = l.req.operationNumber * 2 + 2 ∧
      Pushed l' .empty (.push true true true) :=
  ⟨by rw [h.stage, hx, hd]; rfl, h.flagBuffer, rfl, rfl, fun _ => rfl,
    by rw [hreq]; exact h.flagBuffer⟩

theorem SendAt.ready_lands (h : SendAt l fl s pc) (hx : fl.ready = some x)
    (hreq : l'.req = l.req) :
    s = .ready false ∧ l.req.flagBuffer = l.req.operationNumber * 2 + 1 ∧
      SendAt l' { fl with ready := none } (.ready true) pc := by
  have hne : fl ≠ .empty := by
    rintro rfl
    simp [Flight.empty] at hx
  have hsome : fl.ready ≠ none := by simp [hx]
  unfold SendAt at h ⊢
  split at h <;> grind [SendReady.ready_lands, Pushed, Held.mono, Flight.mem_of_ready_none]

theorem SendAt.data_lands (h : SendAt l fl s pc) (hx : fl.data = some x) (hreq : l'.req = l.req) :
    s = .push true false false ∧ SendAt l' { fl with data := none } (.push true true false) pc := by
  have hne : fl ≠ .empty := by
    rintro rfl
    simp [Flight.empty] at hx
  have hsome : fl.data ≠ none := by simp [hx]
  unfold SendAt at h ⊢
  split at h <;> grind [Pushed.data_lands, SendReady, Held.mono, Flight.mem_of_data_none]

theorem SendAt.notice_lands (h : SendAt l fl s pc) (hx : fl.notice = some x)
    (hd : fl.data = none) (hreq : l'.req = l.req) :
    s = .push true true false ∧ l.req.flagBuffer = l.req.operationNumber * 2 + 2 ∧
      SendAt l' .empty (.push true true true) pc := by
  have hne : fl ≠ .empty := by
    rintro rfl
    simp [Flight.empty] at hx
  have hsome : fl.notice ≠ none := by simp [hx]
  unfold SendAt at h ⊢
  split at h <;> grind [Pushed.notice_lands, SendReady, held_empty]

/-- The receiver writes the flag. -/
theorem SendAt.setFlag (h : SendAt l fl s pc) (v : Int) : SendAt (l.setFlag v) fl s pc := by
  have hu : Unheld l.req → Unheld (l.setFlag v).req := fun h => ⟨h.1, h.2⟩
  have hp : Pushed l fl s → Pushed (l.setFlag v) fl s := fun h => ⟨h.1, h.2, h.3, h.4⟩
  have hr : SendReady l fl s → SendReady (l.setFlag v) fl s := fun h => ⟨h.1, h.2, h.3, h.4⟩
  unfold SendAt at h ⊢
  split at h <;> simp only [Local.setFlag] at * <;> grind

end

namespace SendRel

variable {pc pc' : SendPc} {l l' : Local RdmaOp} {a : Proto β} {imm : Bool}

/-- A step that leaves the stage and the flag as they are. -/
theorem stay (h : SendRel pc l a) {fl : Flight} (hC : Carries .put l' fl)
    (hA : SendAt l' fl a.send pc') (hr : SameLink l.req l'.req) (hf : l'.req.flag = l.req.flag)
    (hfail : l'.failed = l.failed) :
    ∃ s', SendMoves a s' l'.req.flag ∧
      SendRel pc' l' { a with send := s', sendFlag := l'.req.flag } ∧
      SameLink l.req l'.req ∧ l'.failed = l.failed :=
  ⟨a.send, Or.inl ⟨rfl, by rw [hf, h.flag]⟩,
    ⟨⟨fl, hC, hA⟩, by rw [hr.operationNumber]; exact h.number, rfl⟩, hr, hfail⟩

/-- A step that the protocol takes too. -/
theorem move (h : SendRel pc l a) (s' : SendStage) (act : ProtoAct β) {fl : Flight}
    (hact : act ≠ .recvFetch)
    (hs : a.step act = some { a with send := s', sendFlag := l'.req.flag })
    (hC : Carries .put l' fl) (hA : SendAt l' fl s' pc') (hr : SameLink l.req l'.req)
    (hfail : l'.failed = l.failed) :
    ∃ s', SendMoves a s' l'.req.flag ∧
      SendRel pc' l' { a with send := s', sendFlag := l'.req.flag } ∧
      SameLink l.req l'.req ∧ l'.failed = l.failed :=
  ⟨s', Or.inr ⟨act, hact, hs⟩,
    ⟨⟨fl, hC, hA⟩, by rw [hr.operationNumber]; exact h.number, rfl⟩, hr, hfail⟩

/-- Until the payload has landed, the flag of a sender that pushes is the announcement or one more. -/
theorem flag_of_push (hJ : Proto.Joint a) {st : Bool} (hs : a.send = .push st false false) :
    a.sendFlag = if st then 2 * a.sendNumber + 2 else 2 * a.sendNumber + 1 := by
  simp only [Proto.Joint, hs] at hJ
  split at hJ <;> grind

/-- The receiver writes the flag. -/
theorem setFlag (h : SendRel pc l a) (v : Int) (r : RecvStage) :
    SendRel pc (l.setFlag v) { a with recv := r, sendFlag := v } := by
  obtain ⟨fl, hC, hA⟩ := h.sim
  exact ⟨⟨fl, hC.congr rfl (Nat.le_refl _) (.of_setters ..), hA.setFlag v⟩, h.number, rfl⟩

/-- **`b_send` follows the protocol.** -/
theorem run_start {p : Point} (hJ : Proto.Joint a) (h : SendRel (.start p) l a)
    (hrun : sendRun imm (.start p) l = some (pc', l')) :
    ∃ s', SendMoves a s' l'.req.flag ∧
      SendRel pc' l' { a with send := s', sendFlag := l'.req.flag } ∧
      SameLink l.req l'.req ∧ l'.failed = l.failed := by
  obtain ⟨fl, hC, hA⟩ := h.sim
  have hn := h.number
  have hf := h.flag
  have hle := Nat.le_refl l.worker.clock
  cases p with
  | test =>
      obtain ⟨hs, rfl, hu⟩ := hA
      by_cases hflag : l.req.flag = l.req.operationNumber * 2 + 1
      · obtain ⟨rfl, rfl⟩ : pc' = .start .load ∧ l' = l := by
          simpa [sendRun, bSend, hflag, eq_comm] using hrun
        refine h.move (.push false false false) .sendTest (by simp) ?_ hC ⟨rfl, rfl, hu⟩ (.refl _) rfl
        simp only [Proto.step, hs]
        rw [if_pos (by omega), hf]
      · obtain ⟨rfl, rfl⟩ : pc' = .start .fillReady ∧ l' = l := by
          simpa [sendRun, bSend, hflag, eq_comm] using hrun
        refine h.move (.ready false) .sendTest (by simp) ?_ hC ⟨rfl, rfl, hu⟩ (.refl _) rfl
        simp only [Proto.step, hs]
        rw [if_neg (by omega), hf]
  | load =>
      obtain ⟨hs, rfl, hu⟩ := hA
      cases hrun
      have hfl := flag_of_push hJ hs
      simp only [Bool.false_eq_true, if_false] at hfl
      exact h.stay hC ⟨hs, rfl, hu, by omega⟩ (.refl _) rfl rfl
  | store v =>
      obtain ⟨hs, rfl, hu, rfl⟩ := hA
      cases hrun
      refine h.move (.push true false false) .sendStore (by simp) ?_
        (hC.congr rfl hle (.of_setters ..)) ⟨rfl, rfl, ⟨hu.1, hu.2⟩⟩ (.of_setters ..) rfl
      simp only [Proto.step, hs, Local.setFlag, hn, Option.some.injEq]
      congr 1
      omega
  | fill =>
      obtain ⟨hs, rfl, hu⟩ := hA
      cases hrun
      have hfl := flag_of_push hJ hs
      simp only [if_true] at hfl
      refine h.stay (hC.congr rfl hle (.of_setters ..)) ⟨hs, rfl, ⟨hu.1, hu.2⟩, rfl⟩
        (.of_setters ..) rfl ?_
      simp [Local.setFlagBuffer, Local.assert]
      omega
  | data =>
      obtain ⟨hs, rfl, hu, hb⟩ := hA
      cases hrun
      obtain ⟨x, hx⟩ := hC.post_data rfl rfl
      exact h.stay hx ⟨hs, rfl, rfl, hu, hb⟩ (.refl _) rfl rfl
  | fence =>
      obtain ⟨hs, hr, hnt, hu, hb⟩ := hA
      cases hrun
      obtain ⟨hx, hbar⟩ := hC.fence
      exact h.stay hx ⟨hs, hr, hnt, hu, hb, fun x hx => hbar x (Or.inr hx)⟩ (.refl _) rfl rfl
  | signal =>
      obtain ⟨hs, hr, hnt, hu, hb, hbar⟩ := hA
      cases hrun
      obtain ⟨x, hx⟩ := hC.post_notice hnt (by simpa [hr] using hbar)
      exact h.stay hx ⟨⟨by simpa using hs, hr, by simp, hb⟩, hu⟩ (.refl _) rfl rfl
  | flush =>
      obtain ⟨hp, hu⟩ := hA
      cases hrun
      refine h.stay (hC.congr rfl hle (.of_setters ..))
        (Or.inl ⟨⟨hp.1, hp.2, hp.3, hp.4⟩, held_flush hC imm, hu.2⟩) (.of_setters ..) rfl ?_
      simp [Local.setDataTransfer, Local.assert, hu.1]
  | fillReady =>
      obtain ⟨hs, rfl, hu⟩ := hA
      cases hrun
      exact h.stay (hC.congr rfl hle (.of_setters ..)) ⟨hs, rfl, ⟨hu.1, hu.2⟩, rfl⟩
        (.of_setters ..) rfl rfl
  | ready =>
      obtain ⟨hs, rfl, hu, hb⟩ := hA
      cases hrun
      obtain ⟨x, hx⟩ := hC.post_ready
      exact h.stay hx ⟨⟨hs, rfl, rfl, hb⟩, hu⟩ (.refl _) rfl rfl
  | flushReady =>
      obtain ⟨hp, hu⟩ := hA
      cases hrun
      refine h.stay (hC.congr rfl hle (.of_setters ..))
        (Or.inr ⟨⟨hp.1, hp.2, hp.3, hp.4⟩, held_flush hC imm, hu.1⟩) (.of_setters ..) rfl ?_
      simp [Local.setFlagTransfer, Local.assert, hu.2]
  | progress =>
      cases hrun
      exact h.stay hC hA (.refl _) rfl rfl

/-- **`e_send` follows the protocol.** -/
theorem run_wait {w : SendWait} (h : SendRel (.wait w) l a)
    (hrun : sendRun imm (.wait w) l = some (pc', l')) :
    ∃ s', SendMoves a s' l'.req.flag ∧
      SendRel pc' l' { a with send := s', sendFlag := l'.req.flag } ∧
      SameLink l.req l'.req ∧ l'.failed = l.failed := by
  obtain ⟨fl, hC, hA⟩ := h.sim
  have hn := h.number
  have hf := h.flag
  have hle := Nat.le_refl l.worker.clock
  cases w with
  | flagTransfer =>
      simp only [sendRun, eSend] at hrun
      by_cases hdone : flushed oneEp l.worker l.req.ucxRequestFlagTransfer = true
      · rw [if_pos hdone] at hrun
        cases hrun
        refine h.stay (hC.congr rfl hle (.of_setters ..)) ?_ (.of_setters ..) rfl rfl
        rcases hA with ⟨hp, hh, hno⟩ | ⟨hr, hh, hno⟩
        · exact Or.inl ⟨⟨hp.1, hp.2, hp.3, hp.4⟩, hh, rfl⟩
        · obtain rfl := eq_empty_of_flushed hC hh hdone
          exact Or.inr ⟨hr.1, rfl, ⟨hno, rfl⟩⟩
      · rw [if_neg hdone] at hrun
        cases hrun
        exact h.stay hC hA (.refl _) rfl rfl
  | dataTransfer =>
      simp only [sendRun, eSend] at hrun
      by_cases hdone : flushed oneEp l.worker l.req.ucxRequestDataTransfer = true
      · rw [if_pos hdone] at hrun
        cases hrun
        refine h.stay (hC.congr rfl hle (.of_setters ..)) ?_ (.of_setters ..) rfl rfl
        rcases hA with ⟨hp, hh, hno⟩ | ⟨hs, rfl, hu⟩
        · obtain rfl := eq_empty_of_flushed hC hh hdone
          exact ⟨Or.inl hp.1, rfl, ⟨rfl, hno⟩⟩
        · exact ⟨Or.inr hs, rfl, ⟨rfl, hu.2⟩⟩
      · rw [if_neg hdone] at hrun
        cases hrun
        exact h.stay hC hA (.refl _) rfl rfl
  | spin count =>
      simp only [sendRun, eSend] at hrun
      split at hrun <;> rename_i heq <;> split at heq <;> cases heq <;> cases hrun <;>
        exact h.stay hC hA (.refl _) rfl rfl
  | poll =>
      obtain ⟨hs, rfl, hu⟩ := hA
      by_cases hflag : l.req.flag < l.req.operationNumber * 2 + 2
      · obtain ⟨rfl, rfl⟩ : pc' = .wait .poll ∧ l' = l := by
          simpa [sendRun, eSend, hflag, eq_comm] using hrun
        exact h.stay hC ⟨hs, rfl, hu⟩ (.refl _) rfl rfl
      · obtain ⟨rfl, rfl⟩ : pc' = .idle ∧ l' = l := by
          simpa [sendRun, eSend, hflag, eq_comm] using hrun
        refine h.move .rest .sendReturn (by simp) ?_ hC ⟨rfl, rfl, hu⟩ (.refl _) rfl
        rcases hs with hs | hs
        all_goals
          simp only [Proto.step, hs]
          rw [if_pos (by omega), hf]

/-- **Every step of the sender's code is at most one step of the protocol.** -/
theorem run (hJ : Proto.Joint a) (h : SendRel pc l a) (hrun : sendRun imm pc l = some (pc', l')) :
    ∃ s', SendMoves a s' l'.req.flag ∧
      SendRel pc' l' { a with send := s', sendFlag := l'.req.flag } ∧
      SameLink l.req l'.req ∧ l'.failed = l.failed := by
  cases pc with
  | start p => exact run_start hJ h hrun
  | wait w => exact run_wait h hrun
  | idle => simp [sendRun] at hrun
  | started => simp [sendRun] at hrun

/-- **An operation of the sender that lands is a step of the protocol.** -/
theorem lands {i : Nat} {x : Posted RdmaOp} (h : SendRel pc l a)
    (hx : l.worker.enabled? i = some x) :
    (x.op = .flag l.req.operationNumber l.req.remoteFlagAddr ∧ ∃ s' act, act ≠ .recvFetch ∧
        a.step act = some { a with send := s', recvFlag := l.req.flagBuffer } ∧
        SendRel pc (l.retire i) { a with send := s', recvFlag := l.req.flagBuffer }) ∨
      (x.op = payloadOp .put l.req ∧ ∃ s',
        a.step .sendDataLands = some (a.put s') ∧ SendRel pc (l.retire i) (a.put s')) := by
  obtain ⟨fl, hC, hA⟩ := h.sim
  have hn := h.number
  have hf := h.flag
  have hreq : (l.retire i).req = l.req := rfl
  rcases hC.lands hx with ⟨hr, hC'⟩ | ⟨hd, hC'⟩ | ⟨hnt, hr, hd, hC'⟩
  · obtain ⟨hs, hb, hA'⟩ := hA.ready_lands hr hreq
    refine Or.inl ⟨hC.ready x hr, .ready true, .sendReadyLands, by simp, ?_,
      ⟨_, hC', hA'⟩, hn, hf⟩
    simp only [Proto.step, hs, hn, hb, Int.mul_comm]
  · obtain ⟨hs, hA'⟩ := hA.data_lands hd hreq
    refine Or.inr ⟨hC.data x hd, .push true true false, ?_, ⟨_, hC', hA'⟩, hn, hf⟩
    simp only [Proto.step, hs, Proto.put]
  · obtain ⟨hs, hb, hA'⟩ := hA.notice_lands hnt hd hreq
    refine Or.inl ⟨hC.notice x hnt, .push true true true, .sendNoticeLands, by simp, ?_,
      ⟨_, hC', hA'⟩, hn, hf⟩
    simp only [Proto.step, hs, hn, hb, Int.mul_comm]

end SendRel

end CompMatch.Rendezvous

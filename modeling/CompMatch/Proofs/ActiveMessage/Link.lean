/-
What a receive request and its sender keep.

`Ordered` holds whatever the process does in between, as long as no handler runs for
the request inside `b_recv` while the request is ready to receive: every message is in
one place, the messages come in order, and each goes into the buffer in an operation
of its own.
-/
import CompMatch.Proofs.ActiveMessage.Messages

namespace CompMatch.ActiveMessage

/-! ### The invariant and the steps of the sender -/

/-- The program points of an eager `e_recv`. -/
def RecvWait.isEager : RecvWait → Bool
  | .ready | .loop | .progress | .dequeue => true
  | .test | .blocking _ => false

structure Ordered (mode : Mode) (l : Link) : Prop where
  messages : Messages mode l
  history : History l.recv
  peer : PeerOk mode l.peer l.recv.taken.length l.recv.transfers
  fresh : l.recv.req.isReadyToRecv = true ∨ (∃ p, l.pc = .start p) → Fresh l.recv
  ready : l.recv.req.isReadyToRecv = true → l.recv.req.listOfPendingMsgs = []
  dequeue : l.pc = .wait .dequeue → l.recv.req.isReadyToRecv = false
  size : l.peer.loc.req.size = l.recv.req.size
  buf : l.recv.req.buf.length = l.recv.req.size
  peerBuf : l.peer.loc.req.buf.length = l.recv.req.size
  transfers : mode = .eager → l.recv.transfers = [] ∧ l.recv.req.ucxRequestDataTransfer = none
  returned : mode = .eager → ∀ x ∈ l.recv.returned, x.ready = false
  points : ∀ w, l.pc = .wait w → w.isEager = decide (mode = .eager)

section
variable {mode : Mode} {l l' : Link} {q : Peer} {a : PeerAct}

/-- Only the sender moved. -/
theorem Ordered.withPeer (h : Ordered mode l) (hmsg : Messages mode { l with peer := q })
    (hq : PeerOk mode q l.recv.taken.length l.recv.transfers)
    (hsize : q.loc.req.size = l.recv.req.size) (hbuf : q.loc.req.buf.length = l.recv.req.size) :
    Ordered mode { l with peer := q } :=
  ⟨hmsg, h.history, hq, h.fresh, h.ready, h.dequeue, hsize, h.buf, hbuf, h.transfers, h.returned,
    h.points⟩

/-- The sender moved without sending anything. -/
theorem Messages.withPeer (h : Messages mode l) (hflight : q.inFlight = l.peer.inFlight)
    (hpayload : q.payload = l.peer.payload) (hsent : q.sent = l.peer.sent) :
    Messages mode { l with peer := q } := by
  refine h.move ?_ ?_ rfl hpayload hsent
  · simp only [Link.stream, hflight]
  · intro m hm
    rwa [← hflight]

/-- `ucp_am_send_nbx`. -/
theorem Ordered.post (h : Ordered mode l) {ans : SendAnswer} (himm : ans.imm = true → mode = .eager)
    (hpc : l.peer.pc = .start .post) (hrun : l.peer.run mode ans = some q) :
    Ordered mode { l with peer := q } := by
  have hstarts := h.peer.starts hpc
  have hsent : l.peer.sent + 1 = l.peer.loc.starts := by
    simp only [Peer.sent, hpc, if_true]
    omega
  simp only [Peer.run, hpc, bSend, Option.some.injEq] at hrun
  subst hrun
  have hbuf := h.peerBuf
  have htake : l.peer.loc.req.buf.take l.peer.loc.req.size = l.peer.loc.req.buf := by
    rw [h.size]
    exact List.take_of_length_le hbuf.le
  refine h.withPeer ?_ ?_ h.size hbuf
  · refine h.messages.emit hsent.symm ⟨rfl, h.size, ?_⟩ ?_ ?_ rfl rfl
    · intro he
      simp only [he, if_true, htake]
      exact hbuf
    · intro he
      simp only [he, if_true, htake]
      rfl
    · rw [hsent]
      rfl
  · have hland := fun hmode => h.peer.landed hmode (Or.inl (by rw [hpc]; rfl))
    refine ⟨fun he => absurd he (by simp [Peer.emit, Peer.setLoc]),
      fun he => absurd he (by simp [Peer.emit, Peer.setLoc, SendPc.resting]), fun _ => ?_,
      fun hmode _ => ?_, fun _ he => ?_, fun hmode => Or.inl ⟨?_, (hland hmode).2⟩⟩
    · simp [Peer.emit, Peer.setLoc, Local.setTransfer, Local.assert]
    · have hfalse : ans.imm = false := by
        cases himm' : ans.imm with
        | false => rfl
        | true => exact absurd (himm himm') (by rw [hmode]; decide)
      simp [Peer.emit, Peer.setLoc, Local.setTransfer, Local.assert, hfalse]
    · simp [Peer.emit, Peer.setLoc, SendPc.resting] at he
    · rw [(hland hmode).1, hsent]
      rfl

/-- A busy sender goes on without sending anything, and stays busy. -/
theorem PeerOk.goOn {t : Nat} {tr : List Nat} (h : PeerOk mode q t tr) {pc : SendPc} {r : Local}
    (hbusy : q.pc.resting = false) (hpc : pc.resting = false) (hreq : r.req = q.loc.req)
    (hstarts : r.starts = q.loc.starts)
    (hl : mode = .rendezvous → pc = .wait (.blocking (.tested false)) → t = q.sent ∧ tr = []) :
    PeerOk mode (q.setLoc pc r) t tr := by
  have hnot : ∀ pc', pc'.resting = true → pc ≠ pc' := by
    rintro pc' hr rfl
    exact Bool.noConfusion (hr.symm.trans hpc)
  have hsent : (q.setLoc pc r).sent = q.sent := by
    rw [Peer.sent_of_busy hbusy, Peer.sent_of_busy hpc]
    exact hstarts
  refine ⟨fun he => absurd he (hnot _ rfl), fun he => Bool.noConfusion (he.symm.trans hpc),
    fun _ => ?_, fun hmode _ => ?_, fun hmode he => ?_, fun hmode => ?_⟩
  · simp only [Peer.setLoc, hreq, hstarts]
    exact h.payload hbusy
  · simp only [Peer.setLoc, hreq, hstarts]
    exact h.handle hmode hbusy
  · rw [hsent]
    rcases he with he | he
    · exact Bool.noConfusion (he.symm.trans hpc)
    · exact hl hmode he
  · rw [hsent]
    exact h.outstanding hmode

/-- The sender's Wait returns. -/
theorem PeerOk.rest {t : Nat} {tr : List Nat} (h : PeerOk mode q t tr) {r : Local}
    (hbusy : q.pc.resting = false) (hnone : r.req.ucxRequestDataTransfer = none)
    (hstarts : r.starts = q.loc.starts) (hl : mode = .rendezvous → t = q.sent ∧ tr = []) :
    PeerOk mode (q.setLoc .idle r) t tr := by
  have hsent : (q.setLoc .idle r).sent = q.sent := by
    rw [Peer.sent_of_busy hbusy, ← hstarts]
    rfl
  refine ⟨fun he => absurd he (by simp [Peer.setLoc]), fun _ => hnone,
    fun he => absurd he (by simp [Peer.setLoc, SendPc.resting]),
    fun _ he => absurd he (by simp [Peer.setLoc, SendPc.resting]), fun hmode _ => ?_,
    fun hmode => ?_⟩
  · rw [hsent]
    exact hl hmode
  · rw [hsent]
    exact h.outstanding hmode

/-- What UCX may say to a sender that asks whether its message has been fetched. -/
theorem Ordered.complete (h : Ordered mode l) (hm : mode = .rendezvous)
    (hbusy : l.peer.pc.resting = false)
    (hdone : ∀ n ∈ l.peer.loc.req.ucxRequestDataTransfer, l.complete mode n = true) :
    l.recv.taken.length = l.peer.sent ∧ l.recv.transfers = [] := by
  have hc := hdone _ (h.peer.handle hm hbusy)
  simp only [Link.complete, hm, reduceCtorEq, decide_false, Bool.false_or, Bool.and_eq_true,
    List.contains_iff_mem, Bool.not_eq_true', ← Bool.not_eq_true] at hc
  rw [h.messages.taken, List.mem_range'_1, ← Peer.sent_of_busy hbusy] at hc
  rcases h.peer.outstanding hm with ⟨hlt, -⟩ | ⟨ht, htr | htr⟩
  · omega
  · exact ⟨ht, htr⟩
  · rw [htr] at hc
    exact absurd (List.mem_singleton.mpr rfl) hc.2

/-- One step of `b_send` or `e_send`. -/
theorem Ordered.peerRun (h : Ordered mode l) {ans : SendAnswer}
    (himm : ans.imm = true → mode = .eager)
    (hdone : ans.done = true → ∀ n ∈ l.peer.loc.req.ucxRequestDataTransfer, l.complete mode n = true)
    (hrun : l.peer.run mode ans = some q) : Ordered mode { l with peer := q } := by
  have goOn : ∀ (pc : SendPc) (r : Local), l.peer.pc.resting = false → pc.resting = false →
      r.req = l.peer.loc.req → r.starts = l.peer.loc.starts →
      (mode = .rendezvous → pc = .wait (.blocking (.tested false)) →
        l.recv.taken.length = l.peer.sent ∧ l.recv.transfers = []) →
      Ordered mode { l with peer := l.peer.setLoc pc r } := by
    intro pc r hbusy hpc hreq hstarts hl
    have hq := h.peer.goOn hbusy hpc hreq hstarts hl
    refine h.withPeer (h.messages.withPeer rfl rfl ?_) hq ?_ ?_
    · rw [Peer.sent_of_busy hbusy, Peer.sent_of_busy hpc]
      exact hstarts
    · simp only [Peer.setLoc, hreq]
      exact h.size
    · simp only [Peer.setLoc, hreq]
      exact h.peerBuf
  cases hpc : l.peer.pc with
  | idle => simp [Peer.run, hpc] at hrun
  | started => simp [Peer.run, hpc] at hrun
  | start p =>
      cases p with
      | post => exact h.post himm hpc hrun
      | progress =>
          simp only [Peer.run, hpc, bSend, Option.some.injEq] at hrun
          subst hrun
          exact goOn _ _ (by rw [hpc]; rfl) rfl rfl rfl (fun _ he => absurd he (by simp))
  | wait w =>
      have hbusy : l.peer.pc.resting = false := by rw [hpc]; rfl
      have rest : ∀ r : Local, r.req.ucxRequestDataTransfer = none → r.starts = l.peer.loc.starts →
          r.req.size = l.peer.loc.req.size → r.req.buf = l.peer.loc.req.buf →
          (mode = .rendezvous → l.recv.taken.length = l.peer.sent ∧ l.recv.transfers = []) →
          Ordered mode { l with peer := l.peer.setLoc .idle r } := by
        intro r hnone hstarts hsize hbuf hl
        refine h.withPeer (h.messages.withPeer rfl rfl ?_) (h.peer.rest hbusy hnone hstarts hl)
          (hsize.trans h.size) ((congrArg List.length hbuf).trans h.peerBuf)
        rw [Peer.sent_of_busy hbusy, ← hstarts]
        rfl
      cases w with
      | test =>
          simp only [Peer.run, hpc, eSend] at hrun
          by_cases hsome : l.peer.loc.req.ucxRequestDataTransfer.isSome = true
          · simp only [Local.assert, hsome, if_true, Option.some.injEq] at hrun
            subst hrun
            exact goOn _ _ hbusy rfl rfl rfl (fun _ he => absurd he (by simp))
          · have hnone : l.peer.loc.req.ucxRequestDataTransfer = none := by simpa using hsome
            simp only [Local.assert, hnone, Option.isSome_none, Bool.false_eq_true, if_false,
              Option.some.injEq] at hrun
            subst hrun
            refine rest _ hnone rfl rfl rfl (fun hm => ?_)
            rw [h.peer.handle hm hbusy] at hnone
            exact absurd hnone (by simp)
      | blocking p =>
          cases p with
          | progress =>
              simp only [Peer.run, hpc, eSend, waitForCompletionBlocking, Option.some.injEq] at hrun
              subst hrun
              exact goOn _ _ hbusy rfl rfl rfl (fun _ he => absurd he (by simp))
          | check =>
              simp only [Peer.run, hpc, eSend, waitForCompletionBlocking, Option.some.injEq] at hrun
              subst hrun
              refine goOn _ _ hbusy rfl rfl rfl (fun hm he => ?_)
              have hd : ans.done = true := by simpa using he
              exact h.complete hm hbusy (hdone hd)
          | tested b =>
              cases b with
              | true =>
                  simp only [Peer.run, hpc, eSend, waitForCompletionBlocking, Option.some.injEq]
                    at hrun
                  subst hrun
                  exact goOn _ _ hbusy rfl rfl rfl (fun _ he => absurd he (by simp))
              | false =>
                  simp only [Peer.run, hpc, eSend, waitForCompletionBlocking, Option.some.injEq]
                    at hrun
                  subst hrun
                  exact rest _ rfl rfl rfl rfl (fun hm => h.peer.landed hm (Or.inr hpc))

/-- **The sender keeps the invariant.** -/
theorem Ordered.peerStep (h : Ordered mode l) (hs : l.peerStep mode a = some l') :
    Ordered mode l' := by
  unfold Link.peerStep at hs
  split at hs <;> simp only [reduceCtorEq, Option.some.injEq] at hs
  subst hs
  rename_i q hq
  cases a with
  | write bytes =>
      simp only [Peer.step] at hq
      split at hq <;> simp only [reduceCtorEq, Option.some.injEq] at hq
      rename_i hc
      subst hq
      have hp := h.peer
      refine h.withPeer (h.messages.withPeer rfl rfl rfl) ?_ h.size (hc.2.trans h.size)
      refine ⟨hp.starts, hp.transfer, fun he => ?_, hp.handle, hp.landed, hp.outstanding⟩
      rw [show l.peer.pc = .idle from hc.1] at he
      exact absurd he (by decide)
  | start =>
      simp only [Peer.step] at hq
      split at hq <;> simp only [reduceCtorEq, Option.some.injEq] at hq
      rename_i hc
      subst hq
      have hp := h.peer
      have hrest : l.peer.pc.resting = true := by rw [hc.1]; rfl
      have hsent : (l.peer.setLoc (.start .post) l.peer.loc.countStart).sent = l.peer.sent := by
        simp [Peer.sent, Peer.setLoc, Local.countStart, hc.1]
      refine h.withPeer (h.messages.withPeer rfl rfl hsent) ?_ h.size h.peerBuf
      refine ⟨fun _ => Nat.succ_pos _, fun _ => hp.transfer hrest,
        fun he => absurd he (by simp [Peer.setLoc, SendPc.resting]),
        fun _ he => absurd he (by simp [Peer.setLoc, SendPc.resting]), fun hm _ => ?_, fun hm => ?_⟩
      · rw [hsent]
        exact hp.landed hm (Or.inl hrest)
      · rw [hsent]
        exact hp.outstanding hm
  | run ans =>
      simp only [Peer.step] at hq
      split at hq
      · rename_i hc
        exact h.peerRun hc.1 hc.2 hq
      · simp at hq
  | wait =>
      simp only [Peer.step] at hq
      split at hq <;> simp only [reduceCtorEq, Option.some.injEq] at hq
      rename_i hc
      subst hq
      have hbusy : l.peer.pc.resting = false := by rw [hc.1]; rfl
      refine h.withPeer (h.messages.withPeer rfl rfl ?_)
        (h.peer.goOn hbusy rfl rfl rfl (fun _ he => absurd he (by simp))) h.size h.peerBuf
      rw [Peer.sent_of_busy hbusy]
      rfl

end

/-! ### The steps of the receiver -/

/-- A request once a message went into its buffer, with `msgs` left in the list. -/
def Local.taking (mode : Mode) (here : Option (List UInt8)) (msg : AmMsg) (msgs : List AmMsg)
    (b : Bool) (l : Local) : Local :=
  (((l.fill mode here msg).setReady false).setPending msgs).setFailed b

section
variable {mode : Mode} {l l' : Link} {msg : AmMsg} {msgs rest : List AmMsg} {imm b : Bool}
  {pc : RecvPc}

theorem here_length (h : Ordered mode l) {bytes : List UInt8} (hb : l.here imm = some bytes) :
    bytes.length = l.recv.req.size := by
  unfold Link.here at hb
  split at hb <;> simp only [reduceCtorEq, Option.some.injEq] at hb
  exact hb ▸ h.peerBuf

/-- The bytes a message brings have the size of the buffer. -/
theorem bytes_length (h : Ordered mode l) (hm : Fits mode l.recv.req.size msg)
    {bytes : List UInt8} (hb : Local.bytes mode (l.here imm) msg = some bytes) :
    bytes.length = l.recv.req.size := by
  cases mode with
  | eager => exact Option.some.inj hb ▸ hm.data rfl
  | rendezvous => exact here_length h hb

theorem fill_buf_length (h : Ordered mode l) (hm : Fits mode l.recv.req.size msg) :
    (l.recv.fill mode (l.here imm) msg).req.buf.length = l.recv.req.size := by
  rw [fill_buf h.buf (fun _ hb => bytes_length h hm hb)]
  cases hb : Local.bytes mode (l.here imm) msg with
  | none => exact h.buf
  | some bytes => exact bytes_length h hm hb

/-- **A message goes into the buffer**, the first since the last Start. -/
theorem Ordered.take (h : Ordered mode l)
    (hhead : l.recv.req.listOfPendingMsgs ++ l.peer.inFlight = msg :: (msgs ++ rest))
    (hfresh : Fresh l.recv) (hpc : ∀ p, pc ≠ .start p)
    (hpoints : ∀ w, pc = .wait w → w.isEager = decide (mode = .eager)) :
    Ordered mode
      { pc := pc, recv := l.recv.taking mode (l.here imm) msg msgs b,
        peer := { l.peer with inFlight := rest } } := by
  have hn := h.messages.number hhead
  have hm : Fits mode l.recv.req.size msg :=
    h.messages.fits msg (by rw [hhead]; exact List.mem_cons_self)
  have hlt : l.recv.taken.length < l.peer.sent := by
    have hlen := h.messages.length
    have := congrArg List.length hhead
    simp only [List.length_append, List.length_cons] at this
    omega
  refine ⟨?_, ?_, ?_, ?_, fun hr => absurd hr (by simp [Local.taking, Local.setReady,
    Local.setPending, Local.setFailed]), fun _ => rfl, ?_, ?_, ?_, ?_, ?_, hpoints⟩
  · refine h.messages.move ?_ ?_ fill_size rfl rfl
    · simp only [Link.stream, Local.taking, Local.setFailed, Local.setPending, Local.setReady,
        fill_taken, List.map_append, List.append_assoc]
      rw [← List.map_append, ← List.map_append, hhead]
      rfl
    · intro m hin
      rw [hhead]
      exact List.mem_cons_of_mem _ hin
  · exact h.history.take hfresh hn fill_taken fill_starts
  · have hlen : (l.recv.taking mode (l.here imm) msg msgs b).taken.length =
        l.recv.taken.length + 1 := by
      simp [Local.taking, Local.setFailed, Local.setPending, Local.setReady]
    have htr : (l.recv.taking mode (l.here imm) msg msgs b).transfers =
        (l.recv.fill mode (l.here imm) msg).transfers := rfl
    rw [hlen, htr]
    refine (h.peer.withInFlight rest).take (fun _ => ⟨hlt, ?_⟩)
    rw [fill_transfers, hn]
    split
    · exact Or.inr rfl
    · exact Or.inl rfl
  · rintro (hr | ⟨p, hp⟩)
    · simp [Local.taking, Local.setReady, Local.setPending, Local.setFailed] at hr
    · exact absurd hp (hpc p)
  · exact h.size.trans fill_size.symm
  · exact (fill_buf_length h hm).trans fill_size.symm
  · exact h.peerBuf.trans fill_size.symm
  · intro he
    subst he
    exact h.transfers rfl
  · intro he x hx
    rw [show (l.recv.taking mode (l.here imm) msg msgs b).returned = l.recv.returned
      from fill_returned] at hx
    exact h.returned he x hx

/-- The receiver moved, and no message did. -/
theorem Ordered.withRecv (h : Ordered mode l) {r : Local} (htaken : r.taken = l.recv.taken)
    (hpending : r.req.listOfPendingMsgs = l.recv.req.listOfPendingMsgs)
    (hsize : r.req.size = l.recv.req.size) (htransfers : r.transfers = l.recv.transfers)
    (htransfer : r.req.ucxRequestDataTransfer = l.recv.req.ucxRequestDataTransfer ∨
      r.req.ucxRequestDataTransfer = none)
    (hhistory : History r)
    (hfresh : r.req.isReadyToRecv = true ∨ (∃ p, pc = .start p) → Fresh r)
    (hready : r.req.isReadyToRecv = true → r.req.listOfPendingMsgs = [])
    (hdequeue : pc = .wait .dequeue → r.req.isReadyToRecv = false)
    (hbuf : r.req.buf.length = l.recv.req.size)
    (hreturned : mode = .eager → ∀ x ∈ r.returned, x.ready = false)
    (hpoints : ∀ w, pc = .wait w → w.isEager = decide (mode = .eager)) :
    Ordered mode { pc := pc, recv := r, peer := l.peer } := by
  refine ⟨?_, hhistory, ?_, hfresh, hready, hdequeue, h.size.trans hsize.symm,
    hbuf.trans hsize.symm, h.peerBuf.trans hsize.symm, ?_, hreturned, hpoints⟩
  · refine h.messages.move ?_ ?_ hsize rfl rfl
    · simp only [Link.stream, htaken, hpending]
    · intro m hm
      rwa [hpending] at hm
  · rw [htaken, htransfers]
    exact h.peer
  · intro he
    obtain ⟨htr, hhandle⟩ := h.transfers he
    refine ⟨htransfers.trans htr, ?_⟩
    rcases htransfer with ht | ht
    · exact ht.trans hhandle
    · exact ht

/-- Only the program point of the receiver changed. -/
theorem Ordered.withPc (h : Ordered mode l) (hstart : ∀ p, pc ≠ .start p)
    (hdequeue : pc = .wait .dequeue → l.recv.req.isReadyToRecv = false)
    (hpoints : ∀ w, pc = .wait w → w.isEager = decide (mode = .eager)) :
    Ordered mode { l with pc := pc } := by
  refine h.withRecv rfl rfl rfl rfl (Or.inl rfl) h.history ?_ h.ready hdequeue h.buf h.returned
    hpoints
  rintro (hr | ⟨p, hp⟩)
  · exact h.fresh (Or.inl hr)
  · exact absurd hp (hstart p)

/-- A request that does not wait for a message queues it. -/
theorem Ordered.queue (h : Ordered mode l) (hready : l.recv.req.isReadyToRecv = false)
    (hflight : l.peer.inFlight = msg :: rest) :
    Ordered mode
      { l with
        recv := (l.recv.setPending (l.recv.req.listOfPendingMsgs ++ [msg])).setFailed b
        peer := { l.peer with inFlight := rest } } := by
  refine ⟨?_, h.history.of_eq rfl rfl, h.peer.withInFlight rest, ?_, ?_, fun _ => hready, h.size,
    h.buf, h.peerBuf, h.transfers, h.returned, h.points⟩
  · refine h.messages.move ?_ ?_ rfl rfl rfl
    · simp only [Link.stream, Local.setFailed, Local.setPending, hflight, List.map_append,
        List.append_assoc]
      rfl
    · intro m hm
      simp only [Local.setFailed, Local.setPending, List.append_assoc, List.singleton_append] at hm
      rwa [hflight]
  · rintro (hr | hp)
    · exact absurd (hready.symm.trans hr) (by decide)
    · exact h.fresh (Or.inr hp)
  · intro hr
    exact absurd (hready.symm.trans hr) (by decide)

/-- In rendezvous mode there is at most one message to take. -/
theorem Ordered.single (h : Ordered mode l) (hm : mode = .rendezvous) :
    l.recv.req.listOfPendingMsgs.length + l.peer.inFlight.length ≤ 1 := by
  have hlen := h.messages.length
  rcases h.peer.outstanding hm with ⟨hs, -⟩ | ⟨hs, -⟩ <;> omega

/-- **The handler keeps the invariant**, but inside a `b_recv` of a request that is ready. -/
theorem Ordered.deliver (h : Ordered mode l)
    (hpc : l.recv.req.isReadyToRecv = true → ∀ p, l.pc ≠ .start p)
    (hs : l.deliver mode imm = some l') : Ordered mode l' := by
  unfold Link.deliver at hs
  split at hs <;> simp only [reduceCtorEq, Option.some.injEq] at hs
  rename_i msg rest hflight
  subst hs
  have hm : Fits mode l.recv.req.size msg :=
    h.messages.fits msg (by rw [hflight]; exact List.mem_append_right _ List.mem_cons_self)
  cases hr : l.recv.req.isReadyToRecv with
  | true =>
      have hnil := h.ready hr
      have htaking : ∀ b, ((l.recv.fill mode (l.here imm) msg).setReady false).setFailed b =
          l.recv.taking mode (l.here imm) msg [] b := by
        intro b
        rw [Local.taking, ← fill_pending.trans hnil]
        rfl
      rw [handler_of_ready hm hr, htaking]
      exact h.take (by rw [hnil, hflight]; rfl) (h.fresh (Or.inl hr)) (hpc hr) h.points
  | false =>
      rw [handler_of_not_ready hm hr, queue_eq hm]
      · exact h.queue hr hflight
      · intro hmode
        have hone := h.single hmode
        rw [hflight, List.length_cons] at hone
        exact List.length_eq_zero_iff.mp (by omega)

/-- The last part of `b_recv`, called from Start. -/
theorem Ordered.fetch (h : Ordered mode l) (hpc : l.pc = .start .fetch) :
    Ordered mode { l with pc := .started, recv := bRecvFetch mode (l.here imm) l.recv } := by
  have hfresh := h.fresh (Or.inr ⟨_, hpc⟩)
  cases hp : l.recv.req.listOfPendingMsgs with
  | nil =>
      rw [bRecvFetch_nil hp]
      exact h.withRecv rfl rfl rfl rfl (Or.inl rfl) (h.history.of_eq rfl rfl)
        (fun _ => hfresh.of_eq rfl rfl) (fun _ => hp) (by simp) h.buf h.returned (by simp)
  | cons msg msgs =>
      have hr : l.recv.req.isReadyToRecv = false := by
        cases hr : l.recv.req.isReadyToRecv with
        | false => rfl
        | true => exact absurd (hp.symm.trans (h.ready hr)) (by simp)
      have htaking : ∀ b, ((l.recv.fill mode (l.here imm) msg).setPending msgs).setFailed b =
          l.recv.taking mode (l.here imm) msg msgs b := by
        intro b
        rw [Local.taking, ← fill_ready.trans hr]
        rfl
      rw [bRecvFetch_cons hp, htaking]
      · exact h.take (by rw [hp]; rfl) hfresh (by simp) (by simp)
      · intro hmode
        have hone := h.single hmode
        rw [hp, List.length_cons] at hone
        exact List.length_eq_zero_iff.mp (by omega)

/-- A Wait returns. -/
theorem Ordered.finish (h : Ordered mode l) {r : Local} (hr : r = l.recv ∨ r = l.recv.setTransfer none)
    (hready : mode = .eager → l.recv.req.isReadyToRecv = false) :
    Ordered mode { l with pc := .idle, recv := r.recordReturn } := by
  have hkeep : r.taken = l.recv.taken ∧ r.starts = l.recv.starts ∧ r.transfers = l.recv.transfers ∧
      r.returned = l.recv.returned ∧ r.req.isReadyToRecv = l.recv.req.isReadyToRecv ∧
      r.req.listOfPendingMsgs = l.recv.req.listOfPendingMsgs ∧ r.req.size = l.recv.req.size ∧
      r.req.buf = l.recv.req.buf := by
    rcases hr with rfl | rfl <;> exact ⟨rfl, rfl, rfl, rfl, rfl, rfl, rfl, rfl⟩
  obtain ⟨htaken, hstarts, htransfers, hreturned, hflag, hpending, hsize, hbuf⟩ := hkeep
  refine h.withRecv htaken hpending hsize htransfers ?_ (h.history.of_eq htaken hstarts) ?_ ?_
    (by simp) ((congrArg List.length hbuf).trans h.buf) ?_ (by simp)
  · rcases hr with rfl | rfl
    · exact Or.inl rfl
    · exact Or.inr rfl
  · rintro (he | ⟨p, hp⟩)
    · exact (h.fresh (Or.inl (hflag.symm.trans he))).of_eq htaken hstarts
    · exact absurd hp (by simp)
  · intro he
    exact hpending.trans (h.ready (hflag.symm.trans he))
  · intro hmode x hx
    simp only [Local.recordReturn, hreturned, List.mem_append, List.mem_singleton] at hx
    rcases hx with hx | rfl
    · exact h.returned hmode x hx
    · exact hflag.trans (hready hmode)

/-- One step of `b_recv` or `e_recv`. -/
theorem Ordered.run (h : Ordered mode l) (hs : l.run mode imm = some l') : Ordered mode l' := by
  cases hpc : l.pc with
  | idle => simp [Link.run, hpc] at hs
  | started => simp [Link.run, hpc] at hs
  | start p =>
      cases p with
      | progress =>
          simp only [Link.run, hpc, bRecv, Option.some.injEq] at hs
          subst hs
          refine h.withRecv rfl rfl rfl rfl (Or.inl rfl) h.history (fun _ => ?_) h.ready (by simp)
            h.buf h.returned (by simp)
          exact h.fresh (Or.inr ⟨_, hpc⟩)
      | fetch =>
          simp only [Link.run, hpc, bRecv, Option.some.injEq] at hs
          subst hs
          exact h.fetch hpc
  | wait w =>
      have hmode := h.points w hpc
      have next : ∀ w' : RecvWait, w'.isEager = w.isEager →
          (w' = .dequeue → l.recv.req.isReadyToRecv = false) →
          Ordered mode { l with pc := .wait w' } := by
        intro w' hw hd
        refine h.withPc (by simp) (fun he => hd (by simpa using he)) ?_
        rintro w'' he
        cases he
        exact hw.trans hmode
      have hrend : w.isEager = false → mode = .eager → l.recv.req.isReadyToRecv = false := by
        intro hw he
        rw [hw, he] at hmode
        exact absurd hmode (by decide)
      cases w with
      | ready =>
          simp only [Link.run, hpc, eRecv] at hs
          split at hs <;> rename_i heq <;> split at heq <;> cases heq <;> cases hs
          · exact next _ rfl (by simp)
          · rename_i hr
            exact h.finish (Or.inl rfl) (fun _ => by simpa using hr)
      | loop =>
          simp only [Link.run, hpc, eRecv] at hs
          split at hs <;> rename_i heq <;> split at heq <;> cases heq <;> cases hs
          · exact next _ rfl (by simp)
          · rename_i hc
            refine next _ rfl (fun _ => ?_)
            cases hr : l.recv.req.isReadyToRecv with
            | false => rfl
            | true => exact absurd (by rw [hr, h.ready hr]; rfl) hc
      | progress =>
          simp only [Link.run, hpc, eRecv, Option.some.injEq] at hs
          subst hs
          exact next _ rfl (by simp)
      | dequeue =>
          have hr := h.dequeue hpc
          simp only [Link.run, hpc, eRecv, hr, Bool.false_eq_true, if_false, Option.some.injEq] at hs
          subst hs
          exact h.finish (Or.inl rfl) (fun _ => hr)
      | test =>
          simp only [Link.run, hpc, eRecv] at hs
          split at hs <;> rename_i heq <;> split at heq <;> cases heq <;> cases hs
          · exact next _ rfl (by simp)
          · exact h.finish (Or.inl rfl) (hrend rfl)
      | blocking p =>
          cases p with
          | progress =>
              simp only [Link.run, hpc, eRecv, waitForCompletionBlocking, Option.some.injEq] at hs
              subst hs
              exact next _ rfl (by simp)
          | check =>
              simp only [Link.run, hpc, eRecv, waitForCompletionBlocking, Option.some.injEq] at hs
              subst hs
              exact next _ rfl (by simp)
          | tested b =>
              cases b with
              | true =>
                  simp only [Link.run, hpc, eRecv, waitForCompletionBlocking, Option.some.injEq]
                    at hs
                  subst hs
                  exact next _ rfl (by simp)
              | false =>
                  simp only [Link.run, hpc, eRecv, waitForCompletionBlocking, Option.some.injEq]
                    at hs
                  subst hs
                  exact h.finish (Or.inr rfl) (hrend rfl)

/-- The transfer of a message completes. -/
theorem Ordered.lands (h : Ordered mode l) {n : Nat} (hs : l.lands n = some l') :
    Ordered mode l' := by
  unfold Link.lands at hs
  split at hs <;> simp only [reduceCtorEq, Option.some.injEq] at hs
  rename_i hn
  subst hs
  have hmode : mode = .rendezvous := by
    cases mode with
    | rendezvous => rfl
    | eager => exact absurd hn (by rw [(h.transfers rfl).1]; exact List.not_mem_nil)
  obtain ⟨hpeer, -, -, -, -⟩ := h.peer.land hmode hn
  refine ⟨?_, h.history.of_eq rfl rfl, hpeer, fun hf => (h.fresh hf).of_eq rfl rfl, h.ready,
    h.dequeue, h.size, ?_, h.peerBuf, fun he => absurd he (by rw [hmode]; decide), h.returned,
    h.points⟩
  · exact h.messages.move rfl (fun _ hm => hm) rfl rfl rfl
  · exact length_memcpy h.buf h.peerBuf.ge

/-- Either the handler does not run, or not within a `b_recv` of a request that is ready. -/
def Link.Undisturbed (l : Link) : LinkAct → Prop
  | .deliver _ => l.recv.req.isReadyToRecv = true → ∀ p, l.pc ≠ .start p
  | _ => True

/-- **One step keeps the invariant about the messages.** -/
theorem Ordered.step (h : Ordered mode l) {alone : Bool} {a : LinkAct} (hok : l.Undisturbed a)
    (hs : l.step mode alone a = some l') : Ordered mode l' := by
  cases a with
  | peer a => exact h.peerStep hs
  | lands n => exact h.lands hs
  | run imm => exact h.run hs
  | write bytes =>
      simp only [Link.step] at hs
      split at hs <;> simp only [reduceCtorEq, Option.some.injEq] at hs
      rename_i hc
      subst hs
      exact h.withRecv rfl rfl rfl rfl (Or.inl rfl) (h.history.of_eq rfl rfl)
        (fun hf => (h.fresh hf).of_eq rfl rfl) h.ready h.dequeue hc.2 h.returned h.points
  | start =>
      simp only [Link.step] at hs
      split at hs <;> simp only [reduceCtorEq, Option.some.injEq] at hs
      subst hs
      exact h.withRecv rfl rfl rfl rfl (Or.inl rfl) h.history.countStart.1
        (fun _ => h.history.countStart.2) h.ready (by simp) h.buf h.returned (by simp)
  | wait =>
      simp only [Link.step] at hs
      split at hs <;> simp only [reduceCtorEq, Option.some.injEq] at hs
      subst hs
      refine h.withPc (by simp) (fun he => ?_) (fun w he => ?_)
      · cases mode <;> simp [eRecvEntry] at he
      · cases he
        cases mode <;> rfl
  | deliver imm =>
      simp only [Link.step] at hs
      split at hs
      · exact h.deliver hok hs
      · simp at hs
  | mpi amId type backup exchange =>
      simp only [Link.step] at hs
      split at hs <;> simp only [reduceCtorEq, Option.some.injEq] at hs
      subst hs
      exact h.withRecv rfl rfl rfl rfl (Or.inl rfl) (h.history.of_eq rfl rfl)
        (fun hf => (h.fresh hf).of_eq rfl rfl) h.ready h.dequeue h.buf h.returned h.points

theorem ordered_init (h : Link.Init l) : Ordered mode l := by
  obtain ⟨hpc, hpeerPc, -, hsize, hr, hq, hflight⟩ := h
  have hsent : l.peer.sent = 0 := by simp [Peer.sent, hpeerPc, hq.starts]
  refine ⟨⟨?_, ?_, ?_⟩, ⟨?_, ?_, ?_⟩, ?_, ?_, ?_, ?_, hsize, hr.buf, hq.buf.trans hsize, ?_, ?_, ?_⟩
  · simp [Link.stream, hr.taken, hr.pending, hflight, hsent]
  · simp [hr.pending, hflight]
  · simp [hr.pending, hflight]
  · simp [hr.taken]
  · simp [hr.taken]
  · simp [hr.taken]
  · refine ⟨?_, fun _ => hq.transfer, ?_, ?_, ?_, ?_⟩
    · simp [hpeerPc]
    · simp [hpeerPc, SendPc.resting]
    · simp [hpeerPc, SendPc.resting]
    · simp [hr.taken, hr.transfers, hsent]
    · simp [hr.taken, hr.transfers, hsent]
  · rintro (he | ⟨p, he⟩)
    · exact absurd (hr.ready.symm.trans he) (by decide)
    · simp [hpc] at he
  · simp [hr.ready]
  · simp [hpc]
  · exact fun _ => ⟨hr.transfers, hr.transfer⟩
  · simp [hr.returned]
  · simp [hpc]

end

end CompMatch.ActiveMessage

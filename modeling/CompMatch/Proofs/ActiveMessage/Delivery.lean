/-
What the Waits of a receive request see.

In rendezvous mode `e_recv` waits for a transfer that was started, and returns at once
if there is none.  So a Wait is only as good as the Start before it: if the message has
not come by then, Wait returns while the request is still ready to receive.  `Settled`
is what holds as long as that has not happened.
-/
import CompMatch.Lib.Runs
import CompMatch.Proofs.ActiveMessage.Link

namespace CompMatch.ActiveMessage

/-! ### The invariant about the Waits -/

/-- The message of the operation is awaited. -/
structure Awaiting (r : Local) : Prop where
  ready : r.req.isReadyToRecv = true
  taken : r.taken.length + 1 = r.starts
  transfer : r.req.ucxRequestDataTransfer = none
  transfers : r.transfers = []

/-- The message of the operation is in the buffer, or will be once its transfer is complete. -/
structure Filled (payload : Nat → List UInt8) (r : Local) : Prop where
  ready : r.req.isReadyToRecv = false
  taken : r.taken.length = r.starts
  transfers : ∀ n ∈ r.transfers, r.req.ucxRequestDataTransfer = some n
  buf : r.transfers = [] → r.req.buf = payload r.starts

/-- The messages taken are those of `number` operations, and nothing is under way. -/
structure Resting (number : Nat) (r : Local) : Prop where
  ready : r.req.isReadyToRecv = false
  taken : r.taken.length = number
  transfer : r.req.ucxRequestDataTransfer = none
  transfers : r.transfers = []

/-- Where the operation is when the receiver is at a program point. -/
def Phase (payload : Nat → List UInt8) (r : Local) : RecvPc → Prop
  | .idle => Resting r.starts r
  | .start _ => ∃ n, r.starts = n + 1 ∧ Resting n r
  | .started => Awaiting r ∨ Filled payload r
  | .wait .dequeue | .wait (.blocking _) =>
      Filled payload r
  | .wait _ => Awaiting r ∨ Filled payload r

/-- The status of the transfer has been found complete. -/
def RecvPc.tested : RecvPc → Bool
  | .wait (.blocking (.tested false)) => true
  | _ => false

structure Settled (l : Link) : Prop where
  asserted : l.recv.failed = false
  returned : ∀ x ∈ l.recv.returned, x.ready = false ∧ x.arrived = x.number ∧ x.underWay = [] ∧
    x.buf = l.peer.payload x.number ∧ x.number ≤ l.peer.sent
  phase : Phase l.peer.payload l.recv l.pc
  tested : l.pc.tested = true → l.recv.transfers = []

section
variable {mode : Mode} {l l' : Link} {q : Peer} {a : PeerAct} {imm : Bool}
  {payload payload' : Nat → List UInt8} {r r' : Local} {pc : RecvPc}

theorem Filled.of_payload (h : Filled payload r) (hp : payload' r.starts = payload r.starts) :
    Filled payload' r :=
  ⟨h.ready, h.taken, h.transfers, fun he => (h.buf he).trans hp.symm⟩

/-- The payloads of messages that were sent are all that matters. -/
theorem Phase.of_payload {sent : Nat} (h : Phase payload r pc) (ht : r.taken.length ≤ sent)
    (hp : ∀ n, n ≤ sent → payload' n = payload n) : Phase payload' r pc := by
  have hf : Filled payload r → Filled payload' r := fun hf =>
    hf.of_payload (hp _ (hf.taken ▸ ht))
  cases pc with
  | idle => exact h
  | start p => exact h
  | started => exact h.imp id hf
  | wait w =>
      cases w with
      | ready | loop | progress | test => exact Or.imp id hf h
      | dequeue | blocking => exact hf h

/-- What is past was sent. -/
theorem Ordered.taken_le (h : Ordered mode l) : l.recv.taken.length ≤ l.peer.sent := by
  have := h.messages.length
  omega

/-- The sender keeps what it has sent. -/
theorem peerStep_payload (hs : l.peerStep mode a = some l') (hstarts : l.peer.pc = .start .post →
    1 ≤ l.peer.loc.starts) :
    l'.pc = l.pc ∧ l'.recv = l.recv ∧ l.peer.sent ≤ l'.peer.sent ∧
      ∀ n, n ≤ l.peer.sent → l'.peer.payload n = l.peer.payload n := by
  unfold Link.peerStep at hs
  split at hs <;> simp only [reduceCtorEq, Option.some.injEq] at hs
  subst hs
  rename_i q hq
  refine ⟨rfl, rfl, ?_⟩
  cases a with
  | write bytes =>
      simp only [Peer.step] at hq
      split at hq <;> cases hq
      exact ⟨le_refl _, fun _ _ => rfl⟩
  | start =>
      simp only [Peer.step] at hq
      split at hq <;> cases hq
      rename_i hc
      exact ⟨by simp [Peer.sent, Peer.setLoc, Local.countStart, hc.1], fun _ _ => rfl⟩
  | wait =>
      simp only [Peer.step] at hq
      split at hq <;> cases hq
      rename_i hc
      exact ⟨by simp [Peer.sent, Peer.setLoc, hc.1], fun _ _ => rfl⟩
  | run ans =>
      simp only [Peer.step] at hq
      split at hq
      · unfold Peer.run at hq
        split at hq
        · rename_i p hpc
          cases p with
          | post =>
              simp only [bSend, Option.some.injEq] at hq
              subst hq
              have hge := hstarts hpc
              refine ⟨by simp [Peer.sent, Peer.emit, Peer.setLoc, Local.setTransfer, Local.assert,
                hpc], fun n hn => ?_⟩
              simp only [Peer.sent, hpc, if_true] at hn
              simp only [Peer.emit, Peer.setLoc, Local.setTransfer, Local.assert]
              exact Function.update_of_ne (by omega) _ _
          | progress =>
              simp only [bSend, Option.some.injEq] at hq
              subst hq
              exact ⟨by simp [Peer.sent, Peer.setLoc, Peer.emit, hpc], fun _ _ => rfl⟩
        · rename_i w hpc
          have hsent : ∀ (pc : SendPc) (s : Local), pc ≠ .start .post →
              s.starts = l.peer.loc.starts → l.peer.sent ≤ (l.peer.setLoc pc s).sent := by
            intro pc s hne hst
            simp [Peer.sent, Peer.setLoc, hpc, hne, hst]
          have hst : (eSend ans.done w l.peer.loc).2.starts = l.peer.loc.starts :=
            eSend_untouched.starts
          split at hq <;> cases hq <;> rename_i heq <;> rw [heq] at hst
          · exact ⟨hsent _ _ (by simp) hst, fun _ _ => rfl⟩
          · exact ⟨hsent _ _ (by simp) hst, fun _ _ => rfl⟩
          · exact ⟨hsent _ _ (by simp) hst, fun _ _ => rfl⟩
        · simp at hq
      · simp at hq

theorem Settled.peerStep (h : Settled l) (ho : Ordered mode l)
    (hs : l.peerStep mode a = some l') : Settled l' := by
  obtain ⟨hpc, hrecv, hsent, hpay⟩ := peerStep_payload hs ho.peer.starts
  refine ⟨hrecv ▸ h.asserted, ?_, ?_, ?_⟩
  · rw [hrecv]
    intro x hx
    obtain ⟨hr, ha, hu, hb, hn⟩ := h.returned x hx
    exact ⟨hr, ha, hu, hb.trans (hpay _ hn).symm, hn.trans hsent⟩
  · rw [hrecv, hpc]
    exact h.phase.of_payload ho.taken_le hpay
  · rw [hrecv, hpc]
    exact h.tested

/-! ### The receiver -/

/-- Nothing that counts has changed. -/
structure SameBuffer (r r' : Local) : Prop where
  ready : r'.req.isReadyToRecv = r.req.isReadyToRecv
  taken : r'.taken = r.taken
  starts : r'.starts = r.starts
  transfer : r'.req.ucxRequestDataTransfer = r.req.ucxRequestDataTransfer
  transfers : r'.transfers = r.transfers

theorem Resting.of_same {n : Nat} (h : Resting n r) (hs : SameBuffer r r') : Resting n r' :=
  ⟨hs.ready.trans h.ready, by rw [hs.taken]; exact h.taken, hs.transfer.trans h.transfer,
    hs.transfers.trans h.transfers⟩

theorem Awaiting.of_same (h : Awaiting r) (hs : SameBuffer r r') : Awaiting r' :=
  ⟨hs.ready.trans h.ready, by rw [hs.taken, hs.starts]; exact h.taken, hs.transfer.trans h.transfer,
    hs.transfers.trans h.transfers⟩

theorem Filled.of_same (h : Filled payload r) (hs : SameBuffer r r') (hb : r'.req.buf = r.req.buf) :
    Filled payload r' :=
  ⟨hs.ready.trans h.ready, by rw [hs.taken, hs.starts]; exact h.taken,
    by rw [hs.transfers, hs.transfer]; exact h.transfers,
    by rw [hs.transfers, hb, hs.starts]; exact h.buf⟩

theorem Phase.of_same (h : Phase payload r pc) (hs : SameBuffer r r')
    (hb : r'.req.buf = r.req.buf) : Phase payload r' pc := by
  have hf : Filled payload r → Filled payload r' := fun hf => hf.of_same hs hb
  cases pc with
  | idle =>
      simp only [Phase, hs.starts] at h ⊢
      exact h.of_same hs
  | start p =>
      obtain ⟨n, hn, hr⟩ := h
      exact ⟨n, hs.starts.trans hn, hr.of_same hs⟩
  | started => exact Or.imp (·.of_same hs) hf h
  | wait w =>
      cases w with
      | ready | loop | progress | test => exact Or.imp (·.of_same hs) hf h
      | dequeue | blocking => exact hf h

/-- **A message that goes into the buffer is the one of the operation.** -/
theorem filled_take {msg : AmMsg} {msgs rest : List AmMsg} {b : Bool} (ho : Ordered mode l)
    (hhead : l.recv.req.listOfPendingMsgs ++ l.peer.inFlight = msg :: (msgs ++ rest))
    (ht : l.recv.taken.length + 1 = l.recv.starts) (htr : l.recv.transfers = []) :
    Filled l.peer.payload (l.recv.taking mode (l.here imm) msg msgs b) := by
  have hn := ho.messages.number hhead
  have hmem : msg ∈ l.recv.req.listOfPendingMsgs ++ l.peer.inFlight := by
    rw [hhead]
    exact List.mem_cons_self
  have hm : Fits mode l.recv.req.size msg := ho.messages.fits msg hmem
  have hnumber : msg.number = l.recv.starts := hn.trans ht
  refine ⟨rfl, ?_, ?_, ?_⟩
  · have hlen : (l.recv.taking mode (l.here imm) msg msgs b).taken.length =
        l.recv.taken.length + 1 := by
      simp [Local.taking, Local.setFailed, Local.setPending, Local.setReady]
    exact hlen.trans (ht.trans fill_starts.symm)
  · intro n hin
    have hin' : n ∈ (l.recv.fill mode (l.here imm) msg).transfers := hin
    show (l.recv.fill mode (l.here imm) msg).req.ucxRequestDataTransfer = some n
    rw [fill_transfers, htr] at hin'
    split at hin'
    · rename_i hc
      rw [fill_transfer, if_pos hc.1, hc.2]
      exact congrArg some (List.mem_singleton.mp hin').symm
    · exact absurd hin' List.not_mem_nil
  · intro hnone
    show (l.recv.fill mode (l.here imm) msg).req.buf = _
    have hnone' : (l.recv.fill mode (l.here imm) msg).transfers = [] := hnone
    rw [show (l.recv.taking mode (l.here imm) msg msgs b).starts = l.recv.starts from fill_starts,
      ← hnumber, fill_buf ho.buf (fun _ hb => bytes_length ho hm hb)]
    cases mode with
    | eager => exact ho.messages.data rfl msg hmem
    | rendezvous =>
        rw [fill_transfers] at hnone'
        cases hh : l.here imm with
        | none => simp [hh] at hnone'
        | some bytes =>
            have hbytes : bytes = l.peer.loc.req.buf := by
              unfold Link.here at hh
              split at hh <;> simp only [reduceCtorEq, Option.some.injEq] at hh
              exact hh.symm
            have hlt : l.recv.taken.length < l.peer.sent := by
              have hlen := ho.messages.length
              have := congrArg List.length hhead
              simp only [List.length_append, List.length_cons] at this
              omega
            obtain ⟨hbusy, hsent, -⟩ := ho.peer.busy rfl hlt
            simp only [Local.bytes, Option.getD_some]
            rw [hbytes, hn, hsent, Peer.sent_of_busy hbusy]
            exact (ho.peer.payload hbusy).symm

/-- A request that is ready awaits the message of its operation. -/
theorem Phase.awaiting (h : Phase payload r pc) (hr : r.req.isReadyToRecv = true) : Awaiting r := by
  have hfalse : r.req.isReadyToRecv = false → Awaiting r := fun he =>
    Bool.noConfusion (hr.symm.trans he)
  cases pc with
  | idle => exact hfalse h.ready
  | start p =>
      obtain ⟨n, -, hrest⟩ := h
      exact hfalse hrest.ready
  | started => exact h.elim id (fun hf => hfalse hf.ready)
  | wait w =>
      cases w with
      | ready | loop | progress | test => exact Or.elim h id (fun hf => hfalse hf.ready)
      | dequeue | blocking => exact hfalse (Filled.ready h)

/-- A message that is awaited may go into the buffer wherever it is awaited. -/
theorem Phase.fill (h : Phase payload r pc) (hr : r.req.isReadyToRecv = true)
    (hf : Filled payload' r') : Phase payload' r' pc := by
  have hfalse : ∀ {P : Prop}, r.req.isReadyToRecv = false → P := fun he =>
    Bool.noConfusion (hr.symm.trans he)
  cases pc with
  | idle => exact hfalse h.ready
  | start p =>
      obtain ⟨n, -, hrest⟩ := h
      exact hfalse hrest.ready
  | started => exact Or.inr hf
  | wait w =>
      cases w with
      | ready | loop | progress | test => exact Or.inr hf
      | dequeue | blocking => exact hf

theorem Settled.undisturbed (h : Settled l) {a : LinkAct} : l.Undisturbed a := by
  cases a with
  | deliver imm =>
      intro hr p hp
      have hphase := h.phase
      rw [hp] at hphase
      obtain ⟨n, -, hrest⟩ := hphase
      exact Bool.noConfusion (hr.symm.trans hrest.ready)
  | _ => trivial

/-- The handler runs. -/
theorem Settled.deliver (h : Settled l) (ho : Ordered mode l)
    (hs : l.deliver mode imm = some l') : Settled l' := by
  unfold Link.deliver at hs
  split at hs <;> simp only [reduceCtorEq, Option.some.injEq] at hs
  rename_i msg rest hflight
  subst hs
  have hm : Fits mode l.recv.req.size msg :=
    ho.messages.fits msg (by rw [hflight]; exact List.mem_append_right _ List.mem_cons_self)
  cases hr : l.recv.req.isReadyToRecv with
  | true =>
      have hnil := ho.ready hr
      have ha := h.phase.awaiting hr
      have htaking : ∀ b, ((l.recv.fill mode (l.here imm) msg).setReady false).setFailed b =
          l.recv.taking mode (l.here imm) msg [] b := by
        intro b
        rw [Local.taking, ← fill_pending.trans hnil]
        rfl
      rw [handler_of_ready hm hr, htaking]
      refine ⟨?_, ?_, h.phase.fill hr (filled_take ho (by rw [hnil, hflight]; rfl) ha.taken
        ha.transfers), fun ht => ?_⟩
      · simp [Local.taking, Local.setFailed, h.asserted, hnil, ha.transfer]
      · simp only [Local.taking, Local.setFailed, Local.setPending, Local.setReady, fill_returned]
        exact h.returned
      · have hphase := h.phase
        cases hpc : l.pc with
        | wait w =>
            rw [hpc] at hphase ht
            cases w with
            | blocking p => exact Bool.noConfusion (hr.symm.trans (Filled.ready hphase))
            | _ => exact absurd ht (by simp [RecvPc.tested])
        | _ => rw [hpc] at ht; exact absurd ht (by simp [RecvPc.tested])
  | false =>
      have hnil : mode = .rendezvous → l.recv.req.listOfPendingMsgs = [] := by
        intro hmode
        have hone := ho.single hmode
        rw [hflight, List.length_cons] at hone
        exact List.length_eq_zero_iff.mp (by omega)
      rw [handler_of_not_ready hm hr, queue_eq hm hnil]
      refine ⟨?_, h.returned, h.phase.of_same ⟨rfl, rfl, rfl, rfl, rfl⟩ rfl, h.tested⟩
      cases mode with
      | eager => simp [Local.setFailed, h.asserted]
      | rendezvous => simp [Local.setFailed, h.asserted, hnil rfl]

/-- The transfer into the buffer completes. -/
theorem Settled.lands (h : Settled l) (ho : Ordered mode l) {n : Nat}
    (hs : l.lands n = some l') : Settled l' := by
  unfold Link.lands at hs
  split at hs <;> simp only [reduceCtorEq, Option.some.injEq] at hs
  rename_i hn
  subst hs
  have hmode : mode = .rendezvous := by
    cases mode with
    | rendezvous => rfl
    | eager => exact absurd hn (by rw [(ho.transfers rfl).1]; exact List.not_mem_nil)
  obtain ⟨-, -, ht, herase, hbusy⟩ := ho.peer.land hmode hn
  have hnot : l.recv.transfers ≠ [] := List.ne_nil_of_mem hn
  have hfilled : Filled l.peer.payload l.recv →
      Filled l.peer.payload (l.recv.land n l.peer.loc.req.buf) := by
    intro hf
    refine ⟨hf.ready, hf.taken, fun m hm => ?_, fun _ => ?_⟩
    · exact absurd (show m ∈ l.recv.transfers.erase n from hm) (by rw [herase]; exact List.not_mem_nil)
    · show memcpy l.recv.req.buf l.peer.loc.req.buf l.recv.req.size = l.peer.payload l.recv.starts
      rw [memcpy_of_length ho.buf ho.peerBuf, ← hf.taken, ht, Peer.sent_of_busy hbusy]
      exact (ho.peer.payload hbusy).symm
  refine ⟨h.asserted, h.returned, ?_, fun he => absurd (h.tested he) hnot⟩
  have hphase := h.phase
  cases hpc : l.pc with
  | idle =>
      rw [hpc] at hphase
      exact absurd hphase.transfers hnot
  | start p =>
      rw [hpc] at hphase
      obtain ⟨m, -, hrest⟩ := hphase
      exact absurd hrest.transfers hnot
  | started =>
      rw [hpc] at hphase
      exact hphase.elim (fun ha => absurd ha.transfers hnot) (fun hf => Or.inr (hfilled hf))
  | wait w =>
      rw [hpc] at hphase
      cases w with
      | ready | loop | progress | test =>
          exact Or.elim hphase (fun ha => absurd ha.transfers hnot) (fun hf => Or.inr (hfilled hf))
      | dequeue | blocking => exact hfilled hphase

/-- The last part of `b_recv`. -/
theorem Settled.fetch (h : Settled l) (ho : Ordered mode l) (hpc : l.pc = .start .fetch) :
    Settled { l with pc := .started, recv := bRecvFetch mode (l.here imm) l.recv } := by
  have hphase := h.phase
  rw [hpc] at hphase
  obtain ⟨n, hn, hrest⟩ := hphase
  have ht : l.recv.taken.length + 1 = l.recv.starts := by rw [hrest.taken, hn]
  cases hp : l.recv.req.listOfPendingMsgs with
  | nil =>
      rw [bRecvFetch_nil hp]
      exact ⟨h.asserted, h.returned, Or.inl ⟨rfl, ht, hrest.transfer, hrest.transfers⟩,
        fun he => absurd he (by simp [RecvPc.tested])⟩
  | cons msg msgs =>
      have htaking : ∀ b, ((l.recv.fill mode (l.here imm) msg).setPending msgs).setFailed b =
          l.recv.taking mode (l.here imm) msg msgs b := by
        intro b
        rw [Local.taking, ← fill_ready.trans hrest.ready]
        rfl
      rw [bRecvFetch_cons hp, htaking]
      · refine ⟨?_, ?_, Or.inr (filled_take ho (by rw [hp]; rfl) ht hrest.transfers),
          fun he => absurd he (by simp [RecvPc.tested])⟩
        · simp [Local.taking, Local.setFailed, h.asserted, hrest.transfer]
        · simp only [Local.taking, Local.setFailed, Local.setPending, Local.setReady, fill_returned]
          exact h.returned
      · intro hmode
        have hone := ho.single hmode
        rw [hp, List.length_cons] at hone
        exact List.length_eq_zero_iff.mp (by omega)

/-- A Wait returns over a transfer that is complete. -/
theorem Settled.finish (h : Settled l) (ho : Ordered mode l)
    (hf : Filled l.peer.payload l.recv) (htr : l.recv.transfers = [])
    (hr : r = l.recv ∨ r = l.recv.setTransfer none)
    (hnone : r.req.ucxRequestDataTransfer = none) :
    Settled { l with pc := .idle, recv := r.recordReturn } := by
  have hkeep : r.taken = l.recv.taken ∧ r.starts = l.recv.starts ∧ r.transfers = l.recv.transfers ∧
      r.returned = l.recv.returned ∧ r.req.isReadyToRecv = l.recv.req.isReadyToRecv ∧
      r.req.buf = l.recv.req.buf ∧ r.failed = l.recv.failed := by
    rcases hr with rfl | rfl <;> exact ⟨rfl, rfl, rfl, rfl, rfl, rfl, rfl⟩
  obtain ⟨htaken, hstarts, htransfers, hreturned, hready, hbuf, hfailed⟩ := hkeep
  refine ⟨hfailed.trans h.asserted, ?_, ?_, fun he => absurd he (by simp [RecvPc.tested])⟩
  · intro x hx
    simp only [Local.recordReturn, hreturned, List.mem_append, List.mem_singleton] at hx
    rcases hx with hx | rfl
    · exact h.returned x hx
    · refine ⟨hready.trans hf.ready, ?_, htransfers.trans htr, ?_, ?_⟩
      · rw [htaken, hstarts]
        exact hf.taken
      · rw [hbuf, hstarts]
        exact hf.buf htr
      · have := ho.taken_le
        rw [hstarts, ← hf.taken]
        exact this
  · refine ⟨hready.trans hf.ready, ?_, hnone, htransfers.trans htr⟩
    show r.taken.length = r.starts
    rw [htaken, hstarts]
    exact hf.taken

/-- A Wait that returns early shows it. -/
theorem filled_of_returned (hready : ∀ x ∈ r.recordReturn.returned, x.ready = false)
    (h : Awaiting r ∨ Filled payload r) : Filled payload r := by
  rcases h with ha | hf
  · have hlast := hready _ (List.mem_append_right _ (List.mem_singleton.mpr rfl))
    exact Bool.noConfusion (ha.ready.symm.trans hlast)
  · exact hf

/-- One step of `b_recv` or `e_recv` that does not return early. -/
theorem Settled.run (h : Settled l) (ho : Ordered mode l) (hs : l.run mode imm = some l')
    (hready : ∀ x ∈ l'.recv.returned, x.ready = false) : Settled l' := by
  have hphase := h.phase
  cases hpc : l.pc with
  | idle => simp [Link.run, hpc] at hs
  | started => simp [Link.run, hpc] at hs
  | start p =>
      cases p with
      | progress =>
          simp only [Link.run, hpc, bRecv, Option.some.injEq] at hs
          subst hs
          rw [hpc] at hphase
          exact ⟨h.asserted, h.returned, hphase, fun he => absurd he (by simp [RecvPc.tested])⟩
      | fetch =>
          simp only [Link.run, hpc, bRecv, Option.some.injEq] at hs
          subst hs
          exact h.fetch ho hpc
  | wait w =>
      rw [hpc] at hphase
      have hpoint := ho.points w hpc
      have next : ∀ w' : RecvWait, Phase l.peer.payload l.recv (.wait w') →
          (w' = .blocking (.tested false) → l.recv.transfers = []) →
          Settled { l with pc := .wait w' } := by
        intro w' hp ht
        refine ⟨h.asserted, h.returned, hp, fun he => ht ?_⟩
        cases w' with
        | blocking p =>
            cases p with
            | tested b =>
                cases b with
                | false => rfl
                | true => exact absurd he (by simp [RecvPc.tested])
            | _ => exact absurd he (by simp [RecvPc.tested])
        | _ => exact absurd he (by simp [RecvPc.tested])
      have heager : w.isEager = true →
          l.recv.transfers = [] ∧ l.recv.req.ucxRequestDataTransfer = none := by
        intro hw
        exact ho.transfers (of_decide_eq_true (hpoint.symm.trans hw))
      cases w with
      | ready =>
          simp only [Link.run, hpc, eRecv] at hs
          split at hs <;> rename_i heq <;> split at heq <;> cases heq <;> cases hs
          · exact next _ hphase (by simp)
          · exact h.finish ho (filled_of_returned hready hphase) (heager rfl).1 (Or.inl rfl)
              (heager rfl).2
      | loop =>
          simp only [Link.run, hpc, eRecv] at hs
          split at hs <;> rename_i heq <;> split at heq <;> cases heq <;> cases hs
          · exact next _ hphase (by simp)
          · rename_i hc
            refine next _ (Or.elim hphase (fun ha => ?_) id) (by simp)
            exact absurd (by rw [ha.ready, ho.ready ha.ready]; rfl) hc
      | progress =>
          simp only [Link.run, hpc, eRecv, Option.some.injEq] at hs
          subst hs
          exact next _ hphase (by simp)
      | dequeue =>
          have hr := ho.dequeue hpc
          simp only [Link.run, hpc, eRecv, hr, Bool.false_eq_true, if_false, Option.some.injEq] at hs
          subst hs
          exact h.finish ho hphase (heager rfl).1 (Or.inl rfl) (heager rfl).2
      | test =>
          simp only [Link.run, hpc, eRecv] at hs
          split at hs <;> rename_i heq <;> split at heq <;> cases heq <;> cases hs
          · rename_i hsome
            refine next _ (Or.elim hphase (fun ha => ?_) id) (by simp)
            rw [ha.transfer] at hsome
            exact absurd hsome (by decide)
          · rename_i hsome
            have hnone : l.recv.req.ucxRequestDataTransfer = none := by simpa using hsome
            have hf := filled_of_returned hready hphase
            refine h.finish ho hf ?_ (Or.inl rfl) hnone
            refine List.eq_nil_iff_forall_not_mem.mpr (fun n hn => ?_)
            exact absurd ((hf.transfers n hn).symm.trans hnone) (by simp)
      | blocking p =>
          cases p with
          | progress =>
              simp only [Link.run, hpc, eRecv, waitForCompletionBlocking, Option.some.injEq] at hs
              subst hs
              exact next _ hphase (by simp)
          | check =>
              simp only [Link.run, hpc, eRecv, waitForCompletionBlocking, Option.some.injEq] at hs
              subst hs
              refine next _ hphase (fun he => ?_)
              have hdone : l.recv.transferDone = true := by simpa using he
              refine List.eq_nil_iff_forall_not_mem.mpr (fun n hn => ?_)
              rw [Local.transferDone, Filled.transfers hphase n hn] at hdone
              simp only [Bool.not_eq_true', ← Bool.not_eq_true, List.contains_iff_mem] at hdone
              exact hdone hn
          | tested b =>
              cases b with
              | true =>
                  simp only [Link.run, hpc, eRecv, waitForCompletionBlocking, Option.some.injEq]
                    at hs
                  subst hs
                  exact next _ hphase (by simp)
              | false =>
                  simp only [Link.run, hpc, eRecv, waitForCompletionBlocking, Option.some.injEq]
                    at hs
                  subst hs
                  exact h.finish ho hphase (h.tested (by rw [hpc]; rfl)) (Or.inr rfl) rfl

/-- **One step keeps the invariant about the Waits**, if no Wait returns early in it. -/
theorem Settled.step (h : Settled l) (ho : Ordered mode l) {alone : Bool} {a : LinkAct}
    (hs : l.step mode alone a = some l') (hready : ∀ x ∈ l'.recv.returned, x.ready = false) :
    Settled l' := by
  have hphase := h.phase
  cases a with
  | peer a => exact h.peerStep ho hs
  | lands n => exact h.lands ho hs
  | run imm => exact h.run ho hs hready
  | write bytes =>
      simp only [Link.step] at hs
      split at hs <;> cases hs
      rename_i hc
      rw [hc.1] at hphase
      refine ⟨h.asserted, h.returned, ?_, h.tested⟩
      rw [hc.1]
      exact Resting.of_same hphase ⟨rfl, rfl, rfl, rfl, rfl⟩
  | start =>
      simp only [Link.step] at hs
      split at hs <;> cases hs
      rename_i hc
      rw [hc.1] at hphase
      obtain ⟨hr, ht, hh, htr⟩ := hphase
      exact ⟨h.asserted, h.returned, ⟨_, rfl, hr, ht, hh, htr⟩,
        fun he => absurd he (by simp [RecvPc.tested])⟩
  | wait =>
      simp only [Link.step] at hs
      split at hs <;> cases hs
      rename_i hc
      rw [hc.1] at hphase
      cases mode with
      | eager | rendezvous =>
          exact ⟨h.asserted, h.returned, hphase,
            fun he => absurd he (by simp [RecvPc.tested, eRecvEntry])⟩
  | deliver imm =>
      simp only [Link.step] at hs
      split at hs
      · exact h.deliver ho hs
      · simp at hs
  | mpi amId type backup exchange =>
      simp only [Link.step] at hs
      split at hs <;> cases hs
      exact ⟨h.asserted, h.returned, hphase.of_same ⟨rfl, rfl, rfl, rfl, rfl⟩ rfl, h.tested⟩

theorem settled_init (h : Link.Init l) : Settled l := by
  refine ⟨h.recv.failed, ?_, ?_, ?_⟩
  · simp [h.recv.returned]
  · rw [h.pc]
    exact ⟨h.recv.ready, by rw [h.recv.taken, h.recv.starts]; rfl, h.recv.transfer,
      h.recv.transfers⟩
  · simp [h.pc, RecvPc.tested]

theorem Settled.delivers (h : Settled l) : l.Delivers := by
  refine ⟨fun x hx => ?_, h.asserted⟩
  obtain ⟨hr, ha, hu, hb, -⟩ := h.returned x hx
  exact ⟨hr, ha, hu, hb⟩

/-- A step adds to the record of the Waits, and only as one of them returns. -/
theorem step_returned {alone : Bool} {a : LinkAct} (hs : l.step mode alone a = some l') :
    ∃ xs, l'.recv.returned = l.recv.returned ++ xs ∧
      ∀ x ∈ xs, (∃ w, l.pc = .wait w) ∧ (x.ready = true → l.recv.req.isReadyToRecv = true) := by
  have same : l'.recv.returned = l.recv.returned → ∃ xs, l'.recv.returned = l.recv.returned ++ xs ∧
      ∀ x ∈ xs, (∃ w, l.pc = .wait w) ∧ (x.ready = true → l.recv.req.isReadyToRecv = true) :=
    fun he => ⟨[], by rw [he, List.append_nil], by simp⟩
  cases a with
  | peer a =>
      simp only [Link.step, Link.peerStep] at hs
      split at hs <;> cases hs
      exact same rfl
  | lands n =>
      simp only [Link.step, Link.lands] at hs
      split at hs <;> cases hs
      exact same rfl
  | deliver imm =>
      simp only [Link.step, Link.deliver] at hs
      split at hs
      · split at hs <;> cases hs
        exact same handler_untouched.returned
      · simp at hs
  | write bytes | start | wait | mpi amId type backup exchange =>
      simp only [Link.step] at hs
      split at hs <;> cases hs
      exact same rfl
  | run imm =>
      simp only [Link.step, Link.run] at hs
      split at hs
      · split at hs <;> cases hs <;> rename_i heq
        · exact same ((congrArg (·.2.returned) heq).symm.trans bRecv_untouched.returned)
        · exact same ((congrArg (·.2.returned) heq).symm.trans bRecv_untouched.returned)
      · rename_i w hpc
        have hret : (eRecv w l.recv).2.returned = l.recv.returned ∧
            ((eRecv w l.recv).2.req.isReadyToRecv = true → l.recv.req.isReadyToRecv = true) :=
          ⟨eRecv_untouched.returned, eRecv_ready⟩
        split at hs <;> cases hs <;> rename_i heq <;> rw [heq] at hret
        · exact same hret.1
        · exact same hret.1
        · refine ⟨_, congrArg (· ++ _) hret.1, fun x hx => ?_⟩
          obtain rfl := List.mem_singleton.mp hx
          exact ⟨⟨w, hpc⟩, hret.2⟩
      · simp at hs

end

/-! ### A pair that is alone -/

section
variable {mode : Mode} {l l' : Link}

/-- Wait is called once the message of the operation was taken, or its transfer started. -/
def Link.Arrived (l : Link) : LinkAct → Prop
  | .wait => l.recv.req.isReadyToRecv = false
  | _ => True

/-- No Wait is under way on a request that is still ready to receive. -/
def Prompt (l : Link) : Prop := ∀ w, l.pc = .wait w → l.recv.req.isReadyToRecv = false

theorem Prompt.step (h : Prompt l) {alone : Bool} {a : LinkAct} (hok : l.Arrived a)
    (hs : l.step mode alone a = some l') : Prompt l' := by
  -- a step that stays in the Wait, and does not make the request ready
  have keep : l'.pc = l.pc → (l'.recv.req.isReadyToRecv = true → l.recv.req.isReadyToRecv = true) →
      Prompt l' := by
    intro hpc hready w hw
    have hfalse := h w (hpc ▸ hw)
    cases hr : l'.recv.req.isReadyToRecv with
    | false => rfl
    | true => exact (hready hr).symm.trans hfalse
  cases a with
  | peer a =>
      simp only [Link.step, Link.peerStep] at hs
      split at hs <;> cases hs
      exact keep rfl id
  | lands n =>
      simp only [Link.step, Link.lands] at hs
      split at hs <;> cases hs
      exact keep rfl id
  | deliver imm =>
      simp only [Link.step, Link.deliver] at hs
      split at hs
      · split at hs <;> cases hs
        exact keep rfl handler_ready
      · simp at hs
  | write bytes | mpi amId type backup exchange =>
      simp only [Link.step] at hs
      split at hs <;> cases hs
      exact keep rfl id
  | start =>
      simp only [Link.step] at hs
      split at hs <;> cases hs
      exact fun w hw => absurd hw (by simp)
  | wait =>
      simp only [Link.step] at hs
      split at hs <;> cases hs
      exact fun _ _ => hok
  | run imm =>
      simp only [Link.step, Link.run] at hs
      split at hs
      · split at hs <;> cases hs <;> exact fun w hw => absurd hw (by simp)
      · rename_i w hpc
        have hret : (eRecv w l.recv).2.req.isReadyToRecv = true → l.recv.req.isReadyToRecv = true :=
          eRecv_ready
        have hfalse : (eRecv w l.recv).2.req.isReadyToRecv = false := by
          cases hr : (eRecv w l.recv).2.req.isReadyToRecv with
          | false => rfl
          | true => exact (hret hr).symm.trans (h w hpc)
        split at hs <;> cases hs <;> rename_i heq <;> rw [heq] at hfalse
        · exact fun _ _ => hfalse
        · exact fun _ _ => hfalse
        · exact fun w hw => absurd hw (by simp)
      · simp at hs

/-- What a pair keeps whose Waits are called once the message was taken. -/
structure Kept (mode : Mode) (l : Link) : Prop where
  ordered : Ordered mode l
  settled : Settled l
  prompt : Prompt l

theorem Kept.step (h : Kept mode l) {alone : Bool} {a : LinkAct} (hok : l.Arrived a)
    (hs : l.step mode alone a = some l') : Kept mode l' := by
  obtain ⟨ho, hset, hp⟩ := h
  refine ⟨ho.step hset.undisturbed hs, hset.step ho hs ?_, hp.step hok hs⟩
  obtain ⟨xs, hxs, hnew⟩ := step_returned hs
  intro x hx
  rw [hxs, List.mem_append] at hx
  rcases hx with hx | hx
  · exact (hset.returned x hx).1
  · obtain ⟨⟨w, hw⟩, hready⟩ := hnew x hx
    cases hr : x.ready with
    | false => rfl
    | true => exact (hready hr).symm.trans (hp w hw)

/--
**Wait returns with its message**, in every run of a pair that is alone in which each
Wait is called after the message of its operation was taken.
-/
theorem wait_delivers (h : Reach (Link.step .rendezvous true) Link.Arrived Link.Init l) :
    l.Delivers := by
  refine (h.invariant (I := Kept .rendezvous) (fun _ h0 => ⟨ordered_init h0, settled_init h0, ?_⟩)
    fun _ _ _ hk hok hs => hk.step hok hs).settled.delivers
  intro w hw
  exact absurd (h0.pc.symm.trans hw) (by simp)

end

/-! ### Two runs -/

/-- A request of one byte. -/
def freshRequest (type : RequestType) (byte : UInt8) : Local where
  req :=
    { amId := 1, ucxRequestDataTransfer := none, buf := [byte], size := 1, type := type,
      isReadyToRecv := false, listOfPendingMsgs := [], backupRequest := none, tag := 0, dest := 0,
      rdmaExchangeRequest := none }
  transfers := []
  failed := false
  starts := 0
  taken := []
  returned := []

theorem freshRequest_quiet (type : RequestType) (byte : UInt8) :
    Link.Quiet (freshRequest type byte) :=
  ⟨rfl, rfl, rfl, rfl, rfl, rfl, rfl, rfl, rfl, rfl⟩

/-- A connected pair that has done nothing. -/
def freshLink : Link :=
  ⟨.idle, freshRequest .recv 0, ⟨.idle, freshRequest .send 7, [], fun _ => []⟩⟩

theorem freshLink_init : Link.Init freshLink :=
  ⟨rfl, rfl, rfl, rfl, freshRequest_quiet _ _, freshRequest_quiet _ _, rfl⟩

/-- The message is there as the receiver starts. -/
def punctualRun : List LinkAct :=
  [.peer .start, .peer (.run ⟨false, false⟩), .start, .deliver false, .run false, .run false, .wait,
    .run false, .lands 1, .run false, .run false, .run false]

/-- The receiver calls Start and Wait, and no message has come. -/
def earlyRun : List LinkAct := [.start, .run false, .run false, .wait, .run false]

/-- The condition on the steps, as a test. -/
def arrived (l : Link) : LinkAct → Bool
  | .wait => !l.recv.req.isReadyToRecv
  | _ => true

theorem arrived_sound (l : Link) (a : LinkAct) (h : arrived l a = true) : l.Arrived a := by
  cases a with
  | wait => simpa [arrived, Link.Arrived] using h
  | _ => trivial

theorem punctualRun_delivers :
    match runFrom (guarded arrived (Link.step .rendezvous true)) freshLink punctualRun with
    | some l => l.Delivers ∧ l.recv.returned = [⟨1, [7], false, 1, []⟩]
    | none => False := by
  have hrun : (runFrom (guarded arrived (Link.step .rendezvous true)) freshLink punctualRun).any
      (fun l => decide (l.recv.returned = [⟨1, [7], false, 1, []⟩])) = true := by
    decide +kernel
  cases h : runFrom (guarded arrived (Link.step .rendezvous true)) freshLink punctualRun with
  | none => simp [h] at hrun
  | some l =>
      simp only [h, Option.any_some, decide_eq_true_eq] at hrun
      exact ⟨wait_delivers (.of_guarded arrived_sound _ (.init freshLink_init) h), hrun⟩

/-- Wait has returned for the first operation, and its message was not even sent. -/
theorem earlyRun_misses :
    match runFrom (Link.step .rendezvous true) freshLink earlyRun with
    | some l => Reach (Link.step .rendezvous true) anyStep Link.Init l ∧ ¬ l.Delivers ∧
        l.pc = .idle ∧ l.recv.returned = [⟨1, [0], true, 0, []⟩]
    | none => False := by
  have hrun : (runFrom (Link.step .rendezvous true) freshLink earlyRun).any
      (fun l => decide (l.pc = .idle ∧ l.recv.returned = [⟨1, [0], true, 0, []⟩])) = true := by
    decide +kernel
  cases h : runFrom (Link.step .rendezvous true) freshLink earlyRun with
  | none => simp [h] at hrun
  | some l =>
      simp only [h, Option.any_some, decide_eq_true_eq] at hrun
      refine ⟨.of_runFrom _ (.init freshLink_init) h, fun hd => ?_, hrun⟩
      have hfalse := (hd.returned ⟨1, [0], true, 0, []⟩ (by rw [hrun.2]; exact List.mem_singleton_self _)).1
      exact absurd hfalse (by decide)

end CompMatch.ActiveMessage

/-
Whichever path carries an operation, the same bytes are delivered.

What a step does to a request is one of four things.  It leaves its bytes alone
(`Quiet`), or a payload lands in its buffer, or the user starts it, or a Wait on it
returns.  The lemmas of `Bytes.lean` say what is owed after each.

The one length that is not checked against its counterpart is the get's, which the
receiver takes from its own request.  In runs where no get is issued by a request that
is longer than its sender's, every path delivers the same.
-/
import CompMatch.Proofs.Rendezvous.Bytes
import CompMatch.Proofs.Rendezvous.Nesting

namespace CompMatch.Rendezvous

/-! ### Steps that leave the bytes of a request alone -/

/-- Nothing changes that the bytes of a request depend on. -/
structure World.Quiet (w w' : World) (r : Rid) : Prop where
  req : SameBuffer (w.proc.reqs r) (w'.proc.reqs r)
  counterpart : w'.proc.counterpart r = w.proc.counterpart r
  active : w'.proc.active r = w.proc.active r
  landed : w'.landed r = w.landed r
  peer : ByteWorld.SamePeer (w.peers r) (w'.peers r)

section
variable {w w' : World} {r : Rid} {act : WorldAct}

theorem sendRun_same {imm : Bool} {pc pc' : SendPc} {l l' : Local RdmaOp}
    (hrun : sendRun imm pc l = some (pc', l')) :
    Moved l.req l'.req ∧ pc ≠ .idle := by
  cases pc with
  | idle => simp [sendRun] at hrun
  | started => simp [sendRun] at hrun
  | start p =>
      have hm : Moved l.req (bSend id oneEp imm p l).2.req := moved_bSend p
      simp only [sendRun] at hrun
      split at hrun <;> rename_i heq <;> rw [heq] at hm <;> cases hrun <;> exact ⟨hm, by simp⟩
  | wait wt =>
      have hm : Moved l.req (eSend oneEp wt l).2.req := moved_eSend wt
      simp only [sendRun] at hrun
      split at hrun <;> rename_i heq <;> rw [heq] at hm <;> cases hrun <;> exact ⟨hm, by simp⟩

theorem ByteWorld.SamePeer.moved {q : Peer} {pc : SendPc} {l : Local RdmaOp}
    (h : Moved q.loc.req l.req) (hpc : pc ≠ .idle → q.pc ≠ .idle) : ByteWorld.SamePeer q ⟨pc, l⟩ :=
  ⟨h.buffer.buf, h.buffer.size, h.buffer.number, hpc⟩

/-- A sender is in the operation it was in, until its user starts the next one. -/
theorem step_samePeer (hr : r < w.proc.nextRid) (hs : w.step act = some w')
    (hno : act ≠ .peerStart r) : ByteWorld.SamePeer (w.peers r) (w'.peers r) := by
  have hkeep : ∀ {q : Peer}, q = w.peers r → ByteWorld.SamePeer (w.peers r) q := by
    rintro q rfl
    exact .refl _
  have hset : ∀ {q : Rid} {peer : Peer}, (q = r → ByteWorld.SamePeer (w.peers r) peer) →
      ByteWorld.SamePeer (w.peers r) ((w.setPeer q peer).peers r) := by
    intro q peer h
    by_cases hq : q = r
    · subst hq
      simpa only [World.setPeer, Function.update_self] using h rfl
    · exact hkeep (Function.update_of_ne (Ne.symm hq) ..)
  cases act with
  | lands i =>
      simp only [World.step] at hs
      split at hs <;> simp only [reduceCtorEq, Option.some.injEq] at hs
      rename_i x hx
      subst hs
      by_cases hq : r = x.op.1
      · subst hq
        rcases land_peer (w := w.setProc { w.proc with worker := w.proc.worker.retire i }) x.op.1
          x.op.2 with heq | ⟨v, heq⟩
        · exact hkeep heq
        · rw [heq]
          exact ⟨rfl, rfl, rfl, id⟩
      · exact hkeep ((land_frame (w := w.setProc { w.proc with worker := w.proc.worker.retire i })
          x.op.1 x.op.2).2.1 r hq)
  | peerRun q imm =>
      simp only [World.step] at hs
      split at hs
      · rename_i pc l hrun
        split at hs <;> simp only [reduceCtorEq, Option.some.injEq] at hs
        subst hs
        refine hset ?_
        rintro rfl
        obtain ⟨hm, hpc⟩ := sendRun_same hrun
        exact .moved hm fun _ => hpc
      · simp at hs
  | peerStart q =>
      simp only [World.step] at hs
      split at hs <;> simp only [reduceCtorEq, Option.some.injEq] at hs
      subst hs
      exact hset fun hq => absurd (by rw [hq]) hno
  | peerWait q =>
      simp only [World.step] at hs
      split at hs <;> simp only [reduceCtorEq, Option.some.injEq] at hs
      rename_i hpc
      subst hs
      refine hset ?_
      rintro rfl
      exact .moved (.refl _) fun _ => by simp [hpc.1]
  | peerLands q i =>
      simp only [World.step] at hs
      split at hs
      · rename_i x hx
        split at hs <;> simp only [reduceCtorEq, Option.some.injEq] at hs
        subst hs
        obtain ⟨-, -, -, hpeers, -⟩ := landPeer_frame
          (w := w.setPeer q { w.peers q with loc := (w.peers q).loc.retire i }) q x.op
        rw [hpeers]
        refine hset ?_
        rintro rfl
        exact ⟨rfl, rfl, rfl, id⟩
      · simp at hs
  | recvInit args info size =>
      simp only [World.step] at hs
      split at hs <;> simp only [reduceCtorEq, Option.some.injEq] at hs
      subst hs
      exact hkeep (Function.update_of_ne (Nat.ne_of_lt hr) ..)
  | run ans =>
      simp only [World.step] at hs
      split at hs <;> simp only [reduceCtorEq, Option.some.injEq] at hs
      subst hs
      exact hkeep rfl
  | _ =>
      simp only [World.step] at hs
      split at hs <;> simp only [reduceCtorEq, Option.some.injEq] at hs
      subst hs
      exact hkeep rfl

/-- The send buffer stays where it is. -/
theorem step_peerPlace (hr : r < w.proc.nextRid) (hs : w.step act = some w') :
    (w'.peers r).loc.req.buf = (w.peers r).loc.req.buf ∧
      (w'.peers r).loc.req.size = (w.peers r).loc.req.size := by
  by_cases hact : act = .peerStart r
  · subst hact
    simp only [World.step] at hs
    split at hs <;> simp only [reduceCtorEq, Option.some.injEq] at hs
    subst hs
    simp [World.setPeer, Local.countStart]
  · obtain ⟨hbuf, hsize, -, -⟩ := step_samePeer hr hs hact
    exact ⟨hbuf, hsize⟩

/-- Only a Start starts a request, and only a Wait ends its operation. -/
theorem step_active (h : World.Inv w) (hr : r < w.proc.nextRid) (hs : w.step act = some w')
    (hno : act ≠ .start r) :
    w'.proc.active r = w.proc.active r ∨ ((∃ ans, act = .run ans) ∧ w'.proc.active r = false) := by
  cases act with
  | run ans =>
      simp only [World.step] at hs
      split at hs <;> simp only [reduceCtorEq, Option.some.injEq] at hs
      rename_i p c hrun
      subst hs
      exact (Proc.run_active h.shape h.known hrun r).imp id fun ha => ⟨⟨ans, rfl⟩, ha⟩
  | start q =>
      simp only [World.step] at hs
      split at hs <;> simp only [reduceCtorEq, Option.some.injEq] at hs
      subst hs
      refine Or.inl ?_
      rw [World.setProc, (start_frame (p := w.proc) q).2.2.2.1, Function.update_of_ne]
      rintro rfl
      exact hno rfl
  | wait q =>
      simp only [World.step] at hs
      split at hs <;> simp only [reduceCtorEq, Option.some.injEq] at hs
      subst hs
      exact Or.inl (congrFun (wait_frame (p := w.proc) q).2.2.1 r)
  | sendInit args info =>
      simp only [World.step] at hs
      split at hs <;> simp only [reduceCtorEq, Option.some.injEq] at hs
      subst hs
      exact Or.inl (Function.update_of_ne (Nat.ne_of_lt hr) ..)
  | recvInit args info size =>
      simp only [World.step] at hs
      split at hs <;> simp only [reduceCtorEq, Option.some.injEq] at hs
      subst hs
      exact Or.inl (Function.update_of_ne (Nat.ne_of_lt hr) ..)
  | lands i =>
      simp only [World.step] at hs
      split at hs <;> simp only [reduceCtorEq, Option.some.injEq] at hs
      rename_i x hx
      subst hs
      rw [(land_frame (w := w.setProc { w.proc with worker := w.proc.worker.retire i })
        x.op.1 x.op.2).1]
      exact Or.inl rfl
  | peerRun q imm =>
      simp only [World.step] at hs
      split at hs
      · split at hs <;> simp only [reduceCtorEq, Option.some.injEq] at hs
        subst hs
        exact Or.inl rfl
      · simp at hs
  | peerLands q i =>
      simp only [World.step] at hs
      split at hs
      · rename_i x hx
        split at hs <;> simp only [reduceCtorEq, Option.some.injEq] at hs
        subst hs
        obtain ⟨-, -, ⟨reqs, hproc⟩, -, -⟩ := landPeer_frame
          (w := w.setPeer q { w.peers q with loc := (w.peers q).loc.retire i }) q x.op
        rw [hproc]
        exact Or.inl rfl
      · simp at hs
  | _ =>
      simp only [World.step] at hs
      split at hs <;> simp only [reduceCtorEq, Option.some.injEq] at hs
      subst hs
      exact Or.inl rfl

/-- The receives that were posted, after a step that is neither a Start nor one of the process's
own. -/
theorem step_backup {posted delivered : Nat} (h : World.Inv w)
    (hk : Backup w.proc r posted delivered) (hrecv : (w.proc.reqs r).type.isRecv = true)
    (hr : r < w.proc.nextRid) (hs : w.step act = some w') (hstart : ∀ q, act ≠ .start q)
    (hrun : ∀ ans, act ≠ .run ans) : Backup w'.proc r posted delivered := by
  have hact : w'.proc.active r = w.proc.active r :=
    (step_active h hr hs (hstart r)).resolve_right fun ha => hrun _ ha.1.choose_spec
  have hflag : ∀ (q : Rid) (v : Int),
      SameFirst (w.proc.reqs r) ((w.proc.setReq q fun x => { x with flag := v }).reqs r) := by
    intro q v
    by_cases hq : r = q
    · subst hq
      constructor <;> simp [Proc.setReq]
    · rw [Proc.setReq_other hq]
      exact .refl _
  have hnew : ∀ (type : RequestType) (args : Proc.InitArgs) (info : RdmaInfo),
      SameFirst (w.proc.reqs r) ((w.proc.initRequest type args info).1.reqs r) := by
    intro type args info
    rw [show (w.proc.initRequest type args info).1.reqs r = w.proc.reqs r from
      Function.update_of_ne (Nat.ne_of_lt hr) ..]
    exact .refl _
  cases act with
  | start q => exact absurd rfl (hstart q)
  | run ans => exact absurd rfl (hrun ans)
  | wait q =>
      simp only [World.step] at hs
      split at hs <;> simp only [reduceCtorEq, Option.some.injEq] at hs
      rename_i hfree
      subst hs
      exact Proc.backup_wait hk hrecv hfree.1.1
  | sendInit args info =>
      simp only [World.step] at hs
      split at hs <;> simp only [reduceCtorEq, Option.some.injEq] at hs
      subst hs
      exact hk.congr (hnew .sendSearch args info) hact (Or.inl ⟨rfl, id⟩)
  | recvInit args info size =>
      simp only [World.step] at hs
      split at hs <;> simp only [reduceCtorEq, Option.some.injEq] at hs
      subst hs
      exact hk.congr (hnew .recvSearch args info) hact (Or.inl ⟨rfl, id⟩)
  | lands i =>
      simp only [World.step] at hs
      split at hs <;> simp only [reduceCtorEq, Option.some.injEq] at hs
      rename_i x hx
      subst hs
      have hproc := (land_frame (w := w.setProc { w.proc with worker := w.proc.worker.retire i })
        x.op.1 x.op.2).1
      rw [hproc] at hact ⊢
      exact hk.congr (.refl _) hact (Or.inl ⟨rfl, id⟩)
  | writeFlag q v =>
      simp only [World.step] at hs
      split at hs <;> simp only [reduceCtorEq, Option.some.injEq] at hs
      subst hs
      exact hk.congr (hflag q v) hact (Or.inl ⟨rfl, id⟩)
  | peerRun q imm =>
      simp only [World.step] at hs
      split at hs
      · split at hs <;> simp only [reduceCtorEq, Option.some.injEq] at hs
        subst hs
        exact hk
      · simp at hs
  | peerLands q i =>
      simp only [World.step] at hs
      split at hs
      · rename_i x hx
        split at hs <;> simp only [reduceCtorEq, Option.some.injEq] at hs
        subst hs
        unfold World.landPeer at hact ⊢
        split
        · split <;> exact hk
        · exact hk
        · split
          · exact hk.congr (hflag q _) rfl (Or.inl ⟨rfl, id⟩)
          · exact hk
      · simp at hs
  | _ =>
      simp only [World.step] at hs
      split at hs <;> simp only [reduceCtorEq, Option.some.injEq] at hs
      subst hs
      exact hk.congr (.refl _) hact (Or.inl ⟨rfl, id⟩)

/-- What is on the stack, and what the requests it works on are. -/
theorem step_nesting (h : World.Inv w) (hN : w.proc.Nesting False) (hs : w.step act = some w') :
    w'.proc.Nesting False := by
  have hflag : ∀ (q : Rid) (v : Int),
      (w.proc.setReq q fun x => { x with flag := v }).Nesting False := by
    intro q v
    refine hN.congr rfl rfl (Proc.setReq_type rfl) fun r => ?_
    by_cases hr : r = q
    · subst hr
      simp [Proc.setReq]
    · rw [Proc.setReq_other hr]
  cases act with
  | run ans =>
      simp only [World.step] at hs
      split at hs <;> simp only [reduceCtorEq, Option.some.injEq] at hs
      rename_i p c hrun
      subst hs
      exact Proc.nesting_run hN h.shape h.known (fun _ _ _ => False.elim) hrun
  | start q =>
      simp only [World.step] at hs
      split at hs <;> simp only [reduceCtorEq, Option.some.injEq] at hs
      subst hs
      exact Proc.nesting_start hN q
  | wait q =>
      simp only [World.step] at hs
      split at hs <;> simp only [reduceCtorEq, Option.some.injEq] at hs
      subst hs
      exact Proc.nesting_wait hN q
  | sendInit args info =>
      simp only [World.step] at hs
      split at hs <;> simp only [reduceCtorEq, Option.some.injEq] at hs
      rename_i hfree
      subst hs
      exact Proc.nesting_init hN hfree.2 rfl args info
  | recvInit args info size =>
      simp only [World.step] at hs
      split at hs <;> simp only [reduceCtorEq, Option.some.injEq] at hs
      rename_i hfree
      subst hs
      exact Proc.nesting_init hN hfree.2 rfl args info
  | lands i =>
      simp only [World.step] at hs
      split at hs <;> simp only [reduceCtorEq, Option.some.injEq] at hs
      rename_i x hx
      subst hs
      rw [(land_frame (w := w.setProc { w.proc with worker := w.proc.worker.retire i })
        x.op.1 x.op.2).1]
      exact hN.congr rfl rfl (fun _ => rfl) fun _ => rfl
  | writeFlag q v =>
      simp only [World.step] at hs
      split at hs <;> simp only [reduceCtorEq, Option.some.injEq] at hs
      subst hs
      exact hflag q v
  | peerRun q imm =>
      simp only [World.step] at hs
      split at hs
      · split at hs <;> simp only [reduceCtorEq, Option.some.injEq] at hs
        subst hs
        exact hN
      · simp at hs
  | peerLands q i =>
      simp only [World.step] at hs
      split at hs
      · split at hs <;> simp only [reduceCtorEq, Option.some.injEq] at hs
        subst hs
        unfold World.landPeer
        split
        · split <;> exact hN
        · exact hN
        · split
          · exact hflag q _
          · exact hN
      · simp at hs
  | _ =>
      simp only [World.step] at hs
      split at hs <;> simp only [reduceCtorEq, Option.some.injEq] at hs
      subst hs
      exact hN.congr rfl rfl (fun _ => rfl) fun _ => rfl

/-- A step that is neither a Start nor one of the process's own, and moves no payload. -/
theorem quiet_step (h : World.Inv w) (hr : r < w.proc.nextRid) (hs : w.step act = some w')
    (hstart : ∀ q, act ≠ .start q) (hrun : ∀ ans, act ≠ .run ans) (hpeer : act ≠ .peerStart r)
    (hl : w'.landed r = w.landed r) : w.Quiet w' r where
  req := (step_buffer h hs hr hstart).1
  counterpart := (step_buffer h hs hr hstart).2
  active := (step_active h hr hs (hstart r)).resolve_right fun ha => hrun _ ha.1.choose_spec
  landed := hl
  peer := step_samePeer hr hs hpeer

end

/-! ### The invariant -/

/-- Gets are issued by requests of their sender's size. -/
def World.GetsFit (w : World) : Prop :=
  ∀ x ∈ gets w.proc.worker, (w.peers x.op.1).loc.req.size = (w.proc.reqs x.op.1).size

namespace ByteWorld

structure Inv (b : ByteWorld) : Prop where
  data : b.world.DataInv
  nesting : b.world.proc.Nesting False
  fit : b.world.GetsFit
  apart : ∀ q < b.world.proc.nextRid, ∀ r < b.world.proc.nextRid, q ≠ r →
    b.Receiving q → b.Receiving r → (b.reqs q).Apart (b.reqs r)
  /-- Nothing was done for a request that is not there yet. -/
  fresh : ∀ r, b.world.proc.nextRid ≤ r →
    b.messages r = [] ∧ b.posted r = 0 ∧ b.delivered r = 0 ∧ b.accesses r = []
  sent : ∀ r, b.messages r ≠ [] → (b.reqs r).type.isRecv = true
  each : ∀ r < b.world.proc.nextRid, (b.reqs r).type.isRecv = true → b.ReqInv r

section
variable {b : ByteWorld} {w : World} {r : Rid} {act : WorldAct}

theorem follow_world (b : ByteWorld) (w : World) (act : WorldAct) : (b.follow w act).world = w := by
  have hland : ∀ (c : ByteWorld) (q : Rid) (op : RdmaOp), (c.land q op).world = c.world := by
    intro c q op
    cases op <;> rfl
  have hlandPeer : ∀ (c : ByteWorld) (q : Rid) (op : RdmaOp), (c.landPeer q op).world = c.world := by
    intro c q op
    cases op <;> rfl
  cases act with
  | lands i =>
      simp only [follow]
      split
      · exact hland _ _ _
      · rfl
  | peerLands q i =>
      simp only [follow]
      split
      · exact hlandPeer _ _ _
      · rfl
  | _ => rfl

theorem follow_messages (b : ByteWorld) (w : World) (act : WorldAct) :
    (b.follow w act).messages = b.messages := by
  have hland : ∀ (c : ByteWorld) (q : Rid) (op : RdmaOp), (c.land q op).messages = c.messages := by
    intro c q op
    cases op <;> rfl
  have hlandPeer : ∀ (c : ByteWorld) (q : Rid) (op : RdmaOp), (c.landPeer q op).messages = c.messages := by
    intro c q op
    cases op <;> rfl
  cases act with
  | lands i =>
      simp only [follow]
      split
      · exact hland _ _ _
      · rfl
  | peerLands q i =>
      simp only [follow]
      split
      · exact hlandPeer _ _ _
      · rfl
  | _ => rfl

/-- Nothing of the request moves. -/
theorem ReqInv.quiet (h : b.ReqInv r) (hq : b.world.Quiet w r)
    (hk : Backup w.proc r (b.posted r) (b.delivered r)) : (b.goTo w).ReqInv r := by
  have hgo : ReqInv { b.goTo w with posted := b.posted, received := b.received } r :=
    h.goTo hq.req hq.counterpart hq.active hq.landed hq.peer hk rfl
  exact hgo

/-- **A payload lands in the buffer of request `q`**, and in no other. -/
theorem Inv.copy {q : Rid} {t : Transfer} (h : b.Inv) (hs : b.world.step act = some w)
    (hstart : ∀ q, act ≠ .start q) (hrun : ∀ ans, act ≠ .run ans) (hpeer : ∀ q, act ≠ .peerStart q)
    (hu : b.world.Underway q) (hq : q < b.world.proc.nextRid)
    (hland : ∀ r, w.landed r = if r = q then
      b.world.landed q ++ [((b.reqs q).operationNumber, t)] else b.world.landed r)
    (hr : r < b.world.proc.nextRid) (hrecv : (b.reqs r).type.isRecv = true) :
    ((b.goTo w).copy q ⟨(b.peerReq q).buf, (b.peerReq q).size, (b.reqs q).buf⟩).ReqInv r := by
  have hi := h.data.flags.inv
  have hR := h.each r hr hrecv
  have hk := step_backup hi hR.backup hrecv hr hs hstart hrun
  have hact : w.proc.active r = b.world.proc.active r :=
    (step_active hi hr hs (hstart r)).resolve_right fun ha => hrun _ ha.1.choose_spec
  by_cases hqr : r = q
  · subst hqr
    obtain ⟨hreq, hc⟩ := step_buffer hi hs hr hstart
    refine hR.copy (t := t) hu hreq hc hact ?_ (step_samePeer hr hs (hpeer r)) hk
    rw [hland, if_pos rfl]
  · have hquiet := hR.quiet (quiet_step hi hr hs hstart hrun (hpeer r)
      (by rw [hland, if_neg hqr])) hk
    refine hquiet.elsewhere rfl rfl rfl rfl rfl rfl rfl rfl (Function.update_of_ne hqr ..) fun ha => ?_
    have hrecv' : (b.reqs q).type.isRecv = true := by
      rw [show (b.reqs q).type = .recv from hu.type]
      rfl
    have hq' := (h.each q hq hrecv').place.fits
    have hap := h.apart q hq r hr (Ne.symm hqr) ⟨hrecv', hu.active⟩ ⟨hrecv, hact ▸ ha⟩
    have hreq := (step_buffer hi hs hr hstart).1
    refine buffer_writeMem rfl rfl ?_
    have hlen : (readMem (b.peerMem q) (b.peerReq q).buf (b.peerReq q).size).length =
        (b.peerReq q).size := length_readMem ..
    show (b.reqs q).buf + (readMem (b.peerMem q) (b.peerReq q).buf (b.peerReq q).size).length ≤
      (w.proc.reqs r).buf ∨ (w.proc.reqs r).buf + (w.proc.reqs r).size ≤ (b.reqs q).buf
    rw [hlen, hreq.buf, hreq.size]
    exact hap.imp (Nat.le_trans (Nat.add_le_add_left hq' _)) id

theorem each_lands {i : Nat} (h : b.Inv) (hs : b.world.step (.lands i) = some w)
    (hr : r < b.world.proc.nextRid) (hrecv : (b.reqs r).type.isRecv = true) :
    (b.follow w (.lands i)).ReqInv r := by
  have hi := h.data.flags.inv
  have hw := hs
  simp only [World.step] at hw
  split at hw <;> simp only [reduceCtorEq, Option.some.injEq] at hw
  rename_i x hx
  have hfollow : b.follow w (.lands i) = (b.goTo w).land x.op.1 x.op.2 := by simp only [follow, hx]
  rw [hfollow]
  cases hget : x.op.2.isGet with
  | false =>
      have hstill : (b.goTo w).land x.op.1 x.op.2 = b.goTo w ∧ w.landed r = b.world.landed r := by
        rcases hop : x.op with ⟨q, op⟩
        rw [hop] at hget hw
        subst hw
        cases op with
        | get n dst len src => simp [RdmaOp.isGet] at hget
        | put n src len dst => exact ⟨rfl, rfl⟩
        | flag n dst =>
            refine ⟨rfl, ?_⟩
            simp only [World.land]
            split <;> rfl
      rw [hstill.1]
      exact (h.each r hr hrecv).quiet (quiet_step hi hr hs (by simp) (by simp) (by simp) hstill.2)
        (step_backup hi (h.each r hr hrecv).backup hrecv hr hs (by simp) (by simp))
  | true =>
      have hmem : x ∈ b.world.proc.worker.pending :=
        List.mem_of_getElem? (Worker.enabled?_eq_some.mp hx).1
      have hgets : x ∈ gets b.world.proc.worker := List.mem_filter.mpr ⟨hmem, hget⟩
      have hq := hi.known.pending x hmem
      have ht := h.data.gets x hgets
      obtain ⟨a, ha, hun⟩ := h.data.untorn x.op.1 hq (Or.inl ht)
      obtain ⟨hop, hu⟩ := ha.get_lands hun ht hx rfl hget
      have hsize : (b.reqs x.op.1).size = (b.peerReq x.op.1).size := (h.fit x hgets).symm
      have hsrc : (b.world.proc.counterpart x.op.1).dataAddr = (b.peerReq x.op.1).buf :=
        ((h.each x.op.1 hq (by rw [show (b.reqs x.op.1).type = .recv from ht]; rfl)).place.source).symm
      have hland : (b.goTo w).land x.op.1 x.op.2 = (b.goTo w).copy x.op.1
          ⟨(b.peerReq x.op.1).buf, (b.peerReq x.op.1).size, (b.reqs x.op.1).buf⟩ := by
        rw [hop, ← hsrc, ← hsize]
        rfl
      rw [hland]
      refine h.copy (t := .get) hs (by simp) (by simp) (by simp) hu hq (fun r => ?_) hr hrecv
      rw [← hw, hop]
      simp only [World.land, World.setProc, if_true, World.record, Function.update_apply]
      rfl

theorem each_peerLands {q : Rid} {i : Nat} (h : b.Inv) (hs : b.world.step (.peerLands q i) = some w)
    (hp : b.permits (.peerLands q i) = true) (hr : r < b.world.proc.nextRid)
    (hrecv : (b.reqs r).type.isRecv = true) : (b.follow w (.peerLands q i)).ReqInv r := by
  have hi := h.data.flags.inv
  have hw := hs
  simp only [World.step] at hw
  split at hw
  · rename_i x hx
    split at hw <;> simp only [reduceCtorEq, Option.some.injEq] at hw
    rename_i hq
    have hfollow : b.follow w (.peerLands q i) = (b.goTo w).landPeer q x.op := by
      simp only [follow, hx]
    rw [hfollow]
    cases hflag : x.op.isFlag with
    | true =>
        have hstill : (b.goTo w).landPeer q x.op = b.goTo w ∧ w.landed r = b.world.landed r := by
          cases hop : x.op with
          | flag n dst =>
              refine ⟨rfl, ?_⟩
              rw [← hw, hop]
              simp only [World.landPeer]
              split <;> rfl
          | put n src len dst => simp [hop, RdmaOp.isFlag] at hflag
          | get n dst len src => simp [hop, RdmaOp.isFlag] at hflag
        rw [hstill.1]
        exact (h.each r hr hrecv).quiet (quiet_step hi hr hs (by simp) (by simp) (by simp) hstill.2)
          (step_backup hi (h.each r hr hrecv).backup hrecv hr hs (by simp) (by simp))
    | false =>
        have ht : b.world.proc.Tracked q := by
          have hp' : (b.world.proc.reqs q).type.isRecv = true := hp
          cases htype : (b.world.proc.reqs q).type with
          | recv => exact Or.inl htype
          | recvSearch => exact Or.inr htype
          | recvFallback =>
              have := (h.data.fallen q hq htype).put_lands hx
              simp [this] at hflag
          | send => simp [htype, RequestType.isRecv] at hp'
          | sendSearch => simp [htype, RequestType.isRecv] at hp'
          | sendFallback => simp [htype, RequestType.isRecv] at hp'
        obtain ⟨a, ha, -⟩ := h.data.untorn q hq ht
        obtain ⟨hop, hu⟩ := ha.put_lands ht hx hflag
        have hland : (b.goTo w).landPeer q x.op = (b.goTo w).copy q
            ⟨(b.peerReq q).buf, (b.peerReq q).size, (b.reqs q).buf⟩ := by
          rw [hop]
          rfl
        rw [hland]
        refine h.copy (t := .put) hs (by simp) (by simp) (by simp) hu hq (fun r => ?_) hr hrecv
        rw [← hw, hop, hu.peerNumber]
        simp only [World.landPeer, World.setPeer, if_true, World.record, Function.update_apply]
        rfl
  · simp at hw

/-- Nothing has landed yet for the operation a request at rest is to start. -/
theorem Inv.unstarted (h : b.Inv) (hr : r < b.world.proc.nextRid)
    (hrecv : (b.reqs r).type.isRecv = true) (hact : b.world.proc.active r = false) :
    b.delivered r < (b.reqs r).operationNumber + 1 ∧
      transfersOf (b.world.landed r) ((b.reqs r).operationNumber + 1) = 0 := by
  have hk := (h.each r hr hrecv).backup
  have hle := hk.le
  have hfallen : (b.reqs r).type = .recvSearch ∨ (b.reqs r).type = .recvFallback →
      transfersOf (b.world.landed r) ((b.reqs r).operationNumber + 1) = 0 := by
    intro ht
    rw [(h.data.rests hr ht).landed, transfersOf_nil]
  cases ht : (b.reqs r).type with
  | recv =>
      have ht' : (b.world.proc.reqs r).type = .recv := ht
      have hs := hk.settled (by simp [ht'])
      have hcount := hs.count
      have hnum : 1 ≤ (b.reqs r).operationNumber := hs.number
      rw [if_pos ht'] at hcount
      obtain ⟨a, ha, -⟩ := h.data.untorn r hr (Or.inl ht')
      have hcon := ha.receives.connected ht'
      have hlast := Proto.last_rest (Proto.reach_joint ha.reached) (hcon.idle hact).1
      have hn : a.recvNumber = (b.reqs r).operationNumber := hcon.rel.number
      refine ⟨by omega, ?_⟩
      rw [← ha.landed, (Proto.reach_counted ha.reached).count, if_neg (by omega)]
  | recvSearch =>
      have hs := hk.searching ht
      have hzero : (b.reqs r).operationNumber = 0 := by
        have := hs.number
        rwa [if_neg (by simp [hact])] at this
      have hb : ¬ (b.world.proc.reqs r).backupRequest.isSome = true := fun hb => by
        have := hs.started hb
        simp [hact] at this
      have hcount := hs.count
      rw [if_neg hb] at hcount
      exact ⟨by omega, hfallen (Or.inl ht)⟩
  | recvFallback =>
      have ht' : (b.world.proc.reqs r).type = .recvFallback := ht
      have hs := hk.settled (by simp [ht'])
      have hcount : (b.posted r : Int) = (b.reqs r).operationNumber := by
        have := hs.count
        rwa [if_neg (by simp [ht'])] at this
      exact ⟨by omega, hfallen (Or.inr ht)⟩
  | send => simp [ht, RequestType.isRecv] at hrecv
  | sendSearch => simp [ht, RequestType.isRecv] at hrecv
  | sendFallback => simp [ht, RequestType.isRecv] at hrecv

theorem each_start {q : Rid} (h : b.Inv) (hs : b.world.step (.start q) = some w)
    (hr : r < b.world.proc.nextRid) (hrecv : (b.reqs r).type.isRecv = true) :
    (b.follow w (.start q)).ReqInv r := by
  have hi := h.data.flags.inv
  have hR := h.each r hr hrecv
  simp only [World.step] at hs
  split at hs <;> simp only [reduceCtorEq, Option.some.injEq] at hs
  rename_i hfree
  obtain ⟨⟨hcall, -⟩, -, hactive⟩ := hfree
  subst hs
  have hk := Proc.backup_start hR.backup hrecv hcall hactive
  obtain ⟨-, -, hkept, hact, hreqs⟩ := start_frame (p := b.world.proc) q
  have hc := congrFun hkept.counterpart r
  have hposted : (fun x => if (b.world.proc.start q).2 = some (.irecv x) then b.posted x + 1
      else b.posted x) r = b.posted r + posts r (b.world.proc.start q).2 := by
    unfold posts
    dsimp only
    split <;> rfl
  rw [← hposted] at hk
  by_cases hrq : r = q
  · subst hrq
    obtain ⟨hbuf, hsize, -, hnum⟩ := start_buffer (p := b.world.proc) r r
    rw [if_pos rfl] at hnum
    obtain ⟨hdel, hland⟩ := h.unstarted hr hrecv hactive
    refine ⟨hk, hR.sender.congr rfl rfl rfl rfl fun hpc => ⟨hpc, rfl⟩, ?_, ?_⟩
    · refine hR.receiver.start ?_ hsize hnum rfl hactive ?_ ?_ (fun n => ?_) rfl rfl rfl
      · show readMem b.mem _ _ = readMem b.mem _ _
        exact congrArg₂ _ hbuf hsize
      · show (b.world.proc.start r).1.active r = true
        rw [hact, Function.update_self]
      · show ¬ (((b.world.proc.start r).1.reqs r).operationNumber ≤ b.delivered r ∨
          0 < transfersOf (b.world.landed r) ((b.world.proc.start r).1.reqs r).operationNumber)
        have hnum' : ((b.world.proc.start r).1.reqs r).operationNumber =
            (b.reqs r).operationNumber + 1 := hnum
        rw [hnum', hland]
        omega
      · show Function.update b.prior r _ r n = _
        rw [Function.update_self, Function.update_apply]
    · exact hR.place.congr hbuf hsize rfl rfl hc fun _ => Or.inl
  · have hgo : ReqInv { b.goTo (b.world.setProc (b.world.proc.start q).1) with
        posted := fun x => if (b.world.proc.start q).2 = some (.irecv x) then b.posted x + 1 else b.posted x
        received := b.received } r := by
      refine hR.goTo ?_ hc ?_ rfl (.refl _) hk rfl
      · show SameBuffer (b.world.proc.reqs r) ((b.world.proc.start q).1.reqs r)
        rw [hreqs r hrq]
        exact .refl _
      · show (b.world.proc.start q).1.active r = b.world.proc.active r
        rw [hact, Function.update_of_ne hrq]
    exact hgo.elsewhere rfl rfl rfl rfl rfl rfl (Function.update_of_ne hrq ..) rfl rfl fun _ => rfl

/-- When a Wait returns, the payload is in the buffer. -/
theorem landed_of_return (hw : w.Inv) (hr : r < w.proc.nextRid)
    (hrecv : (w.proc.reqs r).type.isRecv = true) {posted : Nat}
    (hk : Backup w.proc r posted (b.delivered r)) (hland : w.landed r = b.world.landed r)
    (hreq : SameBuffer (b.reqs r) (w.proc.reqs r)) (ht : (w.proc.reqs r).type ≠ .recvSearch)
    (hact : w.proc.active r = false) : b.Landed r := by
  have hs := hk.settled ht
  have hall := hs.all (Or.inl hact)
  have hcount := hs.count
  have hnum := hs.number
  unfold Landed
  rw [← hreq.number]
  cases htype : (w.proc.reqs r).type with
  | recv =>
      rw [if_pos htype] at hcount
      by_cases hone : (w.proc.reqs r).operationNumber = 1
      · exact Or.inl (by omega)
      · have hwait := (hw.waitComplete r hr htype hact (by omega)).2.2
        rw [hland] at hwait
        exact Or.inr (hwait ▸ Nat.one_pos)
  | recvSearch => exact absurd htype ht
  | recvFallback =>
      rw [if_neg (by simp [htype])] at hcount
      exact Or.inl (by omega)
  | send => simp [htype, RequestType.isRecv] at hrecv
  | sendSearch => simp [htype, RequestType.isRecv] at hrecv
  | sendFallback => simp [htype, RequestType.isRecv] at hrecv

theorem each_run {ans : Answer} (h : b.Inv) (hok : b.world.FlushedFirst (.run ans))
    (hs : b.world.step (.run ans) = some w) (hp : b.permits (.run ans) = true)
    (hr : r < b.world.proc.nextRid) (hrecv : (b.reqs r).type.isRecv = true) :
    (b.follow w (.run ans)).ReqInv r := by
  have hi := h.data.flags.inv
  have hR := h.each r hr hrecv
  have hw' := (dataInv_step h.data hok hs).flags.inv
  have hrecv' := (step_isRecv hi hs hr).trans hrecv
  have htype := step_type hi hs hr
  simp only [World.step] at hs
  split at hs <;> simp only [reduceCtorEq, Option.some.injEq] at hs
  rename_i p c hrun
  subst hs
  have hkept := (Proc.run_control hi.shape hi.known hrun).2.2
  have hreq : SameBuffer (b.world.proc.reqs r) (p.reqs r) := Proc.run_buffer hrun r
  have hc : p.counterpart r = b.world.proc.counterpart r := congrFun hkept.counterpart r
  have hk : Backup p r (b.posted r + posts r c) (b.delivered r) := by
    refine Proc.backup_run hR.backup hi.shape hi.known hrecv
      (fun below hn => (h.nesting.recv r below hn).1) (fun x hx htest hflag => ?_) hrun
    subst hx
    simpa only [permits, hrun, Option.bind_some, htest, hflag, hrecv, Bool.not_true, Bool.false_or,
      beq_iff_eq] using hp
  have hposted : (fun x => if c = some (.irecv x) then b.posted x + 1 else b.posted x) r =
      b.posted r + posts r c := by
    unfold posts
    dsimp only
    split <;> rfl
  have hfollow : b.follow (b.world.setProc p) (.run ans) = { b.goTo (b.world.setProc p) with
      posted := fun x => if c = some (.irecv x) then b.posted x + 1 else b.posted x
      received := b.returns (b.world.setProc p) } := by
    simp only [follow, hrun, Option.bind_some]
    rfl
  rw [hfollow]
  rw [← hposted] at hk
  by_cases hreturn : b.world.proc.active r = true ∧ p.active r = false
  · obtain ⟨hact, hact'⟩ := hreturn
    have ht : (p.reqs r).type ≠ .recvSearch := by
      intro ht
      have hnum := (hk.searching ht).number
      rw [if_neg (by simp [hact'])] at hnum
      have hold : (b.world.proc.reqs r).type = .recvSearch := by
        rcases htype with heq | ⟨-, heq | heq⟩ | ⟨heq, -⟩
        · exact heq.symm.trans ht
        · exact absurd (heq.symm.trans ht) (by simp)
        · exact absurd (heq.symm.trans ht) (by simp)
        · exact heq
      have hone := (hR.backup.searching hold).number
      rw [if_pos hact] at hone
      have := hreq.number
      omega
    have hland := landed_of_return hw' (by rw [World.setProc, hkept.nextRid]; exact hr) hrecv' hk rfl
      hreq ht hact'
    refine ⟨hk, hR.sender.congr rfl rfl rfl rfl fun hpc => ⟨hpc, rfl⟩, ?_,
      hR.place.congr hreq.buf hreq.size rfl rfl hc fun _ => Or.inl⟩
    refine hR.receiver.return hreq rfl hact hact' hland rfl rfl rfl fun n => ?_
    show b.returns (b.world.setProc p) r n = _
    unfold returns
    by_cases hn : n = (b.reqs r).operationNumber
    · rw [if_pos ⟨hact, hact', hn⟩, if_pos hn]
    · rw [if_neg fun h => hn h.2.2, if_neg hn]
  · have hact : p.active r = b.world.proc.active r := by
      rcases Proc.run_active hi.shape hi.known hrun r with ha | ha
      · exact ha
      · rw [ha]
        exact (by simpa [ha] using hreturn : b.world.proc.active r = false).symm
    refine hR.goTo hreq hc hact rfl (.refl _) hk (funext fun n => ?_)
    unfold returns
    exact if_neg fun h => hreturn ⟨h.1, h.2.1⟩

theorem each_peerStart {q : Rid} (h : b.Inv) (hs : b.world.step (.peerStart q) = some w)
    (hp : b.permits (.peerStart q) = true) (hr : r < b.world.proc.nextRid)
    (hrecv : (b.reqs r).type.isRecv = true) : (b.follow w (.peerStart q)).ReqInv r := by
  have hi := h.data.flags.inv
  have hR := h.each r hr hrecv
  by_cases hrq : r = q
  · subst hrq
    have hone : (b.messages r).length = 1 := by
      simp only [permits, Bool.and_eq_true, beq_iff_eq] at hp
      exact hp.1.2
    simp only [World.step] at hs
    split at hs <;> simp only [reduceCtorEq, Option.some.injEq] at hs
    subst hs
    have hpeer : (b.follow (b.world.setPeer r { b.world.peers r with
        pc := .start .test, loc := (b.world.peers r).loc.countStart }) (.peerStart r)).peerReq r =
          { b.peerReq r with operationNumber := (b.peerReq r).operationNumber + 1 } := by
      simp only [peerReq, follow_world, World.setPeer, Function.update_self]
      rfl
    refine hR.peerStarts ⟨rfl, rfl, ?_, ?_, rfl, rfl, rfl, rfl, rfl, rfl⟩ hone ?_ rfl rfl fun n => ?_
    · rw [hpeer]
    · rw [hpeer]
    · rw [hpeer]
    · show Function.update b.sent r (Function.update (b.sent r) _ _) r n = _
      rw [Function.update_self, Function.update_apply]
  · have hquiet := hR.quiet (quiet_step hi hr hs (by simp) (by simp) ?_ ?_)
      (step_backup hi hR.backup hrecv hr hs (by simp) (by simp))
    · exact hquiet.elsewhere rfl rfl rfl rfl rfl (Function.update_of_ne hrq ..) rfl rfl rfl fun _ => rfl
    · simpa using Ne.symm hrq
    · simp only [World.step] at hs
      split at hs <;> simp only [reduceCtorEq, Option.some.injEq] at hs
      subst hs
      rfl

/-- A request that was just initialised. -/
theorem each_recvInit {args : Proc.InitArgs} {info : RdmaInfo} {size : Nat} (h : b.Inv)
    (hs : b.world.step (.recvInit args info size) = some w)
    (hp : b.permits (.recvInit args info size) = true) :
    (b.follow w (.recvInit args info size)).ReqInv b.world.proc.nextRid := by
  have hfit : size ≤ args.size := by simpa [permits] using hp
  simp only [World.step] at hs
  split at hs <;> simp only [reduceCtorEq, Option.some.injEq] at hs
  rename_i hfree
  subst hs
  obtain ⟨hmsg, hposted, hdel, hacc⟩ := h.fresh b.world.proc.nextRid (Nat.le_refl _)
  have hpeer : (b.follow ((b.world.setProc (b.world.proc.initRequest .recvSearch args info).1).setPeer
      b.world.proc.nextRid (.connected args info size)) (.recvInit args info size)).world.peers
        b.world.proc.nextRid = .connected args info size := by
    simp only [follow_world, World.setPeer, Function.update_self]
  have hnew : New (b.world.proc.initRequest .recvSearch args info).1 b.world.proc.nextRid := by
    constructor <;> simp [Proc.initRequest, hfree.1]
  refine ReqInv.new hnew ?_ ?_ ?_ ?_ hmsg hposted hdel hacc
  · rw [hpeer]
    rfl
  · rw [peerReq, hpeer]
    rfl
  · rw [peerReq, hpeer]
    simpa [Peer.connected, reqs, follow, goTo, World.setPeer, World.setProc, Proc.initRequest] using hfit
  · rw [peerReq, hpeer]
    simp [Peer.connected, follow, goTo, World.setPeer, World.setProc, Proc.initRequest]

/-- **What a step of the world leaves to every request.** -/
theorem each_follow (h : b.Inv) (hok : b.world.FlushedFirst act) (hs : b.world.step act = some w)
    (hp : b.permits act = true) (hr : r < w.proc.nextRid)
    (hrecv : (w.proc.reqs r).type.isRecv = true) : (b.follow w act).ReqInv r := by
  have hi := h.data.flags.inv
  by_cases hlt : r < b.world.proc.nextRid
  · have hrecv' : (b.reqs r).type.isRecv = true := (step_isRecv hi hs hlt).symm.trans hrecv
    have hquiet : (∀ q, act ≠ .start q) → (∀ ans, act ≠ .run ans) → act ≠ .peerStart r →
        w.landed r = b.world.landed r → (b.goTo w).ReqInv r := fun hstart hrun hpeer hl =>
      (h.each r hlt hrecv').quiet (quiet_step hi hlt hs hstart hrun hpeer hl)
        (step_backup hi (h.each r hlt hrecv').backup hrecv' hlt hs hstart hrun)
    cases act with
    | start q => exact each_start h hs hlt hrecv'
    | run ans => exact each_run h hok hs hp hlt hrecv'
    | lands i => exact each_lands h hs hlt hrecv'
    | peerStart q => exact each_peerStart h hs hp hlt hrecv'
    | peerLands q i => exact each_peerLands h hs hp hlt hrecv'
    | peerRun q imm =>
        refine hquiet (by simp) (by simp) (by simp) ?_
        simp only [World.step] at hs
        split at hs
        · split at hs <;> simp only [reduceCtorEq, Option.some.injEq] at hs
          subst hs
          rfl
        · simp at hs
    | _ =>
        refine hquiet (by simp) (by simp) (by simp) ?_
        simp only [World.step] at hs
        split at hs <;> simp only [reduceCtorEq, Option.some.injEq] at hs
        subst hs
        rfl
  · obtain ⟨rfl, ⟨args, info, rfl⟩ | ⟨args, info, size, rfl⟩⟩ := step_new hi hs hr hlt
    · simp only [World.step] at hs
      split at hs <;> simp only [reduceCtorEq, Option.some.injEq] at hs
      subst hs
      simp [World.setProc, Proc.initRequest, RequestType.isRecv] at hrecv
    · exact each_recvInit h hs hp

/-- Nothing is done for a request that is not there yet. -/
theorem fresh_follow (h : b.Inv) (hs : b.world.step act = some w) (hr : b.world.proc.nextRid ≤ r) :
    (b.follow w act).messages r = b.messages r ∧ (b.follow w act).posted r = b.posted r ∧
      (b.follow w act).delivered r = b.delivered r ∧ (b.follow w act).accesses r = b.accesses r := by
  have hi := h.data.flags.inv
  have hne : ∀ {q : Rid}, q < b.world.proc.nextRid → r ≠ q := fun hq => Nat.ne_of_gt (Nat.lt_of_lt_of_le hq hr)
  cases act with
  | start q =>
      simp only [World.step] at hs
      split at hs <;> simp only [reduceCtorEq, Option.some.injEq] at hs
      rename_i hfree
      have hq := hi.known.list q hfree.2.1
      exact ⟨rfl, if_neg fun hc => hne hq (Proc.start_posts hc), rfl, rfl⟩
  | run ans =>
      simp only [World.step] at hs
      split at hs <;> simp only [reduceCtorEq, Option.some.injEq] at hs
      rename_i p c hrun
      refine ⟨rfl, ?_, rfl, rfl⟩
      simp only [follow, hrun, Option.bind_some, call]
      refine if_neg fun hc => hne ?_ rfl
      subst hc
      exact Proc.run_posts hi.known hrun
  | lands i =>
      simp only [World.step] at hs
      split at hs <;> simp only [reduceCtorEq, Option.some.injEq] at hs
      rename_i x hx
      have hq := hi.known.pending x (List.mem_of_getElem? (Worker.enabled?_eq_some.mp hx).1)
      simp only [follow, hx]
      unfold land
      split
      · exact ⟨rfl, rfl, rfl, Function.update_of_ne (hne hq) ..⟩
      · exact ⟨rfl, rfl, rfl, rfl⟩
      · exact ⟨rfl, rfl, rfl, rfl⟩
  | peerLands q i =>
      simp only [World.step] at hs
      split at hs
      · rename_i x hx
        split at hs <;> simp only [reduceCtorEq, Option.some.injEq] at hs
        rename_i hq
        simp only [follow, hx]
        unfold landPeer
        split
        · exact ⟨rfl, rfl, rfl, Function.update_of_ne (hne hq) ..⟩
        · exact ⟨rfl, rfl, rfl, rfl⟩
        · exact ⟨rfl, rfl, rfl, rfl⟩
      · simp at hs
  | _ => exact ⟨rfl, rfl, rfl, rfl⟩

/-- Receives that are not over do not overlap. -/
theorem apart_follow (h : b.Inv) (hs : b.world.step act = some w) (hp : b.permits act = true) {q : Rid}
    (hq : q < w.proc.nextRid) (hr : r < w.proc.nextRid) (hqr : q ≠ r)
    (hrq : (b.follow w act).Receiving q) (hrr : (b.follow w act).Receiving r) :
    ((b.follow w act).reqs q).Apart ((b.follow w act).reqs r) := by
  have hi := h.data.flags.inv
  simp only [Receiving, reqs, follow_world] at hrq hrr ⊢
  have hold : ∀ {x : Rid}, x < w.proc.nextRid → w.proc.active x = true → x < b.world.proc.nextRid := by
    intro x hx ha
    by_contra hno
    obtain ⟨rfl, ⟨args, info, rfl⟩ | ⟨args, info, size, rfl⟩⟩ := step_new hi hs hx hno <;>
      simp only [World.step] at hs <;> split at hs <;>
      simp only [reduceCtorEq, Option.some.injEq] at hs <;> subst hs <;>
      simp [World.setProc, World.setPeer, Proc.initRequest] at ha
  have hq' := hold hq hrq.2
  have hr' := hold hr hrr.2
  have hwas : ∀ {x : Rid}, x < b.world.proc.nextRid → act ≠ .start x →
      (w.proc.reqs x).type.isRecv = true ∧ w.proc.active x = true → b.Receiving x := by
    intro x hx hact hrecv
    refine ⟨(step_isRecv hi hs hx).symm.trans hrecv.1, ?_⟩
    rcases step_active hi hx hs hact with ha | ⟨-, ha⟩
    · exact ha.symm.trans hrecv.2
    · simp [ha] at hrecv
  have hplace : ∀ {x y : Rid}, x < b.world.proc.nextRid → y < b.world.proc.nextRid →
      (b.reqs x).Apart (b.reqs y) → (w.proc.reqs x).Apart (w.proc.reqs y) := by
    intro x y hx hy hap
    have hpx := step_place hi hs hx
    have hpy := step_place hi hs hy
    unfold MpioptRequest.Apart at hap ⊢
    rw [hpx.buf, hpx.size, hpy.buf, hpy.size]
    exact hap
  have hbegin : ∀ {x y : Rid}, act = .start y → x ≠ y → x < b.world.proc.nextRid →
      (w.proc.reqs x).type.isRecv = true ∧ w.proc.active x = true → y < b.world.proc.nextRid →
      (w.proc.reqs y).type.isRecv = true → (b.reqs x).Apart (b.reqs y) := by
    rintro x y rfl hxy hx hrx hy hry
    simp only [permits, decide_eq_true_eq] at hp
    exact hp ((step_isRecv hi hs hy).symm.trans hry) x hx (hwas hx (by simpa using Ne.symm hxy) hrx)
  by_cases hstart : act = .start r
  · exact hplace hq' hr' (hbegin hstart hqr hq' hrq hr' hrr.1)
  by_cases hstart' : act = .start q
  · exact (hplace hr' hq' (hbegin hstart' (Ne.symm hqr) hr' hrr hq' hrq.1)).symm
  · exact hplace hq' hr' (h.apart q hq' r hr' hqr (hwas hq' hstart' hrq) (hwas hr' hstart hrr))

/-- A step issues gets that fit only. -/
theorem fit_step (h : b.Inv) (hok : b.world.FlushedFirst act) (hs : b.world.step act = some w)
    (hfit : b.FetchFits (.world act)) : w.GetsFit := by
  have hi := h.data.flags.inv
  have hkeep : ∀ {q : Rid}, q < b.world.proc.nextRid →
      (b.world.peers q).loc.req.size = (b.world.proc.reqs q).size →
        (w.peers q).loc.req.size = (w.proc.reqs q).size := by
    intro q hq heq
    rw [(step_peerPlace hq hs).2, (step_place hi hs hq).size]
    exact heq
  have hknown := (dataInv_step h.data hok hs).flags.inv.known
  intro x hx
  obtain ⟨hmem, hget⟩ := List.mem_filter.mp hx
  have hold : x ∈ gets b.world.proc.worker → (w.peers x.op.1).loc.req.size = (w.proc.reqs x.op.1).size :=
    fun hx => hkeep (hi.known.pending x (List.mem_filter.mp hx).1) (h.fit x hx)
  by_cases hrun : ∃ ans, act = .run ans
  · obtain ⟨ans, rfl⟩ := hrun
    have hlt := hknown.pending x hmem
    simp only [World.step] at hs
    split at hs <;> simp only [reduceCtorEq, Option.some.injEq] at hs
    rename_i p c hrun
    subst hs
    rcases Proc.run_gets hrun hx with hx | hf
    · exact hold hx
    · refine hkeep ?_ (hfit ans x.op.1 rfl hf)
      rwa [World.setProc, (Proc.run_control hi.shape hi.known hrun).2.2.nextRid] at hlt
  · exact hold (List.mem_filter.mpr ⟨step_pending hs (fun ans ha => hrun ⟨ans, ha⟩) x hmem, hget⟩)

theorem inv_follow (h : b.Inv) (hok : b.world.FlushedFirst act) (hfit : b.FetchFits (.world act))
    (hs : b.world.step act = some w) (hp : b.permits act = true) : (b.follow w act).Inv := by
  have hle := (step_own h.data.flags.inv hs).1
  refine ⟨?_, ?_, ?_, fun q hq r hr hqr => ?_, fun r hr => ?_, fun r hmsg => ?_, fun r hr hrecv => ?_⟩
  · rw [follow_world]
    exact dataInv_step h.data hok hs
  · rw [follow_world]
    exact step_nesting h.data.flags.inv h.nesting hs
  · rw [follow_world]
    exact fit_step h hok hs hfit
  · rw [follow_world] at hq hr
    exact apart_follow h hs hp hq hr hqr
  · rw [follow_world] at hr
    obtain ⟨h1, h2, h3, h4⟩ := fresh_follow h hs (Nat.le_trans hle hr)
    rw [h1, h2, h3, h4]
    exact h.fresh r (Nat.le_trans hle hr)
  · rw [follow_messages] at hmsg
    have hr : r < b.world.proc.nextRid := by
      by_contra hno
      exact hmsg (h.fresh r (Nat.le_of_not_lt hno)).1
    rw [reqs, follow_world, step_isRecv h.data.flags.inv hs hr]
    exact h.sent r hmsg
  · rw [follow_world] at hr
    rw [reqs, follow_world] at hrecv
    exact each_follow h hok hs hp hr hrecv

/-! ### What the users and MPI do -/

theorem inv_write {b' : ByteWorld} {m : Mem} (h : b.Inv) (hs : b.step (.write m) = some b') : b'.Inv := by
  simp only [step] at hs
  split at hs <;> simp only [reduceCtorEq, Option.some.injEq] at hs
  rename_i hkeep
  subst hs
  refine ⟨h.data, h.nesting, h.fit, h.apart, h.fresh, h.sent, fun r hr hrecv => ?_⟩
  exact (h.each r hr hrecv).elsewhere rfl rfl rfl rfl rfl rfl rfl rfl rfl fun ha =>
    readMem_congr (hkeep.2 r hr ⟨hrecv, ha⟩)

theorem inv_peerWrite {b' : ByteWorld} {q : Rid} {m : Mem} (h : b.Inv)
    (hs : b.step (.peerWrite q m) = some b') : b'.Inv := by
  simp only [step] at hs
  split at hs <;> simp only [reduceCtorEq, Option.some.injEq] at hs
  rename_i hkeep
  subst hs
  refine ⟨h.data, h.nesting, h.fit, h.apart, h.fresh, h.sent, fun r hr hrecv => ?_⟩
  have hR := h.each r hr hrecv
  refine hR.sends ⟨rfl, rfl, rfl, rfl, rfl, rfl, rfl, rfl, rfl, rfl⟩ ?_ (Int.le_refl _) fun _ _ => rfl
  refine hR.sender.congr rfl rfl rfl rfl fun hpc => ⟨hpc, ?_⟩
  by_cases hq : r = q
  · subst hq
    show readMem (Function.update b.peerMem r m r) _ _ = _
    rw [Function.update_self]
    exact readMem_congr (hkeep hpc)
  · show readMem (Function.update b.peerMem q m r) _ _ = _
    rw [Function.update_of_ne hq]
    rfl

theorem inv_peerSend {b' : ByteWorld} {q : Rid} (h : b.Inv) (hs : b.step (.peerSend q) = some b') :
    b'.Inv := by
  simp only [step] at hs
  split at hs <;> simp only [reduceCtorEq, Option.some.injEq] at hs
  rename_i hsend
  obtain ⟨hq, hrecvq, hpc, hone, -⟩ := hsend
  subst hs
  refine ⟨h.data, h.nesting, h.fit, h.apart, fun r hr => ?_, fun r hmsg => ?_, fun r hr hrecv => ?_⟩
  · have hne : r ≠ q := Nat.ne_of_gt (Nat.lt_of_lt_of_le hq hr)
    obtain ⟨hmsg, hrest⟩ := h.fresh r hr
    exact ⟨(Function.update_of_ne hne ..).trans hmsg, hrest⟩
  · by_cases hrq : r = q
    · subst hrq
      exact hrecvq
    · refine h.sent r fun hnil => hmsg ?_
      exact (Function.update_of_ne hrq ..).trans hnil
  · have hR := h.each r hr hrecv
    by_cases hrq : r = q
    · subst hrq
      refine hR.peerSends ⟨rfl, rfl, rfl, rfl, rfl, rfl, rfl, rfl, rfl, rfl⟩ hone hpc rfl
        (Function.update_self ..) fun n => ?_
      show Function.update b.sent r (Function.update (b.sent r) _ _) r n = _
      rw [Function.update_self, Function.update_apply]
    · exact hR.elsewhere rfl rfl (Function.update_of_ne hrq ..) rfl rfl (Function.update_of_ne hrq ..)
        rfl rfl rfl fun _ => rfl

/-- While a receive is without its message, its operation is under way and goes over MPI. -/
theorem Inv.awaited (h : b.Inv) (hr : r < b.world.proc.nextRid)
    (hrecv : (b.reqs r).type.isRecv = true) (hlt : b.delivered r < b.posted r) :
    b.world.proc.active r = true ∧ (b.reqs r).operationNumber = b.delivered r + 1 ∧
      transfersOf (b.world.landed r) (b.reqs r).operationNumber = 0 := by
  have hk := (h.each r hr hrecv).backup
  have hone := hk.one
  have hfallen : (b.reqs r).type = .recvSearch ∨ (b.reqs r).type = .recvFallback →
      transfersOf (b.world.landed r) (b.reqs r).operationNumber = 0 := by
    intro ht
    rw [(h.data.rests hr ht).landed, transfersOf_nil]
  have hwait : (b.world.proc.reqs r).type ≠ .recvSearch → Awaited b.world.proc r := fun ht =>
    (hk.settled ht).done.resolve_left (Nat.ne_of_lt hlt)
  cases ht : (b.reqs r).type with
  | recvSearch =>
      have hs := hk.searching ht
      have hcount := hs.count
      have hb : (b.world.proc.reqs r).backupRequest.isSome = true := by
        by_contra hb
        rw [if_neg hb] at hcount
        omega
      rw [if_pos hb] at hcount
      have hact := hs.started hb
      have hnum : (b.reqs r).operationNumber = 1 := by
        have := hs.number
        rwa [if_pos hact] at this
      exact ⟨hact, by omega, hfallen (Or.inl ht)⟩
  | recv =>
      have ht' : (b.world.proc.reqs r).type = .recv := ht
      have hw := hwait (by simp [ht'])
      have hnum : (b.reqs r).operationNumber = 1 := (hw.first ht').1
      have hcount := (hk.settled (by simp [ht'])).count
      rw [if_pos ht'] at hcount
      obtain ⟨a, ha, -⟩ := h.data.untorn r hr (Or.inl ht')
      refine ⟨hw.active, by omega, ?_⟩
      rw [← ha.landed, (Proto.reach_counted ha.reached).count, if_neg (by omega)]
  | recvFallback =>
      have ht' : (b.world.proc.reqs r).type = .recvFallback := ht
      have hcount : (b.posted r : Int) = (b.reqs r).operationNumber := by
        have := (hk.settled (by simp [ht'])).count
        rwa [if_neg (by simp [ht'])] at this
      exact ⟨(hwait (by simp [ht'])).active, by omega, hfallen (Or.inr ht)⟩
  | send => simp [ht, RequestType.isRecv] at hrecv
  | sendSearch => simp [ht, RequestType.isRecv] at hrecv
  | sendFallback => simp [ht, RequestType.isRecv] at hrecv

theorem inv_delivers {b' : ByteWorld} {q : Rid} (h : b.Inv) (hs : b.step (.delivers q) = some b') :
    b'.Inv := by
  simp only [step] at hs
  split at hs
  · rename_i m hm
    split at hs <;> simp only [reduceCtorEq, Option.some.injEq] at hs
    rename_i hlt
    subst hs
    have hq : q < b.world.proc.nextRid := by
      by_contra hno
      have := (h.fresh q (Nat.le_of_not_lt hno)).2.1
      omega
    have hrecvq : (b.reqs q).type.isRecv = true := h.sent q fun hnil => by simp [hnil] at hm
    refine ⟨h.data, h.nesting, h.fit, h.apart, fun r hr => ?_, h.sent, fun r hr hrecv => ?_⟩
    · have hne : r ≠ q := Nat.ne_of_gt (Nat.lt_of_lt_of_le hq hr)
      obtain ⟨hmsg, hposted, hdel, hacc⟩ := h.fresh r hr
      exact ⟨hmsg, hposted, (Function.update_of_ne hne ..).trans hdel,
        (Function.update_of_ne hne ..).trans hacc⟩
    · have hR := h.each r hr hrecv
      by_cases hrq : r = q
      · subst hrq
        obtain ⟨hact, hnum, hzero⟩ := h.awaited hr hrecv hlt
        exact hR.delivers hm hlt hzero hact hnum
      · refine hR.elsewhere rfl rfl rfl rfl (Function.update_of_ne hrq ..) rfl rfl rfl
          (Function.update_of_ne hrq ..) fun ha => ?_
        have hQ := h.each q hq hrecvq
        have hlen := hQ.sender.length m (List.mem_of_getElem? hm)
        have hap := h.apart q hq r hr (Ne.symm hrq) ⟨hrecvq, (h.awaited hq hrecvq hlt).1⟩ ⟨hrecv, ha⟩
        refine buffer_writeMem rfl rfl (hap.imp (Nat.le_trans (Nat.add_le_add_left ?_ _)) id)
        exact hlen ▸ hQ.place.fits
  · simp at hs

/-! ### Every run -/

/-- No step meets a defect of the protocol of the flags. -/
def FlagsFlushed (b : ByteWorld) (act : ByteAct) : Prop :=
  ∀ wact, act = .world wact → b.world.FlushedFirst wact

/-- Nor is any get longer than the payload. -/
def Careful (b : ByteWorld) (act : ByteAct) : Prop := b.FlagsFlushed act ∧ b.FetchFits act

theorem inv_init (h : Init b) : b.Inv where
  data := dataInv_init h.world
  nesting := Proc.nesting_nil h.world.nested fun r hr => absurd hr (by simp [h.world.nextRid])
  fit x hx := by
    rw [h.world.worker] at hx
    simp [gets, Worker.idle] at hx
  apart q hq := by
    rw [h.world.nextRid] at hq
    exact absurd hq (Nat.not_lt_zero q)
  fresh r _ := ⟨h.messages r, h.posted r, h.delivered r, h.accesses r⟩
  sent r hmsg := absurd (h.messages r) hmsg
  each r hr := by
    rw [h.world.nextRid] at hr
    exact absurd hr (Nat.not_lt_zero r)

/-- **Step lemma.** -/
theorem inv_step {b' : ByteWorld} {act : ByteAct} (h : b.Inv) (hok : b.Careful act)
    (hs : b.step act = some b') : b'.Inv := by
  cases act with
  | world act =>
      simp only [step] at hs
      split at hs
      · rename_i w hw
        split at hs <;> simp only [reduceCtorEq, Option.some.injEq] at hs
        rename_i hp
        subst hs
        exact inv_follow h (hok.1 act rfl) hok.2 hw hp
      · simp at hs
  | write m => exact inv_write h hs
  | peerWrite q m => exact inv_peerWrite h hs
  | peerSend q => exact inv_peerSend h hs
  | delivers q => exact inv_delivers h hs

theorem Inv.deliver (h : b.Inv) : b.Delivers where
  received r hr hrecv n hn hd := by
    obtain ⟨-, bytes, hbytes, hlen, hright⟩ := (h.each r hr hrecv).receiver.done n hn hd
    exact ⟨bytes, hbytes, hlen, hright.payload, hright.rest⟩
  reads r hr hrecv x hx := by
    rw [(h.each r hr hrecv).place.accesses x hx]
    exact ⟨Nat.le_refl _, Nat.le_refl _⟩
  writes r hr hrecv x hx := by
    have hplace := (h.each r hr hrecv).place
    rw [hplace.accesses x hx]
    exact ⟨Nat.le_refl _, Nat.add_le_add_left hplace.fits _⟩

/--
**Every path delivers the bytes of its Start** and no others, and stays within both
buffers, in every run whose gets are issued by requests of their sender's size.
-/
theorem allPaths_deliver (h : Reach step Careful Init b) : b.Delivers :=
  (h.invariant (fun _ h0 => inv_init h0) fun _ _ _ h hok hs => inv_step h hok hs).deliver

end

/-! ### Two runs -/

/-- Nothing was done yet; the cells of the process and those of the sender's hold different bytes. -/
def freshBytes : ByteWorld where
  world := freshWorld
  mem := UInt8.ofNat
  peerMem := fun _ a => UInt8.ofNat (100 + a)
  messages := fun _ => []
  posted := fun _ => 0
  delivered := fun _ => 0
  sent := fun _ _ => []
  prior := fun _ _ => []
  received := fun _ _ => none
  accesses := fun _ => []

theorem freshBytes_init : Init freshBytes :=
  ⟨freshWorld_init, fun _ => rfl, fun _ => rfl, fun _ => rfl, fun _ => rfl⟩

/-- The first operation of a receive of 2 bytes, whose sender has `size`. -/
def firstRun (size : Nat) : List WorldAct :=
  [.recvInit ⟨16, 2, 1, 0, 4⟩ ⟨24, 12, 0, 0⟩ size, .start 0] ++ answered 7 true

/-- The end of its Wait, and the second operation: the sender is first, and the receiver gets. -/
def fetchedRun : List WorldAct :=
  answered 4 true ++ answered 3 false ++ [.peerStart 0] ++ List.replicate 5 (.peerRun 0 false) ++
    [.peerLands 0 0, .start 0] ++ answered 9 false ++ [.lands 0, .lands 0, .wait 0] ++ answered 5 false

def bytesRun (size : Nat) : List ByteAct :=
  (firstRun size).map .world ++ [.peerSend 0, .delivers 0, .world (.wait 0)] ++ fetchedRun.map .world

/-- The conditions on the steps, as tests. -/
def flagsFlushed (b : ByteWorld) : ByteAct → Bool
  | .world act => flushedFirst b.world act
  | _ => true

theorem flagsFlushed_sound (b : ByteWorld) (act : ByteAct) (h : flagsFlushed b act = true) :
    b.FlagsFlushed act := by
  rintro wact rfl
  exact flushedFirst_sound b.world wact h

def fetchFits (b : ByteWorld) : ByteAct → Bool
  | .world (.run _) =>
      match b.world.proc.fetches with
      | some r => (b.peerReq r).size == (b.reqs r).size
      | none => true
  | _ => true

theorem fetchFits_sound (b : ByteWorld) (act : ByteAct) (h : fetchFits b act = true) :
    b.FetchFits act := by
  rintro ans r rfl hf
  unfold fetchFits at h
  rw [hf] at h
  simpa using h

def careful (b : ByteWorld) (act : ByteAct) : Bool := flagsFlushed b act && fetchFits b act

theorem careful_sound (b : ByteWorld) (act : ByteAct) (h : careful b act = true) : b.Careful act := by
  rw [careful, Bool.and_eq_true] at h
  exact ⟨flagsFlushed_sound b act h.1, fetchFits_sound b act h.2⟩

theorem bytesRun_delivers :
    match runFrom (guarded careful step) freshBytes (bytesRun 2) with
    | some b => b.Delivers ∧ b.received 0 2 = some [124, 125] ∧ b.world.landed 0 = [(2, .get)]
    | none => False := by
  have hrun : (runFrom (guarded careful step) freshBytes (bytesRun 2)).any (fun b => decide
      (b.received 0 2 = some [124, 125] ∧ b.world.landed 0 = [(2, .get)])) = true := by
    decide +kernel
  cases h : runFrom (guarded careful step) freshBytes (bytesRun 2) with
  | none => simp [h] at hrun
  | some b =>
      simp only [h, Option.any_some, decide_eq_true_eq] at hrun
      exact ⟨allPaths_deliver (.of_guarded careful_sound _ (.init freshBytes_init) h), hrun⟩

/-- A get by a request of two bytes from a buffer of one: the second byte is read behind the
buffer, and the one it replaces was not to change. -/
theorem bytesRun_exceeds :
    match runFrom (guarded flagsFlushed step) freshBytes (bytesRun 1) with
    | some b => Reach step FlagsFlushed Init b ∧ ¬ b.Delivers ∧ b.prior 0 2 = [124, 17] ∧
        b.sent 0 2 = [124] ∧ b.received 0 2 = some [124, 125] ∧ ⟨24, 2, 16⟩ ∈ b.accesses 0 ∧
        (b.peerReq 0).buf = 24 ∧ (b.peerReq 0).size = 1
    | none => False := by
  have hrun : (runFrom (guarded flagsFlushed step) freshBytes (bytesRun 1)).any (fun b => decide
      ((0 < b.world.proc.nextRid ∧ (b.reqs 0).type.isRecv = true) ∧ b.prior 0 2 = [124, 17] ∧
        b.sent 0 2 = [124] ∧ b.received 0 2 = some [124, 125] ∧ ⟨24, 2, 16⟩ ∈ b.accesses 0 ∧
        (b.peerReq 0).buf = 24 ∧ (b.peerReq 0).size = 1)) = true := by
    decide +kernel
  cases h : runFrom (guarded flagsFlushed step) freshBytes (bytesRun 1) with
  | none => simp [h] at hrun
  | some b =>
      simp only [h, Option.any_some, decide_eq_true_eq] at hrun
      obtain ⟨⟨hr, hrecv⟩, hrest⟩ := hrun
      refine ⟨.of_guarded flagsFlushed_sound _ (.init freshBytes_init) h, fun hd => ?_, hrest⟩
      have hread := (hd.reads 0 hr hrecv _ hrest.2.2.2.1).2
      rw [hrest.2.2.2.2.1, hrest.2.2.2.2.2] at hread
      simp at hread

end ByteWorld

end CompMatch.Rendezvous

/-
What a send request has under way.

`b_send` posts a payload and a flag put, or a flag put alone, and issues one flush behind
them.  `e_send` waits for that flush whichever handle it is behind, so when a Wait returns
everything the request has posted has taken effect.  This is `SendFlagsAt` for the payload
as well, which is posted earlier.
-/
import CompMatch.Proofs.Rendezvous.FlagBuffer

namespace CompMatch.Rendezvous

section
variable {l l' : Local RdmaOp}

/-! ### One request -/

/-- What a send request has under way, and which handles it holds, at each program point. -/
def SendOpsAt (l : Local RdmaOp) : SendPc → Prop
  | .start .fence | .start .signal | .start .flush | .start .flushReady => Unheld l.req
  | .start .progress | .started | .wait .flagTransfer =>
      ∀ x ∈ l.worker.pending,
        Covers l.req.ucxRequestFlagTransfer x ∨ Covers l.req.ucxRequestDataTransfer x
  | .wait .dataTransfer =>
      l.req.ucxRequestFlagTransfer = none ∧
        ∀ x ∈ l.worker.pending, Covers l.req.ucxRequestDataTransfer x
  | _ => l.worker.pending = [] ∧ Unheld l.req

theorem SendOpsAt.of_none {pc : SendPc} (h : l.worker.pending = []) (hu : Unheld l.req) :
    SendOpsAt l pc := by
  have hnone : ∀ {P : Posted RdmaOp → Prop}, ∀ x ∈ l.worker.pending, P x := by
    intro P x hx
    rw [h] at hx
    exact absurd hx List.not_mem_nil
  unfold SendOpsAt
  split
  case h_8 => exact ⟨hu.flagTransfer, hnone⟩
  case h_9 => exact ⟨h, hu⟩
  all_goals first | exact hu | exact hnone

/-- Less is under way, and the handles are as they were. -/
theorem SendOpsAt.mono {pc : SendPc} (h : SendOpsAt l pc)
    (hsub : ∀ x ∈ l'.worker.pending, x ∈ l.worker.pending)
    (hd : l'.req.ucxRequestDataTransfer = l.req.ucxRequestDataTransfer)
    (hf : l'.req.ucxRequestFlagTransfer = l.req.ucxRequestFlagTransfer) : SendOpsAt l' pc := by
  have hu : Unheld l.req → Unheld l'.req := fun hu => ⟨hd.trans hu.1, hf.trans hu.2⟩
  have hnil : l.worker.pending = [] → l'.worker.pending = [] := by
    intro hn
    refine List.eq_nil_iff_forall_not_mem.mpr fun x hx => ?_
    have hmem := hsub x hx
    rw [hn] at hmem
    exact List.not_mem_nil hmem
  unfold SendOpsAt at h ⊢
  rw [hd, hf]
  split at h
  case h_8 => exact ⟨h.1, fun x hx => h.2 x (hsub x hx)⟩
  case h_9 => exact ⟨hnil h.1, hu h.2⟩
  all_goals first | exact hu h | exact fun x hx => h x (hsub x hx)

/-- **A step of `b_send`.** -/
theorem SendOpsAt.run_start {imm : Bool} {p : Point} {pc' : SendPc} (hst : l.worker.Stamped)
    (h : SendOpsAt l (.start p)) (hrun : sendRun imm (.start p) l = some (pc', l')) :
    SendOpsAt l' pc' := by
  have hflush : ∀ x ∈ l.worker.pending, Covers (ucpEpFlushNb oneEp imm l.worker) x :=
    fun x hx => covers_flush hst hx
  cases p with
  | test =>
      simp only [sendRun, bSend] at hrun
      by_cases hflag : l.req.flag = l.req.operationNumber * 2 + 1
      · rw [if_pos hflag] at hrun
        cases hrun
        exact h
      · rw [if_neg hflag] at hrun
        cases hrun
        exact h
  | data =>
      cases hrun
      exact h.2
  | ready =>
      cases hrun
      exact h.2
  | flush =>
      cases hrun
      exact fun x hx => Or.inr (hflush x hx)
  | flushReady =>
      cases hrun
      exact fun x hx => Or.inl (hflush x hx)
  | fill =>
      cases hrun
      exact ⟨h.1, h.2.1, h.2.2⟩
  | store v =>
      cases hrun
      exact ⟨h.1, h.2.1, h.2.2⟩
  | fillReady =>
      cases hrun
      exact ⟨h.1, h.2.1, h.2.2⟩
  | _ =>
      cases hrun
      exact h

/-- **A step of `e_send`.** -/
theorem SendOpsAt.run_wait {imm : Bool} {w : SendWait} {pc' : SendPc}
    (h : SendOpsAt l (.wait w)) (hrun : sendRun imm (.wait w) l = some (pc', l')) :
    SendOpsAt l' pc' := by
  cases w with
  | flagTransfer =>
      simp only [sendRun, eSend] at hrun
      by_cases hf : flushed oneEp l.worker l.req.ucxRequestFlagTransfer = true
      · rw [if_pos hf] at hrun
        cases hrun
        exact ⟨rfl, fun x hx => (h x hx).resolve_left (not_covers_of_flushed hf hx)⟩
      · rw [if_neg hf] at hrun
        cases hrun
        exact h
  | dataTransfer =>
      simp only [sendRun, eSend] at hrun
      by_cases hf : flushed oneEp l.worker l.req.ucxRequestDataTransfer = true
      · rw [if_pos hf] at hrun
        cases hrun
        refine ⟨List.eq_nil_iff_forall_not_mem.mpr fun x hx => ?_, rfl, h.1⟩
        exact not_covers_of_flushed hf hx (h.2 x hx)
      · rw [if_neg hf] at hrun
        cases hrun
        exact h
  | spin count =>
      simp only [sendRun, eSend] at hrun
      split at hrun <;> rename_i heq <;> split at heq <;> cases heq <;> cases hrun <;> exact h
  | poll =>
      simp only [sendRun, eSend] at hrun
      split at hrun <;> rename_i heq <;> split at heq <;> cases heq <;> cases hrun <;> exact h

theorem SendOpsAt.run {imm : Bool} {pc pc' : SendPc} (hst : l.worker.Stamped)
    (h : SendOpsAt l pc) (hrun : sendRun imm pc l = some (pc', l')) : SendOpsAt l' pc' := by
  cases pc with
  | start p => exact h.run_start hst hrun
  | wait w => exact h.run_wait hrun
  | idle => simp [sendRun] at hrun
  | started => simp [sendRun] at hrun

end

/-! ### The send requests of a process -/

namespace Proc

/-- A send request has nothing under way without its connection, and with it what its program
point allows. -/
structure SendOps (p : Proc) (r : Rid) : Prop where
  unconnected : (p.reqs r).type.isRecv = false → (p.reqs r).type ≠ .send →
    (p.view r).worker.pending = [] ∧ Unheld (p.reqs r)
  connected : (p.reqs r).type = .send → SendOpsAt (p.view r) (p.sendPc r)

section
variable {p p' : Proc} {r : Rid} {ans : Answer} {c : Option MpiCall}

theorem SendOps.of_none (h : (p.view r).worker.pending = []) (hu : Unheld (p.reqs r)) : SendOps p r :=
  ⟨fun _ _ => ⟨h, hu⟩, fun _ => .of_none h hu⟩

/-- Nothing of the request changes that what it has under way depends on. -/
theorem SendOps.congr (h : SendOps p r) (hreq : SameHandles (p.reqs r) (p'.reqs r))
    (hsub : ∀ x ∈ (p'.view r).worker.pending, x ∈ (p.view r).worker.pending)
    (htype : (p'.reqs r).type = (p.reqs r).type)
    (hpc : (p.reqs r).type = .send → p'.sendPc r = p.sendPc r) : SendOps p' r := by
  refine ⟨fun hrecv hne => ?_, fun ht => ?_⟩
  · obtain ⟨hnil, hu⟩ := h.unconnected (htype ▸ hrecv) (htype ▸ hne)
    refine ⟨List.eq_nil_iff_forall_not_mem.mpr fun x hx => ?_, hreq.dataTransfer.trans hu.1,
      hreq.flagTransfer.trans hu.2⟩
    have hmem := hsub x hx
    rw [hnil] at hmem
    exact List.not_mem_nil hmem
  · rw [htype] at ht
    rw [hpc ht]
    exact (h.connected ht).mono hsub hreq.dataTransfer hreq.flagTransfer

/-- **A step of the process.** -/
theorem sendOps_run (hS : Shape p) (hK : Known p) (hst : p.worker.Stamped) (h : SendOps p r)
    (hrun : p.run ans = some (p', c)) : SendOps p' r := by
  have hrecv := run_isRecv hS hK hrun r
  by_cases ht : (p.reqs r).type.isRecv = true
  · refine ⟨fun hno => ?_, fun hsend => ?_⟩
    · rw [hrecv, ht] at hno
      simp at hno
    · rw [hsend, ht] at hrecv
      simp [RequestType.isRecv] at hrecv
  have hne : (p.reqs r).type ≠ .recv := by
    intro heq
    simp [heq, RequestType.isRecv] at ht
  cases send_cases hS hK hne hrun with
  | runs imm hsend hsend' hstep =>
      exact ⟨fun _ hno => absurd hsend' hno, fun _ => (h.connected hsend).run hst.view hstep⟩
  | stays hhandles hpending hpc =>
      have hsub : ∀ x ∈ (p'.view r).worker.pending, x ∈ (p.view r).worker.pending := by
        rw [hpending]
        exact fun _ => id
      rcases run_type hS hK hrun r with heq | ⟨hsearch, -⟩ | ⟨hsearch, -⟩
      · exact h.congr hhandles hsub heq hpc
      · -- its first Wait decides what it becomes
        obtain ⟨hnil, hu⟩ := h.unconnected (by simp [hsearch, RequestType.isRecv]) (by simp [hsearch])
        exact .of_none (hpending.trans hnil) ⟨hhandles.dataTransfer.trans hu.1, hhandles.flagTransfer.trans hu.2⟩
      · simp [hsearch, RequestType.isRecv] at ht

theorem SameFlags.sendOps (h : SameFlags p p') (hs : SendOps p r) : SendOps p' r := by
  refine hs.congr (h.handles r) (fun x hx => ?_) (h.type r) fun _ => ?_
  · simpa only [view, Local.view, loc, h.worker] using hx
  · simp only [sendPc, h.call, h.active]

/-- **Start** on a send request. -/
theorem sendOps_start {q : Rid} (h : SendOps p r) (hc : p.call = .none) (ha : p.active q = false) :
    SendOps (p.start q).1 r := by
  obtain ⟨hw, -, -, hact, -⟩ := start_frame (p := p) q
  have hpend : ((p.start q).1.view r).worker.pending = (p.view r).worker.pending := by
    simp only [view, Local.view, loc, hw]
  have hh := start_handles (p := p) q r
  by_cases hidle : r = q ∧ (p.reqs r).type = .send
  · obtain ⟨rfl, hsend⟩ := hidle
    have hat := h.connected hsend
    rw [show p.sendPc r = .idle by simp [sendPc, ha]] at hat
    exact .of_none (hpend.trans hat.1) ⟨hh.dataTransfer.trans hat.2.1, hh.flagTransfer.trans hat.2.2⟩
  · refine h.congr hh (fun x hx => hpend ▸ hx) (start_type q r) fun hsend => ?_
    have hr : r ≠ q := fun heq => hidle ⟨heq, hsend⟩
    exact sendPc_other (by simp [hc, Call.rid]) (start_rid (Ne.symm hr) hc)
      (by rw [hact, Function.update_of_ne hr])

/-- **Wait** on a send request. -/
theorem sendOps_wait {q : Rid} (h : SendOps p r) (hc : p.call = .none) (ha : p.active q = true) :
    SendOps (p.wait q) r := by
  obtain ⟨hw, -, hact, hreqs, -⟩ := wait_frame (p := p) q
  have hpend : ((p.wait q).view r).worker.pending = (p.view r).worker.pending := by
    simp only [view, Local.view, loc, hw]
  have hsame : SameHandles (p.reqs r) ((p.wait q).reqs r) := by
    rw [hreqs]
    exact .refl _
  by_cases hstarted : r = q ∧ (p.reqs r).type = .send
  · obtain ⟨rfl, hsend⟩ := hstarted
    have hwait : p.wait r = p.setCall (.eSend r .flagTransfer) := by
      unfold wait
      rw [hsend]
    have hat := h.connected hsend
    rw [show p.sendPc r = .started by simp [sendPc, ha, hc]] at hat
    refine ⟨fun _ hne => ?_, fun _ => ?_⟩
    · rw [hreqs] at hne
      exact absurd hsend hne
    · rw [show (p.wait r).sendPc r = .wait .flagTransfer by simp [hwait, sendPc, setCall, ha]]
      have hat' : SendOpsAt (p.view r) (.wait .flagTransfer) := hat
      exact hat'.mono (fun x hx => hpend ▸ hx) hsame.dataTransfer hsame.flagTransfer
  · refine h.congr hsame (fun x hx => hpend ▸ hx) (by rw [hreqs]) fun hsend => ?_
    have hr : r ≠ q := fun heq => hstarted ⟨heq, hsend⟩
    exact sendPc_other (by simp [hc, Call.rid]) (wait_rid (Ne.symm hr)) (by rw [hact])

theorem sendOps_initRequest {type : RequestType} {args : InitArgs} {info : RdmaInfo} (hK : Known p)
    (hc : p.call = .none) (h : ∀ r < p.nextRid, SendOps p r) (hr : r < p.nextRid + 1) :
    SendOps (p.initRequest type args info).1 r := by
  by_cases hr' : r = p.nextRid
  · subst hr'
    have hpend : ((p.initRequest type args info).1.view p.nextRid).worker.pending = [] := by
      simp only [view, Local.view, loc, Worker.view, List.filterMap_eq_nil_iff]
      intro x hx
      simp only [Worker.Posted.view, operationOf, Option.map_eq_none_iff]
      rw [if_neg (Nat.ne_of_lt (hK.pending x hx))]
    exact .of_none hpend (initRequest_new type args info hK).2
  · have hlt : r < p.nextRid := Nat.lt_of_le_of_ne (Nat.le_of_lt_succ hr) hr'
    have hreq : (p.initRequest type args info).1.reqs r = p.reqs r := by simp [initRequest, hr']
    refine (h r hlt).congr (hreq ▸ .refl _) (fun x hx => hx) (by rw [hreq]) fun _ => ?_
    refine sendPc_other (by simp [hc, Call.rid]) (by simp [initRequest, hc, Call.rid]) ?_
    simp [initRequest, hr']

/-- An operation leaves the worker. -/
theorem sendOps_lands {i : Nat} (h : SendOps p r) : SendOps { p with worker := p.worker.retire i } r := by
  have hsub : List.Sublist ({ p with worker := p.worker.retire i } : Proc).worker.pending p.worker.pending :=
    List.eraseIdx_sublist ..
  exact h.congr (.refl _) (fun _ hx => (hsub.filterMap _).subset hx) rfl fun _ => rfl

end

end Proc

/-! ### Every run -/

section
variable {w w' : World}

/-- **Step lemma.** -/
theorem sendOps_step {act : WorldAct} (hi : World.FlagInv w)
    (h : ∀ r < w.proc.nextRid, w.proc.SendOps r) (hs : w.step act = some w') :
    ∀ r < w'.proc.nextRid, w'.proc.SendOps r := by
  have hinv := hi.inv
  have hsame : Proc.SameFlags w.proc w'.proc → w'.proc.nextRid = w.proc.nextRid →
      ∀ r < w'.proc.nextRid, w'.proc.SendOps r := fun hp hn r hr => hp.sendOps (h r (hn ▸ hr))
  cases act with
  | sendInit args info =>
      simp only [World.step] at hs
      split at hs <;> simp only [reduceCtorEq, Option.some.injEq] at hs
      rename_i hfree
      subst hs
      exact fun r hr => Proc.sendOps_initRequest hinv.known hfree.1 h hr
  | recvInit args info size =>
      simp only [World.step] at hs
      split at hs <;> simp only [reduceCtorEq, Option.some.injEq] at hs
      rename_i hfree
      subst hs
      exact fun r hr => Proc.sendOps_initRequest hinv.known hfree.1 h hr
  | start q =>
      simp only [World.step] at hs
      split at hs <;> simp only [reduceCtorEq, Option.some.injEq] at hs
      rename_i hfree
      subst hs
      have hn : (w.proc.start q).1.nextRid = w.proc.nextRid := (start_frame q).2.2.1.nextRid
      exact fun r hr => Proc.sendOps_start (h r (hn ▸ hr)) hfree.1.1 hfree.2.2
  | wait q =>
      simp only [World.step] at hs
      split at hs <;> simp only [reduceCtorEq, Option.some.injEq] at hs
      rename_i hfree
      subst hs
      have hn : (w.proc.wait q).nextRid = w.proc.nextRid := (wait_frame q).2.2.2.2.nextRid
      exact fun r hr => Proc.sendOps_wait (h r (hn ▸ hr)) hfree.1.1 hfree.2.2
  | run ans =>
      simp only [World.step] at hs
      split at hs <;> simp only [reduceCtorEq, Option.some.injEq] at hs
      rename_i p c hrun
      subst hs
      have hn : p.nextRid = w.proc.nextRid := (Proc.run_control hinv.shape hinv.known hrun).2.2.nextRid
      exact fun r hr => Proc.sendOps_run hinv.shape hinv.known hi.stamped (h r (hn ▸ hr)) hrun
  | lands i =>
      simp only [World.step] at hs
      split at hs <;> simp only [reduceCtorEq, Option.some.injEq] at hs
      rename_i x hx
      subst hs
      intro r hr
      rw [(land_frame (w := w.setProc { w.proc with worker := w.proc.worker.retire i })
        x.op.1 x.op.2).1] at hr ⊢
      exact Proc.sendOps_lands (h r hr)
  | free q =>
      simp only [World.step] at hs
      split at hs <;> simp only [reduceCtorEq, Option.some.injEq] at hs
      subst hs
      exact hsame ⟨fun _ => .refl _, fun _ => rfl, fun _ => rfl, rfl, rfl, rfl, rfl⟩ rfl
  | writeFlag q v =>
      simp only [World.step] at hs
      split at hs <;> simp only [reduceCtorEq, Option.some.injEq] at hs
      subst hs
      exact hsame (.setFlag w.proc q v) rfl
  | peerRun q imm =>
      simp only [World.step] at hs
      split at hs
      · split at hs <;> simp only [reduceCtorEq, Option.some.injEq] at hs
        subst hs
        exact hsame (.refl _) rfl
      · simp at hs
  | peerLands q i =>
      simp only [World.step] at hs
      split at hs
      · rename_i x hx
        split at hs <;> simp only [reduceCtorEq, Option.some.injEq] at hs
        subst hs
        obtain ⟨-, -, ⟨reqs, hproc⟩, -, -⟩ := landPeer_frame
          (w := w.setPeer q { w.peers q with loc := (w.peers q).loc.retire i }) q x.op
        exact hsame (landPeer_same (w := w.setPeer q _) q x.op) (by rw [hproc]; rfl)
      · simp at hs
  | _ =>
      simp only [World.step] at hs
      split at hs <;> simp only [reduceCtorEq, Option.some.injEq] at hs
      subst hs
      exact hsame (.refl _) rfl

end

end CompMatch.Rendezvous

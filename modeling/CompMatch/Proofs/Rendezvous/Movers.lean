/-
Steps that move data, seen by one request.

Only the functions that move data touch the word, the handles and the operations of a
request, and only those of the request they move data for (`mover`).  For a send request
that is `b_send` and `e_send`, and every other step leaves it where it is (`SendCase`).
-/
import CompMatch.Proofs.Rendezvous.World
import CompMatch.Proofs.Rendezvous.Requests

namespace CompMatch.Rendezvous

/-! ### The request a step moves data for -/

/-- The fields that the flag puts of a request depend on. -/
structure SameHandles (r r' : MpioptRequest) : Prop where
  flagBuffer : r'.flagBuffer = r.flagBuffer
  dataTransfer : r'.ucxRequestDataTransfer = r.ucxRequestDataTransfer
  flagTransfer : r'.ucxRequestFlagTransfer = r.ucxRequestFlagTransfer

theorem SameHandles.refl (r : MpioptRequest) : SameHandles r r := ⟨rfl, rfl, rfl⟩

theorem Alike.handles {r r' : MpioptRequest} (h : Alike r r') : SameHandles r r' :=
  ⟨h.flagBuffer, h.dataTransfer, h.flagTransfer⟩

/-- The request a function moves data for. -/
def Call.movesFor : Call → Option Rid
  | .bSend r _ | .bRecv r _ | .eSend r _ | .eRecv r _ => some r
  | _ => Option.none

namespace Proc

/-- The request that the next step of the process moves data for. -/
def mover (p : Proc) : Option Rid :=
  match p.nested with
  | .progressRecv r _ :: _ => some r
  | _ :: _ => none
  | [] => p.call.movesFor

section
variable {p p' : Proc} {r : Rid} {ans : Answer} {c : Option MpiCall}

theorem setReq_handles {f : MpioptRequest → MpioptRequest} (q : Rid)
    (h : SameHandles (p.reqs q) (f (p.reqs q))) : SameHandles (p.reqs r) ((p.setReq q f).reqs r) := by
  by_cases hq : r = q
  · subst hq
    simpa only [setReq, Function.update_self] using h
  · simp only [setReq, Function.update_of_ne hq]
    exact .refl _

theorem progressRequest_handles (q : Rid) :
    SameHandles (p.reqs r) ((p.progressRequest ans q).1.reqs r) := by
  unfold progressRequest
  split
  · exact .refl _
  · exact .refl _
  · exact .refl _
  · exact .refl _
  · exact (testBackup_alike ans q).1.handles
  · exact (testBackup_alike ans q).1.handles

/-- A function on the stack, other than `progress_recv_request` for the request. -/
theorem runFrame_handles {f : Frame} (hf : ∀ pt, f ≠ .progressRecv r pt) :
    SameHandles (p.reqs r) ((p.runFrame ans f).1.reqs r) := by
  cases f with
  | progressOther current rest =>
      cases rest with
      | nil => exact .refl _
      | cons q rest =>
          simp only [runFrame]
          split
          · exact .refl _
          · exact progressRequest_handles (p := p.push (.progressOther current rest)) q
  | progressWaiting q pt =>
      cases pt with
      | probe =>
          simp only [runFrame]
          split
          · split <;> exact .refl _
          · exact .refl _
      | post =>
          simp only [runFrame]
          split
          · exact (postBackup_alike q).1.handles
          · exact .refl _
  | receiveInfo q pt =>
      cases pt with
      | recv =>
          exact setReq_handles (p := p) (f := fun x => { x with
            remoteDataAddr := (p.counterpart q).dataAddr
            remoteFlagAddr := (p.counterpart q).flagAddr
            remoteDataRkey := (p.counterpart q).dataRkey
            remoteFlagRkey := (p.counterpart q).flagRkey }) q ⟨rfl, rfl, rfl⟩
      | test =>
          simp only [runFrame]
          split <;> exact (testExchange_alike ans q).1.handles
  | progressRecv q pt =>
      have hq : r ≠ q := by
        rintro rfl
        exact hf pt rfl
      have hreq : ∀ x : Outcome Point × Local (Rid × RdmaOp), (p.resumeProgress q x).reqs r = p.reqs r := by
        rintro ⟨o, l⟩
        cases o <;> exact Function.update_of_ne hq ..
      show SameHandles (p.reqs r) ((p.resumeProgress q _).reqs r)
      rw [hreq]
      exact .refl _

/-- A function that moves data for another request. -/
theorem resume_handles {P : Type} {q : Rid} {next : P → Call} {done : Proc → Proc}
    (hq : r ≠ q) (hdone : done = ret ∨ done = (·.finish q)) (x : Outcome P × Local (Rid × RdmaOp)) :
    (p.resume q next done x).reqs r = p.reqs r := by
  obtain ⟨o, l⟩ := x
  cases o with
  | goto pt => exact Function.update_of_ne hq ..
  | progressOther pt => exact Function.update_of_ne hq ..
  | ret => rcases hdone with rfl | rfl <;> exact Function.update_of_ne hq ..

/-- A function of the interface, other than one that moves data for the request. -/
theorem runCall_handles {f : Call} (hf : f.movesFor ≠ some r)
    (hrun : p.runCall ans f = some (p', c)) : SameHandles (p.reqs r) (p'.reqs r) := by
  cases f with
  | none => simp [runCall] at hrun
  | bSend q pt =>
      cases hrun
      rw [resume_handles (fun h => hf (by rw [h]; rfl)) (Or.inl rfl)]
      exact .refl _
  | bRecv q pt =>
      cases hrun
      rw [resume_handles (fun h => hf (by rw [h]; rfl)) (Or.inl rfl)]
      exact .refl _
  | eSend q w =>
      cases hrun
      rw [resume_handles (fun h => hf (by rw [h]; rfl)) (Or.inr rfl)]
      exact .refl _
  | eRecv q w =>
      cases hrun
      rw [resume_handles (fun h => hf (by rw [h]; rfl)) (Or.inr rfl)]
      exact .refl _
  | startSend q pt =>
      cases pt with
      | progress => cases hrun; exact .refl _
      | post => cases hrun; exact (postBackup_alike (p := p.assert _) q).1.handles
  | startRecv q pt =>
      cases pt with
      | progress => cases hrun; exact .refl _
      | probe =>
          simp only [runCall] at hrun
          split at hrun
          · cases hrun
            split <;> exact .refl _
          · cases hrun
            exact .refl _
      | fallback => cases hrun; exact (postBackup_alike (p := p.assert _) q).1.handles
      | post =>
          simp only [runCall] at hrun
          split at hrun <;> cases hrun
          · exact (postBackup_alike q).1.handles
          · exact .refl _
  | waitSend q pt =>
      cases pt with
      | progress => cases hrun; exact .refl _
      | established =>
          simp only [runCall] at hrun
          split at hrun <;> cases hrun
          · exact setReq_handles (f := fun x => { x with type := .send }) q ⟨rfl, rfl, rfl⟩
          · exact .refl _
      | test => cases hrun; exact (testBackup_alike ans q).1.handles
      | tested flag =>
          simp only [runCall] at hrun
          split at hrun
          · split at hrun <;> cases hrun
            · exact setReq_handles (f := fun x => { x with type := .sendFallback }) q ⟨rfl, rfl, rfl⟩
            · exact .refl _
          · cases hrun
            exact .refl _
  | waitRecv q pt =>
      cases pt with
      | probe flag =>
          simp only [runCall] at hrun
          split at hrun <;> cases hrun <;> exact .refl _
      | progress flag => cases hrun; exact .refl _
      | post =>
          simp only [runCall] at hrun
          split at hrun <;> cases hrun
          · exact (postBackup_alike (p := p.setCall _) q).1.handles
          · exact .refl _
      | decide =>
          cases hrun
          exact setReq_handles (f := fun x => { x with
            type := if x.remoteDataAddr = 0 then .recvFallback else .recv }) q ⟨rfl, rfl, rfl⟩
      | test => cases hrun; exact (testBackup_alike ans q).1.handles
      | tested flag =>
          simp only [runCall] at hrun
          split at hrun <;> cases hrun <;> exact .refl _
  | mpiWait q =>
      simp only [runCall] at hrun
      split at hrun <;> cases hrun
      · exact (testBackup_alike ans q).1.handles
      · exact .refl _

theorem resume_worker {P : Type} {q : Rid} {next : P → Call} {done : Proc → Proc}
    (hdone : done = ret ∨ done = (·.finish q)) (x : Outcome P × Local (Rid × RdmaOp)) :
    (p.resume q next done x).worker = x.2.worker := by
  obtain ⟨o, l⟩ := x
  cases o with
  | goto pt => rfl
  | progressOther pt => rfl
  | ret => rcases hdone with rfl | rfl <;> rfl

theorem runCall_moves {f : Call} (hrun : p.runCall ans f = some (p', c)) :
    p'.worker = p.worker ∨ ∃ q, f.movesFor = some q ∧ Worker.Moves (Prod.mk q) p.worker p'.worker := by
  cases f with
  | none => simp [runCall] at hrun
  | bSend q pt =>
      cases hrun
      refine Or.inr ⟨q, rfl, ?_⟩
      rw [resume_worker (Or.inl rfl)]
      exact moves_bSend (l := p.loc q) pt
  | bRecv q pt =>
      cases hrun
      refine Or.inr ⟨q, rfl, ?_⟩
      rw [resume_worker (Or.inl rfl)]
      exact moves_bRecv (l := p.loc q) pt
  | eSend q w =>
      cases hrun
      refine Or.inr ⟨q, rfl, Or.inl ?_⟩
      rw [resume_worker (Or.inr rfl)]
      exact moves_eSend (l := p.loc q) w
  | eRecv q w =>
      cases hrun
      refine Or.inr ⟨q, rfl, ?_⟩
      rw [resume_worker (Or.inr rfl)]
      exact moves_eRecv (l := p.loc q) w
  | startSend q pt => cases pt <;> cases hrun <;> exact Or.inl rfl
  | startRecv q pt =>
      refine Or.inl ?_
      cases pt <;> simp only [runCall] at hrun
      · cases hrun
        rfl
      · split at hrun
        · cases hrun
          split <;> rfl
        · cases hrun
          rfl
      · cases hrun
        rfl
      · split at hrun <;> cases hrun <;> rfl
  | waitSend q pt =>
      refine Or.inl ?_
      cases pt <;> simp only [runCall] at hrun
      · cases hrun
        rfl
      · split at hrun <;> cases hrun <;> rfl
      · cases hrun
        exact (testBackup_frame ans q).1
      · split at hrun
        · split at hrun <;> cases hrun <;> rfl
        · cases hrun
          rfl
  | waitRecv q pt =>
      refine Or.inl ?_
      cases pt <;> simp only [runCall] at hrun
      · split at hrun <;> cases hrun <;> rfl
      · cases hrun
        rfl
      · split at hrun <;> cases hrun <;> rfl
      · cases hrun
        rfl
      · cases hrun
        exact (testBackup_frame ans q).1
      · split at hrun <;> cases hrun <;> rfl
  | mpiWait q =>
      refine Or.inl ?_
      simp only [runCall] at hrun
      split at hrun <;> cases hrun
      · exact (testBackup_frame ans q).1
      · rfl

/-- **A step leaves the word and the handles of every request alone**, except of the one it moves
data for. -/
theorem run_handles (hr : p.mover ≠ some r) (hrun : p.run ans = some (p', c)) :
    SameHandles (p.reqs r) (p'.reqs r) := by
  unfold run at hrun
  unfold mover at hr
  split at hrun
  · rename_i f below hn
    have hf : ∀ pt, f ≠ .progressRecv r pt := by
      rintro pt rfl
      simp [hn] at hr
    have h : SameHandles (p.reqs r) (((p.setNested below).runFrame ans f).1.reqs r) :=
      runFrame_handles (p := p.setNested below) hf
    rw [Option.some.inj hrun] at h
    exact h
  · rename_i hn
    rw [hn] at hr
    exact runCall_handles hr hrun

/-- What a step does to the worker, it does for its mover. -/
theorem run_moves (hrun : p.run ans = some (p', c)) :
    p'.worker = p.worker ∨ ∃ q, p.mover = some q ∧ Worker.Moves (Prod.mk q) p.worker p'.worker := by
  unfold run at hrun
  unfold mover
  split at hrun
  · rename_i f below hn
    rw [hn]
    have hp : p' = ((p.setNested below).runFrame ans f).1 := by
      rw [Option.some.inj hrun]
    subst hp
    cases f with
    | progressOther current rest =>
        refine Or.inl ?_
        cases rest with
        | nil => rfl
        | cons q rest =>
            simp only [runFrame]
            split
            · rfl
            · unfold progressRequest
              split <;> first | rfl | exact (testBackup_frame ans q).1
    | progressWaiting q pt =>
        refine Or.inl ?_
        cases pt with
        | probe =>
            simp only [runFrame]
            split
            · split <;> rfl
            · rfl
        | post =>
            simp only [runFrame]
            split <;> rfl
    | receiveInfo q pt =>
        refine Or.inl ?_
        cases pt with
        | recv => rfl
        | test =>
            simp only [runFrame]
            split <;> exact (testExchange_frame ans q).1
    | progressRecv q pt =>
        refine Or.inr ⟨q, rfl, ?_⟩
        have hm : Worker.Moves (Prod.mk q) p.worker
            (progressRecvRequest (Prod.mk q) (p.toEp q) ans.imm pt (p.loc q)).2.worker :=
          moves_progressRecvRequest pt
        show Worker.Moves (Prod.mk q) p.worker ((p.setNested below).resumeProgress q
          (progressRecvRequest (Prod.mk q) (p.toEp q) ans.imm pt (p.loc q))).worker
        generalize progressRecvRequest (Prod.mk q) (p.toEp q) ans.imm pt (p.loc q) = x at hm ⊢
        obtain ⟨o, l⟩ := x
        cases o <;> exact hm
  · rename_i hn
    rw [hn]
    exact runCall_moves hrun

/-! ### The send requests of a process -/

/-- Where the process is with send request `r`, once it is connected. -/
def sendPc (p : Proc) (r : Rid) : SendPc :=
  if p.active r then
    match p.call with
    | .bSend q pt => if q = r then .start pt else .started
    | .eSend q w => if q = r then .wait w else .started
    | .waitSend q _ => if q = r then .idle else .started
    | _ => .started
  else .idle

/-- While no function works on `r`, where it is depends only on whether it is started. -/
theorem sendPc_other (h : p.call.rid ≠ some r) (h' : p'.call.rid ≠ some r)
    (ha : p'.active r = p.active r) : p'.sendPc r = p.sendPc r := by
  have hpc : ∀ {q : Proc}, q.call.rid ≠ some r →
      q.sendPc r = if q.active r = true then .started else .idle := by
    intro q hq
    unfold sendPc
    split
    · split <;> rename_i hc <;> simp_all [Call.rid]
    · rfl
  rw [hpc h, hpc h', ha]

/-- While its first Wait goes on, a send request rests. -/
theorem waitSend_idle {pt : WaitSendSearch} (hrun : p.runCall ans (.waitSend r pt) = some (p', c)) :
    p'.sendPc r = .idle := by
  have hidle : ∀ {q : Proc} {pt' : WaitSendSearch}, q.call = .waitSend r pt' → q.sendPc r = .idle := by
    intro q pt' hq
    simp [sendPc, hq]
  cases pt <;> simp only [runCall] at hrun
  · cases hrun
    exact hidle rfl
  · split at hrun <;> cases hrun <;> exact hidle rfl
  · cases hrun
    exact hidle rfl
  · split at hrun
    · split at hrun <;> cases hrun <;> simp [sendPc, finish]
    · cases hrun
      exact hidle rfl

/-- What somebody else posts is not among the puts of the request. -/
theorem view_pending_other (hS : Shape p) (hr : p.mover ≠ some r) (hrun : p.run ans = some (p', c)) :
    (p'.view r).worker.pending = (p.view r).worker.pending := by
  rcases run_moves hrun with hw | ⟨q, hq, hm⟩
  · simp only [view, Local.view, loc, hw]
  · have hne : q ≠ r := by
      rintro rfl
      exact hr hq
    exact (hm.view (operationOf_other hne) hS.barrier).1

/-- What a function moves data for is connected. -/
theorem mover_type (hS : Shape p) (hr : p.mover = some r) :
    (p.reqs r).type = .send ∨ (p.reqs r).type = .recv := by
  have htyped := hS.typed
  unfold mover at hr
  split at hr
  · rename_i q pt rest hn
    obtain rfl : q = r := by simpa using hr
    exact Or.inr (hS.fetching q pt (by simp [hn]))
  · simp at hr
  · unfold Typed at htyped
    cases hcall : p.call <;> simp_all [Call.movesFor]

/-- What a step of the process does to one of its send requests. -/
inductive SendCase (p p' : Proc) (r : Rid) : Prop
  /-- It is one of `b_send` or `e_send`. -/
  | runs (imm : Bool) (ht : (p.reqs r).type = .send) (ht' : (p'.reqs r).type = .send)
      (hstep : sendRun imm (p.sendPc r) (p.view r) = some (p'.sendPc r, p'.view r))
  /-- It moves none of its data. -/
  | stays (hhandles : SameHandles (p.reqs r) (p'.reqs r))
      (hpending : (p'.view r).worker.pending = (p.view r).worker.pending)
      (hpc : (p.reqs r).type = .send → p'.sendPc r = p.sendPc r)

/-- A step that moves data for somebody else leaves the request where it is. -/
theorem sendPc_kept (hS : Shape p) (hK : Known p) (hr : p.mover ≠ some r) (hsend : (p.reqs r).type = .send)
    (hrun : p.run ans = some (p', c)) : p'.sendPc r = p.sendPc r := by
  unfold mover at hr
  unfold run at hrun
  split at hrun
  · rename_i f below hn
    have hp : p' = ((p.setNested below).runFrame ans f).1 := by
      rw [Option.some.inj hrun]
    have hf : Frames p p' below := hp ▸ runFrame_frames hS hK hn
    simp only [sendPc, hf.call, hf.active]
  · rename_i hn
    rw [hn] at hr
    have hcalled := runCall_called hS hK hn hrun
    by_cases hrid : p.call.rid = some r
    · have htyped := hS.typed
      unfold Typed at htyped
      cases hcall : p.call with
      | waitSend q pt =>
          obtain rfl : q = r := by simpa [hcall, Call.rid] using hrid
          rw [hcall] at hrun
          rw [waitSend_idle hrun]
          simp [sendPc, hcall]
      | bSend q pt => simp_all [Call.rid, Call.movesFor]
      | eSend q w => simp_all [Call.rid, Call.movesFor]
      | bRecv q pt => simp_all [Call.rid, Call.movesFor]
      | eRecv q w => simp_all [Call.rid, Call.movesFor]
      | waitRecv q pt =>
          obtain rfl : q = r := by simpa [hcall, Call.rid] using hrid
          simp only [hcall] at htyped
          have h2 := htyped.2
          split at h2 <;> simp [hsend] at h2
      | none => simp [hcall, Call.rid] at hrid
      | _ => simp_all [Call.rid]
    · refine sendPc_other hrid ?_ (runCall_other hrid hrun).2
      rcases hcalled.call with hc | hc
      · rw [hc]
        exact hrid
      · simp [hc, Call.rid]

/-- A step of `b_send` or `e_send` for the request. -/
theorem sendCase_own (hS : Shape p) (hr : p.mover = some r) (hsend : (p.reqs r).type = .send)
    (hrun : p.run ans = some (p', c)) : SendCase p p' r := by
  have hfin : ∀ (imm : Bool) {q : Proc} {pc : SendPc}, (q.reqs r).type = .send →
      q.sendPc r = pc → sendRun imm (p.sendPc r) (p.view r) = some (pc, q.view r) →
      SendCase p q r := by
    intro imm q pc ht hpc hstep
    exact .runs imm hsend ht (hpc ▸ hstep)
  have htyped := hS.typed
  unfold mover at hr
  unfold run at hrun
  split at hrun
  · rename_i f below hn
    rw [hn] at hr
    cases f with
    | progressRecv q pt =>
        obtain rfl : q = r := by simpa using hr
        have := hS.fetching q pt (by simp [hn])
        simp [hsend] at this
    | _ => simp at hr
  · rename_i hn
    rw [hn] at hr
    cases hcall : p.call with
    | bSend q pt =>
        obtain rfl : q = r := by simpa [hcall, Call.movesFor] using hr
        simp only [Typed, hcall] at htyped
        have hpc : p.sendPc q = .start pt := by simp [sendPc, htyped.1, hcall]
        rw [hcall] at hrun
        cases hrun
        obtain ⟨imm', hv⟩ := view_bSend (l := p.loc q) (sees p q) ans.imm pt
        have ht : (bSend (Prod.mk q) (p.toEp q) ans.imm pt (p.loc q)).2.req.type = .send :=
          (type_bSend pt).trans hsend
        have hno : ∀ pt', (bSend (Prod.mk q) (p.toEp q) ans.imm pt (p.loc q)).1 ≠ .progressOther pt' :=
          fun pt' => bSend_ne_progressOther _ _ _ _ pt' _
        generalize bSend (Prod.mk q) (p.toEp q) ans.imm pt (p.loc q) = x at hv ht hno ⊢
        obtain ⟨o, l⟩ := x
        have hl : l.view (operationOf q) = (p.setLoc q l).view q := (setLoc_view q l).symm
        have ht' : ((p.setLoc q l).reqs q).type = .send := by simpa [setLoc] using ht
        rw [hpc] at hfin
        cases o with
        | goto pt' =>
            refine hfin imm' (q := (p.setLoc q l).setCall (.bSend q pt')) ht' (?_ : _ = .start pt') ?_
            · simp [setCall, setLoc, sendPc, htyped.1]
            · simp only [sendRun]
              rw [show bSend id oneEp imm' pt (p.view q) = _ from hv, hl]
              rfl
        | progressOther pt' => exact absurd rfl (hno pt')
        | ret =>
            refine hfin imm' (q := (p.setLoc q l).ret) ht' (?_ : _ = .started) ?_
            · simp [ret, setLoc, sendPc, htyped.1]
            · simp only [sendRun]
              rw [show bSend id oneEp imm' pt (p.view q) = _ from hv, hl]
              rfl
    | eSend q w =>
        obtain rfl : q = r := by simpa [hcall, Call.movesFor] using hr
        simp only [Typed, hcall] at htyped
        have hpc : p.sendPc q = .wait w := by simp [sendPc, htyped.1, hcall]
        rw [hcall] at hrun
        cases hrun
        have ht : (eSend (p.toEp q) w (p.loc q)).2.req.type = .send := (type_eSend w).trans hsend
        rcases view_eSend (l := p.loc q) (sees p q) w with hv | hstutter
        · generalize eSend (p.toEp q) w (p.loc q) = x at hv ht ⊢
          obtain ⟨o, l⟩ := x
          have hl : l.view (operationOf q) = (p.setLoc q l).view q := (setLoc_view q l).symm
          have ht' : ((p.setLoc q l).reqs q).type = .send := by simpa [setLoc] using ht
          rw [hpc] at hfin
          cases o with
          | goto w' =>
              refine hfin false (q := (p.setLoc q l).setCall (.eSend q w')) ht'
                (?_ : _ = .wait w') ?_
              · simp [setCall, setLoc, sendPc, htyped.1]
              · simp only [sendRun]
                rw [show eSend oneEp w (p.view q) = _ from hv, hl]
                rfl
          | progressOther w' =>
              refine hfin false (q := ((p.setLoc q l).setCall (.eSend q w')).progressOther q) ht'
                (?_ : _ = .wait w') ?_
              · simp [progressOther, push, setCall, setLoc, sendPc, htyped.1]
              · simp only [sendRun]
                rw [show eSend oneEp w (p.view q) = _ from hv, hl]
                rfl
          | ret =>
              refine hfin false (q := (p.setLoc q l).finish q) ht' (?_ : _ = .idle) ?_
              · simp [finish, setLoc, sendPc]
              · simp only [sendRun]
                rw [show eSend oneEp w (p.view q) = _ from hv, hl]
                rfl
        · rw [hstutter]
          have hsame : p.setLoc q (p.loc q) = p := by simp [setLoc, loc]
          simp only [resume, hsame]
          refine .stays (.refl _) rfl fun _ => ?_
          simp [setCall, sendPc, hcall]
    | bRecv q pt =>
        obtain rfl : q = r := by simpa [hcall, Call.movesFor] using hr
        simp [Typed, hcall, hsend] at htyped
    | eRecv q w =>
        obtain rfl : q = r := by simpa [hcall, Call.movesFor] using hr
        simp [Typed, hcall, hsend] at htyped
    | _ => simp [hcall, Call.movesFor] at hr

/-- **One step of the process**, seen by one of its send requests. -/
theorem send_cases (hS : Shape p) (hK : Known p) (hsend : (p.reqs r).type ≠ .recv)
    (hrun : p.run ans = some (p', c)) : SendCase p p' r := by
  by_cases hr : p.mover = some r
  · exact sendCase_own hS hr ((mover_type hS hr).resolve_right hsend) hrun
  · exact .stays (run_handles hr hrun) (view_pending_other hS hr hrun) fun ht =>
      sendPc_kept hS hK hr ht hrun

end

end Proc

end CompMatch.Rendezvous

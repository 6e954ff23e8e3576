/-
The payloads a process sends for a send request.

Start sends the first one, and nothing sends another while the request searches for its
connection or is connected.  A Wait returns only when MPI has found it received: its
handle is kept until then.

`sent` counts the payloads; `met` is what MPI answers for, that all of them were received.
-/
import CompMatch.Proofs.Rendezvous.History
import CompMatch.Rendezvous.Generations

namespace CompMatch.Rendezvous

/-! ### The invariant -/

structure Sent (p : Proc) (r : Rid) (sent : Nat) (met : Prop) : Prop where
  /-- Nothing is sent before the first Start has posted it. -/
  unstarted : (p.reqs r).type = .sendSearch →
    (p.active r = false ∨ ∃ pt, p.call = .startSend r pt) → sent = 0
  started : (p.reqs r).type = .sendSearch → p.active r = true → (∀ pt, p.call ≠ .startSend r pt) →
    sent = 1
  connected : (p.reqs r).type = .send → sent = 1
  across : (p.reqs r).type ≠ .sendFallback → (p.reqs r).backupRequest = none → met
  tested : p.call = .waitSend r (.tested true) → (p.reqs r).backupRequest = none
  rests : (p.reqs r).type = .send → (∀ pt, p.call ≠ .waitSend r pt) → (p.reqs r).backupRequest = none

/-- The payloads a call sends for request `r`. -/
def sends (r : Rid) (c : Option MpiCall) : Nat := if c.bind Side.sender.payload = some r then 1 else 0

/-- Nothing of a request has changed that its payloads depend on. -/
structure SameSent (p p' : Proc) (r : Rid) : Prop where
  type : (p'.reqs r).type = (p.reqs r).type
  backup : (p'.reqs r).backupRequest = (p.reqs r).backupRequest
  active : p'.active r = p.active r
  call : p'.call = p.call ∨ (p.call.rid ≠ some r ∧ p'.call.rid ≠ some r)

section
variable {p p' : Proc} {r : Rid} {n : Nat} {met met' : Prop}

theorem SameSent.of_reqs (hreq : p'.reqs r = p.reqs r) (hact : p'.active r = p.active r)
    (hcall : p'.call = p.call ∨ (p.call.rid ≠ some r ∧ p'.call.rid ≠ some r)) : SameSent p p' r :=
  ⟨by rw [hreq], by rw [hreq], hact, hcall⟩

/-- A function works on the request after as before. -/
theorem SameSent.call_iff (h : SameSent p p' r) {f : Call} (hf : f.rid = some r) :
    p'.call = f ↔ p.call = f := by
  rcases h.call with hc | ⟨hno, hno'⟩
  · rw [hc]
  · constructor
    · rintro rfl
      exact absurd hf hno'
    · rintro rfl
      exact absurd hf hno

theorem Sent.congr (h : Sent p r n met) (hs : SameSent p p' r) (hmet : met → met') : Sent p' r n met' where
  unstarted ht hu := by
    rw [hs.type] at ht
    refine h.unstarted ht (hu.imp (fun ha => hs.active ▸ ha) ?_)
    rintro ⟨pt, hc⟩
    exact ⟨pt, (hs.call_iff rfl).mp hc⟩
  started ht ha hc := by
    rw [hs.type] at ht
    rw [hs.active] at ha
    exact h.started ht ha fun pt hpt => hc pt ((hs.call_iff rfl).mpr hpt)
  connected ht := h.connected (hs.type ▸ ht)
  across ht hb := hmet (h.across (hs.type ▸ ht) (hs.backup ▸ hb))
  tested hc := hs.backup ▸ h.tested ((hs.call_iff rfl).mp hc)
  rests ht hc := by
    rw [hs.type] at ht
    rw [hs.backup]
    exact h.rests ht fun pt hpt => hc pt ((hs.call_iff rfl).mpr hpt)

/-- A request that is out of its user's hands. -/
theorem Sent.rest (h : Sent p r n met) (ht : (p.reqs r).type = .send) (hcall : p.call = .none) :
    n = 1 ∧ met := by
  refine ⟨h.connected ht, h.across (by simp [ht]) (h.rests ht fun pt => by simp [hcall])⟩

end

/-! ### Steps of the process -/

namespace Proc

section
variable {p p' : Proc} {r : Rid} {n : Nat} {met met' : Prop} {ans : Answer} {c : Option MpiCall}

/-- No function on the stack sends a payload. -/
theorem runFrame_sends {f : Frame} : ((p.runFrame ans f).2).bind Side.sender.payload = none := by
  cases f with
  | progressOther current rest =>
      cases rest with
      | nil => rfl
      | cons q rest =>
          simp only [runFrame]
          split
          · rfl
          · unfold progressRequest
            split <;> rfl
  | progressWaiting q pt =>
      cases pt <;> simp only [runFrame]
      · split <;> rfl
      · split <;> rfl
  | receiveInfo q pt => cases pt <;> rfl
  | progressRecv q pt => rfl

/-- Of the functions the user calls Start sends one. -/
theorem runCall_sends {f : Call} (hrun : p.runCall ans f = some (p', c))
    (hc : c.bind Side.sender.payload = some r) : f = .startSend r .post := by
  cases f with
  | startSend q pt =>
      cases pt <;> cases hrun
      · cases hc
      · rw [Option.some.inj hc]
  | startRecv q pt =>
      cases pt <;> simp only [runCall] at hrun
      · cases hrun
        cases hc
      · split at hrun <;> cases hrun <;> cases hc
      · cases hrun
        cases hc
      · split at hrun <;> cases hrun <;> cases hc
  | waitSend q pt =>
      cases pt <;> simp only [runCall] at hrun
      · cases hrun
        cases hc
      · cases hrun
        cases hc
      · cases hrun
        cases hc
      · split at hrun <;> cases hrun <;> cases hc
  | waitRecv q pt =>
      cases pt <;> simp only [runCall] at hrun
      · split at hrun <;> cases hrun <;> cases hc
      · cases hrun
        cases hc
      · split at hrun <;> cases hrun <;> cases hc
      · cases hrun
        cases hc
      · cases hrun
        cases hc
      · split at hrun <;> cases hrun <;> cases hc
  | mpiWait q =>
      simp only [runCall] at hrun
      split at hrun <;> cases hrun <;> cases hc
  | none => simp [runCall] at hrun
  | _ =>
      cases hrun
      cases hc

theorem sends_eq_zero (h : c.bind Side.sender.payload ≠ some r) : sends r c = 0 := if_neg h

/-- **A function on the stack** leaves the payloads alone. -/
theorem sent_frame {f : Frame} {fs : List Frame} (h : Sent p r n met) (hS : Shape p) (hK : Known p)
    (hn : p.nested = f :: fs) (hsend : (p.reqs r).type.isRecv = false) (hmet : met → met') :
    Sent ((p.setNested fs).runFrame ans f).1 r n met' := by
  have hF : Frames p ((p.setNested fs).runFrame ans f).1 fs := runFrame_frames hS hK hn
  have haff : Affects (p.setNested fs) ans r f (((p.setNested fs).runFrame ans f).1.reqs r) :=
    runFrame_affects ans f r
  have hkeep : (((p.setNested fs).runFrame ans f).1.reqs r).backupRequest = (p.reqs r).backupRequest →
      Sent ((p.setNested fs).runFrame ans f).1 r n met' := fun hb =>
    h.congr ⟨hF.type r, hb, congrFun hF.active r, Or.inl hF.call⟩ hmet
  generalize hq : ((p.setNested fs).runFrame ans f).1.reqs r = q at haff hkeep
  cases haff with
  | tests hfall =>
      have hfall : (p.reqs r).type = .sendFallback := by
        rcases hfall with ht | ht
        · exact ht
        · have ht : (p.reqs r).type = .recvFallback := ht
          simp [ht, RequestType.isRecv] at hsend
      have htype := (hF.type r).trans hfall
      refine ⟨fun ht => ?_, fun ht => ?_, fun ht => ?_, fun ht => absurd htype ht, fun _ => by rw [hq],
        fun ht => ?_⟩
      all_goals simp [htype] at ht
  | posts haddr hsearch =>
      have ht : (p.reqs r).type = .recvSearch := hsearch
      simp [ht, RequestType.isRecv] at hsend
  | fetches =>
      exact hkeep (moved_progressRecvRequest (l := (p.setNested fs).loc r) _).first.backup
  | _ => exact hkeep rfl

/-- A request that is connected, in a Wait that is not its first. -/
theorem sent_moves (h : Sent p r n met) (ht : (p.reqs r).type = .send) (hc : ∀ pt, p.call ≠ .waitSend r pt)
    (hreq : SameFirst (p.reqs r) (p'.reqs r)) (hc' : ∀ pt, p'.call ≠ .waitSend r pt)
    (hmet : met → met') : Sent p' r n met' := by
  have ht' : (p'.reqs r).type = .send := hreq.type.trans ht
  have hb := h.rests ht hc
  refine ⟨fun hs => ?_, fun hs => ?_, fun _ => h.connected ht, fun _ _ => hmet (h.across (by simp [ht]) hb),
    fun hcall => absurd hcall (hc' _), fun _ _ => hreq.backup.trans hb⟩
  · simp [ht'] at hs
  · simp [ht'] at hs

/-- `wait_send_when_searching_for_connection`. -/
theorem sent_waitSend {pt : WaitSendSearch} (h : Sent p r n met) (hcall : p.call = .waitSend r pt)
    (ha : p.active r = true) (ht : (p.reqs r).type = .sendSearch ∨ (p.reqs r).type = .send)
    (hans : ∀ x, c = some x → x.tests = some r → ans.flag = true → met) (hmet : met → met')
    (hrun : p.runCall ans (.waitSend r pt) = some (p', c)) : Sent p' r n met' := by
  have hone : n = 1 := by
    rcases ht with ht | ht
    · exact h.started ht ha (by simp [hcall])
    · exact h.connected ht
  have hfall : (p.reqs r).type ≠ .sendFallback := by
    rcases ht with ht | ht <;> simp [ht]
  -- the Wait goes on
  have hgoes : ∀ {p₁ : Proc} (pt' : WaitSendSearch), p₁.call = .waitSend r pt' → p₁.active r = true →
      ((p₁.reqs r).backupRequest = none → met) →
      (pt' = .tested true → (p₁.reqs r).backupRequest = none) → Sent p₁ r n met' := by
    intro p₁ pt' hc hact hb htested
    refine ⟨fun _ hu => ?_, fun _ _ _ => hone, fun _ => hone, fun _ hnone => hmet (hb hnone),
      fun hc' => htested ?_, fun _ hno => absurd hc (hno _)⟩
    · rcases hu with hu | ⟨pt'', hu⟩
      · simp [hact] at hu
      · simp [hc] at hu
    · rw [hc] at hc'
      simpa using hc'
  have hbefore : (p.reqs r).backupRequest = none → met := h.across hfall
  cases pt with
  | progress =>
      cases hrun
      exact hgoes .established rfl ha hbefore (by simp)
  | established =>
      simp only [runCall] at hrun
      split at hrun <;> cases hrun
      · refine hgoes .test rfl ha (fun hb => hbefore ?_) (by simp)
        simpa [setCall, setReq] using hb
      · exact hgoes .test rfl ha hbefore (by simp)
  | test =>
      cases hrun
      have hframe := testBackup_frame (p := p) ans r
      refine hgoes (.tested (p.backupDone ans r)) rfl ((congrFun hframe.2.2.1 r).trans ha)
        (fun hb => ?_) fun hd => ?_
      · by_cases hd : p.backupDone ans r = true
        · simp only [backupDone, Bool.or_eq_true, Option.isNone_iff_eq_none] at hd
          rcases hd with hnone | hflag
          · exact hbefore hnone
          · exact hans _ rfl rfl hflag
        · have hp : p.testBackup ans r = p := if_neg hd
          refine hbefore ?_
          rw [← hp]
          exact hb
      · have hd : p.backupDone ans r = true := by simpa using hd
        show ((p.testBackup ans r).reqs r).backupRequest = none
        simp [testBackup, hd, setReq]
  | tested flag =>
      simp only [runCall] at hrun
      split at hrun <;> rename_i hflag
      · subst hflag
        have hnone := h.tested hcall
        cases hrun
        split
        · -- the request falls back
          refine ⟨fun hs => ?_, fun hs => ?_, fun hs => ?_, fun hs => ?_, by simp [finish], fun hs => ?_⟩
          all_goals simp [finish, setReq] at hs
        · refine ⟨fun hs => ?_, fun hs => ?_, fun _ => hone, fun _ _ => hmet (hbefore hnone),
            by simp [finish], fun _ _ => hnone⟩
          all_goals
            rename_i hsend
            simp only [ne_eq, not_not] at hsend
            simp [finish, hsend] at hs
      · cases hrun
        exact hgoes .progress rfl ha hbefore (by simp)

/-- **A function of the interface** that works on the request. -/
theorem sent_call (h : Sent p r n met) (hS : Shape p) (hf : p.call.rid = some r)
    (hsend : (p.reqs r).type.isRecv = false)
    (hans : ∀ x, c = some x → x.tests = some r → ans.flag = true →
      (p.reqs r).type ≠ .sendFallback → met)
    (hmet : c.bind Side.sender.payload ≠ some r → met → met')
    (hrun : p.runCall ans p.call = some (p', c)) : Sent p' r (n + sends r c) met' := by
  have htyped := hS.typed
  have hrecv : ∀ {t : RequestType}, (p.reqs r).type = t → t.isRecv = true → False := by
    rintro t ht hyes
    rw [ht, hyes] at hsend
    exact Bool.noConfusion hsend
  have hno : p.call ≠ .startSend r .post → c.bind Side.sender.payload ≠ some r := fun hne hc =>
    hne (runCall_sends hrun hc)
  cases hcall : p.call with
  | none => simp [hcall, Call.rid] at hf
  | bSend q pt =>
      obtain rfl : q = r := by simpa [hcall, Call.rid] using hf
      have hno := hno (by simp [hcall])
      rw [sends_eq_zero hno]
      simp only [Typed, hcall] at htyped
      rw [hcall] at hrun
      cases hrun
      refine sent_moves h htyped.2 (by simp [hcall]) (resume_first (Or.inl rfl) (moved_bSend (l := p.loc q) pt))
        (fun pt' => ?_) (hmet hno)
      generalize Rendezvous.bSend (Prod.mk q) (p.toEp q) ans.imm pt (p.loc q) = x
      obtain ⟨o, l⟩ := x
      cases o <;> simp [resume, setCall, progressOther, push, ret]
  | eSend q w =>
      obtain rfl : q = r := by simpa [hcall, Call.rid] using hf
      have hno := hno (by simp [hcall])
      rw [sends_eq_zero hno]
      simp only [Typed, hcall] at htyped
      rw [hcall] at hrun
      cases hrun
      refine sent_moves h htyped.2 (by simp [hcall]) (resume_first (Or.inr rfl) (moved_eSend (l := p.loc q) w))
        (fun pt' => ?_) (hmet hno)
      generalize Rendezvous.eSend (p.toEp q) w (p.loc q) = x
      obtain ⟨o, l⟩ := x
      cases o <;> simp [resume, setCall, progressOther, push, finish]
  | startSend q pt =>
      obtain rfl : q = r := by simpa [hcall, Call.rid] using hf
      simp only [Typed, hcall] at htyped
      obtain ⟨ha, ht⟩ := htyped
      have hnone : n = 0 := h.unstarted ht (Or.inr ⟨pt, hcall⟩)
      cases pt with
      | progress =>
          have hno := hno (by simp [hcall])
          rw [sends_eq_zero hno]
          rw [hcall] at hrun
          cases hrun
          refine ⟨fun _ _ => hnone, fun _ _ hc => absurd rfl (hc .post), fun hs => ?_,
            fun hs hb => hmet hno (h.across hs hb), fun hc => ?_, fun hs => ?_⟩
          · have hs : (p.reqs q).type = .send := hs
            simp [ht] at hs
          · cases hc
          · have hs : (p.reqs q).type = .send := hs
            simp [ht] at hs
      | post =>
          rw [hcall] at hrun
          cases hrun
          have hsent : sends q (some (.issend q .comm)) = 1 := if_pos rfl
          rw [hsent, hnone]
          have htype : ((((p.assert (p.reqs q).backupRequest.isNone).postBackup q).ret).reqs q).type =
              .sendSearch := by
            simp [ret, postBackup, setReq, assert, ht]
          refine ⟨fun _ hu => ?_, fun _ _ _ => rfl, fun hs => ?_, fun _ hb => ?_, fun hc => ?_, fun hs => ?_⟩
          · rcases hu with hu | ⟨pt, hu⟩
            · have hu : p.active q = false := hu
              simp [ha] at hu
            · cases hu
          · simp [htype] at hs
          · simp [ret, postBackup, setReq, assert] at hb
          · cases hc
          · simp [htype] at hs
  | waitSend q pt =>
      obtain rfl : q = r := by simpa [hcall, Call.rid] using hf
      have hno := hno (by simp [hcall])
      rw [sends_eq_zero hno]
      simp only [Typed, hcall] at htyped
      rw [hcall] at hrun
      refine sent_waitSend h hcall htyped.1 htyped.2 (fun x hx htest hflag => hans x hx htest hflag ?_)
        (hmet hno) hrun
      rcases htyped.2 with ht | ht <;> simp [ht]
  | mpiWait q =>
      obtain rfl : q = r := by simpa [hcall, Call.rid] using hf
      have hno := hno (by simp [hcall])
      rw [sends_eq_zero hno]
      simp only [Typed, hcall] at htyped
      have ht : (p.reqs q).type = .sendFallback :=
        htyped.2.resolve_right fun ht => hrecv ht rfl
      have hdone : ∀ {p₁ : Proc}, (p₁.reqs q).type = .sendFallback → p₁.call.rid = none ∨ p₁.call = .mpiWait q →
          Sent p₁ q n met' := by
        intro p₁ ht₁ hc₁
        refine ⟨fun hs => ?_, fun hs => ?_, fun hs => ?_, fun hs => absurd ht₁ hs, fun hc => ?_, fun hs => ?_⟩
        case refine_4 =>
          rw [hc] at hc₁
          simp [Call.rid] at hc₁
        all_goals simp [ht₁] at hs
      rw [hcall] at hrun
      simp only [runCall] at hrun
      split at hrun <;> cases hrun
      · exact hdone ((testBackup_type ans q q).trans ht) (Or.inl rfl)
      · exact hdone ht (Or.inr hcall)
  | bRecv q pt =>
      obtain rfl : q = r := by simpa [hcall, Call.rid] using hf
      simp only [Typed, hcall] at htyped
      exact (hrecv htyped.2 rfl).elim
  | eRecv q w =>
      obtain rfl : q = r := by simpa [hcall, Call.rid] using hf
      simp only [Typed, hcall] at htyped
      exact (hrecv htyped.2 rfl).elim
  | startRecv q pt =>
      obtain rfl : q = r := by simpa [hcall, Call.rid] using hf
      simp only [Typed, hcall] at htyped
      exact (hrecv htyped.2 rfl).elim
  | waitRecv q pt =>
      obtain rfl : q = r := by simpa [hcall, Call.rid] using hf
      simp only [Typed, hcall] at htyped
      have ht := htyped.2
      split at ht
      · exact (hrecv ht rfl).elim
      · rcases ht with ht | ht <;> exact (hrecv ht rfl).elim

/-- **A step of the process.** -/
theorem sent_run (h : Sent p r n met) (hS : Shape p) (hK : Known p) (hsend : (p.reqs r).type.isRecv = false)
    (hans : ∀ x, c = some x → x.tests = some r → ans.flag = true →
      (p.reqs r).type ≠ .sendFallback → met)
    (hmet : c.bind Side.sender.payload ≠ some r → met → met')
    (hrun : p.run ans = some (p', c)) : Sent p' r (n + sends r c) met' := by
  unfold run at hrun
  split at hrun
  · rename_i f below hn
    have hpair := Option.some.inj hrun
    have hp : p' = ((p.setNested below).runFrame ans f).1 := by rw [hpair]
    have hc : c = ((p.setNested below).runFrame ans f).2 := by rw [hpair]
    have hno : c.bind Side.sender.payload ≠ some r := by simp [hc, runFrame_sends]
    rw [sends_eq_zero hno, hp]
    exact sent_frame h hS hK hn hsend (hmet hno)
  · rename_i hn
    by_cases hw : p.call.rid = some r
    · exact sent_call h hS hw hsend hans hmet hrun
    · have hno : c.bind Side.sender.payload ≠ some r := fun hc => hw (by rw [runCall_sends hrun hc]; rfl)
      obtain ⟨hreq, hact⟩ := runCall_other hw hrun
      rw [sends_eq_zero hno]
      refine h.congr (.of_reqs hreq hact (Or.inr ⟨hw, ?_⟩)) (hmet hno)
      rcases (runCall_called hS hK hn hrun).call with hrid | hnone
      · rwa [hrid]
      · simp [hnone, Call.rid]

/-! ### The user's calls -/

/-- Start sends a payload for its own request. -/
theorem start_sends {q : Rid} (h : ((p.start q).2).bind Side.sender.payload = some r) : r = q := by
  unfold start at h
  split at h <;> simp [Side.payload] at h
  exact h.symm

theorem sent_start (h : Sent p r n met) (hsend : (p.reqs r).type.isRecv = false) {q : Rid}
    (hcall : p.call = .none) (ha : p.active q = false)
    (hmet : ((p.start q).2).bind Side.sender.payload ≠ some r → met → met') :
    Sent (p.start q).1 r (n + sends r (p.start q).2) met' := by
  obtain ⟨-, -, -, hact, hreqs⟩ := start_frame (p := p) q
  by_cases hr : r = q
  · subst hr
    have hact' : (p.start r).1.active r = true := by rw [hact, Function.update_self]
    cases ht : (p.reqs r).type with
    | send =>
        have hno : (p.start r).2 = none := by simp [start, ht]
        have hreq : (p.start r).1.reqs r = { p.reqs r with
            operationNumber := (p.reqs r).operationNumber + 1 } := by
          simp [start, ht, setCall, setReq]
        have hb := h.rests ht (by simp [hcall])
        rw [hno]
        refine ⟨fun hs => ?_, fun hs => ?_, fun _ => h.connected ht,
          fun _ _ => hmet (by simp [hno]) (h.across (by simp [ht]) hb), fun hc => ?_, fun _ _ => ?_⟩
        · simp [hreq, ht] at hs
        · simp [hreq, ht] at hs
        · simp [start, ht, setCall] at hc
        · rw [hreq]
          exact hb
    | sendSearch =>
        have hno : (p.start r).2 = none := by simp [start, ht]
        have hreq : (p.start r).1.reqs r = { p.reqs r with
            operationNumber := (p.reqs r).operationNumber + 1 } := by
          simp [start, ht, setCall, setReq]
        have hcall' : (p.start r).1.call = .startSend r .progress := by simp [start, ht, setCall]
        rw [hno]
        refine ⟨fun _ _ => h.unstarted ht (Or.inl ha), fun _ _ hc => absurd hcall' (hc _), fun hs => ?_,
          fun _ hb => hmet (by simp [hno]) (h.across (by simp [ht]) ?_), fun hc => ?_, fun hs => ?_⟩
        · simp [hreq, ht] at hs
        · rwa [hreq] at hb
        · simp [hcall'] at hc
        · simp [hreq, ht] at hs
    | sendFallback =>
        have htype : ((p.start r).1.reqs r).type = .sendFallback := by rw [start_type, ht]
        refine ⟨fun hs => ?_, fun hs => ?_, fun hs => ?_, fun hs => absurd htype hs, fun hc => ?_, fun hs => ?_⟩
        · simp [htype] at hs
        · simp [htype] at hs
        · simp [htype] at hs
        · simp [start, ht, postBackup, setReq, assert, hcall] at hc
        · simp [htype] at hs
    | recv => simp [ht, RequestType.isRecv] at hsend
    | recvSearch => simp [ht, RequestType.isRecv] at hsend
    | recvFallback => simp [ht, RequestType.isRecv] at hsend
  · have hno : ((p.start q).2).bind Side.sender.payload ≠ some r := fun hc => hr (start_sends hc)
    rw [sends_eq_zero hno]
    refine h.congr (.of_reqs (hreqs r hr) (by rw [hact, Function.update_of_ne hr])
      (Or.inr ⟨by simp [hcall, Call.rid], ?_⟩)) (hmet hno)
    unfold start
    split <;> simp [setCall, postBackup, assert, setReq, Call.rid, hcall, Ne.symm hr]

theorem sent_wait (h : Sent p r n met) {q : Rid} (hcall : p.call = .none) (hmet : met → met') :
    Sent (p.wait q) r n met' := by
  obtain ⟨-, -, hact, hreqs, -⟩ := wait_frame (p := p) q
  have hreq : (p.wait q).reqs r = p.reqs r := by rw [hreqs]
  have hstart : ∀ pt, (p.wait q).call ≠ .startSend r pt := by
    intro pt
    unfold wait
    split <;> simp [setCall]
  refine ⟨fun ht hu => ?_, fun ht ha _ => ?_, fun ht => ?_, fun ht hb => ?_, fun hc => ?_, fun ht _ => ?_⟩
  all_goals rw [hreq] at *
  · refine h.unstarted ht (Or.inl ?_)
    rw [congrFun hact r] at hu
    exact hu.resolve_right fun hc => hc.elim fun pt hpt => hstart pt hpt
  · rw [congrFun hact r] at ha
    exact h.started ht ha fun pt => by simp [hcall]
  · exact h.connected ht
  · exact hmet (h.across ht hb)
  · unfold wait at hc
    split at hc <;> simp [setCall] at hc
  · exact h.rests ht fun pt => by simp [hcall]

/-- A request that was just initialised. -/
theorem sent_init (args : InitArgs) (info : RdmaInfo) (hcall : p.call = .none) (hmet : met) :
    Sent (p.initRequest .sendSearch args info).1 p.nextRid 0 met := by
  have hactive : (p.initRequest .sendSearch args info).1.active p.nextRid = false := by simp [initRequest]
  have hreq : ((p.initRequest .sendSearch args info).1.reqs p.nextRid).type = .sendSearch := by
    simp [initRequest]
  have hcall' : (p.initRequest .sendSearch args info).1.call = .none := hcall
  refine ⟨fun _ _ => rfl, fun _ ha => ?_, fun ht => ?_, fun _ _ => hmet, fun hc => ?_, fun ht => ?_⟩
  · simp [hactive] at ha
  · simp [hreq] at ht
  · simp [hcall'] at hc
  · simp [hreq] at ht

end

end Proc

end CompMatch.Rendezvous

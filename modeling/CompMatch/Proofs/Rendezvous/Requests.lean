/-
What a step of the process leaves of its requests.

A step works on one request (`works`).  The others stay exactly as they are, and of that
one the functions that move data change the flag, the word and the handles only
(`Moved`).
-/
import CompMatch.Proofs.Rendezvous.Control

namespace CompMatch.Rendezvous

/-! ### Functions that move data -/

/-- Nothing but what moving data needs has changed. -/
def Moved (q q' : MpioptRequest) : Prop :=
  q' = { q with
    flag := q'.flag
    flagBuffer := q'.flagBuffer
    ucxRequestDataTransfer := q'.ucxRequestDataTransfer
    ucxRequestFlagTransfer := q'.ucxRequestFlagTransfer }

theorem Moved.refl (q : MpioptRequest) : Moved q q := rfl

section
variable {Op : Type*} {tag : RdmaOp → Op} {toEp : Op → Bool} {imm : Bool} {l : Local Op}

theorem moved_bSend (p : Point) : Moved l.req (bSend tag toEp imm p l).2.req := by
  cases p with
  | test =>
      simp only [bSend]
      split <;> rfl
  | _ => rfl

theorem moved_fetchStep (checked : Bool) (p : Point) :
    Moved l.req (fetchStep tag toEp checked imm p l).2.req := by
  cases p <;> rfl

theorem moved_bRecv (p : Point) : Moved l.req (bRecv tag toEp imm p l).2.req := by
  cases p with
  | test =>
      simp only [bRecv]
      split <;> rfl
  | fillReady => rfl
  | ready => rfl
  | flushReady => rfl
  | _ => exact moved_fetchStep true _

theorem moved_progressRecvRequest (p : Point) :
    Moved l.req (progressRecvRequest tag toEp imm p l).2.req := by
  cases p with
  | test =>
      simp only [progressRecvRequest]
      split <;> rfl
  | _ => exact moved_fetchStep false _

theorem moved_eSend (w : SendWait) : Moved l.req (eSend toEp w l).2.req := by
  cases w <;> simp only [eSend] <;> split <;> rfl

theorem moved_eRecv (w : RecvWait) : Moved l.req (eRecv tag toEp imm w l).2.req := by
  cases w with
  | fetch p =>
      have h : Moved l.req (bRecv tag toEp imm p l).2.req := moved_bRecv p
      simp only [eRecv]
      split <;> rename_i heq <;> rwa [heq] at h
  | _ =>
      simp only [eRecv]
      split <;> rfl

end

/-! ### The request a step works on -/

/-- The request the function works on next. -/
def Frame.rid : Frame → Option Rid
  | .progressOther _ [] => none
  | .progressOther _ (r :: _) => some r
  | .progressWaiting r _ | .receiveInfo r _ | .progressRecv r _ => some r

namespace Proc

/-- The request that the next step of the process works on. -/
def works (p : Proc) : Option Rid :=
  match p.nested with
  | f :: _ => f.rid
  | [] => p.call.rid

section
variable {p p' : Proc} {r q : Rid} {ans : Answer} {c : Option MpiCall}

theorem setReq_other {f : MpioptRequest → MpioptRequest} (h : r ≠ q) :
    (p.setReq q f).reqs r = p.reqs r := Function.update_of_ne h ..

theorem setLoc_other {l : Local (Rid × RdmaOp)} (h : r ≠ q) : (p.setLoc q l).reqs r = p.reqs r :=
  Function.update_of_ne h ..

theorem postBackup_other (h : r ≠ q) : (p.postBackup q).reqs r = p.reqs r :=
  Function.update_of_ne h ..

theorem testBackup_other (h : r ≠ q) : (p.testBackup ans q).reqs r = p.reqs r := by
  unfold testBackup
  split
  · exact setReq_other h
  · rfl

theorem testExchange_other (h : r ≠ q) : (p.testExchange ans q).reqs r = p.reqs r := by
  unfold testExchange
  split
  · exact setReq_other h
  · rfl

theorem finish_other (h : r ≠ q) : (p.finish q).active r = p.active r := Function.update_of_ne h ..

theorem runFrame_other {f : Frame} (hf : f.rid ≠ some r) :
    (p.runFrame ans f).1.reqs r = p.reqs r ∧ (p.runFrame ans f).1.active = p.active := by
  have hne : ∀ {q : Rid}, f.rid = some q → r ≠ q := by
    rintro q hq rfl
    exact hf hq
  cases f with
  | progressOther current rest =>
      cases rest with
      | nil => exact ⟨rfl, rfl⟩
      | cons q rest =>
          simp only [runFrame]
          split
          · exact ⟨rfl, rfl⟩
          · unfold progressRequest
            split
            case h_4 => exact ⟨rfl, rfl⟩
            case h_3 => exact ⟨rfl, rfl⟩
            case h_2 => exact ⟨rfl, rfl⟩
            case h_1 => exact ⟨rfl, rfl⟩
            all_goals
              exact ⟨testBackup_other (p := p.push _) (hne rfl),
                (testBackup_frame (p := p.push _) ans q).2.2.1⟩
  | progressWaiting q pt =>
      cases pt with
      | probe =>
          simp only [runFrame]
          split
          · split <;> exact ⟨rfl, rfl⟩
          · exact ⟨rfl, rfl⟩
      | post =>
          simp only [runFrame]
          split
          · exact ⟨postBackup_other (hne rfl), rfl⟩
          · exact ⟨rfl, rfl⟩
  | receiveInfo q pt =>
      cases pt with
      | recv => exact ⟨Function.update_of_ne (hne rfl) .., rfl⟩
      | test =>
          have h : (p.testExchange ans q).reqs r = p.reqs r := testExchange_other (hne rfl)
          have ha := (testExchange_frame (p := p) ans q).2.2.1
          simp only [runFrame]
          split <;> exact ⟨h, ha⟩
  | progressRecv q pt =>
      have h : ∀ x : Outcome Point × Local (Rid × RdmaOp), (p.resumeProgress q x).reqs r = p.reqs r ∧
          (p.resumeProgress q x).active = p.active := by
        rintro ⟨o, l⟩
        cases o <;> exact ⟨setLoc_other (hne rfl), rfl⟩
      exact h _

/-- A function that moves data goes on, pauses or is done. -/
theorem resume_other_req {P : Type} {next : P → Call} {done : Proc → Proc} (hr : r ≠ q)
    (hdone : done = ret ∨ done = (·.finish q)) (x : Outcome P × Local (Rid × RdmaOp)) :
    (p.resume q next done x).reqs r = p.reqs r ∧ (p.resume q next done x).active r = p.active r := by
  obtain ⟨o, l⟩ := x
  cases o with
  | goto pt => exact ⟨setLoc_other hr, rfl⟩
  | progressOther pt => exact ⟨setLoc_other hr, rfl⟩
  | ret =>
      rcases hdone with rfl | rfl
      · exact ⟨setLoc_other hr, rfl⟩
      · exact ⟨setLoc_other hr, finish_other hr⟩

theorem runCall_other {f : Call} (hf : f.rid ≠ some r) (hrun : p.runCall ans f = some (p', c)) :
    p'.reqs r = p.reqs r ∧ p'.active r = p.active r := by
  have hne : ∀ {q : Rid}, f.rid = some q → r ≠ q := by
    rintro q hq rfl
    exact hf hq
  cases f with
  | none => simp [runCall] at hrun
  | bSend q pt =>
      cases hrun
      exact resume_other_req (hne rfl) (Or.inl rfl) _
  | bRecv q pt =>
      cases hrun
      exact resume_other_req (hne rfl) (Or.inl rfl) _
  | eSend q w =>
      cases hrun
      exact resume_other_req (hne rfl) (Or.inr rfl) _
  | eRecv q w =>
      cases hrun
      exact resume_other_req (hne rfl) (Or.inr rfl) _
  | startSend q pt =>
      cases pt <;> cases hrun
      · exact ⟨rfl, rfl⟩
      · exact ⟨postBackup_other (p := p.assert _) (hne rfl), rfl⟩
  | startRecv q pt =>
      cases pt <;> simp only [runCall] at hrun
      · cases hrun
        exact ⟨rfl, rfl⟩
      · split at hrun
        · cases hrun
          split <;> exact ⟨rfl, rfl⟩
        · cases hrun
          exact ⟨rfl, rfl⟩
      · cases hrun
        exact ⟨postBackup_other (p := p.assert _) (hne rfl), rfl⟩
      · split at hrun <;> cases hrun
        · exact ⟨postBackup_other (hne rfl), rfl⟩
        · exact ⟨rfl, rfl⟩
  | waitSend q pt =>
      cases pt <;> simp only [runCall] at hrun
      · cases hrun
        exact ⟨rfl, rfl⟩
      · split at hrun <;> cases hrun
        · exact ⟨Function.update_of_ne (hne rfl) .., rfl⟩
        · exact ⟨rfl, rfl⟩
      · cases hrun
        exact ⟨testBackup_other (hne rfl), congrFun (testBackup_frame ans q).2.2.1 r⟩
      · split at hrun
        · split at hrun <;> cases hrun
          · exact ⟨Function.update_of_ne (hne rfl) .., Function.update_of_ne (hne rfl) ..⟩
          · exact ⟨rfl, finish_other (hne rfl)⟩
        · cases hrun
          exact ⟨rfl, rfl⟩
  | waitRecv q pt =>
      cases pt <;> simp only [runCall] at hrun
      · split at hrun <;> cases hrun <;> exact ⟨rfl, rfl⟩
      · cases hrun
        exact ⟨rfl, rfl⟩
      · split at hrun <;> cases hrun
        · exact ⟨postBackup_other (p := p.setCall _) (hne rfl), rfl⟩
        · exact ⟨rfl, rfl⟩
      · cases hrun
        exact ⟨Function.update_of_ne (hne rfl) .., rfl⟩
      · cases hrun
        exact ⟨testBackup_other (hne rfl), congrFun (testBackup_frame ans q).2.2.1 r⟩
      · split at hrun <;> cases hrun
        · exact ⟨rfl, finish_other (hne rfl)⟩
        · exact ⟨rfl, rfl⟩
  | mpiWait q =>
      simp only [runCall] at hrun
      split at hrun <;> cases hrun
      · refine ⟨testBackup_other (hne rfl), (finish_other (p := p.testBackup ans q) (hne rfl)).trans ?_⟩
        exact congrFun (testBackup_frame ans q).2.2.1 r
      · exact ⟨rfl, rfl⟩

/-- **A step leaves the requests alone that it does not work on.** -/
theorem run_other (hr : p.works ≠ some r) (hrun : p.run ans = some (p', c)) :
    p'.reqs r = p.reqs r ∧ p'.active r = p.active r := by
  unfold run at hrun
  unfold works at hr
  split at hrun
  · rename_i f below hn
    rw [hn] at hr
    have h : ((p.setNested below).runFrame ans f).1.reqs r = p.reqs r ∧
        ((p.setNested below).runFrame ans f).1.active = p.active :=
      runFrame_other (p := p.setNested below) hr
    rw [Option.some.inj hrun] at h
    exact ⟨h.1, congrFun h.2 r⟩
  · rename_i hn
    rw [hn] at hr
    exact runCall_other hr hrun

/-- A function that moves data returns, or leaves the requests that are under way. -/
theorem resume_active {P : Type} {next : P → Call} {done : Proc → Proc}
    (hdone : done = ret ∨ done = (·.finish q)) (x : Outcome P × Local (Rid × RdmaOp)) :
    (p.resume q next done x).active = p.active ∨
      (p.resume q next done x).active = Function.update p.active q false := by
  obtain ⟨o, l⟩ := x
  cases o with
  | goto pt => exact Or.inl rfl
  | progressOther pt => exact Or.inl rfl
  | ret =>
      rcases hdone with rfl | rfl
      · exact Or.inl rfl
      · exact Or.inr rfl

theorem runCall_active {f : Call} (hrun : p.runCall ans f = some (p', c)) :
    p'.active = p.active ∨ ∃ q, p'.active = Function.update p.active q false := by
  cases f with
  | none => simp [runCall] at hrun
  | bSend q pt =>
      cases hrun
      exact (resume_active (Or.inl rfl) _).imp id fun h => ⟨q, h⟩
  | bRecv q pt =>
      cases hrun
      exact (resume_active (Or.inl rfl) _).imp id fun h => ⟨q, h⟩
  | eSend q w =>
      cases hrun
      exact (resume_active (Or.inr rfl) _).imp id fun h => ⟨q, h⟩
  | eRecv q w =>
      cases hrun
      exact (resume_active (Or.inr rfl) _).imp id fun h => ⟨q, h⟩
  | startSend q pt => cases pt <;> cases hrun <;> exact Or.inl rfl
  | startRecv q pt =>
      cases pt <;> simp only [runCall] at hrun
      · cases hrun
        exact Or.inl rfl
      · split at hrun
        · cases hrun
          split <;> exact Or.inl rfl
        · cases hrun
          exact Or.inl rfl
      · cases hrun
        exact Or.inl rfl
      · split at hrun <;> cases hrun <;> exact Or.inl rfl
  | waitSend q pt =>
      cases pt <;> simp only [runCall] at hrun
      · cases hrun
        exact Or.inl rfl
      · split at hrun <;> cases hrun <;> exact Or.inl rfl
      · cases hrun
        exact Or.inl (testBackup_frame ans q).2.2.1
      · split at hrun
        · split at hrun <;> cases hrun <;> exact Or.inr ⟨q, rfl⟩
        · cases hrun
          exact Or.inl rfl
  | waitRecv q pt =>
      cases pt <;> simp only [runCall] at hrun
      · split at hrun <;> cases hrun <;> exact Or.inl rfl
      · cases hrun
        exact Or.inl rfl
      · split at hrun <;> cases hrun <;> exact Or.inl rfl
      · cases hrun
        exact Or.inl rfl
      · cases hrun
        exact Or.inl (testBackup_frame ans q).2.2.1
      · split at hrun <;> cases hrun
        · exact Or.inr ⟨q, rfl⟩
        · exact Or.inl rfl
  | mpiWait q =>
      simp only [runCall] at hrun
      split at hrun <;> cases hrun
      · refine Or.inr ⟨q, ?_⟩
        rw [finish, (testBackup_frame ans q).2.2.1]
      · exact Or.inl rfl

/-- **No step of its own starts a request.** -/
theorem run_active (hS : Shape p) (hK : Known p) (hrun : p.run ans = some (p', c)) (r : Rid) :
    p'.active r = p.active r ∨ p'.active r = false := by
  unfold run at hrun
  split at hrun
  · rename_i f below hn
    have hpair := Option.some.inj hrun
    have ha : ((p.setNested below).runFrame ans f).1.active = p.active := (runFrame_frames hS hK hn).active
    rw [hpair] at ha
    exact Or.inl (congrFun ha r)
  · rcases runCall_active hrun with ha | ⟨q, ha⟩
    · exact Or.inl (congrFun ha r)
    · by_cases hr : r = q
      · subst hr
        exact Or.inr (by rw [ha, Function.update_self])
      · exact Or.inl (by rw [ha, Function.update_of_ne hr])

/-! ### What a request keeps -/

end

end Proc

/-- The buffer and the number of the operation are what they were. -/
structure SameBuffer (q q' : MpioptRequest) : Prop where
  buf : q'.buf = q.buf
  size : q'.size = q.size
  number : q'.operationNumber = q.operationNumber
  flagAddr : q'.flagAddr = q.flagAddr

theorem SameBuffer.refl (q : MpioptRequest) : SameBuffer q q := ⟨rfl, rfl, rfl, rfl⟩

theorem Moved.buffer {q q' : MpioptRequest} (h : Moved q q') : SameBuffer q q' := by
  unfold Moved at h
  exact ⟨by rw [h], by rw [h], by rw [h], by rw [h]⟩

/-- What the handshake message says is stored. -/
def MpioptRequest.setInfo (q : MpioptRequest) (info : RdmaInfo) : MpioptRequest :=
  { q with
    remoteDataAddr := info.dataAddr
    remoteFlagAddr := info.flagAddr
    remoteDataRkey := info.dataRkey
    remoteFlagRkey := info.flagRkey }

/-- What the operations of a request do to it is within `R`. -/
structure Within (R : MpioptRequest → MpioptRequest → Prop) : Prop where
  refl : ∀ q, R q q
  moved : ∀ {q q' : MpioptRequest}, Moved q q' → R q q'
  backup : ∀ (q : MpioptRequest) x, R q { q with backupRequest := x }
  type : ∀ (q : MpioptRequest) t, R q { q with type := t }

/-- `g` reads nothing of a request that its operations change. -/
structure Blind {β : Type*} (g : MpioptRequest → β) : Prop where
  moved : ∀ {q q' : MpioptRequest}, Moved q q' → g q' = g q
  backup : ∀ (q : MpioptRequest) x, g { q with backupRequest := x } = g q
  exchange : ∀ (q : MpioptRequest) x, g { q with rdmaExchangeRequestSend := x } = g q
  type : ∀ (q : MpioptRequest) t, g { q with type := t } = g q

theorem Blind.within {β : Type*} {g : MpioptRequest → β} (hg : Blind g) :
    Within fun q q' => g q' = g q :=
  ⟨fun _ => rfl, hg.moved, hg.backup, hg.type⟩

namespace Proc

section
variable {R : MpioptRequest → MpioptRequest → Prop} {p p' : Proc} {r q : Rid} {ans : Answer}
  {c : Option MpiCall}

theorem setReq_within {f : MpioptRequest → MpioptRequest} (h : R (p.reqs q) (f (p.reqs q))) :
    R (p.reqs q) ((p.setReq q f).reqs q) := by
  simpa only [setReq, Function.update_self] using h

theorem setLoc_within {l : Local (Rid × RdmaOp)} (hR : Within R) (h : Moved (p.reqs q) l.req) :
    R (p.reqs q) ((p.setLoc q l).reqs q) := by
  simpa only [setLoc, Function.update_self] using hR.moved h

theorem postBackup_within (hR : Within R) : R (p.reqs q) ((p.postBackup q).reqs q) :=
  setReq_within (R := R) (f := fun x => { x with backupRequest := some p.nextHandle }) (hR.backup _ _)

theorem testBackup_within (hR : Within R) : R (p.reqs q) ((p.testBackup ans q).reqs q) := by
  unfold testBackup
  split
  · exact setReq_within (hR.backup _ _)
  · exact hR.refl _

theorem testExchange_within (hR : Within R) (hexch : p.exchangeDone ans q = true →
    R (p.reqs q) { p.reqs q with rdmaExchangeRequestSend := none }) :
    R (p.reqs q) ((p.testExchange ans q).reqs q) := by
  unfold testExchange
  split
  · rename_i hdone
    exact setReq_within (hexch hdone)
  · exact hR.refl _

theorem runFrame_within {f : Frame} (hR : Within R) (hf : f.rid = some r)
    (hinfo : f = .receiveInfo r .recv → ∀ (q : MpioptRequest) info, R q (q.setInfo info))
    (hexch : f = .receiveInfo r .test → p.exchangeDone ans r = true →
      R (p.reqs r) { p.reqs r with rdmaExchangeRequestSend := none }) :
    R (p.reqs r) ((p.runFrame ans f).1.reqs r) := by
  cases f with
  | progressOther current rest =>
      cases rest with
      | nil => simp [Frame.rid] at hf
      | cons q rest =>
          obtain rfl : q = r := by simpa [Frame.rid] using hf
          simp only [runFrame]
          split
          · exact hR.refl _
          · unfold progressRequest
            split <;> first | exact hR.refl _ | exact testBackup_within (p := p.push _) hR
  | progressWaiting q pt =>
      obtain rfl : q = r := by simpa [Frame.rid] using hf
      cases pt with
      | probe =>
          simp only [runFrame]
          split
          · split <;> exact hR.refl _
          · exact hR.refl _
      | post =>
          simp only [runFrame]
          split
          · exact postBackup_within hR
          · exact hR.refl _
  | receiveInfo q pt =>
      obtain rfl : q = r := by simpa [Frame.rid] using hf
      cases pt with
      | recv => exact setReq_within (R := R) (p := p) (f := fun x => x.setInfo (p.counterpart q)) (hinfo rfl _ _)
      | test =>
          simp only [runFrame]
          split <;> exact testExchange_within hR (hexch rfl)
  | progressRecv q pt =>
      obtain rfl : q = r := by simpa [Frame.rid] using hf
      have hm : Moved (p.reqs q)
          (progressRecvRequest (Prod.mk q) (p.toEp q) ans.imm pt (p.loc q)).2.req :=
        moved_progressRecvRequest (l := p.loc q) pt
      have hreq : ∀ x : Outcome Point × Local (Rid × RdmaOp), Moved (p.reqs q) x.2.req →
          R (p.reqs q) ((p.resumeProgress q x).reqs q) := by
        rintro ⟨o, l⟩ hm
        cases o <;> exact setLoc_within hR hm
      exact hreq _ hm

theorem resume_within {P : Type} {next : P → Call} {done : Proc → Proc}
    {x : Outcome P × Local (Rid × RdmaOp)} (hR : Within R) (hdone : done = ret ∨ done = (·.finish q))
    (hm : Moved (p.reqs q) x.2.req) : R (p.reqs q) ((p.resume q next done x).reqs q) := by
  obtain ⟨o, l⟩ := x
  cases o with
  | goto pt => exact setLoc_within hR hm
  | progressOther pt => exact setLoc_within hR hm
  | ret => rcases hdone with rfl | rfl <;> exact setLoc_within hR hm

theorem runCall_within {f : Call} (hR : Within R) (hf : f.rid = some r)
    (hrun : p.runCall ans f = some (p', c)) : R (p.reqs r) (p'.reqs r) := by
  cases f with
  | none => simp [runCall] at hrun
  | bSend q pt =>
      obtain rfl : q = r := by simpa [Call.rid] using hf
      cases hrun
      exact resume_within hR (Or.inl rfl) (moved_bSend (l := p.loc q) pt)
  | bRecv q pt =>
      obtain rfl : q = r := by simpa [Call.rid] using hf
      cases hrun
      exact resume_within hR (Or.inl rfl) (moved_bRecv (l := p.loc q) pt)
  | eSend q w =>
      obtain rfl : q = r := by simpa [Call.rid] using hf
      cases hrun
      exact resume_within hR (Or.inr rfl) (moved_eSend (l := p.loc q) w)
  | eRecv q w =>
      obtain rfl : q = r := by simpa [Call.rid] using hf
      cases hrun
      exact resume_within hR (Or.inr rfl) (moved_eRecv (l := p.loc q) w)
  | startSend q pt =>
      obtain rfl : q = r := by simpa [Call.rid] using hf
      cases pt <;> cases hrun
      · exact hR.refl _
      · exact postBackup_within (p := p.assert _) hR
  | startRecv q pt =>
      obtain rfl : q = r := by simpa [Call.rid] using hf
      cases pt <;> simp only [runCall] at hrun
      · cases hrun
        exact hR.refl _
      · split at hrun
        · cases hrun
          split <;> exact hR.refl _
        · cases hrun
          exact hR.refl _
      · cases hrun
        exact postBackup_within (p := p.assert _) hR
      · split at hrun <;> cases hrun
        · exact postBackup_within hR
        · exact hR.refl _
  | waitSend q pt =>
      obtain rfl : q = r := by simpa [Call.rid] using hf
      cases pt <;> simp only [runCall] at hrun
      · cases hrun
        exact hR.refl _
      · split at hrun <;> cases hrun
        · exact setReq_within (R := R) (p := p.setCall _) (f := fun x => { x with type := .send }) (hR.type _ _)
        · exact hR.refl _
      · cases hrun
        exact testBackup_within hR
      · split at hrun
        · split at hrun <;> cases hrun
          · exact setReq_within (R := R) (f := fun x => { x with type := .sendFallback }) (hR.type _ _)
          · exact hR.refl _
        · cases hrun
          exact hR.refl _
  | waitRecv q pt =>
      obtain rfl : q = r := by simpa [Call.rid] using hf
      cases pt <;> simp only [runCall] at hrun
      · split at hrun <;> cases hrun <;> exact hR.refl _
      · cases hrun
        exact hR.refl _
      · split at hrun <;> cases hrun
        · exact postBackup_within (p := p.setCall _) hR
        · exact hR.refl _
      · cases hrun
        exact setReq_within (R := R) (f := fun x => { x with
          type := if x.remoteDataAddr = 0 then .recvFallback else .recv }) (hR.type _ _)
      · cases hrun
        exact testBackup_within hR
      · split at hrun <;> cases hrun <;> exact hR.refl _
  | mpiWait q =>
      obtain rfl : q = r := by simpa [Call.rid] using hf
      simp only [runCall] at hrun
      split at hrun <;> cases hrun
      · exact testBackup_within hR
      · exact hR.refl _

/-- **What a step does to a request is within what its operations do**, but for what
`receive_rdma_info` does. -/
theorem run_within (hR : Within R) (hrun : p.run ans = some (p', c)) (r : Rid)
    (hinfo : ∀ below, p.nested = .receiveInfo r .recv :: below →
      ∀ (q : MpioptRequest) info, R q (q.setInfo info))
    (hexch : ∀ below, p.nested = .receiveInfo r .test :: below → p.exchangeDone ans r = true →
      R (p.reqs r) { p.reqs r with rdmaExchangeRequestSend := none }) : R (p.reqs r) (p'.reqs r) := by
  by_cases hw : p.works = some r
  · unfold run at hrun
    unfold works at hw
    split at hrun
    · rename_i f below hn
      rw [hn] at hw
      have h : R (p.reqs r) (((p.setNested below).runFrame ans f).1.reqs r) :=
        runFrame_within (p := p.setNested below) hR hw (fun hf => hinfo below (by rw [hn, hf]))
          fun hf => hexch below (by rw [hn, hf])
      rw [Option.some.inj hrun] at h
      exact h
    · rename_i hn
      rw [hn] at hw
      exact runCall_within hR hw hrun
  · rw [(run_other hw hrun).1]
    exact hR.refl _

/-- **What no operation changes, no step changes.** -/
theorem run_blind {β : Type*} {g : MpioptRequest → β} (hg : Blind g) (hrun : p.run ans = some (p', c))
    (r : Rid) (hinfo : ∀ below, p.nested = .receiveInfo r .recv :: below →
      ∀ (q : MpioptRequest) info, g (q.setInfo info) = g q) : g (p'.reqs r) = g (p.reqs r) :=
  run_within hg.within hrun r hinfo fun _ _ _ => hg.exchange _ _

/-- A send of the info is found complete by `receive_rdma_info`, and stays complete. -/
theorem run_exchange (hrun : p.run ans = some (p', c)) (r : Rid) :
    (p'.reqs r).rdmaExchangeRequestSend = (p.reqs r).rdmaExchangeRequestSend ∨
      ((p'.reqs r).rdmaExchangeRequestSend = none ∧ p.exchangeDone ans r = true ∧
        ∃ below, p.nested = .receiveInfo r .test :: below) := by
  refine run_within (R := fun q q' => q'.rdmaExchangeRequestSend = q.rdmaExchangeRequestSend ∨
    (q'.rdmaExchangeRequestSend = none ∧ p.exchangeDone ans r = true ∧
      ∃ below, p.nested = .receiveInfo r .test :: below)) ⟨fun _ => Or.inl rfl, fun h => Or.inl ?_,
    fun _ _ => Or.inl rfl, fun _ _ => Or.inl rfl⟩ hrun r (fun _ _ _ _ => Or.inl rfl)
    fun below hn hdone => Or.inr ⟨rfl, hdone, below, hn⟩
  unfold Moved at h
  rw [h]

/-- **No step changes the buffer of a request** or the number of its operation. -/
theorem run_buffer (hrun : p.run ans = some (p', c)) (r : Rid) :
    SameBuffer (p.reqs r) (p'.reqs r) where
  buf := run_blind ⟨fun h => h.buffer.buf, fun _ _ => rfl, fun _ _ => rfl, fun _ _ => rfl⟩ hrun r
    fun _ _ _ _ => rfl
  size := run_blind ⟨fun h => h.buffer.size, fun _ _ => rfl, fun _ _ => rfl, fun _ _ => rfl⟩ hrun r
    fun _ _ _ _ => rfl
  number := run_blind ⟨fun h => h.buffer.number, fun _ _ => rfl, fun _ _ => rfl, fun _ _ => rfl⟩ hrun r
    fun _ _ _ _ => rfl
  flagAddr := run_blind ⟨fun h => h.buffer.flagAddr, fun _ _ => rfl, fun _ _ => rfl, fun _ _ => rfl⟩
    hrun r fun _ _ _ _ => rfl

/-! ### What a step on the stack does to a request -/

/-- What a function on the stack makes of request `r`. -/
inductive Affects (p : Proc) (ans : Answer) (r : Rid) : Frame → MpioptRequest → Prop
  | nothing {f : Frame} : Affects p ans r f (p.reqs r)
  | tests {f : Frame} (hfall : (p.reqs r).type = .sendFallback ∨ (p.reqs r).type = .recvFallback) :
      Affects p ans r f { p.reqs r with backupRequest := none }
  | posts (haddr : (p.reqs r).remoteDataAddr ≠ 0) (hsearch : (p.reqs r).type = .recvSearch) :
      Affects p ans r (.progressWaiting r .post) { p.reqs r with backupRequest := some p.nextHandle }
  | informs : Affects p ans r (.receiveInfo r .recv) ((p.reqs r).setInfo (p.counterpart r))
  | exchanges (hdone : p.exchangeDone ans r = true) :
      Affects p ans r (.receiveInfo r .test) { p.reqs r with rdmaExchangeRequestSend := none }
  | fetches {pt : Point} : Affects p ans r (.progressRecv r pt)
      (progressRecvRequest (Prod.mk r) (p.toEp r) ans.imm pt (p.loc r)).2.req

theorem testBackup_reqs (q r : Rid) : (p.testBackup ans q).reqs r = p.reqs r ∨
    (p.testBackup ans q).reqs r = { p.reqs r with backupRequest := none } := by
  unfold testBackup
  split
  · by_cases hr : r = q
    · subst hr
      exact Or.inr (Function.update_self ..)
    · exact Or.inl (setReq_other hr)
  · exact Or.inl rfl

/-- Of the requests that are progressed only those that have fallen back are tested. -/
theorem progressRequest_reqs (q r : Rid) : (p.progressRequest ans q).1.reqs r = p.reqs r ∨
    (((p.reqs r).type = .sendFallback ∨ (p.reqs r).type = .recvFallback) ∧
      (p.progressRequest ans q).1.reqs r = { p.reqs r with backupRequest := none }) := by
  have htest : (p.reqs q).type = .sendFallback ∨ (p.reqs q).type = .recvFallback →
      (p.testBackup ans q).reqs r = p.reqs r ∨
        (((p.reqs r).type = .sendFallback ∨ (p.reqs r).type = .recvFallback) ∧
          (p.testBackup ans q).reqs r = { p.reqs r with backupRequest := none }) := by
    intro hq
    by_cases hr : r = q
    · subst hr
      exact (testBackup_reqs r r).imp id fun h => ⟨hq, h⟩
    · exact Or.inl (testBackup_other hr)
  unfold progressRequest
  split
  · exact Or.inl rfl
  · exact Or.inl rfl
  · exact Or.inl rfl
  · exact Or.inl rfl
  · rename_i ht
    exact htest (Or.inl ht)
  · rename_i ht
    exact htest (Or.inr ht)

/-- **What one step on the stack does to a request.** -/
theorem runFrame_affects (ans : Answer) (f : Frame) (r : Rid) :
    Affects p ans r f ((p.runFrame ans f).1.reqs r) := by
  cases f with
  | progressOther current rest =>
      cases rest with
      | nil => exact .nothing
      | cons q rest =>
          simp only [runFrame]
          split
          · exact .nothing
          · rcases progressRequest_reqs (p := p.push (.progressOther current rest)) q r with
              h | ⟨hfall, h⟩ <;> rw [h]
            · exact .nothing
            · exact .tests hfall
  | progressWaiting q pt =>
      cases pt <;> simp only [runFrame]
      · split
        · split <;> exact .nothing
        · exact .nothing
      · split
        · rename_i hpost
          by_cases hr : r = q
          · subst hr
            simp only [postBackup, setReq, Function.update_self]
            exact .posts hpost.1 hpost.2.1
          · simp only [postBackup_other hr]
            exact .nothing
        · exact .nothing
  | receiveInfo q pt =>
      cases pt <;> simp only [runFrame]
      · by_cases hr : r = q
        · subst hr
          simp only [push, setReq, Function.update_self]
          exact .informs
        · simp only [push, setReq, Function.update_of_ne hr]
          exact .nothing
      · split
        · rename_i hdone
          by_cases hr : r = q
          · subst hr
            simp only [testExchange, hdone, if_true, setReq, Function.update_self]
            exact .exchanges hdone
          · simp only [testExchange_other hr]
            exact .nothing
        · rename_i hdone
          have htest : p.testExchange ans q = p := if_neg hdone
          rw [htest]
          exact .nothing
  | progressRecv q pt =>
      simp only [runFrame]
      have hset : ∀ x : Outcome Point × Local (Rid × RdmaOp),
          (p.resumeProgress q x).reqs r = if r = q then x.2.req else p.reqs r := by
        rintro ⟨o, l⟩
        have hreq : (p.setLoc q l).reqs r = if r = q then l.req else p.reqs r := by
          by_cases hr : r = q
          · subst hr
            simp [setLoc]
          · simp [setLoc, hr]
        cases o <;> exact hreq
      rw [hset]
      by_cases hr : r = q
      · subst hr
        rw [if_pos rfl]
        exact .fetches
      · rw [if_neg hr]
        exact .nothing

end

end Proc

end CompMatch.Rendezvous

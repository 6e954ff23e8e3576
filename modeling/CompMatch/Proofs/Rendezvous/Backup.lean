/-
The receives a process posts for a receive request.

While the request searches for its connection one receive is posted at most, and the
handle of it is kept.  Once the way of the request is decided, one was posted if it is
connected, and one an operation if it has fallen back.  A Wait returns only when the
receives that were posted have their messages, since MPI's tests find them complete
only then.

`posted` and `delivered` count the receives that were posted and those that have their
messages.
-/
import CompMatch.Proofs.Rendezvous.Requests
import CompMatch.Proofs.Rendezvous.Conn
import CompMatch.Rendezvous.Bytes

namespace CompMatch.Rendezvous

/-! ### The invariant -/

/-- A receive may still be without its message: its handle is there, and a Wait is to test it. -/
structure Awaited (p : Proc) (r : Rid) : Prop where
  backup : (p.reqs r).backupRequest.isSome = true
  active : p.active r = true
  call : p.call ≠ .waitRecv r (.tested true)
  first : (p.reqs r).type = .recv →
    (p.reqs r).operationNumber = 1 ∧ ∃ pt, p.call = .waitRecv r pt

/-- A request that searches for its connection. -/
structure Searches (p : Proc) (r : Rid) (posted : Nat) : Prop where
  number : (p.reqs r).operationNumber = if p.active r = true then 1 else 0
  count : posted = if (p.reqs r).backupRequest.isSome = true then 1 else 0
  started : (p.reqs r).backupRequest.isSome = true → p.active r = true
  /-- Start posts the receive once: with the info, or without it. -/
  start : ∀ pt, p.call = .startRecv r pt → (p.reqs r).backupRequest.isSome = true →
    (p.reqs r).remoteDataAddr ≠ 0
  fallback : p.call = .startRecv r .fallback → (p.reqs r).remoteDataAddr = 0 ∧ p.nested = []
  decide : p.call = .waitRecv r .decide → (p.reqs r).backupRequest.isSome = true

/-- A request whose first Wait has decided how it is to go on. -/
structure Settled (p : Proc) (r : Rid) (posted delivered : Nat) : Prop where
  number : 1 ≤ (p.reqs r).operationNumber
  count : (posted : Int) = if (p.reqs r).type = .recv then 1 else (p.reqs r).operationNumber
  done : delivered = posted ∨ Awaited p r

structure Backup (p : Proc) (r : Rid) (posted delivered : Nat) : Prop where
  le : delivered ≤ posted
  one : posted ≤ delivered + 1
  searching : (p.reqs r).type = .recvSearch → Searches p r posted
  settled : (p.reqs r).type ≠ .recvSearch → Settled p r posted delivered

/-- The receives a call posts for request `r`. -/
def posts (r : Rid) (c : Option MpiCall) : Nat := if c = some (.irecv r) then 1 else 0

/-- Nothing of a request has changed that its receives depend on. -/
structure SameFirst (q q' : MpioptRequest) : Prop where
  backup : q'.backupRequest = q.backupRequest
  type : q'.type = q.type
  number : q'.operationNumber = q.operationNumber
  remote : q'.remoteDataAddr = q.remoteDataAddr

theorem SameFirst.refl (q : MpioptRequest) : SameFirst q q := ⟨rfl, rfl, rfl, rfl⟩

theorem Moved.first {q q' : MpioptRequest} (h : Moved q q') : SameFirst q q' := by
  unfold Moved at h
  exact ⟨by rw [h], by rw [h], by rw [h], by rw [h]⟩

section
variable {p p' : Proc} {r : Rid} {posted delivered : Nat}

theorem Awaited.congr (h : Awaited p r) (hreq : SameFirst (p.reqs r) (p'.reqs r))
    (ha : p'.active r = p.active r) (hcall : p'.call ≠ .waitRecv r (.tested true))
    (hfirst : (p.reqs r).type = .recv → ∃ pt, p'.call = .waitRecv r pt) : Awaited p' r where
  backup := hreq.backup ▸ h.backup
  active := ha ▸ h.active
  call := hcall
  first ht := ⟨hreq.number ▸ (h.first (hreq.type ▸ ht)).1, hfirst (hreq.type ▸ ht)⟩

/-- The function the user called goes on, or it works on another request. -/
theorem Backup.congr (h : Backup p r posted delivered) (hreq : SameFirst (p.reqs r) (p'.reqs r))
    (ha : p'.active r = p.active r)
    (hcall : (p'.call = p.call ∧ (p.nested = [] → p'.nested = [])) ∨
      (p.call.rid ≠ some r ∧ p'.call.rid ≠ some r)) : Backup p' r posted delivered := by
  have hother : ∀ {q : Proc} {f : Call}, q.call.rid ≠ some r → f.rid = some r → q.call ≠ f := by
    rintro q f hq hf rfl
    exact hq hf
  refine ⟨h.le, h.one, fun ht => ?_, fun ht => ?_⟩
  · have hs := h.searching (hreq.type ▸ ht)
    refine ⟨?_, ?_, ?_, fun pt hpt => ?_, fun hpt => ?_, fun hpt => ?_⟩
    · rw [hreq.number, ha]
      exact hs.number
    · rw [hreq.backup]
      exact hs.count
    · rw [hreq.backup, ha]
      exact hs.started
    · rw [hreq.backup, hreq.remote]
      rcases hcall with ⟨hcall, -⟩ | ⟨-, hcall⟩
      · exact hs.start pt (hcall ▸ hpt)
      · exact absurd hpt (hother hcall rfl)
    · rw [hreq.remote]
      rcases hcall with ⟨hcall, hn⟩ | ⟨-, hcall⟩
      · obtain ⟨h0, hnil⟩ := hs.fallback (hcall ▸ hpt)
        exact ⟨h0, hn hnil⟩
      · exact absurd hpt (hother hcall rfl)
    · rw [hreq.backup]
      rcases hcall with ⟨hcall, -⟩ | ⟨-, hcall⟩
      · exact hs.decide (hcall ▸ hpt)
      · exact absurd hpt (hother hcall rfl)
  · have hs := h.settled (hreq.type ▸ ht)
    refine ⟨hreq.number ▸ hs.number, by rw [hreq.type, hreq.number]; exact hs.count, ?_⟩
    refine hs.done.imp id fun hw => ?_
    rcases hcall with ⟨hcall, -⟩ | ⟨hp, hp'⟩
    · exact hw.congr hreq ha (hcall ▸ hw.call) fun ht => hcall ▸ (hw.first ht).2
    · refine hw.congr hreq ha (hother hp' rfl) fun ht => ?_
      obtain ⟨pt, hpt⟩ := (hw.first ht).2
      exact absurd hpt (hother hp rfl)

/-- Where the request is not being waited for, its receives have their messages. -/
theorem Settled.all (h : Settled p r posted delivered)
    (hno : p.active r = false ∨ (p.reqs r).backupRequest = none ∨
      p.call = .waitRecv r (.tested true) ∨
      ((p.reqs r).type = .recv ∧ ∀ pt, p.call ≠ .waitRecv r pt)) : delivered = posted := by
  refine h.done.resolve_right fun hw => ?_
  rcases hno with hno | hno | hno | ⟨ht, hno⟩
  · simp [hw.active] at hno
  · exact absurd hw.backup (by simp [hno])
  · exact hw.call hno
  · obtain ⟨pt, hpt⟩ := (hw.first ht).2
    exact hno pt hpt

/-- Once all the receives have their messages, the request may be anywhere. -/
theorem Backup.rest (h : Backup p r posted delivered) (ht : (p.reqs r).type ≠ .recvSearch)
    (hall : delivered = posted) (hreq : SameFirst (p.reqs r) (p'.reqs r)) :
    Backup p' r posted delivered := by
  have hs := h.settled ht
  exact ⟨h.le, h.one, fun ht' => absurd (hreq.type ▸ ht') ht, fun _ =>
    ⟨hreq.number ▸ hs.number, by rw [hreq.type, hreq.number]; exact hs.count, Or.inl hall⟩⟩

/-- The search goes on. -/
theorem Backup.search (h : Backup p r posted delivered) (ht : (p.reqs r).type = .recvSearch)
    (hreq : SameFirst (p.reqs r) (p'.reqs r)) (ha : p'.active r = p.active r)
    (hstart : ∀ pt, p'.call = .startRecv r pt → ∃ pt', p.call = .startRecv r pt')
    (hfall : p'.call = .startRecv r .fallback → (p.reqs r).remoteDataAddr = 0 ∧ p'.nested = [])
    (hdecide : p'.call = .waitRecv r .decide → (p.reqs r).backupRequest.isSome = true) :
    Backup p' r posted delivered := by
  have hs := h.searching ht
  refine ⟨h.le, h.one, fun _ => ⟨?_, ?_, ?_, fun pt hpt => ?_, fun hpt => ?_, fun hpt => ?_⟩,
    fun ht' => absurd (hreq.type.trans ht) ht'⟩
  · rw [hreq.number, ha]
    exact hs.number
  · rw [hreq.backup]
    exact hs.count
  · rw [hreq.backup, ha]
    exact hs.started
  · rw [hreq.backup, hreq.remote]
    obtain ⟨pt', hpt'⟩ := hstart pt hpt
    exact hs.start pt' hpt'
  · rw [hreq.remote]
    exact hfall hpt
  · rw [hreq.backup]
    exact hdecide hpt

/-- The receive is posted. -/
theorem Backup.post {n : Nat} (h : Backup p r posted delivered) (ht : (p.reqs r).type = .recvSearch)
    (hb : (p.reqs r).backupRequest = none) (ha : p.active r = true)
    (hreq : p'.reqs r = { p.reqs r with backupRequest := some n }) (ha' : p'.active r = true)
    (hstart : ∀ pt, p'.call = .startRecv r pt → (p.reqs r).remoteDataAddr ≠ 0)
    (hfall : p'.call ≠ .startRecv r .fallback) : Backup p' r (posted + 1) delivered := by
  have hs := h.searching ht
  have hsome : (p'.reqs r).backupRequest.isSome = true := by rw [hreq]; rfl
  have hremote : (p'.reqs r).remoteDataAddr = (p.reqs r).remoteDataAddr := by rw [hreq]
  have hzero : posted = 0 := by
    have := hs.count
    simpa [hb] using this
  refine ⟨Nat.le_succ_of_le h.le, by omega, fun _ => ⟨?_, ?_, fun _ => ha', fun pt hpt _ => ?_,
    fun hpt => absurd hpt hfall, fun _ => hsome⟩, fun ht' => absurd ?_ ht'⟩
  · have hnum := hs.number
    rw [hreq, ha']
    rwa [ha] at hnum
  · rw [if_pos hsome, hzero]
  · rw [hremote]
    exact hstart pt hpt
  · rw [hreq]
    exact ht

/-- The receive is tested. -/
theorem Backup.test {ans : Answer} (h : Backup p r posted delivered)
    (ht : (p.reqs r).type ≠ .recvSearch) (hans : ans.flag = true → posted = delivered) :
    Backup (p.testBackup ans r) r posted delivered ∧
      (p.backupDone ans r = true → delivered = posted) := by
  have hdone : p.backupDone ans r = true → delivered = posted := by
    intro hd
    simp only [Proc.backupDone, Bool.or_eq_true, Option.isNone_iff_eq_none] at hd
    rcases hd with hnone | hflag
    · exact (h.settled ht).all (Or.inr (Or.inl hnone))
    · exact (hans hflag).symm
  refine ⟨?_, hdone⟩
  by_cases hd : p.backupDone ans r = true
  · have hs := h.settled ht
    have hreq : (p.testBackup ans r).reqs r = { p.reqs r with backupRequest := none } := by
      simp [Proc.testBackup, hd, Proc.setReq]
    refine ⟨h.le, h.one, fun ht' => absurd ?_ ht, fun _ => ⟨?_, ?_, Or.inl (hdone hd)⟩⟩
    · rwa [hreq] at ht'
    · rw [hreq]
      exact hs.number
    · rw [hreq]
      exact hs.count
  · rw [Proc.testBackup, if_neg hd]
    exact h

end

/-! ### Steps of the process -/

namespace Proc

section
variable {p p' : Proc} {r : Rid} {posted delivered : Nat} {ans : Answer} {c : Option MpiCall}

theorem runFrame_posts {f : Frame} (h : (p.runFrame ans f).2 = some (.irecv r)) : f.rid = some r := by
  cases f with
  | progressOther current rest =>
      cases rest with
      | nil => simp [runFrame] at h
      | cons q rest =>
          simp only [runFrame] at h
          split at h
          · simp at h
          · unfold progressRequest at h
            split at h <;> simp at h
  | progressWaiting q pt =>
      cases pt with
      | probe =>
          simp only [runFrame] at h
          split at h
          · split at h <;> simp at h
          · simp at h
      | post =>
          simp only [runFrame] at h
          split at h
          · simpa [Frame.rid] using h
          · simp at h
  | receiveInfo q pt => cases pt <;> simp [runFrame] at h
  | progressRecv q pt => simp [runFrame] at h

theorem runCall_posts {f : Call} (hrun : p.runCall ans f = some (p', some (.irecv r))) :
    f.rid = some r := by
  cases f with
  | none => simp [runCall] at hrun
  | startRecv q pt =>
      cases pt <;> simp only [runCall] at hrun
      · cases hrun
      · split at hrun <;> cases hrun
      · cases hrun
        rfl
      · split at hrun <;> cases hrun
        rfl
  | waitRecv q pt =>
      cases pt <;> simp only [runCall] at hrun
      · split at hrun <;> cases hrun
      · cases hrun
      · split at hrun <;> cases hrun
        rfl
      · cases hrun
      · cases hrun
      · split at hrun <;> cases hrun
  | startSend q pt => cases pt <;> cases hrun
  | waitSend q pt =>
      cases pt <;> simp only [runCall] at hrun
      · cases hrun
      · cases hrun
      · cases hrun
      · split at hrun <;> cases hrun
  | mpiWait q =>
      simp only [runCall] at hrun
      split at hrun <;> cases hrun
  | _ => cases hrun

/-- A step posts receives for requests that were initialised. -/
theorem run_posts (hK : Known p) (hrun : p.run ans = some (p', some (.irecv r))) : r < p.nextRid := by
  unfold run at hrun
  split at hrun
  · rename_i f below hn
    have hrid : f.rid = some r := runFrame_posts (by rw [Option.some.inj hrun])
    refine hK.nested f (by simp [hn]) r ?_
    cases f with
    | progressOther current rest => cases rest <;> simp_all [Frame.rid, Frame.rids]
    | _ => simp_all [Frame.rid, Frame.rids]
  · exact hK.call r (runCall_posts hrun)

/-- Start posts a receive for its own request. -/
theorem start_posts {q : Rid} (h : (p.start q).2 = some (.irecv r)) : r = q := by
  unfold start at h
  split at h <;> simp at h
  exact h.symm

/-- **A function on the stack** that works on the request. -/
theorem backup_frame {f : Frame} {fs : List Frame} (h : Backup p r posted delivered)
    (hn : p.nested = f :: fs) (hf : f.rid = some r)
    (hrecv : (p.reqs r).type.isRecv = true)
    (hnest : f = .receiveInfo r .recv → (p.reqs r).remoteDataAddr = 0)
    (hans : ∀ x, ((p.setNested fs).runFrame ans f).2 = some x → x.tests = some r →
      ans.flag = true → posted = delivered) :
    Backup ((p.setNested fs).runFrame ans f).1 r
      (posted + posts r ((p.setNested fs).runFrame ans f).2) delivered := by
  have hne : p.nested ≠ [] := by simp [hn]
  have hsame : ∀ {p₁ : Proc}, SameFirst (p.reqs r) (p₁.reqs r) → p₁.active r = p.active r →
      p₁.call = p.call → Backup p₁ r posted delivered :=
    fun hreq ha hcall => h.congr hreq ha (Or.inl ⟨hcall, fun hn => absurd hn hne⟩)
  cases f with
  | progressOther current rest =>
      cases rest with
      | nil => simp [Frame.rid] at hf
      | cons q rest =>
          obtain rfl : q = r := by simpa [Frame.rid] using hf
          simp only [runFrame] at hans ⊢
          split at hans <;> rename_i hq
          · rw [if_pos hq]
            exact hsame (.refl _) rfl rfl
          · rw [if_neg hq]
            have hbelow : Backup ((p.setNested fs).push (.progressOther current rest)) q posted
                delivered := hsame (.refl _) rfl rfl
            unfold progressRequest at hans ⊢
            split at hans <;> rename_i htype <;>
              simp only [show ((p.setNested fs).push (.progressOther current rest)).reqs q =
                p.reqs q from rfl] at htype
            · simp [htype, RequestType.isRecv] at hrecv
            · exact hsame (.refl _) rfl rfl
            · simp [htype, RequestType.isRecv] at hrecv
            · exact hsame (.refl _) rfl rfl
            · simp [htype, RequestType.isRecv] at hrecv
            · exact (hbelow.test (by simp [setNested, push, htype]) (hans _ rfl rfl)).1
  | progressWaiting q pt =>
      obtain rfl : q = r := by simpa [Frame.rid] using hf
      cases pt with
      | probe =>
          simp only [runFrame]
          split
          · split <;> exact hsame (.refl _) rfl rfl
          · exact hsame (.refl _) rfl rfl
      | post =>
          simp only [runFrame]
          split
          · rename_i hpost
            obtain ⟨hremote, htype, hb, hnum⟩ := hpost
            have hact : p.active q = true := by
              have hnum' := (h.searching htype).number
              by_contra hno
              rw [if_neg hno] at hnum'
              have hnum'' : (p.reqs q).operationNumber = 1 := hnum
              omega
            have hposts : posts q (some (.irecv q)) = 1 := if_pos rfl
            rw [hposts]
            refine h.post (n := p.nextHandle) htype hb hact ?_ hact (fun _ _ => hremote) ?_
            · simp [postBackup, setReq, setNested]
            · intro hcall
              exact hne ((h.searching htype).fallback hcall).2
          · exact hsame (.refl _) rfl rfl
  | receiveInfo q pt =>
      obtain rfl : q = r := by simpa [Frame.rid] using hf
      cases pt with
      | recv =>
          set p₁ := ((p.setNested fs).runFrame ans (.receiveInfo q .recv)).1 with hp₁
          have hreq : p₁.reqs q = { p.reqs q with
              remoteDataAddr := (p.counterpart q).dataAddr
              remoteFlagAddr := (p.counterpart q).flagAddr
              remoteDataRkey := (p.counterpart q).dataRkey
              remoteFlagRkey := (p.counterpart q).flagRkey } := by
            simp [hp₁, runFrame, push, setReq, assert, setNested]
          refine ⟨h.le, h.one, fun ht => ?_, fun ht => ?_⟩
          · rw [hreq] at ht
            have hs := h.searching ht
            refine ⟨by rw [hreq]; exact hs.number, by rw [hreq]; exact hs.count,
              by rw [hreq]; exact hs.started, fun pt hpt hb => ?_, fun hpt => ?_, fun hpt => ?_⟩
            · rw [hreq] at hb
              exact absurd (hnest rfl) (hs.start pt hpt hb)
            · exact absurd (hs.fallback hpt).2 hne
            · rw [hreq]
              exact hs.decide hpt
          · rw [hreq] at ht
            have hs := h.settled ht
            refine ⟨by rw [hreq]; exact hs.number, by rw [hreq]; exact hs.count,
              hs.done.imp id fun hw => ⟨by rw [hreq]; exact hw.backup, hw.active, hw.call, ?_⟩⟩
            rw [hreq]
            exact hw.first
      | test =>
          have hf := testExchange_frame (p := p.setNested fs) ans q
          have hreq : SameFirst (p.reqs q) (((p.setNested fs).testExchange ans q).reqs q) := by
            unfold testExchange
            split
            · refine ⟨?_, ?_, ?_, ?_⟩ <;> simp [setReq, setNested]
            · exact .refl _
          simp only [runFrame]
          split <;> exact hsame hreq (congrFun hf.2.2.1 q) hf.2.1
  | progressRecv q pt =>
      obtain rfl : q = r := by simpa [Frame.rid] using hf
      have hm : Moved (p.reqs q)
          (progressRecvRequest (Prod.mk q) (p.toEp q) ans.imm pt (p.loc q)).2.req :=
        moved_progressRecvRequest (l := p.loc q) pt
      show Backup ((p.setNested fs).resumeProgress q
        (progressRecvRequest (Prod.mk q) (p.toEp q) ans.imm pt (p.loc q))) q posted delivered
      generalize progressRecvRequest (Prod.mk q) (p.toEp q) ans.imm pt (p.loc q) = x at hm ⊢
      obtain ⟨o, l⟩ := x
      have hreq : SameFirst (p.reqs q) (((p.setNested fs).setLoc q l).reqs q) := by
        simpa only [setLoc, Function.update_self] using hm.first
      cases o <;> exact hsame hreq rfl rfl

/-- A function that moves data changes nothing the receives depend on. -/
theorem resume_first {P : Type} {q : Rid} {next : P → Call} {done : Proc → Proc}
    {x : Outcome P × Local (Rid × RdmaOp)} (hdone : done = ret ∨ done = (·.finish q))
    (hm : Moved (p.reqs q) x.2.req) : SameFirst (p.reqs q) ((p.resume q next done x).reqs q) := by
  obtain ⟨o, l⟩ := x
  have hreq : SameFirst (p.reqs q) ((p.setLoc q l).reqs q) := by
    simpa only [setLoc, Function.update_self] using hm.first
  cases o with
  | goto pt => exact hreq
  | progressOther pt => exact hreq
  | ret => rcases hdone with rfl | rfl <;> exact hreq

/-- `start_recv_when_searching_for_connection`. -/
theorem backup_startRecv {pt : StartRecvSearch} (h : Backup p r posted delivered) (hn : p.nested = [])
    (hcall : p.call = .startRecv r pt) (ht : (p.reqs r).type = .recvSearch) (ha : p.active r = true)
    (hrun : p.runCall ans (.startRecv r pt) = some (p', c)) :
    Backup p' r (posted + posts r c) delivered := by
  have hs := h.searching ht
  have hpost : posts r (some (.irecv r)) = 1 := if_pos rfl
  have hsearch : ∀ {p₁ : Proc}, p₁.reqs r = p.reqs r → p₁.active r = p.active r →
      p₁.call.rid = some r ∨ p₁.call = .none →
      (p₁.call = .startRecv r .fallback → (p.reqs r).remoteDataAddr = 0 ∧ p₁.nested = []) →
      p₁.call ≠ .waitRecv r .decide → Backup p₁ r posted delivered :=
    fun hreq ha _ hfall hno => h.search ht (hreq ▸ .refl _) ha (fun _ _ => ⟨pt, hcall⟩) hfall
      fun hd => absurd hd hno
  cases pt with
  | progress =>
      cases hrun
      exact hsearch rfl rfl (Or.inl rfl) (by simp [push, setCall]) (by simp [push, setCall])
  | probe =>
      simp only [runCall] at hrun
      split at hrun <;> rename_i h0
      · split at hrun <;> cases hrun
        · exact hsearch rfl rfl (Or.inl rfl) (fun _ => ⟨h0, hn⟩) (by simp [setCall])
        · exact hsearch rfl rfl (Or.inr rfl) (by simp [ret]) (by simp [ret])
      · cases hrun
        exact hsearch rfl rfl (Or.inl rfl) (by simp [setCall]) (by simp [setCall])
  | fallback =>
      cases hrun
      have hb : (p.reqs r).backupRequest = none := by
        have h0 := (hs.fallback hcall).1
        by_contra hne
        exact hs.start _ hcall (Option.isSome_iff_ne_none.mpr hne) h0
      rw [hpost]
      refine h.post (n := p.nextHandle) ht hb ha ?_ ha (by simp [ret]) (by simp [ret])
      simp [ret, postBackup, setReq, assert]
  | post =>
      simp only [runCall] at hrun
      split at hrun <;> rename_i hb <;> cases hrun
      · rw [hpost]
        refine h.post (n := p.nextHandle) ht (Option.isNone_iff_eq_none.mp hb) ha ?_ ha
          (by simp [ret]) (by simp [ret])
        simp [ret, postBackup, setReq]
      · exact hsearch rfl rfl (Or.inr rfl) (by simp [ret]) (by simp [ret])

/-- `wait_recv_when_searching_for_connection`. -/
theorem backup_waitRecv {pt : WaitRecvSearch} (h : Backup p r posted delivered)
    (hcall : p.call = .waitRecv r pt) (ha : p.active r = true)
    (ht : if pt.undecided then (p.reqs r).type = .recvSearch
      else (p.reqs r).type = .recv ∨ (p.reqs r).type = .recvFallback)
    (hans : ∀ x, c = some x → x.tests = some r → ans.flag = true → posted = delivered)
    (hrun : p.runCall ans (.waitRecv r pt) = some (p', c)) :
    Backup p' r (posted + posts r c) delivered := by
  have hsearch : ∀ {p₁ : Proc}, (p.reqs r).type = .recvSearch → p₁.reqs r = p.reqs r →
      p₁.active r = p.active r →
      (∃ pt', p₁.call = .waitRecv r pt') →
      (p₁.call = .waitRecv r .decide → (p.reqs r).backupRequest.isSome = true) →
      Backup p₁ r posted delivered := by
    rintro p₁ ht hreq ha ⟨pt', hpt'⟩ hdec
    exact h.search ht (hreq ▸ .refl _) ha (by simp [hpt']) (by simp [hpt']) hdec
  cases pt with
  | probe flag =>
      simp only [runCall] at hrun
      split at hrun <;> cases hrun
      · exact hsearch ht rfl rfl ⟨_, rfl⟩ (by simp [progressOther, push, setCall])
      · exact hsearch ht rfl rfl ⟨_, rfl⟩ (by simp [setCall])
  | progress flag =>
      cases hrun
      exact hsearch ht rfl rfl ⟨_, rfl⟩ (by simp [push, setCall])
  | post =>
      simp only [runCall] at hrun
      split at hrun <;> rename_i hb <;> cases hrun
      · rw [show posts r (some (.irecv r)) = 1 from if_pos rfl]
        refine h.post (n := p.nextHandle) ht (Option.isNone_iff_eq_none.mp hb) ha ?_ ha
          (by simp [postBackup, setReq, setCall]) (by simp [postBackup, setReq, setCall])
        simp [postBackup, setReq, setCall]
      · refine hsearch ht rfl rfl ⟨_, rfl⟩ fun _ => ?_
        rwa [Bool.not_eq_true, Option.isNone_eq_false_iff] at hb
  | decide =>
      cases hrun
      have hs := h.searching ht
      have hb := hs.decide hcall
      have hnum : (p.reqs r).operationNumber = 1 := by
        have := hs.number
        rwa [if_pos ha] at this
      have hcount : posted = 1 := by
        have := hs.count
        rwa [if_pos hb] at this
      set p₁ := (p.setReq r fun q => { q with
        type := if q.remoteDataAddr = 0 then .recvFallback else .recv }).setCall (.waitRecv r .test)
        with hp₁
      have hreq : p₁.reqs r = { p.reqs r with
          type := if (p.reqs r).remoteDataAddr = 0 then .recvFallback else .recv } := by
        simp [hp₁, setReq, setCall]
      refine ⟨h.le, h.one, fun ht' => ?_, fun _ => ⟨?_, ?_, Or.inr ?_⟩⟩
      · rw [hreq] at ht'
        simp only at ht'
        split at ht' <;> simp at ht'
      · rw [hreq]
        exact Int.le_of_eq hnum.symm
      · rw [hreq]
        show ((posted : Int) = if _ then 1 else (p.reqs r).operationNumber)
        rw [hnum, hcount, ite_self]
        rfl
      · refine ⟨by rw [hreq]; exact hb, ha, by simp [hp₁, setCall], fun _ => ⟨?_, _, rfl⟩⟩
        rw [hreq]
        exact hnum
  | test =>
      cases hrun
      have ht' : (p.reqs r).type ≠ .recvSearch := by
        rcases ht with ht | ht <;> simp [ht]
      obtain ⟨htest, hall⟩ := h.test ht' (hans _ rfl rfl)
      have hframe := testBackup_frame (p := p) ans r
      have htype := testBackup_type (p := p) ans r r
      show Backup (((p.testBackup ans r).setCall (.waitRecv r (.tested (p.backupDone ans r)))).progressOther
        r) r posted delivered
      by_cases hd : p.backupDone ans r = true
      · exact htest.rest (htype ▸ ht') (hall hd) (.refl _)
      · have hp : p.testBackup ans r = p := by rw [testBackup, if_neg hd]
        rw [hp, eq_false_of_ne_true hd]
        have hs := h.settled ht'
        refine ⟨h.le, h.one, fun ht => absurd ht ht', fun _ => ⟨hs.number, hs.count, ?_⟩⟩
        exact hs.done.imp id fun hw => hw.congr (.refl _) rfl (by simp [progressOther, push, setCall])
          fun _ => ⟨_, rfl⟩
  | tested flag =>
      have ht' : (p.reqs r).type ≠ .recvSearch := by
        rcases ht with ht | ht <;> simp [ht]
      have hs := h.settled ht'
      simp only [runCall] at hrun
      split at hrun <;> rename_i hf <;> cases hrun
      · subst hf
        exact h.rest ht' (hs.all (Or.inr (Or.inr (Or.inl hcall)))) (.refl _)
      · refine ⟨h.le, h.one, fun ht => absurd ht ht', fun _ => ⟨hs.number, hs.count, ?_⟩⟩
        exact hs.done.imp id fun hw => hw.congr (.refl _) rfl (by simp [setCall]) fun _ => ⟨_, rfl⟩

/-- **A function of the interface** that works on the request. -/
theorem backup_call (h : Backup p r posted delivered) (hS : Shape p) (hn : p.nested = [])
    (hf : p.call.rid = some r) (hrecv : (p.reqs r).type.isRecv = true)
    (hans : ∀ x, c = some x → x.tests = some r → ans.flag = true → posted = delivered)
    (hrun : p.runCall ans p.call = some (p', c)) : Backup p' r (posted + posts r c) delivered := by
  have htyped := hS.typed
  have hsend : ∀ {t : RequestType}, (p.reqs r).type = t → t.isRecv = false → False := by
    rintro t ht hno
    rw [ht, hno] at hrecv
    exact Bool.false_ne_true hrecv
  -- `b_recv` and `e_recv` run once the first operation is over
  have hmove : ∀ {p₁ : Proc}, (p.reqs r).type = .recv → (∀ pt, p.call ≠ .waitRecv r pt) →
      SameFirst (p.reqs r) (p₁.reqs r) → Backup p₁ r posted delivered := by
    intro p₁ ht hno hreq
    have ht' : (p.reqs r).type ≠ .recvSearch := by simp [ht]
    exact h.rest ht' ((h.settled ht').all (Or.inr (Or.inr (Or.inr ⟨ht, hno⟩)))) hreq
  cases hcall : p.call with
  | none => simp [hcall, Call.rid] at hf
  | bSend q pt =>
      obtain rfl : q = r := by simpa [hcall, Call.rid] using hf
      simp only [Typed, hcall] at htyped
      exact (hsend htyped.2 rfl).elim
  | eSend q w =>
      obtain rfl : q = r := by simpa [hcall, Call.rid] using hf
      simp only [Typed, hcall] at htyped
      exact (hsend htyped.2 rfl).elim
  | startSend q pt =>
      obtain rfl : q = r := by simpa [hcall, Call.rid] using hf
      simp only [Typed, hcall] at htyped
      exact (hsend htyped.2 rfl).elim
  | waitSend q pt =>
      obtain rfl : q = r := by simpa [hcall, Call.rid] using hf
      simp only [Typed, hcall] at htyped
      rcases htyped.2 with ht | ht <;> exact (hsend ht rfl).elim
  | bRecv q pt =>
      obtain rfl : q = r := by simpa [hcall, Call.rid] using hf
      simp only [Typed, hcall] at htyped
      rw [hcall] at hrun
      cases hrun
      exact hmove htyped.2 (by simp [hcall])
        (resume_first (Or.inl rfl) (moved_bRecv (l := p.loc q) pt))
  | eRecv q w =>
      obtain rfl : q = r := by simpa [hcall, Call.rid] using hf
      simp only [Typed, hcall] at htyped
      rw [hcall] at hrun
      cases hrun
      exact hmove htyped.2 (by simp [hcall])
        (resume_first (Or.inr rfl) (moved_eRecv (l := p.loc q) w))
  | startRecv q pt =>
      obtain rfl : q = r := by simpa [hcall, Call.rid] using hf
      simp only [Typed, hcall] at htyped
      rw [hcall] at hrun
      exact backup_startRecv h hn hcall htyped.2 htyped.1 hrun
  | waitRecv q pt =>
      obtain rfl : q = r := by simpa [hcall, Call.rid] using hf
      simp only [Typed, hcall] at htyped
      rw [hcall] at hrun
      exact backup_waitRecv h hcall htyped.1 htyped.2 hans hrun
  | mpiWait q =>
      obtain rfl : q = r := by simpa [hcall, Call.rid] using hf
      simp only [Typed, hcall] at htyped
      have ht' : (p.reqs q).type ≠ .recvSearch := by
        rcases htyped.2 with ht | ht <;> simp [ht]
      rw [hcall] at hrun
      simp only [runCall] at hrun
      split at hrun <;> rename_i hd <;> cases hrun
      · obtain ⟨htest, hall⟩ := h.test ht' (hans _ rfl rfl)
        exact htest.rest (testBackup_type (p := p) ans q q ▸ ht') (hall hd) (.refl _)
      · exact h

/-- **A step of the process.** -/
theorem backup_run (h : Backup p r posted delivered) (hS : Shape p) (hK : Known p)
    (hrecv : (p.reqs r).type.isRecv = true)
    (hnest : ∀ below, p.nested = .receiveInfo r .recv :: below → (p.reqs r).remoteDataAddr = 0)
    (hans : ∀ x, c = some x → x.tests = some r → ans.flag = true → posted = delivered)
    (hrun : p.run ans = some (p', c)) : Backup p' r (posted + posts r c) delivered := by
  have hzero : (c = some (.irecv r) → p.works = some r) → p.works ≠ some r → posts r c = 0 :=
    fun hw hne => if_neg fun hc => hne (hw hc)
  by_cases hw : p.works = some r
  · unfold run at hrun
    unfold works at hw
    split at hrun
    · rename_i f below hn
      rw [hn] at hw
      have hpair := Option.some.inj hrun
      have hp : p' = ((p.setNested below).runFrame ans f).1 := by rw [hpair]
      have hc : c = ((p.setNested below).runFrame ans f).2 := by rw [hpair]
      subst hp hc
      exact backup_frame h hn hw hrecv (fun hf => hnest below (by rw [hn, hf])) hans
    · rename_i hn
      rw [hn] at hw
      exact backup_call h hS hn hw hrecv hans hrun
  · obtain ⟨hreq, hact⟩ := run_other hw hrun
    unfold run at hrun
    unfold works at hw hzero
    split at hrun
    · rename_i f below hn
      rw [hn] at hw hzero
      have hpair := Option.some.inj hrun
      have hp : p' = ((p.setNested below).runFrame ans f).1 := by rw [hpair]
      have hcall : p'.call = p.call := hp ▸ (runFrame_frames hS hK hn).call
      rw [hzero (fun h => runFrame_posts (by rw [hpair]; exact h)) hw]
      exact h.congr (hreq ▸ .refl _) hact (Or.inl ⟨hcall, by simp [hn]⟩)
    · rename_i hn
      rw [hn] at hw hzero
      rw [hzero (fun h => runCall_posts (h ▸ hrun)) hw]
      refine h.congr (hreq ▸ .refl _) hact (Or.inr ⟨hw, ?_⟩)
      rcases (runCall_called hS hK hn hrun).call with hrid | hnone
      · rwa [hrid]
      · simp [hnone, Call.rid]

/-! ### The user's calls -/

theorem backup_start (h : Backup p r posted delivered) (hrecv : (p.reqs r).type.isRecv = true)
    {q : Rid} (hcall : p.call = .none) (ha : p.active q = false) :
    Backup (p.start q).1 r (posted + posts r (p.start q).2) delivered := by
  obtain ⟨-, -, -, hact, hreqs⟩ := start_frame (p := p) q
  by_cases hr : r = q
  · subst hr
    have hact' : (p.start r).1.active r = true := by rw [hact, Function.update_self]
    cases ht : (p.reqs r).type with
    | recv =>
        have ht' : (p.reqs r).type ≠ .recvSearch := by simp [ht]
        have hs := h.settled ht'
        have hreq : (p.start r).1.reqs r = { p.reqs r with
            operationNumber := (p.reqs r).operationNumber + 1 } := by
          simp [start, ht, setCall, setReq]
        have hcall' : (p.start r).2 = none := by simp [start, ht]
        rw [hcall']
        refine ⟨h.le, h.one, fun ht => absurd (by rwa [hreq] at ht) ht',
          fun _ => ⟨?_, ?_, Or.inl (hs.all (Or.inl ha))⟩⟩
        · rw [hreq]
          exact Int.le_add_one hs.number
        · rw [hreq]
          have := hs.count
          rwa [if_pos ht] at this ⊢
    | recvSearch =>
        have hs := h.searching ht
        have hzero : (p.reqs r).operationNumber = 0 := by
          have := hs.number
          rwa [if_neg (by simp [ha])] at this
        have hb : ¬ (p.reqs r).backupRequest.isSome = true := fun hb => by
          have := hs.started hb
          simp [ha] at this
        have hreq : (p.start r).1.reqs r = { p.reqs r with
            operationNumber := (p.reqs r).operationNumber + 1 } := by
          simp [start, ht, setCall, setReq]
        have hcall' : (p.start r).2 = none ∧ (p.start r).1.call = .startRecv r .progress := by
          simp [start, ht, setCall]
        rw [hcall'.1]
        refine ⟨h.le, h.one, fun _ => ⟨?_, by rw [hreq]; exact hs.count,
          fun _ => hact', fun _ _ hb' => ?_, fun hf => ?_, fun hf => ?_⟩, fun ht' => ?_⟩
        · rw [hreq, if_pos hact']
          show (p.reqs r).operationNumber + 1 = 1
          rw [hzero]
          rfl
        · rw [hreq] at hb'
          exact absurd hb' hb
        · simp [hcall'.2] at hf
        · simp [hcall'.2] at hf
        · rw [hreq] at ht'
          exact absurd ht ht'
    | recvFallback =>
        have ht' : (p.reqs r).type ≠ .recvSearch := by simp [ht]
        have hs := h.settled ht'
        have hreq : (p.start r).1.reqs r = { p.reqs r with
            operationNumber := (p.reqs r).operationNumber + 1, backupRequest := some p.nextHandle } := by
          simp [start, ht, setReq, postBackup, assert]
        have hcall' : (p.start r).2 = some (.irecv r) ∧ (p.start r).1.call = .none := by
          simp [start, ht, postBackup, setReq, assert, hcall]
        have hpost : posts r (some (.irecv r)) = 1 := if_pos rfl
        rw [hcall'.1, hpost]
        have hcount := hs.count
        rw [if_neg (by simp [ht])] at hcount
        refine ⟨Nat.le_succ_of_le h.le, by have := hs.all (Or.inl ha); omega, 
          fun ht => absurd (by rwa [hreq] at ht) ht', fun _ => ⟨?_, ?_, Or.inr ⟨?_, hact', ?_, ?_⟩⟩⟩
        · rw [hreq]
          exact Int.le_add_one hs.number
        · rw [hreq, if_neg (by simp [ht])]
          push_cast
          rw [hcount]
        · rw [hreq]
          rfl
        · simp [hcall'.2]
        · rw [hreq]
          simp [ht]
    | send => simp [ht, RequestType.isRecv] at hrecv
    | sendSearch => simp [ht, RequestType.isRecv] at hrecv
    | sendFallback => simp [ht, RequestType.isRecv] at hrecv
  · have hposts : posts r (p.start q).2 = 0 := if_neg fun hp => hr (start_posts hp)
    rw [hposts]
    refine h.congr (by rw [hreqs r hr]; exact .refl _) (by rw [hact, Function.update_of_ne hr])
      (Or.inr ⟨by simp [hcall, Call.rid], ?_⟩)
    unfold start
    split <;> simp [setCall, postBackup, assert, setReq, Call.rid, hcall, Ne.symm hr]

theorem backup_wait (h : Backup p r posted delivered) (hrecv : (p.reqs r).type.isRecv = true)
    {q : Rid} (hcall : p.call = .none) : Backup (p.wait q) r posted delivered := by
  obtain ⟨-, -, hact, hreqs, -⟩ := wait_frame (p := p) q
  by_cases hr : r = q
  · subst hr
    have hreq : SameFirst (p.reqs r) ((p.wait r).reqs r) := by
      rw [hreqs]
      exact .refl _
    cases ht : (p.reqs r).type with
    | recv =>
        have ht' : (p.reqs r).type ≠ .recvSearch := by simp [ht]
        refine h.rest ht' ((h.settled ht').all (Or.inr (Or.inr (Or.inr ⟨ht, ?_⟩)))) hreq
        simp [hcall]
    | recvSearch =>
        refine h.search ht hreq (congrFun hact r) ?_ ?_ ?_ <;>
          simp [wait, ht, setCall, assert]
    | recvFallback =>
        have ht' : (p.reqs r).type ≠ .recvSearch := by simp [ht]
        have hs := h.settled ht'
        have hcall' : (p.wait r).call = .mpiWait r := by simp [wait, ht, setCall]
        refine ⟨h.le, h.one, fun h => absurd (by rwa [hreqs] at h) ht',
          fun _ => ⟨by rw [hreqs]; exact hs.number, by rw [hreqs]; exact hs.count, ?_⟩⟩
        exact hs.done.imp id fun hw => hw.congr hreq (congrFun hact r) (by simp [hcall'])
          fun hrec => by simp [ht] at hrec
    | send => simp [ht, RequestType.isRecv] at hrecv
    | sendSearch => simp [ht, RequestType.isRecv] at hrecv
    | sendFallback => simp [ht, RequestType.isRecv] at hrecv
  · refine h.congr (by rw [hreqs]; exact .refl _) (congrFun hact r)
      (Or.inr ⟨by simp [hcall, Call.rid], ?_⟩)
    unfold wait
    split <;> simp [setCall, assert, Call.rid, Ne.symm hr]

end

end Proc

/-- A message arrives in the buffer of its receive. -/
theorem Backup.delivers {p : Proc} {r : Rid} {posted delivered : Nat}
    (h : Backup p r posted delivered) (hlt : delivered < posted) :
    Backup p r posted (delivered + 1) where
  le := hlt
  one := Nat.le_succ_of_le h.one
  searching := h.searching
  settled ht := by
    have hs := h.settled ht
    refine ⟨hs.number, hs.count, Or.inr (hs.done.resolve_left ?_)⟩
    omega

end CompMatch.Rendezvous

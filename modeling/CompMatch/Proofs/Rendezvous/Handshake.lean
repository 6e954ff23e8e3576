/-
When the two sides of a handshake agree.

Each side is looked at on its own, with what it needs to know about the other as a
parameter: the sender relies on receives for its payload being posted only once it has
found the receiver's info (`SendInv`), and the receiver, which posts them, on the
sender having found it when its own send completes (`RecvInv`).  The only place where
the receiver posts one without that is the payload overtaking the sender's info.
-/
import CompMatch.Proofs.Rendezvous.World
import CompMatch.Rendezvous.Handshake

namespace CompMatch.Rendezvous

namespace Proc

/-! ### The stack of a process with one request -/

/-- In `progress_other_requests`, which finds no other request, or out of it again. -/
def Others (p : Proc) : Prop :=
  p.nested = [] ∨ p.nested = [.progressOther 0 [0]] ∨ p.nested = [.progressOther 0 []]

/-- In `progress_request_waiting_for_rdma`, or out of it again. -/
def Searches (p : Proc) : Prop :=
  p.nested = [] ∨ p.nested = [.progressWaiting 0 .probe] ∨ p.nested = [.progressWaiting 0 .post] ∨
    ((p.reqs 0).remoteDataAddr = 0 ∧
      p.nested = [.receiveInfo 0 .recv, .progressWaiting 0 .post]) ∨
    ((p.reqs 0).remoteDataAddr ≠ 0 ∧
      (p.nested = [.receiveInfo 0 .test, .progressWaiting 0 .post] ∨
        p.nested = [.progressOther 0 [0], .receiveInfo 0 .test, .progressWaiting 0 .post] ∨
        p.nested = [.progressOther 0 [], .receiveInfo 0 .test, .progressWaiting 0 .post]))

/-- The process has its one request, and the counterpart's buffer is not `NULL`. -/
structure Solo (p : Proc) : Prop where
  requestList : p.requestList = [0]
  nextRid : p.nextRid = 1
  dataAddr : (p.counterpart 0).dataAddr ≠ 0

/-- The counterpart's info was found. -/
def Found (p : Proc) : Prop :=
  (p.reqs 0).remoteDataAddr ≠ 0 ∨ p.nested = [.receiveInfo 0 .recv, .progressWaiting 0 .post]

/-- Its own send of the info has completed, if the process has got the counterpart's and does not
wait for that. -/
def Told (p : Proc) : Prop :=
  (p.reqs 0).remoteDataAddr ≠ 0 →
    .receiveInfo 0 .test ∈ p.nested ∨ (p.reqs 0).rdmaExchangeRequestSend = none

/-- What a step on the stack leaves as it is. -/
structure Stays (p p' : Proc) : Prop where
  call : p'.call = p.call
  active : p'.active = p.active
  solo : Solo p → Solo p'
  type : (p'.reqs 0).type = (p.reqs 0).type
  number : (p'.reqs 0).operationNumber = (p.reqs 0).operationNumber

section
variable {p p' : Proc} {ans : Answer} {c : Option MpiCall}

theorem Others.run (h : p.Others) (hn : p.nested ≠ []) (hrun : p.run ans = some (p', c)) :
    Stays p p' ∧ p'.Others ∧ p'.reqs = p.reqs ∧ c = none := by
  rcases h with h | h | h
  · exact absurd h hn
  · simp only [Proc.run, h, runFrame, if_true] at hrun
    cases hrun
    exact ⟨⟨rfl, rfl, fun hs => ⟨hs.1, hs.2, hs.3⟩, rfl, rfl⟩, Or.inr (Or.inr rfl), rfl, rfl⟩
  · simp only [Proc.run, h, runFrame] at hrun
    cases hrun
    exact ⟨⟨rfl, rfl, fun hs => ⟨hs.1, hs.2, hs.3⟩, rfl, rfl⟩, Or.inl rfl, rfl, rfl⟩

/-- The two stacks have nothing in common but being empty. -/
theorem Searches.not_others (h : p.Searches) (hn : p.nested ≠ []) : ¬ p.Others := by
  rintro (ho | ho | ho)
  · exact hn ho
  all_goals rcases h with h | h | h | ⟨-, h⟩ | ⟨-, h | h | h⟩ <;> simp [ho] at h

/-- With nothing on the stack, the function that was called goes on. -/
theorem run_of_nil (hn : p.nested = []) (hrun : p.run ans = some (p', c)) :
    p.runCall ans p.call = some (p', c) := by
  simpa [Proc.run, hn] using hrun

theorem Solo.congr (hs : Solo p) (hl : p'.requestList = p.requestList) (hr : p'.nextRid = p.nextRid)
    (hc : p'.counterpart = p.counterpart) : Solo p' :=
  ⟨hl.trans hs.1, hr.trans hs.2, by rw [hc]; exact hs.3⟩

/-- What a step of `progress_request_waiting_for_rdma` does. -/
structure SearchStep (ans : Answer) (p p' : Proc) (c : Option MpiCall) : Prop where
  stays : Stays p p'
  searches : p'.Searches
  found : p.Found → p'.Found
  told : p.Told → p'.Told
  calls : c = none ∨ c = some (.iprobe 0 (p.commToUse 0)) ∨
    (c = some (.recv 0 (p.commToUse 0)) ∧ p.Found) ∨ c = some (.testExchange 0) ∨ c = some (.irecv 0)
  /-- A receive is posted by a receiver that is out of `receive_rdma_info`. -/
  posts : ∀ r, c = some (.irecv r) → (p.reqs 0).type = .recvSearch ∧ (p.reqs 0).remoteDataAddr ≠ 0 ∧
    .receiveInfo 0 .test ∉ p.nested
  backup : (p'.reqs 0).backupRequest = (p.reqs 0).backupRequest ∨ (p.reqs 0).type = .recvSearch
  exchange : (p'.reqs 0).rdmaExchangeRequestSend = (p.reqs 0).rdmaExchangeRequestSend ∨
    (c = some (.testExchange 0) ∧ ans.flag = true)

theorem Searches.run (h : p.Searches) (hs : p.Solo) (hn : p.nested ≠ [])
    (hrun : p.run ans = some (p', c)) : SearchStep ans p p' c := by
  rcases h with h | h | h | ⟨hr, h⟩ | ⟨hr, h⟩
  · exact absurd h hn
  · -- the probe
    simp only [Proc.run, h, runFrame] at hrun
    by_cases hr : (p.reqs 0).remoteDataAddr = 0
    · have hr' : ((p.setNested []).reqs 0).remoteDataAddr = 0 := hr
      rw [if_pos hr'] at hrun
      by_cases hf : ans.flag = true
      · rw [if_pos hf] at hrun
        cases hrun
        exact ⟨⟨rfl, rfl, fun hs => ⟨hs.1, hs.2, hs.3⟩, rfl, rfl⟩,
          Or.inr (Or.inr (Or.inr (Or.inl ⟨hr, rfl⟩))), fun _ => Or.inr rfl, fun _ hne => absurd hr hne,
          Or.inr (Or.inl rfl), by simp, Or.inl rfl, Or.inl rfl⟩
      · rw [if_neg hf] at hrun
        cases hrun
        exact ⟨⟨rfl, rfl, fun hs => ⟨hs.1, hs.2, hs.3⟩, rfl, rfl⟩, Or.inr (Or.inr (Or.inl rfl)),
          fun hfd => Or.inl (hfd.resolve_right (by simp [h])), fun _ hne => absurd hr hne,
          Or.inr (Or.inl rfl), by simp, Or.inl rfl, Or.inl rfl⟩
    · have hr' : ¬ ((p.setNested []).reqs 0).remoteDataAddr = 0 := hr
      rw [if_neg hr'] at hrun
      cases hrun
      exact ⟨⟨rfl, rfl, fun hs => ⟨hs.1, hs.2, hs.3⟩, rfl, rfl⟩, Or.inr (Or.inr (Or.inl rfl)),
        fun _ => Or.inl hr, fun ht hne => Or.inr ((ht hne).resolve_left (by simp [h])), Or.inl rfl,
        by simp, Or.inl rfl, Or.inl rfl⟩
  · -- posting the receive
    have htold : p.Told → (p.reqs 0).remoteDataAddr ≠ 0 →
        (p.reqs 0).rdmaExchangeRequestSend = none :=
      fun ht hne => (ht hne).resolve_left (by simp [h])
    have hfound : p.Found → (p.reqs 0).remoteDataAddr ≠ 0 :=
      fun hfd => hfd.resolve_right (by simp [h])
    simp only [Proc.run, h, runFrame] at hrun
    split at hrun
    · rename_i hpost
      cases hrun
      refine ⟨⟨rfl, rfl, fun hs => ⟨hs.1, hs.2, hs.3⟩, ?_, ?_⟩, Or.inl rfl, fun hfd => Or.inl ?_,
        fun ht hne => Or.inr ?_, by simp, fun _ _ => ⟨hpost.2.1, hpost.1, by simp [h]⟩,
        Or.inr hpost.2.1, Or.inl ?_⟩
      · simp [postBackup, setReq, setNested]
      · simp [postBackup, setReq, setNested]
      · simpa [postBackup, setReq, setNested] using hfound hfd
      · have hne' : (p.reqs 0).remoteDataAddr ≠ 0 := by
          simpa [postBackup, setReq, setNested] using hne
        simpa [postBackup, setReq, setNested] using htold ht hne'
      · simp [postBackup, setReq, setNested]
    · cases hrun
      exact ⟨⟨rfl, rfl, fun hs => ⟨hs.1, hs.2, hs.3⟩, rfl, rfl⟩, Or.inl rfl,
        fun hfd => Or.inl (hfound hfd), fun ht hne => Or.inr (htold ht hne), Or.inl rfl, by simp,
        Or.inl rfl, Or.inl rfl⟩
  · -- reading the info
    simp only [Proc.run, h, runFrame] at hrun
    cases hrun
    have hne : (((((p.setNested [Frame.progressWaiting 0 .post]).assert
        (p.reqs 0).type.isSearch).setReq 0 fun q => { q with
          remoteDataAddr := (p.counterpart 0).dataAddr
          remoteFlagAddr := (p.counterpart 0).flagAddr
          remoteDataRkey := (p.counterpart 0).dataRkey
          remoteFlagRkey := (p.counterpart 0).flagRkey }).push (.receiveInfo 0 .test)).reqs
            0).remoteDataAddr ≠ 0 := by
      simpa [push, setReq, assert, setNested] using hs.dataAddr
    refine ⟨⟨rfl, rfl, fun hs => ⟨hs.1, hs.2, hs.3⟩, ?_, ?_⟩,
      Or.inr (Or.inr (Or.inr (Or.inr ⟨hne, Or.inl rfl⟩))), fun _ => Or.inl hne, fun _ _ => Or.inl ?_,
      Or.inr (Or.inr (Or.inl ⟨rfl, Or.inr h⟩)), by simp, Or.inl ?_, Or.inl ?_⟩ <;>
      simp [push, setReq, assert, setNested]
  · have hfound : ∀ {q : Proc}, (q.reqs 0).remoteDataAddr = (p.reqs 0).remoteDataAddr → q.Found :=
      fun hq => Or.inl (hq ▸ hr)
    rcases h with h | h | h
    · -- the test of the own send
      simp only [Proc.run, h, runFrame] at hrun
      have hdone : (p.setNested [Frame.progressWaiting 0 .post]).exchangeDone ans 0 =
          p.exchangeDone ans 0 := rfl
      unfold testExchange at hrun
      rw [hdone] at hrun
      by_cases hd : p.exchangeDone ans 0 = true
      · simp only [if_pos hd] at hrun
        cases hrun
        refine ⟨⟨rfl, rfl, fun hs => ⟨hs.1, hs.2, hs.3⟩, ?_, ?_⟩, Or.inr (Or.inr (Or.inl ?_)),
          fun _ => hfound ?_, fun _ _ => Or.inr ?_, by simp, by simp, Or.inl ?_, ?_⟩
        any_goals simp [setReq, setNested]
        simp only [exchangeDone, Bool.or_eq_true, Option.isNone_iff_eq_none] at hd
        exact hd.imp Eq.symm id
      · simp only [if_neg hd] at hrun
        cases hrun
        refine ⟨⟨rfl, rfl, fun hs => ⟨hs.1, hs.2, hs.3⟩, rfl, rfl⟩,
          Or.inr (Or.inr (Or.inr (Or.inr ⟨hr, Or.inr (Or.inl ?_)⟩))), fun _ => Or.inl hr,
          fun _ _ => Or.inl ?_, by simp, by simp, Or.inl rfl, Or.inl rfl⟩
        · simp [progressOther, push, setNested, hs.requestList]
        · simp [progressOther, push, setNested]
    · simp only [Proc.run, h, runFrame, if_true] at hrun
      cases hrun
      exact ⟨⟨rfl, rfl, fun hs => ⟨hs.1, hs.2, hs.3⟩, rfl, rfl⟩,
        Or.inr (Or.inr (Or.inr (Or.inr ⟨hr, Or.inr (Or.inr rfl)⟩))), fun _ => Or.inl hr,
        fun _ _ => Or.inl (by simp [push, setNested]), Or.inl rfl, by simp, Or.inl rfl, Or.inl rfl⟩
    · simp only [Proc.run, h, runFrame] at hrun
      cases hrun
      exact ⟨⟨rfl, rfl, fun hs => ⟨hs.1, hs.2, hs.3⟩, rfl, rfl⟩,
        Or.inr (Or.inr (Or.inr (Or.inr ⟨hr, Or.inl rfl⟩))), fun _ => Or.inl hr,
        fun _ _ => Or.inl (by simp [setNested]), Or.inl rfl, by simp, Or.inl rfl, Or.inl rfl⟩

end

/-! ### The sender -/

/-- Where the sender is, and what it knows there. -/
def SendCtl (p : Proc) : Prop :=
  match p.call with
  | .none =>
      p.nested = [] ∧
        ((p.reqs 0).type = .sendSearch → p.active 0 = true → (p.reqs 0).backupRequest.isSome)
  | .startSend r .progress => r = 0 ∧ p.nested = [] ∧ (p.reqs 0).type = .sendSearch
  | .startSend r .post => r = 0 ∧ p.Searches ∧ (p.reqs 0).type = .sendSearch
  | .waitSend r .progress => r = 0 ∧ p.nested = [] ∧ (p.reqs 0).backupRequest.isSome
  | .waitSend r .established => r = 0 ∧ p.Searches ∧ (p.reqs 0).backupRequest.isSome
  | .waitSend r .test =>
      r = 0 ∧ p.nested = [] ∧ (p.reqs 0).backupRequest.isSome ∧
        ((p.reqs 0).remoteDataAddr ≠ 0 → (p.reqs 0).type = .send)
  | .waitSend r (.tested flag) =>
      r = 0 ∧ p.Others ∧
        if flag then (p.reqs 0).type = .send else (p.reqs 0).backupRequest.isSome
  | .bSend r _ | .eSend r _ => r = 0 ∧ p.Others ∧ (p.reqs 0).type = .send
  | _ => False

/-- The sender, given whether its first payload was sent and whether a receive for it was posted. -/
structure SendInv (p : Proc) (posted matched : Prop) : Prop where
  solo : p.Solo
  type : (p.reqs 0).type = .sendSearch ∨ (p.reqs 0).type = .send
  count : (p.reqs 0).type = .sendSearch →
    (p.reqs 0).operationNumber = if p.active 0 = true then 1 else 0
  ctl : p.SendCtl
  backup : (p.reqs 0).backupRequest.isSome → posted
  matched : matched → p.Found

section
variable {p p' : Proc} {ans : Answer} {c : Option MpiCall} {posted matched : Prop}

theorem remoteDataAddr_bSend {Op : Type*} {tag : RdmaOp → Op} {toEp : Op → Bool} {imm : Bool}
    {l : Local Op} (pt : Point) :
    (Rendezvous.bSend tag toEp imm pt l).2.req.remoteDataAddr = l.req.remoteDataAddr ∧
      (Rendezvous.bSend tag toEp imm pt l).2.req.backupRequest = l.req.backupRequest := by
  cases pt with
  | test =>
      simp only [Rendezvous.bSend]
      split <;> exact ⟨rfl, rfl⟩
  | _ => exact ⟨rfl, rfl⟩

theorem remoteDataAddr_eSend {Op : Type*} {toEp : Op → Bool} {l : Local Op} (w : SendWait) :
    (Rendezvous.eSend toEp w l).2.req.remoteDataAddr = l.req.remoteDataAddr ∧
      (Rendezvous.eSend toEp w l).2.req.backupRequest = l.req.backupRequest := by
  cases w <;> simp only [Rendezvous.eSend] <;> split <;> exact ⟨rfl, rfl⟩

/-- What a step of the sender does. -/
structure SendStep (p p' : Proc) (c : Option MpiCall) (posted matched : Prop) : Prop where
  inv : ∀ posted' : Prop, (posted → posted') → (c = some (.issend 0 .comm) → posted') →
    SendInv p' posted' matched
  found : p.Found → p'.Found
  reads : ∀ r, c = some (.recv r .response) → p.Found

/-- A step on the stack. -/
theorem SendStep.of_search (h : SendInv p posted matched) (hs : SearchStep ans p p' c)
    (hctl : p'.SendCtl) : SendStep p p' c posted matched where
  inv posted' hp _ := by
    have hb : (p'.reqs 0).backupRequest = (p.reqs 0).backupRequest := by
      refine hs.backup.resolve_right fun hr => ?_
      rcases h.type with ht | ht <;> simp [ht] at hr
    refine ⟨hs.stays.solo h.solo, ?_, fun ht => ?_, hctl, fun hb' => hp (h.backup (hb ▸ hb')),
      fun hm => hs.found (h.matched hm)⟩
    · rw [hs.stays.type]
      exact h.type
    · rw [hs.stays.number, hs.stays.active]
      exact h.count (hs.stays.type ▸ ht)
  found := hs.found
  reads r hc := by
    rcases hs.calls with h | h | ⟨h, hf⟩ | h | h
    · simp [h] at hc
    · simp [h] at hc
    · exact hf
    · simp [h] at hc
    · simp [h] at hc

/-- A step that changes nothing the sender relies on. -/
theorem SendStep.of_same (h : SendInv p posted matched) (hs : Solo p → Solo p')
    (ht : (p'.reqs 0).type = (p.reqs 0).type)
    (hn : (p'.reqs 0).operationNumber = (p.reqs 0).operationNumber) (ha : p'.active = p.active)
    (hb : (p'.reqs 0).backupRequest.isSome → (p.reqs 0).backupRequest.isSome)
    (hf : p.Found → p'.Found) (hctl : p'.SendCtl) (hc : ∀ r, c ≠ some (.recv r .response)) :
    SendStep p p' c posted matched where
  inv posted' hp _ := by
    refine ⟨hs h.solo, by rw [ht]; exact h.type, fun ht' => ?_, hctl, fun hb' => hp (h.backup (hb hb')),
      fun hm => hf (h.matched hm)⟩
    rw [hn, ha]
    exact h.count (ht ▸ ht')
  found := hf
  reads r h := absurd h (hc r)

/-- With nothing on the stack, only the address tells. -/
theorem found_of_nil (hn : p.nested = []) : p.Found ↔ (p.reqs 0).remoteDataAddr ≠ 0 := by
  constructor
  · intro h
    exact h.resolve_right (by simp [hn])
  · exact Or.inl

theorem found_congr (hn : p.nested = []) (hr : (p'.reqs 0).remoteDataAddr = (p.reqs 0).remoteDataAddr)
    (hf : p.Found) : p'.Found :=
  Or.inl (hr ▸ (found_of_nil hn).mp hf)

theorem found_of_others (ho : p.Others) : p.Found ↔ (p.reqs 0).remoteDataAddr ≠ 0 := by
  constructor
  · intro h
    exact h.resolve_right (by rcases ho with h | h | h <;> simp [h])
  · exact Or.inl

/-- A step of `b_send` or `e_send`. -/
theorem SendStep.of_resume {P : Type} {next : P → Call} {done : Proc → Proc}
    {x : Outcome P × Local (Rid × RdmaOp)} (h : SendInv p posted matched) (hn : p.nested = [])
    (ht : (p.reqs 0).type = .send) (htype : x.2.req.type = (p.reqs 0).type)
    (hreq : x.2.req.remoteDataAddr = (p.reqs 0).remoteDataAddr ∧
      x.2.req.backupRequest = (p.reqs 0).backupRequest)
    (hnext : ∀ pt, (∃ pt', next pt = .bSend 0 pt') ∨ ∃ w, next pt = .eSend 0 w)
    (hdone : done = ret ∨ done = (·.finish 0)) :
    SendStep p (p.resume 0 next done x) none posted matched := by
  obtain ⟨o, l⟩ := x
  have hreqs : (p.resume 0 next done (o, l)).reqs 0 = l.req := by
    cases o with
    | goto pt => simp [resume, setCall, setLoc]
    | progressOther pt => simp [resume, progressOther, push, setCall, setLoc]
    | ret => rcases hdone with rfl | rfl <;> simp [resume, ret, finish, setLoc]
  have hsend : ((p.resume 0 next done (o, l)).reqs 0).type = .send := by
    rw [hreqs, htype, ht]
  have hsolo : Solo p → Solo (p.resume 0 next done (o, l)) := by
    intro hs
    cases o with
    | goto pt => exact ⟨hs.1, hs.2, hs.3⟩
    | progressOther pt => exact ⟨hs.1, hs.2, hs.3⟩
    | ret => rcases hdone with rfl | rfl <;> exact ⟨hs.1, hs.2, hs.3⟩
  have hfound : p.Found → (p.resume 0 next done (o, l)).Found := by
    intro hf
    refine Or.inl ?_
    rw [hreqs, hreq.1]
    exact (found_of_nil hn).mp hf
  have hctl : (p.resume 0 next done (o, l)).SendCtl := by
    have hctl' : ∀ {q : Proc}, (q.reqs 0).type = .send → q.Others →
        (q.call = .none → q.nested = []) →
        (q.call = .none ∨ (∃ pt', q.call = .bSend 0 pt') ∨ ∃ w, q.call = .eSend 0 w) → q.SendCtl := by
      intro q hq ho hnone hcall
      unfold SendCtl
      rcases hcall with hcall | ⟨pt', hcall⟩ | ⟨w, hcall⟩ <;> rw [hcall]
      · exact ⟨hnone hcall, fun hsr => by simp [hq] at hsr⟩
      · exact ⟨rfl, ho, hq⟩
      · exact ⟨rfl, ho, hq⟩
    cases o with
    | goto pt => exact hctl' hsend (Or.inl hn) (fun _ => hn) (Or.inr (hnext pt))
    | progressOther pt =>
        refine hctl' hsend (Or.inr (Or.inl ?_)) (fun hc => ?_) (Or.inr (hnext pt))
        · simp [resume, progressOther, push, setCall, setLoc, hn, h.solo.requestList]
        · have hc' : next pt = .none := hc
          rcases hnext pt with ⟨_, h'⟩ | ⟨_, h'⟩ <;> simp [h'] at hc'
    | ret => rcases hdone with rfl | rfl <;> exact hctl' hsend (Or.inl hn) (fun _ => hn) (Or.inl rfl)
  refine ⟨fun posted' hp _ => ⟨hsolo h.solo, Or.inr hsend, fun hsr => ?_, hctl, fun hb => ?_,
    fun hm => hfound (h.matched hm)⟩, hfound, by simp⟩
  · simp [hsend] at hsr
  · rw [hreqs, hreq.2] at hb
    exact hp (h.backup hb)

/-- A step on the stack leaves the sender where it is. -/
theorem SendCtl.kept (h : p.SendCtl) (hn : p.nested ≠ []) (hst : Stays p p')
    (hb : (p'.reqs 0).backupRequest = (p.reqs 0).backupRequest)
    (hstack : (p.Searches → p'.Searches) ∧ (p.Others → p'.Others)) : p'.SendCtl := by
  unfold SendCtl at h ⊢
  rw [hst.call, hst.type, hb]
  split at h
  case h_1 => exact absurd h.1 hn
  case h_2 | h_4 | h_6 => exact absurd h.2.1 hn
  case h_3 | h_5 => exact ⟨h.1, hstack.1 h.2.1, h.2.2⟩
  case h_7 | h_8 | h_9 => exact ⟨h.1, hstack.2 h.2.1, h.2.2⟩
  case h_10 => exact h

/-- What is on the stack of the sender. -/
theorem SendCtl.stack (h : p.SendCtl) : p.Searches ∨ p.Others := by
  unfold SendCtl at h
  split at h
  case h_1 => exact Or.inr (Or.inl h.1)
  case h_2 | h_4 | h_6 => exact Or.inr (Or.inl h.2.1)
  case h_3 | h_5 => exact Or.inl h.2.1
  case h_7 | h_8 | h_9 => exact Or.inr h.2.1
  case h_10 => exact h.elim

/-- A step of a function that the sender is inside. -/
theorem SendInv.run_nested (h : SendInv p posted matched) (hn : p.nested ≠ [])
    (hrun : p.run ans = some (p', c)) : SendStep p p' c posted matched := by
  rcases h.ctl.stack with hsr | ho
  · have hstep := hsr.run h.solo hn hrun
    have hb : (p'.reqs 0).backupRequest = (p.reqs 0).backupRequest := by
      refine hstep.backup.resolve_right fun hr => ?_
      rcases h.type with ht | ht <;> simp [ht] at hr
    exact .of_search h hstep (h.ctl.kept hn hstep.stays hb
      ⟨fun _ => hstep.searches, fun ho => absurd ho (hsr.not_others hn)⟩)
  · obtain ⟨hst, ho', hreqs, rfl⟩ := ho.run hn hrun
    refine .of_same h hst.solo hst.type hst.number hst.active (by rw [hreqs]; exact id) ?_ ?_ (by simp)
    · rw [found_of_others ho, found_of_others ho', hreqs]
      exact id
    · exact h.ctl.kept hn hst (by rw [hreqs])
        ⟨fun hsr => absurd ho (hsr.not_others hn), fun _ => ho'⟩

/-- `MPI_Test` on the first payload. -/
theorem SendStep.of_test (h : SendInv p posted matched) (hn : p.nested = [])
    (hb : (p.reqs 0).backupRequest.isSome) (ht : (p.reqs 0).remoteDataAddr ≠ 0 → (p.reqs 0).type = .send)
    (hperm : ans.flag = true → posted → matched) :
    SendStep p (((p.testBackup ans 0).setCall
      (.waitSend 0 (.tested (p.backupDone ans 0)))).progressOther 0) (some (.testBackup 0))
      posted matched := by
  have hdone : p.backupDone ans 0 = ans.flag := by
    obtain ⟨k, hk⟩ := Option.isSome_iff_exists.mp hb
    simp [backupDone, hk]
  have hpush : ∀ {q : Proc}, q.nested = [] → q.requestList = [0] →
      ((q.setCall (.waitSend 0 (.tested ans.flag))).progressOther 0).nested =
        [.progressOther 0 [0]] := by
    intro q h1 h2
    simp [progressOther, push, setCall, h1, h2]
  unfold testBackup
  rw [hdone]
  by_cases hf : ans.flag = true
  · have hsend : (p.reqs 0).type = .send :=
      ht ((found_of_nil hn).mp (h.matched (hperm hf (h.backup hb))))
    rw [if_pos hf]
    refine .of_same h (fun hs => ⟨hs.1, hs.2, hs.3⟩) ?_ ?_ rfl (fun hb' => ?_) (fun hfd => ?_) ?_ (by simp)
    · simp [progressOther, push, setCall, setReq]
    · simp [progressOther, push, setCall, setReq]
    · simp [progressOther, push, setCall, setReq] at hb'
    · refine Or.inl ?_
      simpa [progressOther, push, setCall, setReq] using (found_of_nil hn).mp hfd
    · refine ⟨rfl, Or.inr (Or.inl (hpush hn h.solo.requestList)), ?_⟩
      rw [if_pos hf]
      simpa [progressOther, push, setCall, setReq] using hsend
  · rw [if_neg hf]
    refine .of_same h (fun hs => ⟨hs.1, hs.2, hs.3⟩) rfl rfl rfl id
      (fun hfd => Or.inl ((found_of_nil hn).mp hfd)) ?_ (by simp)
    refine ⟨rfl, Or.inr (Or.inl (hpush hn h.solo.requestList)), ?_⟩
    rw [if_neg hf]
    exact hb

/-- In the first Start. -/
theorem SendInv.run_start {pt : StartSendSearch} (h : SendInv p posted matched) (hn : p.nested = [])
    (hcall : p.call = .startSend 0 pt) (ht : (p.reqs 0).type = .sendSearch)
    (hrun : p.runCall ans (.startSend 0 pt) = some (p', c)) : SendStep p p' c posted matched := by
  cases pt with
  | progress =>
      cases hrun
      exact .of_same h (·.congr rfl rfl rfl) rfl rfl rfl id (found_congr hn rfl)
        ⟨rfl, Or.inr (Or.inl (by simp [push, setCall, assert, hn])), ht⟩ (by simp)
  | post =>
      cases hrun
      have hf : p.Found → ((p.assert (p.reqs 0).backupRequest.isNone).postBackup 0).ret.Found :=
        found_congr hn (by simp [ret, postBackup, setReq, assert])
      refine ⟨fun posted' _ hp => ⟨h.solo.congr rfl rfl rfl, Or.inl ?_, fun _ => ?_, ⟨hn, fun _ _ => ?_⟩,
        fun _ => hp rfl, fun hm => hf (h.matched hm)⟩, hf, by simp⟩
      · simpa [ret, postBackup, setReq, assert] using ht
      · simpa [ret, postBackup, setReq, assert] using h.count ht
      · simp [ret, postBackup, setReq, assert]

/-- In the first Wait, the sender has found the receiver's info, or tests the payload without. -/
theorem SendInv.run_established (h : SendInv p posted matched) (hn : p.nested = [])
    (hb : (p.reqs 0).backupRequest.isSome)
    (hrun : p.runCall ans (.waitSend 0 .established) = some (p', c)) :
    SendStep p p' c posted matched := by
  simp only [runCall] at hrun
  split at hrun <;> cases hrun
  · have hf : p.Found → ((p.setCall (.waitSend 0 .test)).setReq 0 fun q =>
        { q with type := .send }).Found :=
      found_congr hn (by simp [setReq, setCall])
    refine ⟨fun posted' hp _ => ⟨h.solo.congr rfl rfl rfl, Or.inr ?_, fun hs => ?_,
      ⟨rfl, hn, ?_, fun _ => ?_⟩, fun hb' => hp (h.backup hb), fun hm => hf (h.matched hm)⟩, hf, by simp⟩
    · simp [setReq, setCall]
    · simp [setReq, setCall] at hs
    · simpa [setReq, setCall] using hb
    · simp [setReq, setCall]
  · rename_i hr
    exact .of_same h (·.congr rfl rfl rfl) rfl rfl rfl id (found_congr hn rfl)
      ⟨rfl, hn, hb, fun hne => absurd hne hr⟩ (by simp)

/-- After the test of the first payload. -/
theorem SendInv.run_tested {flag : Bool} (h : SendInv p posted matched) (hn : p.nested = [])
    (hflag : if flag then (p.reqs 0).type = .send else (p.reqs 0).backupRequest.isSome)
    (hrun : p.runCall ans (.waitSend 0 (.tested flag)) = some (p', c)) :
    SendStep p p' c posted matched := by
  simp only [runCall] at hrun
  cases flag with
  | true =>
      have ht : (p.reqs 0).type = .send := hflag
      simp only [if_true, ht, ne_eq, not_true_eq_false, if_false] at hrun
      cases hrun
      have hno : ¬ (p.reqs 0).type = .sendSearch := by simp [ht]
      exact ⟨fun posted' hp _ => ⟨h.solo.congr rfl rfl rfl, Or.inr ht, fun hs => absurd hs hno,
        ⟨hn, fun hs => absurd hs hno⟩, fun hb => hp (h.backup hb),
        fun hm => found_congr hn rfl (h.matched hm)⟩, found_congr hn rfl, by simp⟩
  | false =>
      simp only [Bool.false_eq_true, if_false] at hrun
      cases hrun
      exact .of_same h (·.congr rfl rfl rfl) rfl rfl rfl id (found_congr hn rfl) ⟨rfl, hn, hflag⟩ (by simp)

/-- **One step of the sender's code.**  A test of its first payload succeeds only if a receive was
posted. -/
theorem SendInv.run (h : SendInv p posted matched) (hrun : p.run ans = some (p', c))
    (hperm : c = some (.testBackup 0) → ans.flag = true → posted → matched) :
    SendStep p p' c posted matched := by
  by_cases hn : p.nested = []
  case neg => exact h.run_nested hn hrun
  have hctl := h.ctl
  unfold SendCtl at hctl
  have hrun := run_of_nil hn hrun
  cases hcall : p.call with
  | none => simp [hcall, runCall] at hrun
  | startSend r pt =>
      rw [hcall] at hrun
      cases pt <;> simp only [hcall] at hctl <;> obtain ⟨rfl, -, ht⟩ := hctl <;>
        exact h.run_start hn hcall ht hrun
  | waitSend r pt =>
      rw [hcall] at hrun
      cases pt with
      | progress =>
          simp only [hcall] at hctl
          obtain ⟨rfl, -, hb⟩ := hctl
          cases hrun
          exact .of_same h (·.congr rfl rfl rfl) rfl rfl rfl id (found_congr hn rfl)
            ⟨rfl, Or.inr (Or.inl (by simp [push, setCall, hn])), hb⟩ (by simp)
      | established =>
          simp only [hcall] at hctl
          obtain ⟨rfl, -, hb⟩ := hctl
          exact h.run_established hn hb hrun
      | test =>
          simp only [hcall] at hctl
          obtain ⟨rfl, -, hb, ht⟩ := hctl
          cases hrun
          exact .of_test h hn hb ht (hperm rfl)
      | tested flag =>
          simp only [hcall] at hctl
          obtain ⟨rfl, -, hflag⟩ := hctl
          exact h.run_tested hn hflag hrun
  | bSend r pt =>
      simp only [hcall] at hctl
      obtain ⟨rfl, -, ht⟩ := hctl
      rw [hcall] at hrun
      cases hrun
      exact .of_resume h hn ht (type_bSend (l := p.loc 0) pt) (remoteDataAddr_bSend (l := p.loc 0) pt)
        (fun pt' => Or.inl ⟨pt', rfl⟩) (Or.inl rfl)
  | eSend r w =>
      simp only [hcall] at hctl
      obtain ⟨rfl, -, ht⟩ := hctl
      rw [hcall] at hrun
      cases hrun
      exact .of_resume h hn ht (type_eSend (l := p.loc 0) w) (remoteDataAddr_eSend (l := p.loc 0) w)
        (fun w' => Or.inr ⟨w', rfl⟩) (Or.inr rfl)
  | _ => simp [hcall] at hctl

/-- **One step of the sender's process.** -/
theorem SendInv.act {x : ProcAct} (h : SendInv p posted matched)
    (hact : p.act .sendSearch x = some (p', c))
    (hperm : c = some (.testBackup 0) → x.flag = true → posted → matched) :
    SendStep p p' c posted matched := by
  have hctl := h.ctl
  have hsolo : ∀ {q : Proc}, q.requestList = p.requestList → q.nextRid = p.nextRid →
      q.counterpart = p.counterpart → Solo p → Solo q :=
    fun h1 h2 h3 hs => ⟨h1.trans hs.1, h2.trans hs.2, by rw [h3]; exact hs.3⟩
  cases x with
  | init args info =>
      simp only [Proc.act] at hact
      split at hact
      · rename_i hfree
        simp [h.solo.nextRid] at hfree
      · simp at hact
  | start =>
      simp only [Proc.act] at hact
      split at hact <;> simp only [reduceCtorEq, Option.some.injEq] at hact
      rename_i hfree
      obtain ⟨⟨hc, hn⟩, -, hidle⟩ := hfree
      have hf : ∀ {q : Proc}, (q.reqs 0).remoteDataAddr = (p.reqs 0).remoteDataAddr →
          p.Found → q.Found :=
        fun hq hf => Or.inl (hq ▸ (found_of_nil hn).mp hf)
      unfold Proc.start at hact
      rcases h.type with ht | ht <;> simp only [ht] at hact <;> cases hact
      · have hf' := hf (q := ({ p.setReq 0 fun q => { q with
          operationNumber := q.operationNumber + 1 } with
            active := Function.update p.active 0 true }).setCall (.startSend 0 .progress))
          (by simp [setReq, setCall])
        refine ⟨fun posted' hp _ => ⟨hsolo rfl rfl rfl h.solo, Or.inl ?_, fun _ => ?_, ⟨rfl, hn, ?_⟩,
          fun hb => hp (h.backup ?_), fun hm => hf' (h.matched hm)⟩, hf', by simp⟩
        · simpa [setReq, setCall] using ht
        · simp [setReq, setCall, h.count ht, hidle]
        · simpa [setReq, setCall] using ht
        · simpa [setReq, setCall] using hb
      · have hf' := hf (q := ({ p.setReq 0 fun q => { q with
          operationNumber := q.operationNumber + 1 } with
            active := Function.update p.active 0 true }).setCall (.bSend 0 .test))
          (by simp [setReq, setCall])
        refine ⟨fun posted' hp _ => ⟨hsolo rfl rfl rfl h.solo, Or.inr ?_, fun hs => ?_, ⟨rfl, Or.inl hn, ?_⟩,
          fun hb => hp (h.backup ?_), fun hm => hf' (h.matched hm)⟩, hf', by simp⟩
        · simpa [setReq, setCall] using ht
        · simp [setReq, setCall, ht] at hs
        · simpa [setReq, setCall] using ht
        · simpa [setReq, setCall] using hb
  | wait =>
      simp only [Proc.act] at hact
      split at hact <;> simp only [reduceCtorEq, Option.some.injEq] at hact
      rename_i hfree
      obtain ⟨⟨hc, hn⟩, -, hactive⟩ := hfree
      unfold SendCtl at hctl
      rw [hc] at hctl
      unfold Proc.wait at hact
      have hf : ∀ {q : Proc}, (q.reqs 0).remoteDataAddr = (p.reqs 0).remoteDataAddr →
          p.Found → q.Found :=
        fun hq hf => Or.inl (hq ▸ (found_of_nil hn).mp hf)
      rcases h.type with ht | ht <;> simp only [ht] at hact <;> cases hact
      · exact .of_same h (hsolo rfl rfl rfl) rfl rfl rfl id (hf rfl) ⟨rfl, hn, hctl.2 ht hactive⟩ (by simp)
      · exact .of_same h (hsolo rfl rfl rfl) rfl rfl rfl id (hf rfl) ⟨rfl, Or.inl hn, ht⟩ (by simp)
  | run ans => exact h.run hact hperm
  | lands i =>
      simp only [Proc.act] at hact
      split at hact <;> simp only [reduceCtorEq, Option.some.injEq] at hact
      cases hact
      exact .of_same h (hsolo rfl rfl rfl) rfl rfl rfl id id hctl (by simp)
  | writeFlag v =>
      cases hact
      refine .of_same h (hsolo rfl rfl rfl) ?_ ?_ rfl ?_ ?_ ?_ (by simp)
      · simp [setReq]
      · simp [setReq]
      · simp [setReq]
      · simp [Found, setReq]
      · unfold SendCtl at hctl ⊢
        simpa [setReq, Searches, Others] using hctl

end

/-! ### The receiver -/

/-- Where the receiver is, and what it knows there; `found` is that the sender has its info. -/
def RecvCtl (p : Proc) (found : Prop) : Prop :=
  match p.call with
  | .none => p.nested = []
  | .startRecv r .progress => r = 0 ∧ p.nested = [] ∧ (p.reqs 0).type = .recvSearch
  | .startRecv r .probe => r = 0 ∧ p.Searches ∧ (p.reqs 0).type = .recvSearch
  | .startRecv r .fallback => r = 0 ∧ p.nested = [] ∧ (p.reqs 0).type = .recvSearch ∧ found
  | .startRecv r .post =>
      r = 0 ∧ p.nested = [] ∧ (p.reqs 0).type = .recvSearch ∧ (p.reqs 0).remoteDataAddr ≠ 0
  | .waitRecv r (.probe _) => r = 0 ∧ p.Searches ∧ (p.reqs 0).type = .recvSearch
  | .waitRecv r (.progress _) => r = 0 ∧ p.Others ∧ (p.reqs 0).type = .recvSearch
  | .waitRecv r .post | .waitRecv r .decide =>
      r = 0 ∧ p.nested = [] ∧ (p.reqs 0).type = .recvSearch ∧ (p.reqs 0).remoteDataAddr ≠ 0
  | .waitRecv r .test | .waitRecv r (.tested _) => r = 0 ∧ p.Others ∧ (p.reqs 0).type = .recv
  | .bRecv r _ | .eRecv r _ => r = 0 ∧ p.Others ∧ (p.reqs 0).type = .recv
  | _ => False

structure RecvInv (p : Proc) (found : Prop) : Prop where
  solo : p.Solo
  type : (p.reqs 0).type = .recvSearch ∨ (p.reqs 0).type = .recv
  count : (p.reqs 0).type = .recvSearch →
    (p.reqs 0).operationNumber = if p.active 0 = true then 1 else 0
  ctl : p.RecvCtl found
  told : (p.reqs 0).type = .recvSearch → p.Told
  exchange : (p.reqs 0).type = .recvSearch → (p.reqs 0).rdmaExchangeRequestSend = none → found

/-- The receiver posts no receive for the payload while it lacks the sender's info: not in Start,
unless the sender has its own, and not in Wait. -/
def Awaits (p : Proc) (ans : Answer) (found : Prop) : Prop :=
  p.nested = [] → (p.reqs 0).remoteDataAddr = 0 →
    (p.call = .startRecv 0 .probe → ans.flag = true → found) ∧ p.call ≠ .waitRecv 0 (.probe true)

section
variable {p p' : Proc} {ans : Answer} {c : Option MpiCall} {found found' : Prop}

theorem RecvCtl.mono (h : p.RecvCtl found) (hf : found → found') : p.RecvCtl found' := by
  unfold RecvCtl at h ⊢
  split at h
  case h_4 => exact ⟨h.1, h.2.1, h.2.2.1, hf h.2.2.2⟩
  all_goals exact h

theorem RecvInv.mono (h : RecvInv p found) (hf : found → found') : RecvInv p found' :=
  ⟨h.solo, h.type, h.count, h.ctl.mono hf, h.told, fun ht he => hf (h.exchange ht he)⟩

/-- What a step of the receiver does. -/
structure RecvStep (p' : Proc) (c : Option MpiCall) (found : Prop) : Prop where
  inv : RecvInv p' found
  posts : ∀ r, c = some (.irecv r) → found

/-- Out of `receive_rdma_info` with the sender's info, the receiver's own has arrived. -/
theorem RecvInv.heard (h : RecvInv p found) (ht : (p.reqs 0).type = .recvSearch)
    (hr : (p.reqs 0).remoteDataAddr ≠ 0) (hn : .receiveInfo 0 .test ∉ p.nested) : found :=
  h.exchange ht ((h.told ht hr).resolve_left hn)

theorem RecvStep.of_search (h : RecvInv p found) (ht : (p.reqs 0).type = .recvSearch)
    (hs : SearchStep ans p p' c) (hperm : c = some (.testExchange 0) → ans.flag = true → found)
    (hctl : p'.RecvCtl found) : RecvStep p' c found where
  inv := by
    refine ⟨hs.stays.solo h.solo, Or.inl (hs.stays.type.trans ht), fun _ => ?_, hctl,
      fun _ => hs.told (h.told ht), fun _ he => ?_⟩
    · rw [hs.stays.number, hs.stays.active]
      exact h.count ht
    · rcases hs.exchange with hx | ⟨hx, hf⟩
      · exact h.exchange ht (hx ▸ he)
      · exact hperm hx hf
  posts r hc := by
    obtain ⟨-, hr, hn⟩ := hs.posts r hc
    exact h.heard ht hr hn

/-- A step after which the receiver is searching as before. -/
theorem RecvStep.of_same (h : RecvInv p found) (hs : Solo p → Solo p')
    (ht : (p'.reqs 0).type = (p.reqs 0).type)
    (hn : (p'.reqs 0).operationNumber = (p.reqs 0).operationNumber) (ha : p'.active = p.active)
    (htold : p.Told → p'.Told)
    (hx : (p'.reqs 0).rdmaExchangeRequestSend = (p.reqs 0).rdmaExchangeRequestSend)
    (hctl : p'.RecvCtl found) (hc : ∀ r, c = some (.irecv r) → found) : RecvStep p' c found where
  inv := by
    refine ⟨hs h.solo, by rw [ht]; exact h.type, fun ht' => ?_, hctl, fun ht' => htold (h.told (ht ▸ ht')),
      fun ht' he => h.exchange (ht ▸ ht') (hx ▸ he)⟩
    rw [hn, ha]
    exact h.count (ht ▸ ht')
  posts := hc

/-- A step of a connected receiver. -/
theorem RecvStep.of_recv (h : RecvInv p found) (hs : Solo p → Solo p')
    (ht : (p'.reqs 0).type = .recv) (hctl : p'.RecvCtl found) (hc : ∀ r, c ≠ some (.irecv r)) :
    RecvStep p' c found where
  inv :=
    ⟨hs h.solo, Or.inr ht, fun hsr => by simp [ht] at hsr, hctl, fun hsr => by simp [ht] at hsr,
      fun hsr => by simp [ht] at hsr⟩
  posts r h := absurd h (hc r)

theorem told_of_nil (hn : p.nested = []) (hr : (p'.reqs 0).remoteDataAddr = (p.reqs 0).remoteDataAddr)
    (hx : (p'.reqs 0).rdmaExchangeRequestSend = (p.reqs 0).rdmaExchangeRequestSend) (h : p.Told) :
    p'.Told := by
  intro hne
  rw [hr] at hne
  rw [hx]
  exact Or.inr ((h hne).resolve_left (by simp [hn]))

theorem told_of_others (ho : p.Others) (hreqs : p'.reqs = p.reqs) (h : p.Told) : p'.Told := by
  intro hne
  rw [hreqs] at hne ⊢
  exact Or.inr ((h hne).resolve_left (by rcases ho with h | h | h <;> simp [h]))

/-- A step on the stack leaves the receiver where it is. -/
theorem RecvCtl.kept (h : p.RecvCtl found) (hn : p.nested ≠ []) (hst : Stays p p')
    (hstack : (p.Searches → p'.Searches) ∧ (p.Others → p'.Others)) : p'.RecvCtl found := by
  unfold RecvCtl at h ⊢
  rw [hst.call, hst.type]
  split at h
  case h_1 => exact absurd h hn
  case h_2 | h_4 | h_5 | h_8 | h_9 => exact absurd h.2.1 hn
  case h_3 | h_6 => exact ⟨h.1, hstack.1 h.2.1, h.2.2⟩
  case h_7 | h_10 | h_11 | h_12 | h_13 => exact ⟨h.1, hstack.2 h.2.1, h.2.2⟩
  case h_14 => exact h

/-- What is on the stack of the receiver: it searches only as long as it is not connected. -/
theorem RecvCtl.stack (h : p.RecvCtl found) :
    p.Searches ∧ (p.nested ≠ [] → (p.reqs 0).type = .recvSearch) ∨ p.Others := by
  unfold RecvCtl at h
  split at h
  case h_1 => exact Or.inr (Or.inl h)
  case h_2 | h_4 | h_5 | h_8 | h_9 => exact Or.inr (Or.inl h.2.1)
  case h_3 | h_6 => exact Or.inl ⟨h.2.1, fun _ => h.2.2⟩
  case h_7 | h_10 | h_11 | h_12 | h_13 => exact Or.inr h.2.1
  case h_14 => exact h.elim

/-- A step of a function that the receiver is inside. -/
theorem RecvInv.run_nested (h : RecvInv p found) (hn : p.nested ≠ []) (hrun : p.run ans = some (p', c))
    (hperm : c = some (.testExchange 0) → ans.flag = true → found) : RecvStep p' c found := by
  rcases h.ctl.stack with ⟨hsr, ht⟩ | ho
  · have hstep := hsr.run h.solo hn hrun
    exact .of_search h (ht hn) hstep hperm (h.ctl.kept hn hstep.stays
      ⟨fun _ => hstep.searches, fun ho => absurd ho (hsr.not_others hn)⟩)
  · obtain ⟨hst, ho', hreqs, rfl⟩ := ho.run hn hrun
    exact .of_same h hst.solo hst.type hst.number hst.active (told_of_others ho hreqs) (by rw [hreqs])
      (h.ctl.kept hn hst ⟨fun hsr => absurd ho (hsr.not_others hn), fun _ => ho'⟩) (by simp)

/-- A step of `b_recv` or `e_recv`. -/
theorem RecvStep.of_resume {P : Type} {next : P → Call} {done : Proc → Proc}
    {x : Outcome P × Local (Rid × RdmaOp)} (h : RecvInv p found) (hn : p.nested = [])
    (ht : (p.reqs 0).type = .recv) (htype : x.2.req.type = (p.reqs 0).type)
    (hnext : ∀ pt, (∃ pt', next pt = .bRecv 0 pt') ∨ ∃ w, next pt = .eRecv 0 w)
    (hdone : done = ret ∨ done = (·.finish 0)) :
    RecvStep (p.resume 0 next done x) none found := by
  obtain ⟨o, l⟩ := x
  have hrecv : ((p.resume 0 next done (o, l)).reqs 0).type = .recv := by
    rw [← ht, ← htype]
    cases o with
    | goto pt => simp [resume, setCall, setLoc]
    | progressOther pt => simp [resume, progressOther, push, setCall, setLoc]
    | ret => rcases hdone with rfl | rfl <;> simp [resume, ret, finish, setLoc]
  have hctl' : ∀ {q : Proc}, (q.reqs 0).type = .recv → q.Others →
      (q.call = .none → q.nested = []) →
      (q.call = .none ∨ (∃ pt', q.call = .bRecv 0 pt') ∨ ∃ w, q.call = .eRecv 0 w) →
      q.RecvCtl found := by
    intro q hq ho hnone hcall
    unfold RecvCtl
    rcases hcall with hcall | ⟨pt', hcall⟩ | ⟨w, hcall⟩ <;> rw [hcall]
    · exact hnone hcall
    · exact ⟨rfl, ho, hq⟩
    · exact ⟨rfl, ho, hq⟩
  cases o with
  | goto pt =>
      exact .of_recv h (fun hs => ⟨hs.1, hs.2, hs.3⟩) hrecv
        (hctl' hrecv (Or.inl hn) (fun _ => hn) (Or.inr (hnext pt))) (by simp)
  | progressOther pt =>
      refine .of_recv h (fun hs => ⟨hs.1, hs.2, hs.3⟩) hrecv
        (hctl' hrecv (Or.inr (Or.inl ?_)) (fun hc => ?_) (Or.inr (hnext pt))) (by simp)
      · simp [resume, progressOther, push, setCall, setLoc, hn, h.solo.requestList]
      · have hc' : next pt = .none := hc
        rcases hnext pt with ⟨_, h'⟩ | ⟨_, h'⟩ <;> simp [h'] at hc'
  | ret =>
      rcases hdone with rfl | rfl <;>
        exact .of_recv h (fun hs => ⟨hs.1, hs.2, hs.3⟩) hrecv
          (hctl' hrecv (Or.inl hn) (fun _ => hn) (Or.inl rfl)) (by simp)

/-- The function is done. -/
theorem recvCtl_none (hn : p.nested = []) (hc : p.call = .none) : p.RecvCtl found := by
  unfold RecvCtl
  rw [hc]
  exact hn

theorem others_of_push {cl : Call} (hn : p.nested = []) (hl : p.requestList = [0]) :
    ((p.setCall cl).progressOther 0).Others :=
  Or.inr (Or.inl (by simp [progressOther, push, setCall, hn, hl]))

/-- In the first Start. -/
theorem RecvInv.run_start {pt : StartRecvSearch} (h : RecvInv p found) (hn : p.nested = [])
    (hcall : p.call = .startRecv 0 pt) (hrun : p.runCall ans (.startRecv 0 pt) = some (p', c))
    (hok : p.Awaits ans found) : RecvStep p' c found := by
  have hctl := h.ctl
  unfold RecvCtl at hctl
  cases pt with
  | progress =>
      simp only [hcall] at hctl
      obtain ⟨-, -, ht⟩ := hctl
      cases hrun
      exact .of_same h (·.congr rfl rfl rfl) rfl rfl rfl (told_of_nil hn rfl rfl) rfl
        ⟨rfl, Or.inr (Or.inl (by simp [push, setCall, assert, hn])), ht⟩ (by simp)
  | probe =>
      simp only [hcall] at hctl
      obtain ⟨-, -, ht⟩ := hctl
      simp only [runCall] at hrun
      split at hrun
      · rename_i hr
        split at hrun <;> cases hrun
        · rename_i hf
          exact .of_same h (·.congr rfl rfl rfl) rfl rfl rfl (told_of_nil hn rfl rfl) rfl
            ⟨rfl, hn, ht, (hok hn hr).1 hcall hf⟩ (by simp)
        · exact .of_same h (·.congr rfl rfl rfl) rfl rfl rfl (told_of_nil hn rfl rfl) rfl
            (recvCtl_none hn rfl) (by simp)
      · rename_i hr
        cases hrun
        exact .of_same h (·.congr rfl rfl rfl) rfl rfl rfl (told_of_nil hn rfl rfl) rfl
          ⟨rfl, hn, ht, hr⟩ (by simp)
  | fallback =>
      simp only [hcall] at hctl
      obtain ⟨-, -, ht, hf⟩ := hctl
      cases hrun
      refine .of_same h (·.congr rfl rfl rfl) ?_ ?_ rfl (told_of_nil hn ?_ ?_) ?_ (recvCtl_none hn rfl)
        (fun _ _ => hf) <;> simp [ret, postBackup, setReq, assert]
  | post =>
      simp only [hcall] at hctl
      obtain ⟨-, -, ht, hr⟩ := hctl
      simp only [runCall] at hrun
      split at hrun <;> cases hrun
      · refine .of_same h (·.congr rfl rfl rfl) ?_ ?_ rfl (told_of_nil hn ?_ ?_) ?_ (recvCtl_none hn rfl)
          (fun _ _ => h.heard ht hr (by simp [hn])) <;> simp [ret, postBackup, setReq]
      · exact .of_same h (·.congr rfl rfl rfl) rfl rfl rfl (told_of_nil hn rfl rfl) rfl
          (recvCtl_none hn rfl) (by simp)

/-- In the first Wait, while the receiver is searching. -/
theorem RecvInv.run_searching {pt : WaitRecvSearch} (h : RecvInv p found) (hn : p.nested = [])
    (hpt : pt.undecided = true) (hcall : p.call = .waitRecv 0 pt)
    (hrun : p.runCall ans (.waitRecv 0 pt) = some (p', c)) (hok : p.Awaits ans found) :
    RecvStep p' c found := by
  have hctl := h.ctl
  unfold RecvCtl at hctl
  cases pt with
  | probe flag =>
      simp only [hcall] at hctl
      obtain ⟨-, -, ht⟩ := hctl
      simp only [runCall] at hrun
      split at hrun <;> cases hrun
      · exact .of_same h (·.congr rfl rfl rfl) rfl rfl rfl
          (fun htold hne => Or.inr ((htold hne).resolve_left (by simp [hn]))) rfl
          ⟨rfl, others_of_push hn h.solo.requestList, ht⟩ (by simp)
      · rename_i hleave
        have hr : (p.reqs 0).remoteDataAddr ≠ 0 := by
          intro hr
          cases flag with
          | false => exact hleave ⟨hr, rfl⟩
          | true => exact (hok hn hr).2 hcall
        exact .of_same h (·.congr rfl rfl rfl) rfl rfl rfl (told_of_nil hn rfl rfl) rfl
          ⟨rfl, hn, ht, hr⟩ (by simp)
  | progress flag =>
      simp only [hcall] at hctl
      obtain ⟨-, -, ht⟩ := hctl
      cases hrun
      exact .of_same h (·.congr rfl rfl rfl) rfl rfl rfl (told_of_nil hn rfl rfl) rfl
        ⟨rfl, Or.inr (Or.inl (by simp [push, setCall, hn])), ht⟩ (by simp)
  | post =>
      simp only [hcall] at hctl
      obtain ⟨-, -, ht, hr⟩ := hctl
      simp only [runCall] at hrun
      split at hrun <;> cases hrun
      · have hctl' : ((p.setCall (.waitRecv 0 .decide)).postBackup 0).RecvCtl found :=
          ⟨rfl, hn, by simpa [postBackup, setReq, setCall] using ht,
            by simpa [postBackup, setReq, setCall] using hr⟩
        refine .of_same h (·.congr rfl rfl rfl) ?_ ?_ rfl (told_of_nil hn ?_ ?_) ?_ hctl'
          (fun _ _ => h.heard ht hr (by simp [hn])) <;> simp [postBackup, setReq, setCall]
      · exact .of_same h (·.congr rfl rfl rfl) rfl rfl rfl (told_of_nil hn rfl rfl) rfl
          ⟨rfl, hn, ht, hr⟩ (by simp)
  | decide =>
      simp only [hcall] at hctl
      obtain ⟨-, -, ht, hr⟩ := hctl
      cases hrun
      have hrecv : (((p.setReq 0 fun q => { q with
          type := if q.remoteDataAddr = 0 then .recvFallback else .recv }).setCall
            (.waitRecv 0 .test)).reqs 0).type = .recv := by
        simp [setReq, setCall, hr]
      exact .of_recv h (·.congr rfl rfl rfl) hrecv ⟨rfl, Or.inl hn, hrecv⟩ (by simp)
  | test => cases hpt
  | tested flag => cases hpt

/-- At the end of the first Wait, the receiver is connected. -/
theorem RecvInv.run_connected {pt : WaitRecvSearch} (h : RecvInv p found) (hn : p.nested = [])
    (hpt : pt.undecided = false) (ht : (p.reqs 0).type = .recv)
    (hrun : p.runCall ans (.waitRecv 0 pt) = some (p', c)) : RecvStep p' c found := by
  cases pt with
  | test =>
      cases hrun
      have hk := testBackup_kept (p := p) ans 0
      have hn' : (p.testBackup ans 0).nested = [] := (testBackup_frame ans 0).2.2.2.trans hn
      have ht' : ((p.testBackup ans 0).reqs 0).type = .recv := (testBackup_type ans 0 0).trans ht
      exact .of_recv h (·.congr hk.1 hk.2 hk.3) ht'
        ⟨rfl, others_of_push hn' (hk.1.trans h.solo.requestList), ht'⟩ (by simp)
  | tested flag =>
      simp only [runCall] at hrun
      split at hrun <;> cases hrun
      · exact .of_recv h (·.congr rfl rfl rfl) ht (recvCtl_none hn rfl) (by simp)
      · exact .of_recv h (·.congr rfl rfl rfl) ht ⟨rfl, Or.inl hn, ht⟩ (by simp)
  | _ => cases hpt

/-- **One step of the receiver's code.** -/
theorem RecvInv.run (h : RecvInv p found) (hrun : p.run ans = some (p', c))
    (hperm : c = some (.testExchange 0) → ans.flag = true → found) (hok : p.Awaits ans found) :
    RecvStep p' c found := by
  by_cases hn : p.nested = []
  case neg => exact h.run_nested hn hrun hperm
  have hctl := h.ctl
  unfold RecvCtl at hctl
  have hrun := run_of_nil hn hrun
  cases hcall : p.call with
  | none => simp [hcall, runCall] at hrun
  | startRecv r pt =>
      rw [hcall] at hrun
      obtain rfl : r = 0 := by cases pt <;> simp only [hcall] at hctl <;> exact hctl.1
      exact h.run_start hn hcall hrun hok
  | waitRecv r pt =>
      rw [hcall] at hrun
      obtain rfl : r = 0 := by cases pt <;> simp only [hcall] at hctl <;> exact hctl.1
      cases hpt : pt.undecided with
      | true => exact h.run_searching hn hpt hcall hrun hok
      | false =>
          refine h.run_connected hn hpt ?_ hrun
          cases pt <;> simp only [WaitRecvSearch.undecided, reduceCtorEq] at hpt <;>
            simp only [hcall] at hctl <;> exact hctl.2.2
  | bRecv r pt =>
      simp only [hcall] at hctl
      obtain ⟨rfl, -, ht⟩ := hctl
      rw [hcall] at hrun
      cases hrun
      exact .of_resume h hn ht (type_bRecv (l := p.loc 0) pt) (fun pt' => Or.inl ⟨pt', rfl⟩) (Or.inl rfl)
  | eRecv r w =>
      simp only [hcall] at hctl
      obtain ⟨rfl, -, ht⟩ := hctl
      rw [hcall] at hrun
      cases hrun
      exact .of_resume h hn ht (type_eRecv (l := p.loc 0) w) (fun w' => Or.inr ⟨w', rfl⟩) (Or.inr rfl)
  | _ => simp [hcall] at hctl

/-- **One step of the receiver's process.** -/
theorem RecvInv.act {x : ProcAct} (h : RecvInv p found) (hact : p.act .recvSearch x = some (p', c))
    (hperm : c = some (.testExchange 0) → x.flag = true → found)
    (hok : ∀ ans, x = .run ans → p.Awaits ans found) : RecvStep p' c found := by
  have hctl := h.ctl
  have hsolo : ∀ {q : Proc}, q.requestList = p.requestList → q.nextRid = p.nextRid →
      q.counterpart = p.counterpart → Solo p → Solo q :=
    fun h1 h2 h3 hs => ⟨h1.trans hs.1, h2.trans hs.2, by rw [h3]; exact hs.3⟩
  cases x with
  | init args info =>
      simp only [Proc.act] at hact
      split at hact
      · rename_i hfree
        simp [h.solo.nextRid] at hfree
      · simp at hact
  | start =>
      simp only [Proc.act] at hact
      split at hact <;> simp only [reduceCtorEq, Option.some.injEq] at hact
      rename_i hfree
      obtain ⟨⟨hc, hn⟩, -, hidle⟩ := hfree
      unfold Proc.start at hact
      rcases h.type with ht | ht <;> simp only [ht] at hact <;> cases hact
      · refine ⟨⟨hsolo rfl rfl rfl h.solo, Or.inl ?_, fun _ => ?_, ⟨rfl, hn, ?_⟩,
          fun _ => told_of_nil hn ?_ ?_ (h.told ht), fun _ he => h.exchange ht ?_⟩, by simp⟩
        · simpa [setReq, setCall] using ht
        · simp [setReq, setCall, h.count ht, hidle]
        · simpa [setReq, setCall] using ht
        · simp [setReq, setCall]
        · simp [setReq, setCall]
        · simpa [setReq, setCall] using he
      · have ht' : ((({ p.setReq 0 fun q => { q with
            operationNumber := q.operationNumber + 1 } with
              active := Function.update p.active 0 true } : Proc).setCall (.bRecv 0 .test)).reqs 0).type =
            .recv := by simpa [setReq, setCall] using ht
        exact .of_recv h (hsolo rfl rfl rfl) ht' ⟨rfl, Or.inl hn, ht'⟩ (by simp)
  | wait =>
      simp only [Proc.act] at hact
      split at hact <;> simp only [reduceCtorEq, Option.some.injEq] at hact
      rename_i hfree
      obtain ⟨⟨hc, hn⟩, -, hactive⟩ := hfree
      unfold Proc.wait at hact
      rcases h.type with ht | ht <;> simp only [ht] at hact <;> cases hact
      · exact .of_same h (hsolo rfl rfl rfl) rfl rfl rfl (told_of_nil hn rfl rfl) rfl
          ⟨rfl, Or.inl hn, ht⟩ (by simp)
      · exact .of_recv h (hsolo rfl rfl rfl) ht ⟨rfl, Or.inl hn, ht⟩ (by simp)
  | run ans => exact h.run hact hperm (hok ans rfl)
  | lands i =>
      simp only [Proc.act] at hact
      split at hact <;> simp only [reduceCtorEq, Option.some.injEq] at hact
      cases hact
      exact .of_same h (hsolo rfl rfl rfl) rfl rfl rfl id rfl hctl (by simp)
  | writeFlag v =>
      cases hact
      refine .of_same h (hsolo rfl rfl rfl) ?_ ?_ rfl ?_ ?_ ?_ (by simp)
      · simp [setReq]
      · simp [setReq]
      · simp [Told, setReq]
      · simp [setReq]
      · unfold RecvCtl at hctl ⊢
        simpa [setReq, Searches, Others] using hctl

end

/-- A process whose user has not initialised the request. -/
theorem Blank.act {p p' : Proc} {type : RequestType} {x : ProcAct} {c : Option MpiCall} (h : p.Blank)
    (hact : p.act type x = some (p', c)) :
    (p'.Blank ∧ c = none) ∨ ∃ args info, info.dataAddr ≠ 0 ∧ p.initRequest type args info = (p', c) := by
  cases x with
  | init args info =>
      simp only [Proc.act] at hact
      split at hact <;> simp only [reduceCtorEq, Option.some.injEq] at hact
      rename_i hfree
      exact Or.inr ⟨args, info, hfree.2.2, hact⟩
  | start => simp [Proc.act, h.nextRid] at hact
  | wait => simp [Proc.act, h.nextRid] at hact
  | run ans => simp [Proc.act, Proc.run, h.nested, h.call, runCall] at hact
  | lands i =>
      simp only [Proc.act] at hact
      split at hact <;> simp only [reduceCtorEq, Option.some.injEq] at hact
      cases hact
      exact Or.inl ⟨⟨h.1, h.2, h.3, h.4⟩, rfl⟩
  | writeFlag v =>
      cases hact
      exact Or.inl ⟨⟨h.1, h.2, h.3, h.4⟩, rfl⟩

/-- A request that was initialised just now. -/
theorem solo_initRequest {p : Proc} {type : RequestType} {args : InitArgs} {info : RdmaInfo}
    (h : p.Blank) (hi : info.dataAddr ≠ 0) : (p.initRequest type args info).1.Solo :=
  ⟨by simp [initRequest, h.nextRid, h.requestList], by simp [initRequest, h.nextRid],
    by simpa [initRequest, h.nextRid] using hi⟩

theorem SendInv.of_init {p : Proc} {args : InitArgs} {info : RdmaInfo} {posted matched : Prop}
    (h : p.Blank) (hi : info.dataAddr ≠ 0) (hm : ¬ matched) :
    SendInv (p.initRequest .sendSearch args info).1 posted matched := by
  refine ⟨solo_initRequest h hi, ?_, ?_, ?_, ?_, fun hm' => absurd hm' hm⟩
  · simp [initRequest, h.nextRid]
  · simp [initRequest, h.nextRid]
  · unfold SendCtl
    rw [show (p.initRequest .sendSearch args info).1.call = .none from h.call]
    exact ⟨h.nested, by simp [initRequest, h.nextRid]⟩
  · simp [initRequest, h.nextRid]

theorem RecvInv.of_init {p : Proc} {args : InitArgs} {info : RdmaInfo} {found : Prop}
    (h : p.Blank) (hi : info.dataAddr ≠ 0) : RecvInv (p.initRequest .recvSearch args info).1 found := by
  refine ⟨solo_initRequest h hi, ?_, ?_, ?_, fun _ hne => ?_, fun _ he => ?_⟩
  · simp [initRequest, h.nextRid]
  · simp [initRequest, h.nextRid]
  · unfold RecvCtl
    rw [show (p.initRequest .recvSearch args info).1.call = .none from h.call]
    exact h.nested
  · simp [initRequest, h.nextRid] at hne
  · simp [initRequest, h.nextRid] at he

end Proc

/-! ### Both sides -/

namespace Meeting

/-- The sender has found the receiver's info. -/
def Informed (m : Meeting) : Prop := m.send.nextRid = 1 ∧ m.send.Found

structure Inv (m : Meeting) : Prop where
  send : m.send.Blank ∨ m.send.SendInv (1 ≤ m.payload.sent) (1 ≤ m.payload.received)
  recv : m.recv.Blank ∨ (m.recv.RecvInv m.Informed ∧ 1 ≤ m.response.sent)
  found : 1 ≤ m.response.received → m.Informed
  posts : 1 ≤ m.payload.received → m.Informed

/--
The payload does not overtake the sender's info where the receiver looks for both.  In
Start, a probe for the payload finds it only if the info was found before, or if the
sender has found the receiver's; in Wait, the search does not end with the payload
alone.
-/
def NotOvertaken (m : Meeting) (act : Side × ProcAct) : Prop :=
  ∀ ans, act = (.receiver, .run ans) → m.recv.Awaits ans m.Informed

section
variable {m m' : Meeting}

theorem inv_init (h : Init m) : m.Inv where
  send := Or.inl h.send
  recv := Or.inl h.recv
  found hle := by simp [h.response] at hle
  posts hle := by simp [h.payload] at hle

theorem callSend_frame (c : Option MpiCall) :
    (m.callSend c).send = m.send ∧ (m.callSend c).recv = m.recv ∧
      (m.callSend c).response.sent = m.response.sent ∧
      (m.callSend c).payload.received = m.payload.received ∧
      m.payload.sent ≤ (m.callSend c).payload.sent := by
  unfold callSend
  split <;> simp [Envelope.send, Envelope.receive]

theorem callRecv_frame (c : Option MpiCall) :
    (m.callRecv c).send = m.send ∧ (m.callRecv c).recv = m.recv ∧
      (m.callRecv c).response.received = m.response.received ∧
      m.response.sent ≤ (m.callRecv c).response.sent ∧
      (m.callRecv c).payload.sent = m.payload.sent := by
  unfold callRecv
  split <;> simp [Envelope.send, Envelope.receive]

/-- A call of the sender counts its payload, and the receiver's info once it has found it. -/
theorem callSend_counts (c : Option MpiCall) :
    (c = some (.issend 0 .comm) → 1 ≤ (m.callSend c).payload.sent) ∧
      ((∀ r, c ≠ some (.recv r .response)) → (m.callSend c).response.received = m.response.received) := by
  unfold callSend
  split <;> simp_all [Envelope.send]

/-- A call of the receiver counts the receives it posts for the payload. -/
theorem callRecv_counts (c : Option MpiCall) :
    (∀ r, c ≠ some (.irecv r)) → (m.callRecv c).payload.received = m.payload.received := by
  unfold callRecv
  split <;> simp [Envelope.receive]

/-- **A step of the sender.** -/
theorem inv_sender {x : ProcAct} (h : m.Inv) (hs : m.step (.sender, x) = some m') : m'.Inv := by
  simp only [step] at hs
  split at hs
  · rename_i y hact
    obtain ⟨p', c⟩ := y
    split at hs <;> simp only [reduceCtorEq, Option.some.injEq] at hs
    rename_i hperm
    subst hs
    obtain ⟨hsend, hrecv, hresp, hpay, hsent⟩ := callSend_frame (m := { m with send := p' }) c
    obtain ⟨hissend, hrespc⟩ := callSend_counts (m := { m with send := p' }) c
    have hm : m.setSend (p', c) = callSend { m with send := p' } c := rfl
    rw [hm]
    rcases h.send with hb | hinv
    · have hnot : ¬ m.Informed := by
        intro hi
        have hone := hi.1
        rw [hb.nextRid] at hone
        exact absurd hone (by decide)
      have hnotread : ∀ r, c ≠ some (.recv r .response) := by
        rcases hb.act hact with ⟨-, rfl⟩ | ⟨args, info, -, hinit⟩
        · simp
        · cases hinit
          simp
      refine ⟨?_, ?_, fun hle => ?_, fun hle => ?_⟩
      · rw [hsend]
        rcases hb.act hact with ⟨hb', -⟩ | ⟨args, info, hi, hinit⟩
        · exact Or.inl hb'
        · have hp' : p' = (m.send.initRequest .sendSearch args info).1 := by rw [hinit]
          subst hp'
          exact Or.inr (.of_init hb hi fun hle => hnot (h.posts (hpay ▸ hle)))
      · rw [hrecv, hresp]
        exact h.recv.imp id fun ⟨hr, hone⟩ => ⟨hr.mono fun hi => absurd hi hnot, hone⟩
      · rw [hrespc hnotread] at hle
        exact absurd (h.found hle) hnot
      · rw [hpay] at hle
        exact absurd (h.posts hle) hnot
    · have hstep := hinv.act hact (by
        rintro rfl hflag hposted
        simp only [permitsSend, hflag, Bool.not_true, Bool.false_or, Envelope.matched,
          decide_eq_true_eq] at hperm
        exact Nat.le_trans hposted hperm)
      have hinv' : Proc.SendInv p' (1 ≤ (callSend { m with send := p' } c).payload.sent)
          (1 ≤ m.payload.received) :=
        hstep.inv _ (fun hle => Nat.le_trans hle hsent) hissend
      have hnext : p'.nextRid = 1 := hinv'.solo.nextRid
      have hinf : m.Informed → (callSend { m with send := p' } c).Informed := by
        intro hi
        unfold Informed
        rw [hsend]
        exact ⟨hnext, hstep.found hi.2⟩
      refine ⟨?_, ?_, fun hle => ?_, fun hle => ?_⟩
      · rw [hsend, hpay]
        exact Or.inr hinv'
      · rw [hrecv, hresp]
        exact h.recv.imp id fun ⟨hr, hone⟩ => ⟨hr.mono hinf, hone⟩
      · by_cases hread : ∃ r, c = some (.recv r .response)
        · obtain ⟨r, hc⟩ := hread
          exact hinf ⟨hinv.solo.nextRid, hstep.reads r hc⟩
        · rw [hrespc (fun r hc => hread ⟨r, hc⟩)] at hle
          exact hinf (h.found hle)
      · rw [hpay] at hle
        exact hinf (h.posts hle)
  · simp at hs

/-- **A step of the receiver.** -/
theorem inv_receiver {x : ProcAct} (h : m.Inv) (hok : m.NotOvertaken (.receiver, x))
    (hs : m.step (.receiver, x) = some m') : m'.Inv := by
  simp only [step] at hs
  split at hs
  · rename_i y hact
    obtain ⟨p', c⟩ := y
    split at hs <;> simp only [reduceCtorEq, Option.some.injEq] at hs
    rename_i hperm
    subst hs
    obtain ⟨hsend, hrecv, hresp, hsent, hpay⟩ := callRecv_frame (m := { m with recv := p' }) c
    have hpayc := callRecv_counts (m := { m with recv := p' }) c
    have hm : m.setRecv (p', c) = callRecv { m with recv := p' } c := rfl
    rw [hm]
    have hinf : (callRecv { m with recv := p' } c).Informed ↔ m.Informed := by
      unfold Informed
      rw [hsend]
    have hkeep : ((∀ r, c ≠ some (.irecv r)) ∨ m.Informed) →
        (m.send.Blank ∨ m.send.SendInv (1 ≤ (callRecv { m with recv := p' } c).payload.sent)
          (1 ≤ (callRecv { m with recv := p' } c).payload.received)) ∧
        (1 ≤ (callRecv { m with recv := p' } c).payload.received → m.Informed) := by
      rintro (hc | hi)
      · rw [hpayc hc, hpay]
        exact ⟨h.send, h.posts⟩
      · rw [hpay]
        exact ⟨h.send.imp id fun hinv => ⟨hinv.solo, hinv.type, hinv.count, hinv.ctl, hinv.backup,
          fun _ => hi.2⟩, fun _ => hi⟩
    have hfound : 1 ≤ (callRecv { m with recv := p' } c).response.received → m.Informed := by
      rw [hresp]
      exact h.found
    rcases h.recv with hb | ⟨hinv, hone⟩
    · rcases hb.act hact with ⟨hb', rfl⟩ | ⟨args, info, hi, hinit⟩
      · obtain ⟨hs', hp'⟩ := hkeep (Or.inl (by simp))
        exact ⟨hs', Or.inl hb', hfound, hp'⟩
      · obtain ⟨rfl, rfl⟩ := Prod.mk.inj hinit
        obtain ⟨hs', hp'⟩ := hkeep (Or.inl (by simp))
        exact ⟨hs', Or.inr ⟨.of_init hb hi, by simp [callRecv, Envelope.send]⟩, hfound, hp'⟩
    · have hstep := hinv.act hact (by
        rintro rfl hflag
        simp only [permitsRecv, hflag, Bool.not_true, Bool.false_or, Envelope.matched,
          decide_eq_true_eq] at hperm
        exact h.found (Nat.le_trans hone hperm)) (fun ans hx => hok ans (by rw [hx]))
      have hposts : (∀ r, c ≠ some (.irecv r)) ∨ m.Informed := by
        by_cases hc : ∃ r, c = some (.irecv r)
        · obtain ⟨r, hc⟩ := hc
          exact Or.inr (hstep.posts r hc)
        · exact Or.inl fun r hcr => hc ⟨r, hcr⟩
      obtain ⟨hs', hp'⟩ := hkeep hposts
      refine ⟨by rw [hsend]; exact hs', ?_, fun hle => hinf.mpr (hfound hle),
        fun hle => hinf.mpr (hp' hle)⟩
      rw [hrecv]
      exact Or.inr ⟨hstep.inv.mono hinf.mpr, Nat.le_trans hone hsent⟩
  · simp at hs

/-- **Step lemma.** -/
theorem inv_step {act : Side × ProcAct} (h : m.Inv) (hok : m.NotOvertaken act)
    (hs : m.step act = some m') : m'.Inv := by
  obtain ⟨side, x⟩ := act
  cases side with
  | sender => exact inv_sender h hs
  | receiver => exact inv_receiver h hok hs

/-- Neither side has fallen back, and a side that is done with its first Wait is connected. -/
theorem Inv.send_type (h : m.Inv) (hr : m.send.nextRid = 1) :
    ((m.send.reqs 0).type = .sendSearch ∨ (m.send.reqs 0).type = .send) ∧
      (m.send.Decided → (m.send.reqs 0).type = .send) := by
  rcases h.send with hb | hinv
  · rw [hb.nextRid] at hr
    exact absurd hr (by decide)
  · refine ⟨hinv.type, fun hd => hinv.type.resolve_left fun ht => ?_⟩
    have hcount := hinv.count ht
    rcases hd.2 with ⟨ha, hle⟩ | hle
    · rw [ha] at hcount
      simp at hcount
      omega
    · split at hcount <;> omega

theorem Inv.recv_type (h : m.Inv) (hr : m.recv.nextRid = 1) :
    ((m.recv.reqs 0).type = .recvSearch ∨ (m.recv.reqs 0).type = .recv) ∧
      (m.recv.Decided → (m.recv.reqs 0).type = .recv) := by
  rcases h.recv with hb | ⟨hinv, -⟩
  · rw [hb.nextRid] at hr
    exact absurd hr (by decide)
  · refine ⟨hinv.type, fun hd => hinv.type.resolve_left fun ht => ?_⟩
    have hcount := hinv.count ht
    rcases hd.2 with ⟨ha, hle⟩ | hle
    · rw [ha] at hcount
      simp at hcount
      omega
    · split at hcount <;> omega

theorem Inv.agree (h : m.Inv) : m.Agree := by
  have hsend : ¬ m.send.FellBack := by
    rintro ⟨hr, ht⟩
    rcases (h.send_type hr).1 with h' | h' <;> simp [h'] at ht
  have hrecv : ¬ m.recv.FellBack := by
    rintro ⟨hr, ht⟩
    rcases (h.recv_type hr).1 with h' | h' <;> simp [h'] at ht
  exact ⟨fun hf => absurd hf hsend, fun hf => absurd hf hrecv, ⟨fun _ => hrecv, fun _ => hsend⟩,
    fun hs hr => Or.inl ⟨(h.send_type hs.1).2 hs, (h.recv_type hr.1).2 hr⟩⟩

/--
**The two sides agree** in every run in which the payload does not overtake the sender's
info.
-/
theorem handshake_agrees (h : Reach step NotOvertaken Init m) : m.Agree :=
  (h.invariant (fun _ h0 => inv_init h0) fun _ _ _ h hok hs => inv_step h hok hs).agree

end

/-! ### Two runs -/

/-- Two processes with no requests. -/
def fresh : Meeting := ⟨freshWorld.proc, freshWorld.proc, ⟨0, 0⟩, ⟨0, 0⟩, ⟨0, 0⟩⟩

theorem fresh_init : Init fresh := ⟨⟨rfl, rfl, rfl, rfl⟩, ⟨rfl, rfl, rfl, rfl⟩, rfl, rfl, rfl⟩

/-- `n` steps of a side in which its probes and tests answer `flag`. -/
def answered (side : Side) (n : Nat) (flag : Bool) : List (Side × ProcAct) :=
  List.replicate n (side, .run ⟨false, flag⟩)

/-- Both sides are initialised, and the sender has started; nothing has arrived. -/
def startRun : List (Side × ProcAct) :=
  [(.sender, .init ⟨24, 1, 1, 0, 12⟩ ⟨16, 4, 0, 0⟩), (.receiver, .init ⟨16, 1, 0, 0, 4⟩ ⟨24, 12, 0, 0⟩),
    (.sender, .start)] ++ answered .sender 4 false ++ [(.receiver, .start)]

/-- The infos arrive before the payload does. -/
def connectedRun : List (Side × ProcAct) :=
  startRun ++ answered .receiver 4 false ++ [(.sender, .wait), (.receiver, .wait)] ++
    answered .sender 1 false ++ answered .sender 1 true ++ answered .sender 1 false ++
    answered .receiver 4 false ++ answered .receiver 1 true ++ answered .receiver 1 false ++
    answered .receiver 1 true ++ answered .receiver 4 false ++ answered .receiver 1 true ++
    answered .receiver 3 false ++ answered .sender 1 true ++ answered .sender 2 false ++
    answered .sender 1 true ++ answered .sender 3 false

/-- The payload arrives between the receiver's two probes, and the sender tests it before it
finds the receiver's info. -/
def overtakenRun : List (Side × ProcAct) :=
  startRun ++ answered .receiver 3 false ++ answered .receiver 1 true ++ answered .receiver 1 false ++
    [(.sender, .wait)] ++ answered .sender 4 false ++ answered .sender 1 true ++
    answered .sender 3 false ++ [(.receiver, .wait)] ++ answered .receiver 4 false ++
    answered .receiver 1 true ++ answered .receiver 1 false

/-- The condition on the steps, as a test. -/
def notOvertaken (m : Meeting) : Side × ProcAct → Bool
  | (.receiver, .run ans) =>
      decide (m.recv.nested ≠ []) || decide ((m.recv.reqs 0).remoteDataAddr ≠ 0) ||
        (decide (m.recv.call ≠ .waitRecv 0 (.probe true)) &&
          (decide (m.recv.call ≠ .startRecv 0 .probe) || !ans.flag ||
            (decide (m.send.nextRid = 1) && decide ((m.send.reqs 0).remoteDataAddr ≠ 0))))
  | _ => true

theorem notOvertaken_sound (m : Meeting) (act : Side × ProcAct) (h : notOvertaken m act = true) :
    m.NotOvertaken act := by
  rintro ans rfl hn hr
  simp only [notOvertaken, Bool.or_eq_true, decide_eq_true_eq, Bool.and_eq_true,
    Bool.not_eq_true'] at h
  obtain ⟨h1, h2⟩ := h.resolve_left fun h' => h'.elim (fun h'' => h'' hn) fun h'' => h'' hr
  refine ⟨fun hc hf => ?_, h1⟩
  rcases h2 with (h2 | h2) | ⟨h2, h3⟩
  · exact absurd hc h2
  · simp [hf] at h2
  · exact ⟨h2, Or.inl h3⟩

theorem connectedRun_agrees :
    match runFrom (guarded notOvertaken step) fresh connectedRun with
    | some m => m.Agree ∧ m.send.active 0 = false ∧ (m.send.reqs 0).type = .send ∧
        m.recv.active 0 = false ∧ (m.recv.reqs 0).type = .recv
    | none => False := by
  have hrun : (runFrom (guarded notOvertaken step) fresh connectedRun).any (fun m => decide
      (m.send.active 0 = false ∧ (m.send.reqs 0).type = .send ∧ m.recv.active 0 = false ∧
        (m.recv.reqs 0).type = .recv)) = true := by
    decide +kernel
  cases h : runFrom (guarded notOvertaken step) fresh connectedRun with
  | none => simp [h] at hrun
  | some m =>
      simp only [h, Option.any_some, decide_eq_true_eq] at hrun
      exact ⟨handshake_agrees (.of_guarded notOvertaken_sound _ (.init fresh_init) h), hrun⟩

/-- The sender has fallen back, and the receiver has its info and waits for it to take its own. -/
theorem overtakenRun_disagrees :
    match runFrom step fresh overtakenRun with
    | some m => Reach step anyStep Init m ∧ ¬ m.Agree ∧ m.send.active 0 = false ∧
        (m.send.reqs 0).type = .sendFallback ∧ m.handshake.received = 1 ∧
        m.recv.nested = [.receiveInfo 0 .test, .progressWaiting 0 .post]
    | none => False := by
  have hrun : (runFrom step fresh overtakenRun).any (fun m => decide
      (m.send.nextRid = 1 ∧ m.send.active 0 = false ∧ (m.send.reqs 0).type = .sendFallback ∧
        m.handshake.received = 1 ∧
        m.recv.nested = [.receiveInfo 0 .test, .progressWaiting 0 .post])) = true := by
    decide +kernel
  cases h : runFrom step fresh overtakenRun with
  | none => simp [h] at hrun
  | some m =>
      simp only [h, Option.any_some, decide_eq_true_eq] at hrun
      obtain ⟨hr, ha, ht, hh, hn⟩ := hrun
      refine ⟨.of_runFrom _ (.init fresh_init) h, fun hagree => ?_, ha, ht, hh, hn⟩
      have hzero := hagree.sender ⟨hr, Or.inl ht⟩
      rw [hh] at hzero
      exact absurd hzero (by decide)

end Meeting

end CompMatch.Rendezvous

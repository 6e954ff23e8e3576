/-
When two sides of the active-message handshake agree.

Each side decides by one `MPI_Test`, at an instant of its own.  The sender tests for the
arrival of the id, the receiver for its acknowledgement, which comes later.  So the two
may well see different things, and then they disagree for good.  `agree_iff` says that
this is the only way: the sides agree exactly if both tests found what they were for, or
neither did.
-/
import CompMatch.Proofs.ActiveMessage.World
import CompMatch.ActiveMessage.Handshake

namespace CompMatch.ActiveMessage

/-! ### What a process keeps about its handshakes -/

def RequestType.isSearch : RequestType → Bool
  | .recvSearch | .sendSearch => true
  | _ => false

structure SameInfo (l l' : Local) : Prop where
  type : l'.req.type = l.req.type
  amId : l'.req.amId = l.req.amId
  exchange : l'.req.rdmaExchangeRequest = l.req.rdmaExchangeRequest

theorem SameInfo.refl {l : Local} : SameInfo l l := ⟨rfl, rfl, rfl⟩

theorem Untouched.sameInfo {l l' : Local} (h : Untouched l l') : SameInfo l l' :=
  ⟨h.type, h.amId, h.exchange⟩

/-- The type a search ends with. -/
def RequestType.decided (found : Bool) : RequestType → RequestType
  | .sendSearch => if found then .send else .sendFallback
  | .recvSearch => if found then .recv else .recvFallback
  | t => t

/-- What a step does to the handshake of a request. -/
inductive InfoStep (q : Rid) (flag : Bool) (l l' : Local) : Option MpiCall → Prop
  | same {c : Option MpiCall} (h : SameInfo l l') (hc : c ≠ some (.testExchange q)) :
      InfoStep q flag l l' c
  | posted (ht : l'.req.type = l.req.type) (ha : l'.req.amId = l.req.amId)
      (he : l'.req.rdmaExchangeRequest.isSome = true) : InfoStep q flag l l' (some (.issendInfo q))
  | decided (hs : l.req.type.isSearch = true) (ha : l'.req.amId = l.req.amId)
      (ht : l'.req.type = l.req.type.decided (l.req.rdmaExchangeRequest.isNone || flag)) :
      InfoStep q flag l l' (some (.testExchange q))

structure ProcOk (p : Proc) : Prop where
  call : CallOk p
  list : ∀ q ∈ p.requestList, q < p.nextRid ∧
    ((p.type q).isSearch = true → (p.reqs q).req.rdmaExchangeRequest.isSome = true)
  waiting : ∀ q pt, p.call = .waitSend q pt ∨ p.call = .waitRecv q pt →
    (p.reqs q).req.rdmaExchangeRequest.isSome = true

/-- The handshakes, and the function the user called, are as before. -/
structure RunsSame (p p' : Proc) : Prop where
  info : ∀ q, SameInfo (p.reqs q) (p'.reqs q)
  call : p'.call = p.call
  nextRid : p'.nextRid = p.nextRid
  requestList : p'.requestList = p.requestList
  active : p'.active = p.active

section
variable {mode : Mode} {p p' : Proc} {ans : Answer} {q r : Rid} {c : Option MpiCall} {l : Local}
  {a : ProcAct}

theorem setLoc_sameInfo (h : SameInfo (p.reqs r) l) (q : Rid) :
    SameInfo (p.reqs q) ((p.setLoc r l).reqs q) := by
  by_cases he : q = r
  · subst he
    show SameInfo _ (Function.update p.reqs q l q)
    rw [Function.update_self]
    exact h
  · show SameInfo _ (Function.update p.reqs r l q)
    rw [Function.update_of_ne he]
    exact .refl

theorem setBackup_sameInfo (h : Option Nat) (q : Rid) :
    SameInfo (p.reqs q) ((p.setReq r fun x => { x with backupRequest := h }).reqs q) := by
  have hi : SameInfo (p.reqs r)
      { p.reqs r with req := { (p.reqs r).req with backupRequest := h } } := ⟨rfl, rfl, rfl⟩
  exact setLoc_sameInfo hi q

/-- One step of the function the user called. -/
theorem runCall_info (h : p.runCall mode ans p.call = some (p', c)) (hok : CallOk p) (q : Rid) :
    InfoStep q ans.flag (p.reqs q) (p'.reqs q) c := by
  unfold CallOk at hok
  cases hcall : p.call with
  | none => simp [Proc.runCall, hcall] at h
  | init r =>
      rw [hcall] at h
      cases h
      by_cases he : q = r
      · subst he
        exact .posted (by simp [Proc.setReq, Proc.setLoc]) (by simp [Proc.setReq, Proc.setLoc])
          (by simp [Proc.setReq, Proc.setLoc])
      · refine .same ?_ (by simp)
        show SameInfo _ (Function.update p.reqs r _ q)
        rw [Function.update_of_ne he]
        exact .refl
  | bSend r pt =>
      rw [hcall] at h
      have hu : Untouched (p.reqs r) (bSend mode ans.imm pt (p.reqs r)).2.1 := bSend_untouched
      simp only [Proc.runCall] at h
      split at h <;> cases h <;> rename_i heq <;> rw [heq] at hu <;>
        exact .same (setLoc_sameInfo hu.sameInfo q) (by simp)
  | bRecv r pt =>
      rw [hcall] at h
      have hu : Untouched (p.reqs r) (bRecv mode (ans.here r) pt (p.reqs r)).2 := bRecv_untouched
      simp only [Proc.runCall] at h
      split at h <;> cases h <;> rename_i heq <;> rw [heq] at hu <;>
        exact .same (setLoc_sameInfo hu.sameInfo q) (by simp)
  | eSend r w =>
      rw [hcall] at h
      have hu : Untouched (p.reqs r) (eSend ans.flag w (p.reqs r)).2 := eSend_untouched
      simp only [Proc.runCall] at h
      split at h <;> cases h <;> rename_i heq <;> rw [heq] at hu <;>
        exact .same (setLoc_sameInfo hu.sameInfo q) (by simp)
  | eRecv r w =>
      rw [hcall] at h
      have hu : Untouched (p.reqs r) (eRecv w (p.reqs r)).2 := eRecv_untouched
      simp only [Proc.runCall] at h
      split at h <;> cases h <;> rename_i heq <;> rw [heq] at hu
      · exact .same (setLoc_sameInfo hu.sameInfo q) (by simp)
      · exact .same (setLoc_sameInfo hu.sameInfo q) (by simp)
      · have hi : SameInfo (p.reqs r) (Local.recordReturn _) := ⟨hu.type, hu.amId, hu.exchange⟩
        exact .same (setLoc_sameInfo hi q) (by simp)
  | waitSend r pt | waitRecv r pt =>
      rw [hcall] at h hok
      cases pt with
      | backup =>
          simp only [Proc.runCall] at h
          split at h <;> cases h
          · exact .same (setBackup_sameInfo Option.none q) (by simp)
          · exact .same .refl (by simp)
      | exchange =>
          simp only [Proc.runCall, Option.some.injEq, Prod.mk.injEq] at h
          obtain ⟨rfl, rfl⟩ := h
          by_cases he : q = r
          · subst he
            have htype : (p.reqs q).req.type = _ := hok.2
            refine .decided (by rw [htype]; rfl) ?_ ?_
            · simp only [Proc.finish, Proc.setReq, Proc.setLoc, Function.update_self]
              split <;> rfl
            · rw [htype]
              simp only [Proc.finish, Proc.setReq, Proc.setLoc, Function.update_self,
                Proc.exchangeDone, RequestType.decided]
              split <;> simp_all
          · refine .same ?_ (by simp [Ne.symm he])
            show SameInfo _ (Function.update p.reqs r _ q)
            rw [Function.update_of_ne he]
            exact .refl
  | mpiWait r =>
      rw [hcall] at h
      simp only [Proc.runCall] at h
      split at h <;> cases h
      · exact .same (setBackup_sameInfo Option.none q) (by simp)
      · exact .same .refl (by simp)

/-- Progressing a request leaves every handshake alone. -/
theorem runFrame_info (f : Frame) : RunsSame p (p.runFrame mode ans f) := by
  have hrefl : ∀ q, SameInfo (p.reqs q) (p.reqs q) := fun _ => .refl
  cases f with
  | progressOther current rest =>
      cases rest with
      | nil => exact ⟨hrefl, rfl, rfl, rfl, rfl⟩
      | cons r rest =>
          simp only [Proc.runFrame]
          split
          · exact ⟨hrefl, rfl, rfl, rfl, rfl⟩
          · unfold Proc.progressRequest
            split
            · split <;> exact ⟨hrefl, rfl, rfl, rfl, rfl⟩
            all_goals exact ⟨hrefl, rfl, rfl, rfl, rfl⟩
  | progressRecv r pt =>
      have hu : Untouched (p.reqs r) (bRecv mode (ans.here r) pt (p.reqs r)).2 := bRecv_untouched
      simp only [Proc.runFrame]
      split <;> rename_i heq <;> rw [heq] at hu <;>
        exact ⟨setLoc_sameInfo hu.sameInfo, rfl, rfl, rfl, rfl⟩

/-- What is true of a process stays true if no handshake and no call changes. -/
theorem ProcOk.congr (h : ProcOk p) (hi : ∀ q, SameInfo (p.reqs q) (p'.reqs q))
    (hc : p'.call = p.call) (hn : p'.nextRid = p.nextRid)
    (hl : ∀ q ∈ p'.requestList, q ∈ p.requestList) (ha : p'.active = p.active) : ProcOk p' := by
  have htype : ∀ q, p'.type q = p.type q := fun q => (hi q).type
  refine ⟨?_, fun q hq => ?_, fun q pt hq => ?_⟩
  · have hok := h.call
    unfold CallOk at hok ⊢
    simp only [hc, hn, htype, ha]
    exact hok
  · rw [hn, htype, (hi q).exchange]
    exact h.list q (hl q hq)
  · rw [hc] at hq
    rw [(hi q).exchange]
    exact h.waiting q pt hq

/-- Only the end of `init` lists a request, and a Wait that goes on is the Wait there was. -/
theorem runCall_control (h : p.runCall mode ans p.call = some (p', c)) :
    (p'.requestList = p.requestList ∨
      ∃ r, p.call = .init r ∧ c = some (.issendInfo r) ∧ p'.requestList = r :: p.requestList) ∧
    (∀ q pt, p'.call = .waitSend q pt ∨ p'.call = .waitRecv q pt →
      (∃ pt', p.call = .waitSend q pt' ∨ p.call = .waitRecv q pt') ∧ c ≠ some (.testExchange q)) ∧
    (∀ q, c = some (.issendInfo q) → p.call = .init q) ∧ (∀ q, c ≠ some (.irecvInfo q)) ∧
    ∀ q, c = some (.testExchange q) → ∃ pt, p.call = .waitSend q pt ∨ p.call = .waitRecv q pt := by
  cases hcall : p.call with
  | none => simp [Proc.runCall, hcall] at h
  | init r =>
      rw [hcall] at h
      cases h
      exact ⟨Or.inr ⟨r, rfl, rfl, rfl⟩, by simp, by simp, by simp, by simp⟩
  | bSend r pt | bRecv r pt | eSend r w | eRecv r w =>
      rw [hcall] at h
      simp only [Proc.runCall] at h
      split at h <;> cases h <;>
        exact ⟨Or.inl rfl, by simp [Proc.setCall, Proc.ret, Proc.finish, Proc.progressOther,
          Proc.push], by simp, by simp, by simp⟩
  | waitSend r pt | waitRecv r pt =>
      rw [hcall] at h
      cases pt with
      | backup =>
          simp only [Proc.runCall] at h
          split at h <;> cases h
          · refine ⟨Or.inl rfl, fun q pt hq => ⟨?_, by simp⟩, by simp, by simp, by simp⟩
            simp only [Proc.setCall, Call.waitSend.injEq, Call.waitRecv.injEq, reduceCtorEq,
              or_false, false_or] at hq
            obtain ⟨rfl, -⟩ := hq
            exact ⟨.backup, by simp⟩
          · exact ⟨Or.inl rfl, fun q pt hq => ⟨⟨pt, hcall ▸ hq⟩, by simp⟩, by simp, by simp, by simp⟩
      | exchange =>
          simp only [Proc.runCall, Option.some.injEq, Prod.mk.injEq] at h
          obtain ⟨rfl, rfl⟩ := h
          exact ⟨Or.inl rfl, by simp [Proc.finish], by simp, by simp, by simp⟩
  | mpiWait r =>
      rw [hcall] at h
      simp only [Proc.runCall] at h
      split at h <;> cases h
      · exact ⟨Or.inl rfl, by simp [Proc.finish], by simp, by simp, by simp⟩
      · exact ⟨Or.inl rfl, by simp [hcall], by simp, by simp, by simp⟩

theorem RequestType.decided_isSearch {t : RequestType} {found : Bool} :
    (t.decided found).isSearch = false := by
  cases t <;> cases found <;> rfl

/-- One step inside a function keeps what is true of the process. -/
theorem ProcOk.runCall (hp : ProcOk p) (hn : p.nested = [])
    (h : p.runCall mode ans p.call = some (p', c)) : ProcOk p' := by
  have hinfo := runCall_info h hp.call
  obtain ⟨hlist, hwait, -⟩ := runCall_control h
  have hrid := (runCall_keeps h hp.call).1
  refine ⟨(runCall_ok h hp.call hn fun q hq => (hp.list q hq).1).1, fun q hq => ?_,
    fun q pt hq => ?_⟩
  · rw [hrid]
    have hkept : q ∈ p.requestList ∨ ∃ r, p.call = .init r ∧ c = some (.issendInfo r) ∧ q = r := by
      rcases hlist with hl | ⟨r, hr, hc, hl⟩
      · exact Or.inl (hl ▸ hq)
      · rw [hl, List.mem_cons] at hq
        exact hq.symm.imp id fun he => ⟨r, hr, hc, he⟩
    have hlt : q < p.nextRid := by
      rcases hkept with hq | ⟨r, hr, -, rfl⟩
      · exact (hp.list q hq).1
      · exact hp.call.rid_lt (by rw [hr]; rfl)
    refine ⟨hlt, fun hs => ?_⟩
    cases hinfo q with
    | same hi hc =>
        rcases hkept with hq | ⟨r, hr, -, rfl⟩
        · rw [hi.exchange]
          exact (hp.list q hq).2 (by rw [Proc.type, ← hi.type]; exact hs)
        · -- the end of `init` sets the handle
          rw [hr] at h
          cases h
          simp [Proc.setReq, Proc.setLoc]
    | posted ht ha he => exact he
    | decided hs' ha ht =>
        rw [Proc.type, ht, RequestType.decided_isSearch] at hs
        exact absurd hs (by decide)
  · obtain ⟨⟨pt', hpt⟩, hc⟩ := hwait q pt hq
    cases hinfo q with
    | same hi hc' =>
        rw [hi.exchange]
        exact hp.waiting q pt' hpt
    | posted ht ha he => exact he
    | decided hs ha ht => exact absurd rfl hc

/-- What something that happens in a process does to its requests. -/
inductive Effect (p p' : Proc) (flag : Bool) (c : Option MpiCall) : ProcAct → Prop
  | steps {a : ProcAct} (hn : p'.nextRid = p.nextRid)
      (hi : ∀ q, InfoStep q flag (p.reqs q) (p'.reqs q) c)
      (hpost : ∀ q, c = some (.issendInfo q) → q < p.nextRid)
      (htest : ∀ q, c = some (.testExchange q) → q < p.nextRid ∧
        (p.reqs q).req.rdmaExchangeRequest.isSome = true)
      (hrecv : ∀ q, c ≠ some (.irecvInfo q)) : Effect p p' flag c a
  | sendInit {args : InitArgs} (hn : p'.nextRid = p.nextRid + 1)
      (ho : ∀ q, q ≠ p.nextRid → p'.reqs q = p.reqs q) (ht : p'.type p.nextRid = .sendSearch)
      (hc : c = some (.irecvInfo p.nextRid)) : Effect p p' flag c (.sendInit args)
  | recvInit {args : InitArgs} (hn : p'.nextRid = p.nextRid + 1)
      (ho : ∀ q, q ≠ p.nextRid → p'.reqs q = p.reqs q) (ht : p'.type p.nextRid = .recvSearch)
      (hc : c = none) : Effect p p' flag c (.recvInit args)

/-- A step without a test and without a message for a handshake. -/
theorem Effect.of_same (hn : p'.nextRid = p.nextRid) (hi : ∀ q, SameInfo (p.reqs q) (p'.reqs q))
    (hc : ∀ q, c ≠ some (.issendInfo q) ∧ c ≠ some (.testExchange q) ∧ c ≠ some (.irecvInfo q)) :
    Effect p p' a.flag c a :=
  .steps hn (fun q => .same (hi q) (hc q).2.1) (fun q h => absurd h (hc q).1)
    (fun q h => absurd h (hc q).2.1) fun q => (hc q).2.2

theorem Effect.amId {flag : Bool} (h : Effect p p' flag c a) (hq : q < p.nextRid) :
    (p'.reqs q).req.amId = (p.reqs q).req.amId := by
  cases h with
  | sendInit hn ho ht hc | recvInit hn ho ht hc => rw [ho q (Nat.ne_of_lt hq)]
  | steps hn hi hpost htest hrecv =>
      cases hi q with
      | same hs hc => exact hs.amId
      | posted ht ha he => exact ha
      | decided hs ha ht => exact ha

/-- Requests stay, and a message for a handshake is one of a request there is. -/
theorem Effect.nextRid {flag : Bool} (h : Effect p p' flag c a) :
    p.nextRid ≤ p'.nextRid ∧
      ∀ q, c = some (.irecvInfo q) ∨ c = some (.issendInfo q) → q < p'.nextRid := by
  cases h with
  | steps hn hi hpost htest hrecv =>
      refine ⟨Nat.le_of_eq hn.symm, fun q hq => ?_⟩
      rw [hn]
      rcases hq with hq | hq
      · exact absurd hq (hrecv q)
      · exact hpost q hq
  | sendInit hn ho ht hc =>
      refine ⟨hn ▸ Nat.le_succ _, fun q hq => ?_⟩
      rw [hc, Option.some.injEq, MpiCall.irecvInfo.injEq] at hq
      rcases hq with rfl | hq
      · exact hn ▸ Nat.lt_succ_self _
      · simp at hq
  | recvInit hn ho ht hc =>
      refine ⟨hn ▸ Nat.le_succ _, fun q hq => ?_⟩
      simp [hc] at hq

theorem start_info (r q : Rid) :
    SameInfo (p.reqs q) ((p.start r).1.reqs q) ∧ (p.start r).1.nextRid = p.nextRid ∧
      (p.start r).1.requestList = p.requestList ∧
      ((p.start r).2 ≠ some (.issendInfo q) ∧ (p.start r).2 ≠ some (.testExchange q) ∧
        (p.start r).2 ≠ some (.irecvInfo q)) := by
  have hcount : SameInfo (p.reqs r) (p.reqs r).countStart := ⟨rfl, rfl, rfl⟩
  cases ht : p.type r <;> simp only [Proc.start, ht]
  case send | recv => exact ⟨setLoc_sameInfo hcount q, rfl, rfl, by simp⟩
  all_goals exact ⟨setBackup_sameInfo (some p.nextHandle) q, rfl, rfl, by simp⟩

theorem wait_call (mode : Mode) (hl : r < p.nextRid) :
    CallOk (p.wait mode r) ∧ (p.wait mode r).reqs = p.reqs ∧
      (p.wait mode r).nextRid = p.nextRid ∧ (p.wait mode r).requestList = p.requestList ∧
      ∀ q pt, (p.wait mode r).call = .waitSend q pt ∨ (p.wait mode r).call = .waitRecv q pt →
        q = r ∧ (p.type r).isSearch = true := by
  cases ht : p.type r <;> simp only [Proc.wait, ht]
  case sendSearch | recvSearch =>
    refine ⟨⟨hl, ht⟩, rfl, rfl, rfl, fun q pt hq => ⟨?_, rfl⟩⟩
    simp only [Proc.setCall, Call.waitSend.injEq, Call.waitRecv.injEq, reduceCtorEq, or_false,
      false_or] at hq
    exact hq.1.symm
  case send | recv => exact ⟨⟨hl, ht⟩, rfl, rfl, rfl, by simp [Proc.setCall]⟩
  case sendFallback => exact ⟨⟨hl, Or.inl ht⟩, rfl, rfl, rfl, by simp [Proc.setCall]⟩
  case recvFallback => exact ⟨⟨hl, Or.inr ht⟩, rfl, rfl, rfl, by simp [Proc.setCall]⟩

theorem start_call (hf : p.Free) (hl : r < p.nextRid) :
    CallOk (p.start r).1 ∧
      ∀ q pt, (p.start r).1.call ≠ .waitSend q pt ∧ (p.start r).1.call ≠ .waitRecv q pt := by
  have hnone : ∀ {p' : Proc}, p'.call = p.call →
      CallOk p' ∧ ∀ q pt, p'.call ≠ .waitSend q pt ∧ p'.call ≠ .waitRecv q pt := by
    intro p' hc
    rw [hf.1] at hc
    simp [CallOk, hc]
  cases ht : p.type r <;> simp only [Proc.start, ht]
  case send =>
    refine ⟨⟨hl, setLoc_type.trans ht⟩, by simp [Proc.setCall]⟩
  case recv =>
    refine ⟨⟨hl, setLoc_type.trans ht, Function.update_self _ _ _⟩, by simp [Proc.setCall]⟩
  all_goals exact hnone rfl

/-- A request is created at the end of the list of all. -/
theorem ProcOk.created (hp : ProcOk p) (hn : p'.nextRid = p.nextRid + 1)
    (ho : ∀ q, q ≠ p.nextRid → p'.reqs q = p.reqs q) (hcall : CallOk p')
    (hl : ∀ q ∈ p'.requestList, q ∈ p.requestList ∨
      q = p.nextRid ∧ (p'.reqs q).req.rdmaExchangeRequest.isSome = true)
    (hw : ∀ q pt, p'.call ≠ .waitSend q pt ∧ p'.call ≠ .waitRecv q pt) : ProcOk p' := by
  refine ⟨hcall, fun q hq => ?_, fun q pt h => ?_⟩
  · rw [hn]
    rcases hl q hq with hq | ⟨rfl, he⟩
    · obtain ⟨hlt, hs⟩ := hp.list q hq
      rw [Proc.type, ho q (Nat.ne_of_lt hlt)]
      exact ⟨Nat.lt_succ_of_lt hlt, hs⟩
    · exact ⟨Nat.lt_succ_self _, fun _ => he⟩
  · exact absurd h (not_or.mpr (hw q pt))

/-- **What happens in a process**: a step of its requests, or a new request. -/
theorem act_effect (hp : ProcOk p) (h : p.act mode a = some (p', c)) :
    ProcOk p' ∧ Effect p p' a.flag c a := by
  cases a with
  | sendInit args =>
      simp only [Proc.act] at h
      split at h <;> simp only [reduceCtorEq, Option.some.injEq] at h
      rename_i hf
      obtain ⟨rfl, rfl⟩ : (p.sendInit args).1 = p' ∧ (p.sendInit args).2 = c := by simp [h]
      have ho : ∀ q, q ≠ p.nextRid → (p.sendInit args).1.reqs q = p.reqs q :=
        fun q hq => Function.update_of_ne hq _ _
      have hs : (p.sendInit args).1.reqs p.nextRid = _ := Function.update_self _ _ _
      have hcall : (p.sendInit args).1.call = .none := hf.1
      refine ⟨hp.created rfl ho ?_ (fun q hq => ?_) (by simp [hcall]),
        .sendInit rfl ho (by rw [Proc.type, hs]; rfl) rfl⟩
      · simp [CallOk, hcall]
      · rcases List.mem_cons.mp hq with rfl | hq
        · exact Or.inr ⟨rfl, by rw [hs]; rfl⟩
        · exact Or.inl hq
  | recvInit args =>
      simp only [Proc.act] at h
      split at h <;> simp only [reduceCtorEq, Option.some.injEq, Prod.mk.injEq] at h
      obtain ⟨rfl, rfl⟩ := h
      have ho : ∀ q, q ≠ p.nextRid → (p.recvInit args).reqs q = p.reqs q :=
        fun q hq => Function.update_of_ne hq _ _
      have ht : (p.recvInit args).type p.nextRid = .recvSearch :=
        congrArg (·.req.type) (Function.update_self p.nextRid _ p.reqs)
      exact ⟨hp.created rfl ho ⟨Nat.lt_succ_self _, ht⟩ (fun q hq => Or.inl hq)
        (by simp [Proc.recvInit, Proc.setLoc]), .recvInit rfl ho ht rfl⟩
  | start r =>
      simp only [Proc.act] at h
      split at h <;> simp only [reduceCtorEq, Option.some.injEq] at h
      rename_i hr
      obtain ⟨hcall, hw⟩ := start_call hr.1 (hp.list r hr.2.1).1
      have hi := fun q => start_info (p := p) r q
      rw [h] at hi hcall hw
      have hl : p'.requestList = p.requestList := (hi 0).2.2.1
      refine ⟨⟨hcall, fun q hq => ?_, fun q pt hq => absurd hq (not_or.mpr (hw q pt))⟩,
        .of_same (hi 0).2.1 (fun q => (hi q).1) fun q => (hi q).2.2.2⟩
      rw [(hi q).2.1, Proc.type, (hi q).1.type, (hi q).1.exchange]
      exact hp.list q (hl ▸ hq)
  | wait r =>
      simp only [Proc.act] at h
      split at h <;> simp only [reduceCtorEq, Option.some.injEq, Prod.mk.injEq] at h
      rename_i hr
      obtain ⟨rfl, rfl⟩ := h
      obtain ⟨hcall, hreqs, hn, hl, hw⟩ := wait_call mode (hp.list r hr.2.1).1
      refine ⟨⟨hcall, fun q hq => ?_, fun q pt hq => ?_⟩, .of_same hn (fun q => ?_) (by simp)⟩
      · rw [hn, Proc.type, hreqs]
        exact hp.list q (hl ▸ hq)
      · obtain ⟨rfl, hs⟩ := hw q pt hq
        rw [hreqs]
        exact (hp.list q hr.2.1).2 hs
      · rw [hreqs]
        exact .refl
  | free r =>
      simp only [Proc.act] at h
      split at h <;> simp only [reduceCtorEq, Option.some.injEq, Prod.mk.injEq] at h
      obtain ⟨rfl, rfl⟩ := h
      exact ⟨hp.congr (fun _ => .refl) rfl rfl (fun _ hq => List.mem_of_mem_erase hq) rfl,
        .of_same rfl (fun _ => .refl) (by simp)⟩
  | run ans =>
      simp only [Proc.act, Proc.run] at h
      split at h
      · rename_i f below hn
        simp only [Option.some.injEq, Prod.mk.injEq] at h
        obtain ⟨rfl, rfl⟩ := h
        obtain ⟨hi, hcall, hrid, hl, ha⟩ : RunsSame (p.setNested below)
            ((p.setNested below).runFrame mode ans f) := runFrame_info f
        exact ⟨hp.congr hi hcall hrid (fun q hq => hl ▸ hq) ha, .of_same hrid hi (by simp)⟩
      · rename_i hn
        obtain ⟨-, -, hpost, hrecv, htest⟩ := runCall_control h
        refine ⟨hp.runCall hn h, .steps (runCall_keeps h hp.call).1 (runCall_info h hp.call)
          (fun q hq => hp.call.rid_lt (by rw [hpost q hq]; rfl)) (fun q hq => ?_) hrecv⟩
        obtain ⟨pt, hpt⟩ := htest q hq
        refine ⟨hp.call.rid_lt ?_, hp.waiting q pt hpt⟩
        rcases hpt with hpt | hpt <;> rw [hpt] <;> rfl
  | deliver r msg here =>
      simp only [Proc.act] at h
      split at h <;> simp only [reduceCtorEq, Option.some.injEq, Prod.mk.injEq] at h
      obtain ⟨rfl, rfl⟩ := h
      have hu : Untouched (p.reqs r) (incomingAmMsgHandler mode here msg (p.reqs r)) :=
        handler_untouched
      have hi := setLoc_sameInfo hu.sameInfo
      exact ⟨hp.congr hi rfl rfl (fun _ hq => hq) rfl, .of_same rfl hi (by simp)⟩
  | lands r number bytes =>
      simp only [Proc.act] at h
      split at h <;> simp only [reduceCtorEq, Option.some.injEq, Prod.mk.injEq] at h
      obtain ⟨rfl, rfl⟩ := h
      have hland : SameInfo (p.reqs r) ((p.reqs r).land number bytes) := ⟨rfl, rfl, rfl⟩
      exact ⟨hp.congr (setLoc_sameInfo hland) rfl rfl (fun _ hq => hq) rfl,
        .of_same rfl (setLoc_sameInfo hland) (by simp)⟩

end

namespace Meeting

/-! ### Two processes -/

/-- Where a side is with a request that began as `search`, and what it saw as it tested. -/
def Told (search type : RequestType) (saw : Option Bool) : Prop :=
  type = search ∧ saw = none ∨ type = search.decided true ∧ saw = some true ∨
    type = search.decided false ∧ saw = some false

structure Inv (m : Meeting) (s r : Rid) : Prop where
  send : ProcOk m.send
  recv : ProcOk m.recv
  causal : m.info.Causal
  sender : s < m.send.nextRid → Told .sendSearch (m.send.type s) m.sendSaw
  receiver : r < m.recv.nextRid → Told .recvSearch (m.recv.type r) m.recvSaw
  noSender : ¬ s < m.send.nextRid → m.sendSaw = none
  noReceiver : ¬ r < m.recv.nextRid → m.recvSaw = none
  sent : m.info.sent = true → r < m.recv.nextRid
  posted : m.info.posted = true → s < m.send.nextRid
  amId : m.info.arrived = true → (m.send.reqs s).req.amId = (m.recv.reqs r).req.amId
  saw : m.sendSaw = some true → m.info.arrived = true

section
variable {mode : Mode} {m m' : Meeting} {s r : Rid} {a : MeetingAct}

theorem inv_init (h : Init m) : m.Inv s r := by
  have hp : ∀ {p : Proc}, p.nextRid = 0 ∧ p.requestList = [] ∧ p.Free → ProcOk p := by
    intro p ⟨_, hl, hc, _⟩
    exact ⟨by simp [CallOk, hc], by simp [hl], by simp [hc]⟩
  have hs : ¬ s < m.send.nextRid := by simp [h.send.1]
  have hr : ¬ r < m.recv.nextRid := by simp [h.recv.1]
  exact ⟨hp h.send, hp h.recv, h.info ▸ Exchange.causal_idle, fun h' => absurd h' hs,
    fun h' => absurd h' hr, fun _ => h.sendSaw, fun _ => h.recvSaw, by simp [h.info, Exchange.idle],
    by simp [h.info, Exchange.idle], by simp [h.info, Exchange.idle], by simp [h.sendSaw]⟩

/-- What a side saw after an MPI call, if a test of `q` finds `x`. -/
def sawAfter (q : Rid) (x : Bool) (c : Option MpiCall) (saw : Option Bool) : Option Bool :=
  if c = some (.testExchange q) then some x else saw

/-- A side decides once, by what it sees. -/
theorem told_step {p p' : Proc} {flag x : Bool} {c : Option MpiCall} {act : ProcAct} {q : Rid}
    {search : RequestType} {saw : Option Bool} (he : Effect p p' flag c act)
    (h : q < p.nextRid → Told search (p.type q) saw) (hno : ¬ q < p.nextRid → saw = none)
    (hnew : q = p.nextRid → p'.nextRid = p.nextRid + 1 → p'.type q = search)
    (hflag : c = some (.testExchange q) → flag = x) :
    (q < p'.nextRid → Told search (p'.type q) (sawAfter q x c saw)) ∧
      (¬ q < p'.nextRid → sawAfter q x c saw = none) := by
  have created : p'.nextRid = p.nextRid + 1 → (∀ r, r ≠ p.nextRid → p'.reqs r = p.reqs r) →
      c ≠ some (.testExchange q) →
      (q < p'.nextRid → Told search (p'.type q) (sawAfter q x c saw)) ∧
        (¬ q < p'.nextRid → sawAfter q x c saw = none) := by
    intro hn ho hc
    rw [sawAfter, if_neg hc, hn]
    refine ⟨fun hq => ?_, fun hq => hno fun hq' => hq (Nat.lt_succ_of_lt hq')⟩
    rcases Nat.lt_succ_iff_lt_or_eq.mp hq with hq | rfl
    · rw [Proc.type, ho q (Nat.ne_of_lt hq)]
      exact h hq
    · exact Or.inl ⟨hnew rfl hn, hno (lt_irrefl _)⟩
  cases he with
  | sendInit hn ho ht hc => exact created hn ho (by simp [hc])
  | recvInit hn ho ht hc => exact created hn ho (by simp [hc])
  | steps hn hi hpost htest hrecv =>
      rw [hn]
      refine ⟨fun hq => ?_, fun hq => ?_⟩
      · cases hi q with
        | same hs hc =>
            rw [sawAfter, if_neg hc, Proc.type, hs.type]
            exact h hq
        | posted ht ha hx =>
            rw [sawAfter, if_neg (by simp), Proc.type, ht]
            exact h hq
        | decided hs ha ht =>
            have htype : p.type q = search := by
              rcases h hq with ⟨h', -⟩ | ⟨h', -⟩ | ⟨h', -⟩
              · exact h'
              all_goals
                rw [Proc.type] at h'
                rw [h', RequestType.decided_isSearch] at hs
                exact absurd hs (by decide)
            have hsome := (htest q rfl).2
            rw [sawAfter, if_pos rfl, Proc.type, ht, hflag rfl, Option.isNone_eq_false_iff.mpr hsome,
              Bool.false_or]
            rw [Proc.type] at htype
            rw [htype]
            cases x
            · exact Or.inr (Or.inr ⟨rfl, rfl⟩)
            · exact Or.inr (Or.inl ⟨rfl, rfl⟩)
      · rw [sawAfter, if_neg fun hc => hq (htest q hc).1]
        exact hno hq

/-- What a call of the sender does: it may await the id, and it may test for it. -/
theorem callSend_eq (m : Meeting) (s : Rid) (c : Option MpiCall) :
    (m.callSend s c).send = m.send ∧ (m.callSend s c).recv = m.recv ∧
      (m.callSend s c).info = (if c = some (.irecvInfo s) then m.info.post else m.info) ∧
      (m.callSend s c).sendSaw = sawAfter s m.info.arrived c m.sendSaw ∧
      (m.callSend s c).recvSaw = m.recvSaw := by
  cases c with
  | none => exact ⟨rfl, rfl, rfl, rfl, rfl⟩
  | some c => cases c <;> simp only [callSend, sawAfter] <;> split <;> simp_all

/-- What a call of the receiver does: it may send the id, and it may test for its acknowledgement. -/
theorem callRecv_eq (m : Meeting) (r : Rid) (c : Option MpiCall) :
    (m.callRecv r c).send = m.send ∧ (m.callRecv r c).recv = m.recv ∧
      (m.callRecv r c).info = (if c = some (.issendInfo r) then m.info.send else m.info) ∧
      (m.callRecv r c).recvSaw = sawAfter r m.info.acked c m.recvSaw ∧
      (m.callRecv r c).sendSaw = m.sendSaw := by
  cases c with
  | none => exact ⟨rfl, rfl, rfl, rfl, rfl⟩
  | some c => cases c <;> simp only [callRecv, sawAfter] <;> split <;> simp_all

theorem Inv.sendStep (h : m.Inv s r) {p : Proc} {act : ProcAct} {c : Option MpiCall}
    (hs : m.send.act mode act = some (p, c)) (hperm : m.permitsSend s act.flag c = true)
    (hagreed : m.asAgreed s r (.send act) = true) : (callSend { m with send := p } s c).Inv s r := by
  obtain ⟨hp, heff⟩ := act_effect h.send hs
  obtain ⟨hsend, hrecv, hinfo, hsaw, hrsaw⟩ := callSend_eq { m with send := p } s c
  obtain ⟨hle, hcalls⟩ := heff.nextRid
  have hflag : c = some (.testExchange s) → act.flag = m.info.arrived := by
    rintro rfl
    simpa [permitsSend] using hperm
  have hnew : s = m.send.nextRid → p.nextRid = m.send.nextRid + 1 → p.type s = .sendSearch := by
    intro he hn
    cases heff with
    | steps hn' => exact absurd (hn'.symm.trans hn) (Nat.ne_of_lt (Nat.lt_succ_self _))
    | sendInit hn' ho ht hc => exact he ▸ ht
    | recvInit hn' ho ht hc => simp [asAgreed, he] at hagreed
  obtain ⟨htold, hno⟩ := told_step heff h.sender h.noSender hnew hflag
  have hinfo' : ((callSend { m with send := p } s c).info.sent = m.info.sent) ∧
      ((callSend { m with send := p } s c).info.arrived = m.info.arrived) := by
    rw [hinfo]
    split <;> exact ⟨rfl, rfl⟩
  refine ⟨by rw [hsend]; exact hp, by rw [hrecv]; exact h.recv, ?_, ?_, ?_, ?_, ?_, ?_, ?_, ?_, ?_⟩
  · rw [hinfo]
    split
    · exact h.causal.post
    · exact h.causal
  · rw [hsend, hsaw]
    exact htold
  · rw [hrecv, hrsaw]
    exact h.receiver
  · rw [hsend, hsaw]
    exact hno
  · rw [hrecv, hrsaw]
    exact h.noReceiver
  · rw [hinfo'.1, hrecv]
    exact h.sent
  · rw [hinfo, hsend]
    split
    · rename_i hc
      exact fun _ => hcalls s (Or.inl hc)
    · exact fun hpost => Nat.lt_of_lt_of_le (h.posted hpost) hle
  · rw [hinfo'.2, hsend, hrecv]
    intro ha
    rw [heff.amId (h.posted (h.causal.arrived ha).2)]
    exact h.amId ha
  · rw [hsaw, hinfo'.2, sawAfter]
    split
    · exact fun ha => Option.some.inj ha
    · exact h.saw

theorem Inv.recvStep (h : m.Inv s r) {p : Proc} {act : ProcAct} {c : Option MpiCall}
    (hs : m.recv.act mode act = some (p, c)) (hperm : m.permitsRecv r act.flag c = true)
    (hagreed : m.asAgreed s r (.recv act) = true) : (callRecv { m with recv := p } r c).Inv s r := by
  obtain ⟨hp, heff⟩ := act_effect h.recv hs
  obtain ⟨hsend, hrecv, hinfo, hsaw, hssaw⟩ := callRecv_eq { m with recv := p } r c
  obtain ⟨hle, hcalls⟩ := heff.nextRid
  have hflag : c = some (.testExchange r) → act.flag = m.info.acked := by
    rintro rfl
    simpa [permitsRecv] using hperm
  have hnew : r = m.recv.nextRid → p.nextRid = m.recv.nextRid + 1 → p.type r = .recvSearch := by
    intro he hn
    cases heff with
    | steps hn' => exact absurd (hn'.symm.trans hn) (Nat.ne_of_lt (Nat.lt_succ_self _))
    | sendInit hn' ho ht hc => simp [asAgreed, he] at hagreed
    | recvInit hn' ho ht hc => exact he ▸ ht
  obtain ⟨htold, hno⟩ := told_step heff h.receiver h.noReceiver hnew hflag
  have hinfo' : ((callRecv { m with recv := p } r c).info.posted = m.info.posted) ∧
      ((callRecv { m with recv := p } r c).info.arrived = m.info.arrived) := by
    rw [hinfo]
    split <;> exact ⟨rfl, rfl⟩
  refine ⟨by rw [hsend]; exact h.send, by rw [hrecv]; exact hp, ?_, ?_, ?_, ?_, ?_, ?_, ?_, ?_, ?_⟩
  · rw [hinfo]
    split
    · exact h.causal.send
    · exact h.causal
  · rw [hsend, hssaw]
    exact h.sender
  · rw [hrecv, hsaw]
    exact htold
  · rw [hsend, hssaw]
    exact h.noSender
  · rw [hrecv, hsaw]
    exact hno
  · rw [hinfo, hrecv]
    split
    · rename_i hc
      exact fun _ => hcalls r (Or.inr hc)
    · exact fun hsent => Nat.lt_of_lt_of_le (h.sent hsent) hle
  · rw [hinfo'.1, hsend]
    exact h.posted
  · rw [hinfo'.2, hsend, hrecv]
    intro ha
    rw [heff.amId (h.sent (h.causal.arrived ha).1)]
    exact h.amId ha
  · rw [hssaw, hinfo'.2]
    exact h.saw

theorem Inv.step (h : m.Inv s r) (hs : m.step mode s r a = some m') : m'.Inv s r := by
  unfold Meeting.step at hs
  split at hs
  case isFalse => cases hs
  rename_i hagreed
  cases a with
  | send act =>
      simp only at hs
      split at hs <;> try cases hs
      rename_i p c hact
      split at hs <;> cases hs
      rename_i hperm
      exact h.sendStep hact hperm hagreed
  | recv act =>
      simp only at hs
      split at hs <;> try cases hs
      rename_i p c hact
      split at hs <;> cases hs
      rename_i hperm
      exact h.recvStep hact hperm hagreed
  | infoArrives =>
      simp only at hs
      split at hs <;> cases hs
      rename_i e he
      have hcausal := Exchange.causal_of_arrive he
      unfold Exchange.arrive at he
      split at he <;> cases he
      -- the id is all that changes at the sender
      have hinfo : ∀ q, ((m.send.setReq s fun q => { q with
          amId := (m.recv.reqs r).req.amId }).reqs q).req.type = (m.send.reqs q).req.type ∧
          ((m.send.setReq s fun q => { q with
            amId := (m.recv.reqs r).req.amId }).reqs q).req.rdmaExchangeRequest =
            (m.send.reqs q).req.rdmaExchangeRequest := by
        intro q
        by_cases he : q = s
        · subst he
          simp [Proc.setReq, Proc.setLoc]
        · simp [Proc.setReq, Proc.setLoc, he]
      refine ⟨⟨?_, fun q hq => ?_, fun q pt hq => ?_⟩, h.recv, hcausal, fun hlt => ?_, h.receiver,
        h.noSender, h.noReceiver, h.sent, h.posted, fun _ => ?_, fun _ => rfl⟩
      · have hok := h.send.call
        unfold CallOk at hok ⊢
        simp only [Proc.type, (hinfo _).1]
        exact hok
      · rw [Proc.type, (hinfo q).1, (hinfo q).2]
        exact h.send.list q hq
      · rw [(hinfo q).2]
        exact h.send.waiting q pt hq
      · rw [Proc.type, (hinfo s).1]
        exact h.sender hlt
      · simp [Proc.setReq, Proc.setLoc]
  | infoAcked =>
      simp only at hs
      split at hs <;> cases hs
      rename_i e he
      have hcausal := h.causal.ack he
      unfold Exchange.ack at he
      split at he <;> cases he
      exact ⟨h.send, h.recv, hcausal, h.sender, h.receiver, h.noSender, h.noReceiver, h.sent,
        h.posted, h.amId, h.saw⟩
  | payloadArrives | payloadAcked =>
      simp only at hs
      split at hs <;> cases hs
      exact ⟨h.send, h.recv, h.causal, h.sender, h.receiver, h.noSender, h.noReceiver, h.sent,
        h.posted, h.amId, h.saw⟩

/--
**Both sides choose the same exactly if they see the same**: the id had arrived as the
sender tested for it, if and only if its acknowledgement had arrived as the receiver did.
-/
theorem agree_iff (h : Reach (Meeting.step mode s r) anyStep Init m) (hd : Decided m s r) :
    Agree m s r ↔ m.sendSaw = m.recvSaw := by
  have hinv : m.Inv s r := h.invariant (I := fun m => m.Inv s r) (fun _ h0 => inv_init h0)
    fun _ _ _ hi _ hs => hi.step hs
  obtain ⟨⟨hslt, hs⟩, hrlt, hr⟩ := hd
  rcases hinv.sender hslt with ⟨h', -⟩ | hsend
  · exact absurd h' hs
  rcases hinv.receiver hrlt with ⟨h', -⟩ | hrecv
  · exact absurd h' hr
  rcases hsend with ⟨hst, hss⟩ | ⟨hst, hss⟩ <;> rcases hrecv with ⟨hrt, hrs⟩ | ⟨hrt, hrs⟩ <;>
    simp [Agree, hst, hrt, hss, hrs, RequestType.decided]
  -- both have found each other
  exact hinv.amId (hinv.saw hss)

end

/-! ### Two runs -/

def fresh : Meeting := ⟨World.freshProc, World.freshProc, .idle, .idle, none, none⟩

theorem fresh_init : Init fresh :=
  ⟨⟨rfl, rfl, rfl, rfl⟩, ⟨rfl, rfl, rfl, rfl⟩, rfl, rfl, rfl, rfl⟩

def answers (flag : Bool) : ProcAct := .run ⟨false, flag, fun _ => []⟩

/-- Both sides are initialised and have started, and the payload has arrived. -/
def startedRun : List MeetingAct :=
  [.send (.sendInit ⟨[5], 1, 0⟩), .recv (.recvInit ⟨[0], 0, 0⟩), .recv (answers false),
    .send (.start 0), .recv (.start 0), .payloadArrives, .payloadAcked]

/-- The id and its acknowledgement arrive before either side waits. -/
def timelyRun : List MeetingAct :=
  startedRun ++ [.infoArrives, .infoAcked, .send (.wait 0), .send (answers true),
    .send (answers true), .recv (.wait 0), .recv (answers true), .recv (answers true)]

/-- The id arrives after the sender's test, and is acknowledged before the receiver's. -/
def lateRun : List MeetingAct :=
  startedRun ++ [.send (.wait 0), .send (answers true), .send (answers false), .infoArrives,
    .infoAcked, .recv (.wait 0), .recv (answers true), .recv (answers true)]

theorem timelyRun_agrees :
    match runFrom (Meeting.step .eager 0 0) fresh timelyRun with
    | some m => (Agree m 0 0 ↔ m.sendSaw = m.recvSaw) ∧ m.send.type 0 = .send ∧
        m.recv.type 0 = .recv ∧ m.sendSaw = some true ∧ m.recvSaw = some true
    | none => False := by
  have hrun : (runFrom (Meeting.step .eager 0 0) fresh timelyRun).any (fun m => decide
      ((0 < m.send.nextRid ∧ 0 < m.recv.nextRid) ∧ m.send.type 0 = .send ∧ m.recv.type 0 = .recv ∧
        m.sendSaw = some true ∧ m.recvSaw = some true)) = true := by
    decide +kernel
  cases h : runFrom (Meeting.step .eager 0 0) fresh timelyRun with
  | none => simp [h] at hrun
  | some m =>
      simp only [h, Option.any_some, decide_eq_true_eq] at hrun
      obtain ⟨⟨hs, hr⟩, hst, hrt, hsaw⟩ := hrun
      have hd : Decided m 0 0 := ⟨⟨hs, by simp [hst]⟩, hr, by simp [hrt]⟩
      exact ⟨agree_iff (.of_runFrom _ (.init fresh_init) h) hd, hst, hrt, hsaw⟩

/-- The sender has fallen back, and the receiver waits for messages that never come. -/
structure Disagreeing (mode : Mode) (m : Meeting) : Prop where
  reach : Reach (Meeting.step mode 0 0) anyStep Init m
  decided : Decided m 0 0
  send : m.send.type 0 = .sendFallback
  recv : m.recv.type 0 = .recv
  disagree : ¬ Agree m 0 0

theorem disagreeing_of_lateRun (mode : Mode) :
    ∃ m, runFrom (Meeting.step mode 0 0) fresh lateRun = some m ∧ m.Disagreeing mode := by
  have hrun : (runFrom (Meeting.step mode 0 0) fresh lateRun).any (fun m => decide
      ((0 < m.send.nextRid ∧ 0 < m.recv.nextRid) ∧ m.send.type 0 = .sendFallback ∧
        m.recv.type 0 = .recv)) = true := by
    cases mode <;> decide
  cases h : runFrom (Meeting.step mode 0 0) fresh lateRun with
  | none => simp [h] at hrun
  | some m =>
      simp only [h, Option.any_some, decide_eq_true_eq] at hrun
      obtain ⟨⟨hs, hr⟩, hst, hrt⟩ := hrun
      refine ⟨m, rfl, .of_runFrom _ (.init fresh_init) h,
        ⟨⟨hs, by simp [hst]⟩, hr, by simp [hrt]⟩, hst, hrt, fun hagree => ?_⟩
      have hsend : m.send.type 0 = .send := hagree.1.mpr hrt
      rw [hst] at hsend
      exact absurd hsend (by decide)

theorem lateRun_disagrees :
    (∃ m, runFrom (Meeting.step .eager 0 0) fresh lateRun = some m ∧ m.Disagreeing .eager) ∧
      ∃ m, runFrom (Meeting.step .rendezvous 0 0) fresh lateRun = some m ∧
        m.Disagreeing .rendezvous :=
  ⟨disagreeing_of_lateRun .eager, disagreeing_of_lateRun .rendezvous⟩

end Meeting

end CompMatch.ActiveMessage

/-
What a process does to one of its receive requests.

Every step of a process changes a receive request, together with its sender, as a step
of the link does, or not at all.  A receive that is started again while another request
is waited for changes nothing: the request was ready, and stays it.  This needs that no
handler has run for the request in between.
-/
import CompMatch.Proofs.ActiveMessage.Delivery
import CompMatch.ActiveMessage.World

namespace CompMatch.ActiveMessage

/-- The request a function was called for. -/
def Call.rid : Call → Option Rid
  | .none => Option.none
  | .init r | .bSend r _ | .bRecv r _ | .eSend r _ | .eRecv r _ | .waitSend r _ | .waitRecv r _
  | .mpiWait r => some r

/-- A function is called for requests of its kind. -/
def CallOk (p : Proc) : Prop :=
  match p.call with
  | .none => True
  | .init r | .waitRecv r _ => r < p.nextRid ∧ p.type r = .recvSearch
  | .bSend r _ | .eSend r _ => r < p.nextRid ∧ p.type r = .send
  | .waitSend r _ => r < p.nextRid ∧ p.type r = .sendSearch
  | .bRecv r _ => r < p.nextRid ∧ p.type r = .recv ∧ p.active r = true
  | .eRecv r _ => r < p.nextRid ∧ p.type r = .recv
  | .mpiWait r => r < p.nextRid ∧ (p.type r = .sendFallback ∨ p.type r = .recvFallback)

/-- The function waits, so it may be progressing other requests. -/
def Call.waiting : Call → Bool
  | .eSend _ _ | .eRecv _ _ => true
  | _ => false

/-- A receive is started again only while it is ready, and only from `progress_other_requests`. -/
def StackOk (p : Proc) : Prop :=
  match p.nested with
  | [] => True
  | [.progressOther _ rest] => p.call.waiting = true ∧ ∀ r ∈ rest, r < p.nextRid
  | [.progressRecv r _, .progressOther _ rest] =>
      p.call.waiting = true ∧ (∀ r ∈ rest, r < p.nextRid) ∧ r < p.nextRid ∧ p.type r = .recv ∧
        (p.reqs r).req.isReadyToRecv = true
  | _ => False

/-! ### Steps of the process and steps of a link -/

/-- One step of the link, or none. -/
def Advances (mode : Mode) (l l' : Link) : Prop :=
  l' = l ∨ ∃ a, l.Undisturbed a ∧ l.step mode false a = some l'

/-- What a link reaches when no handler disturbs `b_recv`. -/
abbrev LinkReach (mode : Mode) (l : Link) : Prop :=
  Reach (Link.step mode false) Link.Undisturbed Link.Init l

theorem LinkReach.advance {mode : Mode} {l l' : Link} (h : LinkReach mode l)
    (ha : Advances mode l l') : LinkReach mode l' := by
  rcases ha with rfl | ⟨a, hok, hs⟩
  · exact h
  · exact .step h hok hs

theorem LinkReach.ordered {mode : Mode} {l : Link} (h : LinkReach mode l) : Ordered mode l :=
  h.invariant (I := Ordered mode) (fun _ h0 => ordered_init h0) fun _ _ _ ho hok hs =>
    ho.step hok hs

section
variable {mode : Mode} {p p' : Proc} {ans : Answer} {r : Rid} {c : Call} {m : Option MpiCall}

theorem Call.recvPc_of_rid (h : c.rid ≠ some r) : c.recvPc r = Option.none := by
  cases c with
  | bRecv r' pt | eRecv r' w =>
      have hne : r' ≠ r := fun he => h (congrArg some he)
      simp [Call.recvPc, hne]
  | _ => rfl

theorem recvPc_congr (hc : p'.call.recvPc r = p.call.recvPc r) (ha : p'.active r = p.active r)
    (ht : p'.type r = p.type r) : p'.recvPc r = p.recvPc r := by
  unfold Proc.recvPc
  rw [hc, ha, ht]

/-- The other requests are left alone, and the process stays in the function or leaves it. -/
structure Elsewhere (r : Rid) (p p' : Proc) : Prop where
  reqs : p'.reqs r = p.reqs r
  active : p'.active r = p.active r
  call : p'.call.rid ≠ some r

theorem Elsewhere.recvPc (h : Elsewhere r p p') (hr : p.call.rid ≠ some r) :
    p'.recvPc r = p.recvPc r := by
  refine recvPc_congr ?_ h.active (by rw [Proc.type, Proc.type, h.reqs])
  rw [Call.recvPc_of_rid h.call, Call.recvPc_of_rid hr]

theorem runCall_elsewhere (h : p.runCall mode ans p.call = some (p', m))
    (hr : p.call.rid ≠ some r) : Elsewhere r p p' := by
  have hne : ∀ r', p.call.rid = some r' → r ≠ r' := by
    rintro r' hr' rfl
    exact hr hr'
  have stays : Elsewhere r p p := ⟨rfl, rfl, hr⟩
  cases hc : p.call with
  | none => simp [Proc.runCall, hc] at h
  | init r' =>
      rw [hc] at h hne
      cases h
      exact ⟨Function.update_of_ne (hne _ rfl) _ _, rfl, by simp [Call.rid]⟩
  | bSend r' pt | bRecv r' pt =>
      rw [hc] at h hne hr
      simp only [Proc.runCall] at h
      split at h <;> cases h
      · exact ⟨Function.update_of_ne (hne _ rfl) _ _, rfl, hr⟩
      · exact ⟨Function.update_of_ne (hne _ rfl) _ _, rfl, by simp [Proc.ret, Call.rid]⟩
  | eSend r' w | eRecv r' w =>
      rw [hc] at h hne hr
      simp only [Proc.runCall] at h
      split at h <;> cases h
      · exact ⟨Function.update_of_ne (hne _ rfl) _ _, rfl, hr⟩
      · exact ⟨Function.update_of_ne (hne _ rfl) _ _, rfl, hr⟩
      · exact ⟨Function.update_of_ne (hne _ rfl) _ _, Function.update_of_ne (hne _ rfl) _ _,
          by simp [Proc.finish, Call.rid]⟩
  | waitSend r' pt | waitRecv r' pt =>
      rw [hc] at h hne hr
      cases pt with
      | backup =>
          simp only [Proc.runCall] at h
          split at h <;> cases h
          · exact ⟨Function.update_of_ne (hne _ rfl) _ _, rfl, hr⟩
          · exact stays
      | exchange =>
          simp only [Proc.runCall, Option.some.injEq, Prod.mk.injEq] at h
          obtain ⟨rfl, -⟩ := h
          exact ⟨Function.update_of_ne (hne _ rfl) _ _, Function.update_of_ne (hne _ rfl) _ _,
            by simp [Proc.finish, Call.rid]⟩
  | mpiWait r' =>
      rw [hc] at h hne
      simp only [Proc.runCall] at h
      split at h <;> cases h
      · exact ⟨Function.update_of_ne (hne _ rfl) _ _, Function.update_of_ne (hne _ rfl) _ _,
          by simp [Proc.finish, Call.rid]⟩
      · exact stays

/-- A receive request of the process, with a sender. -/
def Proc.linkTo (p : Proc) (r : Rid) (q : Peer) : Link := ⟨p.recvPc r, p.reqs r, q⟩

theorem Elsewhere.linkTo (h : Elsewhere r p p') (hr : p.call.rid ≠ some r) (q : Peer) :
    p'.linkTo r q = p.linkTo r q := by
  rw [Proc.linkTo, Proc.linkTo, h.recvPc hr, h.reqs]

/-- A request that has not come to active messages yet, or is not started, is idle. -/
theorem recvPc_idle (hc : p.call.recvPc r = none) (h : p.active r = false ∨ p.type r ≠ .recv) :
    p.recvPc r = .idle := by
  unfold Proc.recvPc
  rw [hc, Option.getD_none, if_neg]
  rintro ⟨ha, ht⟩
  rcases h with h | h
  · exact Bool.noConfusion (ha.symm.trans h)
  · exact h ht

/-- MPI changes what it uses of an idle request. -/
theorem advances_mpi {q : Peer} {f : MpioptRequest → MpioptRequest} (hpc : p.recvPc r = .idle)
    (hpc' : p'.recvPc r = .idle) (hreq : p'.reqs r = { p.reqs r with req := f (p.reqs r).req })
    (hf : ∀ x, f x = { x with
      amId := (f x).amId, type := (f x).type, backupRequest := (f x).backupRequest
      rdmaExchangeRequest := (f x).rdmaExchangeRequest }) :
    Advances mode (p.linkTo r q) (p'.linkTo r q) := by
  refine Or.inr ⟨.mpi (f (p.reqs r).req).amId (f (p.reqs r).req).type
    (f (p.reqs r).req).backupRequest (f (p.reqs r).req).rdmaExchangeRequest, trivial, ?_⟩
  simp only [Link.step, Proc.linkTo, hpc, hpc', and_self, if_true, hreq]
  rw [hf (p.reqs r).req]

theorem runCall_self {q : Peer} (h : p.runCall mode ans p.call = some (p', m)) (hok : CallOk p)
    (hc : p.call.rid = some r) (ht : (p.type r).isRecv = true)
    (hans : ans.remote r = q.loc.req.buf) : Advances mode (p.linkTo r q) (p'.linkTo r q) := by
  have hhere : ans.here r = (p.linkTo r q).here ans.imm := by
    simp only [Answer.here, Link.here, Proc.linkTo, hans]
  unfold CallOk at hok
  cases hcall : p.call with
  | none => simp [hcall, Call.rid] at hc
  | bSend r' pt | eSend r' w | waitSend r' pt =>
      rw [hcall] at hok hc
      obtain rfl : r' = r := Option.some.inj hc
      rw [hok.2] at ht
      exact absurd ht (by decide)
  | init r' =>
      rw [hcall] at hok hc h
      obtain rfl : r' = r := Option.some.inj hc
      cases h
      refine advances_mpi (f := fun x => { x with rdmaExchangeRequest := some p.nextHandle })
        (recvPc_idle (by rw [hcall]; rfl) (Or.inr ?_)) (recvPc_idle rfl (Or.inr ?_))
        (Function.update_self _ _ _) (fun _ => rfl)
      · rw [hok.2]
        decide
      · simp only [Proc.type, Proc.setReq, Proc.setLoc, Function.update_self]
        rw [show (p.reqs r').req.type = _ from hok.2]
        decide
  | bRecv r' pt =>
      rw [hcall] at hok hc h
      obtain rfl : r' = r := Option.some.inj hc
      have hpc : p.recvPc r' = .start pt := by simp [Proc.recvPc, hcall, Call.recvPc]
      refine Or.inr ⟨.run ans.imm, trivial, ?_⟩
      simp only [Link.step, Link.run, Proc.linkTo, hpc]
      cases pt with
      | progress =>
          cases h
          simp [bRecv, Proc.recvPc, Proc.setCall, Proc.setLoc, Call.recvPc]
      | fetch =>
          cases h
          have htype : (bRecvFetch mode (ans.here r') (p.reqs r')).req.type = .recv :=
            bRecvFetch_untouched.type.trans hok.2.1
          simp only [bRecv, Proc.recvPc, Proc.ret, Proc.setLoc, Proc.type, Call.recvPc,
            Function.update_self, htype, hok.2.2, and_self, if_true, Option.getD_none]
          rw [hhere]
          rfl
  | eRecv r' w =>
      rw [hcall] at hok hc h
      obtain rfl : r' = r := Option.some.inj hc
      have hpc : p.recvPc r' = .wait w := by simp [Proc.recvPc, hcall, Call.recvPc]
      refine Or.inr ⟨.run ans.imm, trivial, ?_⟩
      cases heq : eRecv w (p.reqs r') with
      | mk o l =>
          simp only [Link.step, Link.run, Proc.linkTo, hpc, heq]
          simp only [Proc.runCall, heq] at h
          cases o <;> cases h
          · simp [Proc.recvPc, Proc.setCall, Proc.setLoc, Call.recvPc]
          · simp [Proc.recvPc, Proc.setCall, Proc.setLoc, Call.recvPc, Proc.progressOther, Proc.push]
          · simp [Proc.recvPc, Proc.finish, Proc.setLoc, Call.recvPc]
  | waitRecv r' pt =>
      rw [hcall] at hok hc h
      obtain rfl : r' = r := Option.some.inj hc
      have hne : p.type r' ≠ .recv := by
        rw [hok.2]
        decide
      have hpc : p.recvPc r' = .idle := recvPc_idle (by rw [hcall]; rfl) (Or.inr hne)
      cases pt with
      | backup =>
          simp only [Proc.runCall] at h
          split at h <;> cases h
          · refine advances_mpi (f := fun x => { x with backupRequest := none }) hpc
              (recvPc_idle rfl (Or.inr ?_)) (Function.update_self _ _ _) (fun _ => rfl)
            simpa [Proc.type, Proc.setCall, Proc.setReq, Proc.setLoc] using hne
          · exact Or.inl rfl
      | exchange =>
          simp only [Proc.runCall, Option.some.injEq, Prod.mk.injEq] at h
          obtain ⟨rfl, -⟩ := h
          refine advances_mpi (f := fun x =>
              if p.exchangeDone ans r' then { x with type := .recv, rdmaExchangeRequest := none }
              else { x with type := .recvFallback }) hpc
            (recvPc_idle rfl (Or.inl (Function.update_self _ _ _))) (Function.update_self _ _ _) ?_
          intro x
          split <;> rfl
  | mpiWait r' =>
      rw [hcall] at hok hc h
      obtain rfl : r' = r := Option.some.inj hc
      have hne : p.type r' ≠ .recv := by
        rcases hok.2 with he | he <;> rw [he] <;> decide
      have hpc : p.recvPc r' = .idle := recvPc_idle (by rw [hcall]; rfl) (Or.inr hne)
      simp only [Proc.runCall] at h
      split at h <;> cases h
      · exact advances_mpi (f := fun x => { x with backupRequest := none }) hpc
          (recvPc_idle rfl (Or.inl (Function.update_self _ _ _))) (Function.update_self _ _ _)
          (fun _ => rfl)
      · exact Or.inl rfl

/-! ### What the process keeps about itself -/

theorem setLoc_type {l : Local} : (p.setLoc r l).type r = l.req.type := by
  simp [Proc.type, Proc.setLoc]

/-- The process stays in a function called for the right request, or leaves it. -/
theorem runCall_ok (h : p.runCall mode ans p.call = some (p', m)) (hok : CallOk p)
    (hn : p.nested = []) (hl : ∀ r ∈ p.requestList, r < p.nextRid) : CallOk p' ∧ StackOk p' := by
  have hstack : ∀ {p' : Proc}, p'.nested = [] → StackOk p' := by
    intro p' hn'
    simp [StackOk, hn']
  unfold CallOk at hok
  cases hcall : p.call with
  | none => simp [Proc.runCall, hcall] at h
  | init r =>
      rw [hcall] at h
      cases h
      exact ⟨trivial, hstack hn⟩
  | bSend r pt =>
      rw [hcall] at h hok
      have htype : ((p.setLoc r (bSend mode ans.imm pt (p.reqs r)).2.1).type r) = .send := by
        rw [setLoc_type, bSend_untouched.type]
        exact hok.2
      simp only [Proc.runCall] at h
      split at h <;> cases h <;> rename_i heq
      · rw [heq] at htype
        exact ⟨⟨hok.1, htype⟩, hstack hn⟩
      · exact ⟨trivial, hstack hn⟩
  | bRecv r pt =>
      rw [hcall] at h hok
      cases pt with
      | progress =>
          cases h
          refine ⟨⟨hok.1, ?_, hok.2.2⟩, hstack hn⟩
          exact setLoc_type.trans hok.2.1
      | fetch =>
          cases h
          exact ⟨trivial, hstack hn⟩
  | eSend r w =>
      rw [hcall] at h hok
      have htype : ((p.setLoc r (eSend ans.flag w (p.reqs r)).2).type r) = .send := by
        rw [setLoc_type, eSend_untouched.type]
        exact hok.2
      simp only [Proc.runCall] at h
      split at h <;> cases h <;> rename_i heq
      · rw [heq] at htype
        exact ⟨⟨hok.1, htype⟩, hstack hn⟩
      · rw [heq] at htype
        refine ⟨⟨hok.1, htype⟩, ?_⟩
        simp only [StackOk, Proc.progressOther, Proc.push, Proc.setCall, Proc.setLoc, hn]
        exact ⟨rfl, hl⟩
      · exact ⟨trivial, hstack hn⟩
  | eRecv r w =>
      rw [hcall] at h hok
      have htype : ((p.setLoc r (eRecv w (p.reqs r)).2).type r) = .recv := by
        rw [setLoc_type, eRecv_untouched.type]
        exact hok.2
      simp only [Proc.runCall] at h
      split at h <;> cases h <;> rename_i heq
      · rw [heq] at htype
        exact ⟨⟨hok.1, htype⟩, hstack hn⟩
      · rw [heq] at htype
        refine ⟨⟨hok.1, htype⟩, ?_⟩
        simp only [StackOk, Proc.progressOther, Proc.push, Proc.setCall, Proc.setLoc, hn]
        exact ⟨rfl, hl⟩
      · exact ⟨trivial, hstack hn⟩
  | waitSend r pt | waitRecv r pt =>
      rw [hcall] at h
      have hsame : CallOk p := by
        unfold CallOk
        exact hok
      rw [hcall] at hok
      cases pt with
      | backup =>
          simp only [Proc.runCall] at h
          split at h <;> cases h
          · exact ⟨⟨hok.1, setLoc_type.trans hok.2⟩, hstack hn⟩
          · exact ⟨hsame, hstack hn⟩
      | exchange =>
          simp only [Proc.runCall, Option.some.injEq, Prod.mk.injEq] at h
          obtain ⟨rfl, -⟩ := h
          exact ⟨trivial, hstack hn⟩
  | mpiWait r =>
      rw [hcall] at h
      have hsame : CallOk p := by
        unfold CallOk
        exact hok
      simp only [Proc.runCall] at h
      split at h <;> cases h
      · exact ⟨trivial, hstack hn⟩
      · exact ⟨hsame, hstack hn⟩

/-- A function changes neither the kind of a request nor which requests there are. -/
theorem runCall_keeps (h : p.runCall mode ans p.call = some (p', m)) (hok : CallOk p) :
    p'.nextRid = p.nextRid ∧ p'.handlers = p.handlers ∧
      (∀ x ∈ p'.requestList, x ∈ p.requestList ∨ p.call.rid = some x) ∧
      ∀ r, (p'.type r).isRecv = (p.type r).isRecv := by
  have same : ∀ {r : Rid} {l : Local}, l.req.type.isRecv = (p.type r).isRecv →
      ∀ r', ((p.setLoc r l).type r').isRecv = (p.type r').isRecv := by
    intro r l ht r'
    by_cases he : r' = r
    · rw [he, setLoc_type]
      exact ht
    · simp [Proc.type, Proc.setLoc, he]
  unfold CallOk at hok
  cases hcall : p.call with
  | none => simp [Proc.runCall, hcall] at h
  | init r =>
      rw [hcall] at h
      cases h
      refine ⟨rfl, rfl, fun x hx => ?_, same rfl⟩
      rcases List.mem_cons.mp hx with rfl | hx
      · exact Or.inr rfl
      · exact Or.inl hx
  | bSend r pt =>
      rw [hcall] at h
      have htype : (bSend mode ans.imm pt (p.reqs r)).2.1.req.type = p.type r :=
        bSend_untouched.type
      simp only [Proc.runCall] at h
      split at h <;> cases h <;> rename_i heq <;> rw [heq] at htype <;>
        exact ⟨rfl, rfl, fun _ hx => Or.inl hx, same (congrArg _ htype)⟩
  | bRecv r pt =>
      rw [hcall] at h
      cases pt with
      | progress =>
          cases h
          exact ⟨rfl, rfl, fun _ hx => Or.inl hx, same rfl⟩
      | fetch =>
          cases h
          exact ⟨rfl, rfl, fun _ hx => Or.inl hx, same (congrArg _ bRecvFetch_untouched.type)⟩
  | eSend r w =>
      rw [hcall] at h
      have htype : (eSend ans.flag w (p.reqs r)).2.req.type = p.type r :=
        eSend_untouched.type
      simp only [Proc.runCall] at h
      split at h <;> cases h <;> rename_i heq <;> rw [heq] at htype <;>
        exact ⟨rfl, rfl, fun _ hx => Or.inl hx, same (congrArg _ htype)⟩
  | eRecv r w =>
      rw [hcall] at h
      have htype : (eRecv w (p.reqs r)).2.req.type = p.type r :=
        eRecv_untouched.type
      simp only [Proc.runCall] at h
      split at h <;> cases h <;> rename_i heq <;> rw [heq] at htype <;>
        exact ⟨rfl, rfl, fun _ hx => Or.inl hx, same (congrArg _ htype)⟩
  | waitSend r pt | waitRecv r pt =>
      rw [hcall] at h hok
      cases pt with
      | backup =>
          simp only [Proc.runCall] at h
          split at h <;> cases h
          · exact ⟨rfl, rfl, fun _ hx => Or.inl hx, same rfl⟩
          · exact ⟨rfl, rfl, fun _ hx => Or.inl hx, fun _ => rfl⟩
      | exchange =>
          simp only [Proc.runCall, Option.some.injEq, Prod.mk.injEq] at h
          obtain ⟨rfl, -⟩ := h
          refine ⟨rfl, rfl, fun _ hx => Or.inl hx, same ?_⟩
          rw [hok.2]
          dsimp only
          split <;> rfl
  | mpiWait r =>
      rw [hcall] at h
      simp only [Proc.runCall] at h
      split at h <;> cases h
      · exact ⟨rfl, rfl, fun _ hx => Or.inl hx, same rfl⟩
      · exact ⟨rfl, rfl, fun _ hx => Or.inl hx, fun _ => rfl⟩

/-- The request a function was called for is one of the process. -/
theorem CallOk.rid_lt (hok : CallOk p) (hc : p.call.rid = some r) : r < p.nextRid := by
  unfold CallOk at hok
  split at hok <;> rename_i heq <;> rw [heq] at hc
  · simp [Call.rid] at hc
  all_goals
    cases hc
    exact hok.1

/-- The requests, and where the process is with them, are as before. -/
structure SameReqs (p p' : Proc) : Prop where
  reqs : p'.reqs = p.reqs
  active : p'.active = p.active
  call : p'.call = p.call
  requestList : p'.requestList = p.requestList
  handlers : p'.handlers = p.handlers
  nextRid : p'.nextRid = p.nextRid

theorem SameReqs.linkTo (h : SameReqs p p') (q : Peer) : p'.linkTo r q = p.linkTo r q := by
  have hpc : p'.recvPc r = p.recvPc r :=
    recvPc_congr (by rw [h.call]) (by rw [h.active]) (by rw [Proc.type, Proc.type, h.reqs])
  rw [Proc.linkTo, Proc.linkTo, hpc, h.reqs]

/-- The stack is as before, and a request that is started again is still ready. -/
theorem StackOk.congr (h : StackOk p) (hn : p'.nested = p.nested) (hc : p'.call = p.call)
    (hrid : p'.nextRid = p.nextRid) (ht : ∀ r, p'.type r = p.type r)
    (hready : ∀ r pt below, p.nested = .progressRecv r pt :: below →
      (p'.reqs r).req.isReadyToRecv = (p.reqs r).req.isReadyToRecv) : StackOk p' := by
  unfold StackOk at h ⊢
  rw [hn, hc, hrid]
  cases hs : p.nested with
  | nil => trivial
  | cons f below =>
      rw [hs] at h
      cases f with
      | progressOther current rest => cases below <;> exact h
      | progressRecv r pt =>
          cases below with
          | nil => exact h
          | cons g below =>
              cases g with
              | progressRecv r' pt' => exact h.elim
              | progressOther current rest =>
                  cases below with
                  | cons g below => exact h.elim
                  | nil =>
                      simp only [ht, hready r pt _ hs]
                      exact h

theorem SameReqs.callOk (h : SameReqs p p') (hok : CallOk p) : CallOk p' := by
  unfold CallOk Proc.type at hok ⊢
  rw [h.call, h.reqs, h.active, h.nextRid]
  exact hok

/-- **Progressing other requests changes none of them**, as long as a request that is ready has
no message waiting. -/
theorem runFrame_same {f : Frame} {below : List Frame} (hok : StackOk p)
    (hn : p.nested = f :: below)
    (hready : ∀ r, r < p.nextRid → p.type r = .recv → (p.reqs r).req.isReadyToRecv = true →
      (p.reqs r).req.listOfPendingMsgs = []) :
    SameReqs p ((p.setNested below).runFrame mode ans f) ∧
      StackOk ((p.setNested below).runFrame mode ans f) := by
  unfold StackOk at hok
  rw [hn] at hok
  cases f with
  | progressOther current rest =>
      cases below with
      | cons g below => simp at hok
      | nil =>
          obtain ⟨hw, hl⟩ := hok
          cases rest with
          | nil => exact ⟨⟨rfl, rfl, rfl, rfl, rfl, rfl⟩, trivial⟩
          | cons r rest =>
              have hl' : ∀ r ∈ rest, r < p.nextRid := fun x hx => hl x (List.mem_cons_of_mem _ hx)
              simp only [Proc.runFrame]
              split
              · exact ⟨⟨rfl, rfl, rfl, rfl, rfl, rfl⟩, hw, hl'⟩
              · simp only [Proc.progressRequest]
                split
                · rename_i htype
                  split
                  · rename_i hr
                    exact ⟨⟨rfl, rfl, rfl, rfl, rfl, rfl⟩, hw, hl', hl r List.mem_cons_self, htype,
                      hr⟩
                  · exact ⟨⟨rfl, rfl, rfl, rfl, rfl, rfl⟩, hw, hl'⟩
                all_goals exact ⟨⟨rfl, rfl, rfl, rfl, rfl, rfl⟩, hw, hl'⟩
  | progressRecv r pt =>
      cases below with
      | nil => simp at hok
      | cons g below =>
          cases g with
          | progressRecv r' pt' => simp at hok
          | progressOther current rest =>
              cases below with
              | cons g below => simp at hok
              | nil =>
                  obtain ⟨hw, hl, hlt, htype, hr⟩ := hok
                  have hself : Function.update p.reqs r (p.reqs r) = p.reqs :=
                    Function.update_eq_self r p.reqs
                  cases pt with
                  | progress =>
                      refine ⟨⟨hself, rfl, rfl, rfl, rfl, rfl⟩, hw, hl, hlt, ?_, ?_⟩
                      · exact setLoc_type.trans htype
                      · show (Function.update p.reqs r (p.reqs r) r).req.isReadyToRecv = true
                        rw [hself]
                        exact hr
                  | fetch =>
                      have hfetch : bRecvFetch mode (ans.here r) (p.reqs r) = p.reqs r := by
                        rw [bRecvFetch_nil (hready r hlt htype hr), Local.setReady, ← hr]
                      simp only [Proc.runFrame, bRecv, Proc.setNested, hfetch]
                      exact ⟨⟨hself, rfl, rfl, rfl, rfl, rfl⟩, hw, hl⟩

end

end CompMatch.ActiveMessage

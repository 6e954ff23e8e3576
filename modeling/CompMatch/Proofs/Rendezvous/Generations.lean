/-
A request is told about the request its first operation goes with.

The handshake messages of a process are received in the order of its requests, and only
the last request on either side is not freed.  So if every request that was freed had
received one message, and its own was received, the `i`-th request receives the message of
the `i`-th request.  That is what connected requests have in common; one that has fallen
back, or was never used, leaves its message behind for the next one.

For the payloads it is the same: a connected request has sent, or received, one over MPI.
If none of these went with a plain call, the first of the `i`-th request goes with the
first of the `i`-th (`Matching.first_of_first`).
-/
import CompMatch.Proofs.Rendezvous.Sends

namespace CompMatch.Rendezvous

open Matching

/-! ### What a step does to a request -/

namespace History

/-- Nothing of a request has changed that the handshake depends on. -/
structure SameHandshake (q q' : MpioptRequest) : Prop where
  type : q'.type = q.type
  exchange : q'.rdmaExchangeRequestSend = q.rdmaExchangeRequestSend
  dataAddr : q'.remoteDataAddr = q.remoteDataAddr
  flagAddr : q'.remoteFlagAddr = q.remoteFlagAddr
  dataRkey : q'.remoteDataRkey = q.remoteDataRkey
  flagRkey : q'.remoteFlagRkey = q.remoteFlagRkey

theorem SameHandshake.refl (q : MpioptRequest) : SameHandshake q q := ⟨rfl, rfl, rfl, rfl, rfl, rfl⟩

section
variable {h h' : History} {r : Rid} {act : HistoryAct} {ans : Answer} {nonnull : Prop}

/-- What a step does to the request list. -/
inductive ListCase (h h' : History) : HistoryAct → Prop
  | init {act : HistoryAct} (hlist : h'.proc.requestList = h.proc.nextRid :: h.proc.requestList)
      (hnext : h'.proc.nextRid = h.proc.nextRid + 1) : ListCase h h' act
  | free (q : Rid) (hfree : h.Free) (hact : h.proc.active q = false)
      (hlist : h'.proc.requestList = h.proc.requestList.erase q)
      (hnext : h'.proc.nextRid = h.proc.nextRid) : ListCase h h' (.free q)
  | other {act : HistoryAct} (hlist : h'.proc.requestList = h.proc.requestList)
      (hnext : h'.proc.nextRid = h.proc.nextRid) : ListCase h h' act

theorem listCase (hi : h.Inv nonnull) (hs : h.step act = some h') : ListCase h h' act := by
  cases act with
  | run ans =>
      simp only [step] at hs
      split at hs
      · rename_i p c hrun
        split at hs <;> simp only [reduceCtorEq, Option.some.injEq] at hs
        subst hs
        obtain ⟨-, -, hkept⟩ := Proc.run_control hi.shape hi.known hrun
        exact .other hkept.requestList hkept.nextRid
      · simp at hs
  | start q =>
      simp only [step] at hs
      split at hs <;> simp only [reduceCtorEq, Option.some.injEq] at hs
      subst hs
      have hkept := (start_frame (p := h.proc) q).2.2.1
      exact .other hkept.requestList hkept.nextRid
  | wait q =>
      simp only [step] at hs
      split at hs <;> simp only [reduceCtorEq, Option.some.injEq] at hs
      subst hs
      have hkept := (wait_frame (p := h.proc) q).2.2.2.2
      exact .other hkept.requestList hkept.nextRid
  | free q =>
      simp only [step] at hs
      split at hs <;> simp only [reduceCtorEq, Option.some.injEq] at hs
      rename_i hfree
      subst hs
      exact .free q hfree.1 hfree.2.2 rfl rfl
  | sendInit args =>
      simp only [step] at hs
      split at hs <;> simp only [reduceCtorEq, Option.some.injEq] at hs
      subst hs
      exact .init rfl rfl
  | recvInit args =>
      simp only [step] at hs
      split at hs <;> simp only [reduceCtorEq, Option.some.injEq] at hs
      subst hs
      exact .init rfl rfl
  | announces q info =>
      simp only [step, Option.some.injEq] at hs
      subst hs
      exact .other rfl rfl
  | writeFlag q v =>
      simp only [step, Option.some.injEq] at hs
      subst hs
      exact .other rfl rfl
  | _ =>
      simp only [step] at hs
      split at hs <;> simp only [reduceCtorEq, Option.some.injEq] at hs
      subst hs
      exact .other rfl rfl

theorem ListCase.nextRid (hc : ListCase h h' act) : h.proc.nextRid ≤ h'.proc.nextRid := by
  cases hc with
  | init _ hnext => exact Nat.le.intro hnext.symm
  | free _ _ _ _ hnext => exact Nat.le_of_eq hnext.symm
  | other _ hnext => exact Nat.le_of_eq hnext.symm

/-- A request that was freed does not come back. -/
theorem ListCase.freed (hc : ListCase h h' act) (hr : r < h.proc.nextRid)
    (hno : r ∉ h.proc.requestList) : r ∉ h'.proc.requestList := by
  cases hc with
  | init hlist =>
      rw [hlist, List.mem_cons, not_or]
      exact ⟨Nat.ne_of_lt hr, hno⟩
  | free q _ _ hlist =>
      rw [hlist]
      exact fun hmem => hno (List.mem_of_mem_erase hmem)
  | other hlist => rwa [hlist]

/-- It leaves the list when it is freed. -/
theorem ListCase.frees (hc : ListCase h h' act) (hin : r ∈ h.proc.requestList)
    (hout : r ∉ h'.proc.requestList) : act = .free r ∧ h.Free ∧ h.proc.active r = false := by
  cases hc with
  | init hlist =>
      rw [hlist] at hout
      exact absurd (List.mem_cons_of_mem _ hin) hout
  | free q hfree hact hlist =>
      rw [hlist] at hout
      by_cases hq : r = q
      · subst hq
        exact ⟨rfl, hfree, hact⟩
      · exact absurd ((List.mem_erase_of_ne hq).mpr hin) hout
  | other hlist =>
      rw [hlist] at hout
      exact absurd hin hout

/-- Only the process's own steps touch the stack and the handshake. -/
theorem step_handshake (hs : h.step act = some h') (hno : ∀ ans, act ≠ .run ans) :
    h'.proc.nested = h.proc.nested ∧ h'.infos = h.infos ∧
      ∀ r < h.proc.nextRid, SameHandshake (h.proc.reqs r) (h'.proc.reqs r) := by
  have hsame : ∀ {p : Proc}, p.reqs = h.proc.reqs →
      ∀ r < h.proc.nextRid, SameHandshake (h.proc.reqs r) (p.reqs r) := by
    intro p hp r _
    rw [hp]
    exact .refl _
  have hinit : ∀ (type : RequestType) (args : Proc.InitArgs) (info : RdmaInfo), ∀ r < h.proc.nextRid,
      SameHandshake (h.proc.reqs r) ((h.proc.initRequest type args info).1.reqs r) := by
    intro type args info r hr
    have hreq : (h.proc.initRequest type args info).1.reqs r = h.proc.reqs r :=
      Function.update_of_ne (Nat.ne_of_lt hr) ..
    rw [hreq]
    exact .refl _
  cases act with
  | run ans => exact absurd rfl (hno ans)
  | sendInit args =>
      simp only [step] at hs
      split at hs <;> simp only [reduceCtorEq, Option.some.injEq] at hs
      subst hs
      exact ⟨rfl, rfl, hinit _ _ _⟩
  | recvInit args =>
      simp only [step] at hs
      split at hs <;> simp only [reduceCtorEq, Option.some.injEq] at hs
      subst hs
      exact ⟨rfl, rfl, hinit _ _ _⟩
  | start q =>
      simp only [step] at hs
      split at hs <;> simp only [reduceCtorEq, Option.some.injEq] at hs
      subst hs
      refine ⟨(start_frame q).2.1, call_infos (start_call h.proc q), fun r _ => ?_⟩
      by_cases hr : r = q
      · subst hr
        unfold setProc Proc.start
        split <;> constructor <;> simp [Proc.setCall, Proc.setReq, Proc.postBackup, Proc.assert]
      · rw [setProc, (start_frame q).2.2.2.2 r hr]
        exact .refl _
  | wait q =>
      simp only [step] at hs
      split at hs <;> simp only [reduceCtorEq, Option.some.injEq] at hs
      subst hs
      exact ⟨(wait_frame q).2.1, rfl, hsame (wait_frame q).2.2.2.1⟩
  | writeFlag q v =>
      simp only [step, Option.some.injEq] at hs
      subst hs
      refine ⟨rfl, rfl, fun r _ => ?_⟩
      by_cases hr : r = q
      · subst hr
        constructor <;> simp [setProc, Proc.setReq]
      · rw [setProc, Proc.setReq_other hr]
        exact .refl _
  | announces q info =>
      simp only [step, Option.some.injEq] at hs
      subst hs
      exact ⟨rfl, rfl, hsame rfl⟩
  | _ =>
      simp only [step] at hs
      split at hs <;> simp only [reduceCtorEq, Option.some.injEq] at hs
      subst hs
      exact ⟨rfl, rfl, hsame rfl⟩

theorem step_type (hi : h.Inv nonnull) (hs : h.step act = some h') (hr : r < h.proc.nextRid) :
    (h'.proc.reqs r).type = (h.proc.reqs r).type ∨
      Proc.Decides (h.proc.reqs r) (h'.proc.reqs r).type := by
  by_cases hact : ∃ ans, act = .run ans
  · obtain ⟨ans, rfl⟩ := hact
    simp only [step] at hs
    split at hs
    · rename_i p c hrun
      split at hs <;> simp only [reduceCtorEq, Option.some.injEq] at hs
      subst hs
      exact Proc.run_decides hi.shape hi.known hrun r
    · simp at hs
  · exact Or.inl ((step_handshake hs fun ans ha => hact ⟨ans, ha⟩).2.2 r hr).type

/-- A send request stays one, and a receive request too. -/
theorem step_isRecv (hi : h.Inv nonnull) (hs : h.step act = some h') (hr : r < h.proc.nextRid) :
    (h'.proc.reqs r).type.isRecv = (h.proc.reqs r).type.isRecv := by
  rcases step_type hi hs hr with heq | ⟨hs, ⟨heq, -⟩ | heq⟩ | ⟨hs, ⟨heq, -⟩ | heq⟩
  · rw [heq]
  all_goals simp [hs, heq, RequestType.isRecv]

/-- A connected request stays connected. -/
theorem step_connected (hi : h.Inv nonnull) (hs : h.step act = some h') (hr : r < h.proc.nextRid)
    (ht : (h.proc.reqs r).type = .send ∨ (h.proc.reqs r).type = .recv) :
    (h'.proc.reqs r).type = .send ∨ (h'.proc.reqs r).type = .recv := by
  rcases step_type hi hs hr with heq | ⟨hs, -⟩ | ⟨hs, -⟩
  · rwa [heq]
  · rcases ht with ht | ht <;> simp [hs] at ht
  · rcases ht with ht | ht <;> simp [hs] at ht

/-- The step receives the handshake message of a request. -/
def Hears (h : History) (act : HistoryAct) (r : Rid) : Prop :=
  ∃ ans below, act = .run ans ∧ h.proc.nested = .receiveInfo r .recv :: below

theorem step_heard (hs : h.step act = some h') (hr : r < h.proc.nextRid) :
    (¬ h.Hears act r ∧ h'.infos r = h.infos r ∧ h'.proc.remote r = h.proc.remote r) ∨
      (h.Hears act r ∧ h'.infos r = h.infos r ++ [h.proc.counterpart r] ∧
        h'.proc.remote r = h.proc.counterpart r) := by
  by_cases hact : ∃ ans, act = .run ans
  · obtain ⟨ans, rfl⟩ := hact
    simp only [step] at hs
    split at hs
    · rename_i p c hrun
      split at hs <;> simp only [reduceCtorEq, Option.some.injEq] at hs
      subst hs
      refine (run_infos hrun r).imp ?_ ?_
      · rintro ⟨hno, hinfos, hrem⟩
        refine ⟨?_, hinfos, hrem⟩
        rintro ⟨-, below, -, hn⟩
        exact hno below hn
      · rintro ⟨⟨below, hn⟩, hinfos, hrem⟩
        exact ⟨⟨ans, below, rfl, hn⟩, hinfos, hrem⟩
    · simp at hs
  · have hno : ∀ ans, act ≠ .run ans := fun ans ha => hact ⟨ans, ha⟩
    obtain ⟨-, hinfos, hreqs⟩ := step_handshake hs hno
    have hsame := hreqs r hr
    refine Or.inl ⟨?_, by rw [hinfos], ?_⟩
    · rintro ⟨ans, -, ha, -⟩
      exact hno ans ha
    · simp only [Proc.remote, hsame.dataAddr, hsame.flagAddr, hsame.dataRkey, hsame.flagRkey]

/-- What the step that receives a message asks MPI for. -/
theorem Hears.mpiCall (hh : h.Hears act r) (hs : h.step act = some h') :
    ∃ k, h.mpiCall act = some (.recv r k) := by
  obtain ⟨ans, below, rfl, hn⟩ := hh
  simp only [step] at hs
  split at hs
  · rename_i p c hrun
    refine ⟨h.proc.commToUse r, ?_⟩
    rw [History.mpiCall, hrun, Option.bind_some, (Proc.run_receive hn hrun).2.1]
  · simp at hs

theorem hears_of_mpiCall {k : Comm} (hc : h.mpiCall act = some (.recv r k)) : h.Hears act r := by
  cases act with
  | run ans =>
      obtain ⟨⟨p, c⟩, hrun, hc⟩ := Option.bind_eq_some_iff.mp hc
      obtain rfl : c = some (.recv r k) := hc
      obtain ⟨below, hn⟩ := Proc.run_recv hrun
      exact ⟨ans, below, rfl, hn⟩
  | start q => exact absurd hc (start_call h.proc q r k)
  | _ => cases hc

/-- `receive_rdma_info` finds the own message received. -/
theorem step_exchange (hs : h.step act = some h') (hr : r < h.proc.nextRid) :
    (h'.proc.reqs r).rdmaExchangeRequestSend = (h.proc.reqs r).rdmaExchangeRequestSend ∨
      ((h'.proc.reqs r).rdmaExchangeRequestSend = none ∧
        ∃ ans, act = .run ans ∧ h.proc.exchangeDone ans r = true ∧
          h.mpiCall act = some (.testExchange r)) := by
  by_cases hact : ∃ ans, act = .run ans
  · obtain ⟨ans, rfl⟩ := hact
    simp only [step] at hs
    split at hs
    · rename_i p c hrun
      split at hs <;> simp only [reduceCtorEq, Option.some.injEq] at hs
      subst hs
      refine (Proc.run_exchange hrun r).imp id ?_
      rintro ⟨hnone, hdone, below, hn⟩
      refine ⟨hnone, ans, rfl, hdone, ?_⟩
      rw [History.mpiCall, hrun, Option.bind_some]
      unfold Proc.run at hrun
      rw [hn] at hrun
      have hc : c = ((h.proc.setNested below).runFrame ans (.receiveInfo r .test)).2 := by
        rw [Option.some.inj hrun]
      rw [hc]
      rfl
    · simp at hs
  · exact Or.inl ((step_handshake hs fun ans ha => hact ⟨ans, ha⟩).2.2 r hr).exchange

/-- A `receive_rdma_info` that waits for its message returns when it was received. -/
theorem step_spinning (hs : h.step act = some h') (hr : r < h.proc.nextRid)
    (hspin : (h.proc.reqs r).rdmaExchangeRequestSend = none ∨ .receiveInfo r .test ∈ h.proc.nested) :
    (h'.proc.reqs r).rdmaExchangeRequestSend = none ∨ .receiveInfo r .test ∈ h'.proc.nested := by
  by_cases hact : ∃ ans, act = .run ans
  · rcases hspin with hnone | hmem
    · refine Or.inl ((step_exchange hs hr).elim (fun heq => heq.trans hnone) And.left)
    · obtain ⟨ans, rfl⟩ := hact
      simp only [step] at hs
      split at hs
      · rename_i p c hrun
        split at hs <;> simp only [reduceCtorEq, Option.some.injEq] at hs
        subst hs
        exact Proc.run_spinning hrun hmem
      · simp at hs
  · obtain ⟨hn, -, hreqs⟩ := step_handshake hs fun ans ha => hact ⟨ans, ha⟩
    rw [hn, (hreqs r hr).exchange]
    exact hspin

/-! ### What a step posts -/

/-- The receives that are posted. -/
theorem step_posted (hs : h.step act = some h') (r : Rid) :
    h'.posted r = h.posted r + posts r (h.mpiCall act) := by
  cases act with
  | run ans =>
      simp only [step] at hs
      split at hs
      · rename_i p c hrun
        split at hs <;> simp only [reduceCtorEq, Option.some.injEq] at hs
        subst hs
        rw [History.mpiCall, hrun]
        exact call_posted c r
      · simp at hs
  | start q =>
      simp only [step] at hs
      split at hs <;> simp only [reduceCtorEq, Option.some.injEq] at hs
      subst hs
      exact call_posted _ r
  | announces q info =>
      simp only [step, Option.some.injEq] at hs
      subst hs
      rfl
  | writeFlag q v =>
      simp only [step, Option.some.injEq] at hs
      subst hs
      rfl
  | _ =>
      simp only [step] at hs
      split at hs <;> simp only [reduceCtorEq, Option.some.injEq] at hs
      subst hs
      rfl

theorem step_delivered (hs : h.step act = some h') (r : Rid) :
    h'.delivered r = h.delivered r ∨ act = .delivers r := by
  cases act with
  | run ans =>
      simp only [step] at hs
      split at hs
      · split at hs <;> simp only [reduceCtorEq, Option.some.injEq] at hs
        subst hs
        exact Or.inl rfl
      · simp at hs
  | delivers q =>
      simp only [step] at hs
      split at hs <;> simp only [reduceCtorEq, Option.some.injEq] at hs
      subst hs
      by_cases hq : r = q
      · exact Or.inr (by rw [hq])
      · exact Or.inl (Function.update_of_ne hq ..)
  | announces q info =>
      simp only [step, Option.some.injEq] at hs
      subst hs
      exact Or.inl rfl
  | writeFlag q v =>
      simp only [step, Option.some.injEq] at hs
      subst hs
      exact Or.inl rfl
  | _ =>
      simp only [step] at hs
      split at hs <;> simp only [reduceCtorEq, Option.some.injEq] at hs
      subst hs
      exact Or.inl rfl

/-- What is posted is posted for a request of the list. -/
theorem posts_listed {side : Side} (hi : h.Inv nonnull) (hs : h.step act = some h')
    (hc : (h.mpiCall act).bind side.payload = some r) : r ∈ h.proc.requestList := by
  have hpost : ∀ {c : Option MpiCall}, c.bind side.payload = some r →
      c.bind Side.sender.payload = some r ∨ c = some (.irecv r) := by
    intro c hc
    cases side with
    | sender => exact Or.inl hc
    | receiver =>
        obtain ⟨x, rfl, hx⟩ := Option.bind_eq_some_iff.mp hc
        cases x <;> simp [Side.payload] at hx
        rw [hx]
        exact Or.inr rfl
  cases act with
  | run ans =>
      obtain ⟨x, hx, hpay⟩ := Option.bind_eq_some_iff.mp hc
      obtain ⟨⟨p, c⟩, hrun, hcx⟩ := Option.bind_eq_some_iff.mp hx
      obtain rfl : c = some x := hcx
      have hsome : (some x).bind side.payload = some r := hpay
      unfold Proc.run at hrun
      split at hrun
      · rename_i f below hn
        have hpair := Option.some.inj hrun
        have hrid : f.rid = some r := by
          rcases hpost hsome with hsend | hrecv
          · have hno : (((h.proc.setNested below).runFrame ans f).2).bind Side.sender.payload = none :=
              Proc.runFrame_sends
            rw [hpair] at hno
            rw [hno] at hsend
            cases hsend
          · exact Proc.runFrame_posts (by rw [hpair]; exact hrecv)
        refine hi.listed.nested f (by simp [hn]) r ?_
        cases f with
        | progressOther current rest => cases rest <;> simp_all [Frame.rid, Frame.rids]
        | _ => simp_all [Frame.rid, Frame.rids]
      · refine hi.listed.call r ?_
        rcases hpost hsome with hsend | hrecv
        · rw [Proc.runCall_sends hrun hsend]
          rfl
        · rw [hrecv] at hrun
          exact Proc.runCall_posts hrun
  | start q =>
      simp only [step] at hs
      split at hs <;> simp only [reduceCtorEq, Option.some.injEq] at hs
      rename_i hfree
      have hq : r = q := (hpost hc).elim Proc.start_sends Proc.start_posts
      exact hq ▸ hfree.2.1
  | _ => cases hc

/-- The payloads of a send request after a step. -/
theorem sent_step {n : Nat} {met met' : Prop} (hsent : Sent h.proc r n met) (hi : h.Inv nonnull)
    (hs : h.step act = some h') (hr : r < h.proc.nextRid) (hsend : (h.proc.reqs r).type.isRecv = false)
    (hans : ∀ ans x, act = .run ans → h.mpiCall act = some x → x.tests = some r → ans.flag = true →
      (h.proc.reqs r).type ≠ .sendFallback → met)
    (hmet : (h.mpiCall act).bind Side.sender.payload ≠ some r → met → met') :
    Sent h'.proc r (n + sends r (h.mpiCall act)) met' := by
  have hsame : ∀ {p : Proc}, h.mpiCall act = none → p.reqs r = h.proc.reqs r →
      p.active r = h.proc.active r → p.call = h.proc.call → Sent p r (n + sends r (h.mpiCall act)) met' := by
    intro p hnone hreq hact hcall
    have hno : (h.mpiCall act).bind Side.sender.payload ≠ some r := by simp [hnone]
    rw [Proc.sends_eq_zero hno]
    exact hsent.congr (.of_reqs hreq hact (Or.inl hcall)) (hmet hno)
  have hinit : ∀ (type : RequestType) (args : Proc.InitArgs), h.mpiCall act = none →
      Sent (h.proc.initRequest type args .zero).1 r (n + sends r (h.mpiCall act)) met' := fun type args hnone =>
    hsame hnone (Function.update_of_ne (Nat.ne_of_lt hr) ..) (Function.update_of_ne (Nat.ne_of_lt hr) ..) rfl
  cases act with
  | run ans =>
      simp only [step] at hs
      split at hs
      · rename_i p c hrun
        split at hs <;> simp only [reduceCtorEq, Option.some.injEq] at hs
        subst hs
        have hc : h.mpiCall (.run ans) = c := by rw [History.mpiCall, hrun, Option.bind_some]
        rw [hc] at hmet ⊢
        exact Proc.sent_run hsent hi.shape hi.known hsend
          (fun x hx => hans ans x rfl (hc.trans hx)) hmet hrun
      · simp at hs
  | start q =>
      simp only [step] at hs
      split at hs <;> simp only [reduceCtorEq, Option.some.injEq] at hs
      rename_i hfree
      subst hs
      exact Proc.sent_start hsent hsend hfree.1.1 hfree.2.2 hmet
  | wait q =>
      simp only [step] at hs
      split at hs <;> simp only [reduceCtorEq, Option.some.injEq] at hs
      rename_i hfree
      subst hs
      exact Proc.sent_wait hsent hfree.1.1 (hmet (by simp [History.mpiCall]))
  | sendInit args =>
      simp only [step] at hs
      split at hs <;> simp only [reduceCtorEq, Option.some.injEq] at hs
      subst hs
      exact hinit _ _ rfl
  | recvInit args =>
      simp only [step] at hs
      split at hs <;> simp only [reduceCtorEq, Option.some.injEq] at hs
      subst hs
      exact hinit _ _ rfl
  | writeFlag q v =>
      simp only [step, Option.some.injEq] at hs
      subst hs
      have hfirst := setFlag_first h.proc q v r
      exact hsent.congr ⟨hfirst.type, hfirst.backup, rfl, Or.inl rfl⟩ (hmet (by simp [History.mpiCall]))
  | announces q info =>
      simp only [step, Option.some.injEq] at hs
      subst hs
      exact hsame rfl rfl rfl rfl
  | _ =>
      simp only [step] at hs
      split at hs <;> simp only [reduceCtorEq, Option.some.injEq] at hs
      subst hs
      exact hsame rfl rfl rfl rfl

end

end History

/-! ### What is posted for a request -/

/-- What a call adds to the payloads or receives of request `r`. -/
def Side.adds (side : Side) (r : Rid) (c : Option MpiCall) : Nat :=
  if c.bind side.payload = some r then 1 else 0

theorem posts_eq_adds (r : Rid) (c : Option MpiCall) : posts r c = Side.receiver.adds r c := by
  have hiff : c = some (.irecv r) ↔ c.bind Side.receiver.payload = some r := by
    cases c with
    | none => simp
    | some x => cases x <;> simp [Side.payload]
  unfold posts Side.adds
  simp only [hiff]

/-- `n` payloads were sent, or receives posted, for the request.  With `met`, all of them have met
their counterparts. -/
def Counted (side : Side) (h : History) (r : Rid) (n : Nat) (met : Prop) : Prop :=
  match side with
  | .sender => Sent h.proc r n met
  | .receiver => h.posted r = n ∧ (h.delivered r = n → met)

section
variable {side : Side} {h h' : History} {r : Rid} {n : Nat} {met met' : Prop} {act : HistoryAct}
  {nonnull : Prop}

theorem Counted.mono (hc : Counted side h r n met) (hmet : met → met') : Counted side h r n met' := by
  cases side with
  | sender => exact Sent.congr hc ⟨rfl, rfl, rfl, Or.inl rfl⟩ hmet
  | receiver => exact ⟨hc.1, fun hd => hmet (hc.2 hd)⟩

theorem Counted.step (hc : Counted side h r n met) (hi : h.Inv nonnull) (hs : h.step act = some h')
    (hr : r < h.proc.nextRid) (hkind : (h.proc.reqs r).type.isRecv = decide (side = .receiver))
    (hans : ∀ ans x, act = .run ans → h.mpiCall act = some x → x.tests = some r → ans.flag = true →
      (h.proc.reqs r).type ≠ .sendFallback → met) (hdelivers : act = .delivers r → met)
    (hmet : (h.mpiCall act).bind side.payload ≠ some r → met → met') :
    Counted side h' r (n + side.adds r (h.mpiCall act)) met' := by
  cases side with
  | sender => exact History.sent_step hc hi hs hr hkind hans hmet
  | receiver =>
      obtain ⟨hposted, hall⟩ := hc
      have hposted' := History.step_posted hs r
      rw [posts_eq_adds] at hposted'
      refine ⟨by rw [hposted', hposted], fun hd => ?_⟩
      rcases History.step_delivered hs r with heq | hact
      · have hle := (hi.backup r hr hkind).le
        unfold Side.adds at hd
        split at hd <;> rename_i hno
        · omega
        · exact hmet hno (hall (by omega))
      · subst hact
        exact hmet (by simp [History.mpiCall]) (hdelivers rfl)

/-- What holds of a request when it is freed after it was connected. -/
theorem Counted.rest (hc : Counted side h r n met) (hi : h.Inv nonnull) (hr : r < h.proc.nextRid)
    (hkind : (h.proc.reqs r).type.isRecv = decide (side = .receiver)) (hfree : h.Free)
    (hact : h.proc.active r = false)
    (ht : (h.proc.reqs r).type = .send ∨ (h.proc.reqs r).type = .recv) : n = 1 ∧ met := by
  cases side with
  | sender =>
      have ht : (h.proc.reqs r).type = .send := by
        rcases ht with ht | ht
        · exact ht
        · simp [ht, RequestType.isRecv] at hkind
      exact Sent.rest hc ht hfree.1
  | receiver =>
      have ht : (h.proc.reqs r).type = .recv := by
        rcases ht with ht | ht
        · simp [ht, RequestType.isRecv] at hkind
        · exact ht
      have hs := (hi.backup r hr hkind).settled (by simp [ht])
      have hcount := hs.count
      rw [if_pos ht] at hcount
      have hall := hs.all (Or.inl hact)
      obtain ⟨hposted, hdone⟩ := hc
      exact ⟨by omega, hdone (by omega)⟩

end

/-! ### The invariant -/

namespace Generations

/-- Everything that was posted for the request has met its counterpart. -/
def Met (a b : Party) (r : Rid) : Prop := some r ∉ a.posts.drop b.posts.length

/-- A request that was freed leaves nothing behind. -/
structure Freed (a b : Party) (r : Rid) : Prop where
  connected : (a.history.proc.reqs r).type = .send ∨ (a.history.proc.reqs r).type = .recv
  exchange : (a.history.proc.reqs r).rdmaExchangeRequestSend = none
  one : a.posts.count (some r) = 1
  met : Met a b r

/-- What holds of the requests of process `a`, with `b` the other one. -/
structure Sound (side : Side) (a b : Party) : Prop where
  history : a.history.Inv True
  known : ∀ r ∈ a.requests, r < a.history.proc.nextRid
  nodup : a.requests.Nodup
  kind : ∀ r ∈ a.requests, (a.history.proc.reqs r).type.isRecv = decide (side = .receiver)
  /-- Only the last request is not freed. -/
  one : ∀ r ∈ a.requests.dropLast, r ∉ a.history.proc.requestList
  freed : ∀ r ∈ a.requests, r ∉ a.history.proc.requestList → Freed a b r
  /-- The `i`-th request has received the `i`-th message. -/
  heard : ∀ i r, a.requests[i]? = some r →
    a.history.infos r = if i < b.taken then (b.lane[i]?.map Prod.snd).toList else []
  taken : b.taken ≤ a.lane.length ∧ b.taken ≤ b.lane.length
  /-- A message that MPI has found received was received. -/
  exchange : ∀ i r, a.requests[i]? = some r →
    (a.history.proc.reqs r).rdmaExchangeRequestSend = none → i < a.taken
  spinning : ∀ r ∈ a.requests, a.history.infos r ≠ [] →
    (a.history.proc.reqs r).rdmaExchangeRequestSend = none ∨ .receiveInfo r .test ∈ a.history.proc.nested
  groups : Grouped a.requests a.posts.reduceOption
  counts : ∀ r ∈ a.requests, Counted side a.history r (a.posts.count (some r)) (Met a b r)

section
variable {side : Side} {a b : Party} {r : Rid} {i : Nat}

theorem getElem?_requests (a : Party) (i : Nat) : a.requests[i]? = a.lane[i]?.map Prod.fst :=
  List.getElem?_map ..

theorem length_requests (a : Party) : a.requests.length = a.lane.length := List.length_map ..

/-- A request that is not freed is the last one. -/
theorem Sound.last (h : Sound side a b) (hr : r ∈ a.requests) (hin : r ∈ a.history.proc.requestList) :
    a.requests.getLast? = some r := by
  have hne : a.requests ≠ [] := List.ne_nil_of_mem hr
  rw [List.getLast?_eq_some_getLast hne]
  rw [← List.dropLast_append_getLast hne, List.mem_append, List.mem_singleton] at hr
  rcases hr with hr | hr
  · exact absurd hin (h.one r hr)
  · rw [hr]

/-- The place of a request that is not freed. -/
theorem Sound.place (h : Sound side a b) (hi : a.requests[i]? = some r)
    (hin : r ∈ a.history.proc.requestList) : i + 1 = a.lane.length := by
  have hlast := h.last (List.mem_of_getElem? hi) hin
  rw [List.getLast?_eq_getElem?] at hlast
  have hlt := (List.getElem?_eq_some_iff.mp hi).1
  have heq := (List.getElem?_inj hlt h.nodup).mp (hi.trans hlast.symm)
  rw [length_requests] at heq hlt
  omega

/-- A message was received for every request but the last. -/
theorem Sound.before (h : Sound side a b) (hi : i + 1 < a.lane.length) : i < b.taken := by
  have hlt : i < a.requests.length := by
    rw [length_requests]
    omega
  have hget : a.requests[i]? = some a.requests[i] := List.getElem?_eq_getElem hlt
  have hmem : a.requests[i] ∈ a.requests := List.getElem_mem hlt
  have hout : a.requests[i] ∉ a.history.proc.requestList := by
    intro hin
    have := h.place hget hin
    omega
  have hconn := (h.freed _ hmem hout).connected
  have hrem : a.history.proc.remote a.requests[i] ≠ .zero :=
    fun hz => h.history.nesting.connected _ (h.known _ hmem) hconn (congrArg RdmaInfo.dataAddr hz)
  by_contra hge
  have hnil := h.heard i _ hget
  rw [if_neg hge] at hnil
  rcases h.history.told trivial _ (h.known _ hmem) with ⟨-, hz⟩ | ⟨info, hone, -⟩
  · exact hrem hz
  · simp [hnil] at hone

/-- Where the handshake message of a request comes from that is received next. -/
theorem Sound.hears (h : Sound side a b) {act : HistoryAct} (hh : a.history.Hears act r)
    (hi : a.requests[i]? = some r) :
    r ∈ a.history.proc.requestList ∧ a.history.infos r = [] ∧ b.taken = i ∧ i + 1 = a.lane.length := by
  obtain ⟨ans, below, -, hn⟩ := hh
  have hmem := List.mem_of_getElem? hi
  have hin : r ∈ a.history.proc.requestList :=
    h.history.listed.nested (.receiveInfo r .recv) (by simp [hn]) r (by simp [Frame.rids])
  have hlen := h.place hi hin
  have hzero := (h.history.nesting.recv r below hn).1
  have hnil : a.history.infos r = [] := by
    rcases h.history.told trivial r (h.known r hmem) with ⟨hnil, -⟩ | ⟨info, -, hrem, hne⟩
    · exact hnil
    · rw [← hrem] at hne
      exact absurd hzero hne
  refine ⟨hin, hnil, ?_, hlen⟩
  rcases Nat.lt_trichotomy b.taken i with hlt | heq | hgt
  · have := h.before (i := i - 1) (by omega)
    omega
  · exact heq
  · have hlane : i < b.lane.length := Nat.lt_of_lt_of_le hgt h.taken.2
    have heard := h.heard i r hi
    rw [if_pos hgt, hnil, List.getElem?_eq_getElem hlane] at heard
    cases heard

theorem Met.append {xs : List (Option Rid)} (h : Met a b r) (hxs : some r ∉ xs) :
    some r ∉ (a.posts ++ xs).drop b.posts.length := by
  rw [List.drop_append, List.mem_append, not_or]
  exact ⟨h, fun hmem => hxs (List.mem_of_mem_drop hmem)⟩

/-- The other process goes on: it has more payloads or receives, more requests, and has received
more messages. -/
theorem Sound.other {b' : Party} {taken : Nat} (h : Sound side a b) (hlane : b.lane <+: b'.lane)
    (hposts : b.posts.length ≤ b'.posts.length) (htaken : b'.taken = b.taken) (hle : a.taken ≤ taken) :
    Sound side { a with taken := taken } b' := by
  have hmet : ∀ q, Met a b q → Met { a with taken := taken } b' q := by
    intro q hmet hmem
    exact hmet ((List.drop_suffix_drop_left a.posts hposts).subset hmem)
  refine ⟨h.history, h.known, h.nodup, h.kind, h.one, fun q hq hout => ?_, fun i q hi => ?_, ?_,
    fun i q hi hnone => Nat.lt_of_lt_of_le (h.exchange i q hi hnone) hle, h.spinning, h.groups,
    fun q hq => (h.counts q hq).mono (hmet q)⟩
  · obtain ⟨hconn, hexch, hone, hm⟩ := h.freed q hq hout
    exact ⟨hconn, hexch, hone, hmet q hm⟩
  · rw [htaken]
    refine (h.heard i q hi).trans ?_
    by_cases hlt : i < b.taken
    · obtain ⟨zs, hzs⟩ := hlane
      rw [if_pos hlt, if_pos hlt, ← hzs, List.getElem?_append_left (Nat.lt_of_lt_of_le hlt h.taken.2)]
    · rw [if_neg hlt, if_neg hlt]
  · rw [htaken]
    exact ⟨h.taken.1, Nat.le_trans h.taken.2 hlane.length_le⟩

end

/-! ### What a step may do -/

theorem other_ne (side : Side) : side.other ≠ side := by
  cases side <;> exact Side.noConfusion

theorem other_other (side : Side) : side.other.other = side := by
  cases side <;> rfl

section
variable {g g' : Generations} {side : Side} {act : HistoryAct} {h' : History} {r : Rid}

@[simp] theorem set_own (g : Generations) (side : Side) (own other : Party) :
    (g.set side own other).party side = own := if_pos rfl

@[simp] theorem set_other (g : Generations) (side : Side) (own other : Party) :
    (g.set side own other).party side.other = other := if_neg (other_ne side)

theorem posted_eq : g.posted side act = some r ↔
    ((g.party side).history.mpiCall act).bind side.payload = some r ∧ r ∈ (g.party side).requests := by
  unfold posted
  rw [Option.filter_eq_some_iff, decide_eq_true_iff]

/-- Every test of a payload or a receive is right. -/
theorem permits_met {ans : Answer} {x : MpiCall} (hp : g.permits side (.run ans) = true)
    (hx : (g.party side).history.mpiCall (.run ans) = some x) (ht : x.tests = some r)
    (hflag : ans.flag = true) (hr : r ∈ (g.party side).requests)
    (hty : ((g.party side).history.proc.reqs r).type ≠ .sendFallback) :
    Met (g.party side) (g.party side.other) r := by
  simp only [permits, hx] at hp
  cases x with
  | testBackup q =>
      obtain rfl : q = r := Option.some.inj ht
      simpa [answers, hflag, hr, hty, matched, Met] using hp
  | waitBackup q =>
      obtain rfl : q = r := Option.some.inj ht
      simpa [answers, hflag, hr, hty, matched, Met] using hp
  | _ => cases ht

theorem permits_delivers (hp : g.permits side (.delivers r) = true) (hr : r ∈ (g.party side).requests) :
    Met (g.party side) (g.party side.other) r := by
  simpa [permits, hr, matched, Met] using hp

/-- A message that MPI finds received was received. -/
theorem permits_exchange {ans : Answer} (hp : g.permits side (.run ans) = true)
    (hx : (g.party side).history.mpiCall (.run ans) = some (.testExchange r)) (hflag : ans.flag = true)
    (hr : r ∈ (g.party side).requests) : (g.party side).requests.idxOf r < (g.party side).taken := by
  simp only [permits, hx] at hp
  simpa [answers, hflag, hr] using hp

/-- The message that is received is the next one. -/
theorem permits_recv {k : Comm} (hp : g.permits side act = true)
    (hx : (g.party side).history.mpiCall act = some (.recv r k)) (hr : r ∈ (g.party side).requests) :
    (g.party side.other).lane[(g.party side.other).taken]?.map Prod.snd =
      some ((g.party side).history.proc.counterpart r) := by
  cases act with
  | run ans =>
      simp only [permits, hx] at hp
      simpa [answers, hr] using hp
  | start q => exact absurd hx (History.start_call _ q r k)
  | _ => cases hx

theorem receives_iff (hs : (g.party side).history.step act = some h') :
    g.receives side act = true ↔ ∃ r ∈ (g.party side).requests, (g.party side).history.Hears act r := by
  constructor
  · intro hrec
    unfold receives at hrec
    split at hrec
    · rename_i q k hc
      exact ⟨q, decide_eq_true_iff.mp hrec, History.hears_of_mpiCall hc⟩
    · cases hrec
  · rintro ⟨q, hq, hh⟩
    obtain ⟨k, hc⟩ := hh.mpiCall hs
    simp [receives, hc, hq]

/-! ### A step of a process -/

variable (h : Sound side (g.party side) (g.party side.other))

include h

/-- What is posted is posted for the last request. -/
theorem posted_listed (hs : (g.party side).history.step act = some h')
    (hp : g.posted side act = some r) : r ∈ (g.party side).history.proc.requestList :=
  History.posts_listed h.history hs (posted_eq.mp hp).1

theorem groups_step (hs : (g.party side).history.step act = some h') :
    Grouped (g.party side).requests
      ((g.party side).posts ++ (g.posted side act).toList.map some).reduceOption := by
  cases hp : g.posted side act with
  | none => simpa using h.groups
  | some q =>
      have hlast := h.last (posted_eq.mp hp).2 (posted_listed h hs hp)
      simpa [List.reduceOption_append, List.reduceOption_singleton] using h.groups.place hlast

theorem counts_step (hs : (g.party side).history.step act = some h') (hp : g.permits side act = true)
    (hr : r ∈ (g.party side).requests) :
    Counted side h' r (((g.party side).posts ++ (g.posted side act).toList.map some).count (some r))
      (some r ∉ ((g.party side).posts ++ (g.posted side act).toList.map some).drop
        (g.party side.other).posts.length) := by
  have hadds : ((g.posted side act).toList.map some).count (some r) =
      side.adds r ((g.party side).history.mpiCall act) := by
    unfold Side.adds
    split
    · rename_i hc
      simp [posted_eq.mpr ⟨hc, hr⟩]
    · rename_i hc
      refine List.count_eq_zero_of_not_mem fun hmem => hc ?_
      obtain ⟨q, hq, hqr⟩ := List.mem_map.mp hmem
      obtain rfl : q = r := Option.some.inj hqr
      exact (posted_eq.mp (Option.mem_toList.mp hq)).1
  rw [List.count_append, hadds]
  refine (h.counts r hr).step h.history hs (h.known r hr) (h.kind r hr) ?_ ?_ ?_
  · rintro ans x rfl hx ht hflag hty
    exact permits_met hp hx ht hflag hr hty
  · rintro rfl
    exact permits_delivers hp hr
  · intro hno hmet
    refine hmet.append fun hmem => hno ?_
    obtain ⟨q, hq, hqr⟩ := List.mem_map.mp hmem
    obtain rfl : q = r := Option.some.inj hqr
    exact (posted_eq.mp (Option.mem_toList.mp hq)).1

theorem heard_step {i : Nat} (hs : (g.party side).history.step act = some h')
    (hp : g.permits side act = true) (hi : (g.party side).requests[i]? = some r) :
    h'.infos r = if i < (if g.receives side act then (g.party side.other).taken + 1
      else (g.party side.other).taken) then ((g.party side.other).lane[i]?.map Prod.snd).toList else [] := by
  have hmem := List.mem_of_getElem? hi
  rcases History.step_heard hs (h.known r hmem) with ⟨hno, hinfos, -⟩ | ⟨hh, hinfos, -⟩
  · rw [hinfos, h.heard i r hi]
    by_cases hrec : g.receives side act = true
    · -- The message is for the last request, which is another one.
      obtain ⟨q, hq, hh⟩ := (receives_iff hs).mp hrec
      obtain ⟨j, hj⟩ := List.mem_iff_getElem?.mp hq
      obtain ⟨-, -, htaken, hlen⟩ := h.hears hh hj
      have hne : i ≠ j := by
        rintro rfl
        rw [Option.some.inj (hj.symm.trans hi)] at hh
        exact hno hh
      have hlt := (List.getElem?_eq_some_iff.mp hi).1
      rw [length_requests] at hlt
      rw [if_pos hrec, if_pos (by omega), if_pos (by omega)]
    · rw [if_neg hrec]
  · obtain ⟨-, hnil, htaken, -⟩ := h.hears hh hi
    obtain ⟨k, hc⟩ := hh.mpiCall hs
    have hnext := permits_recv hp hc hmem
    rw [htaken] at hnext
    rw [if_pos ((receives_iff hs).mpr ⟨r, hmem, hh⟩), if_pos (by omega), hinfos, hnil, hnext]
    rfl

theorem taken_step (hs : (g.party side).history.step act = some h') (hp : g.permits side act = true) :
    (if g.receives side act then (g.party side.other).taken + 1 else (g.party side.other).taken) ≤
        (g.party side).lane.length ∧
      (if g.receives side act then (g.party side.other).taken + 1 else (g.party side.other).taken) ≤
        (g.party side.other).lane.length := by
  split
  · rename_i hrec
    obtain ⟨r, hr, hh⟩ := (receives_iff hs).mp hrec
    obtain ⟨i, hi⟩ := List.mem_iff_getElem?.mp hr
    obtain ⟨-, -, htaken, hlen⟩ := h.hears hh hi
    obtain ⟨k, hc⟩ := hh.mpiCall hs
    obtain ⟨x, hx, -⟩ := Option.map_eq_some_iff.mp (permits_recv hp hc hr)
    have hlt := (List.getElem?_eq_some_iff.mp hx).1
    omega
  · exact h.taken

theorem exchange_step {i : Nat} (hs : (g.party side).history.step act = some h')
    (hp : g.permits side act = true) (hi : (g.party side).requests[i]? = some r)
    (hnone : (h'.proc.reqs r).rdmaExchangeRequestSend = none) : i < (g.party side).taken := by
  have hmem := List.mem_of_getElem? hi
  rcases History.step_exchange hs (h.known r hmem) with heq | ⟨-, ans, rfl, hdone, hc⟩
  · exact h.exchange i r hi (heq ▸ hnone)
  · rcases Bool.or_eq_true_iff.mp hdone with hnull | hflag
    · exact h.exchange i r hi (Option.isNone_iff_eq_none.mp hnull)
    · have hlt := permits_exchange hp hc hflag hmem
      have hidx : (g.party side).requests.idxOf r = i := by
        obtain ⟨hlen, rfl⟩ := List.getElem?_eq_some_iff.mp hi
        exact h.nodup.idxOf_getElem i hlen
      rwa [hidx] at hlt

theorem spinning_step (hs : (g.party side).history.step act = some h') (hr : r ∈ (g.party side).requests)
    (hne : h'.infos r ≠ []) :
    (h'.proc.reqs r).rdmaExchangeRequestSend = none ∨ .receiveInfo r .test ∈ h'.proc.nested := by
  rcases History.step_heard hs (h.known r hr) with ⟨-, hinfos, -⟩ | ⟨⟨ans, below, rfl, hn⟩, -, -⟩
  · exact History.step_spinning hs (h.known r hr) (h.spinning r hr (hinfos ▸ hne))
  · simp only [History.step] at hs
    split at hs
    · rename_i p c hrun
      split at hs <;> simp only [reduceCtorEq, Option.some.injEq] at hs
      subst hs
      refine Or.inr ?_
      rw [History.setProc, (Proc.run_receive hn hrun).2.2]
      exact List.mem_cons_self
    · simp at hs

theorem freed_step (hs : (g.party side).history.step act = some h') (hr : r ∈ (g.party side).requests)
    (hconn : act = .free r → ((g.party side).history.proc.reqs r).type = .send ∨
      ((g.party side).history.proc.reqs r).type = .recv) (hout : r ∉ h'.proc.requestList) :
    Freed { g.party side with
        history := h', posts := (g.party side).posts ++ (g.posted side act).toList.map some }
      (g.party side.other) r := by
  have hknown := h.known r hr
  by_cases hin : r ∈ (g.party side).history.proc.requestList
  · obtain ⟨rfl, hfree, hact⟩ := (History.listCase h.history hs).frees hin hout
    have hc := hconn rfl
    obtain ⟨hone, hmet⟩ := (h.counts r hr).rest h.history hknown (h.kind r hr) hfree hact hc
    have hexch : ((g.party side).history.proc.reqs r).rdmaExchangeRequestSend = none := by
      rcases h.history.told trivial r hknown with ⟨-, hz⟩ | ⟨info, hinfo, -⟩
      · exact absurd (congrArg RdmaInfo.dataAddr hz) (h.history.nesting.connected r hknown hc)
      · refine (h.spinning r hr (by simp [hinfo])).resolve_right ?_
        simp [hfree.2]
    have hsame := (History.step_handshake hs fun _ => HistoryAct.noConfusion).2.2 r hknown
    have hposted : g.posted side (.free r) = none := rfl
    refine ⟨hsame.type ▸ hc, hsame.exchange.trans hexch, ?_, ?_⟩
    · simpa [hposted] using hone
    · simpa [hposted, Met] using hmet
  · obtain ⟨hc, hexch, hone, hmet⟩ := h.freed r hr hin
    have hposted : some r ∉ (g.posted side act).toList.map some := by
      intro hmem
      obtain ⟨q, hq, hqr⟩ := List.mem_map.mp hmem
      obtain rfl : q = r := Option.some.inj hqr
      exact hin (posted_listed h hs (Option.mem_toList.mp hq))
    refine ⟨History.step_connected h.history hs hknown hc, ?_, ?_, hmet.append hposted⟩
    · exact (History.step_exchange hs hknown).elim (fun heq => heq.trans hexch) And.left
    · rw [List.count_append, List.count_eq_zero_of_not_mem hposted]
      exact hone

/-- **A process goes on.** -/
theorem sound_own (hs : (g.party side).history.step act = some h') (hp : g.permits side act = true)
    (ho : g.Orderly (.proc side act)) :
    Sound side ((g.follow side h' act).party side) ((g.follow side h' act).party side.other) := by
  have hcase := History.listCase h.history hs
  simp only [follow, set_own, set_other]
  refine ⟨History.inv_step h.history (fun _ => ho.nonNull side act rfl) hs,
    fun r hr => Nat.lt_of_lt_of_le (h.known r hr) hcase.nextRid, h.nodup,
    fun r hr => (History.step_isRecv h.history hs (h.known r hr)).trans (h.kind r hr),
    fun r hr => hcase.freed (h.known r (List.dropLast_subset _ hr)) (h.one r hr),
    fun r hr hout => ?_, fun i r hi => heard_step h hs hp hi, taken_step h hs hp,
    fun i r hi => exchange_step h hs hp hi, fun r hr => spinning_step h hs hr, groups_step h hs,
    fun r hr => counts_step h hs hp hr⟩
  obtain ⟨hc, hexch, hone, hmet⟩ := freed_step h hs hr
    (fun hact => ho.connected side r hr (by rw [hact])) hout
  exact ⟨hc, hexch, hone, hmet⟩

end

/-! ### A new request, and plain calls -/

section
variable {g g' : Generations} {side : Side} {r : Rid}

theorem mem_requests_of_mem_posts {a b : Party} (h : Sound side a b) (hr : some r ∈ a.posts) :
    r ∈ a.requests :=
  h.groups.subset (List.reduceOption_mem_iff.mpr hr)

/-- **A request of the envelope is initialised.** -/
theorem sound_init {args : Proc.InitArgs} {h' : History} {info : RdmaInfo}
    (h : Sound side (g.party side) (g.party side.other))
    (hout : ∀ r ∈ (g.party side).requests, r ∉ (g.party side).history.proc.requestList)
    (hs : (g.party side).history.step (side.init args) = some h') :
    Sound side { g.party side with
        history := h', lane := (g.party side).lane ++ [((g.party side).history.proc.nextRid, info)] }
      (g.party side.other) := by
  have hact : ∀ ans, side.init args ≠ .run ans := by
    cases side <;> exact fun _ => HistoryAct.noConfusion
  obtain ⟨hnested, hinfos, hreqs⟩ := History.step_handshake hs hact
  have hnext : h'.proc.nextRid = (g.party side).history.proc.nextRid + 1 ∧
      h'.proc.requestList = (g.party side).history.proc.nextRid :: (g.party side).history.proc.requestList ∧
      (h'.proc.reqs (g.party side).history.proc.nextRid).rdmaExchangeRequestSend ≠ none ∧
      (h'.proc.reqs (g.party side).history.proc.nextRid).type.isRecv = decide (side = .receiver) ∧
      ∀ met : Prop, met → Counted side h' (g.party side).history.proc.nextRid 0 met := by
    obtain ⟨-, hposted, hdelivered⟩ := h.history.fresh (g.party side).history.proc.nextRid (Nat.le_refl _)
    cases side <;> simp only [Side.init, History.step] at hs <;> split at hs <;>
      simp only [reduceCtorEq, Option.some.injEq] at hs <;> rename_i hfree <;> subst hs
    · refine ⟨rfl, rfl, by simp [History.setProc, Proc.initRequest], by
        simp [History.setProc, Proc.initRequest, RequestType.isRecv], fun met hmet => ?_⟩
      exact Proc.sent_init args .zero hfree.1 hmet
    · refine ⟨rfl, rfl, by simp [History.setProc, Proc.initRequest], by
        simp [History.setProc, Proc.initRequest, RequestType.isRecv], fun met hmet => ?_⟩
      exact ⟨hposted, fun _ => hmet⟩
  obtain ⟨hnext, hlist, hexch, hkind, hcounted⟩ := hnext
  have hinfo := (h.history.fresh _ (Nat.le_refl _)).1
  have hcall : (g.party side).history.mpiCall (side.init args) = none := by cases side <;> rfl
  have hfresh : (g.party side).history.proc.nextRid ∉ (g.party side).requests :=
    fun hmem => Nat.lt_irrefl _ (h.known _ hmem)
  have hsplit : ∀ r, r ∈ (g.party side).requests ++ [(g.party side).history.proc.nextRid] →
      r ∈ (g.party side).requests ∨ r = (g.party side).history.proc.nextRid := by simp
  have hplace : ∀ (i : Nat) (r : Rid),
      ((g.party side).requests ++ [(g.party side).history.proc.nextRid])[i]? = some r →
        (g.party side).requests[i]? = some r ∨
          (i = (g.party side).lane.length ∧ r = (g.party side).history.proc.nextRid) := by
    intro i r hi
    rcases Nat.lt_or_ge i (g.party side).requests.length with hlt | hge
    · rw [List.getElem?_append_left hlt] at hi
      exact Or.inl hi
    · rw [List.getElem?_append_right hge, List.getElem?_singleton] at hi
      split at hi <;> rename_i hz
      · rw [length_requests] at hge hz
        exact Or.inr ⟨by omega, (Option.some.inj hi).symm⟩
      · cases hi
  have hrequests : Party.requests { g.party side with
      history := h', lane := (g.party side).lane ++ [((g.party side).history.proc.nextRid, info)] } =
        (g.party side).requests ++ [(g.party side).history.proc.nextRid] := by
    simp [Party.requests]
  have hone : ∀ y, (g.party side).requests.getLast? = some y →
      (g.party side).posts.reduceOption.count y = 1 := by
    intro y hy
    have hmem := List.mem_of_getLast? hy
    rw [count_reduceOption]
    exact (h.freed y hmem (hout y hmem)).one
  constructor
  case history => exact History.inv_step h.history (fun _ ans r below ha => absurd ha (hact ans)) hs
  case taken =>
    refine ⟨Nat.le_trans h.taken.1 ?_, h.taken.2⟩
    simp
  case groups =>
    rw [hrequests]
    exact h.groups.owner h.nodup hone
  all_goals rw [hrequests]
  case known =>
    intro r hr
    rw [hnext]
    rcases hsplit r hr with hr | rfl
    · exact Nat.lt_succ_of_lt (h.known r hr)
    · exact Nat.lt_succ_self _
  case nodup => exact h.nodup.append (List.nodup_singleton _) (List.disjoint_singleton.mpr hfresh)
  case kind =>
    intro r hr
    rcases hsplit r hr with hr | rfl
    · rw [(hreqs r (h.known r hr)).type]
      exact h.kind r hr
    · exact hkind
  case one =>
    intro r hr
    rw [List.dropLast_concat] at hr
    rw [hlist, List.mem_cons, not_or]
    exact ⟨fun heq => hfresh (heq ▸ hr), hout r hr⟩
  case freed =>
    intro r hr hno
    rcases hsplit r hr with hr | rfl
    · have hsame := hreqs r (h.known r hr)
      obtain ⟨hc, hx, hcount, hmet⟩ := h.freed r hr (hout r hr)
      exact ⟨by rwa [hsame.type], hsame.exchange.trans hx, hcount, hmet⟩
    · exact absurd List.mem_cons_self (hlist ▸ hno)
  case heard =>
    intro i r hi
    rw [hinfos]
    rcases hplace i r hi with hi | ⟨rfl, rfl⟩
    · exact h.heard i r hi
    · rw [hinfo, if_neg (Nat.not_lt_of_le h.taken.1)]
  case exchange =>
    intro i r hi hnone
    rcases hplace i r hi with hi | ⟨rfl, rfl⟩
    · rw [(hreqs r (h.known r (List.mem_of_getElem? hi))).exchange] at hnone
      exact h.exchange i r hi hnone
    · exact absurd hnone hexch
  case spinning =>
    intro r hr hne
    rw [hinfos] at hne
    rcases hsplit r hr with hr | rfl
    · rw [hnested, (hreqs r (h.known r hr)).exchange]
      exact h.spinning r hr hne
    · exact absurd hinfo hne
  case counts =>
    intro r hr
    rcases hsplit r hr with hr | rfl
    · have hstep : Counted side h' r ((g.party side).posts.count (some r) +
          side.adds r ((g.party side).history.mpiCall (side.init args)))
            (Met (g.party side) (g.party side.other) r) :=
        (h.counts r hr).step h.history hs (h.known r hr) (h.kind r hr)
          (fun ans x ha => absurd ha (hact ans))
          (fun ha => absurd ha (by cases side <;> exact HistoryAct.noConfusion)) fun _ hmet => hmet
      have hzero : side.adds r ((g.party side).history.mpiCall (side.init args)) = 0 := by
        simp [hcall, Side.adds]
      rw [hzero] at hstep
      exact hstep
    · have hnone : some (g.party side).history.proc.nextRid ∉ (g.party side).posts :=
        fun hmem => hfresh (mem_requests_of_mem_posts h hmem)
      show Counted side h' _ ((g.party side).posts.count _) _
      rw [List.count_eq_zero_of_not_mem hnone]
      exact hcounted _ fun hmem => hnone (List.mem_of_mem_drop hmem)

/-- A plain call takes a place of its own. -/
theorem sound_plain (h : Sound side (g.party side) (g.party side.other)) :
    Sound side { g.party side with posts := (g.party side).posts ++ [none] } (g.party side.other) := by
  have hcount : ∀ r : Rid, ((g.party side).posts ++ [none]).count (some r) = (g.party side).posts.count (some r) := by
    intro r
    simp [List.count_append]
  have hmet : ∀ r, Met (g.party side) (g.party side.other) r →
      Met { g.party side with posts := (g.party side).posts ++ [none] } (g.party side.other) r :=
    fun r hm => hm.append (by simp)
  refine ⟨h.history, h.known, h.nodup, h.kind, h.one, fun r hr hout => ?_, h.heard, h.taken, h.exchange,
    h.spinning, ?_, fun r hr => ?_⟩
  · obtain ⟨hc, hx, hone, hm⟩ := h.freed r hr hout
    exact ⟨hc, hx, (hcount r).trans hone, hmet r hm⟩
  · have hsame : ((g.party side).posts ++ [none]).reduceOption = (g.party side).posts.reduceOption := by
      simp [List.reduceOption_append]
    show Grouped (g.party side).requests ((g.party side).posts ++ [none]).reduceOption
    rw [hsame]
    exact h.groups
  · show Counted side _ r (((g.party side).posts ++ [none]).count (some r)) _
    rw [hcount]
    exact (h.counts r hr).mono (hmet r)

end

/-! ### The run -/

/-- The invariant. -/
structure Inv (g : Generations) : Prop where
  sound : ∀ side, Sound side (g.party side) (g.party side.other)
  kinds : ∀ side, SameKinds (g.party side).posts (g.party side.other).posts

section
variable {g g' : Generations} {act : GenerationAct}

/-- It is enough to look at the process that goes on. -/
theorem Inv.set (hi : g.Inv) {side : Side} {own : Party} {taken : Nat}
    (hsound : Sound side own { g.party side.other with taken := taken })
    (hlane : (g.party side).lane <+: own.lane) (htaken : own.taken = (g.party side).taken)
    (hle : (g.party side.other).taken ≤ taken)
    (hposts : own.posts = (g.party side).posts ∨ ∃ x, own.posts = (g.party side).posts ++ [x] ∧
      ∀ y, (g.party side.other).posts[(g.party side).posts.length]? = some y → x.isSome = y.isSome) :
    Inv (g.set side own { g.party side.other with taken := taken }) := by
  have hother : Sound side.other { g.party side.other with taken := taken } own := by
    have h := hi.sound side.other
    rw [other_other] at h
    refine h.other hlane ?_ htaken hle
    rcases hposts with heq | ⟨x, heq, -⟩ <;> simp [heq]
  have hkinds : SameKinds own.posts (g.party side.other).posts := by
    rcases hposts with heq | ⟨x, heq, hx⟩
    · rw [heq]
      exact hi.kinds side
    · rw [heq]
      exact (hi.kinds side).append hx
  have hcase : ∀ s : Side, s = side ∨ s = side.other := by
    cases side <;> intro s <;> cases s <;> simp [Side.other]
  constructor
  · intro s
    rcases hcase s with rfl | rfl
    · rwa [set_own, set_other]
    · rwa [other_other, set_own, set_other]
  · intro s
    rcases hcase s with rfl | rfl
    · rwa [set_own, set_other]
    · rw [other_other, set_own, set_other]
      exact hkinds.symm

theorem inv_init (h0 : Init g) : g.Inv := by
  refine ⟨fun side => ?_, fun side k x y hx => ?_⟩
  · have hnil : (g.party side).requests = [] := by simp [Party.requests, h0.lane]
    have hno : ∀ {r}, r ∉ (g.party side).requests := by simp [hnil]
    refine ⟨History.inv_init (h0.history side), fun r hr => absurd hr hno, by simp [hnil],
      fun r hr => absurd hr hno, by simp [hnil], fun r hr => absurd hr hno, by simp [hnil], by simp [h0.taken],
      by simp [hnil], fun r hr => absurd hr hno, ?_, fun r hr => absurd hr hno⟩
    rw [hnil, h0.posts]
    exact .nil
  · simp [h0.posts] at hx

/-- **Step lemma.** -/
theorem inv_step (hi : g.Inv) (ho : g.Orderly act) (hs : g.step act = some g') : g'.Inv := by
  cases act with
  | init side args dataRkey flagRkey =>
      simp only [step] at hs
      split at hs
      · rename_i hok
        obtain ⟨h', hstep, rfl⟩ := Option.map_eq_some_iff.mp hs
        exact hi.set (sound_init (hi.sound side) hok.2 hstep) (List.prefix_append _ _) rfl (Nat.le_refl _)
          (Or.inl rfl)
      · cases hs
  | proc side act =>
      simp only [step] at hs
      split at hs
      · rename_i h' hstep
        split at hs <;> simp only [reduceCtorEq, Option.some.injEq] at hs
        rename_i hp
        subst hs
        have hown := sound_own (hi.sound side) hstep hp ho
        rw [follow, set_own, set_other] at hown
        refine hi.set hown (List.prefix_refl _) rfl ?_ ?_
        · split <;> omega
        · cases hq : g.posted side act with
          | none => exact Or.inl (by simp)
          | some q =>
              refine Or.inr ⟨some q, by simp, fun y hy => ?_⟩
              cases y with
              | none => exact absurd hy (ho.unmixed (by simp [hq]))
              | some _ => rfl
      · cases hs
  | plain side =>
      simp only [step] at hs
      split at hs <;> simp only [reduceCtorEq, Option.some.injEq] at hs
      subst hs
      refine hi.set (sound_plain (hi.sound side)) (List.prefix_refl _) rfl (Nat.le_refl _)
        (Or.inr ⟨none, rfl, fun y hy => ?_⟩)
      cases y with
      | none => rfl
      | some q => exact absurd hy (ho.unmixed q)

/-! ### Whose addresses are stored -/

/-- The `i`-th requests of the two processes belong together. -/
theorem Inv.partners (hi : g.Inv) {side : Side} {i : Nat} {r s : Rid}
    (hr : (g.party side).requests[i]? = some r) (hs : (g.party side.other).requests[i]? = some s) :
    Partners (g.party side) (g.party side.other) r s := by
  have ha := hi.sound side
  have hb := hi.sound side.other
  refine ⟨fun k hk hlt => ?_, fun k hk hlt => ?_⟩
  · exact first_of_first (hi.kinds side) ha.groups hb.groups ha.nodup hb.nodup hr hs hk hlt
  · exact first_of_first (hi.kinds side).symm hb.groups ha.groups hb.nodup ha.nodup hs hr hk hlt

/-- A request was told of the one at its own place. -/
theorem Inv.told (hi : g.Inv) {side : Side} {i : Nat} {r : Rid} (hget : (g.party side).requests[i]? = some r)
    (hne : (g.party side).history.infos r ≠ []) :
    ∃ s info, (g.party side.other).lane[i]? = some (s, info) ∧
      (g.party side).history.proc.remote r = info := by
  have ha := hi.sound side
  have heard := ha.heard i r hget
  split at heard
  case isFalse => exact absurd heard hne
  rename_i hlt
  have hlane : i < (g.party side.other).lane.length := Nat.lt_of_lt_of_le hlt ha.taken.2
  obtain ⟨⟨s, info⟩, hx⟩ : ∃ x, (g.party side.other).lane[i]? = some x :=
    ⟨_, List.getElem?_eq_getElem hlane⟩
  refine ⟨s, info, hx, ?_⟩
  have hrem := ha.history.bounded.remote r (ha.known r (List.mem_of_getElem? hget))
  rwa [heard, hx] at hrem

/-- A request that was freed has met the one at its place. -/
theorem Inv.freed (hi : g.Inv) {side : Side} {i : Nat} {r s : Rid}
    (hr : (g.party side).requests[i]? = some r) (hs : (g.party side.other).requests[i]? = some s)
    (hout : s ∉ (g.party side.other).history.proc.requestList) :
    ∃ k, First (g.party side).posts r k ∧ First (g.party side.other).posts s k := by
  obtain ⟨-, -, hone, hmet⟩ := (hi.sound side.other).freed s (List.mem_of_getElem? hs) hout
  obtain ⟨k, hk⟩ := exists_first (List.count_pos_iff.mp (by omega : 0 < (g.party side.other).posts.count (some s)))
  rw [Met, other_other] at hmet
  refine ⟨k, (hi.partners hr hs).right k hk ?_, hk⟩
  by_contra hge
  refine hmet (List.mem_of_getElem? (i := k - (g.party side).posts.length) ?_)
  rw [List.getElem?_drop, Nat.add_sub_cancel' (Nat.le_of_not_lt hge)]
  exact hk.1

/-- A message is received while its request is not freed. -/
theorem Inv.alive (hi : g.Inv) {side : Side} {i : Nat} {r : Rid} (hs : g.step act = some g')
    (hget : (g.party side).requests[i]? = some r)
    (hne : (g'.party side).history.infos r ≠ (g.party side).history.infos r) :
    ∃ s info, (g.party side.other).lane[i]? = some (s, info) ∧
      (g'.party side).history.proc.remote r = info ∧
      s ∈ (g.party side.other).history.proc.requestList := by
  have ha := hi.sound side
  have hb := hi.sound side.other
  have hr := List.mem_of_getElem? hget
  have hcase : ∀ s : Side, s = side ∨ side = s.other := by
    cases side <;> intro s <;> cases s <;> simp [Side.other]
  cases act with
  | init s args dataRkey flagRkey =>
      simp only [step] at hs
      split at hs
      · obtain ⟨h', hstep, rfl⟩ := Option.map_eq_some_iff.mp hs
        rcases hcase s with rfl | rfl
        · rw [set_own] at hne
          refine absurd (congrFun ?_ r) hne
          exact (History.step_handshake hstep (by cases s <;> exact fun _ => HistoryAct.noConfusion)).2.1
        · exact absurd (by rw [set_other]) hne
      · cases hs
  | plain s =>
      simp only [step] at hs
      split at hs <;> simp only [reduceCtorEq, Option.some.injEq] at hs
      subst hs
      rcases hcase s with rfl | rfl
      · exact absurd (by rw [set_own]) hne
      · exact absurd (by rw [set_other]) hne
  | proc s act =>
      simp only [step] at hs
      split at hs
      · rename_i h' hstep
        split at hs <;> simp only [reduceCtorEq, Option.some.injEq] at hs
        rename_i hp
        subst hs
        rcases hcase s with rfl | rfl
        · simp only [follow, set_own] at hne ⊢
          rcases History.step_heard hstep (ha.known r hr) with ⟨-, hinfos, -⟩ | ⟨hh, -, hrem⟩
          · exact absurd (by rw [hinfos]) hne
          obtain ⟨-, -, htaken, -⟩ := ha.hears hh hget
          obtain ⟨k, hc⟩ := hh.mpiCall hstep
          obtain ⟨⟨q, info⟩, hx, hinfo⟩ := Option.map_eq_some_iff.mp (permits_recv hp hc hr)
          rw [htaken] at hx
          refine ⟨q, info, hx, hrem.trans hinfo.symm, ?_⟩
          -- The message of a request that was freed was received before.
          by_contra hout
          have hq : (g.party s.other).requests[i]? = some q := by
            rw [getElem?_requests, hx, Option.map_some]
          have hlt := hb.exchange i q hq (hb.freed q (List.mem_of_getElem? hq) hout).exchange
          omega
        · exact absurd (by simp only [follow, set_other]) hne
      · cases hs

/-- What is stored for a request, or will be, is of the request at its place. -/
theorem Inv.stored (hi : g.Inv) {side : Side} {i : Nat} {r s : Rid} {info : RdmaInfo}
    (hget : (g.party side).requests[i]? = some r)
    (hx : (g.party side.other).lane[i]? = some (s, info)) : g.Stored side r s info := by
  have hs : (g.party side.other).requests[i]? = some s := by rw [getElem?_requests, hx, Option.map_some]
  refine ⟨⟨i, hget, hx⟩, hi.partners hget hs, ?_, fun _ hout => hi.freed hget hs hout, ?_⟩
  · intro hne
    obtain ⟨s', info', hx', hrem⟩ := hi.told hget hne
    cases hx.symm.trans hx'
    exact hrem
  · intro act g' hstep hne
    obtain ⟨s', info', hx', hrem, hmem⟩ := hi.alive hstep hget hne
    cases hx.symm.trans hx'
    exact ⟨hrem, hmem⟩

theorem Inv.correct (hi : g.Inv) (side : Side) : g.Correct side := by
  intro r hr h
  obtain ⟨i, hget⟩ := List.mem_iff_getElem?.mp hr
  rcases h with hne | ⟨act, g', hstep, hne⟩
  · obtain ⟨s, info, hx, -⟩ := hi.told hget hne
    exact ⟨s, info, hi.stored hget hx⟩
  · obtain ⟨s, info, hx, -⟩ := hi.alive hstep hget hne
    exact ⟨s, info, hi.stored hget hx⟩

/--
**What is stored for a request is of the request its first operation goes with**, and of
none that was freed, if requests are freed only when they are connected and no
operation of theirs goes with a plain call.
-/
theorem generations_correct (h : Reach step Orderly Init g) (side : Side) : g.Correct side :=
  (h.invariant (fun _ h0 => inv_init h0) fun _ _ _ hi ho hs => inv_step hi ho hs).correct side

end

/-! ### Runs -/

/-- Nothing was done yet. -/
def freshGenerations : Generations :=
  ⟨0, fun side => ⟨History.freshHistory, if side = .sender then 1 else 0, [], 0, []⟩⟩

theorem freshGenerations_init : Init freshGenerations :=
  ⟨fun _ => History.freshHistory_init, fun _ => rfl, fun _ => rfl, fun _ => rfl⟩

/-- `n` steps of a process in which every probe and test answers `flag`. -/
def runs (side : Side) (n : Nat) (flag : Bool) : List GenerationAct :=
  List.replicate n (.proc side (.run ⟨true, flag⟩))

/-- Two requests are initialised with these buffers, and their first operation is started. -/
def meet (r : Rid) (sendBuf recvBuf : Addr) : List GenerationAct :=
  [.init .sender ⟨sendBuf, 2, 1, 0, sendBuf + 4⟩ 0 0, .init .receiver ⟨recvBuf, 2, 0, 0, recvBuf + 4⟩ 0 0,
    .proc .sender (.announces r ⟨recvBuf, recvBuf + 4, 0, 0⟩),
    .proc .receiver (.announces r ⟨sendBuf, sendBuf + 4, 0, 0⟩), .proc .sender (.start r)] ++
    runs .sender 3 true ++ runs .sender 1 false ++ [.proc .receiver (.start r)] ++ runs .receiver 7 true

/-- They finish it, and are freed. -/
def part (r : Rid) : List GenerationAct :=
  runs .sender 5 true ++ [.proc .receiver (.delivers r), .proc .receiver (.wait r)] ++
    runs .receiver 7 true ++ [.proc .sender (.wait r)] ++ runs .sender 8 true ++
    [.proc .sender (.free r), .proc .receiver (.free r)]

/-- The second requests of the envelope meet after the first ones. -/
def secondMeeting : List GenerationAct := meet 0 16 48 ++ part 0 ++ meet 1 32 64

/-- The conditions on the steps, as a test. -/
def orderly (g : Generations) (act : GenerationAct) : Bool :=
  match act with
  | .init _ _ _ _ => true
  | .plain side => ((g.party side.other).posts[(g.party side).posts.length]?.join).isNone
  | .proc side act =>
      History.nonNull (g.party side).history act &&
        (!(g.posted side act).isSome ||
          decide ((g.party side.other).posts[(g.party side).posts.length]? ≠ some none)) &&
        match act with
        | .free r => decide (((g.party side).history.proc.reqs r).type = .send ∨
            ((g.party side).history.proc.reqs r).type = .recv)
        | _ => true

theorem orderly_sound (g : Generations) (act : GenerationAct) (ht : orderly g act = true) :
    g.Orderly act := by
  cases act with
  | init side args dataRkey flagRkey =>
      exact ⟨fun _ _ _ => GenerationAct.noConfusion, trivial, fun _ _ => GenerationAct.noConfusion⟩
  | plain side =>
      refine ⟨fun _ _ _ => GenerationAct.noConfusion, fun r hr => ?_, fun _ _ => GenerationAct.noConfusion⟩
      simp [orderly, hr] at ht
  | proc side act =>
      obtain ⟨ht, hfree⟩ := Bool.and_eq_true_iff.mp ht
      obtain ⟨hnull, hmixed⟩ := Bool.and_eq_true_iff.mp ht
      refine ⟨?_, fun hp => ?_, ?_⟩
      · rintro s r - ⟨⟩
        simpa using hfree
      · simpa [hp] using hmixed
      · rintro s a ⟨⟩
        exact History.nonNull_sound _ _ hnull

theorem second_correct :
    match runFrom (guarded orderly step) freshGenerations secondMeeting with
    | some g => g.Correct .receiver ∧ (g.party .receiver).history.infos 1 = [⟨32, 36, 0, 0⟩] ∧
        (g.party .sender).lane = [(0, ⟨16, 20, 0, 0⟩), (1, ⟨32, 36, 0, 0⟩)]
    | none => False := by
  have hrun : (runFrom (guarded orderly step) freshGenerations secondMeeting).any (fun g => decide
        ((g.party .receiver).history.infos 1 = [⟨32, 36, 0, 0⟩] ∧
          (g.party .sender).lane = [(0, ⟨16, 20, 0, 0⟩), (1, ⟨32, 36, 0, 0⟩)])) = true := by
    decide +kernel
  cases heq : runFrom (guarded orderly step) freshGenerations secondMeeting with
  | none => simp [heq] at hrun
  | some g =>
      simp only [heq, Option.any_some, decide_eq_true_eq] at hrun
      exact ⟨generations_correct (.of_guarded orderly_sound _ (.init freshGenerations_init) heq) .receiver,
        hrun⟩

/-- Request 0 of the sender goes with a plain receive, falls back and is freed.  The first request
of the receiver is told the address of that buffer. -/
def staleRun : List GenerationAct :=
  [.init .sender ⟨16, 2, 1, 0, 20⟩ 0 0, .proc .sender (.start 0)] ++ runs .sender 4 false ++
    [.plain .receiver, .proc .sender (.wait 0)] ++ runs .sender 4 false ++ runs .sender 4 true ++
    [.proc .sender (.free 0), .init .sender ⟨32, 2, 1, 0, 36⟩ 0 0, .init .receiver ⟨48, 2, 0, 0, 52⟩ 0 0,
      .proc .receiver (.announces 0 ⟨16, 20, 0, 0⟩), .proc .receiver (.start 0)] ++
    runs .receiver 1 false ++ runs .receiver 2 true

example : (runFrom step freshGenerations staleRun).any (fun g => decide
    ((g.party .receiver).history.infos 0 = [⟨16, 20, 0, 0⟩] ∧
      (g.party .sender).history.proc.requestList = [1] ∧
        (g.party .sender).lane = [(0, ⟨16, 20, 0, 0⟩), (1, ⟨32, 36, 0, 0⟩)])) = true := by
  decide

end Generations

end CompMatch.Rendezvous

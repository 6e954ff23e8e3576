/-
Resources are accounted for.

An operation that is under way uses a key and a region, so what matters is when a request
can have one: only while it is started and connected, and its sender only outside its
user's hands.  A request that is freed has nothing under way.  What was acquired and what
was given back can then be read off the state (`Acquired`, `GivenBack`), and every step
enters in the ledger exactly what it changes of that.

This needs requests that are connected when they are freed, counterparts whose buffers
are not `NULL`, and announcements that are flushed before the word is written again.
-/
import CompMatch.Proofs.Rendezvous.SendOps
import CompMatch.Proofs.Rendezvous.AllPaths
import CompMatch.Proofs.Rendezvous.History
import CompMatch.Rendezvous.Resources

namespace CompMatch.Rendezvous

open CompMatch.Ledger

/-! ### Who has anything under way -/

section
variable {w w' : World} {r : Rid}

/-- Every receive request has its sender. -/
theorem World.DataInv.conn (h : World.DataInv w) (hr : r < w.proc.nextRid)
    (hrecv : (w.proc.reqs r).type.isRecv = true) : ∃ a, Conn w r a := by
  cases ht : (w.proc.reqs r).type with
  | recv => exact h.flags.inv.conn r hr (Or.inl ht)
  | recvSearch => exact h.flags.inv.conn r hr (Or.inr ht)
  | recvFallback =>
      obtain ⟨a, ha, -⟩ := (h.fallen r hr ht).conn
      exact ⟨a, ha⟩
  | _ => simp [ht, RequestType.isRecv] at hrecv

/-- What is under way is seen by the request it was posted for. -/
theorem Proc.view_ne_nil {p : Proc} {x : Posted (Rid × RdmaOp)} (hx : x ∈ p.worker.pending) :
    (p.view x.op.1).worker.pending ≠ [] := by
  refine List.ne_nil_of_mem (a := (⟨x.stamp, x.after, x.op.2⟩ : Posted RdmaOp)) ?_
  simp only [view, Local.view, loc, Worker.view, List.mem_filterMap]
  exact ⟨x, hx, by simp [Worker.Posted.view, operationOf]⟩

/-- **Whatever is under way** was posted for a request that is started and connected. -/
theorem World.DataInv.posted (h : World.DataInv w) (hops : ∀ r < w.proc.nextRid, w.proc.SendOps r)
    {x : Posted (Rid × RdmaOp)} (hx : x ∈ w.proc.worker.pending) :
    (w.proc.reqs x.op.1).type.isRdma = true ∧ w.proc.active x.op.1 = true := by
  have hlt := h.flags.inv.known.pending x hx
  have hne := Proc.view_ne_nil hx
  have hsend := hops x.op.1 hlt
  have hunconnected : (w.proc.reqs x.op.1).type.isRecv = false → (w.proc.reqs x.op.1).type = .send := by
    intro hrecv
    by_contra hno
    exact hne (hsend.unconnected hrecv hno).1
  cases ht : (w.proc.reqs x.op.1).type with
  | send =>
      refine ⟨rfl, ?_⟩
      by_contra hact
      have hat := hsend.connected ht
      rw [show w.proc.sendPc x.op.1 = .idle by simp [Proc.sendPc, hact]] at hat
      exact hne hat.1
  | recv =>
      refine ⟨rfl, ?_⟩
      by_contra hact
      obtain ⟨a, ha⟩ := h.flags.inv.conn x.op.1 hlt (Or.inl ht)
      exact hne ((ha.receives.connected ht).pending (by simpa using hact))
  | recvSearch =>
      obtain ⟨a, ha⟩ := h.flags.inv.conn x.op.1 hlt (Or.inr ht)
      exact absurd (ha.receives.searching ht).pending hne
  | recvFallback => exact absurd (h.fallen x.op.1 hlt ht).pending hne
  | sendSearch =>
      have hsend := hunconnected (by rw [ht]; rfl)
      simp [ht] at hsend
  | sendFallback =>
      have hsend := hunconnected (by rw [ht]; rfl)
      simp [ht] at hsend

/-- Between its operations the sender of a receive request has nothing under way. -/
theorem World.DataInv.peer_rests (h : World.DataInv w) (hr : r < w.proc.nextRid)
    (hrecv : (w.proc.reqs r).type.isRecv = true) (hidle : (w.peers r).pc = .idle) :
    (w.peers r).loc.worker.pending = [] := by
  obtain ⟨a, ha⟩ := h.conn hr hrecv
  obtain ⟨fl, hC, hA⟩ := ha.sends.rel.sim
  rw [hidle] at hA
  obtain ⟨-, rfl, -⟩ := hA
  exact hC.pending

/-- A payload that is fetched finds the operation under way. -/
theorem World.DataInv.get_lands {i : Nat} {x : Posted (Rid × RdmaOp)} (h : World.DataInv w)
    (hx : w.proc.worker.enabled? i = some x) (ht : (w.proc.reqs x.op.1).type = .recv)
    (hflag : x.op.2.isFlag = false) : w.Underway x.op.1 := by
  have hlt := h.flags.inv.known.pending x (List.mem_of_getElem? (Worker.enabled?_eq_some.mp hx).1)
  obtain ⟨a, ha, hun⟩ := h.untorn x.op.1 hlt (Or.inl ht)
  have hget : x.op.2.isGet = true := by
    have hown : operationOf x.op.1 x.op = some x.op.2 := if_pos rfl
    obtain ⟨j, hj, -⟩ := Worker.view_enabled? hx hown
    rcases (ha.receives.connected ht).rel.lands hj with ⟨hop, -⟩ | ⟨hop, -⟩
    · have hop' : x.op.2 = .flag (w.proc.reqs x.op.1).operationNumber
          (w.proc.reqs x.op.1).remoteFlagAddr := hop
      simp [hop', RdmaOp.isFlag] at hflag
    · have hop' : x.op.2 = payloadOp .get (w.proc.reqs x.op.1) := hop
      rw [hop']
      rfl
  exact (ha.get_lands hun ht hx rfl hget).2

/-- So does a payload that is pushed. -/
theorem World.DataInv.put_lands {i : Nat} {x : Posted RdmaOp} (h : World.DataInv w)
    (hr : r < w.proc.nextRid) (hrecv : (w.proc.reqs r).type.isRecv = true)
    (hx : (w.peers r).loc.worker.enabled? i = some x) (hflag : x.op.isFlag = false) : w.Underway r := by
  by_cases ht : w.proc.Tracked r
  · obtain ⟨a, ha⟩ := h.flags.inv.conn r hr ht
    exact (ha.put_lands ht hx hflag).2
  · have hfallback : (w.proc.reqs r).type = .recvFallback := by
      unfold Proc.Tracked at ht
      cases hty : (w.proc.reqs r).type <;> simp_all [RequestType.isRecv]
    have hlands := (h.fallen r hr hfallback).put_lands hx
    simp [hflag] at hlands

/-! ### What a step leaves of the handshake -/

/-- Only the process's own steps touch the stack, and the addresses and the send of the info of a
request. -/
theorem step_handshake {act : WorldAct} (hs : w.step act = some w') (hno : ∀ ans, act ≠ .run ans) :
    w'.proc.nested = w.proc.nested ∧ ∀ r < w.proc.nextRid,
      (w'.proc.reqs r).remoteDataAddr = (w.proc.reqs r).remoteDataAddr ∧
        (w'.proc.reqs r).rdmaExchangeRequestSend = (w.proc.reqs r).rdmaExchangeRequestSend := by
  have hflag : ∀ (p : Proc) (q : Rid) (v : Int) (r : Rid),
      ((p.setReq q fun x => { x with flag := v }).reqs r).remoteDataAddr = (p.reqs r).remoteDataAddr ∧
        ((p.setReq q fun x => { x with flag := v }).reqs r).rdmaExchangeRequestSend =
          (p.reqs r).rdmaExchangeRequestSend := by
    intro p q v r
    by_cases hr : r = q
    · subst hr
      simp [Proc.setReq]
    · rw [Proc.setReq_other hr]
      exact ⟨rfl, rfl⟩
  have hinit : ∀ (type : RequestType) (args : Proc.InitArgs) (info : RdmaInfo), ∀ r < w.proc.nextRid,
      (w.proc.initRequest type args info).1.reqs r = w.proc.reqs r :=
    fun type args info r hr => Function.update_of_ne (Nat.ne_of_lt hr) ..
  cases act with
  | run ans => exact absurd rfl (hno ans)
  | sendInit args info =>
      simp only [World.step] at hs
      split at hs <;> simp only [reduceCtorEq, Option.some.injEq] at hs
      subst hs
      refine ⟨rfl, fun r hr => ?_⟩
      rw [World.setProc, hinit _ _ _ r hr]
      exact ⟨rfl, rfl⟩
  | recvInit args info size =>
      simp only [World.step] at hs
      split at hs <;> simp only [reduceCtorEq, Option.some.injEq] at hs
      subst hs
      refine ⟨rfl, fun r hr => ?_⟩
      rw [World.setPeer, World.setProc, hinit _ _ _ r hr]
      exact ⟨rfl, rfl⟩
  | start q =>
      simp only [World.step] at hs
      split at hs <;> simp only [reduceCtorEq, Option.some.injEq] at hs
      subst hs
      refine ⟨(start_frame q).2.1, fun r _ => ?_⟩
      by_cases hr : r = q
      · subst hr
        unfold World.setProc Proc.start
        split <;> simp [Proc.setCall, Proc.setReq, Proc.postBackup, Proc.assert]
      · rw [World.setProc, (start_frame q).2.2.2.2 r hr]
        exact ⟨rfl, rfl⟩
  | wait q =>
      simp only [World.step] at hs
      split at hs <;> simp only [reduceCtorEq, Option.some.injEq] at hs
      subst hs
      refine ⟨(wait_frame q).2.1, fun r _ => ?_⟩
      rw [World.setProc, (wait_frame q).2.2.2.1]
      exact ⟨rfl, rfl⟩
  | lands i =>
      simp only [World.step] at hs
      split at hs <;> simp only [reduceCtorEq, Option.some.injEq] at hs
      rename_i x hx
      subst hs
      rw [(land_frame (w := w.setProc { w.proc with worker := w.proc.worker.retire i })
        x.op.1 x.op.2).1]
      exact ⟨rfl, fun _ _ => ⟨rfl, rfl⟩⟩
  | writeFlag q v =>
      simp only [World.step] at hs
      split at hs <;> simp only [reduceCtorEq, Option.some.injEq] at hs
      subst hs
      exact ⟨rfl, fun r _ => hflag w.proc q v r⟩
  | peerRun q imm =>
      simp only [World.step] at hs
      split at hs
      · split at hs <;> simp only [reduceCtorEq, Option.some.injEq] at hs
        subst hs
        exact ⟨rfl, fun _ _ => ⟨rfl, rfl⟩⟩
      · simp at hs
  | peerLands q i =>
      simp only [World.step] at hs
      split at hs
      · split at hs <;> simp only [reduceCtorEq, Option.some.injEq] at hs
        subst hs
        unfold World.landPeer
        split
        · split <;> exact ⟨rfl, fun _ _ => ⟨rfl, rfl⟩⟩
        · exact ⟨rfl, fun _ _ => ⟨rfl, rfl⟩⟩
        · split
          · exact ⟨rfl, fun r _ => hflag w.proc q _ r⟩
          · exact ⟨rfl, fun _ _ => ⟨rfl, rfl⟩⟩
      · simp at hs
  | _ =>
      simp only [World.step] at hs
      split at hs <;> simp only [reduceCtorEq, Option.some.injEq] at hs
      subst hs
      exact ⟨rfl, fun _ _ => ⟨rfl, rfl⟩⟩

end

/-! ### The invariant -/

namespace Accounts

/-- The condition on the steps of a run. -/
structure Orderly (s : Accounts) (act : AccountsAct) : Prop where
  /-- A request is freed once it has type `RECV_REQUEST_TYPE` or `SEND_REQUEST_TYPE`. -/
  connected : ∀ r, act = .world (.free r) → (s.reqs r).type.isRdma = true
  /-- The counterpart's buffer is not `NULL`. -/
  nonNull : ∀ ans r below, act = .world (.run ans) → s.world.proc.nested = .receiveInfo r .recv :: below →
    (s.world.proc.counterpart r).dataAddr ≠ 0
  flushed : ∀ a, act = .world a → s.world.FlushedFirst a

/-- What has been acquired. -/
def Acquired (s : Accounts) : Resource → Prop
  | .dataRegion .own r | .flagRegion .own r | .infoBuf .own r => r < s.world.proc.nextRid
  | .dataRkey .own r k | .flagRkey .own r k => k = 1 ∧ s.unpacked r = 1
  | .dataRegion .peer r | .flagRegion .peer r | .infoBuf .peer r => r ∈ s.receivers
  | .dataRkey .peer r k | .flagRkey .peer r k => k = 1 ∧ r ∈ s.receivers

/-- What has been given back of it. -/
def GivenBack (s : Accounts) : Resource → Prop
  | .dataRegion .own r | .dataRkey .own r _ => r ∈ s.toFree
  | .dataRegion .peer r | .dataRkey .peer r _ => s.peerFreed r = true
  | .flagRegion _ _ | .flagRkey _ _ _ | .infoBuf _ _ => s.finalized = true

/-- The requests, apart from the ledger. -/
structure Sound (s : Accounts) : Prop where
  data : s.world.DataInv
  sends : ∀ r < s.world.proc.nextRid, s.world.proc.SendOps r
  nesting : s.world.proc.Nesting False
  nodup : s.world.proc.requestList.Nodup
  toFree_nodup : s.toFree.Nodup
  toFree : ∀ r, r ∈ s.toFree ↔ r < s.world.proc.nextRid ∧ r ∉ s.world.proc.requestList
  freed : ∀ r ∈ s.toFree, (s.reqs r).type.isRdma = true ∧ s.world.proc.active r = false ∧
    (s.reqs r).rdmaExchangeRequestSend = none
  unpacked : ∀ r, s.unpacked r =
    if r < s.world.proc.nextRid ∧ (s.reqs r).remoteDataAddr ≠ 0 then 1 else 0
  /-- With the counterpart's info, the own one is across, or waited for. -/
  told : ∀ r < s.world.proc.nextRid, (s.reqs r).remoteDataAddr ≠ 0 →
    (s.reqs r).rdmaExchangeRequestSend = none ∨ .receiveInfo r .test ∈ s.world.proc.nested
  peerFreed : ∀ r, s.peerFreed r = true → r ∈ s.receivers ∧ (s.world.peers r).pc = .idle
  finalized : s.finalized = true →
    s.world.proc.requestList = [] ∧ ∀ r ∈ s.receivers, s.peerFreed r = true

section
variable {s : Accounts} {w : World} {act : WorldAct} {r : Rid}

theorem mem_receivers : r ∈ s.receivers ↔ r < s.world.proc.nextRid ∧ (s.reqs r).type.isRecv = true := by
  simp [receivers]

/-- A request that is connected has unpacked its keys once. -/
theorem Sound.keys (h : s.Sound) (hr : r < s.world.proc.nextRid) (ht : (s.reqs r).type.isRdma = true) :
    s.unpacked r = 1 := by
  have hne : (s.reqs r).remoteDataAddr ≠ 0 := by
    refine h.nesting.connected r hr ?_
    show (s.reqs r).type = .send ∨ (s.reqs r).type = .recv
    cases hty : (s.reqs r).type <;> simp_all [RequestType.isRdma]
  rw [h.unpacked, if_pos ⟨hr, hne⟩]

/-- Keys are unpacked for requests that are there. -/
theorem Sound.lt_of_keys (h : s.Sound) (hk : s.unpacked r = 1) : r < s.world.proc.nextRid := by
  by_contra hno
  rw [h.unpacked, if_neg fun hx => hno hx.1] at hk
  simp at hk

/-- A request that is not freed may go on. -/
theorem Sound.open_of_listed (h : s.Sound) (hmem : r ∈ s.world.proc.requestList) :
    r ∉ s.toFree ∧ s.finalized = false := by
  refine ⟨fun hfree => ((h.toFree r).mp hfree).2 hmem, ?_⟩
  by_contra hfin
  have hnil := (h.finalized (by simpa using hfin)).1
  rw [hnil] at hmem
  exact List.not_mem_nil hmem

/-- So may one that is started. -/
theorem Sound.open_of_active (h : s.Sound) (hr : r < s.world.proc.nextRid)
    (hact : s.world.proc.active r = true) : r ∉ s.toFree ∧ s.finalized = false := by
  have hno : r ∉ s.toFree := by
    intro hfree
    have hinactive := (h.freed r hfree).2.1
    rw [hact] at hinactive
    exact Bool.noConfusion hinactive
  refine h.open_of_listed ?_
  by_contra hmem
  exact hno ((h.toFree r).mpr ⟨hr, hmem⟩)

/-- So may a sender that is outside its user's hands. -/
theorem Sound.open_of_busy (h : s.Sound) (hmem : r ∈ s.receivers) (hpc : (s.world.peers r).pc ≠ .idle) :
    s.peerFreed r = false ∧ s.finalized = false := by
  have hno : s.peerFreed r = false := by
    by_contra hfreed
    exact hpc (h.peerFreed r (by simpa using hfreed)).2
  refine ⟨hno, ?_⟩
  by_contra hfin
  have hall := (h.finalized (by simpa using hfin)).2 r hmem
  rw [hno] at hall
  exact Bool.noConfusion hall

/-! ### What a step does to the requests -/

/-- A message is received at one point of `receive_rdma_info`. -/
theorem receives_run {ans : Answer} (hs : s.world.step (.run ans) = some w) :
    s.receives (.run ans) = some r ↔ ∃ below, s.world.proc.nested = .receiveInfo r .recv :: below := by
  simp only [World.step] at hs
  split at hs <;> simp only [reduceCtorEq, Option.some.injEq] at hs
  rename_i p c hrun
  have hrec : s.receives (.run ans) = some r ↔ ∃ k, c = some (.recv r k) := by
    simp only [receives, hrun, Option.bind_some]
    split
    · rename_i q k
      simp [eq_comm]
    · rename_i hno
      simp only [reduceCtorEq, false_iff, not_exists]
      intro k hk
      exact hno r k hk
  rw [hrec]
  constructor
  · rintro ⟨k, rfl⟩
    exact Proc.run_recv hrun
  · rintro ⟨below, hn⟩
    exact ⟨_, (Proc.run_receive hn hrun).2.1⟩

/-- What a message is received for. -/
theorem Sound.receiving (h : s.Sound) (hrec : s.receives act = some r) (hs : s.world.step act = some w) :
    ∃ ans below, act = .run ans ∧ s.world.proc.nested = .receiveInfo r .recv :: below ∧
      r < s.world.proc.nextRid ∧ (s.reqs r).remoteDataAddr = 0 ∧ (s.reqs r).type.isSearch = true := by
  cases act with
  | run ans =>
      obtain ⟨below, hn⟩ := (receives_run hs).mp hrec
      obtain ⟨hzero, hsearch⟩ := h.nesting.recv r below hn
      refine ⟨ans, below, rfl, hn, ?_, hzero, hsearch⟩
      exact h.data.flags.inv.known.nested _ (by rw [hn]; exact List.mem_cons_self) r (by simp [Frame.rids])
  | _ => simp [receives] at hrec

/-- The addresses after a step. -/
theorem Sound.addresses (h : s.Sound) (hs : s.world.step act = some w) (hr : r < s.world.proc.nextRid) :
    (w.proc.reqs r).remoteDataAddr = (s.reqs r).remoteDataAddr ∧ s.receives act ≠ some r ∨
      (w.proc.reqs r).remoteDataAddr = (s.world.proc.counterpart r).dataAddr ∧
        s.receives act = some r := by
  by_cases hrec : s.receives act = some r
  · refine Or.inr ⟨?_, hrec⟩
    obtain ⟨ans, below, rfl, hn, -⟩ := h.receiving hrec hs
    simp only [World.step] at hs
    split at hs <;> simp only [reduceCtorEq, Option.some.injEq] at hs
    rename_i p c hrun
    subst hs
    exact congrArg RdmaInfo.dataAddr (Proc.run_receive hn hrun).1
  · refine Or.inl ⟨?_, hrec⟩
    by_cases hact : ∃ ans, act = .run ans
    · obtain ⟨ans, rfl⟩ := hact
      have hno := (receives_run (r := r) hs).not.mp hrec
      simp only [World.step] at hs
      split at hs <;> simp only [reduceCtorEq, Option.some.injEq] at hs
      rename_i p c hrun
      subst hs
      exact congrArg RdmaInfo.dataAddr ((Proc.run_remote hrun r).resolve_right hno)
    · exact ((step_handshake hs fun ans ha => hact ⟨ans, ha⟩).2 r hr).1

/-- A send of the info that is complete stays complete. -/
theorem step_exchange (hs : s.world.step act = some w) (hr : r < s.world.proc.nextRid)
    (hnone : (s.reqs r).rdmaExchangeRequestSend = none) :
    (w.proc.reqs r).rdmaExchangeRequestSend = none := by
  by_cases hact : ∃ ans, act = .run ans
  · obtain ⟨ans, rfl⟩ := hact
    simp only [World.step] at hs
    split at hs <;> simp only [reduceCtorEq, Option.some.injEq] at hs
    rename_i p c hrun
    subst hs
    exact (Proc.run_exchange hrun r).elim (fun heq => heq.trans hnone) And.left
  · exact ((step_handshake hs fun ans ha => hact ⟨ans, ha⟩).2 r hr).2.trans hnone

/-- What a step does to the request list. -/
inductive ListStep (w w' : World) : WorldAct → Prop
  | sendInit (args : Proc.InitArgs) (info : RdmaInfo) (hnext : w'.proc.nextRid = w.proc.nextRid + 1)
      (hlist : w'.proc.requestList = w.proc.nextRid :: w.proc.requestList) :
      ListStep w w' (.sendInit args info)
  | recvInit (args : Proc.InitArgs) (info : RdmaInfo) (size : Nat)
      (hnext : w'.proc.nextRid = w.proc.nextRid + 1)
      (hlist : w'.proc.requestList = w.proc.nextRid :: w.proc.requestList) :
      ListStep w w' (.recvInit args info size)
  | free (r : Rid) (hmem : r ∈ w.proc.requestList) (hactive : w.proc.active r = false)
      (hnested : w.proc.nested = []) (hnext : w'.proc.nextRid = w.proc.nextRid)
      (hlist : w'.proc.requestList = w.proc.requestList.erase r) : ListStep w w' (.free r)
  | other (act : WorldAct) (hsend : ∀ args info, act ≠ .sendInit args info)
      (hrecv : ∀ args info size, act ≠ .recvInit args info size) (hfree : ∀ r, act ≠ .free r)
      (hnext : w'.proc.nextRid = w.proc.nextRid)
      (hlist : w'.proc.requestList = w.proc.requestList) : ListStep w w' act

theorem step_list {w' : World} (hi : World.Inv w) (hs : w.step act = some w') : ListStep w w' act := by
  have hother : (∀ args info, act ≠ .sendInit args info) → (∀ args info size, act ≠ .recvInit args info size) →
      (∀ r, act ≠ .free r) → w'.proc.nextRid = w.proc.nextRid ∧
        w'.proc.requestList = w.proc.requestList → ListStep w w' act :=
    fun h1 h2 h3 h => .other act h1 h2 h3 h.1 h.2
  cases act with
  | sendInit args info =>
      simp only [World.step] at hs
      split at hs <;> simp only [reduceCtorEq, Option.some.injEq] at hs
      subst hs
      exact .sendInit args info rfl rfl
  | recvInit args info size =>
      simp only [World.step] at hs
      split at hs <;> simp only [reduceCtorEq, Option.some.injEq] at hs
      subst hs
      exact .recvInit args info size rfl rfl
  | free r =>
      simp only [World.step] at hs
      split at hs <;> simp only [reduceCtorEq, Option.some.injEq] at hs
      rename_i hfree
      subst hs
      exact .free r hfree.2.1 hfree.2.2 hfree.1.2 rfl rfl
  | start q =>
      refine hother (by simp) (by simp) (by simp) ?_
      simp only [World.step] at hs
      split at hs <;> simp only [reduceCtorEq, Option.some.injEq] at hs
      subst hs
      have hk := (start_frame (p := w.proc) q).2.2.1
      exact ⟨hk.nextRid, hk.requestList⟩
  | wait q =>
      refine hother (by simp) (by simp) (by simp) ?_
      simp only [World.step] at hs
      split at hs <;> simp only [reduceCtorEq, Option.some.injEq] at hs
      subst hs
      have hk := (wait_frame (p := w.proc) q).2.2.2.2
      exact ⟨hk.nextRid, hk.requestList⟩
  | run ans =>
      refine hother (by simp) (by simp) (by simp) ?_
      simp only [World.step] at hs
      split at hs <;> simp only [reduceCtorEq, Option.some.injEq] at hs
      rename_i p c hrun
      subst hs
      have hk := (Proc.run_control hi.shape hi.known hrun).2.2
      exact ⟨hk.nextRid, hk.requestList⟩
  | lands i =>
      refine hother (by simp) (by simp) (by simp) ?_
      simp only [World.step] at hs
      split at hs <;> simp only [reduceCtorEq, Option.some.injEq] at hs
      rename_i x hx
      subst hs
      rw [(land_frame (w := w.setProc { w.proc with worker := w.proc.worker.retire i })
        x.op.1 x.op.2).1]
      exact ⟨rfl, rfl⟩
  | peerRun q imm =>
      refine hother (by simp) (by simp) (by simp) ?_
      simp only [World.step] at hs
      split at hs
      · split at hs <;> simp only [reduceCtorEq, Option.some.injEq] at hs
        subst hs
        exact ⟨rfl, rfl⟩
      · simp at hs
  | peerLands q i =>
      refine hother (by simp) (by simp) (by simp) ?_
      simp only [World.step] at hs
      split at hs
      · rename_i x hx
        split at hs <;> simp only [reduceCtorEq, Option.some.injEq] at hs
        subst hs
        obtain ⟨-, -, ⟨reqs, hproc⟩, -, -⟩ := landPeer_frame
          (w := w.setPeer q { w.peers q with loc := (w.peers q).loc.retire i }) q x.op
        rw [hproc]
        exact ⟨rfl, rfl⟩
      · simp at hs
  | _ =>
      refine hother (by simp) (by simp) (by simp) ?_
      simp only [World.step] at hs
      split at hs <;> simp only [reduceCtorEq, Option.some.injEq] at hs
      subst hs
      exact ⟨rfl, rfl⟩

theorem follow_toFree (hno : ∀ r, act ≠ .free r) : (s.follow w act).toFree = s.toFree := by
  cases act with
  | free r => exact absurd rfl (hno r)
  | _ => rfl

/-- A request is in the list until it is freed. -/
theorem Sound.lists (h : s.Sound) (hl : ListStep s.world w act) :
    w.proc.requestList.Nodup ∧ (s.follow w act).toFree.Nodup ∧
      ∀ r, r ∈ (s.follow w act).toFree ↔ r < w.proc.nextRid ∧ r ∉ w.proc.requestList := by
  have hknown : s.world.proc.nextRid ∉ s.world.proc.requestList := fun hmem =>
    Nat.lt_irrefl _ (h.data.flags.inv.known.list _ hmem)
  have hnew : w.proc.nextRid = s.world.proc.nextRid + 1 →
      w.proc.requestList = s.world.proc.nextRid :: s.world.proc.requestList →
      ∀ r, r ∈ s.toFree ↔ r < w.proc.nextRid ∧ r ∉ w.proc.requestList := by
    intro hnext hlist r
    rw [h.toFree, hnext, hlist, List.mem_cons]
    constructor
    · rintro ⟨hlt, hno⟩
      exact ⟨Nat.lt_succ_of_lt hlt, fun hmem => hmem.elim (Nat.ne_of_lt hlt) hno⟩
    · rintro ⟨hlt, hno⟩
      refine ⟨Nat.lt_of_le_of_ne (Nat.le_of_lt_succ hlt) fun heq => hno (Or.inl heq), fun hmem => ?_⟩
      exact hno (Or.inr hmem)
  cases hl with
  | sendInit args info hnext hlist =>
      rw [follow_toFree (by simp)]
      exact ⟨hlist ▸ List.nodup_cons.mpr ⟨hknown, h.nodup⟩, h.toFree_nodup, hnew hnext hlist⟩
  | recvInit args info size hnext hlist =>
      rw [follow_toFree (by simp)]
      exact ⟨hlist ▸ List.nodup_cons.mpr ⟨hknown, h.nodup⟩, h.toFree_nodup, hnew hnext hlist⟩
  | free q hmem hactive hnested hnext hlist =>
      have hfree : (s.follow w (.free q)).toFree = q :: s.toFree := rfl
      rw [hfree, hlist, hnext]
      refine ⟨h.nodup.erase q, List.nodup_cons.mpr ⟨(h.open_of_listed hmem).1, h.toFree_nodup⟩,
        fun r => ?_⟩
      rw [List.mem_cons, h.toFree, List.Nodup.mem_erase_iff h.nodup]
      constructor
      · rintro (rfl | ⟨hlt, hno⟩)
        · exact ⟨h.data.flags.inv.known.list _ hmem, fun hx => hx.1 rfl⟩
        · exact ⟨hlt, fun hx => hno hx.2⟩
      · rintro ⟨hlt, hno⟩
        by_cases hq : r = q
        · exact Or.inl hq
        · exact Or.inr ⟨hlt, fun hx => hno ⟨hq, hx⟩⟩
  | other _ hsend hrecv hfree hnext hlist =>
      rw [follow_toFree hfree, hnext, hlist]
      exact ⟨h.nodup, h.toFree_nodup, h.toFree⟩

/-- A request that is new has no addresses. -/
theorem new_addresses (hi : World.Inv s.world) (hs : s.world.step act = some w) (hr : r < w.proc.nextRid)
    (hno : ¬ r < s.world.proc.nextRid) : (w.proc.reqs r).remoteDataAddr = 0 := by
  obtain ⟨rfl, ⟨args, info, rfl⟩ | ⟨args, info, size, rfl⟩⟩ := step_new hi hs hr hno <;>
    simp only [World.step] at hs <;> split at hs <;>
    simp only [reduceCtorEq, Option.some.injEq] at hs <;> subst hs <;>
    simp [World.setProc, World.setPeer, Proc.initRequest]

theorem unstarted_step (hs : s.world.step act = some w) (hno : r ∉ s.world.proc.requestList) :
    act ≠ .start r := by
  rintro rfl
  simp only [World.step] at hs
  split at hs
  · rename_i hfree
    exact hno hfree.2.1
  · simp at hs

/-- A request that is out of its user's hands stays as it is. -/
theorem Sound.freed_step (h : s.Sound) (hs : s.world.step act = some w) (hr : r < s.world.proc.nextRid)
    (hno : act ≠ .start r) (hfreed : (s.reqs r).type.isRdma = true ∧ s.world.proc.active r = false ∧
      (s.reqs r).rdmaExchangeRequestSend = none) :
    (w.proc.reqs r).type.isRdma = true ∧ w.proc.active r = false ∧
      (w.proc.reqs r).rdmaExchangeRequestSend = none := by
  have hi := h.data.flags.inv
  obtain ⟨ht, hact, hnone⟩ := hfreed
  refine ⟨?_, ?_, step_exchange hs hr hnone⟩
  · rcases step_type hi hs hr with heq | ⟨hsearch, -⟩ | ⟨hsearch, -⟩
    · rw [heq]
      exact ht
    · simp [reqs, hsearch, RequestType.isRdma] at ht
    · simp [reqs, hsearch, RequestType.isRdma] at ht
  · rcases step_active hi hr hs hno with heq | ⟨-, heq⟩
    · rw [heq]
      exact hact
    · exact heq

theorem Sound.freed_follow (h : s.Sound) (hok : s.Orderly (.world act)) (hs : s.world.step act = some w) :
    ∀ r ∈ (s.follow w act).toFree, (w.proc.reqs r).type.isRdma = true ∧ w.proc.active r = false ∧
      (w.proc.reqs r).rdmaExchangeRequestSend = none := by
  have hi := h.data.flags.inv
  have hold : ∀ r ∈ s.toFree, (w.proc.reqs r).type.isRdma = true ∧ w.proc.active r = false ∧
      (w.proc.reqs r).rdmaExchangeRequestSend = none := by
    intro r hr
    obtain ⟨hlt, hno⟩ := (h.toFree r).mp hr
    exact h.freed_step hs hlt (unstarted_step hs hno) (h.freed r hr)
  intro r hr
  cases step_list hi hs with
  | free q hmem hactive hnested hnext hlist =>
      have hfree : (s.follow w (.free q)).toFree = q :: s.toFree := rfl
      rw [hfree, List.mem_cons] at hr
      rcases hr with rfl | hr
      · -- it has its addresses, and waits for nothing
        have hlt := hi.known.list _ hmem
        have ht := hok.connected r rfl
        have hne : (s.reqs r).remoteDataAddr ≠ 0 := by
          refine h.nesting.connected r hlt ?_
          show (s.reqs r).type = .send ∨ (s.reqs r).type = .recv
          cases hty : (s.reqs r).type <;> simp_all [RequestType.isRdma]
        have hnone := (h.told r hlt hne).resolve_right (by simp [hnested])
        exact h.freed_step hs hlt (by simp) ⟨ht, hactive, hnone⟩
      · exact hold r hr
  | sendInit args info hnext hlist =>
      rw [follow_toFree (by simp)] at hr
      exact hold r hr
  | recvInit args info size hnext hlist =>
      rw [follow_toFree (by simp)] at hr
      exact hold r hr
  | other _ hsend hrecv hfree hnext hlist =>
      rw [follow_toFree hfree] at hr
      exact hold r hr

theorem Sound.unpacked_follow (h : s.Sound) (hok : s.Orderly (.world act))
    (hs : s.world.step act = some w) (r : Rid) : (s.follow w act).unpacked r =
      if r < w.proc.nextRid ∧ (w.proc.reqs r).remoteDataAddr ≠ 0 then 1 else 0 := by
  have hi := h.data.flags.inv
  show (if s.receives act = some r then s.unpacked r + 1 else s.unpacked r) = _
  by_cases hr : r < s.world.proc.nextRid
  · have hr' : r < w.proc.nextRid := Nat.lt_of_lt_of_le hr (step_own hi hs).1
    rcases h.addresses hs hr with ⟨haddr, hno⟩ | ⟨haddr, hrec⟩
    · rw [if_neg hno, h.unpacked, haddr]
      simp only [hr, hr', true_and]
    · obtain ⟨ans, below, rfl, hn, -, hzero, -⟩ := h.receiving hrec hs
      have hne := hok.nonNull ans r below rfl hn
      rw [if_pos hrec, h.unpacked, haddr, if_neg fun hx => hx.2 hzero, if_pos ⟨hr', hne⟩]
  · have hno : s.receives act ≠ some r := by
      intro hrec
      obtain ⟨-, -, -, -, hlt, -⟩ := h.receiving hrec hs
      exact hr hlt
    rw [if_neg hno, h.unpacked, if_neg fun hx => hr hx.1, if_neg]
    rintro ⟨hlt, hne⟩
    exact hne (new_addresses hi hs hlt hr)

theorem Sound.told_follow (h : s.Sound) (hs : s.world.step act = some w) :
    ∀ r < w.proc.nextRid, (w.proc.reqs r).remoteDataAddr ≠ 0 →
      (w.proc.reqs r).rdmaExchangeRequestSend = none ∨ .receiveInfo r .test ∈ w.proc.nested := by
  intro r hr' hne
  by_cases hr : r < s.world.proc.nextRid
  · rcases h.addresses hs hr with ⟨haddr, -⟩ | ⟨-, hrec⟩
    · rcases h.told r hr (haddr ▸ hne) with hnone | hmem
      · exact Or.inl (step_exchange hs hr hnone)
      · by_cases hact : ∃ ans, act = .run ans
        · obtain ⟨ans, rfl⟩ := hact
          simp only [World.step] at hs
          split at hs <;> simp only [reduceCtorEq, Option.some.injEq] at hs
          rename_i p c hrun
          subst hs
          exact Proc.run_spinning hrun hmem
        · rw [(step_handshake hs fun ans ha => hact ⟨ans, ha⟩).1]
          exact Or.inr hmem
    · obtain ⟨ans, below, rfl, hn, -⟩ := h.receiving hrec hs
      simp only [World.step] at hs
      split at hs <;> simp only [reduceCtorEq, Option.some.injEq] at hs
      rename_i p c hrun
      subst hs
      right
      show .receiveInfo r .test ∈ p.nested
      rw [(Proc.run_receive hn hrun).2.2]
      exact List.mem_cons_self
  · exact absurd (new_addresses h.data.flags.inv hs hr' hr) hne

/-- **A step of the world.** -/
theorem sound_follow (h : s.Sound) (hok : s.Orderly (.world act)) (hs : s.world.step act = some w)
    (hp : s.permits act = true) : (s.follow w act).Sound := by
  have hi := h.data.flags.inv
  have hl := step_list hi hs
  obtain ⟨hnodup, hfreeNodup, htoFree⟩ := h.lists hl
  refine ⟨dataInv_step h.data (hok.flushed act rfl) hs, sendOps_step h.data.flags h.sends hs,
    step_nesting hi h.nesting hs, hnodup, hfreeNodup, htoFree, h.freed_follow hok hs,
    h.unpacked_follow hok hs, h.told_follow hs, fun r hfreed => ?_, fun hfin => ?_⟩
  · obtain ⟨hmem, hidle⟩ := h.peerFreed r hfreed
    obtain ⟨hr, hrecv⟩ := mem_receivers.mp hmem
    refine ⟨mem_receivers.mpr ⟨Nat.lt_of_lt_of_le hr (step_own hi hs).1, ?_⟩, ?_⟩
    · exact (step_isRecv hi hs hr).trans hrecv
    · by_contra hbusy
      have hno : act ≠ .peerStart r := by
        rintro rfl
        have hfreed' : s.peerFreed r = true := hfreed
        simp [permits, hfreed'] at hp
      exact (step_samePeer hr hs hno).busy hbusy hidle
  · have hfin' : s.finalized = true := hfin
    obtain ⟨hnil, hall⟩ := h.finalized hfin'
    cases hl with
    | sendInit args info hnext hlist => simp [permits, hfin'] at hp
    | recvInit args info size hnext hlist => simp [permits, hfin'] at hp
    | free q hmem hactive hnested hnext hlist => simp [hnil] at hmem
    | other _ hsend hrecv hfree hnext hlist =>
        refine ⟨hlist.trans hnil, fun r hr => hall r ?_⟩
        obtain ⟨hlt, hrecv'⟩ := mem_receivers.mp hr
        have hlt' : r < s.world.proc.nextRid := hnext ▸ hlt
        exact mem_receivers.mpr ⟨hlt', (step_isRecv hi hs hlt').symm.trans hrecv'⟩

/-! ### What a step enters in the ledger -/

/-- Nothing is acquired or given back. -/
theorem Sound.books_kept (h : s.Sound) (hs : s.world.step act = some w)
    (hnext : w.proc.nextRid = s.world.proc.nextRid) (hfree : ∀ r, act ≠ .free r)
    (hrec : s.receives act = none) : ∀ a, ((s.follow w act).Acquired a ↔ s.Acquired a) ∧
      ((s.follow w act).GivenBack a ↔ s.GivenBack a) := by
  have hunpacked : ∀ r, (s.follow w act).unpacked r = s.unpacked r := by
    intro r
    show (if s.receives act = some r then s.unpacked r + 1 else s.unpacked r) = _
    simp [hrec]
  have hreceivers : ∀ r, r ∈ (s.follow w act).receivers ↔ r ∈ s.receivers := by
    intro r
    rw [mem_receivers, mem_receivers]
    show r < w.proc.nextRid ∧ (w.proc.reqs r).type.isRecv = true ↔ _
    rw [hnext]
    exact and_congr_right fun hr => by rw [step_isRecv h.data.flags.inv hs hr]; rfl
  have hown : (s.follow w act).world.proc.nextRid = s.world.proc.nextRid := hnext
  intro a
  refine ⟨?_, ?_⟩
  · cases a with
    | dataRkey b r k => cases b <;> simp only [Acquired, hunpacked, hreceivers]
    | flagRkey b r k => cases b <;> simp only [Acquired, hunpacked, hreceivers]
    | _ b r => cases b <;> simp only [Acquired, hown, hreceivers]
  · cases a with
    | dataRegion b r =>
        cases b <;> simp only [GivenBack, follow_toFree hfree]
        rfl
    | dataRkey b r k =>
        cases b <;> simp only [GivenBack, follow_toFree hfree]
        rfl
    | _ => rfl

/-- A request that is started holds its keys. -/
theorem Sound.own_key (h : s.Sound) (hr : r < s.world.proc.nextRid) (ht : (s.reqs r).type.isRdma = true)
    (hact : s.world.proc.active r = true) (op : RdmaOp) :
    s.Acquired (op.rkey .own r (s.unpacked r)) ∧ ¬ s.GivenBack (op.rkey .own r (s.unpacked r)) := by
  obtain ⟨hfree, hfin⟩ := h.open_of_active hr hact
  have hkeys := h.keys hr ht
  cases op <;> simp [RdmaOp.rkey, Acquired, GivenBack, hkeys, hfree, hfin]

/-- So does a sender outside its user's hands. -/
theorem Sound.peer_key (h : s.Sound) (hmem : r ∈ s.receivers) (hpc : (s.world.peers r).pc ≠ .idle)
    (op : RdmaOp) : s.Acquired (op.rkey .peer r 1) ∧ ¬ s.GivenBack (op.rkey .peer r 1) := by
  obtain ⟨hfreed, hfin⟩ := h.open_of_busy hmem hpc
  cases op <;> simp [RdmaOp.rkey, Acquired, GivenBack, hmem, hfreed, hfin]

theorem mem_posted {Op : Type*} {v v' : Worker Op} {op : Op} (h : op ∈ posted v v') :
    ∃ x ∈ v'.pending, x.op = op := by
  obtain ⟨x, hx, rfl⟩ := List.mem_map.mp h
  exact ⟨x, List.mem_of_mem_drop hx, rfl⟩

/-- What a step of the process posts goes to a counterpart whose keys are held. -/
theorem Sound.uses_run {ans : Answer} (h : s.Sound) (hok : s.Orderly (.world (.run ans)))
    (hs : s.world.step (.run ans) = some w) (hrec : s.receives (.run ans) = none) :
    ∀ x ∈ posted s.world.proc.worker w.proc.worker,
      s.Acquired (x.2.rkey .own x.1 (s.unpacked x.1)) ∧
        ¬ s.GivenBack (x.2.rkey .own x.1 (s.unpacked x.1)) := by
  intro x hx
  obtain ⟨y, hy, rfl⟩ := mem_posted hx
  have hs' : (s.follow w (.run ans)).Sound := sound_follow h hok hs rfl
  have hnext : w.proc.nextRid = s.world.proc.nextRid := by
    cases step_list h.data.flags.inv hs with
    | other _ _ _ _ hnext _ => exact hnext
  have hlt : y.op.1 < w.proc.nextRid := hs'.data.flags.inv.known.pending y hy
  obtain ⟨ht, hact⟩ := hs'.data.posted hs'.sends hy
  have hunpacked : (s.follow w (.run ans)).unpacked y.op.1 = s.unpacked y.op.1 := by
    show (if s.receives (.run ans) = some y.op.1 then _ else s.unpacked y.op.1) = _
    simp [hrec]
  obtain ⟨hacq, hback⟩ := hs'.own_key hlt ht hact y.op.2
  rw [hunpacked] at hacq hback
  have hkept := h.books_kept hs hnext (by simp) hrec
  exact ⟨(hkept _).1.mp hacq, fun hx => hback ((hkept _).2.mpr hx)⟩

/-- What takes effect for the process finds its key, and the sender's region. -/
theorem Sound.uses_lands {i : Nat} {x : Posted (Rid × RdmaOp)} (h : s.Sound)
    (hx : s.world.proc.worker.enabled? i = some x) :
    ∀ a ∈ x.op.2.rkey .own x.op.1 (s.unpacked x.op.1) ::
      (if (s.reqs x.op.1).type.isRecv then [x.op.2.region .peer x.op.1] else []),
      s.Acquired a ∧ ¬ s.GivenBack a := by
  have hmem := List.mem_of_getElem? (Worker.enabled?_eq_some.mp hx).1
  have hlt := h.data.flags.inv.known.pending x hmem
  obtain ⟨ht, hact⟩ := h.data.posted h.sends hmem
  intro a ha
  rcases List.mem_cons.mp ha with rfl | ha
  · exact h.own_key hlt ht hact x.op.2
  split at ha
  · rename_i hrecv
    rw [List.mem_singleton] at ha
    subst ha
    have hreceiver : x.op.1 ∈ s.receivers := mem_receivers.mpr ⟨hlt, hrecv⟩
    have htype : (s.world.proc.reqs x.op.1).type = .recv := by
      show (s.reqs x.op.1).type = .recv
      cases hty : (s.reqs x.op.1).type <;>
        simp_all [reqs, RequestType.isRdma, RequestType.isRecv]
    have hfin := (h.open_of_active hlt hact).2
    by_cases hflag : x.op.2.isFlag = true
    · cases hop : x.op.2 <;> simp [hop, RdmaOp.isFlag] at hflag
      simp [RdmaOp.region, Acquired, GivenBack, hreceiver, hfin]
    · have hu := h.data.get_lands hx htype (by simpa using hflag)
      have hfreed := (h.open_of_busy hreceiver hu.peer).1
      cases hop : x.op.2 <;> simp [hop, RdmaOp.isFlag] at hflag <;>
        simp [RdmaOp.region, Acquired, GivenBack, hreceiver, hfreed]
  · exact absurd ha List.not_mem_nil

/-- What takes effect for a sender finds its key, and the process's region. -/
theorem Sound.uses_peerLands {i : Nat} {x : Posted RdmaOp} (h : s.Sound) (hmem : r ∈ s.receivers)
    (hx : (s.world.peers r).loc.worker.enabled? i = some x) :
    ∀ a ∈ [x.op.rkey .peer r 1, x.op.region .own r], s.Acquired a ∧ ¬ s.GivenBack a := by
  obtain ⟨hlt, hrecv⟩ := mem_receivers.mp hmem
  have hpend := List.mem_of_getElem? (Worker.enabled?_eq_some.mp hx).1
  have hbusy : (s.world.peers r).pc ≠ .idle := by
    intro hidle
    rw [h.data.peer_rests hlt hrecv hidle] at hpend
    exact List.not_mem_nil hpend
  have hfin := (h.open_of_busy hmem hbusy).2
  intro a ha
  rcases List.mem_cons.mp ha with rfl | ha
  · exact h.peer_key hmem hbusy x.op
  rw [List.mem_singleton] at ha
  subst ha
  by_cases hflag : x.op.isFlag = true
  · cases hop : x.op <;> simp [hop, RdmaOp.isFlag] at hflag
    simp [RdmaOp.region, Acquired, GivenBack, hlt, hfin]
  · have hu := h.data.put_lands hlt hrecv hx (by simpa using hflag)
    have hfree := (h.open_of_active hlt hu.active).1
    cases hop : x.op <;> simp [hop, RdmaOp.isFlag] at hflag <;>
      simp [RdmaOp.region, Acquired, GivenBack, hlt, hfree]

/-- What a step does with resources that neither acquires nor releases any. -/
theorem Sound.uses (h : s.Sound) (hok : s.Orderly (.world act)) (hs : s.world.step act = some w)
    (hp : s.permits act = true) (hsend : ∀ args info, act ≠ .sendInit args info)
    (hrecv : ∀ args info size, act ≠ .recvInit args info size) (hfree : ∀ r, act ≠ .free r)
    (hrec : s.receives act = none) :
    ∃ l : List Resource, s.entries w act = l.map .use ∧ ∀ a ∈ l, s.Acquired a ∧ ¬ s.GivenBack a := by
  cases act with
  | sendInit args info => exact absurd rfl (hsend args info)
  | recvInit args info size => exact absurd rfl (hrecv args info size)
  | free r => exact absurd rfl (hfree r)
  | run ans =>
      have hent : s.entries w (.run ans) = ((posted s.world.proc.worker w.proc.worker).map fun x =>
          x.2.rkey .own x.1 (s.unpacked x.1)).map .use := by
        simp only [entries, hrec]
      refine ⟨_, hent, fun a ha => ?_⟩
      obtain ⟨x, hx, rfl⟩ := List.mem_map.mp ha
      exact h.uses_run hok hs hrec x hx
  | lands i =>
      cases hx : s.world.proc.worker.enabled? i with
      | none => exact ⟨[], by simp [entries, hx], by simp⟩
      | some x => exact ⟨_, by simp only [entries, hx]; rfl, h.uses_lands hx⟩
  | writeFlag r v =>
      refine ⟨[.flagRegion .own r], rfl, fun a ha => ?_⟩
      rw [List.mem_singleton] at ha
      subst ha
      simp only [permits, Bool.and_eq_true, Bool.not_eq_true', decide_eq_true_eq] at hp
      exact ⟨hp.2, by simp [GivenBack, hp.1]⟩
  | peerRun r imm =>
      have hmem : r ∈ s.receivers := by simpa [permits] using hp
      refine ⟨(posted (s.world.peers r).loc.worker (w.peers r).loc.worker).map (·.rkey .peer r 1), rfl,
        fun a ha => ?_⟩
      obtain ⟨op, -, rfl⟩ := List.mem_map.mp ha
      refine h.peer_key hmem ?_ op
      simp only [World.step] at hs
      split at hs
      · rename_i pc l hrun
        exact (sendRun_same hrun).2
      · simp at hs
  | peerLands r i =>
      have hmem : r ∈ s.receivers := by simpa [permits] using hp
      cases hx : (s.world.peers r).loc.worker.enabled? i with
      | none => exact ⟨[], by simp [entries, hx], by simp⟩
      | some x => exact ⟨_, by simp only [entries, hx], h.uses_peerLands hmem hx⟩
  | _ => exact ⟨[], rfl, by simp⟩

/-! ### The books -/

/-- The ledger is proper, and tells what the state tells. -/
structure Books (s : Accounts) : Prop where
  sound : s.Sound
  proper : Proper unheld s.ledger
  tallies : Tallies s.Acquired s.GivenBack (after unheld s.ledger)

/-- What a step enters is right, wherever the resources stand as the state tells. -/
theorem Books.enter {s' : Accounts} {es : List (Entry Resource)} (h : s.Books) (hs' : s'.Sound)
    (hledger : s'.ledger = s.ledger ++ es)
    (hes : ∀ t, Tallies s.Acquired s.GivenBack t →
      Proper t es ∧ Tallies s'.Acquired s'.GivenBack (after t es)) : s'.Books := by
  obtain ⟨hproper, htallies⟩ := hes _ h.tallies
  refine ⟨hs', ?_, ?_⟩
  · rw [hledger]
    exact proper_append.mpr ⟨h.proper, hproper⟩
  · rw [hledger, after_append]
    exact htallies

/-- What is acquired for a new request, which may be a receive request. -/
def acquiredFor (q : Rid) (recv : Bool) : List Resource :=
  Holder.own.sendRdmaInfo q ++
    if recv then Holder.peer.sendRdmaInfo q ++ Holder.peer.receiveRdmaInfo q 1 else []

/-- What belongs to request `q` alone. -/
def NewFor (q : Rid) (recv : Bool) : Resource → Prop
  | .dataRegion .own r | .flagRegion .own r | .infoBuf .own r => r = q
  | .dataRkey .own _ _ | .flagRkey .own _ _ => False
  | .dataRegion .peer r | .flagRegion .peer r | .infoBuf .peer r => r = q ∧ recv = true
  | .dataRkey .peer r k | .flagRkey .peer r k => k = 1 ∧ r = q ∧ recv = true

theorem mem_acquiredFor {q : Rid} {recv : Bool} {a : Resource} :
    a ∈ acquiredFor q recv ↔ NewFor q recv a := by
  rcases a with ⟨b, r⟩ | ⟨b, r⟩ | ⟨b, r, k⟩ | ⟨b, r, k⟩ | ⟨b, r⟩ <;> cases b <;> cases recv <;>
    simp [acquiredFor, NewFor, Holder.sendRdmaInfo, Holder.receiveRdmaInfo, and_comm]

/-- **A new request.** -/
theorem Books.initialise (recv : Bool) (h : s.Books) (hs' : (s.follow w act).Sound)
    (hfin : s.finalized = false) (hnext : w.proc.nextRid = s.world.proc.nextRid + 1)
    (htype : ∀ r, (w.proc.reqs r).type.isRecv =
      if r = s.world.proc.nextRid then recv else (s.reqs r).type.isRecv)
    (hfree : ∀ r, act ≠ .free r) (hrec : s.receives act = none)
    (hent : s.entries w act = (acquiredFor s.world.proc.nextRid recv).map .acquire) :
    (s.follow w act).Books := by
  have hnot : s.world.proc.nextRid ∉ s.receivers := fun hmem =>
    Nat.lt_irrefl _ (mem_receivers.mp hmem).1
  have hnofree : s.world.proc.nextRid ∉ s.toFree := fun hmem =>
    Nat.lt_irrefl _ ((h.sound.toFree _).mp hmem).1
  have hnofreed : s.peerFreed s.world.proc.nextRid = false := by
    by_contra hfreed
    exact hnot (h.sound.peerFreed _ (by simpa using hfreed)).1
  have hunpacked : ∀ r, (s.follow w act).unpacked r = s.unpacked r := by
    intro r
    show (if s.receives act = some r then s.unpacked r + 1 else s.unpacked r) = _
    simp [hrec]
  have hown : ∀ r, r < (s.follow w act).world.proc.nextRid ↔
      r < s.world.proc.nextRid ∨ r = s.world.proc.nextRid := by
    intro r
    show r < w.proc.nextRid ↔ _
    rw [hnext, Nat.lt_succ_iff_lt_or_eq]
  have hreceivers : ∀ r, r ∈ (s.follow w act).receivers ↔
      r ∈ s.receivers ∨ (r = s.world.proc.nextRid ∧ recv = true) := by
    intro r
    rw [mem_receivers, mem_receivers, hown]
    show _ ∧ (w.proc.reqs r).type.isRecv = true ↔ _
    rw [htype]
    by_cases hr : r = s.world.proc.nextRid
    · simp [hr]
    · simp [hr]
  have hback : ∀ a, (s.follow w act).GivenBack a ↔ s.GivenBack a := by
    have htoFree := follow_toFree (s := s) (w := w) hfree
    intro a
    rcases a with ⟨b, r⟩ | ⟨b, r⟩ | ⟨b, r, k⟩ | ⟨b, r, k⟩ | ⟨b, r⟩ <;> cases b <;>
      simp only [GivenBack, htoFree] <;> rfl
  have hacq : ∀ a, (s.follow w act).Acquired a ↔
      s.Acquired a ∨ NewFor s.world.proc.nextRid recv a := by
    intro a
    rcases a with ⟨b, r⟩ | ⟨b, r⟩ | ⟨b, r, k⟩ | ⟨b, r, k⟩ | ⟨b, r⟩ <;> cases b <;>
      simp only [Acquired, NewFor, hown, hreceivers, hunpacked, or_false, and_or_left]
  have hnew : ∀ a, NewFor s.world.proc.nextRid recv a → ¬ s.Acquired a ∧ ¬ s.GivenBack a := by
    intro a ha
    rcases a with ⟨b, r⟩ | ⟨b, r⟩ | ⟨b, r, k⟩ | ⟨b, r, k⟩ | ⟨b, r⟩ <;> cases b <;>
      simp only [NewFor] at ha <;> simp [Acquired, GivenBack, ha, hnot, hnofree, hnofreed, hfin]
  refine h.enter hs' rfl fun t ht => ?_
  rw [hent]
  refine ⟨proper_acquires ?_ fun a ha => ht.fresh a (hnew a (mem_acquiredFor.mp ha)).1,
    ht.acquires (fun a => ?_) (fun a _ => hback a) fun a ha =>
      (hback a).not.mpr (hnew a (mem_acquiredFor.mp ha)).2⟩
  · cases recv <;> simp [acquiredFor, Holder.sendRdmaInfo, Holder.receiveRdmaInfo]
  · rw [hacq, mem_acquiredFor]

/-- **`MPIOPT_Request_free`.** -/
theorem Books.free (h : s.Books) (hok : s.Orderly (.world (.free r)))
    (hs : s.world.step (.free r) = some w) : (s.follow w (.free r)).Books := by
  have hs' : (s.follow w (.free r)).Sound := sound_follow h.sound hok hs rfl
  have hmem : r ∈ s.world.proc.requestList := by
    cases step_list h.sound.data.flags.inv hs with
    | free _ hmem _ _ _ _ => exact hmem
    | other _ _ _ hfree _ _ => exact absurd rfl (hfree r)
  have hlt := h.sound.data.flags.inv.known.list _ hmem
  have hfree := (h.sound.open_of_listed hmem).1
  have ht := hok.connected r rfl
  have hkeys := h.sound.keys hlt ht
  have hent : s.entries w (.free r) = [Resource.dataRegion .own r, .dataRkey .own r 1].map .release := by
    have hrdma : (s.world.proc.reqs r).type.isRdma = true := ht
    simp [entries, Holder.requestFree, hrdma, hkeys]
  have hacq : ∀ a, (s.follow w (.free r)).Acquired a ↔ s.Acquired a := by
    simp only [World.step] at hs
    split at hs <;> simp only [reduceCtorEq, Option.some.injEq] at hs
    subst hs
    exact fun a => Iff.rfl
  refine h.enter hs' rfl fun t htally => ?_
  rw [hent]
  have hheld : ∀ a ∈ [Resource.dataRegion .own r, .dataRkey .own r 1],
      s.Acquired a ∧ ¬ s.GivenBack a := by
    simp [Acquired, GivenBack, hlt, hkeys, hfree]
  refine ⟨proper_releases (by simp) fun a ha => htally.held a (hheld a ha).1 (hheld a ha).2,
    htally.releases hacq (fun a ha => ?_) fun a ha => (hheld a ha).1⟩
  rcases a with ⟨b, q⟩ | ⟨b, q⟩ | ⟨b, q, k⟩ | ⟨b, q, k⟩ | ⟨b, q⟩ <;> cases b <;>
    simp only [Acquired] at ha <;> simp [GivenBack, follow, ha, or_comm]

/-- **`receive_rdma_info`** unpacks the keys. -/
theorem Books.receive (h : s.Books) (hok : s.Orderly (.world act)) (hs : s.world.step act = some w)
    (hrec : s.receives act = some r) : (s.follow w act).Books := by
  obtain ⟨ans, below, rfl, hn, hlt, hzero, hsearch⟩ := h.sound.receiving hrec hs
  have hs' : (s.follow w (.run ans)).Sound := sound_follow h.sound hok hs rfl
  have hnokeys : s.unpacked r = 0 := by
    rw [h.sound.unpacked, if_neg fun hx => hx.2 hzero]
  have hent : s.entries w (.run ans) = [Resource.dataRkey .own r 1, .flagRkey .own r 1].map .acquire := by
    simp [entries, hrec, Holder.receiveRdmaInfo, hnokeys]
  have hunpacked : ∀ q, (s.follow w (.run ans)).unpacked q = if q = r then 1 else s.unpacked q := by
    intro q
    show (if s.receives (.run ans) = some q then s.unpacked q + 1 else s.unpacked q) = _
    by_cases hq : q = r
    · subst hq
      simp [hrec, hnokeys]
    · simp [hrec, hq, Ne.symm hq]
  have hnext : w.proc.nextRid = s.world.proc.nextRid := by
    cases step_list h.sound.data.flags.inv hs with
    | other _ _ _ _ hnext _ => exact hnext
  have hown : ∀ q, q < (s.follow w (.run ans)).world.proc.nextRid ↔ q < s.world.proc.nextRid := by
    intro q
    show q < w.proc.nextRid ↔ _
    rw [hnext]
  have hreceivers : ∀ q, q ∈ (s.follow w (.run ans)).receivers ↔ q ∈ s.receivers := by
    intro q
    rw [mem_receivers, mem_receivers, hown]
    exact and_congr_right fun hq => by
      rw [show ((s.follow w (.run ans)).reqs q).type.isRecv = (s.reqs q).type.isRecv from
        step_isRecv h.sound.data.flags.inv hs hq]
  -- it is not freed, since it searches
  have hfree : r ∉ s.toFree := by
    intro hmem
    have ht := (h.sound.freed r hmem).1
    cases hty : (s.reqs r).type <;> simp_all [RequestType.isRdma, RequestType.isSearch]
  have hlisted : r ∈ s.world.proc.requestList := by
    by_contra hno
    exact hfree ((h.sound.toFree r).mpr ⟨hlt, hno⟩)
  have hfin := (h.sound.open_of_listed hlisted).2
  refine h.enter hs' rfl fun t htally => ?_
  rw [hent]
  refine ⟨proper_acquires (by simp) fun a ha => htally.fresh a ?_,
    htally.acquires (fun a => ?_) (fun a _ => Iff.rfl) fun a ha => ?_⟩
  · revert a
    simp [Acquired, hnokeys]
  · rcases a with ⟨b, q⟩ | ⟨b, q⟩ | ⟨b, q, k⟩ | ⟨b, q, k⟩ | ⟨b, q⟩ <;> cases b <;>
      simp only [Acquired, hown, hreceivers, hunpacked] <;> simp
    all_goals
      by_cases hq : q = r
      · simp [hq, hnokeys]
      · simp [hq]
  · revert a
    simp [GivenBack, follow, hfree, hfin]

/-- **A step of the world.** -/
theorem books_follow (h : s.Books) (hok : s.Orderly (.world act)) (hs : s.world.step act = some w)
    (hp : s.permits act = true) : (s.follow w act).Books := by
  have hi := h.sound.data.flags.inv
  have hs' := sound_follow h.sound hok hs hp
  by_cases hrec : ∃ r, s.receives act = some r
  · obtain ⟨r, hrec⟩ := hrec
    exact h.receive hok hs hrec
  have hnone : s.receives act = none :=
    Option.eq_none_iff_forall_ne_some.mpr fun r hr => hrec ⟨r, hr⟩
  cases step_list hi hs with
  | free r => exact h.free hok hs
  | sendInit args info hnext hlist =>
      refine Books.initialise false h hs' (by simpa [permits] using hp) hnext (fun r => ?_) (by simp)
        hnone (by simp [entries, acquiredFor])
      simp only [World.step] at hs
      split at hs <;> simp only [reduceCtorEq, Option.some.injEq] at hs
      subst hs
      by_cases hr : r = s.world.proc.nextRid
      · subst hr
        simp [World.setProc, Proc.initRequest, RequestType.isRecv]
      · simp [World.setProc, Proc.initRequest, reqs, hr]
  | recvInit args info size hnext hlist =>
      refine Books.initialise true h hs' (by simpa [permits] using hp) hnext (fun r => ?_) (by simp)
        hnone (by simp [entries, acquiredFor])
      simp only [World.step] at hs
      split at hs <;> simp only [reduceCtorEq, Option.some.injEq] at hs
      subst hs
      by_cases hr : r = s.world.proc.nextRid
      · subst hr
        simp [World.setPeer, World.setProc, Proc.initRequest, RequestType.isRecv]
      · simp [World.setPeer, World.setProc, Proc.initRequest, reqs, hr]
  | other _ hsend hrecv hfree hnext hlist =>
      obtain ⟨l, hent, hl⟩ := h.sound.uses hok hs hp hsend hrecv hfree hnone
      have hkept := h.sound.books_kept hs hnext hfree hnone
      refine h.enter hs' rfl fun t ht => ?_
      rw [hent, after_uses]
      exact ⟨proper_uses fun a ha => ht.held a (hl a ha).1 (hl a ha).2,
        ht.congr (fun a => (hkept a).1) fun a _ => (hkept a).2⟩

/-- **The sender of a receive request frees its own.** -/
theorem books_peerFree {s' : Accounts} (h : s.Books) (hs : s.step (.peerFree r) = some s') : s'.Books := by
  simp only [step] at hs
  split at hs <;> simp only [reduceCtorEq, Option.some.injEq] at hs
  rename_i hfree
  obtain ⟨hmem, hidle, hno⟩ := hfree
  subst hs
  have hS := h.sound
  refine h.enter ⟨hS.data, hS.sends, hS.nesting, hS.nodup, hS.toFree_nodup, hS.toFree, hS.freed,
    hS.unpacked, hS.told, fun q hq => ?_, fun hfin => ⟨(hS.finalized hfin).1, fun q hq => ?_⟩⟩ rfl
    fun t ht => ?_
  · by_cases hqr : q = r
    · subst hqr
      exact ⟨hmem, hidle⟩
    · exact hS.peerFreed q (by simpa [hqr] using hq)
  · by_cases hqr : q = r
    · simp [hqr]
    · simpa [hqr] using (hS.finalized hfin).2 q hq
  · have hheld : ∀ a ∈ [Resource.dataRegion .peer r, .dataRkey .peer r 1],
        s.Acquired a ∧ ¬ s.GivenBack a := by
      simp [Acquired, GivenBack, hmem, hno]
    have hent : Holder.peer.requestFree .send r 1 = [.dataRegion .peer r, .dataRkey .peer r 1] := rfl
    rw [hent]
    refine ⟨proper_releases (by simp) fun a ha => ht.held a (hheld a ha).1 (hheld a ha).2,
      ht.releases (fun a => Iff.rfl) (fun a ha => ?_) fun a ha => (hheld a ha).1⟩
    rcases a with ⟨b, q⟩ | ⟨b, q⟩ | ⟨b, q, k⟩ | ⟨b, q, k⟩ | ⟨b, q⟩ <;> cases b <;>
      simp only [Acquired] at ha <;> simp [GivenBack, ha]
    all_goals
      by_cases hqr : q = r
      · simp [hqr]
      · simp [hqr]

/-- What `MPIOPT_FINALIZE` releases: all but the data. -/
theorem mem_finalize {a : Resource} (h : s.Sound) :
    a ∈ s.toFree.flatMap (fun r => Holder.own.finalize (s.reqs r).type r (s.unpacked r)) ++
        s.receivers.flatMap (fun r => Holder.peer.finalize .send r 1) ↔
      match a with
      | .flagRegion .own r | .infoBuf .own r => r ∈ s.toFree
      | .flagRkey .own r k => r ∈ s.toFree ∧ k = 1
      | .flagRegion .peer r | .infoBuf .peer r => r ∈ s.receivers
      | .flagRkey .peer r k => r ∈ s.receivers ∧ k = 1
      | .dataRegion _ _ | .dataRkey _ _ _ => False := by
  have hown : ∀ r ∈ s.toFree, Holder.own.finalize (s.reqs r).type r (s.unpacked r) =
      [.infoBuf .own r, .flagRegion .own r, .flagRkey .own r 1] := by
    intro r hr
    have ht := (h.freed r hr).1
    rw [h.keys ((h.toFree r).mp hr).1 ht]
    simp [Holder.finalize, ht]
  have hpeer : ∀ r, Holder.peer.finalize .send r 1 =
      [.infoBuf .peer r, .flagRegion .peer r, .flagRkey .peer r 1] := fun r => rfl
  have hmem : a ∈ s.toFree.flatMap (fun r => Holder.own.finalize (s.reqs r).type r (s.unpacked r)) ↔
      ∃ r ∈ s.toFree, a ∈ [Resource.infoBuf .own r, .flagRegion .own r, .flagRkey .own r 1] := by
    rw [List.mem_flatMap]
    exact exists_congr fun r => and_congr_right fun hr => by rw [hown r hr]
  rw [List.mem_append, hmem, List.mem_flatMap]
  simp only [hpeer]
  rcases a with ⟨b, q⟩ | ⟨b, q⟩ | ⟨b, q, k⟩ | ⟨b, q, k⟩ | ⟨b, q⟩ <;> cases b <;> simp

/-- It releases nothing twice. -/
theorem Sound.finalize_nodup (h : s.Sound) :
    (s.toFree.flatMap (fun r => Holder.own.finalize (s.reqs r).type r (s.unpacked r)) ++
      s.receivers.flatMap fun r => Holder.peer.finalize .send r 1).Nodup := by
  have heach : ∀ (b : Holder) (t : RequestType) (r : Rid) (k : Nat), (b.finalize t r k).Nodup := by
    intro b t r k
    cases ht : t.isRdma <;> simp [Holder.finalize, ht]
  have hof : ∀ {b b' : Holder} {t t' : RequestType} {r r' : Rid} {k k' : Nat} {a : Resource},
      a ∈ b.finalize t r k → a ∈ b'.finalize t' r' k' → b = b' ∧ r = r' := by
    intro b b' t t' r r' k k' a ha ha'
    cases ht : t.isRdma <;> cases ht' : t'.isRdma <;>
      simp only [Holder.finalize, ht, ht', if_true, if_false, Bool.false_eq_true, List.mem_cons,
        List.not_mem_nil, or_false] at ha ha' <;> grind
  have hreceivers : s.receivers.Nodup := List.nodup_range.filter _
  refine List.nodup_append.mpr ⟨List.nodup_flatMap.mpr ⟨fun r _ => heach _ _ _ _, ?_⟩,
    List.nodup_flatMap.mpr ⟨fun r _ => heach _ _ _ _, ?_⟩, ?_⟩
  · refine h.toFree_nodup.imp fun hne a ha ha' => ?_
    exact hne (hof ha ha').2
  · refine hreceivers.imp fun hne a ha ha' => ?_
    exact hne (hof ha ha').2
  · rintro a ha _ ha' rfl
    obtain ⟨r, -, hr⟩ := List.mem_flatMap.mp ha
    obtain ⟨r', -, hr'⟩ := List.mem_flatMap.mp ha'
    have hb := (hof hr hr').1
    simp at hb

/-- **`MPIOPT_FINALIZE`.** -/
theorem books_finalize {s' : Accounts} (h : s.Books) (hs : s.step .finalize = some s') : s'.Books := by
  simp only [step] at hs
  split at hs <;> simp only [reduceCtorEq, Option.some.injEq] at hs
  rename_i hfree
  obtain ⟨-, hnil, hfin, hall⟩ := hfree
  subst hs
  have hS := h.sound
  have hlisted : ∀ r, r ∈ s.toFree ↔ r < s.world.proc.nextRid := by
    intro r
    rw [hS.toFree, hnil]
    simp
  refine h.enter ⟨hS.data, hS.sends, hS.nesting, hS.nodup, hS.toFree_nodup, hS.toFree, hS.freed,
    hS.unpacked, hS.told, hS.peerFreed, fun _ => ⟨hnil, hall⟩⟩ rfl fun t ht => ?_
  have hheld : ∀ a ∈ s.toFree.flatMap (fun r => Holder.own.finalize (s.reqs r).type r (s.unpacked r)) ++
      s.receivers.flatMap (fun r => Holder.peer.finalize .send r 1),
      s.Acquired a ∧ ¬ s.GivenBack a := by
    intro a ha
    rw [mem_finalize hS] at ha
    rcases a with ⟨b, q⟩ | ⟨b, q⟩ | ⟨b, q, k⟩ | ⟨b, q, k⟩ | ⟨b, q⟩ <;> cases b <;>
      simp only [hlisted] at ha <;> simp [Acquired, GivenBack, ha, hfin]
    exact hS.keys ha.1 (hS.freed q ((hlisted q).mpr ha.1)).1
  refine ⟨proper_releases hS.finalize_nodup fun a ha => ht.held a (hheld a ha).1 (hheld a ha).2,
    ht.releases (fun a => Iff.rfl) (fun a ha => ?_) fun a ha => (hheld a ha).1⟩
  rw [mem_finalize hS]
  rcases a with ⟨b, q⟩ | ⟨b, q⟩ | ⟨b, q, k⟩ | ⟨b, q, k⟩ | ⟨b, q⟩ <;> cases b <;>
    simp only [Acquired] at ha <;> simp [GivenBack, hlisted, ha]
  exact Or.inr (hS.lt_of_keys ha.2)

/-! ### Every run -/

theorem books_init (h : Init s) : s.Books := by
  have hnext := h.world.nextRid
  have hnone : ∀ r, ¬ r < s.world.proc.nextRid := fun r hr => by simp [hnext] at hr
  have hreceivers : ∀ r, r ∉ s.receivers := fun r hr => hnone r (mem_receivers.mp hr).1
  refine ⟨⟨dataInv_init h.world, fun r hr => absurd hr (hnone r),
    Proc.nesting_nil h.world.nested fun r hr => absurd hr (hnone r), ?_, ?_, fun r => ?_, ?_, fun r => ?_,
    fun r hr => absurd hr (hnone r), fun r hr => ?_, fun hfin => ?_⟩, ?_, fun a _ => ?_, fun a hacq => ?_,
    fun a hacq => ?_⟩
  · rw [h.world.requestList]
    exact List.nodup_nil
  · rw [h.toFree]
    exact List.nodup_nil
  · rw [h.toFree]
    simp [hnone]
  · simp [h.toFree]
  · rw [h.unpacked, if_neg fun hx => hnone r hx.1]
  · simp [h.peerFreed] at hr
  · simp [h.finalized] at hfin
  · rw [h.ledger]
    exact trivial
  · rw [h.ledger]
    rfl
  all_goals
    rcases a with ⟨b, q⟩ | ⟨b, q⟩ | ⟨b, q, k⟩ | ⟨b, q, k⟩ | ⟨b, q⟩ <;> cases b <;>
      simp [Acquired, hnext, h.unpacked, hreceivers] at hacq

/-- **Step lemma.** -/
theorem books_step {s' : Accounts} {a : AccountsAct} (h : s.Books) (hok : s.Orderly a)
    (hs : s.step a = some s') : s'.Books := by
  cases a with
  | world act =>
      simp only [step] at hs
      split at hs
      · rename_i w hw
        split at hs <;> simp only [reduceCtorEq, Option.some.injEq] at hs
        rename_i hp
        subst hs
        exact books_follow h hok hw hp
      · simp at hs
  | peerFree r => exact books_peerFree h hs
  | finalize => exact books_finalize h hs

/-- After `MPIOPT_FINALIZE` everything was given back. -/
theorem Sound.all_back (h : s.Sound) (hfin : s.finalized = true) (a : Resource) (ha : s.Acquired a) :
    s.GivenBack a := by
  obtain ⟨hnil, hall⟩ := h.finalized hfin
  have hlisted : ∀ r, r ∈ s.toFree ↔ r < s.world.proc.nextRid := by
    intro r
    rw [h.toFree, hnil]
    simp
  rcases a with ⟨b, q⟩ | ⟨b, q⟩ | ⟨b, q, k⟩ | ⟨b, q, k⟩ | ⟨b, q⟩ <;> cases b <;>
    simp only [Acquired] at ha <;> simp only [GivenBack, hlisted, hfin]
  · exact ha
  · exact hall q ha
  · exact h.lt_of_keys ha.2
  · exact hall q ha.2

/-- If the books are right, every resource is accounted for. -/
theorem Books.accounted (h : s.Books) : s.Accounted where
  kept := h.proper.kept
  settled hfin := h.proper.settled (h.tallies.none_held (h.sound.all_back hfin))
  sent r hmem := by
    have hS := h.sound
    have hreleased : after unheld s.ledger (.infoBuf .own r) = .released := by
      by_contra hno
      exact h.proper.not_released hno hmem
    have hacq : s.Acquired (.infoBuf .own r) := by
      by_contra hno
      rw [h.tallies.fresh _ hno] at hreleased
      simp at hreleased
    have hback : s.GivenBack (.infoBuf .own r) := by
      by_contra hno
      rw [h.tallies.held _ hacq hno] at hreleased
      simp at hreleased
    refine (hS.freed r ((hS.toFree r).mpr ⟨hacq, ?_⟩)).2.2
    rw [(hS.finalized hback).1]
    exact List.not_mem_nil

/--
**Resources are accounted for** in every run in which a request is freed only once it has
one of the types of a connected request, no buffer is `NULL`, and announcements are
flushed before the word is written again.
-/
theorem resources_accounted (h : Reach step Orderly Init s) : s.Accounted := by
  have hbooks : s.Books := h.invariant (fun _ h0 => books_init h0) fun _ _ _ h hok hs => books_step h hok hs
  exact hbooks.accounted

end

/-! ### Two runs -/

def freshAccounts : Accounts where
  world := freshWorld
  unpacked := fun _ => 0
  toFree := []
  peerFreed := fun _ => false
  finalized := false
  ledger := []

theorem freshAccounts_init : Init freshAccounts :=
  ⟨freshWorld_init, fun _ => rfl, rfl, fun _ => rfl, rfl, rfl⟩

/-- Two operations of a receive request, the second over RDMA, to where it is freed. -/
def usedRun : List WorldAct :=
  ByteWorld.firstRun 2 ++ [.wait 0] ++ ByteWorld.fetchedRun ++ [.peerWait 0] ++
    List.replicate 4 (.peerRun 0 false) ++ [.free 0]

def connectedRun : List AccountsAct := usedRun.map .world ++ [.peerFree 0, .finalize]

/-- A send request whose counterpart never comes. -/
def searchingRun : List AccountsAct :=
  [.world (.sendInit ⟨16, 1, 1, 0, 4⟩ ⟨24, 12, 0, 0⟩), .world (.free 0), .finalize]

/-- The condition on the steps, as a test. -/
def orderly (s : Accounts) : AccountsAct → Bool
  | .world act =>
      flushedFirst s.world act &&
        match act with
        | .free r => (s.reqs r).type.isRdma
        | .run _ =>
            match s.world.proc.nested with
            | .receiveInfo r .recv :: _ => (s.world.proc.counterpart r).dataAddr != 0
            | _ => true
        | _ => true
  | _ => true

theorem orderly_sound (s : Accounts) (a : AccountsAct) (h : orderly s a = true) : s.Orderly a := by
  refine ⟨fun r ha => ?_, fun ans r below ha hn => ?_, fun act ha => ?_⟩
  · subst ha
    simp only [orderly, Bool.and_eq_true] at h
    exact h.2
  · subst ha
    simp only [orderly, hn, Bool.and_eq_true, bne_iff_ne] at h
    exact h.2
  · subst ha
    simp only [orderly, Bool.and_eq_true] at h
    exact flushedFirst_sound s.world act h.1

theorem connectedRun_accounted :
    match runFrom (guarded orderly step) freshAccounts connectedRun with
    | some s => s.Accounted ∧ s.finalized = true ∧ .use (.dataRegion .peer 0) ∈ s.ledger ∧
        .release (.dataRkey .own 0 1) ∈ s.ledger
    | none => False := by
  have hrun : (runFrom (guarded orderly step) freshAccounts connectedRun).any (fun s => decide
      (s.finalized = true ∧ .use (.dataRegion .peer 0) ∈ s.ledger ∧
        .release (.dataRkey .own 0 1) ∈ s.ledger)) = true := by
    decide +kernel
  cases h : runFrom (guarded orderly step) freshAccounts connectedRun with
  | none => simp [h] at hrun
  | some s =>
      simp only [h, Option.any_some, decide_eq_true_eq] at hrun
      exact ⟨resources_accounted (.of_guarded orderly_sound _ (.init freshAccounts_init) h), hrun⟩

/-- A request that is freed while it searches keeps its regions, and its message is freed
while it is being sent. -/
theorem searchingRun_leaks :
    match runFrom step freshAccounts searchingRun with
    | some s => Reach step anyStep Init s ∧ ¬ s.Accounted ∧ s.finalized = true ∧
        .acquire (.dataRegion .own 0) ∈ s.ledger ∧ .release (.dataRegion .own 0) ∉ s.ledger ∧
        .acquire (.flagRegion .own 0) ∈ s.ledger ∧ .release (.flagRegion .own 0) ∉ s.ledger ∧
        .release (.infoBuf .own 0) ∈ s.ledger ∧ (s.reqs 0).rdmaExchangeRequestSend = some 0
    | none => False := by
  have hrun : (runFrom step freshAccounts searchingRun).any (fun s => decide
      (s.finalized = true ∧
        .acquire (.dataRegion .own 0) ∈ s.ledger ∧ .release (.dataRegion .own 0) ∉ s.ledger ∧
        .acquire (.flagRegion .own 0) ∈ s.ledger ∧ .release (.flagRegion .own 0) ∉ s.ledger ∧
        .release (.infoBuf .own 0) ∈ s.ledger ∧ (s.reqs 0).rdmaExchangeRequestSend = some 0)) = true := by
    decide +kernel
  cases h : runFrom step freshAccounts searchingRun with
  | none => simp [h] at hrun
  | some s =>
      simp only [h, Option.any_some, decide_eq_true_eq] at hrun
      refine ⟨.of_runFrom _ (.init freshAccounts_init) h, fun hacc => ?_, hrun⟩
      have hsent := hacc.sent 0 hrun.2.2.2.2.2.1
      rw [hrun.2.2.2.2.2.2] at hsent
      simp at hsent

end Accounts

end CompMatch.Rendezvous

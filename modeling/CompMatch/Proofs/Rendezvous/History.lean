/-
What holds of every request, whatever happens around the process.

The invariant puts together what the process keeps of its control (`Shape`, `Known`,
`Listed`), of the functions on the stack (`Nesting`) and of the receives it posted
(`Backup`).  Both results are read off it: one receive is posted for the first
operation, and the recursion of `receive_rdma_info` is bounded.  Only the second needs
the addresses that are received not to be `NULL`.
-/
import CompMatch.Proofs.Rendezvous.Backup
import CompMatch.Proofs.Rendezvous.Nesting
import CompMatch.Proofs.Rendezvous.World

namespace CompMatch.Rendezvous

/-! ### The calls of a step -/

namespace Proc

section
variable {p p' : Proc} {r : Rid} {ans : Answer} {c : Option MpiCall} {k : Comm}

theorem runFrame_recv {f : Frame} (h : (p.runFrame ans f).2 = some (.recv r k)) :
    f = .receiveInfo r .recv := by
  cases f with
  | progressOther current rest =>
      cases rest with
      | nil => simp [runFrame] at h
      | cons q rest =>
          simp only [runFrame] at h
          split at h
          · simp at h
          · unfold progressRequest at h
            split at h <;> simp at h
  | progressWaiting q pt =>
      cases pt with
      | probe =>
          simp only [runFrame] at h
          split at h
          · split at h <;> simp at h
          · simp at h
      | post =>
          simp only [runFrame] at h
          split at h <;> simp at h
  | receiveInfo q pt =>
      cases pt with
      | recv =>
          obtain ⟨rfl, -⟩ : q = r ∧ _ := by simpa [runFrame] using h
          rfl
      | test =>
          simp [runFrame] at h
  | progressRecv q pt => simp [runFrame] at h

theorem runCall_recv {f : Call} : p.runCall ans f ≠ some (p', some (.recv r k)) := by
  intro hrun
  cases f with
  | none => simp [runCall] at hrun
  | startSend q pt => cases pt <;> cases hrun
  | startRecv q pt =>
      cases pt <;> simp only [runCall] at hrun
      · cases hrun
      · split at hrun <;> cases hrun
      · cases hrun
      · split at hrun <;> cases hrun
  | waitSend q pt =>
      cases pt <;> simp only [runCall] at hrun
      · cases hrun
      · cases hrun
      · cases hrun
      · split at hrun <;> cases hrun
  | waitRecv q pt =>
      cases pt <;> simp only [runCall] at hrun
      · split at hrun <;> cases hrun
      · cases hrun
      · split at hrun <;> cases hrun
      · cases hrun
      · cases hrun
      · split at hrun <;> cases hrun
  | mpiWait q =>
      simp only [runCall] at hrun
      split at hrun <;> cases hrun
  | _ => cases hrun

/-- Only `receive_rdma_info` receives handshake messages. -/
theorem run_recv (hrun : p.run ans = some (p', some (.recv r k))) :
    ∃ below, p.nested = .receiveInfo r .recv :: below := by
  unfold run at hrun
  split at hrun
  · rename_i f below hn
    have hf : f = .receiveInfo r .recv := runFrame_recv (by rw [Option.some.inj hrun])
    exact ⟨below, by rw [hn, hf]⟩
  · exact absurd hrun runCall_recv

/-- Where a receive is posted for a request that searches, none is under way. -/
theorem run_posts_null {posted delivered : Nat} (hS : Shape p) (hk : Backup p r posted delivered)
    (hrun : p.run ans = some (p', some (.irecv r))) :
    (p.reqs r).backupRequest = none ∧ p'.failed = p.failed := by
  have hassert : (p.reqs r).backupRequest = none →
      (p.assert (p.reqs r).backupRequest.isNone).failed = p.failed := by
    intro hnone
    simp [assert, hnone]
  unfold run at hrun
  split at hrun
  · rename_i f below hn
    have hpair := Option.some.inj hrun
    have hf : f.rid = some r := runFrame_posts (by rw [hpair])
    cases f with
    | progressWaiting q pt =>
        obtain rfl : q = r := by simpa [Frame.rid] using hf
        cases pt with
        | probe =>
            simp only [runFrame] at hpair
            split at hpair
            · split at hpair <;> cases hpair
            · cases hpair
        | post =>
            simp only [runFrame] at hpair
            split at hpair <;> cases hpair
            rename_i hpost
            exact ⟨hpost.2.2.1, rfl⟩
    | progressOther current rest =>
        cases rest with
        | nil => cases hpair
        | cons q rest =>
            simp only [runFrame] at hpair
            split at hpair
            · cases hpair
            · unfold progressRequest at hpair
              split at hpair <;> cases hpair
    | receiveInfo q pt => cases pt <;> cases hpair
    | progressRecv q pt => cases hpair
  · have hf : p.call.rid = some r := runCall_posts hrun
    have htyped := hS.typed
    cases hcall : p.call with
    | startRecv q pt =>
        obtain rfl : q = r := by simpa [hcall, Call.rid] using hf
        simp only [Typed, hcall] at htyped
        rw [hcall] at hrun
        cases pt <;> simp only [runCall] at hrun
        · cases hrun
        · split at hrun <;> cases hrun
        · -- the info is not there, so nothing was posted on the way here
          have hs := hk.searching htyped.2
          have hnone : (p.reqs q).backupRequest = none := by
            by_contra hb
            have hsome : (p.reqs q).backupRequest.isSome = true := by
              rwa [Option.isSome_iff_ne_none]
            exact hs.start .fallback hcall hsome (hs.fallback hcall).1
          cases hrun
          exact ⟨hnone, hassert hnone⟩
        · split at hrun <;> rename_i hb <;> cases hrun
          exact ⟨Option.isNone_iff_eq_none.mp hb, rfl⟩
    | waitRecv q pt =>
        obtain rfl : q = r := by simpa [hcall, Call.rid] using hf
        rw [hcall] at hrun
        cases pt <;> simp only [runCall] at hrun
        · split at hrun <;> cases hrun
        · cases hrun
        · split at hrun <;> rename_i hb <;> cases hrun
          exact ⟨Option.isNone_iff_eq_none.mp hb, rfl⟩
        · cases hrun
        · cases hrun
        · split at hrun <;> cases hrun
    | none => simp [hcall, runCall] at hrun
    | startSend q pt =>
        rw [hcall] at hrun
        cases pt <;> cases hrun
    | waitSend q pt =>
        rw [hcall] at hrun
        cases pt <;> simp only [runCall] at hrun
        · cases hrun
        · cases hrun
        · cases hrun
        · split at hrun <;> cases hrun
    | mpiWait q =>
        rw [hcall] at hrun
        simp only [runCall] at hrun
        split at hrun <;> cases hrun
    | _ =>
        rw [hcall] at hrun
        cases hrun

end

end Proc

/-! ### The invariant -/

namespace History

structure Inv (nonnull : Prop) (h : History) : Prop where
  shape : h.proc.Shape
  known : h.proc.Known
  listed : h.proc.Listed
  nesting : h.proc.Nesting nonnull
  /-- Nothing was done for a request that is not there yet. -/
  fresh : ∀ r, h.proc.nextRid ≤ r → h.infos r = [] ∧ h.posted r = 0 ∧ h.delivered r = 0
  backup : ∀ r < h.proc.nextRid, (h.proc.reqs r).type.isRecv = true →
    Backup h.proc r (h.posted r) (h.delivered r)
  told : nonnull → ∀ r < h.proc.nextRid, (h.infos r = [] ∧ h.proc.remote r = .zero) ∨
    ∃ info, h.infos r = [info] ∧ h.proc.remote r = info ∧ info.dataAddr ≠ 0

/-- Nothing has changed that the requests depend on, but what the process was told. -/
structure Passive (p p' : Proc) : Prop where
  nested : p'.nested = p.nested
  call : p'.call = p.call
  active : p'.active = p.active
  requestList : p'.requestList = p.requestList
  nextRid : p'.nextRid = p.nextRid
  first : ∀ r, SameFirst (p.reqs r) (p'.reqs r)
  remote : ∀ r, p'.remote r = p.remote r

section
variable {nonnull : Prop} {h h' : History} {r : Rid} {act : HistoryAct} {ans : Answer}

theorem call_infos {c : Option MpiCall} (hc : ∀ q k, c ≠ some (.recv q k)) : (h.call c).infos = h.infos := by
  funext r
  unfold call
  dsimp only
  split
  · exact absurd rfl (hc _ _)
  · rfl

theorem call_posted (c : Option MpiCall) (r : Rid) : (h.call c).posted r = h.posted r + posts r c := by
  unfold call posts
  dsimp only
  split <;> rfl

theorem start_call (p : Proc) (q : Rid) : ∀ r k, (p.start q).2 ≠ some (.recv r k) := by
  intro r k
  unfold Proc.start
  split <;> simp

theorem Inv.passive (hi : h.Inv nonnull) (hS : h'.proc.Shape) (hK : h'.proc.Known)
    (hp : Passive h.proc h'.proc) (hinfos : h'.infos = h.infos) (hposted : h'.posted = h.posted)
    (hdelivered : h'.delivered = h.delivered) : h'.Inv nonnull where
  shape := hS
  known := hK
  listed := by
    refine ⟨?_, ?_⟩
    · rw [hp.call, hp.requestList]
      exact hi.listed.call
    · rw [hp.nested, hp.requestList]
      exact hi.listed.nested
  nesting := hi.nesting.congr hp.nested hp.nextRid (fun r => (hp.first r).type) fun r => (hp.first r).remote
  fresh := by
    rw [hp.nextRid, hinfos, hposted, hdelivered]
    exact hi.fresh
  backup r hr hrecv := by
    rw [hp.nextRid] at hr
    rw [(hp.first r).type] at hrecv
    rw [hposted, hdelivered]
    exact (hi.backup r hr hrecv).congr (hp.first r) (by rw [hp.active])
      (Or.inl ⟨hp.call, fun hn => hp.nested.trans hn⟩)
  told hnn r hr := by
    rw [hp.nextRid] at hr
    rw [hinfos, hp.remote]
    exact hi.told hnn r hr

theorem inv_announces {info : RdmaInfo} (hi : h.Inv nonnull)
    (hs : h.step (.announces r info) = some h') : h'.Inv nonnull := by
  simp only [step, Option.some.injEq] at hs
  subst hs
  refine hi.passive ⟨hi.shape.barrier, hi.shape.typed, hi.shape.pauses, hi.shape.tail, hi.shape.fetching⟩
    ⟨hi.known.list, hi.known.call, hi.known.nested, hi.known.pending⟩ ?_ rfl rfl rfl
  exact ⟨rfl, rfl, rfl, rfl, rfl, fun _ => .refl _, fun _ => rfl⟩

theorem inv_lands {i : Nat} (hi : h.Inv nonnull) (hs : h.step (.lands i) = some h') :
    h'.Inv nonnull := by
  simp only [step] at hs
  split at hs <;> simp only [reduceCtorEq, Option.some.injEq] at hs
  subst hs
  obtain ⟨hS, hK⟩ := shape_retire i hi.shape hi.known
  exact hi.passive hS hK ⟨rfl, rfl, rfl, rfl, rfl, fun _ => .refl _, fun _ => rfl⟩ rfl rfl rfl

theorem setFlag_first (p : Proc) (q : Rid) (v : Int) (r : Rid) :
    SameFirst (p.reqs r) ((p.setReq q fun x => { x with flag := v }).reqs r) := by
  by_cases hr : r = q
  · subst hr
    constructor <;> simp [Proc.setReq]
  · rw [Proc.setReq_other hr]
    exact .refl _

theorem inv_writeFlag {v : Int} (hi : h.Inv nonnull) (hs : h.step (.writeFlag r v) = some h') :
    h'.Inv nonnull := by
  simp only [step, Option.some.injEq] at hs
  subst hs
  have htype : ∀ q, ((h.proc.setReq r fun x => { x with flag := v }).reqs q).type =
      (h.proc.reqs q).type := fun q => (setFlag_first h.proc r v q).type
  refine hi.passive ⟨hi.shape.barrier, Proc.typed_congr hi.shape.typed rfl rfl htype, hi.shape.pauses,
    hi.shape.tail, fun q pt hq => (htype q).trans (hi.shape.fetching q pt hq)⟩
    ⟨hi.known.list, hi.known.call, hi.known.nested, hi.known.pending⟩ ?_ rfl rfl rfl
  refine ⟨rfl, rfl, rfl, rfl, rfl, setFlag_first h.proc r v, fun q => ?_⟩
  by_cases hq : q = r
  · subst hq
    simp [setProc, Proc.remote, Proc.setReq]
  · simp only [setProc, Proc.remote, Proc.setReq_other hq]

theorem inv_delivers (hi : h.Inv nonnull) (hs : h.step (.delivers r) = some h') : h'.Inv nonnull := by
  simp only [step] at hs
  split at hs <;> simp only [reduceCtorEq, Option.some.injEq] at hs
  rename_i hlt
  subst hs
  refine ⟨hi.shape, hi.known, hi.listed, hi.nesting, fun q hq => ?_, fun q hq hrecv => ?_, hi.told⟩
  · obtain ⟨hinfos, hposted, hdelivered⟩ := hi.fresh q hq
    have hne : q ≠ r := by
      rintro rfl
      omega
    exact ⟨hinfos, hposted, (Function.update_of_ne hne ..).trans hdelivered⟩
  · have hk := hi.backup q hq hrecv
    by_cases hqr : q = r
    · subst hqr
      simp only [Function.update_self]
      exact hk.delivers hlt
    · simp only [Function.update_of_ne hqr]
      exact hk

theorem inv_free (hi : h.Inv nonnull) (hs : h.step (.free r) = some h') : h'.Inv nonnull := by
  simp only [step] at hs
  split at hs <;> simp only [reduceCtorEq, Option.some.injEq] at hs
  rename_i hfree
  obtain ⟨⟨hcall, hn⟩, -⟩ := hfree
  subst hs
  have hcall' : (h.proc.free r).call = .none := hcall
  have hn' : (h.proc.free r).nested = [] := hn
  refine ⟨⟨hi.shape.barrier, hi.shape.typed, hi.shape.pauses, hi.shape.tail, hi.shape.fetching⟩,
    ⟨fun q hq => hi.known.list q (List.mem_of_mem_erase hq), hi.known.call, hi.known.nested,
      hi.known.pending⟩, ⟨fun q hq => ?_, fun f hf => ?_⟩,
    hi.nesting.congr rfl rfl (fun _ => rfl) fun _ => rfl, hi.fresh, fun q hq hrecv => ?_, hi.told⟩
  · simp [setProc, hcall', Call.rid] at hq
  · simp [setProc, hn'] at hf
  · exact (hi.backup q hq hrecv).congr (.refl _) rfl (Or.inl ⟨rfl, id⟩)

/-- A request that was just initialised. -/
theorem inv_init_request {type : RequestType} {args : Proc.InitArgs} (hi : h.Inv nonnull)
    (hfree : h.Free) (htype : type = .sendSearch ∨ type = .recvSearch) :
    (h.setProc (h.proc.initRequest type args .zero).1).Inv nonnull := by
  obtain ⟨hcall, hn⟩ := hfree
  obtain ⟨hS, hK⟩ := shape_initRequest type args .zero hi.shape hi.known hcall hn
  obtain ⟨hinfos, hposted, hdelivered⟩ := hi.fresh h.proc.nextRid (Nat.le_refl _)
  have hsearch : type.isSearch = true := by
    rcases htype with rfl | rfl <;> rfl
  have hold : ∀ q, q < h.proc.nextRid →
      (h.proc.initRequest type args .zero).1.reqs q = h.proc.reqs q ∧
        (h.proc.initRequest type args .zero).1.active q = h.proc.active q := fun q hq =>
    ⟨Function.update_of_ne (Nat.ne_of_lt hq) .., Function.update_of_ne (Nat.ne_of_lt hq) ..⟩
  have hlt : ∀ q, q < h.proc.nextRid + 1 → q ≠ h.proc.nextRid → q < h.proc.nextRid :=
    fun q hq hne => Nat.lt_of_le_of_ne (Nat.le_of_lt_succ hq) hne
  refine ⟨hS, hK, ⟨fun q hq => ?_, fun f hf => ?_⟩, Proc.nesting_init hi.nesting hn hsearch args .zero,
    fun q hq => hi.fresh q (Nat.le_of_succ_le hq), fun q hq hrecv => ?_, fun hnn q hq => ?_⟩
  · simp [setProc, Proc.initRequest, hcall, Call.rid] at hq
  · simp [setProc, Proc.initRequest, hn] at hf
  · by_cases hne : q = h.proc.nextRid
    · subst hne
      have ht : type = .recvSearch := by
        rcases htype with rfl | rfl
        · simp [setProc, Proc.initRequest, RequestType.isRecv] at hrecv
        · rfl
      subst ht
      simp only [setProc, hposted, hdelivered]
      refine ⟨Nat.le_refl _, Nat.zero_le _, fun _ => ?_, fun ht => ?_⟩
      · constructor <;> simp [Proc.initRequest, hcall]
      · simp [Proc.initRequest] at ht
    · have hq' := hlt q hq hne
      simp only [setProc, (hold q hq').1] at hrecv ⊢
      exact (hi.backup q hq' hrecv).congr ((hold q hq').1 ▸ .refl _) (hold q hq').2 (Or.inl ⟨rfl, id⟩)
  · by_cases hne : q = h.proc.nextRid
    · subst hne
      refine Or.inl ⟨hinfos, ?_⟩
      simp [setProc, Proc.remote, Proc.initRequest, RdmaInfo.zero]
    · have hq' := hlt q hq hne
      simp only [setProc, Proc.remote, (hold q hq').1]
      exact hi.told hnn q hq'

theorem inv_start (hi : h.Inv nonnull) (hs : h.step (.start r) = some h') : h'.Inv nonnull := by
  simp only [step] at hs
  split at hs <;> simp only [reduceCtorEq, Option.some.injEq] at hs
  rename_i hfree
  obtain ⟨⟨hcall, hn⟩, hr, hact⟩ := hfree
  subst hs
  obtain ⟨hS, hK⟩ := shape_start hi.shape hi.known hcall hn (hi.known.list r hr)
  have hnext := (start_frame (p := h.proc) r).2.2.1.nextRid
  have hposts : ∀ q, h.proc.nextRid ≤ q → posts q (h.proc.start r).2 = 0 := by
    intro q hq
    refine if_neg fun hc => ?_
    rw [Proc.start_posts hc] at hq
    exact absurd (hi.known.list r hr) (Nat.not_lt_of_le hq)
  refine ⟨hS, hK, Proc.listed_start hcall hn hr, Proc.nesting_start hi.nesting r, fun q hq => ?_,
    fun q hq hrecv => ?_, fun hnn q hq => ?_⟩
  · simp only [setProc, hnext] at hq
    obtain ⟨hinfos, hposted, hdelivered⟩ := hi.fresh q hq
    simp only [setProc, call_infos (start_call h.proc r), call_posted, hposts q hq]
    exact ⟨hinfos, hposted, hdelivered⟩
  · simp only [setProc, hnext] at hq
    simp only [setProc, start_type] at hrecv
    simp only [setProc, call_posted]
    exact Proc.backup_start (hi.backup q hq hrecv) hrecv hcall hact
  · simp only [setProc, hnext] at hq
    simp only [setProc, call_infos (start_call h.proc r)]
    have hrem : (h.proc.start r).1.remote q = h.proc.remote q := by
      by_cases hqr : q = r
      · subst hqr
        unfold Proc.start
        split <;> simp [Proc.remote, Proc.setCall, Proc.setReq, Proc.postBackup, Proc.assert]
      · simp only [Proc.remote, (start_frame r).2.2.2.2 q hqr]
    rw [hrem]
    exact hi.told hnn q hq

theorem inv_wait (hi : h.Inv nonnull) (hs : h.step (.wait r) = some h') : h'.Inv nonnull := by
  simp only [step] at hs
  split at hs <;> simp only [reduceCtorEq, Option.some.injEq] at hs
  rename_i hfree
  obtain ⟨⟨hcall, hn⟩, hr, hact⟩ := hfree
  subst hs
  obtain ⟨hS, hK⟩ := shape_wait hi.shape hi.known hn (hi.known.list r hr) hact
  obtain ⟨-, -, -, hreqs, hkept⟩ := wait_frame (p := h.proc) r
  refine ⟨hS, hK, Proc.listed_wait hn hr, Proc.nesting_wait hi.nesting r, fun q hq => ?_,
    fun q hq hrecv => ?_, fun hnn q hq => ?_⟩
  · simp only [setProc, hkept.nextRid] at hq
    exact hi.fresh q hq
  · simp only [setProc, hkept.nextRid] at hq
    simp only [setProc, hreqs] at hrecv
    exact Proc.backup_wait (hi.backup q hq hrecv) hrecv hcall
  · simp only [setProc, hkept.nextRid] at hq
    simp only [setProc, Proc.remote, hreqs]
    exact hi.told hnn q hq

/-- The handshake messages a step receives. -/
theorem run_infos {p : Proc} {c : Option MpiCall} (hrun : h.proc.run ans = some (p, c)) (r : Rid) :
    ((∀ below, h.proc.nested ≠ .receiveInfo r .recv :: below) ∧ (h.call c).infos r = h.infos r ∧
        p.remote r = h.proc.remote r) ∨
      ((∃ below, h.proc.nested = .receiveInfo r .recv :: below) ∧
        (h.call c).infos r = h.infos r ++ [h.proc.counterpart r] ∧
        p.remote r = h.proc.counterpart r) := by
  by_cases htop : ∃ below, h.proc.nested = .receiveInfo r .recv :: below
  · obtain ⟨below, hn⟩ := htop
    obtain ⟨hrem, hc, -⟩ := Proc.run_receive hn hrun
    refine Or.inr ⟨⟨below, hn⟩, ?_, hrem⟩
    subst hc
    simp [call]
  · refine Or.inl ⟨fun below hn => htop ⟨below, hn⟩, ?_, (Proc.run_remote hrun r).resolve_right htop⟩
    unfold call
    dsimp only
    split
    · rename_i q k
      split
      · rename_i hrq
        subst hrq
        exact absurd (Proc.run_recv hrun) htop
      · rfl
    · rfl

theorem inv_run (hi : h.Inv nonnull) (hok : nonnull → h.NonNull (.run ans))
    (hs : h.step (.run ans) = some h') : h'.Inv nonnull := by
  simp only [step] at hs
  split at hs
  case h_2 => simp at hs
  rename_i p c hrun
  split at hs <;> simp only [reduceCtorEq, Option.some.injEq] at hs
  rename_i htrue
  subst hs
  obtain ⟨hS, hK, hkept⟩ := Proc.run_control hi.shape hi.known hrun
  have hinfo : ∀ r below, h.proc.nested = .receiveInfo r .recv :: below → nonnull →
      (h.proc.counterpart r).dataAddr ≠ 0 := fun r below hn hnn => hok hnn ans r below rfl hn
  have hknown : ∀ r below, h.proc.nested = .receiveInfo r .recv :: below → r < h.proc.nextRid := by
    intro r below hn
    exact hi.known.nested (.receiveInfo r .recv) (by simp [hn]) r (by simp [Frame.rids])
  refine ⟨hS, hK, Proc.listed_run hi.listed hi.shape hi.known hrun,
    Proc.nesting_run hi.nesting hi.shape hi.known hinfo hrun, fun q hq => ?_, fun q hq hrecv => ?_,
    fun hnn q hq => ?_⟩
  · simp only [setProc, hkept.nextRid] at hq
    obtain ⟨hinfos, hposted, hdelivered⟩ := hi.fresh q hq
    have hposts : posts q c = 0 := by
      refine if_neg fun hc => ?_
      subst hc
      exact Nat.not_lt_of_le hq (Proc.run_posts hi.known hrun)
    simp only [setProc, call_posted, hposted, hposts]
    refine ⟨?_, trivial, hdelivered⟩
    rcases run_infos hrun q with ⟨-, heq, -⟩ | ⟨⟨below, hn⟩, -⟩
    · rw [heq, hinfos]
    · exact absurd (hknown q below hn) (Nat.not_lt_of_le hq)
  · simp only [setProc, hkept.nextRid] at hq
    have hrecv' : (h.proc.reqs q).type.isRecv = true := by
      rwa [← Proc.run_isRecv hi.shape hi.known hrun q]
    simp only [setProc, call_posted]
    show Backup p q (h.posted q + posts q c) (h.delivered q)
    refine Proc.backup_run (hi.backup q hq hrecv') hi.shape hi.known hrecv'
      (fun below hn => (hi.nesting.recv q below hn).1) (fun x hx htest hflag => ?_) hrun
    subst hx
    simpa only [truthful, hrun, Option.bind_some, htest, hflag, hrecv', Bool.not_true, Bool.false_or,
      beq_iff_eq] using htrue
  · simp only [setProc, hkept.nextRid] at hq
    simp only [setProc]
    rcases run_infos hrun q with ⟨-, heq, hrem⟩ | ⟨⟨below, hn⟩, heq, hrem⟩
    · rw [heq, hrem]
      exact hi.told hnn q hq
    · have hzero := (hi.nesting.recv q below hn).1
      rw [heq, hrem]
      rcases hi.told hnn q hq with ⟨hnil, -⟩ | ⟨info, -, hold, hne⟩
      · exact Or.inr ⟨_, by rw [hnil]; rfl, rfl, hinfo q below hn hnn⟩
      · rw [← hold] at hne
        exact absurd hzero hne

theorem inv_init (h0 : Init h) : h.Inv nonnull where
  shape := by
    refine ⟨?_, ?_, fun hne => absurd h0.nested hne, ?_, ?_⟩
    · rw [h0.worker]
      exact Nat.le_refl _
    · simp [Proc.Typed, h0.call]
    · simp [h0.nested]
    · simp [h0.nested]
  known := by
    refine ⟨?_, ?_, ?_, ?_⟩
    · simp [h0.requestList]
    · simp [h0.call, Call.rid]
    · simp [h0.nested]
    · simp [h0.worker, Worker.idle]
  listed := ⟨by simp [h0.call, Call.rid], by simp [h0.nested]⟩
  nesting := Proc.nesting_nil h0.nested fun r hr => absurd hr (by simp [h0.nextRid])
  fresh r _ := ⟨h0.infos r, h0.posted r, h0.delivered r⟩
  backup r hr := absurd hr (by simp [h0.nextRid])
  told _ r hr := absurd hr (by simp [h0.nextRid])

/-- **Step lemma.** -/
theorem inv_step (hi : h.Inv nonnull) (hok : nonnull → h.NonNull act) (hs : h.step act = some h') :
    h'.Inv nonnull := by
  cases act with
  | sendInit args =>
      simp only [step] at hs
      split at hs <;> simp only [reduceCtorEq, Option.some.injEq] at hs
      rename_i hfree
      exact hs ▸ inv_init_request hi hfree (Or.inl rfl)
  | recvInit args =>
      simp only [step] at hs
      split at hs <;> simp only [reduceCtorEq, Option.some.injEq] at hs
      rename_i hfree
      exact hs ▸ inv_init_request hi hfree (Or.inr rfl)
  | start r => exact inv_start hi hs
  | wait r => exact inv_wait hi hs
  | free r => exact inv_free hi hs
  | run ans => exact inv_run hi hok hs
  | announces r info => exact inv_announces hi hs
  | delivers r => exact inv_delivers hi hs
  | lands i => exact inv_lands hi hs
  | writeFlag r v => exact inv_writeFlag hi hs

/-! ### The receive for the first operation -/

/-- A step that posts a receive: a step of the process, or the Start of a request that has fallen
back. -/
theorem step_posts (hs : h.step act = some h') (hp : h'.posted r ≠ h.posted r) :
    (∃ ans p, h.proc.run ans = some (p, some (.irecv r)) ∧ h'.proc = p) ∨
      ((h.proc.start r).2 = some (.irecv r) ∧ h'.proc = (h.proc.start r).1) := by
  have hcall : ∀ {c : Option MpiCall}, (h.call c).posted r ≠ h.posted r → c = some (.irecv r) := by
    intro c hne
    rw [call_posted, posts] at hne
    by_contra hc
    exact hne (by rw [if_neg hc]; rfl)
  cases act with
  | run ans =>
      simp only [step] at hs
      split at hs
      · rename_i p c hrun
        split at hs <;> simp only [reduceCtorEq, Option.some.injEq] at hs
        subst hs
        obtain rfl := hcall hp
        exact Or.inl ⟨ans, p, hrun, rfl⟩
      · simp at hs
  | start q =>
      simp only [step] at hs
      split at hs <;> simp only [reduceCtorEq, Option.some.injEq] at hs
      subst hs
      have hc := hcall hp
      obtain rfl := Proc.start_posts hc
      exact Or.inr ⟨hc, rfl⟩
  | announces q info =>
      simp only [step, Option.some.injEq] at hs
      subst hs
      exact absurd rfl hp
  | writeFlag q v =>
      simp only [step, Option.some.injEq] at hs
      subst hs
      exact absurd rfl hp
  | _ =>
      simp only [step] at hs
      split at hs <;> simp only [reduceCtorEq, Option.some.injEq] at hs
      subst hs
      exact absurd rfl hp

theorem Inv.firstReceive (hi : h.Inv nonnull) (hr : r < h.proc.nextRid)
    (hrecv : (h.proc.reqs r).type.isRecv = true) : h.FirstReceive r := by
  have hk := hi.backup r hr hrecv
  refine ⟨fun hzero => ?_, fun hone => ?_, fun hone hact => ?_, fun act h' hs hone hp => ?_⟩
  · by_cases ht : (h.proc.reqs r).type = .recvSearch
    · have hs := hk.searching ht
      have hnum := hs.number
      have hact : ¬ h.proc.active r = true := by
        intro ha
        rw [if_pos ha] at hnum
        omega
      rw [hs.count, if_neg fun hb => hact (hs.started hb)]
    · have hnum := (hk.settled ht).number
      omega
  · by_cases ht : (h.proc.reqs r).type = .recvSearch
    · have hcount := (hk.searching ht).count
      split at hcount <;> omega
    · have hs := hk.settled ht
      have hnum := hs.number
      have hcount := hs.count
      split at hcount <;> omega
  · have ht : (h.proc.reqs r).type ≠ .recvSearch := by
      intro ht
      have hnum := (hk.searching ht).number
      rw [if_neg (by simp [hact])] at hnum
      omega
    have hs := hk.settled ht
    have hcount := hs.count
    have hall := hs.all (Or.inl hact)
    split at hcount <;> omega
  · rcases step_posts hs hp with ⟨ans, p, hrun, hp'⟩ | ⟨hstart, hp'⟩
    · subst hp'
      exact Proc.run_posts_null hi.shape hk hrun
    · -- a request that has fallen back has had its first operation
      have ht : (h.proc.reqs r).type = .recvFallback := by
        unfold Proc.start at hstart
        split at hstart <;> simp_all
      have hnum := (hk.settled (by simp [ht])).number
      have hnum' : (h'.proc.reqs r).operationNumber = (h.proc.reqs r).operationNumber + 1 := by
        rw [hp']
        simp [Proc.start, ht, Proc.postBackup, Proc.setReq, Proc.assert]
      omega

/--
**One receive for the first operation**: it is posted after the first Start, once, and
has its message when the first Wait returns, whatever happens around the process.
-/
theorem one_first_receive (h₁ : Reach step anyStep Init h) : ∀ r < h.proc.nextRid,
    (h.proc.reqs r).type.isRecv = true → h.FirstReceive r := by
  have hi : h.Inv False := h₁.invariant (fun _ h0 => inv_init h0) fun _ _ _ hi _ hs =>
    inv_step hi False.elim hs
  exact fun r hr hrecv => hi.firstReceive hr hrecv

/-! ### How deep functions call each other -/

/-- What a step leaves of the addresses of a request that knows them. -/
theorem Inv.unchanged (hi : h.Inv nonnull) (hs : h.step act = some h') (hr : r < h.proc.nextRid)
    (hne : (h.proc.reqs r).remoteDataAddr ≠ 0) : h'.proc.remote r = h.proc.remote r := by
  have hother : ∀ {p : Proc}, p.reqs r = h.proc.reqs r → p.remote r = h.proc.remote r := by
    intro p hreq
    simp only [Proc.remote, hreq]
  cases act with
  | run ans =>
      simp only [step] at hs
      split at hs
      · rename_i p c hrun
        split at hs <;> simp only [reduceCtorEq, Option.some.injEq] at hs
        subst hs
        refine (Proc.run_remote hrun r).resolve_right fun htop => ?_
        obtain ⟨below, hn⟩ := htop
        exact hne (hi.nesting.recv r below hn).1
      · simp at hs
  | start q =>
      simp only [step] at hs
      split at hs <;> simp only [reduceCtorEq, Option.some.injEq] at hs
      subst hs
      by_cases hq : r = q
      · subst hq
        simp only [setProc]
        unfold Proc.start
        split <;> simp [Proc.remote, Proc.setCall, Proc.setReq, Proc.postBackup, Proc.assert]
      · exact hother ((start_frame q).2.2.2.2 r hq)
  | wait q =>
      simp only [step] at hs
      split at hs <;> simp only [reduceCtorEq, Option.some.injEq] at hs
      subst hs
      exact hother (congrFun (wait_frame q).2.2.2.1 r)
  | writeFlag q v =>
      simp only [step, Option.some.injEq] at hs
      subst hs
      by_cases hq : r = q
      · subst hq
        simp [setProc, Proc.remote, Proc.setReq]
      · exact hother (Function.update_of_ne hq ..)
  | announces q info =>
      simp only [step, Option.some.injEq] at hs
      subst hs
      rfl
  | sendInit args =>
      simp only [step] at hs
      split at hs <;> simp only [reduceCtorEq, Option.some.injEq] at hs
      subst hs
      exact hother (Function.update_of_ne (Nat.ne_of_lt hr) ..)
  | recvInit args =>
      simp only [step] at hs
      split at hs <;> simp only [reduceCtorEq, Option.some.injEq] at hs
      subst hs
      exact hother (Function.update_of_ne (Nat.ne_of_lt hr) ..)
  | _ =>
      simp only [step] at hs
      split at hs <;> simp only [reduceCtorEq, Option.some.injEq] at hs
      subst hs
      rfl

/-- The assertions on the type of a request that searches. -/
theorem Inv.asserted (hi : h.Inv nonnull) {f : Frame} {below : List Frame}
    (hn : h.proc.nested = f :: below)
    (hf : ∃ r, f = .progressWaiting r .probe ∨ f = .receiveInfo r .recv)
    (hs : h.step (.run ans) = some h') : h'.proc.failed = h.proc.failed := by
  simp only [step] at hs
  split at hs
  case h_2 => simp at hs
  rename_i p c hrun
  split at hs <;> simp only [reduceCtorEq, Option.some.injEq] at hs
  subst hs
  show p.failed = h.proc.failed
  unfold Proc.run at hrun
  rw [hn] at hrun
  obtain ⟨r, rfl | rfl⟩ := hf
  · have hsearch := hi.nesting.probe r below hn
    simp only [Proc.runFrame, Option.some.injEq] at hrun
    split at hrun
    · rename_i h0
      have hassert := hsearch h0
      cases hrun
      split <;> simp [Proc.assert, Proc.push, Proc.setNested, hassert]
    · cases hrun
      rfl
  · have hassert := (hi.nesting.recv r below hn).2
    cases hrun
    simp [Proc.assert, Proc.push, Proc.setNested, Proc.setReq, hassert]

theorem Inv.bounded (hi : h.Inv True) : h.Bounded := by
  have hdistinct : h.proc.receiving.Nodup := hi.nesting.nodup trivial
  have hsearches : ∀ r ∈ h.proc.receiving, r ∈ h.searching := by
    intro r hr
    obtain ⟨f, hf, hrec⟩ := List.mem_filterMap.mp hr
    cases f with
    | receiveInfo q pt =>
        obtain rfl : q = r := Option.some.inj hrec
        refine List.mem_filter.mpr ⟨hi.listed.nested _ hf q (by simp [Frame.rids]), ?_⟩
        cases pt with
        | test => exact (hi.nesting.test q hf).1
        | recv =>
            cases hn : h.proc.nested with
            | nil => simp [hn] at hf
            | cons g below =>
                rw [hn] at hf
                rcases List.mem_cons.mp hf with rfl | hf
                · exact (hi.nesting.recv q below hn).2
                · have henters := hi.nesting.enters (.receiveInfo q .recv) (by rwa [hn])
                  simp [Frame.enters] at henters
    | _ => cases hrec
  have hle : h.proc.receiving.length ≤ h.searching.length :=
    hdistinct.length_le_of_subset hsearches
  refine ⟨hdistinct, hsearches, hle, ?_, fun r hr => ?_, fun r hr => ?_,
    fun act h' hs r hr hne => hi.unchanged hs hr hne, fun f below hn hf ans h' hs => hi.asserted hn hf hs⟩
  · have hdepth := hi.nesting.depth _ (List.suffix_refl _)
    have hcount : h.proc.nested.countP (·.receives.isSome) = h.proc.receiving.length :=
      (List.length_filterMap_eq_countP ..).symm
    omega
  · rcases hi.told trivial r hr with ⟨hnil, -⟩ | ⟨info, hone, -⟩
    · simp [hnil]
    · simp [hone]
  · rcases hi.told trivial r hr with ⟨hnil, hrem⟩ | ⟨info, hone, hrem, -⟩
    · rw [hnil, hrem]
      rfl
    · rw [hone, hrem]
      rfl

/--
**The recursion of `receive_rdma_info` is bounded** by the requests that search for
their connection, if no address that is received is `NULL`.
-/
theorem reentrance_bounded (h₁ : Reach step NonNull Init h) : h.Bounded :=
  (h₁.invariant (fun _ h0 => inv_init h0) fun _ _ _ hi hok hs => inv_step hi (fun _ => hok) hs).bounded

end

/-! ### A run -/

/-- Nothing was done yet. -/
def freshHistory : History where
  proc := freshWorld.proc
  infos := fun _ => []
  posted := fun _ => 0
  delivered := fun _ => 0

theorem freshHistory_init : Init freshHistory :=
  ⟨rfl, rfl, rfl, rfl, rfl, fun _ => rfl, fun _ => rfl, fun _ => rfl⟩

/-- `n` steps in which every probe and test of the process answers `flag`. -/
def runs (n : Nat) (flag : Bool) : List HistoryAct := List.replicate n (.run ⟨false, flag⟩)

/-- Two requests are started.  The Wait on request 1 finds the info for request 0, and while that
one is received, the info for request 1. -/
def nestedRun : List HistoryAct :=
  [.recvInit ⟨16, 2, 1, 0, 4⟩, .recvInit ⟨32, 2, 1, 1, 8⟩, .announces 0 ⟨24, 12, 0, 0⟩,
    .announces 1 ⟨48, 40, 0, 0⟩, .start 0] ++ runs 4 false ++ [.start 1] ++ runs 4 false ++ [.wait 1] ++
      runs 3 false ++ runs 2 true ++ runs 2 false ++ runs 1 true

/-- Both receives are posted on the way back, and then both Waits return. -/
def firstRun : List HistoryAct :=
  nestedRun ++ runs 14 true ++ [.delivers 1] ++ runs 7 true ++ [.delivers 0, .wait 0] ++ runs 10 true

theorem firstRun_receives :
    match runFrom step freshHistory firstRun with
    | some h => h.FirstReceive 0 ∧ (h.proc.reqs 0).operationNumber = 1 ∧ h.proc.active 0 = false ∧
        h.posted 0 = 1 ∧ h.delivered 0 = 1
    | none => False := by
  have hrun : (runFrom step freshHistory firstRun).any (fun h => decide
      ((0 < h.proc.nextRid ∧ (h.proc.reqs 0).type.isRecv = true) ∧
        (h.proc.reqs 0).operationNumber = 1 ∧ h.proc.active 0 = false ∧
          h.posted 0 = 1 ∧ h.delivered 0 = 1)) = true := by
    decide +kernel
  cases heq : runFrom step freshHistory firstRun with
  | none => simp [heq] at hrun
  | some h =>
      simp only [heq, Option.any_some, decide_eq_true_eq] at hrun
      obtain ⟨⟨hr, hrecv⟩, hrest⟩ := hrun
      exact ⟨one_first_receive (.of_runFrom _ (.init freshHistory_init) heq) 0 hr hrecv, hrest⟩

/-- The condition on the steps, as a test. -/
def nonNull (h : History) : HistoryAct → Bool
  | .run _ =>
      match h.proc.nested with
      | .receiveInfo r .recv :: _ => (h.proc.counterpart r).dataAddr != 0
      | _ => true
  | _ => true

theorem nonNull_sound (h : History) (act : HistoryAct) (ht : nonNull h act = true) : h.NonNull act := by
  rintro ans r below rfl hn
  simpa [nonNull, hn] using ht

theorem nestedRun_bounded :
    match runFrom (guarded nonNull step) freshHistory nestedRun with
    | some h => h.Bounded ∧ h.proc.receiving = [1, 0] ∧ h.searching = [1, 0] ∧
        h.proc.nested.countP Frame.isProgressOther = 2
    | none => False := by
  have hrun : (runFrom (guarded nonNull step) freshHistory nestedRun).any (fun h => decide
      (h.proc.receiving = [1, 0] ∧ h.searching = [1, 0] ∧
        h.proc.nested.countP Frame.isProgressOther = 2)) = true := by
    decide +kernel
  cases heq : runFrom (guarded nonNull step) freshHistory nestedRun with
  | none => simp [heq] at hrun
  | some h =>
      simp only [heq, Option.any_some, decide_eq_true_eq] at hrun
      exact ⟨reentrance_bounded (.of_guarded nonNull_sound _ (.init freshHistory_init) heq), hrun⟩

end History

end CompMatch.Rendezvous

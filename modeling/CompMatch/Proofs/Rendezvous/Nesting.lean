/-
The functions on the stack that receive handshake messages.

`receive_rdma_info` is called for a request that searches for its connection and has no
addresses yet, and it stores them before it calls anything.  So while it is on the stack
for a request nobody calls it for that request again: the recursion through
`progress_other_requests` ends with the requests that search.  All this needs the
address that is received not to be `NULL`; what does not is stated without.
-/
import CompMatch.Proofs.Rendezvous.Requests
import CompMatch.Proofs.Rendezvous.Conn
import CompMatch.Rendezvous.History

namespace CompMatch.Rendezvous

/-- The function has only just been called. -/
def Frame.enters : Frame → Bool
  | .progressWaiting _ .probe | .receiveInfo _ .recv => true
  | _ => false

namespace Proc

/-- What holds of the stack; with `nonnull`, if no address that is received is `NULL`. -/
structure Nesting (nonnull : Prop) (p : Proc) : Prop where
  enters : ∀ f ∈ p.nested.tail, f.enters = false
  probe : ∀ r below, p.nested = .progressWaiting r .probe :: below →
    (p.reqs r).remoteDataAddr = 0 → (p.reqs r).type.isSearch = true
  recv : ∀ r below, p.nested = .receiveInfo r .recv :: below →
    (p.reqs r).remoteDataAddr = 0 ∧ (p.reqs r).type.isSearch = true
  test : ∀ r, .receiveInfo r .test ∈ p.nested →
    (p.reqs r).type.isSearch = true ∧ (nonnull → (p.reqs r).remoteDataAddr ≠ 0)
  nodup : nonnull → p.receiving.Nodup
  connected : ∀ r < p.nextRid, (p.reqs r).type = .send ∨ (p.reqs r).type = .recv →
    (p.reqs r).remoteDataAddr ≠ 0
  /-- `progress_other_requests` is called at the bottom of the stack, or by `receive_rdma_info`. -/
  depth : ∀ fs, fs <:+ p.nested →
    fs.countP Frame.isProgressOther ≤ fs.countP (·.receives.isSome) + 1

section
variable {nonnull : Prop} {p p' : Proc} {r : Rid} {ans : Answer} {c : Option MpiCall}

/-! ### The addresses -/

theorem blind_remote : Blind fun q : MpioptRequest => (RdmaInfo.mk q.remoteDataAddr q.remoteFlagAddr
    q.remoteDataRkey q.remoteFlagRkey) := by
  refine ⟨fun h => ?_, fun _ _ => rfl, fun _ _ => rfl, fun _ _ => rfl⟩
  unfold Moved at h
  rw [h]

/-- Addresses are stored by `receive_rdma_info`, and by nothing else. -/
theorem run_remote (hrun : p.run ans = some (p', c)) (r : Rid) :
    p'.remote r = p.remote r ∨ ∃ below, p.nested = .receiveInfo r .recv :: below := by
  by_cases h : ∃ below, p.nested = .receiveInfo r .recv :: below
  · exact Or.inr h
  · exact Or.inl (run_blind blind_remote hrun r fun below hn => absurd ⟨below, hn⟩ h)

/-- It stores what the message says, and nothing of any other request. -/
theorem run_receive {below : List Frame} (hn : p.nested = .receiveInfo r .recv :: below)
    (hrun : p.run ans = some (p', c)) : p'.remote r = p.counterpart r ∧
      c = some (.recv r (p.commToUse r)) ∧ p'.nested = .receiveInfo r .test :: below := by
  unfold run at hrun
  rw [hn] at hrun
  cases hrun
  refine ⟨?_, rfl, rfl⟩
  simp [remote, push, setReq, assert, setNested]

/-! ### What a function puts on the stack -/

/-- What takes the place of the topmost function when it goes on. -/
inductive Pushes (p : Proc) : Frame → List Frame → Prop
  | returns {f : Frame} : Pushes p f []
  | goes {f g : Frame} (henters : g.enters = false) (hrec : g.receives = f.receives)
      (hdepth : g.isProgressOther = f.isProgressOther) (hrids : ∀ r ∈ g.rids, r ∈ f.rids) :
      Pushes p f [g]
  | fetches {current r : Rid} {rest : List Rid} :
      Pushes p (.progressOther current (r :: rest)) [.progressRecv r .test, .progressOther current rest]
  | probes {current r : Rid} {rest : List Rid} (hsearch : (p.reqs r).type.isSearch = true) :
      Pushes p (.progressOther current (r :: rest))
        [.progressWaiting r .probe, .progressOther current rest]
  | receives {r : Rid} (hnone : (p.reqs r).remoteDataAddr = 0) :
      Pushes p (.progressWaiting r .probe) [.receiveInfo r .recv, .progressWaiting r .post]
  | repeats {r : Rid} :
      Pushes p (.receiveInfo r .test) [.progressOther r p.requestList, .receiveInfo r .test]

theorem progressRequest_pushes {current : Rid} {fs : List Frame} {list : List Rid} :
    ∃ gs, (((p.setNested fs).push (.progressOther current list)).progressRequest ans r).1.nested =
      gs ++ fs ∧ Pushes p (.progressOther current (r :: list)) gs := by
  have hgoes : Pushes p (.progressOther current (r :: list)) [.progressOther current list] :=
    .goes rfl rfl rfl fun _ => List.mem_cons_of_mem _
  unfold progressRequest
  split
  · exact ⟨_, rfl, hgoes⟩
  · exact ⟨_, rfl, .fetches⟩
  · rename_i htype
    exact ⟨[_, _], rfl, .probes (by simp_all [RequestType.isSearch, setNested, push])⟩
  · rename_i htype
    exact ⟨[_, _], rfl, .probes (by simp_all [RequestType.isSearch, setNested, push])⟩
  all_goals
    have hn := (testBackup_frame (p := (p.setNested fs).push (.progressOther current list)) ans r).2.2.2
    exact ⟨[_], hn, hgoes⟩

theorem runFrame_pushes {f : Frame} {fs : List Frame} :
    ∃ gs, ((p.setNested fs).runFrame ans f).1.nested = gs ++ fs ∧ Pushes p f gs := by
  cases f with
  | progressOther current rest =>
      cases rest with
      | nil => exact ⟨[], rfl, .returns⟩
      | cons q rest =>
          simp only [runFrame]
          split
          · exact ⟨[_], rfl, .goes rfl rfl rfl fun _ => List.mem_cons_of_mem _⟩
          · exact progressRequest_pushes
  | progressWaiting q pt =>
      cases pt with
      | probe =>
          simp only [runFrame]
          split
          · rename_i hnone
            split
            · exact ⟨[_, _], rfl, .receives hnone⟩
            · exact ⟨[_], rfl, .goes rfl rfl rfl fun _ => id⟩
          · exact ⟨[_], rfl, .goes rfl rfl rfl fun _ => id⟩
      | post =>
          simp only [runFrame]
          split <;> exact ⟨[], rfl, .returns⟩
  | receiveInfo q pt =>
      cases pt with
      | recv => exact ⟨[_], rfl, .goes rfl rfl rfl fun _ => id⟩
      | test =>
          have hn := (testExchange_frame (p := p.setNested fs) ans q).2.2.2
          have hlist := (testExchange_kept (p := p.setNested fs) ans q).requestList
          simp only [runFrame]
          split
          · exact ⟨[], hn, .returns⟩
          · refine ⟨[.progressOther q p.requestList, .receiveInfo q .test], ?_, .repeats⟩
            simp only [progressOther, push, hn, hlist]
            rfl
  | progressRecv q pt =>
      have hgo : ∀ x : Outcome Point × Local (Rid × RdmaOp), ∃ gs,
          ((p.setNested fs).resumeProgress q x).nested = gs ++ fs ∧ Pushes p (.progressRecv q pt) gs := by
        rintro ⟨o, l⟩
        cases o with
        | goto pt' => exact ⟨[_], rfl, .goes rfl rfl rfl fun _ => id⟩
        | _ => exact ⟨[], rfl, .returns⟩
      exact hgo _

/-- A `receive_rdma_info` that waits for its message returns when that was received. -/
theorem run_spinning (hrun : p.run ans = some (p', c)) (hmem : .receiveInfo r .test ∈ p.nested) :
    (p'.reqs r).rdmaExchangeRequestSend = none ∨ .receiveInfo r .test ∈ p'.nested := by
  unfold run at hrun
  split at hrun
  · rename_i f below hn
    have hp : p' = ((p.setNested below).runFrame ans f).1 := by
      rw [Option.some.inj hrun]
    subst hp
    rw [hn] at hmem
    rcases List.mem_cons.mp hmem with rfl | hmem
    · simp only [runFrame]
      split
      · rename_i hdone
        left
        unfold testExchange
        rw [if_pos hdone]
        simp [setReq]
      · exact Or.inr (List.mem_cons_of_mem _ List.mem_cons_self)
    · right
      obtain ⟨gs, hgs, -⟩ : ∃ gs, ((p.setNested below).runFrame ans f).1.nested = gs ++ below ∧
          Pushes p f gs := runFrame_pushes
      rw [hgs]
      exact List.mem_append_right _ hmem
  · rename_i hn
    rw [hn] at hmem
    exact absurd hmem List.not_mem_nil

/-- What a function of the interface puts on the stack. -/
inductive Calls (p p' : Proc) : Prop
  | nothing (hn : p'.nested = [])
  | progressOther (r : Rid) (hn : p'.nested = [.progressOther r p.requestList])
  | progressWaiting (r : Rid) (hn : p'.nested = [.progressWaiting r .probe]) (hreqs : p'.reqs = p.reqs)
      (hrid : p.call.rid = some r)
      (hsearch : (p.reqs r).type.isSearch = true ∨ (p.reqs r).type = .send)

theorem resume_calls {P : Type} {next : P → Call} {done : Proc → Proc} (hn : p.nested = [])
    (hdone : done = ret ∨ done = (·.finish r)) (x : Outcome P × Local (Rid × RdmaOp)) :
    Calls p (p.resume r next done x) := by
  obtain ⟨o, l⟩ := x
  cases o with
  | goto pt => exact .nothing hn
  | progressOther pt => exact .progressOther r (congrArg (List.cons _) hn)
  | ret => rcases hdone with rfl | rfl <;> exact .nothing hn

theorem runCall_calls (hS : Shape p) (hn : p.nested = []) (hrun : p.runCall ans p.call = some (p', c)) :
    Calls p p' := by
  have htyped := hS.typed
  have hrid : ∀ {q : Rid} {f : Call}, p.call = f → f.rid = some q → p.call.rid = some q := by
    rintro q f rfl h
    exact h
  have htest : ∀ {q : Rid} {f : Call},
      Calls p (((p.testBackup ans q).setCall f).progressOther q) := by
    intro q f
    have hlist := (testBackup_kept (p := p) ans q).requestList
    have hnil := (testBackup_frame (p := p) ans q).2.2.2
    refine .progressOther q ?_
    show .progressOther q (p.testBackup ans q).requestList :: (p.testBackup ans q).nested = _
    rw [hlist, hnil, hn]
  cases hcall : p.call with
  | none => simp [hcall, runCall] at hrun
  | bSend q pt =>
      rw [hcall] at hrun
      cases hrun
      exact resume_calls hn (Or.inl rfl) _
  | bRecv q pt =>
      rw [hcall] at hrun
      cases hrun
      exact resume_calls hn (Or.inl rfl) _
  | eSend q w =>
      rw [hcall] at hrun
      cases hrun
      exact resume_calls hn (Or.inr rfl) _
  | eRecv q w =>
      rw [hcall] at hrun
      cases hrun
      exact resume_calls hn (Or.inr rfl) _
  | startSend q pt =>
      simp only [Typed, hcall] at htyped
      rw [hcall] at hrun
      cases pt <;> cases hrun
      · exact .progressWaiting q (congrArg (List.cons _) hn) rfl (hrid hcall rfl) (Or.inl (by rw [htyped.2]; rfl))
      · exact .nothing hn
  | startRecv q pt =>
      simp only [Typed, hcall] at htyped
      rw [hcall] at hrun
      cases pt <;> simp only [runCall] at hrun
      · cases hrun
        exact .progressWaiting q (congrArg (List.cons _) hn) rfl (hrid hcall rfl) (Or.inl (by rw [htyped.2]; rfl))
      · split at hrun
        · cases hrun
          split <;> exact .nothing hn
        · cases hrun
          exact .nothing hn
      · cases hrun
        exact .nothing hn
      · split at hrun <;> cases hrun <;> exact .nothing hn
  | waitSend q pt =>
      simp only [Typed, hcall] at htyped
      rw [hcall] at hrun
      cases pt <;> simp only [runCall] at hrun
      · cases hrun
        exact .progressWaiting q (congrArg (List.cons _) hn) rfl (hrid hcall rfl)
          (htyped.2.imp (fun h => by rw [h]; rfl) id)
      · split at hrun <;> cases hrun <;> exact .nothing hn
      · cases hrun
        exact htest
      · split at hrun
        · split at hrun <;> cases hrun <;> exact .nothing hn
        · cases hrun
          exact .nothing hn
  | waitRecv q pt =>
      simp only [Typed, hcall] at htyped
      rw [hcall] at hrun
      cases pt <;> simp only [runCall] at hrun
      · split at hrun <;> cases hrun
        · exact .progressOther q (congrArg (List.cons _) hn)
        · exact .nothing hn
      · cases hrun
        exact .progressWaiting q (congrArg (List.cons _) hn) rfl (hrid hcall rfl) (Or.inl (by rw [htyped.2]; rfl))
      · split at hrun <;> cases hrun <;> exact .nothing hn
      · cases hrun
        exact .nothing hn
      · cases hrun
        exact htest
      · split at hrun <;> cases hrun <;> exact .nothing hn
  | mpiWait q =>
      rw [hcall] at hrun
      simp only [runCall] at hrun
      split at hrun <;> cases hrun
      · exact .nothing ((testBackup_frame ans q).2.2.2.trans hn)
      · exact .nothing hn

/-! ### The invariant -/

theorem Pushes.enters {f : Frame} {gs : List Frame} (h : Pushes p f gs) :
    ∀ g ∈ gs.tail, g.enters = false := by
  cases h <;> simp [Frame.enters]

/-- Calls of `progress_other_requests` are no deeper than those of `receive_rdma_info`. -/
theorem Pushes.depth {f : Frame} {fs gs : List Frame} (h : Pushes p f gs)
    (hd : ∀ s, s <:+ f :: fs →
      s.countP Frame.isProgressOther ≤ s.countP (·.receives.isSome) + 1) :
    ∀ s, s <:+ gs ++ fs → s.countP Frame.isProgressOther ≤ s.countP (·.receives.isSome) + 1 := by
  have htop := hd _ (List.suffix_refl _)
  have hbelow : ∀ s, s <:+ fs → _ := fun s hs => hd s (hs.trans (List.suffix_cons f fs))
  have hfs := hbelow fs (List.suffix_refl _)
  have hgoes : ∀ {g : Frame}, g.isProgressOther = f.isProgressOther → g.receives = f.receives →
      ∀ s, s <:+ g :: fs → s.countP Frame.isProgressOther ≤ s.countP (·.receives.isSome) + 1 := by
    intro g hother hrec s hs
    rcases List.suffix_cons_iff.mp hs with rfl | hs
    · simp only [List.countP_cons, hother, hrec]
      simpa only [List.countP_cons] using htop
    · exact hbelow s hs
  have hcalls : ∀ {g g' : Frame}, g'.isProgressOther = f.isProgressOther →
      g'.receives = f.receives → g.isProgressOther = false → ∀ s, s <:+ g :: g' :: fs →
        s.countP Frame.isProgressOther ≤ s.countP (·.receives.isSome) + 1 := by
    intro g g' hother hrec hg s hs
    rcases List.suffix_cons_iff.mp hs with rfl | hs
    · have h1 := hgoes hother hrec _ (List.suffix_refl _)
      rw [List.countP_cons_of_neg (by simp [hg])]
      exact Nat.le_trans h1 (Nat.succ_le_succ (List.Sublist.countP_le (List.sublist_cons_self ..)))
    · exact hgoes hother hrec s hs
  intro s hs
  cases h with
  | returns => exact hbelow s hs
  | goes henters hrec hdepth hrids => exact hgoes hdepth hrec s hs
  | fetches =>
      rename_i current r rest
      have hother : (Frame.progressOther current rest).isProgressOther = true := rfl
      exact hcalls hother rfl rfl s hs
  | probes =>
      rename_i current r rest _
      have hother : (Frame.progressOther current rest).isProgressOther = true := rfl
      exact hcalls hother rfl rfl s hs
  | receives =>
      rename_i r _
      have hother : (Frame.progressWaiting r .post).isProgressOther = false := rfl
      exact hcalls hother rfl rfl s hs
  | repeats =>
      rename_i q
      rcases List.suffix_cons_iff.mp hs with rfl | hs
      · show (Frame.progressOther q p.requestList :: .receiveInfo q .test :: fs).countP _ ≤ _
        rw [List.countP_cons_of_pos rfl, List.countP_cons_of_neg (by simp [Frame.isProgressOther])]
        have h1 : (Frame.progressOther q p.requestList ::
            .receiveInfo q .test :: fs).countP (·.receives.isSome) =
              fs.countP (·.receives.isSome) + 1 := by
          rw [List.countP_cons_of_neg (by simp [Frame.receives]), List.countP_cons_of_pos rfl]
        exact Nat.succ_le_succ (Nat.le_trans hfs (Nat.le_of_eq h1.symm))
      · exact hgoes (g := .receiveInfo q .test) rfl rfl s hs

/-- **A step of the topmost function on the stack.** -/
theorem Nesting.frame {f : Frame} {fs gs : List Frame} (h : p.Nesting nonnull)
    (hn : p.nested = f :: fs) (hpush : Pushes p f gs) (hn' : p'.nested = gs ++ fs)
    (htype : ∀ r, (p'.reqs r).type = (p.reqs r).type)
    (hremote : ∀ r, (p'.reqs r).remoteDataAddr = (p.reqs r).remoteDataAddr ∨ f = .receiveInfo r .recv)
    (hset : ∀ r, f = .receiveInfo r .recv → nonnull → (p'.reqs r).remoteDataAddr ≠ 0)
    (hnext : p'.nextRid = p.nextRid) : p'.Nesting nonnull := by
  have htail : ∀ g ∈ fs, g.enters = false := by
    have h := h.enters
    rwa [hn] at h
  -- what is on top of the stack after the function has returned was there before
  have hreturns : ∀ {g : Frame} {below : List Frame}, gs = [] → p'.nested = g :: below →
      g.enters = false := by
    intro g below hgs hbelow
    rw [hn', hgs, List.nil_append] at hbelow
    exact htail g (by simp [hbelow])
  have htest : ∀ r, .receiveInfo r .test ∈ f :: fs → (p'.reqs r).type.isSearch = true ∧
      (nonnull → (p'.reqs r).remoteDataAddr ≠ 0) := by
    intro r hr
    obtain ⟨hs, h0⟩ := h.test r (by rwa [hn])
    refine ⟨by rwa [htype], fun hnn => ?_⟩
    rcases hremote r with hrem | hf
    · rw [hrem]
      exact h0 hnn
    · exact hset r hf hnn
  have hrecv : ∀ r, f = .receiveInfo r .recv → (p'.reqs r).type.isSearch = true ∧
      (nonnull → (p'.reqs r).remoteDataAddr ≠ 0) := by
    rintro r rfl
    exact ⟨by rw [htype]; exact (h.recv r fs hn).2, hset r rfl⟩
  refine ⟨?_, fun r below hbelow h0 => ?_, fun r below hbelow => ?_, fun r hr => ?_, fun hnn => ?_,
    fun r hr ht => ?_, ?_⟩
  · intro g hg
    rw [hn'] at hg
    have henters := hpush.enters
    cases gs with
    | nil => exact htail g (List.mem_of_mem_tail hg)
    | cons g' gs =>
        rw [List.cons_append, List.tail_cons, List.mem_append] at hg
        exact hg.elim (henters g) (htail g)
  · rw [htype]
    cases hpush with
    | returns => exact absurd (hreturns rfl hbelow) (by simp [Frame.enters])
    | goes henters hrec hdepth hrids =>
        rw [hn', List.cons_append] at hbelow
        rw [List.head_eq_of_cons_eq hbelow] at henters
        simp [Frame.enters] at henters
    | probes hsearch =>
        rw [hn', List.cons_append] at hbelow
        cases List.head_eq_of_cons_eq hbelow
        exact hsearch
    | _ =>
        rw [hn', List.cons_append] at hbelow
        cases List.head_eq_of_cons_eq hbelow
  · cases hpush with
    | returns => exact absurd (hreturns rfl hbelow) (by simp [Frame.enters])
    | goes henters hrec hdepth hrids =>
        rw [hn', List.cons_append] at hbelow
        rw [List.head_eq_of_cons_eq hbelow] at henters
        simp [Frame.enters] at henters
    | receives hnone =>
        rw [hn', List.cons_append] at hbelow
        cases List.head_eq_of_cons_eq hbelow
        rcases hremote r with hrem | hf
        · exact ⟨hrem.trans hnone, by rw [htype]; exact h.probe r fs hn hnone⟩
        · cases hf
    | _ =>
        rw [hn', List.cons_append] at hbelow
        cases List.head_eq_of_cons_eq hbelow
  · rw [hn', List.mem_append] at hr
    rcases hr with hr | hr
    · cases hpush with
      | returns => simp at hr
      | goes henters hrec hdepth hrids =>
          rw [List.mem_singleton] at hr
          rw [← hr] at hrec
          cases f with
          | receiveInfo q pt =>
              obtain rfl : r = q := Option.some.inj hrec
              cases pt with
              | recv => exact hrecv r rfl
              | test => exact htest r List.mem_cons_self
          | _ => cases hrec
      | repeats =>
          rcases List.mem_cons.mp hr with hr | hr
          · cases hr
          · cases List.mem_singleton.mp hr
            exact htest r List.mem_cons_self
      | _ => simp at hr
    · exact htest r (List.mem_cons_of_mem _ hr)
  · have hnodup := h.nodup hnn
    unfold receiving at hnodup ⊢
    rw [hn, List.filterMap_cons] at hnodup
    have hbelow : (fs.filterMap Frame.receives).Nodup := by
      cases hf : f.receives with
      | none => simpa [hf] using hnodup
      | some r =>
          rw [hf] at hnodup
          exact (List.nodup_cons.mp hnodup).2
    rw [hn']
    cases hpush with
    | returns => exact hbelow
    | goes henters hrec hdepth hrids =>
        rw [List.cons_append, List.filterMap_cons, hrec]
        exact hnodup
    | receives hnone =>
        rename_i q
        have hnot : q ∉ fs.filterMap Frame.receives := by
          intro hq
          obtain ⟨g, hg, hgq⟩ := List.mem_filterMap.mp hq
          cases g with
          | receiveInfo q' pt =>
              obtain rfl : q' = q := Option.some.inj hgq
              cases pt with
              | recv => exact absurd (htail _ hg) (by simp [Frame.enters])
              | test => exact (h.test q' (by rw [hn]; exact List.mem_cons_of_mem _ hg)).2 hnn hnone
          | _ => cases hgq
        exact List.nodup_cons.mpr ⟨hnot, hbelow⟩
    | repeats => exact hnodup
    | _ => exact hbelow
  · rw [htype] at ht
    rw [hnext] at hr
    rcases hremote r with hrem | hf
    · rw [hrem]
      exact h.connected r hr ht
    · have hs := (h.recv r fs (by rw [hn, hf])).2
      rcases ht with ht | ht <;> simp [ht, RequestType.isSearch] at hs
  · rw [hn']
    refine hpush.depth ?_
    rw [← hn]
    exact h.depth

/-- Nothing is on the stack. -/
theorem nesting_nil (hn : p.nested = []) (hcon : ∀ r < p.nextRid,
    (p.reqs r).type = .send ∨ (p.reqs r).type = .recv → (p.reqs r).remoteDataAddr ≠ 0) :
    p.Nesting nonnull := by
  refine ⟨?_, ?_, ?_, ?_, fun _ => ?_, hcon, fun fs hfs => ?_⟩
  · simp [hn]
  · simp [hn]
  · simp [hn]
  · simp [hn]
  · simp [receiving, hn]
  · rw [hn, List.suffix_nil] at hfs
    simp [hfs]

/-- Whether requests are connected is all that a step of a call matters for. -/
theorem Nesting.call (h : p.Nesting nonnull) (hK : Known p) (hcalls : Calls p p')
    (hcon : ∀ r < p'.nextRid, (p'.reqs r).type = .send ∨ (p'.reqs r).type = .recv →
      (p'.reqs r).remoteDataAddr ≠ 0) : p'.Nesting nonnull := by
  have hone : ∀ {f : Frame} (fs : List Frame), fs <:+ [f] →
      fs.countP Frame.isProgressOther ≤ fs.countP (·.receives.isSome) + 1 := by
    intro f fs hfs
    have h1 : fs.countP Frame.isProgressOther ≤ fs.length := List.countP_le_length
    have h2 : fs.length ≤ 1 := hfs.length_le
    omega
  cases hcalls with
  | nothing hn => exact nesting_nil hn hcon
  | progressOther r hn =>
      refine ⟨?_, ?_, ?_, ?_, fun _ => ?_, hcon, ?_⟩
      · simp [hn]
      · simp [hn]
      · simp [hn]
      · simp [hn]
      · rw [receiving, hn]
        exact List.nodup_nil
      · rw [hn]
        exact hone
  | progressWaiting r hn hreqs hrid hsearch =>
      refine ⟨?_, fun q below hq h0 => ?_, ?_, ?_, fun _ => ?_, hcon, ?_⟩
      · simp [hn]
      · rw [hn] at hq
        cases hq
        rw [hreqs] at h0 ⊢
        exact hsearch.resolve_right fun hs => h.connected r (hK.call r hrid) (Or.inl hs) h0
      · simp [hn]
      · simp [hn]
      · rw [receiving, hn]
        exact List.nodup_nil
      · rw [hn]
        exact hone

/-- **A step of the process.** -/
theorem nesting_run (h : p.Nesting nonnull) (hS : Shape p) (hK : Known p)
    (hinfo : ∀ r below, p.nested = .receiveInfo r .recv :: below → nonnull →
      (p.counterpart r).dataAddr ≠ 0)
    (hrun : p.run ans = some (p', c)) : p'.Nesting nonnull := by
  have hdecides := run_decides hS hK hrun
  have hnext := (run_control hS hK hrun).2.2.nextRid
  have hremote := fun r => run_remote hrun r
  have hset : ∀ r below, p.nested = .receiveInfo r .recv :: below →
      p'.remote r = p.counterpart r := fun r below hn => (run_receive hn hrun).1
  have hdata : ∀ {q : Rid}, p'.remote q = p.remote q →
      (p'.reqs q).remoteDataAddr = (p.reqs q).remoteDataAddr := fun h => congrArg RdmaInfo.dataAddr h
  unfold run at hrun
  split at hrun
  · rename_i f below hn
    have hp : p' = ((p.setNested below).runFrame ans f).1 := by
      rw [Option.some.inj hrun]
    obtain ⟨gs, hgs, hpush⟩ : ∃ gs, ((p.setNested below).runFrame ans f).1.nested = gs ++ below ∧
        Pushes p f gs := runFrame_pushes
    have hF : Frames p p' below := hp ▸ runFrame_frames hS hK hn
    refine h.frame hn hpush (hp ▸ hgs) hF.type (fun r => ?_) (fun r hf hnn => ?_) hF.kept.nextRid
    · rcases hremote r with hrem | ⟨fs, hfs⟩
      · exact Or.inl (hdata hrem)
      · rw [hn] at hfs
        exact Or.inr (List.head_eq_of_cons_eq hfs)
    · rw [hf] at hn
      have hrem : (p'.reqs r).remoteDataAddr = (p.counterpart r).dataAddr :=
        congrArg RdmaInfo.dataAddr (hset r below hn)
      rw [hrem]
      exact hinfo r below hn hnn
  · rename_i hn
    refine h.call hK (runCall_calls hS hn hrun) fun r hr ht => ?_
    rw [hnext] at hr
    have hrem : (p'.reqs r).remoteDataAddr = (p.reqs r).remoteDataAddr := by
      rcases hremote r with hrem | ⟨fs, hfs⟩
      · exact hdata hrem
      · rw [hn] at hfs
        cases hfs
    rw [hrem]
    rcases hdecides r with heq | ⟨-, ⟨-, h0⟩ | heq⟩ | ⟨-, ⟨-, h0⟩ | heq⟩
    · exact h.connected r hr (heq ▸ ht)
    · exact h0
    · simp [heq] at ht
    · exact h0
    · simp [heq] at ht

/-- Neither the stack changes nor the addresses of a request or its type. -/
theorem Nesting.congr (h : p.Nesting nonnull) (hn : p'.nested = p.nested)
    (hnext : p'.nextRid = p.nextRid)
    (htype : ∀ r, (p'.reqs r).type = (p.reqs r).type)
    (hremote : ∀ r, (p'.reqs r).remoteDataAddr = (p.reqs r).remoteDataAddr) : p'.Nesting nonnull where
  enters := hn ▸ h.enters
  probe r := by
    rw [hn, htype, hremote]
    exact h.probe r
  recv r := by
    rw [hn, htype, hremote]
    exact h.recv r
  test r := by
    rw [hn, htype, hremote]
    exact h.test r
  nodup := by
    rw [receiving, hn]
    exact h.nodup
  connected r := by
    rw [htype, hremote, hnext]
    exact h.connected r
  depth := hn ▸ h.depth

theorem nesting_start (h : p.Nesting nonnull) (r : Rid) : (p.start r).1.Nesting nonnull := by
  refine h.congr (start_frame r).2.1 (start_frame r).2.2.1.nextRid (start_type r) fun q => ?_
  by_cases hq : q = r
  · subst hq
    unfold start
    split <;> simp [setCall, setReq, postBackup, assert]
  · rw [(start_frame r).2.2.2.2 q hq]

theorem nesting_wait (h : p.Nesting nonnull) (r : Rid) : (p.wait r).Nesting nonnull :=
  h.congr (wait_frame r).2.1 (wait_frame r).2.2.2.2.nextRid (fun q => by rw [(wait_frame r).2.2.2.1]) fun q => by
    rw [(wait_frame r).2.2.2.1]

theorem nesting_init (h : p.Nesting nonnull) (hn : p.nested = []) {type : RequestType}
    (htype : type.isSearch = true) (args : InitArgs) (info : RdmaInfo) :
    (p.initRequest type args info).1.Nesting nonnull := by
  refine nesting_nil hn fun r hlt ht => ?_
  by_cases hr : r = p.nextRid
  · subst hr
    simp only [initRequest, Function.update_self] at ht
    rcases ht with rfl | rfl <;> simp [RequestType.isSearch] at htype
  · simp only [initRequest, Function.update_of_ne hr] at hlt ht ⊢
    exact h.connected r (Nat.lt_of_le_of_ne (Nat.le_of_lt_succ hlt) hr) ht

/-! ### The requests of the list -/

/-- Everything the process works on is in the request list. -/
structure Listed (p : Proc) : Prop where
  call : ∀ r, p.call.rid = some r → r ∈ p.requestList
  nested : ∀ f ∈ p.nested, ∀ r ∈ f.rids, r ∈ p.requestList

theorem Pushes.rids {f : Frame} {gs : List Frame} (h : Pushes p f gs) :
    ∀ g ∈ gs, ∀ r ∈ g.rids, r ∈ f.rids ∨ r ∈ p.requestList := by
  intro g hg r hr
  cases h with
  | returns => cases hg
  | goes henters hrec hdepth hrids =>
      rw [List.mem_singleton.mp hg] at hr
      exact Or.inl (hrids r hr)
  | fetches => 
      refine Or.inl ?_
      rcases List.mem_cons.mp hg with rfl | hg
      · exact List.mem_cons.mpr (Or.inl (List.mem_singleton.mp hr))
      · rw [List.mem_singleton.mp hg] at hr
        exact List.mem_cons_of_mem _ hr
  | probes =>
      refine Or.inl ?_
      rcases List.mem_cons.mp hg with rfl | hg
      · exact List.mem_cons.mpr (Or.inl (List.mem_singleton.mp hr))
      · rw [List.mem_singleton.mp hg] at hr
        exact List.mem_cons_of_mem _ hr
  | receives =>
      refine Or.inl ?_
      rcases List.mem_cons.mp hg with rfl | hg
      · exact hr
      · rw [List.mem_singleton.mp hg] at hr
        exact hr
  | repeats =>
      rcases List.mem_cons.mp hg with rfl | hg
      · exact Or.inr hr
      · rw [List.mem_singleton.mp hg] at hr
        exact Or.inl hr

theorem listed_run (h : Listed p) (hS : Shape p) (hK : Known p) (hrun : p.run ans = some (p', c)) :
    Listed p' := by
  have hlist := (run_control hS hK hrun).2.2.requestList
  unfold run at hrun
  split at hrun
  · rename_i f below hn
    have hp : p' = ((p.setNested below).runFrame ans f).1 := by
      rw [Option.some.inj hrun]
    obtain ⟨gs, hgs, hpush⟩ : ∃ gs, ((p.setNested below).runFrame ans f).1.nested = gs ++ below ∧
        Pushes p f gs := runFrame_pushes
    have hF : Frames p p' below := hp ▸ runFrame_frames hS hK hn
    refine ⟨?_, fun g hg r hr => ?_⟩
    · rw [hF.call, hlist]
      exact h.call
    · rw [hp, hgs, List.mem_append] at hg
      rw [hlist]
      rcases hg with hg | hg
      · exact (hpush.rids g hg r hr).elim (h.nested f (by simp [hn]) r) id
      · exact h.nested g (by simp [hn, hg]) r hr
  · rename_i hn
    refine ⟨fun r hr => ?_, fun g hg r hr => ?_⟩
    · rw [hlist]
      rcases (runCall_called hS hK hn hrun).call with hcall | hcall
      · exact h.call r (hcall ▸ hr)
      · simp [hcall, Call.rid] at hr
    · rw [hlist]
      cases runCall_calls hS hn hrun with
      | nothing hn' => simp [hn'] at hg
      | progressOther q hn' =>
          rw [hn', List.mem_singleton] at hg
          rwa [hg] at hr
      | progressWaiting q hn' hreqs hrid hsearch =>
          rw [hn', List.mem_singleton] at hg
          rw [hg] at hr
          rw [List.mem_singleton.mp hr]
          exact h.call q hrid

/-- The user calls a function for a request of the list. -/
theorem listed_call (hn : p'.nested = []) (hr : r ∈ p'.requestList)
    (hcall : ∀ q, p'.call.rid = some q → q = r) : Listed p' where
  call q hq := hcall q hq ▸ hr
  nested f hf := by simp [hn] at hf

theorem listed_start (hcall : p.call = .none) (hn : p.nested = []) (hr : r ∈ p.requestList) :
    Listed (p.start r).1 := by
  refine listed_call ((start_frame r).2.1.trans hn) ((start_frame r).2.2.1.requestList ▸ hr) fun q hq => ?_
  unfold start at hq
  split at hq <;> simp_all [setCall, postBackup, assert, setReq, Call.rid]

theorem listed_wait (hn : p.nested = []) (hr : r ∈ p.requestList) : Listed (p.wait r) := by
  refine listed_call ((wait_frame r).2.1.trans hn) ((wait_frame r).2.2.2.2.requestList ▸ hr) fun q hq => ?_
  unfold wait at hq
  split at hq <;> simp_all [setCall, assert, Call.rid]

end

end Proc

end CompMatch.Rendezvous

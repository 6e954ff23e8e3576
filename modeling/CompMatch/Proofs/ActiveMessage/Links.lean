/-
The links of a network.

Requests are created at any time, and a new one may be matched with one that was there.
That one has not sent or received anything over active messages, so the two begin as the
two sides of a link do.  What was shown of a world then holds of every two requests that
belong together, provided that their buffers have one size and no handler disturbs
`b_recv`.
-/
import CompMatch.Proofs.ActiveMessage.Worlds

namespace CompMatch.ActiveMessage

open Matching

namespace Network

section
variable {mode : Mode} {n n' : Network} {j k : Rank} {r s : Rid} {q : Peer} {p' : Proc} {a : ProcAct}
  {c : Option MpiCall}

/-! ### A new request -/

/-- What `init_request` adds. -/
structure Created (p p' : Proc) (recv : Bool) (args : InitArgs) : Prop where
  nextRid : p'.nextRid = p.nextRid + 1
  old : ∀ r, r ≠ p.nextRid → p'.reqs r = p.reqs r
  isRecv : (p'.type p.nextRid).isRecv = recv
  dest : (p'.reqs p.nextRid).req.dest = args.peer
  tag : (p'.reqs p.nextRid).req.tag = args.tag

theorem Created.lane {p : Proc} {recv : Bool} {args : InitArgs} (h : Created p p' recv args) (b : Bool)
    (peer : Rank) (tag : Int) :
    p'.lane b peer tag = p.lane b peer tag ++ if recv = b ∧ args.peer = peer ∧ args.tag = tag then [p.nextRid] else [] := by
  rw [Proc.lane, Proc.lane, h.nextRid, List.range_succ, List.filter_append]
  congr 1
  · refine List.filter_congr fun r hr => ?_
    rw [Proc.type, h.old r (Nat.ne_of_lt (List.mem_range.mp hr))]
    rfl
  · simp only [List.filter_singleton, h.isRecv, h.dest, h.tag]
    simp [and_assoc]

/-- A request of the other kind was there. -/
theorem Created.was_there {recv : Bool} {args : InitArgs} (h : Created (n.procs k) p' recv args) {i : Rank}
    (hr : r < ((n.setProc k p').procs i).nextRid) (ht : (((n.setProc k p').procs i).type r).isRecv = !recv) :
    r < (n.procs i).nextRid := by
  by_cases hi : i = k
  · subst hi
    rw [procs_setProc_self] at hr ht
    rw [h.nextRid] at hr
    rcases Nat.lt_succ_iff_lt_or_eq.mp hr with hr | rfl
    · exact hr
    · rw [h.isRecv] at ht
      cases recv <;> cases ht
  · rwa [procs_setProc_of_ne _ _ hi] at hr

/-- The request that a new one is matched with was there, with a buffer of its size. -/
theorem Created.counterpart {recv : Bool} {args : InitArgs} (h : Created (n.procs k) p' recv args)
    (hfit : n.fits k recv args = true) (hm : (n.setProc k p').counterpart k (n.procs k).nextRid = some r) :
    r < (n.procs args.peer).nextRid ∧ (n.req args.peer r).size = args.buf.length := by
  have hself : (n.setProc k p').procs k = p' := procs_setProc_self n k p'
  have hopp : ((n.setProc k p').procs args.peer).lane (!recv) k args.tag =
      (n.procs args.peer).lane (!recv) k args.tag := by
    by_cases hk : args.peer = k
    · rw [hk, hself, h.lane, if_neg (by simp), List.append_nil]
    · rw [procs_setProc_of_ne _ _ hk]
  have hnot : (n.procs k).nextRid ∉ (n.procs k).lane recv args.peer args.tag := fun hmem =>
    Nat.lt_irrefl _ (mem_lane.mp hmem).1
  simp only [Network.counterpart, req, hself, show (p'.reqs (n.procs k).nextRid).req.type.isRecv = recv from h.isRecv,
    h.dest, h.tag, hopp, h.lane, and_self, if_true] at hm
  obtain ⟨-, hget⟩ := opposite_eq_some.mp hm
  rw [List.idxOf_append_of_notMem hnot, List.idxOf_cons_self, Nat.add_zero] at hget
  simp only [fits, hget, Option.all_some, beq_iff_eq] at hfit
  exact ⟨(mem_lane.mp (List.mem_of_getElem? hget)).1, hfit⟩

/-- A request without a partner has sent nothing. -/
theorem Inv.silent (h : n.Inv) (hno : ∀ k r, ¬ n.Partners j s k r) :
    (∀ k, n.underWay j s k = []) ∧ n.payload j s = fun _ => [] := by
  refine ⟨fun k => ?_, funext fun x => ?_⟩
  · rw [underWay, List.map_eq_nil_iff]
    refine List.filter_eq_nil_iff.mpr fun x hx ho => ?_
    have hpart : ∃ k r, n.IsFor x k r := by
      rcases List.mem_append.mp hx with hx | hx
      · obtain ⟨k', r, hfor, -⟩ := h.discarded x hx
        exact ⟨k', r, hfor⟩
      · obtain ⟨-, r, hfor⟩ := h.inFlight j k x hx
        exact ⟨k, r, hfor⟩
    obtain ⟨k', r, hfor, -⟩ := hpart
    rw [of_decide_eq_true ho] at hfor
    exact hno k' r hfor
  · by_contra hx
    obtain ⟨k', r, hp⟩ := h.sent j s x hx
    exact hno k' r hp

theorem sendInit_created {p : Proc} {args : InitArgs} : Created p (p.sendInit args).1 false args := by
  have hreq : (p.sendInit args).1.reqs p.nextRid = _ := Function.update_self _ _ _
  refine ⟨rfl, fun r hr => Function.update_of_ne hr _ _, ?_, ?_, ?_⟩
  · rw [Proc.type, hreq]
    rfl
  · rw [hreq]
    rfl
  · rw [hreq]
    rfl

theorem recvInit_created {p : Proc} {args : InitArgs} : Created p (p.recvInit args) true args := by
  have hreq : (p.recvInit args).reqs p.nextRid = _ := Function.update_self _ _ _
  refine ⟨rfl, fun r hr => Function.update_of_ne hr _ _, ?_, ?_, ?_⟩
  · rw [Proc.type, hreq]
    rfl
  · rw [hreq]
    rfl
  · rw [hreq]
    rfl

/-! What the two calls of the user do. -/

theorem act_sendInit {args : InitArgs} (hs : n.act mode k (.sendInit args) = some n') :
    (n.procs k).Free ∧ (∃ c, (n.procs k).act mode (.sendInit args) = some (((n.procs k).sendInit args).1, c)) ∧
      n' = n.setProc k ((n.procs k).sendInit args).1 := by
  unfold Network.act at hs
  split at hs
  · rename_i p' c hact
    split at hs <;> cases hs
    have hact' := hact
    simp only [Proc.act] at hact'
    split at hact'
    · rename_i hf
      obtain rfl : ((n.procs k).sendInit args).1 = p' := congrArg Prod.fst (Option.some.inj hact')
      exact ⟨hf, ⟨c, hact⟩, rfl⟩
    · cases hact'
  · cases hs

theorem act_recvInit {args : InitArgs} (hs : n.act mode k (.recvInit args) = some n') :
    (n.procs k).Free ∧ (n.procs k).act mode (.recvInit args) = some ((n.procs k).recvInit args, none) ∧
      n' = n.setProc k ((n.procs k).recvInit args) := by
  unfold Network.act at hs
  split at hs
  · rename_i p' c hact
    split at hs <;> cases hs
    have hact' := hact
    simp only [Proc.act] at hact'
    split at hact'
    · rename_i hf
      cases hact'
      exact ⟨hf, hact, rfl⟩
    · cases hact'
  · cases hs

/-- A sender that has sent nothing becomes a request that has sent nothing. -/
theorem Unsent.becomes {size : Nat} (hq : Unsent q size) (hpc : (n.procs j).sendPc s = .idle)
    (hquiet : ((n.procs j).reqs s).starts = 0 ∧ ((n.procs j).reqs s).req.ucxRequestDataTransfer = none)
    (hfull : (n.req j s).buf.length = (n.req j s).size) (hsize : (n.req j s).size = size)
    (hsilent : n.underWay j s k = [] ∧ n.payload j s = fun _ => []) (complete : Nat → Bool) :
    ∃ q', Moves mode complete q q' ∧ n.Shows j s k q' := by
  refine ⟨{ q with loc := q.loc.setBuf (n.req j s).buf }, Or.inr ⟨.write (n.req j s).buf, ?_⟩,
    ⟨hq.pc.trans hpc.symm, hq.type, rfl, ?_, ?_, ?_⟩, hq.inFlight.trans hsilent.1.symm,
    hq.payload.trans hsilent.2.symm⟩
  · simp only [Peer.step]
    rw [if_pos ⟨hq.pc, by rw [hfull, hsize, hq.size]⟩]
  · exact hq.size.trans hsize.symm
  · exact hq.transfer.trans hquiet.2.symm
  · exact hq.starts.trans hquiet.1.symm

/-- **A send request is created**, and may become the partner of a receive request. -/
theorem Tracked.sendInit (h : n.Tracked mode) (hinv' : n'.Inv) {args : InitArgs}
    (hs : n.act mode k (.sendInit args) = some n') (hfit : n.fits k false args = true) : n'.Tracked mode := by
  obtain ⟨hinv, hsends, hsh⟩ := h
  obtain ⟨hf, ⟨c, hact⟩, rfl⟩ := act_sendInit hs
  have hnew : Created (n.procs k) ((n.procs k).sendInit args).1 false args := sendInit_created
  have hself : (n.setProc k ((n.procs k).sendInit args).1).procs k = ((n.procs k).sendInit args).1 :=
    procs_setProc_self _ _ _
  have hother : ∀ {i}, i ≠ k → (n.setProc k ((n.procs k).sendInit args).1).procs i = n.procs i :=
    fun hi => procs_setProc_of_ne _ _ hi
  have hreq : ((n.procs k).sendInit args).1.reqs (n.procs k).nextRid = _ := Function.update_self _ _ _
  have hg := grows_setProc hinv hact
  have hidle : ((n.procs k).sendInit args).1.sendPc (n.procs k).nextRid = .idle :=
    sendPc_idle (congrArg (Call.sendPc · _) hf.1) (Or.inl (Function.update_self _ _ _))
  have hstack : StackOk (n.procs k) := World.stackOk_of_nil hf.2
  refine ⟨hinv', hsends.act hinv hstack hact rfl fun s hlt _ => ?_, fun i => ?_⟩
  · rcases Nat.lt_succ_iff_lt_or_eq.mp hlt with hlt | rfl
    · exact Or.inl hlt
    · refine Or.inr ⟨fun _ => ?_, ?_, fun pt hpt => ?_⟩
      · rw [hreq]
        exact ⟨rfl, rfl⟩
      · rw [hreq]
        rfl
      · rw [hidle] at hpt
        cases hpt
  · obtain ⟨peers, hw, hpeers⟩ := hsh i
    have hw' : World.Inv mode ⟨(n.setProc k ((n.procs k).sendInit args).1).procs i, peers⟩ := by
      by_cases hi : i = k
      · subst hi
        rw [hself]
        exact hw.sendInit hf
      · rw [hother hi]
        exact hw
    refine shadowed_of hw' fun t hlt hrecv => ?_
    -- the new request is not a receive request
    have hold : t < (n.procs i).nextRid := hnew.was_there hlt hrecv
    have hq := hpeers t hold (((hg i).isRecv t hold).symm.trans hrecv)
    by_cases hex : (n.setProc k ((n.procs k).sendInit args).1).Partners k (n.procs k).nextRid i t
    · have hno : ∀ j s, ¬ n.Partners j s i t := by
        intro j s hp
        obtain ⟨rfl, rfl⟩ := hex.unique (hp.grows hg)
        exact Nat.lt_irrefl _ hp.send_lt
      have hsilent := hinv.silent (j := k) (s := (n.procs k).nextRid) fun i t hp =>
        Nat.lt_irrefl _ hp.send_lt
      have hdest : args.peer = i := by
        rw [← hnew.dest, ← hex.peer, req, hself]
      have hsize : (n.req i t).size = args.buf.length := hdest ▸ (hnew.counterpart hfit hex.matched).2
      have hsize' : ((n.setProc k ((n.procs k).sendInit args).1).req k (n.procs k).nextRid).size =
          (n.req i t).size := by
        rw [req, hself, hreq, hsize]
        rfl
      obtain ⟨q', hmoves, hshows⟩ : ∃ q', Moves mode _ (peers t) q' ∧ Shows _ k (n.procs k).nextRid i q' :=
        (hq.unsent hno).becomes (by rw [hself]; exact hidle) (by rw [hself, hreq]; exact ⟨rfl, rfl⟩)
          (by rw [req, hself, hreq]; rfl) hsize' ⟨hsilent.1 i, hsilent.2⟩ _
      refine ⟨q', hmoves.advances, fun j s hp => ?_, fun hno' => absurd hex (hno' _ _)⟩
      obtain ⟨rfl, rfl⟩ := hex.unique hp
      exact hshows
    · refine hq.follow hinv hsends hstack hact (fun _ ha => by cases ha) rfl hold fun j s hp => ?_
      have hlt' := hp.send_lt
      by_cases hj : j = k
      · subst hj
        rw [hself] at hlt'
        rcases Nat.lt_succ_iff_lt_or_eq.mp hlt' with hlt' | rfl
        · exact hlt'
        · exact absurd hp hex
      · rwa [hother hj] at hlt'

/-- A send request without a partner is idle, and has sent nothing. -/
theorem Tracked.unmatched_send (h : n.Tracked mode) (hs : s < (n.procs j).nextRid)
    (ht : ((n.procs j).type s).isRecv = false) (hno : ∀ k r, ¬ n.Partners j s k r) :
    (n.procs j).sendPc s = .idle ∧ ((n.procs j).reqs s).starts = 0 ∧
      ((n.procs j).reqs s).req.ucxRequestDataTransfer = none := by
  have hne : (n.procs j).type s ≠ .send := by
    intro he
    obtain ⟨a, ha⟩ := Option.isSome_iff_exists.mp (h.inv.connected j s hs he)
    obtain ⟨k, r, hp, -⟩ := h.inv.arrived j s a ha
    exact hno k r hp
  refine ⟨sendPc_idle ?_ (Or.inr hne), (h.sends j s hs ht).quiet hne⟩
  have hok := (h.inv.procs j).call
  unfold CallOk at hok
  cases hc : (n.procs j).call with
  | bSend s' pt | eSend s' w =>
      rw [hc] at hok
      have hs' : s' ≠ s := by
        rintro rfl
        exact hne hok.2
      simp [Call.sendPc, hs']
  | _ => rfl

/-- **A receive request is created**, and may have a partner already. -/
theorem Tracked.recvInit (h : n.Tracked mode) (hinv' : n'.Inv) {args : InitArgs}
    (hs : n.act mode k (.recvInit args) = some n') (hfit : n.fits k true args = true) : n'.Tracked mode := by
  have hunmatched := fun {j s} => h.unmatched_send (j := j) (s := s)
  obtain ⟨hinv, hsends, hsh⟩ := h
  obtain ⟨hf, hact, rfl⟩ := act_recvInit hs
  have hnew : Created (n.procs k) ((n.procs k).recvInit args) true args := recvInit_created
  have hself : (n.setProc k ((n.procs k).recvInit args)).procs k = (n.procs k).recvInit args :=
    procs_setProc_self _ _ _
  have hother : ∀ {i}, i ≠ k → (n.setProc k ((n.procs k).recvInit args)).procs i = n.procs i :=
    fun hi => procs_setProc_of_ne _ _ hi
  have hreq : ((n.procs k).recvInit args).reqs (n.procs k).nextRid = _ := Function.update_self _ _ _
  have hg := grows_setProc hinv hact
  have hstack : StackOk (n.procs k) := World.stackOk_of_nil hf.2
  -- the new request is not a send request
  have hold : ∀ {j s}, s < ((n.setProc k ((n.procs k).recvInit args)).procs j).nextRid →
      (((n.setProc k ((n.procs k).recvInit args)).procs j).type s).isRecv = false →
        s < (n.procs j).nextRid := hnew.was_there
  have hfollow : ∀ {i t q}, t < (n.procs i).nextRid → n.PeerOf i t q → ∃ q',
      Advances mode (((n.setProc k ((n.procs k).recvInit args)).procs i).linkTo t q)
        (((n.setProc k ((n.procs k).recvInit args)).procs i).linkTo t q') ∧
        (n.setProc k ((n.procs k).recvInit args)).PeerOf i t q' := by
    intro i t q hlt hq
    exact hq.follow hinv hsends hstack hact (fun _ ha => by cases ha) rfl hlt fun j s hp =>
      hold hp.send_lt hp.send
  -- the sender of the new request is chosen
  have hshadow : ∀ bytes : List UInt8, bytes.length = args.buf.length →
      (n.setProc k ((n.procs k).recvInit args)).PeerOf k (n.procs k).nextRid
        (.connected args (n.procs k).amTag bytes) →
      Shadowed mode (n.setProc k ((n.procs k).recvInit args)) k := by
    intro bytes hbytes hpeer
    obtain ⟨peers, hw, hpeers⟩ := hsh k
    have hw' : World.Inv mode ⟨(n.setProc k ((n.procs k).recvInit args)).procs k,
        Function.update peers (n.procs k).nextRid (.connected args (n.procs k).amTag bytes)⟩ := by
      rw [hself]
      exact hw.recvInit hf hbytes
    refine shadowed_of hw' fun t hlt hrecv => ?_
    have hcases : t < (n.procs k).nextRid ∨ t = (n.procs k).nextRid := by
      rw [hself] at hlt
      exact Nat.lt_succ_iff_lt_or_eq.mp hlt
    rcases hcases with hlt' | rfl
    · rw [Function.update_of_ne (Nat.ne_of_lt hlt')]
      exact hfollow hlt' (hpeers t hlt' (((hg k).isRecv t hlt').symm.trans hrecv))
    · rw [Function.update_self]
      exact ⟨_, Or.inl rfl, hpeer⟩
  refine ⟨hinv', hsends.act hinv hstack hact rfl fun s hlt ht => Or.inl ?_, fun i => ?_⟩
  · exact hold (j := k) (by rw [hself]; exact hlt) (by rw [hself]; exact ht)
  · by_cases hi : i = k
    · subst hi
      by_cases hex : ∃ j s, (n.setProc i ((n.procs i).recvInit args)).Partners j s i (n.procs i).nextRid
      · obtain ⟨j, s, hp⟩ := hex
        have hlt := hold hp.send_lt hp.send
        have ht : ((n.procs j).type s).isRecv = false := ((hg j).isRecv s hlt).symm.trans hp.send
        have hno : ∀ k r, ¬ n.Partners j s k r := by
          intro k r hp'
          obtain ⟨rfl, rfl⟩ := hp.unique_recv (hp'.grows hg)
          exact Nat.lt_irrefl _ hp'.recv_lt
        have hsame : ((n.setProc i ((n.procs i).recvInit args)).procs j).reqs s = (n.procs j).reqs s ∧
            ((n.setProc i ((n.procs i).recvInit args)).procs j).sendPc s = (n.procs j).sendPc s := by
          by_cases hj : j = i
          · subst hj
            have hne := Nat.ne_of_lt hlt
            rw [hself]
            refine ⟨hnew.old s hne, sendPc_congr ?_ (Function.update_of_ne hne _ _) ?_⟩
            · rw [hf.1]
              rfl
            · rw [Proc.type, hnew.old s hne]
              rfl
          · rw [hother hj]
            exact ⟨rfl, rfl⟩
        obtain ⟨hidle, hstarts, htransfer⟩ := hunmatched hlt ht hno
        obtain ⟨hfly, hload⟩ := hinv.silent hno
        have hdest : args.peer = j := by
          rw [← hnew.dest, ← hp.symm.1, req, hself]
        obtain ⟨-, hsize⟩ := hnew.counterpart hfit hp.symm.2
        rw [hdest] at hsize
        have hfull := (hsends j s hlt ht).full
        refine hshadow (n.req j s).buf (hfull.trans hsize) ⟨fun j' s' hp' => ?_, fun hno' => absurd hp (hno' j s)⟩
        obtain ⟨rfl, rfl⟩ := hp.unique hp'
        refine ⟨⟨hidle.symm.trans hsame.2.symm, rfl, ?_⟩, (hfly i).symm, hload.symm⟩
        rw [hsame.1]
        exact ⟨rfl, hfull, htransfer.symm, hstarts.symm⟩
      · simp only [not_exists] at hex
        refine hshadow args.buf rfl ⟨fun j s hp => absurd hp (hex j s), fun _ => ?_⟩
        rw [req, hself, hreq]
        exact ⟨rfl, rfl, rfl, rfl, rfl, rfl, rfl⟩
    · obtain ⟨peers, hw, hpeers⟩ := hsh i
      have hw' : World.Inv mode ⟨(n.setProc k ((n.procs k).recvInit args)).procs i, peers⟩ :=
        (hother hi).symm ▸ hw
      refine shadowed_of hw' fun t hlt hrecv => ?_
      rw [hother hi] at hlt hrecv
      exact hfollow hlt (hpeers t hlt hrecv)

/-! ### The whole run -/

theorem tracked_init (h : Init n) : n.Tracked mode := by
  have hrid : ∀ k, (n.procs k).nextRid = 0 := fun k => (h.requests k).2.2
  refine ⟨inv_init h, fun j s hs => ?_, fun k => ⟨fun _ => .connected ⟨[], 0, 0⟩ 0 [], ?_, fun r hr => ?_⟩⟩
  · rw [hrid] at hs
    exact absurd hs (Nat.not_lt_zero _)
  · exact World.inv_init ⟨(h.requests k).1, (h.requests k).2.1, hrid k, (h.free k).1, (h.free k).2⟩
  · rw [hrid] at hr
    exact absurd hr (Nat.not_lt_zero _)

/-- **One step keeps the worlds.** -/
theorem Tracked.step (h : n.Tracked mode) {a : NetworkAct} (hok : n.Fits a ∧ n.Undisturbed a)
    (hs : n.step mode a = some n') : n'.Tracked mode := by
  have hinv' : n'.Inv := h.inv.step hs
  cases a with
  | sendInit k args => exact h.sendInit hinv' hs hok.1
  | recvInit k args => exact h.recvInit hinv' hs hok.1
  | start k r => exact h.start hinv' hs
  | wait k r => exact h.wait hinv' hs
  | free k r => exact h.free hinv' hs
  | run k imm flag =>
      simp only [Network.step] at hs
      split at hs
      · rename_i hucx
        obtain ⟨n₁, hact, rfl⟩ := Option.map_eq_some_iff.mp hs
        exact h.run hinv' hucx hact
      · cases hs
  | write k r bytes =>
      simp only [Network.step] at hs
      split at hs <;> cases hs
      rename_i hc
      exact h.write rfl hinv' hc.1 hc.2.2.1 hc.2.2.2
  | infoArrives j s =>
      simp only [Network.step] at hs
      split at hs
      · split at hs <;> cases hs
        exact h.arrive hinv'
      · cases hs
  | deliver j k imm =>
      simp only [Network.step] at hs
      split at hs
      · rename_i x rest hx
        split at hs <;> cases hs
        rename_i hprog
        have hinv₀ : (n.setChannel j k rest).Inv :=
          h.inv.setChannel fun y hy => hx ▸ List.mem_cons_of_mem _ hy
        obtain ⟨-, r, hfor⟩ := h.inv.inFlight j k x (hx ▸ List.mem_cons_self)
        have hfor' : (n.setChannel j k rest).IsFor x k r := hfor.grows fun _ => .refl
        rcases hfor.handlerOf (h.inv.handlers k) with hr | ⟨hr, -⟩
        · have hr' : ((n.setChannel j k rest).procs k).handlerOf x.amId = some r := hr
          rw [give, hr'] at hinv' ⊢
          exact h.deliver hx hprog hr (hok.2 x rest r hx hr) (hinv₀.note hfor') rfl hinv'
        · have hr' : ((n.setChannel j k rest).procs k).handlerOf x.amId = none := hr
          rw [give, hr'] at hinv' ⊢
          exact h.discard hx rfl hinv'
      · cases hs
  | lands k r number =>
      simp only [Network.step] at hs
      split at hs
      · rename_i hlt
        exact h.lands hinv' hlt hs
      · cases hs

/--
**What was shown of one pair of requests holds of every pair in every network**, as long as
requests that belong together have buffers of one size and no handler disturbs `b_recv`.
-/
theorem links_harmless (h : Reach (Network.step mode) (fun n a => n.Fits a ∧ n.Undisturbed a) Init n) :
    ∀ j s k r, n.Partners j s k r → (n.link j s k r).Harmless mode := by
  have htracked : n.Tracked mode := h.invariant (fun _ h0 => tracked_init h0) fun _ _ _ hi hok hs => hi.step hok hs
  intro j s k r hp
  obtain ⟨peers, hw, hpeers⟩ := htracked.shadowed k
  obtain ⟨hplays, hfly, hload⟩ := (hpeers r hp.recv_lt hp.isRecv).shows j s hp
  obtain ⟨ready, inOrder, timely, once, kept, seen, eager⟩ :=
    World.harmless_of_reach (hw.links r hp.recv_lt hp.isRecv)
  refine ⟨ready, inOrder, timely, once, ?_, ?_, eager⟩
  · have hsent : (n.link j s k r).peer.sent = (peers r).sent := by
      rw [Peer.sent, Peer.sent, hplays.pc, hplays.loc.starts]
      rfl
    have hin : (n.link j s k r).peer.inFlight = (peers r).inFlight := hfly.symm
    rw [hsent, hin]
    exact kept
  · have hpay : (n.link j s k r).peer.payload = (peers r).payload := hload.symm
    rw [hpay]
    exact seen

end

/-- Whether a step is one that fits and disturbs nothing. -/
def orderly (n : Network) : NetworkAct → Bool
  | .sendInit k args => n.fits k false args
  | .recvInit k args => n.fits k true args
  | .deliver j k imm =>
      match n.channels j k with
      | x :: _ =>
          match (n.procs k).handlerOf x.amId with
          | some r => World.undisturbed ⟨n.procs k, World.freshWorld.peers⟩ (.deliver r imm)
          | none => true
      | [] => true
  | _ => true

theorem orderly_sound (n : Network) (a : NetworkAct) (h : orderly n a = true) :
    n.Fits a ∧ n.Undisturbed a := by
  cases a with
  | sendInit k args | recvInit k args => exact ⟨h, trivial⟩
  | deliver j k imm =>
      refine ⟨trivial, fun x rest r hx hr => ?_⟩
      simp only [orderly, hx, hr] at h
      exact World.undisturbed_sound _ _ h
  | _ => exact ⟨trivial, trivial⟩

theorem deliveredRun_harmless :
    match runFrom (guarded orderly (Network.step .eager)) fresh deliveredRun with
    | some n => (∀ j s k r, n.Partners j s k r → (n.link j s k r).Harmless .eager) ∧
        n.counterpart 0 0 = some 1 ∧ n.counterpart 0 1 = some 0 ∧
          ((n.procs 1).reqs 1).returned = [⟨1, [7], false, 1, []⟩]
    | none => False := by
  have hrun : (runFrom (guarded orderly (Network.step .eager)) fresh deliveredRun).any (fun n =>
      decide (n.counterpart 0 0 = some 1 ∧ n.counterpart 0 1 = some 0 ∧
        ((n.procs 1).reqs 1).returned = [⟨1, [7], false, 1, []⟩])) = true := by
    decide +kernel
  cases h : runFrom (guarded orderly (Network.step .eager)) fresh deliveredRun with
  | none => simp [h] at hrun
  | some n =>
      simp only [h, Option.any_some, decide_eq_true_eq] at hrun
      exact ⟨links_harmless (.of_guarded orderly_sound _ (.init fresh_init) h), hrun⟩

end Network

end CompMatch.ActiveMessage

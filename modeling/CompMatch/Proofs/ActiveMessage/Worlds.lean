/-
The worlds of a network.

Each process of a network, with the senders of its receive requests, is a `World`.  A
step of the process is a step of its world.  A step of another process, or of the same
one as a sender, moves the sender whose request it was called for, or none.  A receive
request that has no partner yet has a sender that has not sent anything, whose buffer
holds anything, and that becomes the partner when there is one.
-/
import CompMatch.Proofs.ActiveMessage.Senders

namespace CompMatch.ActiveMessage

open Matching

section
variable {mode : Mode} {p p' : Proc} {ans ans' : Answer} {here here' : Option (List UInt8)} {l : Local}
  {pt : RecvPoint}

/-! ### What the process is told about the other end -/

theorem bRecv_congr (h : l.req.listOfPendingMsgs ≠ [] → here' = here) :
    bRecv mode here' pt l = bRecv mode here pt l := by
  cases pt with
  | progress => rfl
  | fetch =>
      by_cases hl : l.req.listOfPendingMsgs = []
      · simp only [bRecv, bRecvFetch_nil hl]
      · rw [h hl]

/-- The bytes at the other end are read only for a message that waits in the list. -/
theorem run_congr (hok : CallOk p) (hstack : StackOk p) (himm : ans'.imm = ans.imm)
    (hflag : ans'.flag = ans.flag)
    (hremote : ∀ r < p.nextRid, p.type r = .recv → (p.reqs r).req.listOfPendingMsgs ≠ [] →
      ans'.remote r = ans.remote r) : p.run mode ans' = p.run mode ans := by
  have hbRecv : ∀ {r : Rid} {pt : RecvPoint}, r < p.nextRid → p.type r = .recv →
      bRecv mode (ans'.here r) pt (p.reqs r) = bRecv mode (ans.here r) pt (p.reqs r) := by
    intro r pt hlt ht
    refine bRecv_congr fun hl => ?_
    rw [Answer.here, Answer.here, himm, hremote r hlt ht hl]
  have hbackup : ∀ r, p.backupDone ans' r = p.backupDone ans r := fun r => by
    rw [Proc.backupDone, Proc.backupDone, hflag]
  have hexchange : ∀ r, p.exchangeDone ans' r = p.exchangeDone ans r := fun r => by
    rw [Proc.exchangeDone, Proc.exchangeDone, hflag]
  unfold Proc.run
  cases hn : p.nested with
  | cons f below =>
      cases f with
      | progressOther current rest => cases rest <;> rfl
      | progressRecv r pt =>
          obtain ⟨hlt, ht⟩ := hstack.recv hn rfl
          simp only [Proc.runFrame, show (p.setNested below).reqs = p.reqs from rfl, hbRecv hlt ht]
  | nil =>
      unfold CallOk at hok
      cases hc : p.call with
      | bRecv r pt =>
          rw [hc] at hok
          simp only [Proc.runCall, hbRecv hok.1 hok.2.1]
      | bSend r pt => simp only [Proc.runCall, himm]
      | eSend r w => simp only [Proc.runCall, hflag]
      | waitSend r pt | waitRecv r pt => cases pt <;> simp only [Proc.runCall, hbackup, hexchange]
      | mpiWait r => simp only [Proc.runCall, hbackup]
      | none | init r | eRecv r w => rfl

/-- A step of the sender is a step of the link. -/
theorem Moves.advances {r : Rid} {q q' : Peer} (h : Moves mode ((p.linkTo r q).complete mode) q q') :
    Advances mode (p.linkTo r q) (p.linkTo r q') := by
  rcases h with rfl | ⟨a, hs⟩
  · exact Or.inl rfl
  · refine Or.inr ⟨.peer a, trivial, ?_⟩
    simp only [Link.step, Link.peerStep, show (p.linkTo r q).peer = q from rfl, hs]
    rfl

end

namespace Network

/-! ### The sender of a receive request -/

/-- The sender is where process `j` is with request `s`. -/
structure Shows (n : Network) (j : Rank) (s : Rid) (k : Rank) (q : Peer) : Prop where
  plays : Plays (n.procs j) s q
  inFlight : q.inFlight = n.underWay j s k
  payload : q.payload = n.payload j s

/-- The sender may become any request with a buffer of this size. -/
structure Unsent (q : Peer) (size : Nat) : Prop where
  pc : q.pc = .idle
  type : q.loc.req.type = .send
  size : q.loc.req.size = size
  transfer : q.loc.req.ucxRequestDataTransfer = none
  starts : q.loc.starts = 0
  inFlight : q.inFlight = []
  payload : q.payload = fun _ => []

/-- The sender of a receive request is its partner, if it has one. -/
structure PeerOf (n : Network) (k : Rank) (r : Rid) (q : Peer) : Prop where
  shows : ∀ j s, n.Partners j s k r → n.Shows j s k q
  unsent : (∀ j s, ¬ n.Partners j s k r) → Unsent q (n.req k r).size

/-- A process is that of a world whose senders are those of its requests. -/
def Shadowed (mode : Mode) (n : Network) (k : Rank) : Prop :=
  ∃ peers, World.Inv mode ⟨n.procs k, peers⟩ ∧
    ∀ r < (n.procs k).nextRid, ((n.procs k).type r).isRecv = true → n.PeerOf k r (peers r)

/-- Every send request is as `SendOk` says. -/
def SendsOk (n : Network) : Prop :=
  ∀ j s, s < (n.procs j).nextRid → ((n.procs j).type s).isRecv = false → SendOk (n.procs j) s

structure Tracked (mode : Mode) (n : Network) : Prop where
  inv : n.Inv
  sends : n.SendsOk
  shadowed : ∀ k, Shadowed mode n k

section
variable {mode : Mode} {n n' : Network} {j k : Rank} {r s : Rid} {q : Peer} {p' : Proc} {a : ProcAct}
  {c : Option MpiCall}

/-- Requests that were there belonged together before. -/
theorem Partners.old (h : n'.Partners j s k r) (hg : ∀ k, Grows (n.procs k) (n'.procs k))
    (hs : s < (n.procs j).nextRid) (hr : r < (n.procs k).nextRid) : n.Partners j s k r := by
  obtain ⟨hsm, hrm⟩ := h.mem
  obtain ⟨-, hsend, hdest, -⟩ := mem_lane.mp hsm
  obtain ⟨-, hrecv, hpeer, htag⟩ := mem_lane.mp hrm
  have hsend' : (n.req j s).type.isRecv = false := ((hg j).isRecv s hs).symm.trans hsend
  have hdest' : (n.req j s).dest = k := ((hg j).dest s hs).symm.trans hdest
  have htag' : (n'.req j s).tag = (n.req j s).tag := (hg j).tag s hs
  refine ⟨hsend', hdest', ?_⟩
  have hm := h.matched
  simp only [counterpart, show (n'.req j s).type.isRecv = false from hsend,
    show (n'.req j s).dest = k from hdest, htag'] at hm
  simp only [counterpart, hsend', hdest']
  obtain ⟨xs, hxs⟩ := (hg j).lane false k (n.req j s).tag
  obtain ⟨ys, hys⟩ := (hg k).lane (!false) j (n.req j s).tag
  have hnd : ((n'.procs k).lane (!false) j (n.req j s).tag).Nodup := lane_nodup
  rw [hxs, hys] at hm
  rw [hys] at hnd
  refine opposite_of_append hnd (mem_lane.mpr ⟨hs, hsend', hdest', rfl⟩)
    (mem_lane.mpr ⟨hr, ((hg k).isRecv r hr).symm.trans hrecv, ((hg k).dest r hr).symm.trans hpeer, ?_⟩) hm
  exact ((hg k).tag r hr).symm.trans (htag.trans htag')

/-- A request that had no partner has none, or a new one. -/
theorem Partners.unmatched (hno : ∀ j s, ¬ n'.Partners j s k r) (hg : ∀ k, Grows (n.procs k) (n'.procs k))
    (j : Rank) (s : Rid) : ¬ n.Partners j s k r := fun h => hno j s (h.grows hg)

theorem Shows.congr (h : n.Shows j s k q) (hp : n'.procs = n.procs) (hpay : n'.payload = n.payload)
    (hu : n'.underWay j s k = n.underWay j s k) : n'.Shows j s k q := by
  obtain ⟨hplays, hfly, hload⟩ := h
  exact ⟨hp ▸ hplays, hu ▸ hfly, hpay ▸ hload⟩

theorem Partners.congr (h : n.Partners j s k r) (hp : n'.procs = n.procs) : n'.Partners j s k r :=
  h.grows fun _ => hp ▸ .refl

theorem PeerOf.congr (h : n.PeerOf k r q) (hp : n'.procs = n.procs) (hpay : n'.payload = n.payload)
    (hu : ∀ j s, n.Partners j s k r → n'.underWay j s k = n.underWay j s k) : n'.PeerOf k r q := by
  refine ⟨fun j s hpart => ?_, fun hno => ?_⟩
  · have hold : n.Partners j s k r := hpart.congr hp.symm
    exact (h.shows j s hold).congr hp hpay (hu j s hold)
  · rw [req, hp]
    exact h.unsent fun j s hpart => hno j s (hpart.congr hp)

/-! ### A step of a process, seen from every sender -/

theorem procs_emit (x : Option (Rid × AmMsg)) : (n.emit j x).procs = n.procs := by
  cases x <;> rfl

/-- What a process hands to UCX for a request is under way from there. -/
theorem underWay_emit (x : Option (Rid × AmMsg)) {j' : Rank} (hd : (n.req j' s).dest = k) :
    (n.emit j x).underWay j' s k =
      n.underWay j' s k ++ (if j' = j then sentFor s x else none).toList := by
  cases x with
  | none => simp [emit, sentFor]
  | some x =>
      obtain ⟨s', msg⟩ := x
      have hch : (n.emit j (some (s', msg))).channels j' k = if j' = j ∧ k = (n.req j s').dest then
          n.channels j (n.req j s').dest ++ [⟨(j, s'), n.amId j s', msg⟩] else n.channels j' k :=
        channels_setChannel n j _ _ j' k
      have hdis : (n.emit j (some (s', msg))).discarded = n.discarded := rfl
      rw [underWay, underWay, hdis, hch]
      by_cases hj : j' = j
      · subst hj
        by_cases hs : s' = s
        · subst hs
          rw [if_pos ⟨rfl, hd.symm⟩, hd]
          simp [sentFor, List.filter_append, ← List.append_assoc]
        · split
          · rename_i hk
            rw [← hk.2]
            simp [sentFor, List.filter_append, hs]
          · simp [sentFor, hs]
      · simp [hj]

theorem payload_emit (x : Option (Rid × AmMsg)) {j' : Rank} :
    (n.emit j x).payload j' s =
      noted (n.payload j' s) (n.req j' s).buf (if j' = j then sentFor s x else none) := by
  cases x with
  | none => simp [emit, sentFor, noted]
  | some x =>
      obtain ⟨s', msg⟩ := x
      rw [show (n.emit j (some (s', msg))).payload j' s = _ from update_update n.payload j s' _ j' s]
      by_cases hj : j' = j
      · subst hj
        by_cases hs : s = s'
        · subst hs
          simp [sentFor, noted]
        · simp [sentFor, noted, hs, Ne.symm hs]
      · simp [hj, noted]

theorem grows_setProc (h : n.Inv) (hs : (n.procs j).act mode a = some (p', c)) (i : Rank) :
    Grows (n.procs i) ((n.setProc j p').procs i) := by
  by_cases hi : i = j
  · subst hi
    rw [procs_setProc_self]
    exact act_grows (h.procs i) hs
  · rw [procs_setProc_of_ne _ _ hi]
    exact .refl

theorem size_setProc (hs : (n.procs j).act mode a = some (p', c)) {i : Rank} (hr : r < (n.procs i).nextRid) :
    ((n.setProc j p').req i r).size = (n.req i r).size := by
  by_cases hi : i = j
  · subst hi
    rw [req, procs_setProc_self]
    exact (act_retains hs hr).size
  · rw [req, procs_setProc_of_ne _ _ hi]
    rfl

/-- A send request has no transfers into its buffer. -/
theorem Inv.no_transfers (h : n.Inv) (hs : s < (n.procs j).nextRid)
    (ht : ((n.procs j).type s).isRecv = false) : ((n.procs j).reqs s).transfers = [] := by
  refine List.eq_nil_iff_forall_not_mem.mpr fun x hx => ?_
  obtain ⟨o, ho⟩ := Option.isSome_iff_exists.mp (h.held j s hs x (List.mem_append_right _ hx))
  have hrecv := (h.given j s x o ho).isRecv
  rw [ht] at hrecv
  exact Bool.noConfusion hrecv

/-- A message that is complete is so in the link. -/
theorem complete_link (h : n.Inv) (hp : n.Partners j s k r) {x : Nat} (hc : n.complete mode j s x = true)
    {p : Proc} (hr : p.reqs r = (n.procs k).reqs r) : (p.linkTo r q).complete mode x = true := by
  simp only [complete, Bool.or_eq_true, List.any_eq_true, Bool.and_eq_true, decide_eq_true_eq] at hc
  simp only [Link.complete, Bool.or_eq_true, Bool.and_eq_true, decide_eq_true_eq]
  refine hc.imp_right ?_
  rintro ⟨r', -, ⟨ho, htaken⟩, hdone⟩
  rw [hp.peer] at ho htaken hdone
  obtain ⟨-, rfl⟩ := hp.unique_recv (h.given k r' x (j, s) ho)
  rw [show (p.linkTo r' q).recv = (n.procs k).reqs r' from hr]
  exact ⟨htaken, hdone⟩

/-- **A step of a process moves the sender of the request it is about**, and no other. -/
theorem Shows.follow (h : n.Inv) {j' : Rank} (hsend : SendOk (n.procs j') s) (hstack : StackOk (n.procs j))
    (hs : (n.procs j).act mode a = some (p', c))
    (hperm : ∀ ans, a = .run ans → n.ucxPermits mode j ans.imm ans.flag = true)
    (hn' : n' = (n.setProc j p').emit j (a.emits mode (n.procs j)))
    (hp : n.Partners j' s k r) (hq : n.Shows j' s k q) :
    ∃ q', Advances mode ((n'.procs k).linkTo r q) ((n'.procs k).linkTo r q') ∧ n'.Shows j' s k q' := by
  have hprocs : n'.procs = Function.update n.procs j p' := hn' ▸ procs_emit _
  have hg := grows_setProc h hs
  have hdest : ((n.setProc j p').req j' s).dest = k := ((hg j').dest s hp.send_lt).trans hp.peer
  have hfly := underWay_emit (j := j) (a.emits mode (n.procs j)) hdest
  have hload : n'.payload j' s = noted (n.payload j' s) ((n.setProc j p').req j' s).buf
      (if j' = j then sentFor s (a.emits mode (n.procs j)) else none) := by
    rw [hn']
    exact payload_emit _
  rw [← hn'] at hfly
  obtain ⟨hplays, hin, hpay⟩ := hq
  by_cases hj : j' = j
  · subst hj
    have hself : n'.procs j' = p' := by rw [hprocs, Function.update_self]
    rw [if_pos rfl] at hfly hload
    have htr := h.no_transfers hp.send_lt hp.send
    have hstep := act_send (h.procs j') (h.handlers j') hstack hs hp.send_lt hp.send htr hsend
    have himm : ∀ ans, a = .run ans → (n.procs j').nested = [] → (n.procs j').call = .bSend s .post →
        ans.imm = true → mode = .eager := by
      intro ans ha hn hc himm
      simpa [ucxPermits, hn, hc, himm] using hperm ans ha
    have hdone : ∀ ans, a = .run ans → (n.procs j').nested = [] →
        (n.procs j').call = .eSend s (.blocking .check) → ans.flag = true →
        (∀ r, r ≠ s → p'.reqs r = (n.procs j').reqs r) →
        ∀ x ∈ ((n.procs j').reqs s).req.ucxRequestDataTransfer,
          ((n'.procs k).linkTo r q).complete mode x = true := by
      intro ans ha hn hc hflag ho x hx
      have hall := hperm ans ha
      simp only [ucxPermits, hn, hc, hflag, Bool.not_true, Bool.false_or, Option.all_eq_true] at hall
      refine complete_link h hp (hall x hx) ?_
      by_cases hk : k = j'
      · subst hk
        rw [hself]
        refine ho r ?_
        rintro rfl
        exact Bool.noConfusion (hp.isRecv.symm.trans hp.send)
      · rw [hprocs, Function.update_of_ne hk]
    obtain ⟨q', hmoves, hplays', hemit⟩ := hstep.moves hplays himm hdone
    have hbuf : ((n.setProc j' p').req j' s).buf = ((n.procs j').reqs s).req.buf := by
      rw [req, procs_setProc_self, hstep.buf]
    refine ⟨q', hmoves.advances, hself ▸ hplays', ?_, ?_⟩
    · rw [hemit.inFlight, hin, hfly]
      rfl
    · rw [hemit.payload, hpay, hload, hbuf]
  · rw [if_neg hj] at hfly hload
    refine ⟨q, Or.inl rfl, ?_, ?_, ?_⟩
    · rw [hprocs, Function.update_of_ne hj]
      exact hplays
    · rw [hin, hfly]
      exact (List.append_nil _).symm
    · rw [hpay, hload]
      rfl

theorem PeerOf.follow (h : n.Inv) (hsends : n.SendsOk) (hstack : StackOk (n.procs j))
    (hs : (n.procs j).act mode a = some (p', c))
    (hperm : ∀ ans, a = .run ans → n.ucxPermits mode j ans.imm ans.flag = true)
    (hn' : n' = (n.setProc j p').emit j (a.emits mode (n.procs j))) (hr : r < (n.procs k).nextRid)
    (hold : ∀ j' s, n'.Partners j' s k r → s < (n.procs j').nextRid) (hq : n.PeerOf k r q) :
    ∃ q', Advances mode ((n'.procs k).linkTo r q) ((n'.procs k).linkTo r q') ∧ n'.PeerOf k r q' := by
  have hprocs : n'.procs = (n.setProc j p').procs := hn' ▸ procs_emit _
  have hg : ∀ i, Grows (n.procs i) (n'.procs i) := fun i => hprocs ▸ grows_setProc h hs i
  by_cases hex : ∃ j' s, n'.Partners j' s k r
  · obtain ⟨j', s, hp'⟩ := hex
    have hp : n.Partners j' s k r := hp'.old hg (hold j' s hp') hr
    obtain ⟨q', hadv, hshows⟩ := (hq.shows j' s hp).follow h (hsends j' s hp.send_lt hp.send) hstack hs hperm
      hn' hp
    refine ⟨q', hadv, fun i t hpart => ?_, fun hno => absurd hp' (hno j' s)⟩
    obtain ⟨rfl, rfl⟩ := hp'.unique hpart
    exact hshows
  · simp only [not_exists] at hex
    refine ⟨q, Or.inl rfl, fun i t hpart => absurd hpart (hex i t), fun _ => ?_⟩
    rw [req, hprocs]
    rw [show (((n.setProc j p').procs k).reqs r).req.size = (n.req k r).size from size_setProc hs hr]
    exact hq.unsent (Partners.unmatched hex hg)

/-- The senders have moved, and the process has not. -/
theorem shadowed_of {peers : Rid → Peer} (hw : World.Inv mode ⟨n.procs k, peers⟩)
    (hm : ∀ r < (n.procs k).nextRid, ((n.procs k).type r).isRecv = true →
      ∃ q, Advances mode ((n.procs k).linkTo r (peers r)) ((n.procs k).linkTo r q) ∧ n.PeerOf k r q) :
    Shadowed mode n k := by
  have hall : ∀ r, ∃ q, r < (n.procs k).nextRid → ((n.procs k).type r).isRecv = true →
      Advances mode ((n.procs k).linkTo r (peers r)) ((n.procs k).linkTo r q) ∧ n.PeerOf k r q := by
    intro r
    by_cases hr : r < (n.procs k).nextRid ∧ ((n.procs k).type r).isRecv = true
    · obtain ⟨q, hq⟩ := hm r hr.1 hr.2
      exact ⟨q, fun _ _ => hq⟩
    · exact ⟨peers r, fun h1 h2 => absurd ⟨h1, h2⟩ hr⟩
  choose peers' hpeers' using hall
  refine ⟨peers', ⟨fun r hr hrecv => ?_, hw.call, hw.stack, hw.list, hw.handlers⟩,
    fun r hr hrecv => (hpeers' r hr hrecv).2⟩
  exact (hw.links r hr hrecv).advance (hpeers' r hr hrecv).1

/-! ### What the functions do -/

/-- No step disconnects a request. -/
theorem connected_stays (hp : ProcOk (n.procs j)) (hs : (n.procs j).act mode a = some (p', c))
    (hlt : s < (n.procs j).nextRid) (ht : (n.procs j).type s = .send) : p'.type s = .send := by
  cases (act_effect hp hs).2 with
  | sendInit hn ho ht' hc | recvInit hn ho ht' hc =>
      rw [Proc.type, ho s (Nat.ne_of_lt hlt)]
      exact ht
  | steps hn hi hpost htest hrecv =>
      cases hi s with
      | same hsame hc => exact hsame.type.trans ht
      | posted ht' ha he => exact ht'.trans ht
      | decided hsearch ha ht' =>
          rw [show ((n.procs j).reqs s).req.type = _ from ht] at hsearch
          exact absurd hsearch (by decide)

theorem SendsOk.act (hsends : n.SendsOk) (h : n.Inv) (hstack : StackOk (n.procs j))
    (hs : (n.procs j).act mode a = some (p', c))
    (hn' : n' = (n.setProc j p').emit j (a.emits mode (n.procs j)))
    (hnew : ∀ s, s < p'.nextRid → (p'.type s).isRecv = false → s < (n.procs j).nextRid ∨ SendOk p' s) :
    n'.SendsOk := by
  have hprocs : n'.procs = Function.update n.procs j p' := hn' ▸ procs_emit _
  intro i s hlt ht
  rw [hprocs] at hlt ht ⊢
  by_cases hi : i = j
  · subst hi
    rw [Function.update_self] at hlt ht ⊢
    rcases hnew s hlt ht with hold | hok
    · have ht' : ((n.procs i).type s).isRecv = false :=
        ((act_effect (h.procs i) hs).2.isRecv hold).symm.trans ht
      have hok := hsends i s hold ht'
      exact (act_send (h.procs i) (h.handlers i) hstack hs hold ht' (h.no_transfers hold ht') hok).sendOk
        (fun hne he => hne (connected_stays (h.procs i) hs hold he)) hok
    · exact hok
  · rw [Function.update_of_ne hi] at hlt ht ⊢
    exact hsends i s hlt ht

/-- A step that creates no request. -/
theorem tracked_of (hinv' : n'.Inv) (h : n.Inv) (hsends : n.SendsOk) (hstack : StackOk (n.procs j))
    (hs : (n.procs j).act mode a = some (p', c))
    (hperm : ∀ ans, a = .run ans → n.ucxPermits mode j ans.imm ans.flag = true)
    (hn' : n' = (n.setProc j p').emit j (a.emits mode (n.procs j)))
    (hnew : p'.nextRid = (n.procs j).nextRid)
    (hw : ∀ k, ∃ peers, World.Inv mode ⟨(n.setProc j p').procs k, peers⟩ ∧
      ∀ r < (n.procs k).nextRid, ((n.procs k).type r).isRecv = true → n.PeerOf k r (peers r)) :
    Tracked mode n' := by
  have hprocs : n'.procs = (n.setProc j p').procs := hn' ▸ procs_emit _
  have hrid : ∀ i, (n'.procs i).nextRid = (n.procs i).nextRid := by
    intro i
    rw [hprocs]
    by_cases hi : i = j
    · subst hi
      rw [procs_setProc_self, hnew]
    · rw [procs_setProc_of_ne _ _ hi]
  have hg : ∀ i, Grows (n.procs i) (n'.procs i) := fun i => hprocs ▸ grows_setProc h hs i
  refine ⟨hinv', hsends.act h hstack hs hn' fun s hlt _ => Or.inl (hnew ▸ hlt), fun k => ?_⟩
  obtain ⟨peers, hworld, hpeers⟩ := hw k
  refine shadowed_of (hprocs ▸ hworld) fun r hr hrecv => ?_
  rw [hrid] at hr
  refine (hpeers r hr ((hg k).isRecv r hr ▸ hrecv)).follow h hsends hstack hs hperm hn' hr fun i s hpart => ?_
  rw [← hrid]
  exact hpart.send_lt

/-- The same, if the process takes a step of its world. -/
theorem Tracked.act (h : n.Tracked mode) {n₁ : Network} (hinv' : n'.Inv) (hact : n.act mode j a = some n₁)
    (hperm : ∀ ans, a = .run ans → n.ucxPermits mode j ans.imm ans.flag = true)
    (hn' : n' = n₁.emit j (a.emits mode (n.procs j)))
    (hnew : ∀ args, a ≠ .sendInit args ∧ a ≠ .recvInit args)
    (hw : ∀ peers p' c, World.Inv mode ⟨n.procs j, peers⟩ →
      (∀ r < (n.procs j).nextRid, ((n.procs j).type r).isRecv = true → n.PeerOf j r (peers r)) →
        (n.procs j).act mode a = some (p', c) → World.Inv mode ⟨p', peers⟩) : n'.Tracked mode := by
  obtain ⟨hinv, hsends, hsh⟩ := h
  unfold Network.act at hact
  split at hact
  · rename_i p' c hs
    split at hact <;> cases hact
    have hrid : p'.nextRid = (n.procs j).nextRid := by
      cases (act_effect (hinv.procs j) hs).2 with
      | steps hn => exact hn
      | sendInit => exact absurd rfl (hnew _).1
      | recvInit => exact absurd rfl (hnew _).2
    obtain ⟨peers, hworld, hpeers⟩ := hsh j
    refine tracked_of hinv' hinv hsends hworld.stack hs hperm hn' hrid fun k => ?_
    by_cases hk : k = j
    · subst hk
      rw [procs_setProc_self]
      exact ⟨peers, hw peers p' c hworld hpeers hs, hpeers⟩
    · rw [procs_setProc_of_ne _ _ hk]
      exact hsh k
  · cases hact

/-- The bytes of a message in hand are those in the buffer of the sender. -/
theorem bytesFor_eq (h : n.Inv) (hr : r < (n.procs k).nextRid) (hq : n.PeerOf k r q) {x : Nat}
    (hx : x ∈ ((n.procs k).reqs r).held) : n.bytesFor k r x = q.loc.req.buf := by
  obtain ⟨o, ho⟩ := Option.isSome_iff_exists.mp (h.held k r hr x hx)
  obtain ⟨j, s⟩ := o
  have hp : n.Partners j s k r := h.given k r x (j, s) ho
  rw [bytesFor, ho]
  exact (hq.shows j s hp).plays.loc.buf.symm

theorem Tracked.start (h : n.Tracked mode) (hinv' : n'.Inv) (hs : n.act mode k (.start r) = some n') :
    n'.Tracked mode := by
  refine h.act hinv' hs (fun _ ha => by cases ha) rfl (by simp) fun peers p' c hw _ hact => ?_
  simp only [Proc.act] at hact
  split at hact <;> simp only [reduceCtorEq, Option.some.injEq] at hact
  rename_i hf
  obtain rfl : ((n.procs k).start r).1 = p' := by rw [hact]
  exact hw.start hf.1 hf.2.1 hf.2.2

theorem Tracked.wait (h : n.Tracked mode) (hinv' : n'.Inv) (hs : n.act mode k (.wait r) = some n') :
    n'.Tracked mode := by
  refine h.act hinv' hs (fun _ ha => by cases ha) rfl (by simp) fun peers p' c hw _ hact => ?_
  simp only [Proc.act] at hact
  split at hact <;> cases hact
  rename_i hf
  exact hw.wait hf.1 hf.2.1 hf.2.2

theorem Tracked.free (h : n.Tracked mode) (hinv' : n'.Inv) (hs : n.act mode k (.free r) = some n') :
    n'.Tracked mode := by
  refine h.act hinv' hs (fun _ ha => by cases ha) rfl (by simp) fun peers p' c hw _ hact => ?_
  simp only [Proc.act] at hact
  split at hact <;> cases hact
  exact hw.free

/-- One step of the code of a process. -/
theorem Tracked.run (h : n.Tracked mode) {imm flag : Bool} {n₁ : Network}
    (hinv' : (n₁.emit k ((n.procs k).emits mode imm)).Inv) (hucx : n.ucxPermits mode k imm flag = true)
    (hs : n.act mode k (.run (n.answer k imm flag)) = some n₁) :
    Tracked mode (n₁.emit k ((n.procs k).emits mode imm)) := by
  refine h.act hinv' hs (fun ans ha => ?_) rfl (by simp) fun peers p' c hw hpeers hact => ?_
  · cases ha
    exact hucx
  · have hsame : (n.procs k).run mode (World.answer ⟨n.procs k, peers⟩ imm flag) =
        (n.procs k).run mode (n.answer k imm flag) := by
      refine run_congr hw.call hw.stack rfl rfl fun r hlt ht hpend => ?_
      obtain ⟨msg, rest, hl⟩ := List.exists_cons_of_ne_nil hpend
      have hl' : (n.req k r).listOfPendingMsgs = msg :: rest := hl
      have hheld : msg.number ∈ ((n.procs k).reqs r).held := by
        rw [Local.held, hl]
        exact List.mem_append_left _ List.mem_cons_self
      simp only [answer, hl', World.answer]
      exact (bytesFor_eq h.inv hlt (hpeers r hlt (by rw [ht]; rfl)) hheld).symm
    exact hw.run (hsame.trans hact)

/-- The bytes of a message arrive. -/
theorem Tracked.lands (h : n.Tracked mode) (hinv' : n'.Inv) {number : Nat} (hlt : r < (n.procs k).nextRid)
    (hs : n.act mode k (.lands r number (n.bytesFor k r number)) = some n') : n'.Tracked mode := by
  refine h.act hinv' hs (fun _ ha => by cases ha) rfl (by simp) fun peers p' c hw hpeers hact => ?_
  simp only [Proc.act] at hact
  split at hact <;> cases hact
  rename_i hnum
  -- a request with a transfer into its buffer is a receive request
  have hheld : number ∈ ((n.procs k).reqs r).held := List.mem_append_right _ hnum
  have hrecv : ((n.procs k).type r).isRecv = true := by
    obtain ⟨o, ho⟩ := Option.isSome_iff_exists.mp (h.inv.held k r hlt number hheld)
    exact (h.inv.given k r number o ho).isRecv
  rw [bytesFor_eq h.inv hlt (hpeers r hlt hrecv) hheld]
  refine hw.lands (r := r) (n := number) ?_
  simp only [World.link, Link.lands, hnum, if_true, World.setLink, World.setProc, World.setPeer,
    Function.update_eq_self]

/-- MPI brings an id. -/
theorem Tracked.arrive (h : n.Tracked mode) {amIds : Rank → Rid → Option Nat}
    (hinv' : Inv { n with amIds := amIds }) : Tracked mode { n with amIds := amIds } := by
  refine ⟨hinv', h.sends, fun k => ?_⟩
  obtain ⟨peers, hw, hpeers⟩ := h.shadowed k
  exact ⟨peers, hw, fun r hr hrecv => (hpeers r hr hrecv).congr rfl rfl fun _ _ _ => rfl⟩

/-! ### What the user does to a buffer -/

theorem setBuf_grows {p : Proc} {bytes : List UInt8} : Grows p (p.setLoc r ((p.reqs r).setBuf bytes)) := by
  have hinfo : SameInfo (p.reqs r) ((p.reqs r).setBuf bytes) := ⟨rfl, rfl, rfl⟩
  have hkeep : Retains [] (p.reqs r) ((p.reqs r).setBuf bytes) := .of_held rfl rfl rfl rfl
  exact ⟨Nat.le_refl _, fun q _ => congrArg _ (setLoc_sameInfo hinfo q).type,
    fun q _ => (setLoc_retains hkeep q).dest, fun q _ => (setLoc_retains hkeep q).tag,
    fun q _ => (setLoc_sameInfo hinfo q).amId⟩

theorem setBuf_sendPc {p : Proc} {bytes : List UInt8} :
    (p.setLoc r ((p.reqs r).setBuf bytes)).sendPc s = p.sendPc s := by
  have hinfo : SameInfo (p.reqs r) ((p.reqs r).setBuf bytes) := ⟨rfl, rfl, rfl⟩
  exact sendPc_congr rfl rfl (setLoc_sameInfo hinfo s).type

theorem setBuf_sendOk {p : Proc} {bytes : List UInt8} (hb : bytes.length = (p.reqs r).req.size)
    (h : SendOk p s) : SendOk (p.setLoc r ((p.reqs r).setBuf bytes)) s := by
  obtain ⟨hquiet, hfull, hactive⟩ := h
  refine ⟨fun hne => ?_, ?_, fun pt hpt => hactive pt (setBuf_sendPc ▸ hpt)⟩ <;> by_cases hs : s = r
  · subst hs
    rw [setLoc_type] at hne
    rw [show (p.setLoc s ((p.reqs s).setBuf bytes)).reqs s = _ from Function.update_self _ _ _]
    exact hquiet hne
  · have he : (p.setLoc r ((p.reqs r).setBuf bytes)).reqs s = p.reqs s := Function.update_of_ne hs _ _
    rw [Proc.type, he] at hne
    rw [he]
    exact hquiet hne
  · subst hs
    rw [show (p.setLoc s ((p.reqs s).setBuf bytes)).reqs s = _ from Function.update_self _ _ _]
    exact hb
  · have he : (p.setLoc r ((p.reqs r).setBuf bytes)).reqs s = p.reqs s := Function.update_of_ne hs _ _
    rw [he]
    exact hfull

/-- The user fills the buffer of a request that is not in use. -/
theorem Tracked.write (h : n.Tracked mode) {bytes : List UInt8}
    (hn' : n' = n.setProc k ((n.procs k).setLoc r (((n.procs k).reqs r).setBuf bytes))) (hinv' : n'.Inv)
    (hf : (n.procs k).Free) (ha : (n.procs k).active r = false) (hb : bytes.length = (n.req k r).size) :
    n'.Tracked mode := by
  have hprocs : n'.procs = Function.update n.procs k
      ((n.procs k).setLoc r (((n.procs k).reqs r).setBuf bytes)) := hn' ▸ rfl
  have hself : n'.procs k = (n.procs k).setLoc r (((n.procs k).reqs r).setBuf bytes) := by
    rw [hprocs, Function.update_self]
  have hother : ∀ {i}, i ≠ k → n'.procs i = n.procs i := fun hi => by rw [hprocs, Function.update_of_ne hi]
  have hload : n'.payload = n.payload := hn' ▸ rfl
  have hfly : ∀ i t i', n'.underWay i t i' = n.underWay i t i' := fun _ _ _ => hn' ▸ rfl
  have hg : ∀ i, Grows (n.procs i) (n'.procs i) := by
    intro i
    by_cases hi : i = k
    · rw [hi, hself]
      exact setBuf_grows
    · rw [hother hi]
      exact .refl
  have hrid : ∀ i, (n'.procs i).nextRid = (n.procs i).nextRid := by
    intro i
    by_cases hi : i = k
    · rw [hi, hself]
      rfl
    · rw [hother hi]
  have hsize : ∀ i t, (n'.req i t).size = (n.req i t).size := by
    intro i t
    by_cases hi : i = k
    · subst hi
      have hkeep : Retains [] ((n.procs i).reqs r) (((n.procs i).reqs r).setBuf bytes) :=
        .of_held rfl rfl rfl rfl
      rw [req, hself]
      exact (setLoc_retains hkeep t).size
    · rw [req, hother hi]
      rfl
  refine ⟨hinv', fun i t hlt ht => ?_, fun i => ?_⟩
  · rw [hrid] at hlt
    have hok := h.sends i t hlt (((hg i).isRecv t hlt).symm.trans ht)
    by_cases hi : i = k
    · subst hi
      rw [hself]
      exact setBuf_sendOk hb hok
    · rw [hother hi]
      exact hok
  · obtain ⟨peers, hw, hpeers⟩ := h.shadowed i
    have hw' : World.Inv mode ⟨n'.procs i, peers⟩ := by
      by_cases hi : i = k
      · subst hi
        rw [hself]
        exact hw.write (recvPc_idle (by rw [hf.1]; rfl) (Or.inl ha)) hb
      · rw [hother hi]
        exact hw
    refine shadowed_of hw' fun t hlt hrecv => ?_
    rw [hrid] at hlt
    have hq := hpeers t hlt (((hg i).isRecv t hlt).symm.trans hrecv)
    by_cases hex : ∃ j s, n'.Partners j s i t
    · obtain ⟨j, s, hp'⟩ := hex
      obtain ⟨hplays, hin, hpay⟩ := hq.shows j s (hp'.old hg (hrid j ▸ hp'.send_lt) hlt)
      by_cases hjs : j = k ∧ s = r
      · -- the sender's user fills its buffer, too
        obtain ⟨rfl, rfl⟩ := hjs
        have hpc : (peers t).pc = .idle :=
          hplays.pc.trans (sendPc_idle (by rw [hf.1]; rfl) (Or.inl ha))
        have hmoves : Moves mode ((((n'.procs i).linkTo t (peers t)).complete mode)) (peers t)
            { peers t with loc := (peers t).loc.setBuf bytes } := by
          refine Or.inr ⟨.write bytes, ?_⟩
          simp only [Peer.step]
          rw [if_pos ⟨hpc, hb.trans hplays.loc.size.symm⟩]
        refine ⟨_, hmoves.advances, fun i' t' hpart => ?_, fun hno => absurd hp' (hno j s)⟩
        obtain ⟨rfl, rfl⟩ := hp'.unique hpart
        refine ⟨⟨?_, hplays.type, ?_⟩, hin.trans (hfly _ _ _).symm, hpay.trans (by rw [hload])⟩
        · rw [hself, setBuf_sendPc]
          exact hplays.pc
        · rw [hself, show ((n.procs i').setLoc t' _).reqs t' = _ from Function.update_self _ _ _]
          exact ⟨rfl, hplays.loc.size, hplays.loc.transfer, hplays.loc.starts⟩
      · refine ⟨_, Or.inl rfl, fun i' t' hpart => ?_, fun hno => absurd hp' (hno j s)⟩
        obtain ⟨rfl, rfl⟩ := hp'.unique hpart
        refine ⟨?_, hin.trans (hfly _ _ _).symm, hpay.trans (by rw [hload])⟩
        by_cases hj : i' = k
        · subst hj
          have hne : t' ≠ r := fun he => hjs ⟨rfl, he⟩
          obtain ⟨hpc, htype, hloc⟩ := hplays
          rw [hself]
          refine ⟨hpc.trans setBuf_sendPc.symm, htype, ?_⟩
          rw [show ((n.procs i').setLoc r _).reqs t' = _ from Function.update_of_ne hne _ _]
          exact hloc
        · rw [hother hj]
          exact hplays
    · simp only [not_exists] at hex
      refine ⟨_, Or.inl rfl, fun i' t' hpart => absurd hpart (hex i' t'), fun _ => ?_⟩
      rw [hsize]
      exact hq.unsent (Partners.unmatched hex hg)

/-! ### What UCX does with a message -/

/-- The messages of other requests are under way as before. -/
theorem underWay_other {x : Packet} {rest : List Packet} (hx : n.channels j k = x :: rest) {j' k' : Rank}
    (hne : x.origin ≠ (j', s)) : (n.setChannel j k rest).underWay j' s k' = n.underWay j' s k' := by
  have hdis : (n.setChannel j k rest).discarded = n.discarded := rfl
  rw [underWay, underWay, hdis, channels_setChannel]
  split
  · rename_i hk
    rw [hk.1, hk.2, hx]
    rw [hk.1] at hne
    simp [List.filter_append, hne]
  · rfl

/-- A message was the next one under way from its request. -/
theorem underWay_self (h : n.Inv) {x : Packet} {rest : List Packet} (hx : n.channels j k = x :: rest)
    (ho : x.origin = (j, s)) (hp : n.Partners j s k r) (hr : r ∈ (n.procs k).handlers) :
    n.underWay j s k = x.msg :: (n.setChannel j k rest).underWay j s k := by
  have hno : n.discarded.filter (fun y => y.origin = (j, s)) = [] := by
    refine List.filter_eq_nil_iff.mpr fun y hy hyo => ?_
    obtain ⟨k', r', hfor, hmiss⟩ := h.discarded y hy
    have hpart := hfor.1
    rw [of_decide_eq_true hyo] at hpart
    obtain ⟨rfl, rfl⟩ := hp.unique_recv hpart
    exact hmiss hr
  have hdis : (n.setChannel j k rest).discarded = n.discarded := rfl
  rw [underWay, underWay, hdis, channels_setChannel, if_pos ⟨rfl, rfl⟩, hx, List.filter_append,
    List.filter_append, hno]
  simp [ho]

/-- There is no handler any more. -/
theorem Tracked.discard (h : n.Tracked mode) {x : Packet} {rest : List Packet}
    (hx : n.channels j k = x :: rest) (hn' : n' = { n.setChannel j k rest with discarded := n.discarded ++ [x] })
    (hinv' : n'.Inv) : n'.Tracked mode := by
  obtain ⟨hj, r₀, hfor⟩ := h.inv.inFlight j k x (hx ▸ List.mem_cons_self)
  have hprocs : n'.procs = n.procs := hn' ▸ rfl
  refine ⟨hinv', fun i t => hprocs ▸ h.sends i t, fun i => ?_⟩
  obtain ⟨peers, hw, hpeers⟩ := h.shadowed i
  refine ⟨peers, hprocs ▸ hw, fun t hlt hrecv => ?_⟩
  rw [hprocs] at hlt hrecv
  refine (hpeers t hlt hrecv).congr hprocs (hn' ▸ rfl) fun j' s hp => ?_
  have hdis : n'.discarded = n.discarded ++ [x] := hn' ▸ rfl
  have hch : n'.channels = (n.setChannel j k rest).channels := hn' ▸ rfl
  rw [underWay, underWay, hdis, hch, channels_setChannel]
  split
  · rename_i hk
    rw [hk.1, hk.2, hx]
    simp
  · rename_i hk
    have hne : x.origin ≠ (j', s) := by
      intro ho
      have hpart := hfor.1
      rw [ho] at hpart hj
      exact hk ⟨hj, (hp.unique_recv hpart).1.symm⟩
    simp [List.filter_append, hne]

/-- A handler runs. -/
theorem Tracked.deliver (h : n.Tracked mode) {x : Packet} {rest : List Packet} {imm : Bool}
    (hx : n.channels j k = x :: rest) (hprog : (n.procs k).progressing = true)
    (hr : (n.procs k).handlerOf x.amId = some r)
    (hok : (n.req k r).isReadyToRecv = true → ¬ (n.procs k).inBRecv r)
    (hinv₀ : ((n.setChannel j k rest).note k r x).Inv)
    (hn' : n' = ((n.setChannel j k rest).note k r x).setProc k ((n.procs k).setLoc r
      (incomingAmMsgHandler mode (if imm then some (n.req x.origin.1 x.origin.2).buf else none) x.msg
        ((n.procs k).reqs r)))) (hinv' : n'.Inv) : n'.Tracked mode := by
  obtain ⟨hj, r₀, hfor⟩ := h.inv.inFlight j k x (hx ▸ List.mem_cons_self)
  obtain rfl : r₀ = r := by
    rcases hfor.handlerOf (h.inv.handlers k) with he | he
    · exact Option.some.inj (he.symm.trans hr)
    · rw [he.1] at hr
      cases hr
  have hmem := ((handlerOf_iff (h.inv.handlers k)).mp hr).1
  obtain ⟨⟨j', s⟩, amId, msg⟩ := x
  obtain rfl : j' = j := hj
  have hp : n.Partners j' s k r₀ := hfor.1
  obtain ⟨peers, hw, hpeers⟩ := h.shadowed k
  have hq := (hpeers r₀ hp.recv_lt hp.isRecv).shows j' s hp
  have hself := underWay_self h.inv hx rfl hp hmem
  -- the world of the receiver
  have hw' : World.Inv mode ⟨(n.procs k).setLoc r₀ (incomingAmMsgHandler mode
      (if imm then some (n.req j' s).buf else none) msg ((n.procs k).reqs r₀)),
      Function.update peers r₀ { peers r₀ with inFlight := (n.setChannel j' k rest).underWay j' s k }⟩ := by
    have hbuf : (n.req j' s).buf = (peers r₀).loc.req.buf := hq.plays.loc.buf.symm
    have hset : World.setLink ⟨n.procs k, peers⟩ r₀ ((World.link ⟨n.procs k, peers⟩ r₀).deliver mode imm) =
        some ⟨(n.procs k).setLoc r₀ (incomingAmMsgHandler mode
            (if imm then some (n.req j' s).buf else none) msg ((n.procs k).reqs r₀)),
          Function.update peers r₀
            { peers r₀ with inFlight := (n.setChannel j' k rest).underWay j' s k }⟩ := by
      simp only [World.link, Link.deliver, hq.inFlight, hself, World.setLink, World.setProc, World.setPeer,
        Link.here, hbuf]
    exact hw.deliver hprog hok hset
  have hact : (n.procs k).act mode (.deliver r₀ msg (if imm then some (n.req j' s).buf else none)) =
      some ((n.procs k).setLoc r₀ (incomingAmMsgHandler mode
        (if imm then some (n.req j' s).buf else none) msg ((n.procs k).reqs r₀)), none) := by
    simp only [Proc.act]
    rw [if_pos ⟨hprog, hmem⟩]
  -- the senders of the other requests
  have hkeep : ∀ {i t q}, n.PeerOf i t q → ¬ (i = k ∧ t = r₀) →
      PeerOf ((n.setChannel j' k rest).note k r₀ ⟨(j', s), amId, msg⟩) i t q := by
    intro i t q hq hne
    refine hq.congr rfl rfl fun j₁ s₁ hp₁ => underWay_other hx fun ho => hne ?_
    cases ho
    exact hp.unique_recv hp₁
  refine tracked_of hinv' hinv₀ h.sends hw.stack hact (fun _ ha => by cases ha) hn' rfl fun i => ?_
  by_cases hi : i = k
  · subst hi
    refine ⟨Function.update peers r₀
      { peers r₀ with inFlight := (n.setChannel j' i rest).underWay j' s i }, ?_, fun t hlt hrecv => ?_⟩
    · rw [procs_setProc_self]
      exact hw'
    · by_cases ht : t = r₀
      · subst ht
        rw [Function.update_self]
        refine ⟨fun j₁ s₁ hp₁ => ?_, fun hno => (hno j' s (hp.congr rfl)).elim⟩
        obtain ⟨rfl, rfl⟩ := hp.unique (hp₁.congr rfl)
        exact ⟨⟨hq.plays.pc, hq.plays.type, hq.plays.loc⟩, rfl, hq.payload⟩
      · rw [Function.update_of_ne ht]
        exact hkeep (hpeers t hlt hrecv) fun he => ht he.2
  · obtain ⟨peers', hw₁, hpeers'⟩ := h.shadowed i
    refine ⟨peers', ?_, fun t hlt hrecv => hkeep (hpeers' t hlt hrecv) fun he => hi he.1⟩
    rw [procs_setProc_of_ne _ _ hi]
    exact hw₁

end

end Network

end CompMatch.ActiveMessage

/-
When the Wait of a receive request returns.

One thing keeps the protocol of a request from following its code:
`progress_recv_request`, called from inside the polling loop of the Wait on that very
request, starts the transfer and leaves the handle of its flush to a Wait that is past
looking at it.  In runs where this does not happen, every Wait returns with its
payload across and with no handle left.
-/
import CompMatch.Proofs.Rendezvous.Conn

namespace CompMatch.Rendezvous

/-! ### Steps of the process -/

/-- No flush that `progress_recv_request` issues for the request whose own Wait called for it is
left incomplete. -/
def World.NotLeftPending (w : World) (act : WorldAct) : Prop :=
  ∀ ans r wait, act = .run ans → w.proc.call = .eRecv r wait → w.proc.prog r = some .flush →
    ucpEpFlushNb (w.proc.toEp r) ans.imm w.proc.worker = none

/-- What a receive request that went over RDMA has when its Wait has returned. -/
def World.WaitComplete (w : World) : Prop :=
  ∀ r < w.proc.nextRid, (w.proc.reqs r).type = .recv → w.proc.active r = false →
    1 < (w.proc.reqs r).operationNumber →
    (w.proc.reqs r).ucxRequestDataTransfer = none ∧ (w.proc.reqs r).ucxRequestFlagTransfer = none ∧
      transfersOf (w.landed r) (w.proc.reqs r).operationNumber = 1

theorem inv_init {w : World} (h : World.Init w) : World.Inv w where
  shape := ⟨by rw [h.worker]; exact Nat.le_refl _, by simp [Proc.Typed, h.call], by simp [h.nested],
    by simp [h.nested], by simp [h.nested]⟩
  known := ⟨by simp [h.requestList], by simp [h.call, Call.rid], by simp [h.nested],
    by simp [h.worker, Worker.idle]⟩
  landed r _ := h.landed r
  conn r hr := by
    rw [h.nextRid] at hr
    exact absurd hr (Nat.not_lt_zero r)

/-- The protocols of the requests that were there go on. -/
def World.GoesOn (w w' : World) : Prop :=
  ∀ r < w.proc.nextRid, w'.proc.Tracked r → ∀ a, Conn w r a → ∃ a', Linked a a' ∧ Conn w' r a'

section
variable {w w' : World}

/-- The invariant, from what a step does to the process and to the protocols. -/
theorem World.GoesOn.inv (h : World.Inv w) (hg : w.GoesOn w')
    (hctl : w'.proc.Shape ∧ w'.proc.Known) (hnext : w'.proc.nextRid = w.proc.nextRid)
    (hl : ∀ r, w.proc.nextRid ≤ r → w'.landed r = w.landed r)
    (ht : ∀ r, w'.proc.Tracked r → w.proc.Tracked r) : World.Inv w' := by
  refine ⟨hctl.1, hctl.2, fun r hr => ?_, fun r hr hr' => ?_⟩
  · rw [hl r (hnext ▸ hr)]
    exact h.landed r (hnext ▸ hr)
  · obtain ⟨a, ha⟩ := h.conn r (hnext ▸ hr) (ht r hr')
    obtain ⟨a', -, ha'⟩ := hg r (hnext ▸ hr) hr' a ha
    exact ⟨a', ha'⟩

theorem goesOn_run {ans : Answer} (h : World.Inv w) (hok : w.NotLeftPending (.run ans))
    (hs : w.step (.run ans) = some w') : w.GoesOn w' := by
  obtain ⟨p, c, hrun, rfl⟩ := World.step_code hs
  obtain ⟨-, -, hk⟩ := Proc.run_control h.shape h.known hrun
  intro r hr ht a ha
  have htr := Proc.run_tracked h.shape h.known hrun ht
  have hflush : w.proc.prog r = some .flush → w.proc.recvPc r = .wait .poll →
      ucpEpFlushNb (w.proc.toEp r) ans.imm w.proc.worker = none := by
    intro hprog hpc
    have hcall : ∃ wait, w.proc.call = .eRecv r wait := by
      unfold Proc.recvPc at hpc
      grind
    obtain ⟨wait, hcall⟩ := hcall
    exact hok ans r wait rfl hcall hprog
  obtain ⟨a', hkeep, hrec, hbuf, hflag⟩ := ha.receives.step h.shape (Proto.reach_joint ha.reached)
    (by rw [hk.counterpart]) hflush (Proc.run_cases h.shape htr hrun)
  refine ⟨a', hkeep.linked, hkeep.linked.reached ha.reached, ?_, hrec,
    hkeep.landed.trans ha.landed⟩
  simp only [World.setProc, hbuf, hflag, hk.counterpart]
  exact ha.sends.of_send hkeep.send hkeep.sendNumber hkeep.sendFlag

theorem inv_run {ans : Answer} (h : World.Inv w) (hok : w.NotLeftPending (.run ans))
    (hs : w.step (.run ans) = some w') : World.Inv w' := by
  have hg := goesOn_run h hok hs
  obtain ⟨p, c, hrun, rfl⟩ := World.step_code hs
  obtain ⟨hS, hK, hk⟩ := Proc.run_control h.shape h.known hrun
  exact hg.inv h ⟨hS, hK⟩ hk.nextRid (fun _ _ => rfl) fun r =>
    Proc.run_tracked h.shape h.known hrun

/-! ### The user's calls -/

theorem goesOn_start {q : Rid} (hs : w.step (.start q) = some w') : w.GoesOn w' := by
  simp only [World.step] at hs
  split at hs <;> simp only [reduceCtorEq, Option.some.injEq] at hs
  rename_i hfree
  obtain ⟨⟨hc, hn⟩, hq, hact⟩ := hfree
  subst hs
  obtain ⟨hw, hnest, hk, hactive, hreqs⟩ := start_frame (p := w.proc) q
  intro r hr ht a ha
  have htr : w.proc.Tracked r := Proc.tracked_congr (start_type q r) ht
  by_cases hrq : r = q
  · subst hrq
    obtain ⟨a', hkeep, hrec, hbuf, hflag⟩ := receives_start ha.receives htr hn hact
    refine ⟨a', hkeep.linked, hkeep.linked.reached ha.reached, ?_, hrec,
      hkeep.landed.trans ha.landed⟩
    simp only [World.setProc, hbuf, hflag, hk.counterpart]
    exact ha.sends.of_send hkeep.send hkeep.sendNumber hkeep.sendFlag
  · refine ⟨a, .refl a, ha.elsewhere (.of_call hc (hreqs r hrq) hw (recvOf_start (Ne.symm hrq) hc)
      hnest ?_) (by rw [World.setProc, hk.counterpart]) rfl rfl⟩
    rw [World.setProc, hactive, Function.update_of_ne hrq]

theorem inv_start {q : Rid} (h : World.Inv w) (hs : w.step (.start q) = some w') : World.Inv w' := by
  have hg := goesOn_start hs
  simp only [World.step] at hs
  split at hs <;> simp only [reduceCtorEq, Option.some.injEq] at hs
  rename_i hfree
  obtain ⟨⟨hc, hn⟩, hq, -⟩ := hfree
  subst hs
  obtain ⟨-, -, hk, -, -⟩ := start_frame (p := w.proc) q
  exact hg.inv h (shape_start h.shape h.known hc hn (h.known.list q hq)) hk.nextRid (fun _ _ => rfl)
    fun r => Proc.tracked_congr (start_type q r)

theorem goesOn_wait {q : Rid} (hs : w.step (.wait q) = some w') : w.GoesOn w' := by
  simp only [World.step] at hs
  split at hs <;> simp only [reduceCtorEq, Option.some.injEq] at hs
  rename_i hfree
  obtain ⟨⟨hc, hn⟩, hq, hact⟩ := hfree
  subst hs
  obtain ⟨hw, hnest, hactive, hreqs, hk⟩ := wait_frame (p := w.proc) q
  intro r hr ht a ha
  refine ⟨a, .refl a, ?_⟩
  by_cases hrq : r = q
  · subst hrq
    refine ⟨ha.reached, ?_, receives_wait ha.receives hc hn hact, ha.landed⟩
    simp only [World.setProc, hreqs, hk.counterpart]
    exact ha.sends
  · refine ha.elsewhere (.of_call hc ?_ hw (recvOf_wait (Ne.symm hrq)) hnest ?_)
      (by rw [World.setProc, hk.counterpart]) rfl rfl
    · rw [World.setProc, hreqs]
    · rw [World.setProc, hactive]

theorem inv_wait {q : Rid} (h : World.Inv w) (hs : w.step (.wait q) = some w') : World.Inv w' := by
  have hg := goesOn_wait hs
  simp only [World.step] at hs
  split at hs <;> simp only [reduceCtorEq, Option.some.injEq] at hs
  rename_i hfree
  obtain ⟨⟨-, hn⟩, hq, hact⟩ := hfree
  subst hs
  obtain ⟨-, -, -, hreqs, hk⟩ := wait_frame (p := w.proc) q
  exact hg.inv h (shape_wait h.shape h.known hn (h.known.list q hq) hact) hk.nextRid (fun _ _ => rfl)
    fun r => Proc.tracked_congr (by rw [World.setProc, hreqs])

theorem goesOn_free {q : Rid} (hs : w.step (.free q) = some w') : w.GoesOn w' := by
  simp only [World.step] at hs
  split at hs <;> simp only [reduceCtorEq, Option.some.injEq] at hs
  subst hs
  exact fun r _ _ a ha => ⟨a, .refl a, ha.elsewhere (.of_same rfl rfl rfl rfl rfl) rfl rfl rfl⟩

theorem inv_free {q : Rid} (h : World.Inv w) (hs : w.step (.free q) = some w') : World.Inv w' := by
  have hg := goesOn_free hs
  simp only [World.step] at hs
  split at hs <;> simp only [reduceCtorEq, Option.some.injEq] at hs
  subst hs
  refine hg.inv h ⟨⟨h.shape.barrier, h.shape.typed, h.shape.pauses, h.shape.tail, h.shape.fetching⟩,
    ⟨fun r hr => ?_, h.known.call, h.known.nested, h.known.pending⟩⟩ rfl (fun _ _ => rfl) fun _ => id
  exact h.known.list r (List.mem_of_mem_erase hr)

theorem goesOn_sendInit {args : Proc.InitArgs} {info : RdmaInfo}
    (hs : w.step (.sendInit args info) = some w') : w.GoesOn w' := by
  simp only [World.step] at hs
  split at hs <;> simp only [reduceCtorEq, Option.some.injEq] at hs
  subst hs
  exact fun r hr _ a ha => ⟨a, .refl a, ha.elsewhere (unmoved_initRequest .sendSearch args info hr)
    (counterpart_initRequest hr) rfl rfl⟩

theorem inv_sendInit {args : Proc.InitArgs} {info : RdmaInfo} (h : World.Inv w)
    (hs : w.step (.sendInit args info) = some w') : World.Inv w' := by
  have hg := goesOn_sendInit hs
  simp only [World.step] at hs
  split at hs <;> simp only [reduceCtorEq, Option.some.injEq] at hs
  rename_i hfree
  subst hs
  obtain ⟨hS, hK⟩ := shape_initRequest .sendSearch args info h.shape h.known
    hfree.1 hfree.2
  refine ⟨hS, hK, fun r hr => h.landed r (Nat.le_of_succ_le hr), fun r hr ht => ?_⟩
  have hne : r ≠ w.proc.nextRid := by
    rintro rfl
    simp [World.setProc, Proc.initRequest, Proc.Tracked] at ht
  have hlt : r < w.proc.nextRid := Nat.lt_of_le_of_ne (Nat.le_of_lt_succ hr) hne
  obtain ⟨a, ha⟩ := h.conn r hlt
    (Proc.tracked_congr (unmoved_initRequest .sendSearch args info hlt).type ht)
  obtain ⟨a', -, ha'⟩ := hg r hlt ht a ha
  exact ⟨a', ha'⟩

theorem goesOn_recvInit {args : Proc.InitArgs} {info : RdmaInfo} {size : Nat}
    (hs : w.step (.recvInit args info size) = some w') : w.GoesOn w' := by
  simp only [World.step] at hs
  split at hs <;> simp only [reduceCtorEq, Option.some.injEq] at hs
  subst hs
  exact fun r hr _ a ha => ⟨a, .refl a, ha.elsewhere (unmoved_initRequest .recvSearch args info hr)
    (counterpart_initRequest hr) (Function.update_of_ne (Nat.ne_of_lt hr) ..) rfl⟩

theorem inv_recvInit {args : Proc.InitArgs} {info : RdmaInfo} {size : Nat} (h : World.Inv w)
    (hs : w.step (.recvInit args info size) = some w') : World.Inv w' := by
  have hg := goesOn_recvInit hs
  simp only [World.step] at hs
  split at hs <;> simp only [reduceCtorEq, Option.some.injEq] at hs
  rename_i hfree
  subst hs
  obtain ⟨hS, hK⟩ := shape_initRequest .recvSearch args info h.shape h.known
    hfree.1 hfree.2
  refine ⟨hS, hK, fun r hr => h.landed r (Nat.le_of_succ_le hr), fun r hr ht => ?_⟩
  by_cases hr' : r = w.proc.nextRid
  · subst hr'
    exact ⟨.connected, conn_recvInit h⟩
  · have hlt : r < w.proc.nextRid := Nat.lt_of_le_of_ne (Nat.le_of_lt_succ hr) hr'
    obtain ⟨a, ha⟩ := h.conn r hlt
      (Proc.tracked_congr (unmoved_initRequest .recvSearch args info hlt).type ht)
    obtain ⟨a', -, ha'⟩ := hg r hlt ht a ha
    exact ⟨a', ha'⟩

/-! ### Operations that land -/

/-- What the process posted. -/
theorem goesOn_lands {i : Nat} (hs : w.step (.lands i) = some w') : w.GoesOn w' := by
  simp only [World.step] at hs
  split at hs <;> simp only [reduceCtorEq, Option.some.injEq] at hs
  rename_i x hx
  subst hs
  obtain ⟨hproc, hpeers, hlanded⟩ :=
    land_frame (w := w.setProc { w.proc with worker := w.proc.worker.retire i }) x.op.1 x.op.2
  intro r hr ht a ha
  rw [hproc] at ht
  by_cases hr' : x.op.1 = r
  · rw [hr']
    exact conn_lands ha ht hx hr'
  · refine ⟨a, .refl a, ha.elsewhere ?_ (by rw [hproc]; rfl) (hpeers r (Ne.symm hr'))
      (hlanded r (Ne.symm hr'))⟩
    rw [hproc]
    exact unmoved_retire hx hr'

theorem inv_lands {i : Nat} (h : World.Inv w) (hs : w.step (.lands i) = some w') : World.Inv w' := by
  have hg := goesOn_lands hs
  simp only [World.step] at hs
  split at hs <;> simp only [reduceCtorEq, Option.some.injEq] at hs
  rename_i x hx
  subst hs
  obtain ⟨hproc, -, hlanded⟩ :=
    land_frame (w := w.setProc { w.proc with worker := w.proc.worker.retire i }) x.op.1 x.op.2
  have hq := h.known.pending x (List.mem_of_getElem? (Worker.enabled?_eq_some.mp hx).1)
  refine hg.inv h (by rw [hproc]; exact shape_retire i h.shape h.known) (by rw [hproc]; rfl)
    (fun r hr => ?_) (fun r ht => by rwa [hproc] at ht)
  exact hlanded r (Nat.ne_of_gt (Nat.lt_of_lt_of_le hq hr))

theorem goesOn_writeFlag {q : Rid} {v : Int} (hs : w.step (.writeFlag q v) = some w') :
    w.GoesOn w' := by
  simp only [World.step] at hs
  split at hs <;> simp only [reduceCtorEq, Option.some.injEq] at hs
  rename_i hsend
  subst hs
  intro r hr ht a ha
  have htr : w.proc.Tracked r := Proc.tracked_congr
    (Proc.setReq_type (p := w.proc) (f := fun x => { x with flag := v }) rfl r) ht
  have hne : r ≠ q := by
    rintro rfl
    rcases htr with h | h <;> simp [h, RequestType.isRecv] at hsend
  exact ⟨a, .refl a,
    ha.elsewhere (.of_same (Function.update_of_ne hne ..) rfl rfl rfl rfl) rfl rfl rfl⟩

theorem inv_writeFlag {q : Rid} {v : Int} (h : World.Inv w) (hs : w.step (.writeFlag q v) = some w') :
    World.Inv w' := by
  have hg := goesOn_writeFlag hs
  simp only [World.step] at hs
  split at hs <;> simp only [reduceCtorEq, Option.some.injEq] at hs
  subst hs
  have htype : ∀ r, ((w.proc.setReq q fun x => { x with flag := v }).reqs r).type =
      (w.proc.reqs r).type := fun r =>
    Proc.setReq_type (p := w.proc) (f := fun x => { x with flag := v }) rfl r
  exact hg.inv h ⟨⟨h.shape.barrier, Proc.typed_congr h.shape.typed rfl rfl htype, h.shape.pauses,
    h.shape.tail, fun r pt hr => (htype r).trans (h.shape.fetching r pt hr)⟩,
    ⟨h.known.list, h.known.call, h.known.nested, h.known.pending⟩⟩ rfl (fun _ _ => rfl)
    fun r => Proc.tracked_congr (htype r)

/-! ### The senders -/

/-- A step of a sender's process. -/
theorem goesOn_peer {q : Rid} {peer : Peer}
    (hconn : ∀ a, Conn w q a → ∃ a', Linked a a' ∧ Conn (w.setPeer q peer) q a') :
    w.GoesOn (w.setPeer q peer) := by
  intro r hr ht a ha
  by_cases hrq : r = q
  · subst hrq
    exact hconn a ha
  · exact ⟨a, .refl a,
      ha.elsewhere (.of_same rfl rfl rfl rfl rfl) rfl (Function.update_of_ne hrq ..) rfl⟩

theorem inv_peer {q : Rid} {peer : Peer} (h : World.Inv w) (hg : w.GoesOn (w.setPeer q peer)) :
    World.Inv (w.setPeer q peer) :=
  hg.inv h ⟨h.shape, h.known⟩ rfl (fun _ _ => rfl) fun _ => id

theorem goesOn_peerStart {q : Rid} (hs : w.step (.peerStart q) = some w') : w.GoesOn w' := by
  simp only [World.step] at hs
  split at hs <;> simp only [reduceCtorEq, Option.some.injEq] at hs
  rename_i hidle
  subst hs
  refine goesOn_peer fun a ha => ?_
  have hrel := ha.sends.rel
  rw [hidle.1] at hrel
  obtain ⟨hstep, hrel'⟩ := hrel.countStart
  exact ⟨_, Or.inr ⟨_, hstep⟩,
    conn_peer ha (.step ha.reached trivial hstep) hrel' (Or.inr rfl) rfl rfl rfl rfl⟩

theorem inv_peerStart {q : Rid} (h : World.Inv w) (hs : w.step (.peerStart q) = some w') :
    World.Inv w' := by
  have hg := goesOn_peerStart hs
  simp only [World.step] at hs
  split at hs <;> simp only [reduceCtorEq, Option.some.injEq] at hs
  subst hs
  exact inv_peer h hg

theorem goesOn_peerWait {q : Rid} (hs : w.step (.peerWait q) = some w') : w.GoesOn w' := by
  simp only [World.step] at hs
  split at hs <;> simp only [reduceCtorEq, Option.some.injEq] at hs
  rename_i hstarted
  subst hs
  refine goesOn_peer fun a ha => ⟨a, .refl a, ?_⟩
  obtain ⟨fl, hC, hA⟩ := ha.sends.rel.sim
  rw [hstarted.1] at hA
  exact conn_peer ha ha.reached ⟨⟨fl, hC, hA⟩, ha.sends.rel.number, ha.sends.rel.flag⟩
    (Or.inl (.refl _)) rfl rfl rfl rfl

theorem inv_peerWait {q : Rid} (h : World.Inv w) (hs : w.step (.peerWait q) = some w') :
    World.Inv w' := by
  have hg := goesOn_peerWait hs
  simp only [World.step] at hs
  split at hs <;> simp only [reduceCtorEq, Option.some.injEq] at hs
  subst hs
  exact inv_peer h hg

theorem goesOn_peerRun {q : Rid} {imm : Bool} (hs : w.step (.peerRun q imm) = some w') :
    w.GoesOn w' := by
  simp only [World.step] at hs
  split at hs
  · rename_i pc l hrun
    split at hs <;> simp only [reduceCtorEq, Option.some.injEq] at hs
    subst hs
    refine goesOn_peer fun a ha => ?_
    obtain ⟨s', hm, hrel, hlink, -⟩ := ha.sends.rel.run (Proto.reach_joint ha.reached) hrun
    have hlinked : Linked a { a with send := s', sendFlag := l.req.flag } := by
      rcases hm with ⟨rfl, hf⟩ | ⟨act, -, hstep⟩
      · rw [hf]
        exact .refl a
      · exact Or.inr ⟨act, hstep⟩
    exact ⟨_, hlinked,
      conn_peer ha (hlinked.reached ha.reached) hrel (Or.inl hlink) rfl rfl rfl rfl⟩
  · simp at hs

theorem inv_peerRun {q : Rid} {imm : Bool} (h : World.Inv w) (hs : w.step (.peerRun q imm) = some w') :
    World.Inv w' := by
  have hg := goesOn_peerRun hs
  simp only [World.step] at hs
  split at hs
  · split at hs <;> simp only [reduceCtorEq, Option.some.injEq] at hs
    subst hs
    exact inv_peer h hg
  · simp at hs

theorem goesOn_peerLands {q : Rid} {i : Nat} (hs : w.step (.peerLands q i) = some w') :
    w.GoesOn w' := by
  simp only [World.step] at hs
  split at hs
  · rename_i x hx
    split at hs <;> simp only [reduceCtorEq, Option.some.injEq] at hs
    subst hs
    obtain ⟨hreqs, -, ⟨reqs, hproc⟩, hpeers, hlanded⟩ := landPeer_frame
      (w := w.setPeer q { w.peers q with loc := (w.peers q).loc.retire i }) q x.op
    intro r hr ht a ha
    by_cases hrq : r = q
    · subst hrq
      obtain ⟨a', hl, -, hconn⟩ := conn_peerLands ha hx
      exact ⟨a', hl, hconn⟩
    · refine ⟨a, .refl a, ha.elsewhere (.of_same (hreqs r hrq) ?_ ?_ ?_ ?_) ?_ ?_ (hlanded r hrq)⟩
      · rw [hproc]; rfl
      · rw [hproc]; rfl
      · rw [hproc]; rfl
      · rw [hproc]; rfl
      · rw [hproc]; rfl
      · rw [hpeers]
        exact Function.update_of_ne hrq ..
  · simp at hs

theorem inv_peerLands {q : Rid} {i : Nat} (h : World.Inv w) (hs : w.step (.peerLands q i) = some w') :
    World.Inv w' := by
  have hg := goesOn_peerLands hs
  simp only [World.step] at hs
  split at hs
  · rename_i x hx
    split at hs <;> simp only [reduceCtorEq, Option.some.injEq] at hs
    rename_i hq
    subst hs
    obtain ⟨-, htype, ⟨reqs, hproc⟩, -, hlanded⟩ := landPeer_frame
      (w := w.setPeer q { w.peers q with loc := (w.peers q).loc.retire i }) q x.op
    have hctl : ∀ {p : Proc}, p = { w.proc with reqs := reqs } →
        (∀ r, (p.reqs r).type = (w.proc.reqs r).type) → p.Shape ∧ p.Known := by
      rintro p rfl ht
      exact ⟨⟨h.shape.barrier, Proc.typed_congr h.shape.typed rfl rfl ht, h.shape.pauses, h.shape.tail,
        fun r pt hr => (ht r).trans (h.shape.fetching r pt hr)⟩,
        ⟨h.known.list, h.known.call, h.known.nested, h.known.pending⟩⟩
    exact hg.inv h (hctl hproc htype) (by rw [hproc]; rfl)
      (fun r hr => hlanded r (Nat.ne_of_gt (Nat.lt_of_lt_of_le hq hr)))
      fun r => Proc.tracked_congr (htype r)
  · simp at hs

/-! ### Every run -/

/-- The protocols go on in every step. -/
theorem goesOn_step {act : WorldAct} (h : World.Inv w) (hok : w.NotLeftPending act)
    (hs : w.step act = some w') : w.GoesOn w' := by
  cases act with
  | sendInit args info => exact goesOn_sendInit hs
  | recvInit args info size => exact goesOn_recvInit hs
  | start q => exact goesOn_start hs
  | wait q => exact goesOn_wait hs
  | free q => exact goesOn_free hs
  | run ans => exact goesOn_run h hok hs
  | lands i => exact goesOn_lands hs
  | writeFlag q v => exact goesOn_writeFlag hs
  | peerStart q => exact goesOn_peerStart hs
  | peerWait q => exact goesOn_peerWait hs
  | peerRun q imm => exact goesOn_peerRun hs
  | peerLands q i => exact goesOn_peerLands hs

/-- **Step lemma.** -/
theorem inv_step {act : WorldAct} (h : World.Inv w) (hok : w.NotLeftPending act)
    (hs : w.step act = some w') : World.Inv w' := by
  cases act with
  | sendInit args info => exact inv_sendInit h hs
  | recvInit args info size => exact inv_recvInit h hs
  | start q => exact inv_start h hs
  | wait q => exact inv_wait h hs
  | free q => exact inv_free h hs
  | run ans => exact inv_run h hok hs
  | lands i => exact inv_lands h hs
  | writeFlag q v => exact inv_writeFlag h hs
  | peerStart q => exact inv_peerStart h hs
  | peerWait q => exact inv_peerWait h hs
  | peerRun q imm => exact inv_peerRun h hs
  | peerLands q i => exact inv_peerLands h hs

/-- A request at rest holds no handle, and its last payload is across. -/
theorem World.Inv.waitComplete (h : World.Inv w) : w.WaitComplete := by
  intro r hr ht hact hnum
  obtain ⟨a, ha⟩ := h.conn r hr (Or.inl ht)
  have hcon := ha.receives.connected ht
  obtain ⟨hrest, hun⟩ := hcon.idle hact
  have hcount := (Proto.reach_counted ha.reached).count (w.proc.reqs r).operationNumber
  have hlast := Proto.last_of_recv (Proto.reach_joint ha.reached)
  have hn : a.recvNumber = (w.proc.reqs r).operationNumber := hcon.rel.number
  refine ⟨hun.1, hun.2, ?_⟩
  rw [← ha.landed, hcount, if_pos ⟨hnum, hn ▸ hlast.2 hrest⟩]

/--
**Every Wait on a connected receive request returns with its payload across** and with
no handle left, in every run in which no flush of `progress_recv_request` is left
incomplete for the request that is being waited for.
-/
theorem wait_complete (h : Reach World.step World.NotLeftPending World.Init w) : w.WaitComplete :=
  (h.invariant (fun _ h0 => inv_init h0) fun _ _ _ h hok hs => inv_step h hok hs).waitComplete

end

/-! ### Two runs -/

/-- A process with no requests. -/
def freshWorld : World where
  proc :=
    { reqs := fun _ => freshRequest .send 0
      counterpart := fun _ => ⟨0, 0, 0, 0⟩
      requestList := []
      nextRid := 0
      nextHandle := 0
      worker := .idle
      active := fun _ => false
      call := .none
      nested := []
      failed := false }
  peers := fun _ => .connected ⟨0, 0, 0, 0, 0⟩ ⟨0, 0, 0, 0⟩ 0
  landed := fun _ => []

theorem freshWorld_init : World.Init freshWorld := ⟨rfl, rfl, rfl, rfl, rfl, fun _ => rfl⟩

/-- `n` steps in which every probe and test of the process answers `flag`, and no flush is
complete at once. -/
def answered (n : Nat) (flag : Bool) : List WorldAct := List.replicate n (.run ⟨false, flag⟩)

/-- Request 0 goes through its first operation and is connected after it.  Request 1 is another
one, still searching. -/
def connectRun : List WorldAct :=
  [.recvInit ⟨16, 1, 1, 0, 4⟩ ⟨24, 12, 0, 0⟩ 1, .recvInit ⟨32, 1, 2, 0, 5⟩ ⟨40, 13, 0, 0⟩ 1, .start 0] ++
    answered 7 true ++ [.wait 0] ++ answered 4 true ++ answered 6 false

/-- The second operation: the receiver is first, and the sender pushes. -/
def pushedRun : List WorldAct :=
  connectRun ++ [.start 0] ++ answered 5 false ++ [.lands 0, .peerStart 0] ++
    List.replicate 9 (.peerRun 0 false) ++ [.peerLands 0 0, .peerLands 0 0, .wait 0] ++ answered 5 false

/-- The second operation: both announce themselves.  The sender's announcement lands while the
Wait on request 0 progresses request 1, and request 1 progresses request 0. -/
def reenteredRun : List WorldAct :=
  connectRun ++ [.start 0, .peerStart 0] ++ answered 5 false ++ List.replicate 5 (.peerRun 0 false) ++
    [.lands 0, .wait 0] ++ answered 37 false ++ answered 2 true ++ answered 3 false ++
    [.peerLands 0 0] ++ answered 10 false ++ answered 2 true ++ answered 4 false

/-- The condition on the steps, as a test. -/
def notLeftPending (w : World) : WorldAct → Bool
  | .run ans =>
      match w.proc.call with
      | .eRecv r _ =>
          decide (w.proc.prog r ≠ some .flush) ||
            (ucpEpFlushNb (w.proc.toEp r) ans.imm w.proc.worker).isNone
      | _ => true
  | _ => true

theorem notLeftPending_sound (w : World) (act : WorldAct) (h : notLeftPending w act = true) :
    w.NotLeftPending act := by
  rintro ans r wait rfl hcall hprog
  simp only [notLeftPending, hcall, hprog, ne_eq, not_true_eq_false, decide_false, Bool.false_or,
    Option.isNone_iff_eq_none] at h
  exact h

theorem pushedRun_complete :
    match runFrom (guarded notLeftPending World.step) freshWorld pushedRun with
    | some w => w.WaitComplete ∧ (w.proc.reqs 0).type = .recv ∧ w.proc.active 0 = false ∧
        (w.proc.reqs 0).operationNumber = 2 ∧ w.landed 0 = [(2, .put)]
    | none => False := by
  have hrun : (runFrom (guarded notLeftPending World.step) freshWorld pushedRun).any (fun w => decide
      ((w.proc.reqs 0).type = .recv ∧ w.proc.active 0 = false ∧
        (w.proc.reqs 0).operationNumber = 2 ∧ w.landed 0 = [(2, .put)])) = true := by
    decide +kernel
  cases h : runFrom (guarded notLeftPending World.step) freshWorld pushedRun with
  | none => simp [h] at hrun
  | some w =>
      simp only [h, Option.any_some, decide_eq_true_eq] at hrun
      exact ⟨wait_complete (.of_guarded notLeftPending_sound _ (.init freshWorld_init) h), hrun⟩

/-- The Wait has returned: a handle is left, and the payload is not across. -/
theorem reenteredRun_incomplete :
    match runFrom World.step freshWorld reenteredRun with
    | some w => Reach World.step anyStep World.Init w ∧ ¬ w.WaitComplete ∧
        (w.proc.reqs 0).type = .recv ∧ w.proc.active 0 = false ∧ w.proc.call = .none ∧ (w.proc.reqs 0).operationNumber = 2 ∧
        (w.proc.reqs 0).ucxRequestDataTransfer = some 3 ∧ w.landed 0 = []
    | none => False := by
  have hrun : (runFrom World.step freshWorld reenteredRun).any (fun w => decide
      (0 < w.proc.nextRid ∧ (w.proc.reqs 0).type = .recv ∧ w.proc.active 0 = false ∧
        w.proc.call = .none ∧ (w.proc.reqs 0).operationNumber = 2 ∧
        (w.proc.reqs 0).ucxRequestDataTransfer = some 3 ∧ w.landed 0 = [])) = true := by
    decide +kernel
  cases h : runFrom World.step freshWorld reenteredRun with
  | none => simp [h] at hrun
  | some w =>
      simp only [h, Option.any_some, decide_eq_true_eq] at hrun
      obtain ⟨hr, ht, ha, hrest⟩ := hrun
      refine ⟨.of_runFrom _ (.init freshWorld_init) h, fun hc => ?_, ht, ha, hrest⟩
      have hnone := (hc 0 hr ht ha (by rw [hrest.2.1]; decide)).1
      rw [hrest.2.2.1] at hnone
      simp at hnone

end CompMatch.Rendezvous

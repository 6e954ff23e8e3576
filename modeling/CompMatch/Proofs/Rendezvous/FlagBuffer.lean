/-
When the word that flag puts are read from is safe.

`FlagInv` says of every request of the process, and of every sender, what it may have
under way where it is.  The steps of the code keep it by `FlagPuts.lean`; the calls of
the user and the operations that land only move requests from one point to the next or
take something off the list.
-/
import CompMatch.Proofs.Rendezvous.FlagPuts

namespace CompMatch.Rendezvous

/-! ### Steps that move no data -/

namespace Proc

variable {p p' : Proc} {r : Rid}

/-- Nothing changes that flag puts depend on. -/
structure SameFlags (p p' : Proc) : Prop where
  handles : ∀ r, SameHandles (p.reqs r) (p'.reqs r)
  dest : ∀ r, (p'.reqs r).dest = (p.reqs r).dest
  type : ∀ r, (p'.reqs r).type = (p.reqs r).type
  worker : p'.worker = p.worker
  call : p'.call = p.call
  active : p'.active = p.active
  nested : p'.nested = p.nested

theorem SameFlags.puts (h : SameFlags p p') (r : Rid) : (p'.view r).flagPuts = (p.view r).flagPuts :=
  flagPuts_congr (by simp only [view, Local.view, loc, h.worker])

theorem SameFlags.send (h : SameFlags p p') (hs : SendFlags p r) : SendFlags p' r := by
  refine hs.congr (h.handles r) (fun x hx => h.puts r ▸ hx) (fun ht => (h.type r) ▸ ht) fun ht =>
    Or.inr ⟨(h.type r) ▸ ht, ?_⟩
  simp only [sendPc, h.call, h.active]

theorem SameFlags.recv (h : SameFlags p p') (hr : RecvFlags p r) : RecvFlags p' r := by
  have hpend : (p'.view r).worker.pending = (p.view r).worker.pending := by
    simp only [view, Local.view, loc, h.worker]
  have hclock : (p.view r).worker.clock ≤ (p'.view r).worker.clock := by
    simp only [view, Local.view, loc, h.worker]
    exact Nat.le_refl _
  refine ⟨hr.one.congr hpend hclock (h.handles r).flagTransfer, fun pt hpt hf => ?_⟩
  have hprog : p.prog r = some pt := by
    rw [← hpt]
    simp only [prog, h.nested]
  obtain ⟨hnil, hfl⟩ := hr.fetching pt hprog hf
  refine ⟨(h.puts r).trans hnil, ?_⟩
  have hep : p'.toEp r = p.toEp r := by
    funext x
    simp only [toEp, h.dest]
  rw [hep, h.worker, (h.handles r).flagTransfer]
  exact hfl

/-- With nothing on the stack, a receive request is not on the way to the write. -/
theorem RecvFlags.congr (h : RecvFlags p r) (hreq : SameHandles (p.reqs r) (p'.reqs r))
    (hw : p'.worker = p.worker) (hn : p'.nested = []) : RecvFlags p' r := by
  refine ⟨h.one.congr ?_ ?_ hreq.flagTransfer, fun pt hpt => ?_⟩
  · simp only [view, Local.view, loc, hw]
  · simp only [view, Local.view, loc, hw]
    exact Nat.le_refl _
  · simp [prog, hn] at hpt

/-- The fields that a Start changes. -/
theorem start_handles (q r : Rid) : SameHandles (p.reqs r) ((p.start q).1.reqs r) := by
  unfold start
  by_cases hr : r = q
  · subst hr
    split <;> refine ⟨?_, ?_, ?_⟩ <;> simp [setCall, postBackup, assert, setReq]
  · split <;> refine ⟨?_, ?_, ?_⟩ <;> simp [setCall, postBackup, assert, setReq, hr]

theorem start_rid {q : Rid} (hq : q ≠ r) (hc : p.call = .none) : (p.start q).1.call.rid ≠ some r := by
  unfold start
  split <;> simp [setCall, postBackup, assert, setReq, Call.rid, hc, hq]

theorem wait_rid {q : Rid} (hq : q ≠ r) : (p.wait q).call.rid ≠ some r := by
  unfold wait
  split <;> simp [setCall, assert, Call.rid, hq]

/-- **Start** on a send request. -/
theorem sendFlags_start {q : Rid} (h : SendFlags p r) (hc : p.call = .none)
    (ha : p.active q = false) : SendFlags (p.start q).1 r := by
  obtain ⟨hw, -, -, hact, -⟩ := start_frame (p := p) q
  have hput : ((p.start q).1.view r).flagPuts = (p.view r).flagPuts :=
    flagPuts_congr (by simp only [view, Local.view, loc, hw])
  have htype : ((p.start q).1.reqs r).type = (p.reqs r).type := start_type q r
  by_cases hr : r = q
  · subst hr
    have hh := start_handles (p := p) r r
    have hof : (p.view r).flagPuts = [] → Unheld (p.reqs r) →
        ((p.start r).1.view r).flagPuts = [] ∧ Unheld ((p.start r).1.reqs r) := fun hn hu =>
      ⟨hput.trans hn, hh.dataTransfer.trans hu.1, hh.flagTransfer.trans hu.2⟩
    refine ⟨fun ht => ?_, fun ht => ?_⟩
    · obtain ⟨hn, hu⟩ := h.searching (htype ▸ ht)
      exact hof hn hu
    · have hidle : p.sendPc r = .idle := by simp [sendPc, ha]
      have hat := h.connected (htype ▸ ht)
      rw [hidle] at hat
      exact .of_none (hof hat.1 hat.2).1 (hof hat.1 hat.2).2
  · refine h.congr (start_handles q r) (fun x hx => hput ▸ hx) (fun ht => htype ▸ ht) fun ht =>
      Or.inr ⟨htype ▸ ht, ?_⟩
    exact sendPc_other (by simp [hc, Call.rid]) (start_rid (Ne.symm hr) hc)
      (by rw [hact, Function.update_of_ne hr])

/-- **Wait** on a send request. -/
theorem sendFlags_wait {q : Rid} (h : SendFlags p r) (hc : p.call = .none)
    (ha : p.active q = true) : SendFlags (p.wait q) r := by
  obtain ⟨hw, -, hact, hreqs, -⟩ := wait_frame (p := p) q
  have hput : ((p.wait q).view r).flagPuts = (p.view r).flagPuts :=
    flagPuts_congr (by simp only [view, Local.view, loc, hw])
  have hsame : SameHandles (p.reqs r) ((p.wait q).reqs r) := by
    rw [hreqs]
    exact .refl _
  by_cases hr : r = q
  · subst hr
    refine ⟨fun ht => ?_, fun ht => ?_⟩
    · rw [hreqs] at ht ⊢
      obtain ⟨hn, hu⟩ := h.searching ht
      exact ⟨hput.trans hn, hu⟩
    · rw [hreqs] at ht
      have hstarted : p.sendPc r = .started := by simp [sendPc, ha, hc]
      have hat := h.connected ht
      rw [hstarted] at hat
      have hpc : (p.wait r).sendPc r = .wait .flagTransfer := by
        have hwait : p.wait r = p.setCall (.eSend r .flagTransfer) := by
          unfold wait
          rw [ht]
        rw [hwait]
        simp [sendPc, setCall, ha]
      rw [hpc]
      have hat' : SendFlagsAt (p.view r) (.wait .flagTransfer) := hat
      exact hat'.mono (fun x hx => hput ▸ hx) hsame.dataTransfer hsame.flagTransfer
  · refine h.congr hsame (fun x hx => hput ▸ hx) (fun ht => by rwa [hreqs] at ht) fun ht =>
      Or.inr ⟨by rwa [hreqs] at ht, ?_⟩
    exact sendPc_other (by simp [hc, Call.rid]) (wait_rid (Ne.symm hr)) (by rw [hact])

/-- A request that is new. -/
theorem initRequest_new (type : RequestType) (args : InitArgs) (info : RdmaInfo) (hK : Known p) :
    ((p.initRequest type args info).1.view p.nextRid).flagPuts = [] ∧
      Unheld ((p.initRequest type args info).1.reqs p.nextRid) := by
  refine ⟨?_, by constructor <;> simp [initRequest]⟩
  have hpend : ((p.initRequest type args info).1.view p.nextRid).worker.pending = [] := by
    simp only [view, Local.view, loc, Worker.view, List.filterMap_eq_nil_iff]
    intro x hx
    have hlt := hK.pending x hx
    simp only [Worker.Posted.view, operationOf, Option.map_eq_none_iff]
    rw [if_neg (Nat.ne_of_lt hlt)]
  simp [Local.flagPuts, hpend]

theorem sendFlags_initRequest {type : RequestType} {args : InitArgs} {info : RdmaInfo} (hK : Known p)
    (hc : p.call = .none) (h : ∀ r < p.nextRid, SendFlags p r) (hr : r < p.nextRid + 1) :
    SendFlags (p.initRequest type args info).1 r := by
  by_cases hr' : r = p.nextRid
  · subst hr'
    obtain ⟨hn, hu⟩ := initRequest_new type args info hK
    exact ⟨fun _ => ⟨hn, hu⟩, fun _ => .of_none hn hu⟩
  · have hlt : r < p.nextRid := Nat.lt_of_le_of_ne (Nat.le_of_lt_succ hr) hr'
    have hreq : (p.initRequest type args info).1.reqs r = p.reqs r := by simp [initRequest, hr']
    refine (h r hlt).congr (hreq ▸ .refl _) (fun x hx => ?_) (fun ht => by rwa [hreq] at ht) fun ht =>
      Or.inr ⟨by rwa [hreq] at ht, ?_⟩
    · have hput : ((p.initRequest type args info).1.view r).flagPuts = (p.view r).flagPuts :=
        flagPuts_congr rfl
      exact hput ▸ hx
    · refine sendPc_other (by simp [hc, Call.rid]) (by simp [initRequest, hc, Call.rid]) ?_
      simp [initRequest, hr']

/-- An operation leaves the worker. -/
theorem flagPuts_lands {i : Nat} :
    List.Sublist (Proc.view { p with worker := p.worker.retire i } r).flagPuts (p.view r).flagPuts :=
  List.Sublist.filter _ (List.Sublist.filterMap _ (List.eraseIdx_sublist ..))

theorem sendFlags_lands {i : Nat} (h : SendFlags p r) :
    SendFlags { p with worker := p.worker.retire i } r :=
  h.congr (.refl _) (fun _ hx => flagPuts_lands.subset hx) (fun ht => ht) fun ht => Or.inr ⟨ht, rfl⟩

theorem recvFlags_lands {i : Nat} (h : RecvFlags p r) :
    RecvFlags { p with worker := p.worker.retire i } r := by
  refine ⟨⟨Nat.le_trans flagPuts_lands.length_le h.one.one, h.one.handle⟩, fun pt hpt hf => ?_⟩
  obtain ⟨hnil, hfl⟩ := h.fetching pt hpt hf
  refine ⟨List.sublist_nil.mp (hnil ▸ flagPuts_lands), ?_⟩
  show flushed (p.toEp r) (p.worker.retire i) (p.reqs r).ucxRequestFlagTransfer = true
  cases hh : (p.reqs r).ucxRequestFlagTransfer with
  | none => rfl
  | some t =>
      rw [hh] at hfl
      exact Worker.clear_retire hfl i

end Proc

/-! ### Every run -/

/-- What every request of the process, and every sender, may have under way. -/
structure World.FlagInv (w : World) : Prop where
  inv : w.Inv
  stamped : w.proc.worker.Stamped
  sends : ∀ r < w.proc.nextRid, w.proc.SendFlags r
  recvs : ∀ r < w.proc.nextRid, w.proc.Tracked r → w.proc.RecvFlags r
  peers : ∀ r < w.proc.nextRid, (w.proc.reqs r).type.isRecv = true →
    (w.peers r).loc.worker.Stamped ∧ SendFlagsAt (w.peers r).loc (w.peers r).pc

/-- The condition on the steps of a run. -/
def World.FlushedFirst (w : World) (act : WorldAct) : Prop :=
  w.NotLeftPending act ∧ w.AnnouncementFlushed act

section
variable {w w' : World}

theorem flagInv_init (h : World.Init w) : World.FlagInv w where
  inv := inv_init h
  stamped := by
    rw [h.worker]
    intro x hx
    simp [Worker.idle] at hx
  sends r hr := by
    rw [h.nextRid] at hr
    exact absurd hr (Nat.not_lt_zero r)
  recvs r hr := by
    rw [h.nextRid] at hr
    exact absurd hr (Nat.not_lt_zero r)
  peers r hr := by
    rw [h.nextRid] at hr
    exact absurd hr (Nat.not_lt_zero r)

theorem flagInv_run {ans : Answer} (h : World.FlagInv w) (hok : w.FlushedFirst (.run ans))
    (hs : w.step (.run ans) = some w') : World.FlagInv w' := by
  have hinv := inv_run h.inv hok.1 hs
  simp only [World.step] at hs
  split at hs <;> simp only [reduceCtorEq, Option.some.injEq] at hs
  rename_i p c hrun
  subst hs
  have hS := h.inv.shape
  have hK := h.inv.known
  have hnext : p.nextRid = w.proc.nextRid := (Proc.run_control hS hK hrun).2.2.nextRid
  refine ⟨hinv, ?_, fun r hr => ?_, fun r hr ht => ?_, fun r hr ht =>
    h.peers r (hnext ▸ hr) (Proc.run_isRecv hS hK hrun r ▸ ht)⟩
  · rcases Proc.run_moves hrun with hw | ⟨q, -, hm⟩
    · show p.worker.Stamped
      rw [hw]
      exact h.stamped
    · exact stamped_moves h.stamped hm
  · have hr' : r < w.proc.nextRid := hnext ▸ hr
    by_cases hrecv : (w.proc.reqs r).type = .recv
    · have htype : (p.reqs r).type = .recv := by
        rcases Proc.run_type hS hK hrun r with heq | ⟨hs, -⟩ | ⟨hs, -⟩
        · exact heq.trans hrecv
        · simp [hrecv] at hs
        · simp [hrecv] at hs
      exact ⟨fun hs => by simp [World.setProc, htype] at hs, fun hs => by simp [World.setProc, htype] at hs⟩
    · exact Proc.sendFlags_run hS hK h.stamped (h.sends r hr') hrun hrecv
  · have hr' : r < w.proc.nextRid := hnext ▸ hr
    have htr := Proc.run_tracked hS hK hrun ht
    obtain ⟨a, ha⟩ := h.inv.conn r hr' htr
    cases hprog : w.proc.prog r with
    | none => exact Proc.recvFlags_other hS htr ha.receives hprog (h.recvs r hr' htr) hrun
    | some pt =>
        refine Proc.recvFlags_fetches hS (Proto.reach_joint ha.reached) ha.receives hprog
          (h.recvs r hr' htr) ?_ hrun
        rintro rfl hflag
        obtain ⟨below, hn⟩ := Proc.prog_eq hprog
        exact hok.2 ans r below rfl hn hflag

theorem flagInv_start {q : Rid} (h : World.FlagInv w) (hs : w.step (.start q) = some w') :
    World.FlagInv w' := by
  have hinv := inv_start h.inv hs
  simp only [World.step] at hs
  split at hs <;> simp only [reduceCtorEq, Option.some.injEq] at hs
  rename_i hfree
  obtain ⟨⟨hc, hn⟩, hq, hact⟩ := hfree
  subst hs
  obtain ⟨hw, hnest, hk, -, -⟩ := start_frame (p := w.proc) q
  refine ⟨hinv, ?_, fun r hr => ?_, fun r hr ht => ?_, fun r hr ht =>
    h.peers r (hk.nextRid ▸ hr) (start_type (p := w.proc) q r ▸ ht)⟩
  · show (w.proc.start q).1.worker.Stamped
    rw [hw]
    exact h.stamped
  · exact Proc.sendFlags_start (h.sends r (hk.nextRid ▸ hr)) hc hact
  · exact (h.recvs r (hk.nextRid ▸ hr) (Proc.tracked_congr (start_type q r) ht)).congr
      (Proc.start_handles q r) hw (hnest.trans hn)

theorem flagInv_wait {q : Rid} (h : World.FlagInv w) (hs : w.step (.wait q) = some w') :
    World.FlagInv w' := by
  have hinv := inv_wait h.inv hs
  simp only [World.step] at hs
  split at hs <;> simp only [reduceCtorEq, Option.some.injEq] at hs
  rename_i hfree
  obtain ⟨⟨hc, hn⟩, hq, hact⟩ := hfree
  subst hs
  obtain ⟨hw, hnest, -, hreqs, hk⟩ := wait_frame (p := w.proc) q
  refine ⟨hinv, ?_, fun r hr => ?_, fun r hr ht => ?_, fun r hr ht =>
    h.peers r (hk.nextRid ▸ hr) (by rwa [World.setProc, hreqs] at ht)⟩
  · show (w.proc.wait q).worker.Stamped
    rw [hw]
    exact h.stamped
  · exact Proc.sendFlags_wait (h.sends r (hk.nextRid ▸ hr)) hc hact
  · have htr : w.proc.Tracked r := Proc.tracked_congr (by rw [World.setProc, hreqs]) ht
    refine (h.recvs r (hk.nextRid ▸ hr) htr).congr ?_ hw (hnest.trans hn)
    show SameHandles (w.proc.reqs r) ((w.proc.wait q).reqs r)
    rw [hreqs]
    exact .refl _

/-- The process changes in nothing that flag puts depend on, and so does every sender. -/
theorem FlagInv.of_same (h : World.FlagInv w) (hinv : World.Inv w')
    (hsame : Proc.SameFlags w.proc w'.proc) (hnext : w'.proc.nextRid = w.proc.nextRid)
    (hpeers : ∀ r < w.proc.nextRid, (w.proc.reqs r).type.isRecv = true →
      (w'.peers r).loc.worker.Stamped ∧ SendFlagsAt (w'.peers r).loc (w'.peers r).pc) :
    World.FlagInv w' := by
  refine ⟨hinv, ?_, fun r hr => hsame.send (h.sends r (hnext ▸ hr)), fun r hr ht => ?_,
    fun r hr ht => hpeers r (hnext ▸ hr) (hsame.type r ▸ ht)⟩
  · rw [hsame.worker]
    exact h.stamped
  · exact hsame.recv (h.recvs r (hnext ▸ hr) (Proc.tracked_congr (hsame.type r) ht))

theorem Proc.SameFlags.refl (p : Proc) : Proc.SameFlags p p :=
  ⟨fun _ => .refl _, fun _ => rfl, fun _ => rfl, rfl, rfl, rfl, rfl⟩

/-- Another process writes the flag of a request. -/
theorem Proc.SameFlags.setFlag (p : Proc) (q : Rid) (v : Int) :
    Proc.SameFlags p (p.setReq q fun x => { x with flag := v }) := by
  have hreq : ∀ r, SameHandles (p.reqs r) ((p.setReq q fun x => { x with flag := v }).reqs r) :=
    fun r => Proc.setReq_handles (f := fun x => { x with flag := v }) q ⟨rfl, rfl, rfl⟩
  refine ⟨hreq, fun r => ?_, fun r => ?_, rfl, rfl, rfl, rfl⟩
  · by_cases hr : r = q
    · subst hr
      simp [Proc.setReq]
    · simp [Proc.setReq, hr]
  · exact Proc.setReq_type (p := p) (f := fun x => { x with flag := v }) rfl r

/-- What lands for a request writes the flag of its sender at most. -/
theorem land_peer (q : Rid) (op : RdmaOp) :
    (w.land q op).peers q = w.peers q ∨
      ∃ v, (w.land q op).peers q = { w.peers q with loc := (w.peers q).loc.setFlag v } := by
  unfold World.land
  split
  · exact Or.inl rfl
  · split <;> exact Or.inl rfl
  · split
    · exact Or.inr ⟨_, Function.update_self ..⟩
    · exact Or.inl rfl

/-- What lands for a sender writes the flag of its request at most. -/
theorem landPeer_same (q : Rid) (op : RdmaOp) : Proc.SameFlags w.proc (w.landPeer q op).proc := by
  unfold World.landPeer
  split
  · split <;> exact .refl _
  · exact .refl _
  · split
    · exact .setFlag w.proc q _
    · exact .refl _

theorem flagInv_free {q : Rid} (h : World.FlagInv w) (hs : w.step (.free q) = some w') :
    World.FlagInv w' := by
  have hinv := inv_free h.inv hs
  simp only [World.step] at hs
  split at hs <;> simp only [reduceCtorEq, Option.some.injEq] at hs
  subst hs
  exact FlagInv.of_same h hinv ⟨fun _ => .refl _, fun _ => rfl, fun _ => rfl, rfl, rfl, rfl, rfl⟩ rfl h.peers

theorem flagInv_writeFlag {q : Rid} {v : Int} (h : World.FlagInv w)
    (hs : w.step (.writeFlag q v) = some w') : World.FlagInv w' := by
  have hinv := inv_writeFlag h.inv hs
  simp only [World.step] at hs
  split at hs <;> simp only [reduceCtorEq, Option.some.injEq] at hs
  subst hs
  exact FlagInv.of_same h hinv (.setFlag w.proc q v) rfl h.peers

/-- A new request. -/
theorem FlagInv.of_initRequest {type : RequestType} {args : Proc.InitArgs} {info : RdmaInfo}
    (h : World.FlagInv w) (hinv : World.Inv w') (hfree : w.Free)
    (hp : w'.proc = (w.proc.initRequest type args info).1)
    (hold : ∀ r < w.proc.nextRid, w'.peers r = w.peers r)
    (hnew : type.isRecv = true → (w'.peers w.proc.nextRid).loc.worker.Stamped ∧
      SendFlagsAt (w'.peers w.proc.nextRid).loc (w'.peers w.proc.nextRid).pc) : World.FlagInv w' := by
  have hlt : ∀ {r}, r < w'.proc.nextRid → r ≠ w.proc.nextRid → r < w.proc.nextRid := by
    intro r hr hne
    rw [hp] at hr
    exact Nat.lt_of_le_of_ne (Nat.le_of_lt_succ hr) hne
  have hreq : ∀ {r}, r ≠ w.proc.nextRid → w'.proc.reqs r = w.proc.reqs r := by
    intro r hne
    rw [hp]
    exact Function.update_of_ne hne ..
  have hnested : w'.proc.nested = [] := by
    rw [hp]
    exact hfree.2
  refine ⟨hinv, by rw [hp]; exact h.stamped, fun r hr => ?_, fun r hr ht => ?_, fun r hr ht => ?_⟩
  · rw [hp] at hr ⊢
    exact Proc.sendFlags_initRequest h.inv.known hfree.1 h.sends hr
  · by_cases hr' : r = w.proc.nextRid
    · subst hr'
      obtain ⟨hn, hu⟩ := Proc.initRequest_new type args info h.inv.known
      rw [← hp] at hn hu
      refine ⟨⟨by rw [hn]; exact Nat.zero_le _, fun t ht => ?_⟩, fun pt hpt => ?_⟩
      · have hnone : (w'.proc.reqs w.proc.nextRid).ucxRequestFlagTransfer = some t := ht
        simp [hu.flagTransfer] at hnone
      · simp [Proc.prog, hnested] at hpt
    · have hsame : SameHandles (w.proc.reqs r) (w'.proc.reqs r) := by
        rw [hreq hr']
        exact .refl _
      have htr : w.proc.Tracked r := Proc.tracked_congr (by rw [hreq hr']) ht
      exact (h.recvs r (hlt hr hr') htr).congr hsame (by rw [hp]; rfl) hnested
  · by_cases hr' : r = w.proc.nextRid
    · subst hr'
      refine hnew ?_
      rw [hp] at ht
      simpa [Proc.initRequest] using ht
    · rw [hold r (hlt hr hr')]
      exact h.peers r (hlt hr hr') (by rwa [hreq hr'] at ht)

theorem flagInv_sendInit {args : Proc.InitArgs} {info : RdmaInfo} (h : World.FlagInv w)
    (hs : w.step (.sendInit args info) = some w') : World.FlagInv w' := by
  have hinv := inv_sendInit h.inv hs
  simp only [World.step] at hs
  split at hs <;> simp only [reduceCtorEq, Option.some.injEq] at hs
  rename_i hfree
  subst hs
  exact FlagInv.of_initRequest h hinv hfree rfl (fun _ _ => rfl) (by simp [RequestType.isRecv])

theorem flagInv_recvInit {args : Proc.InitArgs} {info : RdmaInfo} {size : Nat} (h : World.FlagInv w)
    (hs : w.step (.recvInit args info size) = some w') : World.FlagInv w' := by
  have hinv := inv_recvInit h.inv hs
  simp only [World.step] at hs
  split at hs <;> simp only [reduceCtorEq, Option.some.injEq] at hs
  rename_i hfree
  subst hs
  refine FlagInv.of_initRequest h hinv hfree rfl
    (fun r hr => Function.update_of_ne (Nat.ne_of_lt hr) ..) fun _ => ?_
  simp only [World.setPeer, Function.update_self]
  refine ⟨fun x hx => ?_, ?_, rfl, rfl⟩
  · simp [Peer.connected, Worker.idle] at hx
  · simp [Peer.connected, Worker.idle, Local.flagPuts]

/-- What the process posted. -/
theorem flagInv_lands {i : Nat} (h : World.FlagInv w) (hs : w.step (.lands i) = some w') :
    World.FlagInv w' := by
  have hinv := inv_lands h.inv hs
  simp only [World.step] at hs
  split at hs <;> simp only [reduceCtorEq, Option.some.injEq] at hs
  rename_i x hx
  subst hs
  obtain ⟨hproc, hpeers, -⟩ :=
    land_frame (w := w.setProc { w.proc with worker := w.proc.worker.retire i }) x.op.1 x.op.2
  refine ⟨hinv, ?_, fun r hr => ?_, fun r hr ht => ?_, fun r hr ht => ?_⟩
  · rw [hproc]
    exact h.stamped.retire i
  · rw [hproc] at hr ⊢
    exact Proc.sendFlags_lands (h.sends r hr)
  · rw [hproc] at hr ht ⊢
    exact Proc.recvFlags_lands (h.recvs r hr ht)
  · rw [hproc] at hr ht
    have hold := h.peers r hr ht
    by_cases hr' : r = x.op.1
    · subst hr'
      rcases land_peer (w := w.setProc { w.proc with worker := w.proc.worker.retire i }) x.op.1 x.op.2 with
        heq | ⟨v, heq⟩
      · rw [heq]
        exact hold
      · rw [heq]
        exact ⟨hold.1, hold.2.mono (fun _ hx => hx) rfl rfl⟩
    · rw [hpeers r hr']
      exact hold

/-- A step of a sender's process. -/
theorem flagInv_peer {q : Rid} {peer : Peer} (h : World.FlagInv w) (hinv : World.Inv (w.setPeer q peer))
    (hpeer : (w.proc.reqs q).type.isRecv = true → q < w.proc.nextRid →
      peer.loc.worker.Stamped ∧ SendFlagsAt peer.loc peer.pc) : World.FlagInv (w.setPeer q peer) := by
  refine FlagInv.of_same h hinv (.refl _) rfl fun r hr ht => ?_
  by_cases hrq : r = q
  · subst hrq
    simp only [World.setPeer, Function.update_self]
    exact hpeer ht hr
  · simp only [World.setPeer, Function.update_of_ne hrq]
    exact h.peers r hr ht

theorem flagInv_peerStart {q : Rid} (h : World.FlagInv w) (hs : w.step (.peerStart q) = some w') :
    World.FlagInv w' := by
  have hinv := inv_peerStart h.inv hs
  simp only [World.step] at hs
  split at hs <;> simp only [reduceCtorEq, Option.some.injEq] at hs
  rename_i hidle
  subst hs
  refine flagInv_peer h hinv fun ht hq => ?_
  obtain ⟨hst, hat⟩ := h.peers q hq ht
  rw [hidle.1] at hat
  exact ⟨hst, .of_none hat.1 ⟨hat.2.1, hat.2.2⟩⟩

theorem flagInv_peerWait {q : Rid} (h : World.FlagInv w) (hs : w.step (.peerWait q) = some w') :
    World.FlagInv w' := by
  have hinv := inv_peerWait h.inv hs
  simp only [World.step] at hs
  split at hs <;> simp only [reduceCtorEq, Option.some.injEq] at hs
  rename_i hstarted
  subst hs
  refine flagInv_peer h hinv fun ht hq => ?_
  obtain ⟨hst, hat⟩ := h.peers q hq ht
  rw [hstarted.1] at hat
  exact ⟨hst, hat⟩

theorem flagInv_peerRun {q : Rid} {imm : Bool} (h : World.FlagInv w)
    (hs : w.step (.peerRun q imm) = some w') : World.FlagInv w' := by
  have hinv := inv_peerRun h.inv hs
  simp only [World.step] at hs
  split at hs
  · rename_i pc l hrun
    split at hs <;> simp only [reduceCtorEq, Option.some.injEq] at hs
    subst hs
    refine flagInv_peer h hinv fun ht hq => ?_
    obtain ⟨hst, hat⟩ := h.peers q hq ht
    exact ⟨stamped_moves hst (moves_sendRun hrun), hat.run hst hrun⟩
  · simp at hs

theorem flagInv_peerLands {q : Rid} {i : Nat} (h : World.FlagInv w)
    (hs : w.step (.peerLands q i) = some w') : World.FlagInv w' := by
  have hinv := inv_peerLands h.inv hs
  simp only [World.step] at hs
  split at hs
  · rename_i x hx
    split at hs <;> simp only [reduceCtorEq, Option.some.injEq] at hs
    rename_i hq
    subst hs
    obtain ⟨-, -, ⟨reqs, hproc⟩, hpeers, -⟩ := landPeer_frame
      (w := w.setPeer q { w.peers q with loc := (w.peers q).loc.retire i }) q x.op
    refine FlagInv.of_same h hinv (landPeer_same (w := w.setPeer q _) q x.op) (by rw [hproc]; rfl)
      fun r hr ht => ?_
    obtain ⟨hst, hat⟩ := h.peers r hr ht
    rw [hpeers]
    by_cases hrq : r = q
    · subst hrq
      simp only [World.setPeer, Function.update_self]
      exact ⟨hst.retire i, hat.mono (fun _ hx => flagPuts_retire hx) rfl rfl⟩
    · simp only [World.setPeer, Function.update_of_ne hrq]
      exact ⟨hst, hat⟩
  · simp at hs

/-- **Step lemma.** -/
theorem flagInv_step {act : WorldAct} (h : World.FlagInv w) (hok : w.FlushedFirst act)
    (hs : w.step act = some w') : World.FlagInv w' := by
  cases act with
  | sendInit args info => exact flagInv_sendInit h hs
  | recvInit args info size => exact flagInv_recvInit h hs
  | start q => exact flagInv_start h hs
  | wait q => exact flagInv_wait h hs
  | free q => exact flagInv_free h hs
  | run ans => exact flagInv_run h hok hs
  | lands i => exact flagInv_lands h hs
  | writeFlag q v => exact flagInv_writeFlag h hs
  | peerStart q => exact flagInv_peerStart h hs
  | peerWait q => exact flagInv_peerWait h hs
  | peerRun q imm => exact flagInv_peerRun h hs
  | peerLands q i => exact flagInv_peerLands h hs

/-! ### What the flag of a sender says -/

/-- Of the points of `b_send` and `e_send`, only the store of `flag++` writes the flag. -/
theorem sendRun_flag {imm : Bool} {pc pc' : SendPc} {l l' : Local RdmaOp}
    (hrun : sendRun imm pc l = some (pc', l')) (hpc : ∀ v, pc ≠ .start (.store v)) :
    l'.req.flag = l.req.flag := by
  cases pc with
  | start p =>
      have hb : (bSend id oneEp imm p l).2.req.flag = l.req.flag := by
        cases p with
        | test =>
            simp only [bSend]
            split <;> rfl
        | store v => exact absurd rfl (hpc v)
        | _ => rfl
      simp only [sendRun] at hrun
      split at hrun <;> rename_i heq <;> rw [heq] at hb <;> cases hrun <;> exact hb
  | wait w =>
      have hb : (eSend oneEp w l).2.req.flag = l.req.flag := by
        cases w <;> simp only [eSend] <;> split <;> rfl
      simp only [sendRun] at hrun
      split at hrun <;> rename_i heq <;> rw [heq] at hb <;> cases hrun <;> exact hb
  | idle => simp [sendRun] at hrun
  | started => simp [sendRun] at hrun

/-- The flag of a sender is written by its own `flag++`, and by the flag puts of its receiver, with
what is in the word as they land. -/
theorem peer_flag {act : WorldAct} {r : Rid} (hr : r < w.proc.nextRid) (hs : w.step act = some w')
    (hne : (w'.peers r).loc.req.flag ≠ (w.peers r).loc.req.flag) :
    (∃ i x, w.proc.worker.enabled? i = some x ∧ x.op.1 = r ∧ x.op.2.isFlag = true ∧
        (w'.peers r).loc.req.flag = (w.proc.reqs r).flagBuffer) ∨
      ∃ imm v, act = .peerRun r imm ∧ (w.peers r).pc = .start (.store v) := by
  have hsame : w'.peers r = w.peers r → False := fun h => hne (by rw [h])
  have hset : ∀ {q : Rid} {peer : Peer}, (w.setPeer q peer).peers r ≠ w.peers r → q = r := by
    intro q peer h
    by_contra hq
    exact h (Function.update_of_ne (Ne.symm hq) ..)
  cases act with
  | lands i =>
      refine Or.inl ?_
      simp only [World.step] at hs
      split at hs <;> simp only [reduceCtorEq, Option.some.injEq] at hs
      rename_i x hx
      subst hs
      rcases hop : x.op with ⟨q, op⟩
      rw [hop] at hne hsame
      refine ⟨i, x, hx, ?_⟩
      rw [hop]
      have hq : q = r := by
        by_contra hq
        exact hsame ((land_frame q op).2.1 r (Ne.symm hq))
      subst hq
      cases op with
      | flag n dst =>
          refine ⟨rfl, rfl, ?_⟩
          simp only [World.land] at hsame ⊢
          split at hsame
          · rename_i hdst
            rw [if_pos hdst]
            simp [World.setPeer, World.setProc, Local.setFlag]
          · exact (hsame rfl).elim
      | put n src len dst => exact (hsame rfl).elim
      | get n dst len src =>
          simp only [World.land] at hsame
          split at hsame <;> exact (hsame rfl).elim
  | peerRun q imm =>
      refine Or.inr ?_
      simp only [World.step] at hs
      split at hs
      · rename_i pc l hrun
        split at hs <;> simp only [reduceCtorEq, Option.some.injEq] at hs
        subst hs
        obtain rfl : q = r := hset (fun h => hsame h)
        by_contra hno
        refine hne ?_
        simp only [World.setPeer, Function.update_self]
        exact sendRun_flag hrun fun v hv => hno ⟨imm, v, rfl, hv⟩
      · simp at hs
  | peerStart q =>
      simp only [World.step] at hs
      split at hs <;> simp only [reduceCtorEq, Option.some.injEq] at hs
      subst hs
      obtain rfl : q = r := hset (fun h => hsame h)
      exact absurd (by simp [World.setPeer, Local.countStart]) hne
  | peerWait q =>
      simp only [World.step] at hs
      split at hs <;> simp only [reduceCtorEq, Option.some.injEq] at hs
      subst hs
      obtain rfl : q = r := hset (fun h => hsame h)
      exact absurd (by simp [World.setPeer]) hne
  | peerLands q i =>
      simp only [World.step] at hs
      split at hs
      · rename_i x hx
        split at hs <;> simp only [reduceCtorEq, Option.some.injEq] at hs
        subst hs
        obtain ⟨-, -, -, hpeers, -⟩ := landPeer_frame
          (w := w.setPeer q { w.peers q with loc := (w.peers q).loc.retire i }) q x.op
        rw [hpeers] at hne hsame
        obtain rfl : q = r := hset (fun h => hsame h)
        exact absurd (by simp [World.setPeer, Local.retire]) hne
      · simp at hs
  | recvInit args info size =>
      simp only [World.step] at hs
      split at hs <;> simp only [reduceCtorEq, Option.some.injEq] at hs
      subst hs
      exact (hsame (Function.update_of_ne (Nat.ne_of_lt hr) ..)).elim
  | run ans =>
      simp only [World.step] at hs
      split at hs <;> simp only [reduceCtorEq, Option.some.injEq] at hs
      subst hs
      exact (hsame rfl).elim
  | _ =>
      simp only [World.step] at hs
      split at hs <;> simp only [reduceCtorEq, Option.some.injEq] at hs
      subst hs
      exact (hsame rfl).elim

/-- While the announcement is under way, the word holds the notice only behind the write of
`progress_recv_request`. -/
theorem RecvIn.overtaken {l : Local RdmaOp} {fl : Flight} {s : RecvStage} {pc : RecvPc}
    {prog : Option Point} {x : Posted RdmaOp} (h : RecvIn l fl s pc prog) (hx : fl.ready = some x)
    (hb : l.req.flagBuffer = l.req.operationNumber * 2 + 2) :
    fl.notice ≠ none ∨ prog = some .signal := by
  have hne : fl.ready ≠ none := by simp [hx]
  have hempty : fl ≠ .empty := by
    rintro rfl
    simp [Flight.empty] at hx
  have hodd : l.req.flagBuffer ≠ l.req.operationNumber * 2 + 1 := by omega
  have hat : RecvAt l fl s pc → fl.notice ≠ none := by
    intro hA
    unfold RecvAt at hA
    split at hA
    case h_2 p =>
      cases p <;> simp only [RecvStartAt, RecvWaits] at hA <;> grind [Pulled, RecvReady]
    case h_9 p =>
      cases p <;> simp only [CrosstalkAt] at hA <;> grind [Pulled]
    all_goals grind [RecvWaits, Pulled, RecvReady, RecvSettled]
  cases prog with
  | none => exact Or.inl (hat h)
  | some p =>
      cases p with
      | test => exact Or.inl (hat h)
      | progress => exact Or.inl (hat h)
      | signal => exact Or.inr rfl
      | _ =>
          refine Or.inl ?_
          simp only [RecvIn, ProgressAt, FetchAt] at h
          grind [Pulling]

/-- **A flag put that says an operation is over lands after the get.** -/
theorem World.FlagInv.finished {i : Nat} {r : Rid} {x : Posted (Rid × RdmaOp)} {n : Int}
    (h : World.FlagInv w) (hr : r < w.proc.nextRid) (ht : w.proc.Tracked r)
    (hx : w.proc.worker.enabled? i = some x) (hq : x.op.1 = r) (hf : x.op.2.isFlag = true)
    (hn : (w.proc.reqs r).flagBuffer = 2 * n + 2) : (n, .get) ∈ w.landed r := by
  obtain ⟨a, ha⟩ := h.inv.conn r hr ht
  have hown : operationOf r x.op = some x.op.2 := if_pos hq
  obtain ⟨j, hj, -⟩ := Worker.view_enabled? hx hown
  rcases ht with ht' | ht'
  · obtain ⟨hrel, -, -⟩ := ha.receives.connected ht'
    obtain ⟨fl, hC, hA⟩ := hrel.sim
    have hnum : a.recvNumber = (w.proc.reqs r).operationNumber := hrel.number
    have hbuf : (w.proc.view r).req.flagBuffer = 2 * n + 2 := hn
    rcases hC.lands hj with ⟨hready, -⟩ | ⟨hdata, -⟩ | ⟨hnotice, hno, hd, -⟩
    · obtain ⟨-, hval, -⟩ := hA.ready_lands hready rfl rfl
      have hpar : (w.proc.view r).req.flagBuffer = (w.proc.view r).req.operationNumber * 2 + 2 := by
        rw [hval] at hbuf ⊢
        unfold RecvStage.readyValue at hbuf ⊢
        split at hbuf <;> omega
      have hflags := h.recvs r hr (Or.inl ht')
      have hputs := hC.flagPuts
      rcases hA.overtaken hready hpar with hsome | hsignal
      · obtain ⟨y, hy⟩ := Option.ne_none_iff_exists'.mp hsome
        have hone := hflags.one.one
        rw [hputs, hready, hy] at hone
        simp at hone
      · have hnil := (hflags.fetching .signal hsignal rfl).1
        rw [hputs, hready] at hnil
        simp at hnil
    · have hop := hC.data _ hdata
      have hop' : x.op.2 = payloadOp .get (w.proc.reqs r) := hop
      simp [hop', payloadOp, RdmaOp.isFlag] at hf
    · obtain ⟨⟨t, hs⟩, hval, -⟩ := hA.notice_lands hnotice hno hd rfl
      have hmem := Proto.reach_fetched ha.reached _ hs rfl
      rw [ha.landed] at hmem
      have hval' : (w.proc.reqs r).flagBuffer = (w.proc.reqs r).operationNumber * 2 + 2 := hval
      have heq : a.recvNumber = n := by omega
      exact heq ▸ hmem
  · have hpend := (ha.receives.searching ht').pending
    have hmem := (Worker.enabled?_eq_some.mp hj).1
    rw [show ((w.proc.worker.view (operationOf r)).pending) = [] from hpend] at hmem
    simp at hmem

/-- The invariant says what the word must not do. -/
theorem World.FlagInv.safe (h : World.FlagInv w) : w.FlagBufferSafe := by
  have hlt : ∀ {r}, w.proc.fills = some r → r < w.proc.nextRid := by
    intro r hf
    unfold Proc.fills at hf
    split at hf
    · rename_i q pt rest hn
      split at hf <;> simp only [reduceCtorEq, Option.some.injEq] at hf
      subst hf
      exact h.inv.known.nested (.progressRecv q pt) (by simp [hn]) q (by simp [Frame.rids])
    · simp at hf
    · split at hf
      all_goals
        first
        | (rename_i q pt hcall
           split at hf <;> simp only [reduceCtorEq, Option.some.injEq] at hf
           subst hf
           exact h.inv.known.call q (by rw [hcall]; rfl))
        | simp at hf
  refine ⟨fun r hf => ?_, fun r hr ht hf => ?_, fun act w' r n hs hr ht hne hn => ?_⟩
  · by_cases ht : (w.proc.reqs r).type = .recv
    · obtain ⟨a, ha⟩ := h.inv.conn r (hlt hf) (Or.inl ht)
      exact Proc.flagFlushed h.inv.shape (h.sends r (hlt hf))
        (fun _ => ⟨ha.receives, h.recvs r (hlt hf) (Or.inl ht)⟩) hf
    · exact Proc.flagFlushed (a := .connected) h.inv.shape (h.sends r (hlt hf)) (fun h => absurd h ht) hf
  · obtain ⟨-, hat⟩ := h.peers r hr ht
    obtain ⟨hnil, hu⟩ := hat.flushed hf
    refine ⟨fun x hx => ?_, by rw [hu.dataTransfer]; rfl, by rw [hu.flagTransfer]; rfl⟩
    by_contra hflag
    have hmem : x ∈ (w.peers r).loc.flagPuts := mem_flagPuts.mpr ⟨hx, by simpa using hflag⟩
    rw [hnil] at hmem
    exact List.not_mem_nil hmem
  · rcases peer_flag hr hs hne with ⟨i, x, hx, hq, hflag, hval⟩ | hown
    · exact Or.inl (h.finished hr ht hx hq hflag (hval ▸ hn))
    · exact Or.inr hown

/-! ### What a put delivers -/

/-- One worker after another: time goes on, and what is under way was under way, or is new. -/
structure Worker.Later {Op : Type*} (w w' : Worker Op) : Prop where
  clock : w.clock ≤ w'.clock
  pending : ∀ x ∈ w'.pending, x ∈ w.pending ∨ w.clock ≤ x.stamp

theorem Worker.Later.refl {Op : Type*} (w : Worker Op) : Worker.Later w w :=
  ⟨Nat.le_refl _, fun _ hx => Or.inl hx⟩

theorem Worker.Later.retire {Op : Type*} (w : Worker Op) (i : Nat) : Worker.Later w (w.retire i) :=
  ⟨Nat.le_refl _, fun _ hx => Or.inl (List.mem_of_mem_eraseIdx hx)⟩

theorem Worker.Later.moves {Op : Type*} {tag : RdmaOp → Op} {w w' : Worker Op}
    (hm : Worker.Moves tag w w') : Worker.Later w w' := by
  rcases hm with rfl | ⟨op, rfl⟩ | rfl
  · exact .refl _
  · refine ⟨Nat.le_succ _, fun x hx => ?_⟩
    rw [Worker.post_pending, List.mem_append, List.mem_singleton] at hx
    rcases hx with hx | rfl
    · exact Or.inl hx
    · exact Or.inr (Nat.le_refl _)
  · exact ⟨Nat.le_refl _, fun _ hx => Or.inl hx⟩

/-- What a step does to the worker of the process, and to the words of its requests. -/
theorem step_own {act : WorldAct} (h : World.Inv w) (hs : w.step act = some w') :
    w.proc.nextRid ≤ w'.proc.nextRid ∧ Worker.Later w.proc.worker w'.proc.worker ∧
      ∀ r < w.proc.nextRid, (w'.proc.reqs r).flagBuffer = (w.proc.reqs r).flagBuffer ∨
        w.proc.fills = some r := by
  have hsame : ∀ {p : Proc}, Proc.SameFlags w.proc p → p.nextRid = w.proc.nextRid →
      w.proc.nextRid ≤ p.nextRid ∧ Worker.Later w.proc.worker p.worker ∧
      ∀ r < w.proc.nextRid, (p.reqs r).flagBuffer = (w.proc.reqs r).flagBuffer ∨
        w.proc.fills = some r := fun hp hn =>
    ⟨Nat.le_of_eq hn.symm, by rw [hp.worker]; exact .refl _, fun r _ => Or.inl (hp.handles r).flagBuffer⟩
  have hinit : ∀ (type : RequestType) (args : Proc.InitArgs) (info : RdmaInfo), ∀ r < w.proc.nextRid,
      ((w.proc.initRequest type args info).1.reqs r).flagBuffer = (w.proc.reqs r).flagBuffer := by
    intro type args info r hr
    simp [Proc.initRequest, Nat.ne_of_lt hr]
  cases act with
  | run ans =>
      simp only [World.step] at hs
      split at hs <;> simp only [reduceCtorEq, Option.some.injEq] at hs
      rename_i p c hrun
      subst hs
      refine ⟨Nat.le_of_eq (Proc.run_control h.shape h.known hrun).2.2.nextRid.symm, ?_, fun r _ => ?_⟩
      · rcases Proc.run_moves hrun with hw | ⟨q, -, hm⟩
        · show Worker.Later w.proc.worker p.worker
          rw [hw]
          exact .refl _
        · exact .moves hm
      · by_cases hf : w.proc.fills = some r
        · exact Or.inr hf
        · exact Or.inl (Proc.run_flagBuffer hf hrun)
  | lands i =>
      simp only [World.step] at hs
      split at hs <;> simp only [reduceCtorEq, Option.some.injEq] at hs
      rename_i x hx
      subst hs
      obtain ⟨hproc, -, -⟩ :=
        land_frame (w := w.setProc { w.proc with worker := w.proc.worker.retire i }) x.op.1 x.op.2
      rw [hproc]
      exact ⟨Nat.le_refl _, .retire _ i, fun r _ => Or.inl rfl⟩
  | sendInit args info =>
      simp only [World.step] at hs
      split at hs <;> simp only [reduceCtorEq, Option.some.injEq] at hs
      subst hs
      exact ⟨Nat.le_succ _, .refl _, fun r hr => Or.inl (hinit _ _ _ r hr)⟩
  | recvInit args info size =>
      simp only [World.step] at hs
      split at hs <;> simp only [reduceCtorEq, Option.some.injEq] at hs
      subst hs
      exact ⟨Nat.le_succ _, .refl _, fun r hr => Or.inl (hinit _ _ _ r hr)⟩
  | start q =>
      simp only [World.step] at hs
      split at hs <;> simp only [reduceCtorEq, Option.some.injEq] at hs
      subst hs
      obtain ⟨hw, -, hk, -, -⟩ := start_frame (p := w.proc) q
      refine ⟨Nat.le_of_eq hk.nextRid.symm, ?_, fun r _ => Or.inl (Proc.start_handles q r).flagBuffer⟩
      show Worker.Later w.proc.worker (w.proc.start q).1.worker
      rw [hw]
      exact .refl _
  | wait q =>
      simp only [World.step] at hs
      split at hs <;> simp only [reduceCtorEq, Option.some.injEq] at hs
      subst hs
      obtain ⟨hw, -, -, hreqs, hk⟩ := wait_frame (p := w.proc) q
      refine ⟨Nat.le_of_eq hk.nextRid.symm, ?_, fun r _ => Or.inl (by rw [World.setProc, hreqs])⟩
      show Worker.Later w.proc.worker (w.proc.wait q).worker
      rw [hw]
      exact .refl _
  | free q =>
      simp only [World.step] at hs
      split at hs <;> simp only [reduceCtorEq, Option.some.injEq] at hs
      subst hs
      exact ⟨Nat.le_refl _, .refl _, fun r _ => Or.inl rfl⟩
  | writeFlag q v =>
      simp only [World.step] at hs
      split at hs <;> simp only [reduceCtorEq, Option.some.injEq] at hs
      subst hs
      exact hsame (.setFlag w.proc q v) rfl
  | peerStart q =>
      simp only [World.step] at hs
      split at hs <;> simp only [reduceCtorEq, Option.some.injEq] at hs
      subst hs
      exact hsame (.refl _) rfl
  | peerWait q =>
      simp only [World.step] at hs
      split at hs <;> simp only [reduceCtorEq, Option.some.injEq] at hs
      subst hs
      exact hsame (.refl _) rfl
  | peerRun q imm =>
      simp only [World.step] at hs
      split at hs
      · split at hs <;> simp only [reduceCtorEq, Option.some.injEq] at hs
        subst hs
        exact hsame (.refl _) rfl
      · simp at hs
  | peerLands q i =>
      simp only [World.step] at hs
      split at hs
      · rename_i x hx
        split at hs <;> simp only [reduceCtorEq, Option.some.injEq] at hs
        subst hs
        obtain ⟨-, -, ⟨reqs, hproc⟩, -, -⟩ := landPeer_frame
          (w := w.setPeer q { w.peers q with loc := (w.peers q).loc.retire i }) q x.op
        exact hsame (landPeer_same (w := w.setPeer q _) q x.op) (by rw [hproc]; rfl)
      · simp at hs

/-- What a step does to a sender. -/
theorem step_peer {act : WorldAct} {r : Rid} (hr : r < w.proc.nextRid) (hs : w.step act = some w') :
    Worker.Later (w.peers r).loc.worker (w'.peers r).loc.worker ∧
      ((w'.peers r).loc.req.flagBuffer = (w.peers r).loc.req.flagBuffer ∨
        (w.peers r).pc.fills = true) := by
  have hkeep : ∀ {q : Peer}, q = w.peers r → Worker.Later (w.peers r).loc.worker q.loc.worker ∧
      (q.loc.req.flagBuffer = (w.peers r).loc.req.flagBuffer ∨ (w.peers r).pc.fills = true) := by
    rintro q rfl
    exact ⟨.refl _, Or.inl rfl⟩
  have hset : ∀ {q : Rid} {peer : Peer},
      (q = r → Worker.Later (w.peers r).loc.worker peer.loc.worker ∧
        (peer.loc.req.flagBuffer = (w.peers r).loc.req.flagBuffer ∨ (w.peers r).pc.fills = true)) →
      Worker.Later (w.peers r).loc.worker ((w.setPeer q peer).peers r).loc.worker ∧
        (((w.setPeer q peer).peers r).loc.req.flagBuffer = (w.peers r).loc.req.flagBuffer ∨
          (w.peers r).pc.fills = true) := by
    intro q peer h
    by_cases hq : q = r
    · subst hq
      simpa only [World.setPeer, Function.update_self] using h rfl
    · exact hkeep (Function.update_of_ne (Ne.symm hq) ..)
  cases act with
  | lands i =>
      simp only [World.step] at hs
      split at hs <;> simp only [reduceCtorEq, Option.some.injEq] at hs
      rename_i x hx
      subst hs
      by_cases hq : r = x.op.1
      · subst hq
        rcases land_peer (w := w.setProc { w.proc with worker := w.proc.worker.retire i }) x.op.1
          x.op.2 with heq | ⟨v, heq⟩
        · exact hkeep heq
        · rw [heq]
          exact ⟨.refl _, Or.inl rfl⟩
      · exact hkeep ((land_frame (w := w.setProc { w.proc with worker := w.proc.worker.retire i })
          x.op.1 x.op.2).2.1 r hq)
  | peerRun q imm =>
      simp only [World.step] at hs
      split at hs
      · rename_i pc l hrun
        split at hs <;> simp only [reduceCtorEq, Option.some.injEq] at hs
        subst hs
        refine hset ?_
        rintro rfl
        refine ⟨.moves (moves_sendRun hrun), ?_⟩
        cases hf : (w.peers q).pc.fills with
        | true => exact Or.inr rfl
        | false => exact Or.inl (sendRun_flagBuffer hrun hf)
      · simp at hs
  | peerStart q =>
      simp only [World.step] at hs
      split at hs <;> simp only [reduceCtorEq, Option.some.injEq] at hs
      subst hs
      refine hset ?_
      rintro rfl
      exact ⟨.refl _, Or.inl rfl⟩
  | peerWait q =>
      simp only [World.step] at hs
      split at hs <;> simp only [reduceCtorEq, Option.some.injEq] at hs
      subst hs
      refine hset ?_
      rintro rfl
      exact ⟨.refl _, Or.inl rfl⟩
  | peerLands q i =>
      simp only [World.step] at hs
      split at hs
      · rename_i x hx
        split at hs <;> simp only [reduceCtorEq, Option.some.injEq] at hs
        subst hs
        obtain ⟨-, -, -, hpeers, -⟩ := landPeer_frame
          (w := w.setPeer q { w.peers q with loc := (w.peers q).loc.retire i }) q x.op
        rw [hpeers]
        refine hset ?_
        rintro rfl
        exact ⟨.retire _ i, Or.inl rfl⟩
      · simp at hs
  | recvInit args info size =>
      simp only [World.step] at hs
      split at hs <;> simp only [reduceCtorEq, Option.some.injEq] at hs
      subst hs
      exact hkeep (Function.update_of_ne (Nat.ne_of_lt hr) ..)
  | run ans =>
      simp only [World.step] at hs
      split at hs <;> simp only [reduceCtorEq, Option.some.injEq] at hs
      subst hs
      exact hkeep rfl
  | _ =>
      simp only [World.step] at hs
      split at hs <;> simp only [reduceCtorEq, Option.some.injEq] at hs
      subst hs
      exact hkeep rfl

/-- A request changes its type in its first Wait at most. -/
theorem step_type {act : WorldAct} (h : World.Inv w) (hs : w.step act = some w') {r : Rid}
    (hr : r < w.proc.nextRid) : (w'.proc.reqs r).type = (w.proc.reqs r).type ∨
      ((w.proc.reqs r).type = .sendSearch ∧
        ((w'.proc.reqs r).type = .send ∨ (w'.proc.reqs r).type = .sendFallback)) ∨
      ((w.proc.reqs r).type = .recvSearch ∧
        ((w'.proc.reqs r).type = .recv ∨ (w'.proc.reqs r).type = .recvFallback)) := by
  have hinit : ∀ (type : RequestType) (args : Proc.InitArgs) (info : RdmaInfo),
      ((w.proc.initRequest type args info).1.reqs r).type = (w.proc.reqs r).type := by
    intro type args info
    simp [Proc.initRequest, Nat.ne_of_lt hr]
  cases act with
  | run ans =>
      simp only [World.step] at hs
      split at hs <;> simp only [reduceCtorEq, Option.some.injEq] at hs
      rename_i p c hrun
      subst hs
      exact Proc.run_type h.shape h.known hrun r
  | lands i =>
      simp only [World.step] at hs
      split at hs <;> simp only [reduceCtorEq, Option.some.injEq] at hs
      rename_i x hx
      subst hs
      refine Or.inl ?_
      rw [(land_frame (w := w.setProc { w.proc with worker := w.proc.worker.retire i })
        x.op.1 x.op.2).1]
      rfl
  | sendInit args info =>
      simp only [World.step] at hs
      split at hs <;> simp only [reduceCtorEq, Option.some.injEq] at hs
      subst hs
      refine Or.inl ?_
      rw [World.setProc, hinit]
  | recvInit args info size =>
      simp only [World.step] at hs
      split at hs <;> simp only [reduceCtorEq, Option.some.injEq] at hs
      subst hs
      refine Or.inl ?_
      rw [World.setPeer, World.setProc, hinit]
  | start q =>
      simp only [World.step] at hs
      split at hs <;> simp only [reduceCtorEq, Option.some.injEq] at hs
      subst hs
      refine Or.inl ?_
      rw [World.setProc, start_type]
  | wait q =>
      simp only [World.step] at hs
      split at hs <;> simp only [reduceCtorEq, Option.some.injEq] at hs
      subst hs
      refine Or.inl ?_
      rw [World.setProc, (wait_frame q).2.2.2.1]
  | writeFlag q v =>
      simp only [World.step] at hs
      split at hs <;> simp only [reduceCtorEq, Option.some.injEq] at hs
      subst hs
      refine Or.inl ?_
      rw [World.setProc, (Proc.SameFlags.setFlag w.proc q v).type]
  | peerRun q imm =>
      simp only [World.step] at hs
      split at hs
      · split at hs <;> simp only [reduceCtorEq, Option.some.injEq] at hs
        subst hs
        refine Or.inl ?_
        rfl
      · simp at hs
  | peerLands q i =>
      simp only [World.step] at hs
      split at hs
      · rename_i x hx
        split at hs <;> simp only [reduceCtorEq, Option.some.injEq] at hs
        subst hs
        refine Or.inl ?_
        rw [(landPeer_same (w := w.setPeer q _) q x.op).type]
        rfl
      · simp at hs
  | _ =>
      simp only [World.step] at hs
      split at hs <;> simp only [reduceCtorEq, Option.some.injEq] at hs
      subst hs
      refine Or.inl ?_
      rfl

/-- A receive request stays one. -/
theorem step_isRecv {act : WorldAct} (h : World.Inv w) (hs : w.step act = some w') {r : Rid}
    (hr : r < w.proc.nextRid) : (w'.proc.reqs r).type.isRecv = (w.proc.reqs r).type.isRecv := by
  rcases step_type h hs hr with heq | ⟨ht, heq | heq⟩ | ⟨ht, heq | heq⟩
  · rw [heq]
  all_goals simp [ht, heq, RequestType.isRecv]

/-- What is followed now was followed before. -/
theorem step_tracked {act : WorldAct} (h : World.Inv w) (hs : w.step act = some w') {r : Rid}
    (hr : r < w.proc.nextRid) (ht : w'.proc.Tracked r) : w.proc.Tracked r := by
  unfold Proc.Tracked at ht ⊢
  rcases step_type h hs hr with heq | ⟨-, heq | heq⟩ | ⟨hsearch, -⟩
  · rwa [heq] at ht
  · simp [heq] at ht
  · simp [heq] at ht
  · exact Or.inr hsearch

/-- What holds between a state and a later one. -/
structure World.Follows (w w' : World) : Prop where
  inv : World.FlagInv w'
  nextRid : w.proc.nextRid ≤ w'.proc.nextRid
  clock : w.proc.worker.clock ≤ w'.proc.worker.clock
  isRecv : ∀ r < w.proc.nextRid, (w'.proc.reqs r).type.isRecv = (w.proc.reqs r).type.isRecv
  peerClock : ∀ r < w.proc.nextRid,
    (w.peers r).loc.worker.clock ≤ (w'.peers r).loc.worker.clock
  values : w.SameValues w'

/-- A put that is under way keeps the word as it is. -/
theorem follows_step {w'' : World} {act : WorldAct} (h0 : World.FlagInv w) (h : w.Follows w')
    (hok : w'.FlushedFirst act) (hs : w'.step act = some w'') : w.Follows w'' := by
  obtain ⟨hnext, hlater, hword⟩ := step_own h.inv.inv hs
  have hrid : ∀ {r}, r < w.proc.nextRid → r < w'.proc.nextRid := fun hr => Nat.lt_of_lt_of_le hr h.nextRid
  refine ⟨flagInv_step h.inv hok hs, Nat.le_trans h.nextRid hnext, Nat.le_trans h.clock hlater.clock,
    fun r hr => (step_isRecv h.inv.inv hs (hrid hr)).trans (h.isRecv r hr),
    fun r hr => Nat.le_trans (h.peerClock r hr) (step_peer (hrid hr) hs).1.clock, ?_, ?_⟩
  · intro x hx hx'' hflag
    have hlt := h0.stamped x hx
    have hx' : x ∈ w'.proc.worker.pending :=
      (hlater.pending x hx'').resolve_right (Nat.not_le_of_lt (Nat.lt_of_lt_of_le hlt h.clock))
    rcases hword x.op.1 (hrid (h0.inv.known.pending x hx)) with heq | hf
    · exact heq.trans (h.values.own x hx hx' hflag)
    · have hno := (h.inv.safe.unwritten _ hf).landed x hx' rfl
      simp [hflag] at hno
  · intro r hr ht x hx hx'' hflag
    obtain ⟨hpeer, hword⟩ := step_peer (hrid hr) hs
    have hlt := (h0.peers r hr ht).1 x hx
    have hx' : x ∈ (w'.peers r).loc.worker.pending :=
      (hpeer.pending x hx'').resolve_right (Nat.not_le_of_lt (Nat.lt_of_lt_of_le hlt (h.peerClock r hr)))
    rcases hword with heq | hf
    · exact heq.trans (h.values.peer r hr ht x hx hx' hflag)
    · have ht' : (w'.proc.reqs r).type.isRecv = true := (h.isRecv r hr).trans ht
      have hno := (h.inv.safe.peerUnwritten r (hrid hr) ht' hf).landed x hx'
      simp [hflag] at hno

/--
**The word that flag puts are read from is safe** in every run in which
`progress_recv_request` goes into its branch only once the request's announcement is
flushed, and leaves no flush incomplete for the request that is being waited for.  So
every flag put delivers what it was issued with.
-/
theorem flagBuffer_safe (h : Reach World.step World.FlushedFirst World.Init w) :
    w.FlagBufferSafe ∧ ∀ w', Reach World.step World.FlushedFirst (· = w) w' → w.SameValues w' := by
  have hinv : World.FlagInv w :=
    h.invariant (fun _ h0 => flagInv_init h0) fun _ _ _ h hok hs => flagInv_step h hok hs
  refine ⟨hinv.safe, fun w' h' => ?_⟩
  have hfollows : w.Follows w' := by
    refine h'.invariant ?_ fun _ _ _ h hok hs => follows_step hinv h hok hs
    rintro _ rfl
    exact ⟨hinv, Nat.le_refl _, Nat.le_refl _, fun _ _ => rfl, fun _ _ => Nat.le_refl _,
      fun _ _ _ _ => rfl, fun _ _ _ _ _ _ _ => rfl⟩
  exact hfollows.values

end

/-! ### Two runs -/

/-- Request 0 announces itself, and so does its sender. -/
def announcedRun : List WorldAct :=
  connectRun ++ [.start 0] ++ answered 5 false ++ [.peerStart 0] ++ List.replicate 5 (.peerRun 0 false) ++
    [.peerLands 0 0]

/-- The Wait on request 1 progresses request 0, whose announcement is still under way. -/
def tornRun : List WorldAct :=
  announcedRun ++ [.start 1] ++ answered 4 false ++ [.wait 1] ++ answered 8 false

/-- The announcement lands after that write. -/
def toldRun : List WorldAct := tornRun ++ answered 1 false ++ [.lands 0]

/-- The same once the announcement has landed, to where the notice has landed. -/
def untornRun : List WorldAct :=
  announcedRun ++ [.lands 0, .start 1] ++ answered 4 false ++ [.wait 1] ++ answered 10 false ++
    [.lands 0, .lands 0]

/-- The second half of the condition on the steps, as a test. -/
def announcementFlushed (w : World) : WorldAct → Bool
  | .run _ =>
      match w.proc.nested with
      | .progressRecv r .test :: _ =>
          decide ((w.proc.reqs r).flag ≠ (w.proc.reqs r).operationNumber * 2 + 1) ||
            flushed (w.proc.toEp r) w.proc.worker (w.proc.reqs r).ucxRequestFlagTransfer
      | _ => true
  | _ => true

theorem announcementFlushed_sound (w : World) (act : WorldAct) (h : announcementFlushed w act = true) :
    w.AnnouncementFlushed act := by
  rintro ans r below rfl hn hflag
  unfold announcementFlushed at h
  rw [hn] at h
  simpa [hflag] using h

/-- The condition on the steps, as a test. -/
def flushedFirst (w : World) (act : WorldAct) : Bool :=
  notLeftPending w act && announcementFlushed w act

theorem flushedFirst_sound (w : World) (act : WorldAct) (h : flushedFirst w act = true) :
    w.FlushedFirst act := by
  rw [flushedFirst, Bool.and_eq_true] at h
  exact ⟨notLeftPending_sound w act h.1, announcementFlushed_sound w act h.2⟩

theorem untornRun_safe :
    match runFrom (guarded flushedFirst World.step) freshWorld untornRun with
    | some w => w.FlagBufferSafe ∧
        (∀ w', Reach World.step World.FlushedFirst (· = w) w' → w.SameValues w') ∧
        (w.peers 0).loc.req.flag = 6 ∧ w.landed 0 = [(2, .get)]
    | none => False := by
  have hrun : (runFrom (guarded flushedFirst World.step) freshWorld untornRun).any (fun w => decide
      ((w.peers 0).loc.req.flag = 6 ∧ w.landed 0 = [(2, .get)])) = true := by
    decide +kernel
  cases h : runFrom (guarded flushedFirst World.step) freshWorld untornRun with
  | none => simp [h] at hrun
  | some w =>
      simp only [h, Option.any_some, decide_eq_true_eq] at hrun
      obtain ⟨hsafe, hvalues⟩ :=
        flagBuffer_safe (.of_guarded flushedFirst_sound _ (.init freshWorld_init) h)
      exact ⟨hsafe, hvalues, hrun⟩

/-- The word is written while the announcement is under way, and what lands is the notice: the
sender is told that the operation is over before the get has landed. -/
theorem tornRun_writes :
    match runFrom World.step freshWorld tornRun,
      runFrom World.step freshWorld toldRun with
    | some w, some w' => Reach World.step anyStep World.Init w ∧ ¬ w.FlagBufferSafe ∧
        w.proc.fills = some 0 ∧ (w.proc.reqs 0).flagBuffer = 5 ∧
        (w'.peers 0).loc.req.flag = 6 ∧ w'.landed 0 = []
    | _, _ => False := by
  have hrun : (runFrom World.step freshWorld tornRun).any (fun w => decide
      (w.proc.fills = some 0 ∧ (w.proc.reqs 0).flagBuffer = 5 ∧
        ∃ x ∈ w.proc.worker.pending, x.op.1 = 0 ∧ x.op.2.isFlag = true)) = true := by
    decide +kernel
  have hland : (runFrom World.step freshWorld toldRun).any (fun w => decide
       ((w.peers 0).loc.req.flag = 6 ∧ w.landed 0 = [])) = true := by
    decide +kernel
  cases h : runFrom World.step freshWorld tornRun with
  | none => simp [h] at hrun
  | some w =>
      cases h' : runFrom World.step freshWorld toldRun with
      | none => simp [h'] at hland
      | some w' =>
          simp only [h, h', Option.any_some, decide_eq_true_eq] at hrun hland
          obtain ⟨hfill, hbuf, x, hx, hr, hflag⟩ := hrun
          refine ⟨.of_runFrom _ (.init freshWorld_init) h, fun hsafe => ?_, hfill, hbuf, hland⟩
          have hno := (hsafe.unwritten 0 hfill).landed x hx hr
          rw [hflag] at hno
          simp at hno

end CompMatch.Rendezvous

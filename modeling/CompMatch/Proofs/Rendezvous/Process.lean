/-
What one step of a process can do to one of its receive requests.

`ProcStep` is the list of possibilities, and `run_cases` that there are no others:
most steps leave the request alone, whatever they do to the stack and to other
requests; a step may run `b_recv`, `e_recv` or `progress_recv_request` for it; it may
bring the handshake message; and it may decide how the request is to go on.

`Shape` is what is needed about the stack for that.  A function works on a request of
the type it was called for; other requests are progressed only where the functions of
the interface call for it; and `progress_recv_request` calls nothing, so it can only
be on top.
-/
import CompMatch.Proofs.Rendezvous.Stages
import CompMatch.Proofs.Rendezvous.Shared
import CompMatch.Rendezvous.Process

namespace CompMatch.Rendezvous

/-! ### A request's view of the process -/

/-- The operation, if request `r` posted it. -/
def operationOf (r : Rid) (x : Rid × RdmaOp) : Option RdmaOp := if x.1 = r then some x.2 else none

theorem sees (p : Proc) (r : Rid) : Sees (operationOf r) (Prod.mk r) (p.toEp r) where
  own op := if_pos rfl
  ep := by
    rintro ⟨q, op⟩ op' h
    simp only [operationOf] at h
    split at h
    · rename_i hq
      subst hq
      simp [Proc.toEp]
    · simp at h

theorem operationOf_other {r q : Rid} (h : q ≠ r) (op : RdmaOp) : operationOf r (q, op) = none :=
  if_neg h

namespace Proc

/-- What request `r` sees of the process. -/
def view (p : Proc) (r : Rid) : Local RdmaOp := (p.loc r).view (operationOf r)

/-- Where the process is with receive request `r`, once it is connected. -/
def recvPc (p : Proc) (r : Rid) : RecvPc :=
  if p.active r then
    match p.call with
    | .bRecv q pt => if q = r then .start pt else .started
    | .eRecv q w => if q = r then .wait w else .started
    | .waitRecv q _ => if q = r then .idle else .started
    | _ => .started
  else .idle

/-- Where the process is in `progress_recv_request(r)`, if it is there. -/
def prog (p : Proc) (r : Rid) : Option Point :=
  match p.nested with
  | .progressRecv q pt :: _ => if q = r then some pt else none
  | _ => none

/-- Outside the branch of `progress_recv_request` that fetches. -/
def Calm (prog : Option Point) : Prop := prog = none ∨ prog = some .test ∨ prog = some .progress

end Proc

/-- The points of `wait_recv_when_searching_for_connection` before the type is chosen. -/
def WaitRecvSearch.undecided : WaitRecvSearch → Bool
  | .test | .tested _ => false
  | _ => true

/-- The points at which a function calls others to make progress. -/
def Call.pauses : Call → Bool
  | .eSend _ .poll | .eRecv _ .poll => true
  | .startSend _ _ | .startRecv _ _ | .waitSend _ _ | .waitRecv _ _ => true
  | _ => false

/-- The receive request a function works on. -/
def Call.recvOf : Call → Option Rid
  | .bRecv r _ | .eRecv r _ | .waitRecv r _ => some r
  | _ => Option.none

def Frame.isProgressRecv : Frame → Bool
  | .progressRecv _ _ => true
  | _ => false

namespace Proc

/-- A function works on a started request of the type it was called for. -/
def Typed (p : Proc) : Prop :=
  match p.call with
  | .none => True
  | .bSend r _ | .eSend r _ => p.active r = true ∧ (p.reqs r).type = .send
  | .bRecv r _ | .eRecv r _ => p.active r = true ∧ (p.reqs r).type = .recv
  | .startSend r _ => p.active r = true ∧ (p.reqs r).type = .sendSearch
  | .startRecv r _ => p.active r = true ∧ (p.reqs r).type = .recvSearch
  | .waitSend r _ => p.active r = true ∧ ((p.reqs r).type = .sendSearch ∨ (p.reqs r).type = .send)
  | .waitRecv r pt =>
      p.active r = true ∧
        if pt.undecided then (p.reqs r).type = .recvSearch
        else (p.reqs r).type = .recv ∨ (p.reqs r).type = .recvFallback
  | .mpiWait r =>
      p.active r = true ∧ ((p.reqs r).type = .sendFallback ∨ (p.reqs r).type = .recvFallback)

structure Shape (p : Proc) : Prop where
  barrier : p.worker.barrier ≤ p.worker.clock
  typed : p.Typed
  pauses : p.nested ≠ [] → p.call.pauses = true
  /-- `progress_recv_request` is only on top of the stack. -/
  tail : ∀ f ∈ p.nested.tail, f.isProgressRecv = false
  /-- It is called for connected requests only. -/
  fetching : ∀ r pt, .progressRecv r pt ∈ p.nested → (p.reqs r).type = .recv

/-! ### The possibilities -/

/-- Nothing about request `r` has changed that matters for moving data. -/
structure Unmoved (p p' : Proc) (r : Rid) : Prop where
  alike : Alike (p.reqs r) (p'.reqs r)
  type : (p'.reqs r).type = (p.reqs r).type
  pending : (p'.view r).worker.pending = (p.view r).worker.pending
  clock : p.worker.clock ≤ p'.worker.clock
  barrier : p.worker.barrier ≤ p'.worker.barrier
  pc : p'.recvPc r = p.recvPc r
  prog : p'.prog r = p.prog r ∨ (Calm (p.prog r) ∧ Calm (p'.prog r))
  active : p'.active r = p.active r ∨ (p.reqs r).type ≠ .recvSearch

/-- What a step of the process does to receive request `r`. -/
inductive ProcStep (ans : Answer) (p p' : Proc) (r : Rid) : Prop
  | unmoved (h : Unmoved p p' r)
  /-- A step of `b_recv` or `e_recv`. -/
  | runs (imm : Bool) (hprog : p.prog r = none) (hprog' : p'.prog r = none)
      (htype : (p'.reqs r).type = (p.reqs r).type) (hrecv : (p.reqs r).type = .recv)
      (hrun : recvRun imm (p.recvPc r) (p.view r) = some (p'.recvPc r, p'.view r))
  /-- A step of `progress_recv_request`. -/
  | fetches (imm : Bool) (pt : Point) (o : Outcome Point) (hprog : p.prog r = some pt)
      (hprog' : p'.prog r = match o with | .goto pt' => some pt' | _ => none)
      (htype : (p'.reqs r).type = (p.reqs r).type) (hpc : p'.recvPc r = p.recvPc r)
      (hactive : p'.active r = p.active r)
      (hstep : progressRecvRequest id oneEp imm pt (p.view r) = (o, p'.view r))
      (hflush : pt = .flush →
        (p'.reqs r).ucxRequestDataTransfer = ucpEpFlushNb (p.toEp r) ans.imm p.worker)
  /-- The handshake message is read. -/
  | informed (hreq : p'.reqs r = { p.reqs r with
        remoteDataAddr := (p.counterpart r).dataAddr
        remoteFlagAddr := (p.counterpart r).flagAddr
        remoteDataRkey := (p.counterpart r).dataRkey
        remoteFlagRkey := (p.counterpart r).flagRkey })
      (hworker : p'.worker = p.worker) (hpc : p'.recvPc r = p.recvPc r)
      (hprog : p.prog r = none) (hprog' : p'.prog r = none) (hactive : p'.active r = p.active r)
  /-- The first Wait chooses the type. -/
  | decides (hsearch : (p.reqs r).type = .recvSearch) (hactive : p.active r = true)
      (hreq : p'.reqs r = { p.reqs r with
        type := if (p.reqs r).remoteDataAddr = 0 then .recvFallback else .recv })
      (hworker : p'.worker = p.worker) (hpc : p'.recvPc r = .idle) (hprog' : p'.prog r = none)

/-! ### Steps that progress requests -/

section
variable {p p' : Proc} {r : Rid}

theorem recvPc_congr (hc : p'.call = p.call) (ha : p'.active = p.active) :
    p'.recvPc r = p.recvPc r := by
  simp only [recvPc, hc, ha]

/-- Only the stack and fields of no interest change. -/
theorem Unmoved.of_alike (hreq : Alike (p.reqs r) (p'.reqs r))
    (htype : (p'.reqs r).type = (p.reqs r).type) (hw : p'.worker = p.worker)
    (hc : p'.call = p.call) (ha : p'.active = p.active) (hp : Calm (p.prog r))
    (hp' : Calm (p'.prog r)) : Unmoved p p' r where
  alike := hreq
  type := htype
  pending := by simp only [view, Local.view, loc, hw]
  clock := hw ▸ Nat.le_refl _
  barrier := hw ▸ Nat.le_refl _
  pc := recvPc_congr hc ha
  prog := Or.inr ⟨hp, hp'⟩
  active := Or.inl (by rw [ha])

theorem calm_none : Calm none := Or.inl rfl

theorem prog_push {f : Frame} (h : f.isProgressRecv = false) : (p.push f).prog r = none := by
  cases f <;> simp [push, prog, Frame.isProgressRecv] at h ⊢

theorem calm_push {f : Frame} (h : f.isProgressRecv = false) : Calm ((p.push f).prog r) := by
  rw [prog_push h]
  exact calm_none

/-- Below the topmost function there is no `progress_recv_request`. -/
theorem prog_below {fs : List Frame} (h : ∀ f ∈ fs, f.isProgressRecv = false)
    (hn : p.nested = fs) : p.prog r = none := by
  unfold prog
  rw [hn]
  cases fs with
  | nil => rfl
  | cons f rest =>
      have hf := h f (by simp)
      cases f <;> simp [Frame.isProgressRecv] at hf ⊢

theorem prog_top {f : Frame} {fs : List Frame} (h : f.isProgressRecv = false)
    (hn : p.nested = f :: fs) : p.prog r = none := by
  unfold prog
  rw [hn]
  cases f <;> simp [Frame.isProgressRecv] at h ⊢

/-- A change to fields nothing here reads. -/
theorem setReq_alike {f : MpioptRequest → MpioptRequest} (q : Rid)
    (h : Alike (p.reqs q) (f (p.reqs q)) ∧ (f (p.reqs q)).type = (p.reqs q).type) :
    Alike (p.reqs r) ((p.setReq q f).reqs r) ∧ ((p.setReq q f).reqs r).type = (p.reqs r).type := by
  by_cases hq : r = q
  · subst hq
    simpa only [setReq, Function.update_self] using h
  · simp only [setReq, Function.update_of_ne hq]
    exact ⟨.refl _, trivial⟩

theorem postBackup_alike (q : Rid) :
    Alike (p.reqs r) ((p.postBackup q).reqs r) ∧ ((p.postBackup q).reqs r).type = (p.reqs r).type := by
  exact setReq_alike (f := fun x => { x with backupRequest := some p.nextHandle }) q
    ⟨⟨⟨rfl, rfl, rfl, rfl, rfl, rfl⟩, rfl, rfl, rfl, rfl⟩, rfl⟩

theorem testBackup_alike (ans : Answer) (q : Rid) :
    Alike (p.reqs r) ((p.testBackup ans q).reqs r) ∧
      ((p.testBackup ans q).reqs r).type = (p.reqs r).type := by
  unfold testBackup
  split
  · exact setReq_alike q ⟨⟨⟨rfl, rfl, rfl, rfl, rfl, rfl⟩, rfl, rfl, rfl, rfl⟩, rfl⟩
  · exact ⟨.refl _, rfl⟩

theorem testExchange_alike (ans : Answer) (q : Rid) :
    Alike (p.reqs r) ((p.testExchange ans q).reqs r) ∧
      ((p.testExchange ans q).reqs r).type = (p.reqs r).type := by
  unfold testExchange
  split
  · exact setReq_alike q ⟨⟨⟨rfl, rfl, rfl, rfl, rfl, rfl⟩, rfl, rfl, rfl, rfl⟩, rfl⟩
  · exact ⟨.refl _, rfl⟩

theorem testBackup_frame (ans : Answer) (q : Rid) :
    (p.testBackup ans q).worker = p.worker ∧ (p.testBackup ans q).call = p.call ∧
      (p.testBackup ans q).active = p.active ∧ (p.testBackup ans q).nested = p.nested := by
  unfold testBackup
  split <;> exact ⟨rfl, rfl, rfl, rfl⟩

theorem testExchange_frame (ans : Answer) (q : Rid) :
    (p.testExchange ans q).worker = p.worker ∧ (p.testExchange ans q).call = p.call ∧
      (p.testExchange ans q).active = p.active ∧ (p.testExchange ans q).nested = p.nested := by
  unfold testExchange
  split <;> exact ⟨rfl, rfl, rfl, rfl⟩

/-- `progress_request`, called with nothing of `progress_recv_request` on the stack. -/
theorem progressRequest_cases (ans : Answer) (q : Rid) (hp : Calm (p.prog r)) :
    Calm ((p.progressRequest ans q).1.prog r) ∧ Unmoved p (p.progressRequest ans q).1 r := by
  unfold progressRequest
  split
  · exact ⟨hp, .of_alike (.refl _) rfl rfl rfl rfl hp hp⟩
  · have hc : Calm ((p.push (.progressRecv q .test)).prog r) := by
      show Calm (if q = r then some .test else none)
      split
      · exact Or.inr (Or.inl rfl)
      · exact calm_none
    exact ⟨hc, .of_alike (.refl _) rfl rfl rfl rfl hp hc⟩
  · have hc : Calm ((p.push (.progressWaiting q .probe)).prog r) := calm_push rfl
    exact ⟨hc, .of_alike (.refl _) rfl rfl rfl rfl hp hc⟩
  · have hc : Calm ((p.push (.progressWaiting q .probe)).prog r) := calm_push rfl
    exact ⟨hc, .of_alike (.refl _) rfl rfl rfl rfl hp hc⟩
  all_goals
    have ha := testBackup_alike (p := p) (r := r) ans q
    have hf := testBackup_frame (p := p) ans q
    have hc : Calm ((p.testBackup ans q).prog r) := by
      simp only [prog, hf.2.2.2]
      exact hp
    exact ⟨hc, .of_alike ha.1 ha.2 hf.1 hf.2.1 hf.2.2.1 hp hc⟩

/-! ### Steps that move data -/

theorem setLoc_view (q : Rid) (l : Local (Rid × RdmaOp)) :
    (p.setLoc q l).view q = l.view (operationOf q) := by
  simp only [view, loc, setLoc, Function.update_self]

/-- A request does not notice what is posted for another one. -/
theorem Unmoved.of_moves {q : Rid} {l : Local (Rid × RdmaOp)} (hq : q ≠ r) (hS : Shape p)
    (hm : Worker.Moves (Prod.mk q) p.worker l.worker) (hreqs : p'.reqs = (p.setLoc q l).reqs)
    (hw : p'.worker = l.worker) (hpc : p'.recvPc r = p.recvPc r) (ha : p'.active r = p.active r)
    (hp : Calm (p.prog r)) (hp' : Calm (p'.prog r)) : Unmoved p p' r := by
  have hreq : p'.reqs r = p.reqs r := by
    rw [hreqs]
    simp only [setLoc, Function.update_of_ne hq.symm]
  have hv := hm.view (operationOf_other hq) hS.barrier
  exact ⟨hreq ▸ .refl _, by rw [hreq], by simp only [view, Local.view, loc, hw]; exact hv.1,
    hw ▸ hv.2.1, hw ▸ hv.2.2, hpc, Or.inr ⟨hp, hp'⟩, Or.inl ha⟩

/-- A step of `progress_recv_request`. -/
theorem progressRecv_cases {ans : Answer} {q : Rid} {pt : Point} {fs : List Frame} (hS : Shape p)
    (hn : p.nested = .progressRecv q pt :: fs) (htail : ∀ g ∈ fs, g.isProgressRecv = false) :
    ProcStep ans p ((p.setNested fs).runFrame ans (.progressRecv q pt)).1 r := by
  have hbelow : (p.setNested fs).prog r = none := prog_below htail rfl
  have hm : Worker.Moves (Prod.mk q) p.worker
      (progressRecvRequest (Prod.mk q) (p.toEp q) ans.imm pt (p.loc q)).2.worker :=
    moves_progressRecvRequest pt
  show ProcStep ans p ((p.setNested fs).resumeProgress q
    (progressRecvRequest (Prod.mk q) (p.toEp q) ans.imm pt (p.loc q))) r
  rcases hstep : progressRecvRequest (Prod.mk q) (p.toEp q) ans.imm pt (p.loc q) with ⟨o, l⟩
  rw [hstep] at hm
  by_cases hq : q = r
  · subst hq
    obtain ⟨imm', hv⟩ := view_progressRecvRequest (l := p.loc q) (sees p q) ans.imm pt
    rw [hstep] at hv
    have hflush : pt = .flush → l.req.ucxRequestDataTransfer =
        ucpEpFlushNb (p.toEp q) ans.imm p.worker := by
      rintro rfl
      cases hstep
      rfl
    have hpt : p.prog q = some pt := by simp [prog, hn]
    have htype : l.req.type = (p.reqs q).type := by
      have ht : (progressRecvRequest (Prod.mk q) (p.toEp q) ans.imm pt (p.loc q)).2.req.type =
          (p.reqs q).type := type_progressRecvRequest pt
      rw [hstep] at ht
      exact ht
    have hview : l.view (operationOf q) = ((p.setNested fs).setLoc q l).view q :=
      (setLoc_view q l).symm
    rw [hview] at hv
    cases o with
    | goto pt' =>
        exact .fetches imm' pt (.goto pt') hpt (by simp [prog, push, resumeProgress])
          (by simpa [push, setLoc, resumeProgress] using htype) (recvPc_congr rfl rfl) rfl hv
          (by simpa [push, setLoc, resumeProgress] using hflush)
    | progressOther pt' =>
        exact .fetches imm' pt (.progressOther pt') hpt hbelow
          (by simpa [setLoc, resumeProgress] using htype) (recvPc_congr rfl rfl) rfl hv
          (by simpa [setLoc, resumeProgress] using hflush)
    | ret =>
        exact .fetches imm' pt .ret hpt hbelow (by simpa [setLoc, resumeProgress] using htype)
          (recvPc_congr rfl rfl) rfl hv (by simpa [setLoc, resumeProgress] using hflush)
  · have hp : Calm (p.prog r) := by
      simp [prog, hn, hq, calm_none]
    cases o with
    | goto pt' =>
        exact .unmoved (.of_moves hq hS hm rfl rfl (recvPc_congr rfl rfl) rfl hp
          (by simp [push, prog, hq, calm_none, resumeProgress]))
    | _ =>
        exact .unmoved (.of_moves hq hS hm rfl rfl (recvPc_congr rfl rfl) rfl hp
          (hbelow ▸ calm_none))

/-- **One step of the topmost function on the stack.** -/
theorem runFrame_cases {ans : Answer} {f : Frame} {fs : List Frame} (hS : Shape p)
    (hn : p.nested = f :: fs) : ProcStep ans p ((p.setNested fs).runFrame ans f).1 r := by
  have htail : ∀ g ∈ fs, g.isProgressRecv = false := by
    have h := hS.tail
    rwa [hn] at h
  have hbelow : (p.setNested fs).prog r = none := prog_below htail rfl
  cases f with
  | progressOther current rest =>
      have hp : p.prog r = none := prog_top rfl hn
      have hp0 : Calm (p.prog r) := hp ▸ calm_none
      cases rest with
      | nil =>
          exact .unmoved (.of_alike (.refl _) rfl rfl rfl rfl hp0 (hbelow ▸ calm_none))
      | cons q rest =>
          simp only [runFrame]
          split
          · exact .unmoved (.of_alike (.refl _) rfl rfl rfl rfl hp0
              (calm_push rfl))
          · have hc : Calm (((p.setNested fs).push (.progressOther current rest)).prog r) :=
              calm_push rfl
            obtain ⟨hc', h⟩ := progressRequest_cases ans q hc
            exact .unmoved ⟨h.alike, h.type, h.pending, h.clock, h.barrier, h.pc, Or.inr ⟨hp0, hc'⟩,
              h.active⟩
  | progressWaiting q pt =>
      have hp : p.prog r = none := prog_top rfl hn
      have hp0 : Calm (p.prog r) := hp ▸ calm_none
      cases pt with
      | probe =>
          simp only [runFrame]
          split
          · split
            · exact .unmoved (.of_alike (.refl _) rfl rfl rfl rfl hp0
                (calm_push rfl))
            · exact .unmoved (.of_alike (.refl _) rfl rfl rfl rfl hp0 calm_none)
          · exact .unmoved (.of_alike (.refl _) rfl rfl rfl rfl hp0 calm_none)
      | post =>
          simp only [runFrame]
          split
          · have ha := postBackup_alike (p := p.setNested fs) (r := r) q
            exact .unmoved (.of_alike ha.1 ha.2 rfl rfl rfl hp0 (hbelow ▸ calm_none))
          · exact .unmoved (.of_alike (.refl _) rfl rfl rfl rfl hp0 (hbelow ▸ calm_none))
  | receiveInfo q pt =>
      have hp : p.prog r = none := prog_top rfl hn
      have hp0 : Calm (p.prog r) := hp ▸ calm_none
      cases pt with
      | recv =>
          by_cases h : r = q
          · subst h
            exact .informed (by simp only [runFrame, push, setReq, Function.update_self]; rfl) rfl
              (recvPc_congr rfl rfl) hp (prog_push rfl) rfl
          · have hreq : (((p.setNested fs).runFrame ans (.receiveInfo q .recv)).1).reqs r = p.reqs r := by
              simp only [runFrame, push, setReq, Function.update_of_ne h]
              rfl
            exact .unmoved (.of_alike (hreq ▸ .refl _) (by rw [hreq]) rfl rfl rfl hp0
              (by simp only [runFrame]; exact calm_push rfl))
      | test =>
          have ha := testExchange_alike (p := p.setNested fs) (r := r) ans q
          have hf := testExchange_frame (p := p.setNested fs) ans q
          simp only [runFrame]
          split
          · refine .unmoved (.of_alike ha.1 ha.2 hf.1 hf.2.1 hf.2.2.1 hp0 ?_)
            rw [prog_below htail hf.2.2.2]
            exact calm_none
          · exact .unmoved (.of_alike ha.1 ha.2 hf.1 hf.2.1 hf.2.2.1 hp0
              (by unfold progressOther; exact calm_push rfl))
  | progressRecv q pt => exact progressRecv_cases hS hn htail

/-! ### Steps of the function the user called -/

/-- The request moves data over RDMA, or may come to do so. -/
def Tracked (p : Proc) (r : Rid) : Prop :=
  (p.reqs r).type = .recv ∨ (p.reqs r).type = .recvSearch

/-- Fields of no interest and the control change. -/
theorem Unmoved.of_control (hreq : Alike (p.reqs r) (p'.reqs r) ∧ (p'.reqs r).type = (p.reqs r).type)
    (hw : p'.worker = p.worker) (hpc : p'.recvPc r = p.recvPc r)
    (ha : p'.active r = p.active r ∨ (p.reqs r).type ≠ .recvSearch) (hp : Calm (p.prog r))
    (hp' : Calm (p'.prog r)) : Unmoved p p' r where
  alike := hreq.1
  type := hreq.2
  pending := by simp only [view, Local.view, loc, hw]
  clock := hw ▸ Nat.le_refl _
  barrier := hw ▸ Nat.le_refl _
  pc := hpc
  prog := Or.inr ⟨hp, hp'⟩
  active := ha

theorem alike_refl : Alike (p.reqs r) (p.reqs r) ∧ (p.reqs r).type = (p.reqs r).type :=
  ⟨.refl _, rfl⟩

/-- While no function works on `r`, where it is depends only on whether it is started. -/
theorem recvPc_other (h : p.call.recvOf ≠ some r) (h' : p'.call.recvOf ≠ some r)
    (ha : p'.active r = p.active r) : p'.recvPc r = p.recvPc r := by
  have hpc : ∀ {q : Proc}, q.call.recvOf ≠ some r →
      q.recvPc r = if q.active r = true then .started else .idle := by
    intro q hq
    unfold recvPc
    split
    · split <;> rename_i hc <;> simp_all [Call.recvOf]
    · rfl
  rw [hpc h, hpc h', ha]

/-- No function works on `r`, and none begins to. -/
theorem Unmoved.of_other (hreq : Alike (p.reqs r) (p'.reqs r) ∧ (p'.reqs r).type = (p.reqs r).type)
    (hw : p'.worker = p.worker) (h : p.call.recvOf ≠ some r) (h' : p'.call.recvOf ≠ some r)
    (ha : p'.active r = p.active r) (hp : Calm (p.prog r)) (hp' : Calm (p'.prog r)) :
    Unmoved p p' r :=
  .of_control hreq hw (recvPc_other h h' ha) (Or.inl ha) hp hp'

/-- A step of `b_send` or `e_send`, or of `b_recv` or `e_recv` for another request. -/
theorem resume_other {P : Type} {q : Rid} {next : P → Call} {done : Proc → Proc}
    {x : Outcome P × Local (Rid × RdmaOp)} (hq : q ≠ r) (hS : Shape p) (hn : p.nested = [])
    (hm : Worker.Moves (Prod.mk q) p.worker x.2.worker)
    (hcall : p.call.recvOf ≠ some r) (hnext : ∀ pt, (next pt).recvOf ≠ some r)
    (hdone : done = ret ∨ done = (·.finish q)) : Unmoved p (p.resume q next done x) r := by
  obtain ⟨o, l⟩ := x
  have hp : Calm (p.prog r) := by simp [prog, hn, calm_none]
  have hcalm : ∀ {p' : Proc}, p'.nested = [] → Calm (p'.prog r) := by
    intro p' h
    simp [prog, h, calm_none]
  cases o with
  | goto pt =>
      exact .of_moves hq hS hm rfl rfl (recvPc_other hcall (hnext pt) rfl) rfl hp (hcalm hn)
  | progressOther pt =>
      exact .of_moves hq hS hm rfl rfl (recvPc_other hcall (hnext pt) rfl) rfl hp
        (by unfold resume progressOther; exact calm_push rfl)
  | ret =>
      have hnone : Call.none.recvOf ≠ some r := by simp [Call.recvOf]
      rcases hdone with rfl | rfl
      · exact .of_moves hq hS hm rfl rfl (recvPc_other hcall hnone rfl) rfl hp (hcalm hn)
      · have hact : Function.update p.active q false r = p.active r :=
          Function.update_of_ne hq.symm ..
        exact .of_moves hq hS hm rfl rfl (recvPc_other hcall hnone hact) hact hp (hcalm hn)

theorem bRecv_ne_progressOther {Op : Type*} (tag : RdmaOp → Op) (toEp : Op → Bool) (imm : Bool)
    (pt pt' : Point) (l : Local Op) : (bRecv tag toEp imm pt l).1 ≠ .progressOther pt' := by
  cases pt with
  | test =>
      simp only [bRecv]
      split <;> simp
  | _ => simp [bRecv, fetchStep]

/-- A step of `b_recv` for the request itself. -/
theorem bRecv_own {ans : Answer} {pt : Point} (hS : Shape p) (hn : p.nested = [])
    (hcall : p.call = .bRecv r pt) :
    ProcStep ans p
      (p.resume r (.bRecv r) ret (bRecv (Prod.mk r) (p.toEp r) ans.imm pt (p.loc r))) r := by
  have hprog : p.prog r = none := by simp [prog, hn]
  have htyped := hS.typed
  simp only [Typed, hcall] at htyped
  obtain ⟨hact, htype⟩ := htyped
  have hpc : p.recvPc r = .start pt := by simp [recvPc, hact, hcall]
  obtain ⟨imm', hv⟩ := view_bRecv (l := p.loc r) (sees p r) ans.imm pt
  have ht : (bRecv (Prod.mk r) (p.toEp r) ans.imm pt (p.loc r)).2.req.type = (p.reqs r).type :=
    type_bRecv pt
  rcases hstep : bRecv (Prod.mk r) (p.toEp r) ans.imm pt (p.loc r) with ⟨o, l⟩
  rw [hstep] at hv ht
  have hview : l.view (operationOf r) = (p.setLoc r l).view r := (setLoc_view r l).symm
  rw [hview] at hv
  have hv' : bRecv id oneEp imm' pt (p.view r) = (o, (p.setLoc r l).view r) := hv
  have ht' : ((p.setLoc r l).reqs r).type = (p.reqs r).type := by simpa [setLoc] using ht
  cases o with
  | goto pt' =>
      refine .runs imm' hprog (by simp [resume, setCall, prog, setLoc, hn]) ht' htype ?_
      have hpc' : (p.resume r (.bRecv r) ret (.goto pt', l)).recvPc r = .start pt' := by
        simp [resume, setCall, setLoc, recvPc, hact]
      rw [hpc, hpc']
      simp only [recvRun, hv']
      rfl
  | progressOther pt' =>
      exact absurd (by rw [hstep]) (bRecv_ne_progressOther (Prod.mk r) (p.toEp r) ans.imm pt pt' _)
  | ret =>
      refine .runs imm' hprog (by simp [resume, ret, prog, setLoc, hn]) ht' htype ?_
      have hpc' : (p.resume r (.bRecv r) ret (.ret, l)).recvPc r = .started := by
        simp [resume, ret, setLoc, recvPc, hact]
      rw [hpc, hpc']
      simp only [recvRun, hv']
      rfl

/-- A step of `e_recv` for the request itself. -/
theorem eRecv_own {ans : Answer} {w : RecvWait} (hS : Shape p) (hn : p.nested = [])
    (hcall : p.call = .eRecv r w) :
    ProcStep ans p (p.resume r (.eRecv r) (·.finish r)
      (eRecv (Prod.mk r) (p.toEp r) ans.imm w (p.loc r))) r := by
  have hprog : p.prog r = none := by simp [prog, hn]
  have htyped := hS.typed
  simp only [Typed, hcall] at htyped
  obtain ⟨hact, htype⟩ := htyped
  have hpc : p.recvPc r = .wait w := by simp [recvPc, hact, hcall]
  have ht : (eRecv (Prod.mk r) (p.toEp r) ans.imm w (p.loc r)).2.req.type = (p.reqs r).type :=
    type_eRecv w
  rcases view_eRecv (l := p.loc r) (sees p r) ans.imm w with ⟨imm', hv⟩ | hstutter
  · rcases hstep : eRecv (Prod.mk r) (p.toEp r) ans.imm w (p.loc r) with ⟨o, l⟩
    rw [hstep] at hv ht
    have hview : l.view (operationOf r) = (p.setLoc r l).view r := (setLoc_view r l).symm
    rw [hview] at hv
    have hv' : eRecv id oneEp imm' w (p.view r) = (o, (p.setLoc r l).view r) := hv
    have ht' : ((p.setLoc r l).reqs r).type = (p.reqs r).type := by simpa [setLoc] using ht
    cases o with
    | goto w' =>
        refine .runs imm' hprog (by simp [resume, setCall, prog, setLoc, hn]) ht' htype ?_
        have hpc' : (p.resume r (.eRecv r) (·.finish r) (.goto w', l)).recvPc r = .wait w' := by
          simp [resume, setCall, setLoc, recvPc, hact]
        rw [hpc, hpc']
        simp only [recvRun, hv']
        rfl
    | progressOther w' =>
        refine .runs imm' hprog (by simp [resume, progressOther, push, prog]) ht' htype ?_
        have hpc' : (p.resume r (.eRecv r) (·.finish r) (.progressOther w', l)).recvPc r =
            .wait w' := by
          simp [resume, progressOther, push, setCall, setLoc, recvPc, hact]
        rw [hpc, hpc']
        simp only [recvRun, hv']
        rfl
    | ret =>
        refine .runs imm' hprog (by simp [resume, finish, prog, setLoc, hn]) ht' htype ?_
        have hpc' : (p.resume r (.eRecv r) (·.finish r) (.ret, l)).recvPc r = .idle := by
          simp [resume, finish, setLoc, recvPc]
        rw [hpc, hpc']
        simp only [recvRun, hv']
        rfl
  · rw [hstutter]
    have hsame : p.setLoc r (p.loc r) = p := by
      simp [setLoc, loc]
    refine .unmoved (.of_control ?_ ?_ ?_ (Or.inl ?_) (hprog ▸ calm_none) ?_)
    all_goals simp only [resume, hsame]
    · exact alike_refl
    · rfl
    · simp [setCall, recvPc, hact, hcall]
    · rfl
    · exact (by simp [setCall, prog, hn] : (p.setCall (.eRecv r w)).prog r = none) ▸ calm_none

/-- A process that is inside no other function does nothing for the request there. -/
theorem calm_of_nil (hn : p.nested = []) : Calm (p.prog r) := by
  simp [prog, hn, calm_none]

/-- In `wait_recv_when_searching_for_connection` for the request itself. -/
theorem waitRecv_own {ans : Answer} {pt : WaitRecvSearch} {c : Option MpiCall} (hS : Shape p)
    (hn : p.nested = []) (hcall : p.call = .waitRecv r pt)
    (hrun : p.runCall ans (.waitRecv r pt) = some (p', c)) : ProcStep ans p p' r := by
  have hprog : p.prog r = none := by simp [prog, hn]
  have hp : Calm (p.prog r) := hprog ▸ calm_none
  have htyped := hS.typed
  simp only [Typed, hcall] at htyped
  obtain ⟨hact, htype⟩ := htyped
  have hpc : p.recvPc r = .idle := by simp [recvPc, hact, hcall]
  have hpc' : ∀ {q : Proc} {pt' : WaitRecvSearch}, q.call = .waitRecv r pt' → q.recvPc r = .idle := by
    intro q pt' hq
    simp [recvPc, hq]
  cases pt with
  | probe flag =>
      simp only [runCall] at hrun
      split at hrun <;> cases hrun
      · exact .unmoved (.of_control alike_refl rfl (by rw [hpc]; exact hpc' rfl) (Or.inl rfl) hp
          (by unfold progressOther; exact calm_push rfl))
      · exact .unmoved (.of_control alike_refl rfl (by rw [hpc]; exact hpc' rfl) (Or.inl rfl) hp
          (calm_of_nil hn))
  | progress flag =>
      cases hrun
      exact .unmoved (.of_control alike_refl rfl (by rw [hpc]; exact hpc' rfl) (Or.inl rfl) hp
        (calm_push rfl))
  | post =>
      simp only [runCall] at hrun
      split at hrun <;> cases hrun
      · exact .unmoved (.of_control (postBackup_alike (p := p.setCall _) r) rfl
          (by rw [hpc]; exact hpc' rfl) (Or.inl rfl) hp (calm_of_nil hn))
      · exact .unmoved (.of_control alike_refl rfl (by rw [hpc]; exact hpc' rfl) (Or.inl rfl) hp
          (calm_of_nil hn))
  | decide =>
      cases hrun
      exact .decides htype hact (by simp only [setCall, setReq, Function.update_self]) rfl (hpc' rfl)
        (by simp [prog, setCall, setReq, hn])
  | test =>
      cases hrun
      have hf := testBackup_frame (p := p) ans r
      exact .unmoved (.of_control (testBackup_alike ans r) hf.1
        (by rw [hpc]; exact hpc' rfl) (Or.inl (by simp [progressOther, push, setCall, hf.2.2.1])) hp
        (by unfold progressOther; exact calm_push rfl))
  | tested flag =>
      simp only [runCall] at hrun
      split at hrun <;> cases hrun
      · refine .unmoved (.of_control alike_refl rfl ?_ (Or.inr ?_) hp (calm_of_nil hn))
        · rw [hpc]
          simp [recvPc, finish]
        · rcases htype with h | h <;> simp [h]
      · exact .unmoved (.of_control alike_refl rfl (by rw [hpc]; exact hpc' rfl) (Or.inl rfl) hp
          (calm_of_nil hn))

/-- In `wait_recv_when_searching_for_connection` for another request. -/
theorem waitRecv_other {ans : Answer} {q : Rid} {pt : WaitRecvSearch} {c : Option MpiCall}
    (hq : q ≠ r) (hn : p.nested = []) (hcall : p.call = .waitRecv q pt)
    (hrun : p.runCall ans (.waitRecv q pt) = some (p', c)) : ProcStep ans p p' r := by
  have hp : Calm (p.prog r) := by simp [prog, hn, calm_none]
  have hpc : p.call.recvOf ≠ some r := by simpa [hcall, Call.recvOf] using hq
  have hpc' : ∀ pt', (Call.waitRecv q pt').recvOf ≠ some r := by simpa [Call.recvOf] using fun _ => hq
  cases pt with
  | probe flag =>
      simp only [runCall] at hrun
      split at hrun <;> cases hrun
      · exact .unmoved (.of_other alike_refl rfl hpc (hpc' _) rfl hp
          (by unfold progressOther; exact calm_push rfl))
      · exact .unmoved (.of_other alike_refl rfl hpc (hpc' _) rfl hp (calm_of_nil hn))
  | progress flag =>
      cases hrun
      exact .unmoved (.of_other alike_refl rfl hpc (hpc' _) rfl hp (calm_push rfl))
  | post =>
      simp only [runCall] at hrun
      split at hrun <;> cases hrun
      · exact .unmoved (.of_other (postBackup_alike (p := p.setCall _) q) rfl hpc (hpc' _) rfl hp
          (calm_of_nil hn))
      · exact .unmoved (.of_other alike_refl rfl hpc (hpc' _) rfl hp (calm_of_nil hn))
  | decide =>
      cases hrun
      refine .unmoved (.of_other ?_ rfl hpc (hpc' _) rfl hp (calm_of_nil hn))
      simp only [setCall, setReq, Function.update_of_ne (Ne.symm hq)]
      exact ⟨.refl _, trivial⟩
  | test =>
      cases hrun
      have hf := testBackup_frame (p := p) ans q
      exact .unmoved (.of_other (testBackup_alike ans q) hf.1 hpc (hpc' _)
        (by simp [progressOther, push, setCall, hf.2.2.1]) hp
        (by unfold progressOther; exact calm_push rfl))
  | tested flag =>
      simp only [runCall] at hrun
      split at hrun <;> cases hrun
      · exact .unmoved (.of_other alike_refl rfl hpc (by simp [finish, Call.recvOf])
          (Function.update_of_ne (Ne.symm hq) ..) hp (calm_of_nil hn))
      · exact .unmoved (.of_other alike_refl rfl hpc (hpc' _) rfl hp (calm_of_nil hn))

section
variable {ans : Answer} {c : Option MpiCall} {q : Rid}

/-- The first Start of a send request. -/
theorem startSend_other {pt : StartSendSearch} (hn : p.nested = []) (hcall : p.call = .startSend q pt)
    (hrun : p.runCall ans (.startSend q pt) = some (p', c)) : ProcStep ans p p' r := by
  have hp : Calm (p.prog r) := by simp [prog, hn, calm_none]
  have hpc : p.call.recvOf ≠ some r := by simp [hcall, Call.recvOf]
  cases pt with
  | progress =>
      cases hrun
      exact .unmoved (.of_other alike_refl rfl hpc (by simp [push, setCall, assert, Call.recvOf]) rfl hp
        (calm_push rfl))
  | post =>
      cases hrun
      exact .unmoved (.of_other (postBackup_alike q) rfl hpc (by simp [ret, Call.recvOf]) rfl hp
        (calm_of_nil hn))

/-- The first Start of a receive request. -/
theorem startRecv_other {pt : StartRecvSearch} (hn : p.nested = []) (hcall : p.call = .startRecv q pt)
    (hrun : p.runCall ans (.startRecv q pt) = some (p', c)) : ProcStep ans p p' r := by
  have hp : Calm (p.prog r) := by simp [prog, hn, calm_none]
  have hpc : p.call.recvOf ≠ some r := by simp [hcall, Call.recvOf]
  have hpc' : ∀ pt', (Call.startRecv q pt').recvOf ≠ some r := by simp [Call.recvOf]
  have hret : Call.none.recvOf ≠ some r := by simp [Call.recvOf]
  cases pt with
  | progress =>
      cases hrun
      exact .unmoved (.of_other alike_refl rfl hpc (hpc' _) rfl hp (calm_push rfl))
  | probe =>
      simp only [runCall] at hrun
      split at hrun
      · split at hrun <;> cases hrun
        · exact .unmoved (.of_other alike_refl rfl hpc (hpc' _) rfl hp (calm_of_nil hn))
        · exact .unmoved (.of_other alike_refl rfl hpc hret rfl hp (calm_of_nil hn))
      · cases hrun
        exact .unmoved (.of_other alike_refl rfl hpc (hpc' _) rfl hp (calm_of_nil hn))
  | fallback =>
      cases hrun
      exact .unmoved (.of_other (postBackup_alike q) rfl hpc hret rfl hp (calm_of_nil hn))
  | post =>
      simp only [runCall] at hrun
      split at hrun <;> cases hrun
      · exact .unmoved (.of_other (postBackup_alike q) rfl hpc hret rfl hp (calm_of_nil hn))
      · exact .unmoved (.of_other alike_refl rfl hpc hret rfl hp (calm_of_nil hn))

/-- The first Wait of a send request. -/
theorem waitSend_other {pt : WaitSendSearch} (hq : q ≠ r) (hn : p.nested = [])
    (hcall : p.call = .waitSend q pt) (hrun : p.runCall ans (.waitSend q pt) = some (p', c)) :
    ProcStep ans p p' r := by
  have hp : Calm (p.prog r) := by simp [prog, hn, calm_none]
  have hpc : p.call.recvOf ≠ some r := by simp [hcall, Call.recvOf]
  have hpc' : ∀ pt', (Call.waitSend q pt').recvOf ≠ some r := by simp [Call.recvOf]
  have hret : Call.none.recvOf ≠ some r := by simp [Call.recvOf]
  have hset : ∀ {p₁ : Proc} (f : MpioptRequest → MpioptRequest),
      (p₁.setReq q f).reqs r = p₁.reqs r := by
    intro p₁ f
    simp only [setReq, Function.update_of_ne hq.symm]
  cases pt with
  | progress =>
      cases hrun
      exact .unmoved (.of_other alike_refl rfl hpc (hpc' _) rfl hp (calm_push rfl))
  | established =>
      simp only [runCall] at hrun
      split at hrun <;> cases hrun
      · refine .unmoved (.of_other ?_ rfl hpc (hpc' _) rfl hp (calm_of_nil hn))
        rw [hset]
        exact alike_refl
      · exact .unmoved (.of_other alike_refl rfl hpc (hpc' _) rfl hp (calm_of_nil hn))
  | test =>
      cases hrun
      have hf := testBackup_frame (p := p) ans q
      exact .unmoved (.of_other (testBackup_alike ans q) hf.1 hpc (hpc' _)
        (by simp [progressOther, push, setCall, hf.2.2.1]) hp
        (by unfold progressOther; exact calm_push rfl))
  | tested flag =>
      have hact : Function.update p.active q false r = p.active r :=
        Function.update_of_ne hq.symm ..
      simp only [runCall] at hrun
      split at hrun
      · split at hrun <;> cases hrun
        · refine .unmoved (.of_other ?_ rfl hpc hret hact hp (calm_of_nil hn))
          rw [show ((p.setReq q _).finish q).reqs r = _ from hset _]
          exact alike_refl
        · exact .unmoved (.of_other alike_refl rfl hpc hret hact hp (calm_of_nil hn))
      · cases hrun
        exact .unmoved (.of_other alike_refl rfl hpc (hpc' _) rfl hp (calm_of_nil hn))

/-- A function that is only called for requests of another type. -/
theorem ne_of_tracked (hr : Tracked p r) (ht : ¬ Tracked p q) : q ≠ r := fun heq => ht (heq ▸ hr)

/-- **One step of the function the user called.** -/
theorem runCall_cases (hS : Shape p) (hn : p.nested = []) (hr : Tracked p r)
    (hrun : p.runCall ans p.call = some (p', c)) : ProcStep ans p p' r := by
  have htyped := hS.typed
  cases hcall : p.call with
  | none => simp [hcall, runCall] at hrun
  | bSend q pt =>
      simp only [Typed, hcall] at htyped
      have hq : q ≠ r := ne_of_tracked hr (by rintro (h | h) <;> simp [h] at htyped)
      rw [hcall] at hrun
      cases hrun
      exact .unmoved (resume_other hq hS hn (moves_bSend pt) (by simp [hcall, Call.recvOf])
        (by simp [Call.recvOf]) (Or.inl rfl))
  | eSend q w =>
      simp only [Typed, hcall] at htyped
      have hq : q ≠ r := ne_of_tracked hr (by rintro (h | h) <;> simp [h] at htyped)
      rw [hcall] at hrun
      cases hrun
      exact .unmoved (resume_other hq hS hn (Or.inl (moves_eSend w)) (by simp [hcall, Call.recvOf])
        (by simp [Call.recvOf]) (Or.inr rfl))
  | bRecv q pt =>
      rw [hcall] at hrun
      cases hrun
      by_cases hq : q = r
      · subst hq
        exact bRecv_own hS hn hcall
      · exact .unmoved (resume_other hq hS hn (moves_bRecv pt) (by simpa [hcall, Call.recvOf] using hq)
          (fun _ => by simpa [Call.recvOf] using hq) (Or.inl rfl))
  | eRecv q w =>
      rw [hcall] at hrun
      cases hrun
      by_cases hq : q = r
      · subst hq
        exact eRecv_own hS hn hcall
      · exact .unmoved (resume_other hq hS hn (moves_eRecv w) (by simpa [hcall, Call.recvOf] using hq)
          (fun _ => by simpa [Call.recvOf] using hq) (Or.inr rfl))
  | startSend q pt =>
      rw [hcall] at hrun
      exact startSend_other hn hcall hrun
  | startRecv q pt =>
      rw [hcall] at hrun
      exact startRecv_other hn hcall hrun
  | waitSend q pt =>
      simp only [Typed, hcall] at htyped
      have hq : q ≠ r := ne_of_tracked hr (by rintro (h | h) <;> simp [h] at htyped)
      rw [hcall] at hrun
      exact waitSend_other hq hn hcall hrun
  | waitRecv q pt =>
      rw [hcall] at hrun
      by_cases hq : q = r
      · subst hq
        exact waitRecv_own hS hn hcall hrun
      · exact waitRecv_other hq hn hcall hrun
  | mpiWait q =>
      simp only [Typed, hcall] at htyped
      have hq : q ≠ r := ne_of_tracked hr (by rintro (h | h) <;> simp [h] at htyped)
      have hp : Calm (p.prog r) := by simp [prog, hn, calm_none]
      have hpc : p.call.recvOf ≠ some r := by simp [hcall, Call.recvOf]
      have hact : Function.update p.active q false r = p.active r := Function.update_of_ne hq.symm ..
      rw [hcall] at hrun
      simp only [runCall] at hrun
      split at hrun <;> cases hrun
      · have hf := testBackup_frame (p := p) ans q
        exact .unmoved (.of_other (testBackup_alike ans q) hf.1 hpc (by simp [finish, Call.recvOf])
          (by simp only [finish, hf.2.2.1]; exact hact) hp (calm_of_nil (hf.2.2.2.trans hn)))
      · exact .unmoved (.of_other alike_refl rfl hpc hpc rfl hp hp)

end

/-- **One step of the process**, seen by one of its receive requests. -/
theorem run_cases {ans : Answer} {c : Option MpiCall} (hS : Shape p) (hr : Tracked p r)
    (hrun : p.run ans = some (p', c)) : ProcStep ans p p' r := by
  unfold run at hrun
  split at hrun
  · rename_i f below hn
    have hp : p' = ((p.setNested below).runFrame ans f).1 := by
      rw [Option.some.inj hrun]
    rw [hp]
    exact runFrame_cases hS hn
  · rename_i hn
    exact runCall_cases hS hn hr hrun

end

end Proc

end CompMatch.Rendezvous

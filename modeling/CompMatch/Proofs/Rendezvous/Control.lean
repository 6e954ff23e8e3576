/-
What keeps a process in shape.

Whatever a step of the process does, it goes on working on requests that were
initialised and on those for which its functions were called.  A step of the topmost
function on the stack replaces it by a few others (`Frames`); a step of the function
the user called puts at most one on the stack (`Called`).
-/
import CompMatch.Proofs.Rendezvous.Process

namespace CompMatch.Rendezvous

/-! ### Requests and functions -/

/-- The request a function works on. -/
def Call.rid : Call → Option Rid
  | .none => Option.none
  | .bSend r _ | .bRecv r _ | .startSend r _ | .startRecv r _ | .eSend r _ | .eRecv r _
  | .waitSend r _ | .waitRecv r _ | .mpiWait r => some r

/-- The requests a function on the stack works on, or is going to. -/
def Frame.rids : Frame → List Rid
  | .progressOther _ rest => rest
  | .progressWaiting r _ | .receiveInfo r _ | .progressRecv r _ => [r]

namespace Proc

/-- Everything the process works on was initialised. -/
structure Known (p : Proc) : Prop where
  list : ∀ r ∈ p.requestList, r < p.nextRid
  call : ∀ r, p.call.rid = some r → r < p.nextRid
  nested : ∀ f ∈ p.nested, ∀ r ∈ f.rids, r < p.nextRid
  pending : ∀ x ∈ p.worker.pending, x.op.1 < p.nextRid

/-- What no step changes. -/
structure Kept (p p' : Proc) : Prop where
  requestList : p'.requestList = p.requestList
  nextRid : p'.nextRid = p.nextRid
  counterpart : p'.counterpart = p.counterpart

section
variable {p p' : Proc} {r : Rid}

theorem moves_known {q : Rid} {w w' : Worker (Rid × RdmaOp)} {n : Nat} (hq : q < n)
    (hm : Worker.Moves (Prod.mk q) w w') (hw : ∀ x ∈ w.pending, x.op.1 < n) :
    ∀ x ∈ w'.pending, x.op.1 < n := by
  rcases hm with rfl | ⟨op, rfl⟩ | rfl
  · exact hw
  · intro x hx
    simp only [Worker.post, List.mem_append, List.mem_singleton] at hx
    rcases hx with hx | rfl
    · exact hw x hx
    · exact hq
  · exact hw

theorem moves_barrier {q : Rid} {w w' : Worker (Rid × RdmaOp)}
    (hm : Worker.Moves (Prod.mk q) w w') (hb : w.barrier ≤ w.clock) : w'.barrier ≤ w'.clock := by
  rcases hm with rfl | ⟨op, rfl⟩ | rfl
  · exact hb
  · exact Nat.le_succ_of_le hb
  · exact Nat.le_refl _

/-- The functions on top of the stack are replaced by `gs`. -/
structure Frames (p p' : Proc) (fs : List Frame) : Prop where
  call : p'.call = p.call
  active : p'.active = p.active
  type : ∀ r, (p'.reqs r).type = (p.reqs r).type
  kept : Kept p p'
  moves : p'.worker = p.worker ∨ ∃ q < p.nextRid, Worker.Moves (Prod.mk q) p.worker p'.worker
  nested : ∃ gs, p'.nested = gs ++ fs ∧ (∀ g ∈ gs.tail, g.isProgressRecv = false) ∧
    (∀ g ∈ gs, ∀ r ∈ g.rids, r < p.nextRid) ∧
    ∀ r pt, .progressRecv r pt ∈ gs → (p.reqs r).type = .recv

theorem Kept.refl (p : Proc) : Kept p p := ⟨rfl, rfl, rfl⟩

theorem setReq_type {q : Rid} {f : MpioptRequest → MpioptRequest}
    (h : (f (p.reqs q)).type = (p.reqs q).type) (r : Rid) :
    ((p.setReq q f).reqs r).type = (p.reqs r).type := by
  by_cases hr : r = q
  · subst hr
    simpa only [setReq, Function.update_self] using h
  · simp only [setReq, Function.update_of_ne hr]

theorem typed_congr (h : p.Typed) (hc : p'.call = p.call) (ha : p'.active = p.active)
    (ht : ∀ r, (p'.reqs r).type = (p.reqs r).type) : p'.Typed := by
  unfold Typed at h ⊢
  rw [hc]
  split <;> simp_all

theorem Frames.shape {f : Frame} {fs : List Frame} (h : Frames p p' fs) (hS : Shape p)
    (hn : p.nested = f :: fs) : Shape p' := by
  obtain ⟨gs, hgs, hrecv, -, hfetch⟩ := h.nested
  have htail : ∀ g ∈ fs, g.isProgressRecv = false := by
    have h := hS.tail
    rwa [hn] at h
  refine ⟨?_, typed_congr hS.typed h.call h.active h.type, fun _ => ?_, ?_, fun r pt hr => ?_⟩
  · rcases h.moves with hw | ⟨q, -, hm⟩
    · rw [hw]
      exact hS.barrier
    · exact moves_barrier hm hS.barrier
  · rw [h.call]
    exact hS.pauses (by simp [hn])
  · rw [hgs]
    intro g hg
    cases gs with
    | nil => exact htail g (List.mem_of_mem_tail hg)
    | cons g' gs =>
        rw [List.cons_append, List.tail_cons, List.mem_append] at hg
        exact hg.elim (hrecv g) (htail g)
  · rw [h.type]
    rw [hgs, List.mem_append] at hr
    exact hr.elim (hfetch r pt) fun hr => hS.fetching r pt (by rw [hn]; exact List.mem_cons_of_mem _ hr)

theorem Frames.known {f : Frame} {fs : List Frame} (h : Frames p p' fs) (hK : Known p)
    (hn : p.nested = f :: fs) : Known p' := by
  obtain ⟨gs, hgs, -, hrids, -⟩ := h.nested
  have hnext := h.kept.nextRid
  refine ⟨?_, ?_, ?_, ?_⟩
  · rw [h.kept.requestList, hnext]
    exact hK.list
  · rw [h.call, hnext]
    exact hK.call
  · rw [hgs, hnext]
    intro g hg
    rcases List.mem_append.mp hg with hg | hg
    · exact hrids g hg
    · exact hK.nested g (by rw [hn]; exact List.mem_cons_of_mem _ hg)
  · rw [hnext]
    rcases h.moves with hw | ⟨q, hq, hm⟩
    · rw [hw]
      exact hK.pending
    · exact moves_known hq hm hK.pending

/-- The stack and fields of no interest change, and `progress_recv_request` is not called. -/
theorem Frames.of_nested {fs g : List Frame}
    (htype : ∀ r, (p'.reqs r).type = (p.reqs r).type) (hk : Kept p p') (hc : p'.call = p.call)
    (ha : p'.active = p.active) (hw : p'.worker = p.worker) (hn : p'.nested = g ++ fs)
    (hrecv : ∀ f ∈ g, f.isProgressRecv = false) (hrids : ∀ f ∈ g, ∀ r ∈ f.rids, r < p.nextRid) :
    Frames p p' fs :=
  ⟨hc, ha, htype, hk, Or.inl hw, g, hn, fun f hf => hrecv f (List.mem_of_mem_tail hf), hrids,
    fun r pt hr => absurd (hrecv _ hr) (by simp [Frame.isProgressRecv])⟩

theorem testBackup_type (ans : Answer) (q r : Rid) :
    ((p.testBackup ans q).reqs r).type = (p.reqs r).type :=
  (testBackup_alike ans q).2

theorem testBackup_kept (ans : Answer) (q : Rid) : Kept p (p.testBackup ans q) := by
  unfold testBackup
  split <;> exact ⟨rfl, rfl, rfl⟩

theorem testExchange_kept (ans : Answer) (q : Rid) : Kept p (p.testExchange ans q) := by
  unfold testExchange
  split <;> exact ⟨rfl, rfl, rfl⟩

theorem progressRequest_frames {ans : Answer} {q current : Rid} {rest : List Rid} {fs : List Frame}
    (hq : q < p.nextRid) (hrest : ∀ r ∈ rest, r < p.nextRid) :
    Frames p (((p.setNested fs).push (.progressOther current rest)).progressRequest ans q).1 fs := by
  have hrids : ∀ g ∈ [Frame.progressOther current rest], ∀ r ∈ g.rids, r < p.nextRid := by
    simpa [Frame.rids] using hrest
  have hpush : ∀ {g : Frame}, g.rids = [q] →
      ∀ g' ∈ [g, .progressOther current rest], ∀ r ∈ g'.rids, r < p.nextRid := by
    intro g hg g' hg'
    rcases List.mem_cons.mp hg' with rfl | hg'
    · simpa [hg] using hq
    · exact hrids g' hg'
  unfold progressRequest
  split
  · exact .of_nested (fun _ => rfl) ⟨rfl, rfl, rfl⟩ rfl rfl rfl (g := [_]) rfl
      (by simp [Frame.isProgressRecv]) hrids
  · rename_i htype
    have hrecv : (p.reqs q).type = .recv := htype
    exact ⟨rfl, rfl, fun _ => rfl, ⟨rfl, rfl, rfl⟩, Or.inl rfl, [_, _], rfl,
      by simp [Frame.isProgressRecv], hpush rfl, by simpa using hrecv⟩
  · exact .of_nested (fun _ => rfl) ⟨rfl, rfl, rfl⟩ rfl rfl rfl (g := [_, _]) rfl
      (by simp [Frame.isProgressRecv]) (hpush rfl)
  · exact .of_nested (fun _ => rfl) ⟨rfl, rfl, rfl⟩ rfl rfl rfl (g := [_, _]) rfl
      (by simp [Frame.isProgressRecv]) (hpush rfl)
  all_goals
    have hframe := testBackup_frame (p := (p.setNested fs).push (.progressOther current rest)) ans q
    have hkept := testBackup_kept (p := (p.setNested fs).push (.progressOther current rest)) ans q
    exact .of_nested (testBackup_type ans q) ⟨hkept.1, hkept.2, hkept.3⟩ hframe.2.1 hframe.2.2.1
      hframe.1 (g := [_]) hframe.2.2.2 (by simp [Frame.isProgressRecv]) hrids

/-- **One step of the topmost function on the stack**: what it does to the stack. -/
theorem runFrame_frames {ans : Answer} {f : Frame} {fs : List Frame} (hS : Shape p) (hK : Known p)
    (hn : p.nested = f :: fs) : Frames p ((p.setNested fs).runFrame ans f).1 fs := by
  have hf : ∀ r ∈ f.rids, r < p.nextRid := hK.nested f (by simp [hn])
  cases f with
  | progressOther current rest =>
      cases rest with
      | nil => exact .of_nested (fun _ => rfl) ⟨rfl, rfl, rfl⟩ rfl rfl rfl (g := []) rfl (by simp) (by simp)
      | cons q rest =>
          have hq : q < p.nextRid := hf q (by simp [Frame.rids])
          have hrest : ∀ r ∈ rest, r < p.nextRid := fun r hr => hf r (by simp [Frame.rids, hr])
          simp only [runFrame]
          split
          · exact .of_nested (fun _ => rfl) ⟨rfl, rfl, rfl⟩ rfl rfl rfl (g := [_]) rfl
              (by simp [Frame.isProgressRecv]) (by simpa [Frame.rids] using hrest)
          · exact progressRequest_frames hq hrest
  | progressWaiting q pt =>
      have hq : q < p.nextRid := hf q (by simp [Frame.rids])
      cases pt with
      | probe =>
          simp only [runFrame]
          split
          · split
            · exact .of_nested (fun _ => rfl) ⟨rfl, rfl, rfl⟩ rfl rfl rfl (g := [_, _]) rfl
                (by simp [Frame.isProgressRecv]) (by simpa [Frame.rids] using hq)
            · exact .of_nested (fun _ => rfl) ⟨rfl, rfl, rfl⟩ rfl rfl rfl (g := [_]) rfl
                (by simp [Frame.isProgressRecv]) (by simpa [Frame.rids] using hq)
          · exact .of_nested (fun _ => rfl) ⟨rfl, rfl, rfl⟩ rfl rfl rfl (g := [_]) rfl
              (by simp [Frame.isProgressRecv]) (by simpa [Frame.rids] using hq)
      | post =>
          simp only [runFrame]
          split
          · have ht : ∀ r, (((p.setNested fs).postBackup q).reqs r).type = (p.reqs r).type :=
              fun _ => (postBackup_alike (p := p.setNested fs) q).2
            exact .of_nested ht ⟨rfl, rfl, rfl⟩ rfl rfl rfl (g := []) rfl (by simp) (by simp)
          · exact .of_nested (fun _ => rfl) ⟨rfl, rfl, rfl⟩ rfl rfl rfl (g := []) rfl
              (by simp) (by simp)
  | receiveInfo q pt =>
      have hq : q < p.nextRid := hf q (by simp [Frame.rids])
      cases pt with
      | recv =>
          refine .of_nested (fun r => ?_) ⟨rfl, rfl, rfl⟩ rfl rfl rfl (g := [_]) rfl
            (by simp [Frame.isProgressRecv]) (by simpa [Frame.rids] using hq)
          by_cases hr : r = q
          · subst hr
            simp [runFrame, push, setReq, assert, setNested]
          · simp [runFrame, push, setReq, assert, setNested, hr]
      | test =>
          have ht : ∀ r, (((p.setNested fs).testExchange ans q).reqs r).type = (p.reqs r).type :=
            fun r => (testExchange_alike (p := p.setNested fs) ans q).2
          have hframe := testExchange_frame (p := p.setNested fs) ans q
          have hkept := testExchange_kept (p := p.setNested fs) ans q
          simp only [runFrame]
          split
          · exact .of_nested ht ⟨hkept.1, hkept.2, hkept.3⟩ hframe.2.1 hframe.2.2.1
              hframe.1 (g := []) hframe.2.2.2 (by simp) (by simp)
          · refine .of_nested ht ⟨hkept.1, hkept.2, hkept.3⟩ hframe.2.1 hframe.2.2.1
              hframe.1 (g := [.progressOther q p.requestList, .receiveInfo q .test]) ?_
              (by simp [Frame.isProgressRecv]) ?_
            · simp only [progressOther, push, hframe.2.2.2, hkept.requestList]
              rfl
            · simpa [Frame.rids, hq] using hK.list
  | progressRecv q pt =>
      have hq : q < p.nextRid := hf q (by simp [Frame.rids])
      have hm : Worker.Moves (Prod.mk q) p.worker
          (progressRecvRequest (Prod.mk q) (p.toEp q) ans.imm pt (p.loc q)).2.worker :=
        moves_progressRecvRequest pt
      have ht : (progressRecvRequest (Prod.mk q) (p.toEp q) ans.imm pt (p.loc q)).2.req.type =
          (p.reqs q).type := type_progressRecvRequest pt
      show Frames p ((p.setNested fs).resumeProgress q
        (progressRecvRequest (Prod.mk q) (p.toEp q) ans.imm pt (p.loc q))) fs
      generalize progressRecvRequest (Prod.mk q) (p.toEp q) ans.imm pt (p.loc q) = x at hm ht ⊢
      obtain ⟨o, l⟩ := x
      have ht' : ∀ r, (((p.setNested fs).setLoc q l).reqs r).type = (p.reqs r).type :=
        fun r => setReq_type (p := p) (f := fun _ => l.req) ht r
      cases o with
      | goto pt' =>
          have hrecv : (p.reqs q).type = .recv := hS.fetching q pt (by simp [hn])
          exact ⟨rfl, rfl, ht', ⟨rfl, rfl, rfl⟩, Or.inr ⟨q, hq, hm⟩, [_], rfl, by simp,
            by simpa [Frame.rids] using hq, by simpa using hrecv⟩
      | _ =>
          exact ⟨rfl, rfl, ht', ⟨rfl, rfl, rfl⟩, Or.inr ⟨q, hq, hm⟩, [], rfl, by simp, by simp,
            by simp⟩

/-- One step of the function the user called. -/
structure Called (p p' : Proc) : Prop where
  kept : Kept p p'
  moves : p'.worker = p.worker ∨ ∃ q < p.nextRid, Worker.Moves (Prod.mk q) p.worker p'.worker
  call : p'.call.rid = p.call.rid ∨ p'.call = .none
  typed : p'.Typed
  nested : p'.nested = [] ∨ ∃ g, p'.nested = [g] ∧ g.isProgressRecv = false ∧
    p'.call.pauses = true ∧ ∀ r ∈ g.rids, r < p.nextRid

theorem Called.shape (h : Called p p') (hS : Shape p) : Shape p' := by
  refine ⟨?_, h.typed, fun hne => ?_, ?_, fun r pt hr => ?_⟩
  · rcases h.moves with hw | ⟨q, -, hm⟩
    · rw [hw]
      exact hS.barrier
    · exact moves_barrier hm hS.barrier
  · rcases h.nested with hn | ⟨g, -, -, hp, -⟩
    · exact absurd hn hne
    · exact hp
  · rcases h.nested with hn | ⟨g, hn, -, -, -⟩ <;> simp [hn]
  · rcases h.nested with hn | ⟨g, hn, hg, -, -⟩
    · simp [hn] at hr
    · rw [hn, List.mem_singleton] at hr
      simp [← hr, Frame.isProgressRecv] at hg

theorem Called.known (h : Called p p') (hK : Known p) : Known p' := by
  have hnext := h.kept.nextRid
  refine ⟨?_, ?_, ?_, ?_⟩
  · rw [h.kept.requestList, hnext]
    exact hK.list
  · intro r hr
    rw [hnext]
    rcases h.call with hc | hc
    · exact hK.call r (hc ▸ hr)
    · simp [hc, Call.rid] at hr
  · rw [hnext]
    rcases h.nested with hn | ⟨g, hn, -, -, hg⟩
    · simp [hn]
    · simpa [hn] using hg
  · rw [hnext]
    rcases h.moves with hw | ⟨q, hq, hm⟩
    · rw [hw]
      exact hK.pending
    · exact moves_known hq hm hK.pending

/-- A function that moves data goes on, pauses or is done. -/
theorem resume_called {P : Type} {q : Rid} {next : P → Call} {done : Proc → Proc}
    {x : Outcome P × Local (Rid × RdmaOp)} (hK : Known p) (hn : p.nested = []) (hq : q < p.nextRid)
    (hm : Worker.Moves (Prod.mk q) p.worker x.2.worker) (hrid : ∀ pt, (next pt).rid = p.call.rid)
    (htyped : ∀ pt, ((p.setLoc q x.2).setCall (next pt)).Typed)
    (hpause : ∀ pt, x.1 = .progressOther pt → (next pt).pauses = true)
    (hdone : done = ret ∨ done = (·.finish q)) : Called p (p.resume q next done x) := by
  obtain ⟨o, l⟩ := x
  cases o with
  | goto pt =>
      exact ⟨⟨rfl, rfl, rfl⟩, Or.inr ⟨q, hq, hm⟩, Or.inl (hrid pt), htyped pt, Or.inl hn⟩
  | progressOther pt =>
      refine ⟨⟨rfl, rfl, rfl⟩, Or.inr ⟨q, hq, hm⟩, Or.inl (hrid pt), htyped pt, Or.inr
        ⟨.progressOther q p.requestList, ?_, rfl, hpause pt rfl, hK.list⟩⟩
      simp [resume, progressOther, push, setCall, setLoc, hn]
  | ret =>
      rcases hdone with rfl | rfl <;>
        exact ⟨⟨rfl, rfl, rfl⟩, Or.inr ⟨q, hq, hm⟩, Or.inr rfl, trivial, Or.inl hn⟩

theorem setLoc_type {q : Rid} {l : Local (Rid × RdmaOp)} (h : l.req.type = (p.reqs q).type) (r : Rid) :
    ((p.setLoc q l).reqs r).type = (p.reqs r).type :=
  setReq_type (p := p) (f := fun _ => l.req) h r

theorem eSend_pauses {Op : Type*} {toEp : Op → Bool} {w w' : SendWait} {l : Local Op}
    (h : (eSend toEp w l).1 = .progressOther w') : w' = .poll := by
  cases w <;> simp only [eSend] at h <;> split at h <;> simp at h
  exact h.symm

theorem eRecv_pauses {Op : Type*} {tag : RdmaOp → Op} {toEp : Op → Bool} {imm : Bool} {w w' : RecvWait}
    {l : Local Op} (h : (eRecv tag toEp imm w l).1 = .progressOther w') : w' = .poll := by
  cases w <;> simp only [eRecv] at h <;> split at h <;> simp at h
  exact h.symm

theorem bSend_ne_progressOther {Op : Type*} (tag : RdmaOp → Op) (toEp : Op → Bool) (imm : Bool)
    (pt pt' : Point) (l : Local Op) : (bSend tag toEp imm pt l).1 ≠ .progressOther pt' := by
  cases pt with
  | test =>
      simp only [bSend]
      split <;> simp
  | _ => simp [bSend]

theorem testBackup_called {ans : Answer} {q : Rid} {c : Call} (hK : Known p) (hn : p.nested = [])
    (hc : c.rid = p.call.rid) (hp : c.pauses = true)
    (ht : ((p.testBackup ans q).setCall c).Typed) :
    Called p (((p.testBackup ans q).setCall c).progressOther q) := by
  have hf := testBackup_frame (p := p) ans q
  have hk := testBackup_kept (p := p) ans q
  refine ⟨⟨hk.1, hk.2, hk.3⟩, Or.inl hf.1, Or.inl hc, ht, Or.inr
    ⟨.progressOther q p.requestList, ?_, rfl, hp, hK.list⟩⟩
  simp only [progressOther, push, setCall, hk.requestList, hf.2.2.2, hn]

/-- The function goes on at another point. -/
theorem Called.goes (hn : p.nested = []) (hkept : Kept p p') (hw : p'.worker = p.worker)
    (hnested : p'.nested = p.nested) (hcall : p'.call.rid = p.call.rid) (ht : p'.Typed) : Called p p' :=
  ⟨hkept, Or.inl hw, Or.inl hcall, ht, Or.inl (hnested.trans hn)⟩

/-- The function is done. -/
theorem Called.leaves (hn : p.nested = []) (hkept : Kept p p') (hw : p'.worker = p.worker)
    (hnested : p'.nested = p.nested) (hcall : p'.call = .none) : Called p p' := by
  refine ⟨hkept, Or.inl hw, Or.inr hcall, ?_, Or.inl (hnested.trans hn)⟩
  rw [Typed, hcall]
  trivial

/-- The function calls another one. -/
theorem Called.pushes {g : Frame} (hn : p.nested = []) (hkept : Kept p p') (hw : p'.worker = p.worker)
    (hnested : p'.nested = g :: p.nested) (hg : g.isProgressRecv = false)
    (hrids : ∀ r ∈ g.rids, r < p.nextRid) (hcall : p'.call.rid = p.call.rid)
    (hp : p'.call.pauses = true) (ht : p'.Typed) : Called p p' :=
  ⟨hkept, Or.inl hw, Or.inl hcall, ht, Or.inr ⟨g, by rw [hnested, hn], hg, hp, hrids⟩⟩

theorem known_search {q : Rid} (hq : q < p.nextRid) :
    ∀ r ∈ (Frame.progressWaiting q .probe).rids, r < p.nextRid := by
  simpa [Frame.rids] using hq

section
variable {ans : Answer} {c : Option MpiCall} {q : Rid}

theorem startSend_called {pt : StartSendSearch} (hn : p.nested = []) (hq : q < p.nextRid)
    (ht : p.Typed) (hcall : p.call = .startSend q pt)
    (hrun : p.runCall ans (.startSend q pt) = some (p', c)) : Called p p' := by
  simp only [Typed, hcall] at ht
  cases pt with
  | progress =>
      cases hrun
      exact .pushes hn ⟨rfl, rfl, rfl⟩ rfl rfl rfl (known_search hq) (by rw [hcall]; rfl) rfl ht
  | post =>
      cases hrun
      exact .leaves hn ⟨rfl, rfl, rfl⟩ rfl rfl rfl

theorem startRecv_called {pt : StartRecvSearch} (hn : p.nested = []) (hq : q < p.nextRid)
    (ht : p.Typed) (hcall : p.call = .startRecv q pt)
    (hrun : p.runCall ans (.startRecv q pt) = some (p', c)) : Called p p' := by
  simp only [Typed, hcall] at ht
  have hgoes : ∀ pt', Called p (p.setCall (.startRecv q pt')) := fun pt' =>
    .goes hn ⟨rfl, rfl, rfl⟩ rfl rfl (by rw [hcall]; rfl) ht
  have hleaves : Called p p.ret := .leaves hn ⟨rfl, rfl, rfl⟩ rfl rfl rfl
  cases pt with
  | progress =>
      cases hrun
      exact .pushes hn ⟨rfl, rfl, rfl⟩ rfl rfl rfl (known_search hq) (by rw [hcall]; rfl) rfl ht
  | probe =>
      simp only [runCall] at hrun
      split at hrun
      · split at hrun <;> cases hrun
        · exact hgoes _
        · exact hleaves
      · cases hrun
        exact hgoes _
  | fallback =>
      cases hrun
      exact .leaves hn ⟨rfl, rfl, rfl⟩ rfl rfl rfl
  | post =>
      simp only [runCall] at hrun
      split at hrun <;> cases hrun
      · exact .leaves hn ⟨rfl, rfl, rfl⟩ rfl rfl rfl
      · exact hleaves

theorem waitSend_called {pt : WaitSendSearch} (hK : Known p) (hn : p.nested = []) (hq : q < p.nextRid)
    (ht : p.Typed) (hcall : p.call = .waitSend q pt)
    (hrun : p.runCall ans (.waitSend q pt) = some (p', c)) : Called p p' := by
  simp only [Typed, hcall] at ht
  have hgoes : ∀ pt', Called p (p.setCall (.waitSend q pt')) := fun pt' =>
    .goes hn ⟨rfl, rfl, rfl⟩ rfl rfl (by rw [hcall]; rfl) ht
  cases pt with
  | progress =>
      cases hrun
      exact .pushes hn ⟨rfl, rfl, rfl⟩ rfl rfl rfl (known_search hq) (by rw [hcall]; rfl) rfl ht
  | established =>
      simp only [runCall] at hrun
      split at hrun <;> cases hrun
      · exact .goes hn ⟨rfl, rfl, rfl⟩ rfl rfl (by rw [hcall]; rfl)
          ⟨ht.1, Or.inr (by simp [setReq, setCall])⟩
      · exact hgoes _
  | test =>
      cases hrun
      have ha : (p.testBackup ans q).active = p.active := (testBackup_frame ans q).2.2.1
      have htype := testBackup_type (p := p) ans q q
      refine testBackup_called hK hn (by rw [hcall]; rfl) rfl ?_
      simpa only [Typed, setCall, ha, htype] using ht
  | tested flag =>
      simp only [runCall] at hrun
      split at hrun
      · split at hrun <;> cases hrun <;> exact .leaves hn ⟨rfl, rfl, rfl⟩ rfl rfl rfl
      · cases hrun
        exact hgoes _

theorem waitRecv_called {pt : WaitRecvSearch} (hK : Known p) (hn : p.nested = []) (hq : q < p.nextRid)
    (ht : p.Typed) (hcall : p.call = .waitRecv q pt)
    (hrun : p.runCall ans (.waitRecv q pt) = some (p', c)) : Called p p' := by
  simp only [Typed, hcall] at ht
  cases pt with
  | probe flag =>
      simp only [runCall] at hrun
      split at hrun <;> cases hrun
      · exact .pushes hn ⟨rfl, rfl, rfl⟩ rfl rfl rfl hK.list (by rw [hcall]; rfl) rfl ht
      · exact .goes hn ⟨rfl, rfl, rfl⟩ rfl rfl (by rw [hcall]; rfl) ht
  | progress flag =>
      cases hrun
      exact .pushes hn ⟨rfl, rfl, rfl⟩ rfl rfl rfl (known_search hq) (by rw [hcall]; rfl) rfl ht
  | post =>
      simp only [runCall] at hrun
      split at hrun <;> cases hrun
      · refine .goes hn ⟨rfl, rfl, rfl⟩ rfl rfl (by rw [hcall]; rfl) ⟨ht.1, ?_⟩
        simpa [postBackup, setReq, setCall, WaitRecvSearch.undecided] using ht.2
      · exact .goes hn ⟨rfl, rfl, rfl⟩ rfl rfl (by rw [hcall]; rfl) ht
  | decide =>
      cases hrun
      refine .goes hn ⟨rfl, rfl, rfl⟩ rfl rfl (by rw [hcall]; rfl) ⟨ht.1, ?_⟩
      show (if false = true then _ else _)
      rw [if_neg (by simp)]
      simp only [setCall, setReq, Function.update_self]
      split <;> simp
  | test =>
      cases hrun
      have ha : (p.testBackup ans q).active = p.active := (testBackup_frame ans q).2.2.1
      have htype := testBackup_type (p := p) ans q q
      refine testBackup_called hK hn (by rw [hcall]; rfl) rfl ?_
      simp only [Typed, setCall, ha, htype]
      exact ht
  | tested flag =>
      simp only [runCall] at hrun
      split at hrun <;> cases hrun
      · exact .leaves hn ⟨rfl, rfl, rfl⟩ rfl rfl rfl
      · exact .goes hn ⟨rfl, rfl, rfl⟩ rfl rfl (by rw [hcall]; rfl) ht

/-- **One step of the function the user called**: what it does to the control. -/
theorem runCall_called (hS : Shape p) (hK : Known p) (hn : p.nested = [])
    (hrun : p.runCall ans p.call = some (p', c)) : Called p p' := by
  have ht := hS.typed
  have hrid := hK.call
  cases hcall : p.call with
  | none => simp [hcall, runCall] at hrun
  | bSend q pt =>
      simp only [Typed, hcall] at ht
      rw [hcall] at hrun hrid
      cases hrun
      refine resume_called hK hn (hrid q rfl) (moves_bSend pt) (fun _ => by rw [hcall]; rfl)
        (fun pt' => ?_) (fun pt' h => (bSend_ne_progressOther _ _ _ _ _ _ h).elim) (Or.inl rfl)
      exact ⟨ht.1, (setLoc_type (type_bSend (l := p.loc q) pt) q).trans ht.2⟩
  | eSend q w =>
      simp only [Typed, hcall] at ht
      rw [hcall] at hrun hrid
      cases hrun
      refine resume_called hK hn (hrid q rfl) (Or.inl (moves_eSend w)) (fun _ => by rw [hcall]; rfl)
        (fun pt' => ?_) (fun pt' h => by rw [eSend_pauses h]; rfl) (Or.inr rfl)
      exact ⟨ht.1, (setLoc_type (type_eSend (l := p.loc q) w) q).trans ht.2⟩
  | bRecv q pt =>
      simp only [Typed, hcall] at ht
      rw [hcall] at hrun hrid
      cases hrun
      refine resume_called hK hn (hrid q rfl) (moves_bRecv pt) (fun _ => by rw [hcall]; rfl)
        (fun pt' => ?_) (fun pt' h => (bRecv_ne_progressOther _ _ _ _ _ _ h).elim) (Or.inl rfl)
      exact ⟨ht.1, (setLoc_type (type_bRecv (l := p.loc q) pt) q).trans ht.2⟩
  | eRecv q w =>
      simp only [Typed, hcall] at ht
      rw [hcall] at hrun hrid
      cases hrun
      refine resume_called hK hn (hrid q rfl) (moves_eRecv w) (fun _ => by rw [hcall]; rfl)
        (fun pt' => ?_) (fun pt' h => by rw [eRecv_pauses h]; rfl) (Or.inr rfl)
      exact ⟨ht.1, (setLoc_type (type_eRecv (l := p.loc q) w) q).trans ht.2⟩
  | startSend q pt =>
      rw [hcall] at hrun hrid
      exact startSend_called hn (hrid q rfl) hS.typed hcall hrun
  | startRecv q pt =>
      rw [hcall] at hrun hrid
      exact startRecv_called hn (hrid q rfl) hS.typed hcall hrun
  | waitSend q pt =>
      rw [hcall] at hrun hrid
      exact waitSend_called hK hn (hrid q rfl) hS.typed hcall hrun
  | waitRecv q pt =>
      rw [hcall] at hrun hrid
      exact waitRecv_called hK hn (hrid q rfl) hS.typed hcall hrun
  | mpiWait q =>
      rw [hcall] at hrun
      simp only [runCall] at hrun
      split at hrun <;> cases hrun
      · have hf := testBackup_frame (p := p) ans q
        have hk := testBackup_kept (p := p) ans q
        exact .leaves hn ⟨hk.1, hk.2, hk.3⟩ hf.1 hf.2.2.2 rfl
      · exact .goes hn (.refl _) rfl rfl rfl hS.typed

end

/-- **A step of the process keeps it in shape**, and works on known requests only. -/
theorem run_control {ans : Answer} {c : Option MpiCall} (hS : Shape p) (hK : Known p)
    (hrun : p.run ans = some (p', c)) : Shape p' ∧ Known p' ∧ Kept p p' := by
  unfold run at hrun
  split at hrun
  · rename_i f below hn
    have hp : p' = ((p.setNested below).runFrame ans f).1 := by
      rw [Option.some.inj hrun]
    have h : Frames p p' below := hp ▸ runFrame_frames hS hK hn
    exact ⟨h.shape hS hn, h.known hK hn, h.kept⟩
  · rename_i hn
    have h := runCall_called hS hK hn hrun
    exact ⟨h.shape hS, h.known hK, h.kept⟩

/-- Types by which a request may come to move data with a sender of its own. -/
theorem tracked_congr (h : (p'.reqs r).type = (p.reqs r).type) (ht : p'.Tracked r) : p.Tracked r := by
  unfold Tracked at ht ⊢
  rwa [h] at ht

theorem resume_type {P : Type} {q : Rid} {next : P → Call} {done : Proc → Proc}
    {x : Outcome P × Local (Rid × RdmaOp)} (hdone : done = ret ∨ done = (·.finish q))
    (h : x.2.req.type = (p.reqs q).type) (r : Rid) :
    ((p.resume q next done x).reqs r).type = (p.reqs r).type := by
  obtain ⟨o, l⟩ := x
  have ht := setLoc_type (p := p) (q := q) (l := l) h r
  cases o with
  | goto pt => exact ht
  | progressOther pt => exact ht
  | ret => rcases hdone with rfl | rfl <;> exact ht

/-- What the first Wait may decide, that the request is to go on as `t`. -/
def Decides (q : MpioptRequest) (t : RequestType) : Prop :=
  (q.type = .sendSearch ∧ ((t = .send ∧ q.remoteDataAddr ≠ 0) ∨ t = .sendFallback)) ∨
    (q.type = .recvSearch ∧ ((t = .recv ∧ q.remoteDataAddr ≠ 0) ∨ t = .recvFallback))

section
variable {ans : Answer} {c : Option MpiCall} {q : Rid}

/-- The first Start changes no type. -/
theorem start_keeps_type (h : (∃ pt, p.runCall ans (.startSend q pt) = some (p', c)) ∨
    ∃ pt, p.runCall ans (.startRecv q pt) = some (p', c)) (r : Rid) :
    (p'.reqs r).type = (p.reqs r).type := by
  rcases h with ⟨pt, hrun⟩ | ⟨pt, hrun⟩
  · cases pt with
    | progress =>
        cases hrun
        rfl
    | post =>
        cases hrun
        exact (postBackup_alike (p := p.assert _) q).2
  · cases pt with
    | progress =>
        cases hrun
        rfl
    | probe =>
        simp only [runCall] at hrun
        split at hrun <;> cases hrun
        · split <;> rfl
        · rfl
    | fallback =>
        cases hrun
        exact (postBackup_alike (p := p.assert _) q).2
    | post =>
        simp only [runCall] at hrun
        split at hrun <;> cases hrun
        · exact (postBackup_alike q).2
        · rfl

/-- The request is given a type. -/
theorem decides_setReq {t : RequestType} {p₁ : Proc} (hreqs : p₁.reqs = p.reqs)
    (ht : (p.reqs q).type = t ∨ Decides (p.reqs q) t) (r : Rid) :
    ((p₁.setReq q fun x => { x with type := t }).reqs r).type = (p.reqs r).type ∨
      Decides (p.reqs r) ((p₁.setReq q fun x => { x with type := t }).reqs r).type := by
  by_cases hq : r = q
  · subst hq
    simp only [setReq, Function.update_self]
    exact ht.imp Eq.symm id
  · exact Or.inl (by simp [setReq, hq, hreqs])

theorem waitSend_decides {pt : WaitSendSearch}
    (ht : (p.reqs q).type = .sendSearch ∨ (p.reqs q).type = .send)
    (hrun : p.runCall ans (.waitSend q pt) = some (p', c)) (r : Rid) :
    (p'.reqs r).type = (p.reqs r).type ∨ Decides (p.reqs r) (p'.reqs r).type := by
  cases pt with
  | progress =>
      cases hrun
      exact Or.inl rfl
  | established =>
      simp only [runCall] at hrun
      split at hrun <;> cases hrun
      · rename_i hne
        exact decides_setReq rfl (ht.symm.imp id fun ht => Or.inl ⟨ht, Or.inl ⟨rfl, hne⟩⟩) r
      · exact Or.inl rfl
  | test =>
      cases hrun
      exact Or.inl (testBackup_type ans q r)
  | tested flag =>
      simp only [runCall] at hrun
      split at hrun
      · split at hrun <;> cases hrun
        · rename_i hne
          exact decides_setReq rfl (Or.inr (Or.inl ⟨ht.resolve_right hne, Or.inr rfl⟩)) r
        · exact Or.inl rfl
      · cases hrun
        exact Or.inl rfl

theorem waitRecv_decides {pt : WaitRecvSearch} (ht : pt.undecided = true → (p.reqs q).type = .recvSearch)
    (hrun : p.runCall ans (.waitRecv q pt) = some (p', c)) (r : Rid) :
    (p'.reqs r).type = (p.reqs r).type ∨ Decides (p.reqs r) (p'.reqs r).type := by
  cases pt with
  | probe flag =>
      simp only [runCall] at hrun
      split at hrun <;> cases hrun <;> exact Or.inl rfl
  | progress flag =>
      cases hrun
      exact Or.inl rfl
  | post =>
      simp only [runCall] at hrun
      split at hrun <;> cases hrun
      · exact Or.inl (postBackup_alike (p := p.setCall _) q).2
      · exact Or.inl rfl
  | decide =>
      cases hrun
      by_cases hq : r = q
      · subst hq
        refine Or.inr (Or.inr ⟨ht rfl, ?_⟩)
        simp only [setCall, setReq, Function.update_self]
        split
        · exact Or.inr rfl
        · rename_i hne
          exact Or.inl ⟨rfl, hne⟩
      · exact Or.inl (by simp [setReq, setCall, hq])
  | test =>
      cases hrun
      exact Or.inl (testBackup_type ans q r)
  | tested flag =>
      simp only [runCall] at hrun
      split at hrun <;> cases hrun <;> exact Or.inl rfl

/-- A call changes the type of a request only in its first Wait. -/
theorem runCall_decides (hS : Shape p) (hrun : p.runCall ans p.call = some (p', c)) (r : Rid) :
    (p'.reqs r).type = (p.reqs r).type ∨ Decides (p.reqs r) (p'.reqs r).type := by
  have htyped := hS.typed
  cases hcall : p.call with
  | none => simp [hcall, runCall] at hrun
  | bSend q pt =>
      rw [hcall] at hrun
      cases hrun
      exact Or.inl (resume_type (Or.inl rfl) (type_bSend (l := p.loc q) pt) r)
  | bRecv q pt =>
      rw [hcall] at hrun
      cases hrun
      exact Or.inl (resume_type (Or.inl rfl) (type_bRecv (l := p.loc q) pt) r)
  | eSend q w =>
      rw [hcall] at hrun
      cases hrun
      exact Or.inl (resume_type (Or.inr rfl) (type_eSend (l := p.loc q) w) r)
  | eRecv q w =>
      rw [hcall] at hrun
      cases hrun
      exact Or.inl (resume_type (Or.inr rfl) (type_eRecv (l := p.loc q) w) r)
  | startSend q pt =>
      rw [hcall] at hrun
      exact Or.inl (start_keeps_type (.inl ⟨pt, hrun⟩) r)
  | startRecv q pt =>
      rw [hcall] at hrun
      exact Or.inl (start_keeps_type (.inr ⟨pt, hrun⟩) r)
  | waitSend q pt =>
      simp only [Typed, hcall] at htyped
      rw [hcall] at hrun
      exact waitSend_decides htyped.2 hrun r
  | waitRecv q pt =>
      simp only [Typed, hcall] at htyped
      rw [hcall] at hrun
      refine waitRecv_decides (fun hpt => ?_) hrun r
      have ht := htyped.2
      rwa [if_pos hpt] at ht
  | mpiWait q =>
      rw [hcall] at hrun
      simp only [runCall] at hrun
      split at hrun <;> cases hrun
      · exact Or.inl (testBackup_type ans q r)
      · exact Or.inl rfl

end

/-- **A request changes its type in its first Wait at most.** -/
theorem run_decides {ans : Answer} {c : Option MpiCall} (hS : Shape p) (hK : Known p)
    (hrun : p.run ans = some (p', c)) (r : Rid) :
    (p'.reqs r).type = (p.reqs r).type ∨ Decides (p.reqs r) (p'.reqs r).type := by
  unfold run at hrun
  split at hrun
  · rename_i f below hn
    have hp : p' = ((p.setNested below).runFrame ans f).1 := by
      rw [Option.some.inj hrun]
    have h : Frames p p' below := hp ▸ runFrame_frames hS hK hn
    exact Or.inl (h.type r)
  · exact runCall_decides hS hrun r

theorem run_type {ans : Answer} {c : Option MpiCall} (hS : Shape p) (hK : Known p)
    (hrun : p.run ans = some (p', c)) (r : Rid) :
    (p'.reqs r).type = (p.reqs r).type ∨
      ((p.reqs r).type = .sendSearch ∧
        ((p'.reqs r).type = .send ∨ (p'.reqs r).type = .sendFallback)) ∨
      ((p.reqs r).type = .recvSearch ∧
        ((p'.reqs r).type = .recv ∨ (p'.reqs r).type = .recvFallback)) := by
  refine (run_decides hS hK hrun r).imp id (Or.imp ?_ ?_)
  · exact fun h => ⟨h.1, h.2.imp And.left id⟩
  · exact fun h => ⟨h.1, h.2.imp And.left id⟩

/-- A receive request stays one, and a send request too. -/
theorem run_isRecv {ans : Answer} {c : Option MpiCall} (hS : Shape p) (hK : Known p)
    (hrun : p.run ans = some (p', c)) (r : Rid) :
    (p'.reqs r).type.isRecv = (p.reqs r).type.isRecv := by
  rcases run_type hS hK hrun r with heq | ⟨hs, heq | heq⟩ | ⟨hs, heq | heq⟩
  · rw [heq]
  all_goals simp [hs, heq, RequestType.isRecv]

/-- Nothing makes a receive request of another one. -/
theorem run_tracked {ans : Answer} {c : Option MpiCall} (hS : Shape p) (hK : Known p)
    (hrun : p.run ans = some (p', c)) (ht : p'.Tracked r) : p.Tracked r := by
  rcases run_type hS hK hrun r with heq | ⟨-, heq | heq⟩ | ⟨hs, -⟩
  · exact tracked_congr heq ht
  · exact absurd ht (by simp [Tracked, heq])
  · exact absurd ht (by simp [Tracked, heq])
  · exact Or.inr hs

end

end Proc

end CompMatch.Rendezvous

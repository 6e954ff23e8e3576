/-
The flag puts a request has under way.

A send request writes its word in Start, and `e_send` has waited for both flushes by
then (`SendFlagsAt`).  A receive request writes it in `b_recv`, where the same holds,
and in `progress_recv_request`, which may run while the announcement of the request is
still under way: nothing there looks at `ucx_request_flag_transfer`.  If it goes into
its branch only once that flush is complete, a receive request has at most one flag
put under way, and none while the branch is on its way to the write (`RecvFlags`).
-/
import CompMatch.Proofs.Rendezvous.Movers
import CompMatch.Rendezvous.FlagBuffer

namespace CompMatch.Rendezvous

/-! ### Flag puts under way -/

/-- The flag puts of a request that have not landed. -/
def Local.flagPuts (l : Local RdmaOp) : List (Posted RdmaOp) :=
  l.worker.pending.filter fun x => x.op.isFlag

section
variable {Op : Type*} {w w' : Worker Op} {tag : RdmaOp → Op}

theorem stamped_moves (h : w.Stamped) (hm : Worker.Moves tag w w') : w'.Stamped := by
  rcases hm with rfl | ⟨op, rfl⟩ | rfl
  · exact h
  · exact h.post _
  · exact h

theorem clear_moves {sel : Op → Bool} {t : Nat} (hm : Worker.Moves tag w w') (ht : t ≤ w.clock)
    (h : w.clear sel t = true) : w'.clear sel t = true := by
  rcases hm with rfl | ⟨op, rfl⟩ | rfl
  · exact h
  · exact Worker.clear_post ht h _
  · exact h

end

section
variable {l l' : Local RdmaOp}

theorem flagPuts_congr (h : l'.worker.pending = l.worker.pending) : l'.flagPuts = l.flagPuts := by
  simp only [Local.flagPuts, h]

theorem mem_flagPuts {x : Posted RdmaOp} :
    x ∈ l.flagPuts ↔ x ∈ l.worker.pending ∧ x.op.isFlag = true := by
  simp [Local.flagPuts]

theorem flagPuts_post_flag (n : Int) (dst : Addr) :
    (l.post (.flag n dst)).flagPuts =
      l.flagPuts ++ [⟨l.worker.clock, l.worker.barrier, .flag n dst⟩] := by
  simp [Local.flagPuts, Local.post, RdmaOp.isFlag]

theorem flagPuts_post_other {op : RdmaOp} (h : op.isFlag = false) : (l.post op).flagPuts = l.flagPuts := by
  simp [Local.flagPuts, Local.post, h]

theorem flagPuts_retire {i : Nat} {x : Posted RdmaOp} (h : x ∈ (l.retire i).flagPuts) :
    x ∈ l.flagPuts := by
  rw [mem_flagPuts] at h ⊢
  exact ⟨List.mem_of_mem_eraseIdx h.1, h.2⟩

/-! ### The sender -/

/-- The flush behind the handle waits for the operation. -/
def Covers (h : Option Nat) (x : Posted RdmaOp) : Prop := ∃ t, h = some t ∧ x.stamp < t

/-- What a send request has under way, and which handles it holds, at each program point. -/
def SendFlagsAt (l : Local RdmaOp) : SendPc → Prop
  | .start .flush | .start .flushReady => Unheld l.req
  | .start .progress | .started | .wait .flagTransfer =>
      ∀ x ∈ l.flagPuts, Covers l.req.ucxRequestFlagTransfer x ∨ Covers l.req.ucxRequestDataTransfer x
  | .wait .dataTransfer =>
      l.req.ucxRequestFlagTransfer = none ∧ ∀ x ∈ l.flagPuts, Covers l.req.ucxRequestDataTransfer x
  | _ => l.flagPuts = [] ∧ Unheld l.req

/-- A flush that was just issued waits for everything under way. -/
theorem covers_flush {imm : Bool} (hst : l.worker.Stamped) {x : Posted RdmaOp}
    (hx : x ∈ l.worker.pending) : Covers (ucpEpFlushNb oneEp imm l.worker) x := by
  unfold ucpEpFlushNb
  split
  · rename_i hc
    rw [Bool.and_eq_true, Worker.clear_iff] at hc
    have hle := hc.2 x hx rfl
    have hlt := hst x hx
    omega
  · exact ⟨_, rfl, hst x hx⟩

/-- A flush that is complete covers nothing under way. -/
theorem not_covers_of_flushed {h : Option Nat} (hf : flushed oneEp l.worker h = true) {x : Posted RdmaOp}
    (hx : x ∈ l.worker.pending) : ¬ Covers h x := by
  rintro ⟨t, rfl, hlt⟩
  have hle := Worker.clear_iff.mp hf x hx rfl
  omega

theorem SendFlagsAt.of_none {pc : SendPc} (h : l.flagPuts = []) (hu : Unheld l.req) :
    SendFlagsAt l pc := by
  unfold SendFlagsAt
  split
  · exact hu
  · exact hu
  · intro x hx
    rw [h] at hx
    exact absurd hx List.not_mem_nil
  · intro x hx
    rw [h] at hx
    exact absurd hx List.not_mem_nil
  · intro x hx
    rw [h] at hx
    exact absurd hx List.not_mem_nil
  · refine ⟨hu.flagTransfer, fun x hx => ?_⟩
    rw [h] at hx
    exact absurd hx List.not_mem_nil
  · exact ⟨h, hu⟩

/-- Fewer puts under way, and the handles as they are. -/
theorem SendFlagsAt.mono {pc : SendPc} (h : SendFlagsAt l pc)
    (hsub : ∀ x ∈ l'.flagPuts, x ∈ l.flagPuts)
    (hd : l'.req.ucxRequestDataTransfer = l.req.ucxRequestDataTransfer)
    (hf : l'.req.ucxRequestFlagTransfer = l.req.ucxRequestFlagTransfer) : SendFlagsAt l' pc := by
  have hu : Unheld l.req → Unheld l'.req := fun hu => ⟨hd.trans hu.1, hf.trans hu.2⟩
  have hnil : l.flagPuts = [] → l'.flagPuts = [] := by
    intro hn
    refine List.eq_nil_iff_forall_not_mem.mpr fun x hx => ?_
    have := hsub x hx
    rw [hn] at this
    exact List.not_mem_nil this
  unfold SendFlagsAt at h ⊢
  rw [hd, hf]
  split at h
  · exact hu h
  · exact hu h
  · exact fun x hx => h x (hsub x hx)
  · exact fun x hx => h x (hsub x hx)
  · exact fun x hx => h x (hsub x hx)
  · exact ⟨h.1, fun x hx => h.2 x (hsub x hx)⟩
  · exact ⟨hnil h.1, hu h.2⟩

/-- **A step of `b_send`.** -/
theorem SendFlagsAt.run_start {imm : Bool} {p : Point} {pc' : SendPc} (hst : l.worker.Stamped)
    (h : SendFlagsAt l (.start p)) (hrun : sendRun imm (.start p) l = some (pc', l')) :
    SendFlagsAt l' pc' := by
  have hflush : ∀ x ∈ l.flagPuts, Covers (ucpEpFlushNb oneEp imm l.worker) x :=
    fun x hx => covers_flush hst (mem_flagPuts.mp hx).1
  cases p with
  | test =>
      simp only [sendRun, bSend] at hrun
      by_cases hflag : l.req.flag = l.req.operationNumber * 2 + 1
      · rw [if_pos hflag] at hrun
        cases hrun
        exact h
      · rw [if_neg hflag] at hrun
        cases hrun
        exact h
  | data =>
      cases hrun
      exact ⟨(flagPuts_post_other rfl).trans h.1, h.2⟩
  | signal =>
      cases hrun
      exact h.2
  | ready =>
      cases hrun
      exact h.2
  | flush =>
      cases hrun
      exact fun x hx => Or.inr (hflush x hx)
  | flushReady =>
      cases hrun
      exact fun x hx => Or.inl (hflush x hx)
  | fill =>
      cases hrun
      exact ⟨h.1, h.2.1, h.2.2⟩
  | store v =>
      cases hrun
      exact ⟨h.1, h.2.1, h.2.2⟩
  | fillReady =>
      cases hrun
      exact ⟨h.1, h.2.1, h.2.2⟩
  | _ =>
      cases hrun
      exact h

/-- **A step of `e_send`.** -/
theorem SendFlagsAt.run_wait {imm : Bool} {w : SendWait} {pc' : SendPc}
    (h : SendFlagsAt l (.wait w)) (hrun : sendRun imm (.wait w) l = some (pc', l')) :
    SendFlagsAt l' pc' := by
  cases w with
  | flagTransfer =>
      simp only [sendRun, eSend] at hrun
      by_cases hf : flushed oneEp l.worker l.req.ucxRequestFlagTransfer = true
      · rw [if_pos hf] at hrun
        cases hrun
        exact ⟨rfl, fun x hx => (h x hx).resolve_left (not_covers_of_flushed hf (mem_flagPuts.mp hx).1)⟩
      · rw [if_neg hf] at hrun
        cases hrun
        exact h
  | dataTransfer =>
      simp only [sendRun, eSend] at hrun
      by_cases hf : flushed oneEp l.worker l.req.ucxRequestDataTransfer = true
      · rw [if_pos hf] at hrun
        cases hrun
        refine ⟨List.eq_nil_iff_forall_not_mem.mpr fun x hx => ?_, rfl, h.1⟩
        exact not_covers_of_flushed hf (mem_flagPuts.mp hx).1 (h.2 x hx)
      · rw [if_neg hf] at hrun
        cases hrun
        exact h
  | spin count =>
      simp only [sendRun, eSend] at hrun
      split at hrun <;> rename_i heq <;> split at heq <;> cases heq <;> cases hrun <;> exact h
  | poll =>
      simp only [sendRun, eSend] at hrun
      split at hrun <;> rename_i heq <;> split at heq <;> cases heq <;> cases hrun <;> exact h

theorem SendFlagsAt.run {imm : Bool} {pc pc' : SendPc} (hst : l.worker.Stamped)
    (h : SendFlagsAt l pc) (hrun : sendRun imm pc l = some (pc', l')) : SendFlagsAt l' pc' := by
  cases pc with
  | start p => exact h.run_start hst hrun
  | wait w => exact h.run_wait hrun
  | idle => simp [sendRun] at hrun
  | started => simp [sendRun] at hrun

/-- A step of either function posts operations of its own, if any. -/
theorem moves_sendRun {imm : Bool} {pc pc' : SendPc} (hrun : sendRun imm pc l = some (pc', l')) :
    Worker.Moves id l.worker l'.worker := by
  cases pc with
  | start p =>
      have hm : Worker.Moves id l.worker (bSend id oneEp imm p l).2.worker := moves_bSend p
      simp only [sendRun] at hrun
      split at hrun <;> rename_i heq <;> rw [heq] at hm <;> cases hrun <;> exact hm
  | wait w =>
      have hm : (eSend oneEp w l).2.worker = l.worker := moves_eSend w
      simp only [sendRun] at hrun
      split at hrun <;> rename_i heq <;> rw [heq] at hm <;> cases hrun <;> exact Or.inl hm
  | idle => simp [sendRun] at hrun
  | started => simp [sendRun] at hrun

/-- Where the word is written, both flushes were waited for. -/
theorem SendFlagsAt.flushed {pc : SendPc} (h : SendFlagsAt l pc) (hf : pc.fills = true) :
    l.flagPuts = [] ∧ Unheld l.req := by
  cases pc with
  | start p => cases p <;> first | exact h | simp [SendPc.fills, Point.fills] at hf
  | _ => simp [SendPc.fills] at hf

end

/-! ### The receiver -/

section
variable {l l' : Local RdmaOp} {fl : Flight} {imm : Bool}

/-- The flag puts of a flight are the announcement and the notice. -/
theorem Carries.flagPuts {t : Transfer} (h : Carries t l fl) :
    l.flagPuts = fl.ready.toList ++ fl.notice.toList := by
  have hready : fl.ready.toList.filter (fun x => x.op.isFlag) = fl.ready.toList := by
    cases hr : fl.ready with
    | none => rfl
    | some x => simp [h.ready x hr, RdmaOp.isFlag]
  have hdata : fl.data.toList.filter (fun x => x.op.isFlag) = [] := by
    cases hd : fl.data with
    | none => rfl
    | some x => cases t <;> simp [h.data x hd, payloadOp, RdmaOp.isFlag]
  have hnotice : fl.notice.toList.filter (fun x => x.op.isFlag) = fl.notice.toList := by
    cases hn : fl.notice with
    | none => rfl
    | some x => simp [h.notice x hn, RdmaOp.isFlag]
  rw [Local.flagPuts, h.pending, Flight.list, List.filter_append, List.filter_append, hready, hdata,
    hnotice, List.append_nil]

/-- At most one flag put is under way, and the handle of the announcement's flush is no later than
now. -/
structure OneFlag (l : Local RdmaOp) : Prop where
  one : l.flagPuts.length ≤ 1
  handle : ∀ t, l.req.ucxRequestFlagTransfer = some t → t ≤ l.worker.clock

/-- Nothing is posted, and the handle stays. -/
theorem OneFlag.congr (h : OneFlag l) (hp : l'.worker.pending = l.worker.pending)
    (hc : l.worker.clock ≤ l'.worker.clock)
    (hf : l'.req.ucxRequestFlagTransfer = l.req.ucxRequestFlagTransfer) : OneFlag l' :=
  ⟨by rw [flagPuts_congr hp]; exact h.one, fun t ht => Nat.le_trans (h.handle t (hf ▸ ht)) hc⟩

/-- The one flag put is posted. -/
theorem OneFlag.post_flag (h : OneFlag l) (hn : l.flagPuts = []) (n : Int) (dst : Addr) :
    OneFlag (l.post (.flag n dst)) := by
  refine ⟨?_, fun t ht => Nat.le_succ_of_le (h.handle t ht)⟩
  rw [flagPuts_post_flag, hn]
  exact Nat.le_refl _

theorem OneFlag.post_other (h : OneFlag l) {op : RdmaOp} (ho : op.isFlag = false) :
    OneFlag (l.post op) :=
  ⟨by rw [flagPuts_post_other ho]; exact h.one, fun t ht => Nat.le_succ_of_le (h.handle t ht)⟩

theorem fetchStep_oneFlag {checked : Bool} {p : Point} (h : OneFlag l)
    (hn : p = .signal → l.flagPuts = []) : OneFlag (fetchStep id oneEp checked imm p l).2 := by
  cases p with
  | data => exact OneFlag.post_other (l := l.assert _) ⟨h.one, h.handle⟩ rfl
  | signal => exact h.post_flag (hn rfl) _ _
  | _ => exact ⟨h.one, h.handle⟩

theorem bRecv_oneFlag {p : Point} (h : OneFlag l) (hn : p = .ready ∨ p = .signal → l.flagPuts = []) :
    OneFlag (bRecv id oneEp imm p l).2 := by
  cases p with
  | test =>
      simp only [bRecv]
      split <;> exact h
  | fillReady => exact ⟨h.one, h.handle⟩
  | ready => exact h.post_flag (hn (Or.inl rfl)) _ _
  | flushReady =>
      refine ⟨h.one, fun t ht => ?_⟩
      have ht' : ucpEpFlushNb oneEp imm l.worker = some t := ht
      unfold ucpEpFlushNb at ht'
      split at ht'
      · simp at ht'
      · exact Nat.le_of_eq (Option.some.inj ht').symm
  | signal => exact fetchStep_oneFlag h fun _ => hn (Or.inr rfl)
  | _ => exact fetchStep_oneFlag h (by simp)

theorem eRecv_oneFlag {w : RecvWait} (h : OneFlag l)
    (hn : w = .fetch .ready ∨ w = .fetch .signal → l.flagPuts = []) :
    OneFlag (eRecv id oneEp imm w l).2 := by
  cases w with
  | flagTransfer =>
      simp only [eRecv]
      split
      · exact ⟨h.one, by simp [Local.setFlagTransfer]⟩
      · exact h
  | dataTransfer =>
      simp only [eRecv]
      split <;> exact ⟨h.one, h.handle⟩
  | fetched =>
      simp only [eRecv]
      split <;> exact ⟨h.one, h.handle⟩
  | fetch p =>
      have hb : OneFlag (bRecv id oneEp imm p l).2 := by
        refine bRecv_oneFlag h fun hp => hn ?_
        rcases hp with rfl | rfl
        · exact Or.inl rfl
        · exact Or.inr rfl
      simp only [eRecv]
      split <;> rename_i heq <;> rw [heq] at hb <;> exact hb
  | _ =>
      simp only [eRecv]
      split <;> exact h

/-- Where a flag put is posted in `b_recv`, none is under way. -/
theorem RecvAt.flagPuts {s : RecvStage} {pc : RecvPc} (hC : Carries .get l fl) (hA : RecvAt l fl s pc)
    {p : Point} (hp : p = .ready ∨ p = .signal) (hpc : pc = .start p ∨ pc = .wait (.fetch p)) :
    l.flagPuts = [] := by
  have hnone : fl.ready = none ∧ fl.notice = none := by
    rcases hp with rfl | rfl <;> rcases hpc with rfl | rfl
    · obtain ⟨-, rfl, -⟩ := hA
      exact ⟨rfl, rfl⟩
    · exact hA.1.elim
    · exact ⟨hA.2.1, hA.1.2.1⟩
    · exact ⟨hA.2.1, hA.1.2.1⟩
  rw [hC.flagPuts, hnone.1, hnone.2]
  rfl

/-- **A step of `b_recv` or `e_recv`.** -/
theorem RecvRel.oneFlag {pc pc' : RecvPc} {a : Proto Unit} (hrel : RecvRel pc none l a)
    (h : OneFlag l) (hrun : recvRun imm pc l = some (pc', l')) : OneFlag l' := by
  obtain ⟨fl, hC, hA⟩ := hrel.sim
  have hnone : ∀ p, p = .ready ∨ p = .signal → pc = .start p ∨ pc = .wait (.fetch p) →
      l.flagPuts = [] := fun p hp hpc => RecvAt.flagPuts hC hA hp hpc
  cases pc with
  | start p =>
      have hb : OneFlag (bRecv id oneEp imm p l).2 := bRecv_oneFlag h fun hp => hnone p hp (Or.inl rfl)
      simp only [recvRun] at hrun
      split at hrun <;> rename_i heq <;> rw [heq] at hb <;> cases hrun <;> exact hb
  | wait w =>
      have hb : OneFlag (eRecv id oneEp imm w l).2 := by
        refine eRecv_oneFlag h ?_
        rintro (rfl | rfl)
        · exact hnone .ready (Or.inl rfl) (Or.inr rfl)
        · exact hnone .signal (Or.inr rfl) (Or.inr rfl)
      simp only [recvRun] at hrun
      split at hrun <;> rename_i heq <;> rw [heq] at hb <;> cases hrun <;> exact hb
  | idle => simp [recvRun] at hrun
  | started => simp [recvRun] at hrun

/-- In the branch of `progress_recv_request`, before it has posted its flag put. -/
def Point.fetching : Point → Bool
  | .load | .store _ | .data | .fence | .fill | .signal => true
  | _ => false

/-- **A step of `progress_recv_request`.** -/
theorem progressRecvRequest_oneFlag {p : Point} (h : OneFlag l) (hn : p.fetching = true → l.flagPuts = []) :
    OneFlag (progressRecvRequest id oneEp imm p l).2 := by
  cases p with
  | test =>
      simp only [progressRecvRequest]
      split <;> exact h
  | signal => exact fetchStep_oneFlag h fun _ => hn rfl
  | _ => exact fetchStep_oneFlag h (by simp)

/-- It posts no flag put before it is through its branch. -/
theorem progressRecvRequest_fetching {p p' : Point}
    (hrun : progressRecvRequest id oneEp imm p l = (.goto p', l')) (hp' : p'.fetching = true) :
    l'.flagPuts = l.flagPuts ∧ l'.req.ucxRequestFlagTransfer = l.req.ucxRequestFlagTransfer ∧
      (p.fetching = true ∨ (p = .test ∧ l.req.flag = l.req.operationNumber * 2 + 1)) := by
  cases p with
  | test =>
      simp only [progressRecvRequest] at hrun
      by_cases hflag : l.req.flag = l.req.operationNumber * 2 + 1
      · rw [if_pos hflag] at hrun
        cases hrun
        exact ⟨rfl, rfl, Or.inr ⟨rfl, hflag⟩⟩
      · rw [if_neg hflag] at hrun
        cases hrun
        simp [Point.fetching] at hp'
  | data =>
      cases hrun
      exact ⟨flagPuts_post_other rfl, rfl, Or.inl rfl⟩
  | signal =>
      cases hrun
      simp [Point.fetching] at hp'
  | flush =>
      cases hrun
      simp [Point.fetching] at hp'
  | load => cases hrun; exact ⟨rfl, rfl, Or.inl rfl⟩
  | store v => cases hrun; exact ⟨rfl, rfl, Or.inl rfl⟩
  | fence => cases hrun; exact ⟨rfl, rfl, Or.inl rfl⟩
  | fill => cases hrun; exact ⟨rfl, rfl, Or.inl rfl⟩
  | _ => cases hrun

end

/-! ### Who writes the word -/

section
variable {Op : Type*} {tag : RdmaOp → Op} {toEp : Op → Bool} {l : Local Op}

theorem bSend_flagBuffer (imm : Bool) {p : Point} (hp : p.fills = false) :
    (bSend tag toEp imm p l).2.req.flagBuffer = l.req.flagBuffer := by
  cases p with
  | test =>
      simp only [bSend]
      split <;> rfl
  | fill => simp [Point.fills] at hp
  | fillReady => simp [Point.fills] at hp
  | _ => rfl

theorem bRecv_flagBuffer (imm : Bool) {p : Point} (hp : p.fills = false) :
    (bRecv tag toEp imm p l).2.req.flagBuffer = l.req.flagBuffer := by
  cases p with
  | test =>
      simp only [bRecv]
      split <;> rfl
  | fillReady => simp [Point.fills] at hp
  | fill => simp [Point.fills] at hp
  | _ => rfl

theorem progressRecvRequest_flagBuffer (imm : Bool) {p : Point} (hp : p.fills = false) :
    (progressRecvRequest tag toEp imm p l).2.req.flagBuffer = l.req.flagBuffer := by
  cases p with
  | test =>
      simp only [progressRecvRequest]
      split <;> rfl
  | fill => simp [Point.fills] at hp
  | _ => rfl

theorem eSend_flagBuffer (w : SendWait) : (eSend toEp w l).2.req.flagBuffer = l.req.flagBuffer := by
  cases w <;> simp only [eSend] <;> split <;> rfl

theorem eRecv_flagBuffer (imm : Bool) {w : RecvWait} (hw : ∀ p, w = .fetch p → p.fills = false) :
    (eRecv tag toEp imm w l).2.req.flagBuffer = l.req.flagBuffer := by
  cases w with
  | fetch p =>
      have hb : (bRecv tag toEp imm p l).2.req.flagBuffer = l.req.flagBuffer :=
        bRecv_flagBuffer imm (hw p rfl)
      simp only [eRecv]
      split <;> rename_i heq <;> rw [heq] at hb <;> exact hb
  | _ =>
      simp only [eRecv]
      split <;> rfl

end

/-- Only there it is written. -/
theorem sendRun_flagBuffer {l l' : Local RdmaOp} {imm : Bool} {pc pc' : SendPc}
    (hrun : sendRun imm pc l = some (pc', l')) (hf : pc.fills = false) :
    l'.req.flagBuffer = l.req.flagBuffer := by
  cases pc with
  | start p =>
      have hb : (bSend id oneEp imm p l).2.req.flagBuffer = l.req.flagBuffer := bSend_flagBuffer imm hf
      simp only [sendRun] at hrun
      split at hrun <;> rename_i heq <;> rw [heq] at hb <;> cases hrun <;> exact hb
  | wait w =>
      have hb : (eSend oneEp w l).2.req.flagBuffer = l.req.flagBuffer := eSend_flagBuffer w
      simp only [sendRun] at hrun
      split at hrun <;> rename_i heq <;> rw [heq] at hb <;> cases hrun <;> exact hb
  | idle => simp [sendRun] at hrun
  | started => simp [sendRun] at hrun

namespace Proc

section
variable {p p' : Proc} {r : Rid} {ans : Answer} {c : Option MpiCall}

/-! ### The send requests of a process -/

/-- A send request has nothing under way before its connection is there, and after that what its
program point allows. -/
structure SendFlags (p : Proc) (r : Rid) : Prop where
  searching : (p.reqs r).type = .sendSearch → (p.view r).flagPuts = [] ∧ Unheld (p.reqs r)
  connected : (p.reqs r).type = .send → SendFlagsAt (p.view r) (p.sendPc r)

/-- Nothing of the request changes that its flag puts depend on. -/
theorem SendFlags.congr (h : SendFlags p r) (hreq : SameHandles (p.reqs r) (p'.reqs r))
    (hput : ∀ x ∈ (p'.view r).flagPuts, x ∈ (p.view r).flagPuts)
    (hsearch : (p'.reqs r).type = .sendSearch → (p.reqs r).type = .sendSearch)
    (hsend : (p'.reqs r).type = .send →
      (p.reqs r).type = .sendSearch ∨ ((p.reqs r).type = .send ∧ p'.sendPc r = p.sendPc r)) :
    SendFlags p' r := by
  have hnil : (p.reqs r).type = .sendSearch → (p'.view r).flagPuts = [] ∧ Unheld (p'.reqs r) := by
    intro ht
    obtain ⟨hn, hu⟩ := h.searching ht
    refine ⟨List.eq_nil_iff_forall_not_mem.mpr fun x hx => ?_, hreq.dataTransfer.trans hu.1,
      hreq.flagTransfer.trans hu.2⟩
    have hmem := hput x hx
    rw [hn] at hmem
    exact List.not_mem_nil hmem
  refine ⟨fun ht => hnil (hsearch ht), fun ht => ?_⟩
  rcases hsend ht with hs | ⟨hs, hpc⟩
  · exact .of_none (hnil hs).1 (hnil hs).2
  · rw [hpc]
    exact (h.connected hs).mono hput hreq.dataTransfer hreq.flagTransfer

/-- **Step lemma** for send requests. -/
theorem sendFlags_run (hS : Shape p) (hK : Known p) (hst : p.worker.Stamped) (h : SendFlags p r)
    (hrun : p.run ans = some (p', c)) (hsend : (p.reqs r).type ≠ .recv) : SendFlags p' r := by
  have htype := run_type hS hK hrun r
  cases send_cases hS hK hsend hrun with
  | runs imm ht ht' hstep =>
      refine ⟨fun hs => by simp [ht'] at hs, fun _ => ?_⟩
      exact (h.connected ht).run hst.view hstep
  | stays hhandles hpending hpc =>
      have hput : (p'.view r).flagPuts = (p.view r).flagPuts := flagPuts_congr hpending
      refine h.congr hhandles (fun x hx => hput ▸ hx) (fun ht => ?_) fun ht => ?_
      · rcases htype with heq | ⟨-, heq⟩ | ⟨-, heq⟩
        · exact heq ▸ ht
        · simp [ht] at heq
        · simp [ht] at heq
      · rcases htype with heq | ⟨hs, -⟩ | ⟨-, heq⟩
        · exact Or.inr ⟨heq ▸ ht, hpc (heq ▸ ht)⟩
        · exact Or.inl hs
        · simp [ht] at heq

/-! ### The receive requests of a process -/

/-- A receive request has one flag put under way at most, and none on the way to the write in
`progress_recv_request`. -/
structure RecvFlags (p : Proc) (r : Rid) : Prop where
  one : OneFlag (p.view r)
  fetching : ∀ pt, p.prog r = some pt → pt.fetching = true →
    (p.view r).flagPuts = [] ∧
      flushed (p.toEp r) p.worker (p.reqs r).ucxRequestFlagTransfer = true

theorem prog_eq {pt : Point} (h : p.prog r = some pt) : ∃ fs, p.nested = .progressRecv r pt :: fs := by
  unfold prog at h
  split at h
  · rename_i q pt' rest hn
    split at h
    · rename_i hq
      subst hq
      cases h
      exact ⟨rest, hn⟩
    · simp at h
  · simp at h

/-- A step of the process that is not one of `progress_recv_request` for the request. -/
theorem recvFlags_other {a : Proto Unit} (hS : Shape p) (hr : Tracked p r) (hrec : Receives p r a)
    (hprog : p.prog r = none) (h : RecvFlags p r) (hrun : p.run ans = some (p', c)) :
    RecvFlags p' r := by
  have hcalm : ∀ {pt : Point} {q : Proc}, Calm (q.prog r) → q.prog r = some pt → pt.fetching ≠ true := by
    intro pt q hc hpt
    rcases hc with hc | hc | hc
    · simp [hc] at hpt
    · rw [hc] at hpt
      cases hpt
      simp [Point.fetching]
    · rw [hc] at hpt
      cases hpt
      simp [Point.fetching]
  cases run_cases hS hr hrun with
  | unmoved hu =>
      refine ⟨h.one.congr hu.pending hu.clock hu.alike.flagTransfer, fun pt hpt hf => ?_⟩
      rcases hu.prog with heq | ⟨-, hc⟩
      · simp [heq, hprog] at hpt
      · exact absurd hf (hcalm hc hpt)
  | runs imm hp hprog' htype hrecv hstep =>
      have hrel : RecvRel (p.recvPc r) none (p.view r) a := hprog ▸ (hrec.connected hrecv).rel
      exact ⟨hrel.oneFlag h.one hstep, fun pt hpt => by simp [hprog'] at hpt⟩
  | fetches imm pt o hp => simp [hprog] at hp
  | informed hreq hworker hpc hp hprog' hactive =>
      refine ⟨h.one.congr ?_ (by simp [view, loc, Local.view, hworker]) (by simp [view, loc, Local.view, hreq]),
        fun pt hpt => by simp [hprog'] at hpt⟩
      simp only [view, loc, Local.view, hworker]
  | decides hsearch hactive hreq hworker hpc hprog' =>
      refine ⟨h.one.congr ?_ (by simp [view, loc, Local.view, hworker]) (by simp [view, loc, Local.view, hreq]),
        fun pt hpt => by simp [hprog'] at hpt⟩
      simp only [view, loc, Local.view, hworker]

theorem dest_progressRecvRequest {Op : Type*} {tag : RdmaOp → Op} {toEp : Op → Bool} {imm : Bool}
    {l : Local Op} (pt : Point) :
    (progressRecvRequest tag toEp imm pt l).2.req.dest = l.req.dest := by
  cases pt with
  | test =>
      simp only [progressRecvRequest]
      split <;> rfl
  | _ => rfl

/-- A step of `progress_recv_request`: it goes into its branch with nothing under way. -/
theorem recvFlags_fetches {a : Proto Unit} {pt : Point} (hS : Shape p) (hJ : Proto.Joint a)
    (hrec : Receives p r a) (hprog : p.prog r = some pt) (h : RecvFlags p r)
    (hann : pt = .test → (p.reqs r).flag = (p.reqs r).operationNumber * 2 + 1 →
      flushed (p.toEp r) p.worker (p.reqs r).ucxRequestFlagTransfer = true)
    (hrun : p.run ans = some (p', c)) : RecvFlags p' r := by
  obtain ⟨fs, hn⟩ := prog_eq hprog
  have htail : ∀ g ∈ fs, g.isProgressRecv = false := by
    have ht := hS.tail
    rwa [hn] at ht
  -- before the branch is entered, the announcement is across
  have htest : pt = .test → (p.reqs r).flag = (p.reqs r).operationNumber * 2 + 1 →
      (p.view r).flagPuts = [] := by
    rintro rfl hflag
    have hcon := hrec.connected (prog_fetching hS hprog)
    obtain ⟨fl, hC, hA⟩ := hcon.rel.sim
    rw [hprog] at hA
    have hnum : a.recvNumber = (p.reqs r).operationNumber := hcon.rel.number
    have hflag' : a.recvFlag = (p.reqs r).flag := hcon.rel.flag
    have hfl : fl = .empty := by
      have hA' : RecvAt (p.view r) fl a.recv (p.recvPc r) := hA
      rcases recvPc_pauses hS hprog with hpc | hpc | hpc
      · rw [hpc] at hA'
        exact hA'.2.1
      · rw [hpc] at hA'
        rcases hA' with hp | ⟨-, hh, -⟩
        · have hne := flag_ne_of_stored hJ hp.stage
          omega
        · exact eq_empty_of_flushed hC hh (view_flushed (sees p r) (hann rfl hflag))
      · rw [hpc] at hA'
        exact hA'.flight
    rw [hC.flagPuts, hfl]
    rfl
  have hfetch : (pt.fetching = true ∨
        (pt = .test ∧ (p.reqs r).flag = (p.reqs r).operationNumber * 2 + 1)) →
      (p.view r).flagPuts = [] ∧
        flushed (p.toEp r) p.worker (p.reqs r).ucxRequestFlagTransfer = true := by
    intro hpt
    rcases hpt with hpt | ⟨rfl, hflag⟩
    · exact h.fetching pt hprog hpt
    · exact ⟨htest rfl hflag, hann rfl hflag⟩
  obtain ⟨imm', hv⟩ := view_progressRecvRequest (l := p.loc r) (sees p r) ans.imm pt
  have hm : Worker.Moves (Prod.mk r) p.worker
      (progressRecvRequest (Prod.mk r) (p.toEp r) ans.imm pt (p.loc r)).2.worker :=
    moves_progressRecvRequest pt
  have hdest : (progressRecvRequest (Prod.mk r) (p.toEp r) ans.imm pt (p.loc r)).2.req.dest =
      (p.reqs r).dest := dest_progressRecvRequest pt
  have hone : OneFlag (progressRecvRequest id oneEp imm' pt (p.view r)).2 :=
    progressRecvRequest_oneFlag h.one fun hf => (h.fetching pt hprog hf).1
  have hp : p' = (p.setNested fs).resumeProgress r
      (progressRecvRequest (Prod.mk r) (p.toEp r) ans.imm pt (p.loc r)) := by
    unfold run at hrun
    rw [hn] at hrun
    exact (congrArg Prod.fst (Option.some.inj hrun)).symm
  subst hp
  rw [show progressRecvRequest id oneEp imm' pt (p.view r) = _ from hv] at hone
  have hgoto : ∀ {pt' l'}, progressRecvRequest id oneEp imm' pt (p.view r) = (.goto pt', l') →
      pt'.fetching = true → l'.flagPuts = [] ∧
        l'.req.ucxRequestFlagTransfer = (p.reqs r).ucxRequestFlagTransfer ∧
        flushed (p.toEp r) p.worker (p.reqs r).ucxRequestFlagTransfer = true := by
    intro pt' l' hstep hf
    obtain ⟨hputs, hhandle, hpt⟩ := progressRecvRequest_fetching hstep hf
    have hnil := hfetch hpt
    exact ⟨hputs.trans hnil.1, hhandle, hnil.2⟩
  rw [show progressRecvRequest id oneEp imm' pt (p.view r) = _ from hv] at hgoto
  generalize progressRecvRequest (Prod.mk r) (p.toEp r) ans.imm pt (p.loc r) = x at hone hgoto hm hdest ⊢
  obtain ⟨o, l⟩ := x
  have hview : ((p.setNested fs).setLoc r l).view r = l.view (operationOf r) := setLoc_view r l
  have hdone : ((p.setNested fs).setLoc r l).prog r = none := prog_below htail rfl
  have hdest' : l.req.dest = (p.reqs r).dest := hdest
  cases o with
  | goto pt' =>
      have hview' : (((p.setNested fs).setLoc r l).push (.progressRecv r pt')).view r =
          l.view (operationOf r) := hview
      refine ⟨?_, fun pt'' hpt'' hf => ?_⟩
      · show OneFlag ((((p.setNested fs).setLoc r l).push (.progressRecv r pt')).view r)
        rw [hview']
        exact hone
      · have heq : pt' = pt'' := by simpa [resumeProgress, push, prog] using hpt''
        subst heq
        obtain ⟨hnil, hhandle, hfl⟩ := hgoto rfl hf
        refine ⟨?_, ?_⟩
        · show ((((p.setNested fs).setLoc r l).push (.progressRecv r pt')).view r).flagPuts = []
          rw [hview']
          exact hnil
        · have hep : ((p.setNested fs).setLoc r l).toEp r = p.toEp r := by
            funext x
            by_cases hx : x.1 = r
            · simp [toEp, hx]
            · simp [toEp, setLoc, setNested, hx, hdest']
          show flushed (((p.setNested fs).setLoc r l).toEp r) l.worker
            ((((p.setNested fs).setLoc r l).reqs r).ucxRequestFlagTransfer) = true
          have hreq : (((p.setNested fs).setLoc r l).reqs r) = l.req := by simp [setLoc]
          rw [hep, hreq, show l.req.ucxRequestFlagTransfer = _ from hhandle]
          cases hh : (p.reqs r).ucxRequestFlagTransfer with
          | none => rfl
          | some t =>
              rw [hh] at hfl
              exact clear_moves hm (h.one.handle t hh) hfl
  | progressOther pt' =>
      refine ⟨?_, fun pt'' hpt'' => ?_⟩
      · show OneFlag (((p.setNested fs).setLoc r l).view r)
        rw [hview]
        exact hone
      · rw [show ((p.setNested fs).resumeProgress r (.progressOther pt', l)).prog r = none from hdone] at hpt''
        simp at hpt''
  | ret =>
      refine ⟨?_, fun pt'' hpt'' => ?_⟩
      · show OneFlag (((p.setNested fs).setLoc r l).view r)
        rw [hview]
        exact hone
      · rw [show ((p.setNested fs).resumeProgress r (.ret, l)).prog r = none from hdone] at hpt''
        simp at hpt''

/-! ### Where the word is written -/

/-- No flag put is among what the request sees of the worker. -/
theorem landed_of_flagPuts (h : (p.view r).flagPuts = []) :
    ∀ x ∈ p.worker.pending, x.op.1 = r → x.op.2.isFlag = false := by
  intro x hx hr
  by_contra hf
  have hmem : (⟨x.stamp, x.after, x.op.2⟩ : Posted RdmaOp) ∈ (p.view r).flagPuts := by
    refine mem_flagPuts.mpr ⟨?_, by simpa using hf⟩
    simp only [view, Local.view, loc, Worker.view, List.mem_filterMap]
    exact ⟨x, hx, by simp [Worker.Posted.view, operationOf, hr]⟩
  rw [h] at hmem
  exact List.not_mem_nil hmem

theorem FlagFlushed.of_unheld (h : (p.view r).flagPuts = []) (hu : Unheld (p.reqs r)) :
    p.FlagFlushed r :=
  ⟨landed_of_flagPuts h, by rw [hu.dataTransfer]; rfl, by rw [hu.flagTransfer]; rfl⟩

/-- **Where a step writes the word**, the flushes it has to wait for are complete. -/
theorem flagFlushed {a : Proto Unit} (hS : Shape p) (hsend : SendFlags p r)
    (hrecv : (p.reqs r).type = .recv → Receives p r a ∧ RecvFlags p r) (hf : p.fills = some r) :
    p.FlagFlushed r := by
  have htyped := hS.typed
  unfold fills at hf
  split at hf
  · rename_i q pt rest hn
    split at hf
    · rename_i hpt
      obtain rfl : q = r := by simpa using hf
      have ht := hS.fetching q pt (by simp [hn])
      obtain ⟨hrec, hflags⟩ := hrecv ht
      have hprog : p.prog q = some pt := by simp [prog, hn]
      obtain ⟨fl, hC, hA⟩ := (hrec.connected ht).rel.sim
      rw [hprog] at hA
      cases pt with
      | fill =>
          obtain ⟨hnil, hflag⟩ := hflags.fetching .fill hprog rfl
          have hdt : (p.reqs q).ucxRequestDataTransfer = none := hA.2.1
          exact ⟨landed_of_flagPuts hnil, by rw [hdt]; rfl, hflag⟩
      | fillReady => exact hA.1.elim
      | _ => simp [Point.fills] at hpt
    · simp at hf
  · simp at hf
  · rename_i hn
    have hprog : p.prog r = none := by simp [prog, hn]
    split at hf
    · rename_i q pt hcall
      split at hf <;> simp only [reduceCtorEq, Option.some.injEq] at hf
      rename_i hpt
      subst hf
      simp only [Typed, hcall] at htyped
      have hpc : p.sendPc q = .start pt := by simp [sendPc, htyped.1, hcall]
      have hat := hsend.connected htyped.2
      rw [hpc] at hat
      obtain ⟨hnil, hu⟩ := hat.flushed hpt
      exact .of_unheld hnil hu
    · rename_i q pt hcall
      split at hf <;> simp only [reduceCtorEq, Option.some.injEq] at hf
      rename_i hpt
      subst hf
      simp only [Typed, hcall] at htyped
      obtain ⟨fl, hC, hA⟩ := ((hrecv htyped.2).1.connected htyped.2).rel.sim
      have hpc : p.recvPc q = .start pt := by simp [recvPc, htyped.1, hcall]
      rw [hprog, hpc] at hA
      have hnil : fl.ready = none ∧ fl.notice = none ∧ Unheld (p.reqs q) := by
        cases pt with
        | fill => exact ⟨hA.2.1, hA.1.1.notice, hA.2.2⟩
        | fillReady =>
            obtain ⟨-, rfl, hu⟩ := hA
            exact ⟨rfl, rfl, hu⟩
        | _ => simp [Point.fills] at hpt
      refine .of_unheld ?_ hnil.2.2
      rw [hC.flagPuts, hnil.1, hnil.2.1]
      rfl
    · rename_i q pt hcall
      split at hf <;> simp only [reduceCtorEq, Option.some.injEq] at hf
      rename_i hpt
      subst hf
      simp only [Typed, hcall] at htyped
      obtain ⟨fl, hC, hA⟩ := ((hrecv htyped.2).1.connected htyped.2).rel.sim
      have hpc : p.recvPc q = .wait (.fetch pt) := by simp [recvPc, htyped.1, hcall]
      rw [hprog, hpc] at hA
      have hnil : fl.ready = none ∧ fl.notice = none ∧ Unheld (p.reqs q) := by
        cases pt with
        | fill => exact ⟨hA.2.1, hA.1.1.notice, hA.2.2⟩
        | fillReady => exact hA.1.elim
        | _ => simp [Point.fills] at hpt
      refine .of_unheld ?_ hnil.2.2
      rw [hC.flagPuts, hnil.1, hnil.2.1]
      rfl
    · simp at hf

/-- **A step writes the word of the request it fills, and of no other.** -/
theorem run_flagBuffer (hf : p.fills ≠ some r) (hrun : p.run ans = some (p', c)) :
    (p'.reqs r).flagBuffer = (p.reqs r).flagBuffer := by
  by_cases hr : p.mover = some r
  · unfold mover at hr
    unfold fills at hf
    unfold run at hrun
    split at hrun
    · rename_i f below hn
      rw [hn] at hr hf
      cases f with
      | progressRecv q pt =>
          obtain rfl : q = r := by simpa using hr
          have hpt : pt.fills = false := by simpa using hf
          have hb : (progressRecvRequest (Prod.mk q) (p.toEp q) ans.imm pt (p.loc q)).2.req.flagBuffer =
              (p.reqs q).flagBuffer := progressRecvRequest_flagBuffer ans.imm hpt
          have hp : p' = ((p.setNested below).runFrame ans (.progressRecv q pt)).1 :=
            (congrArg Prod.fst (Option.some.inj hrun)).symm
          subst hp
          show (((p.setNested below).resumeProgress q (progressRecvRequest (Prod.mk q) (p.toEp q)
            ans.imm pt (p.loc q))).reqs q).flagBuffer = _
          generalize progressRecvRequest (Prod.mk q) (p.toEp q) ans.imm pt (p.loc q) = x at hb ⊢
          obtain ⟨o, l⟩ := x
          cases o <;> simpa [resumeProgress, push, setLoc] using hb
      | _ => simp at hr
    · rename_i hn
      rw [hn] at hr hf
      have hresume : ∀ {P : Type} {next : P → Call} {done : Proc → Proc}
          (x : Outcome P × Local (Rid × RdmaOp)), x.2.req.flagBuffer = (p.reqs r).flagBuffer →
          done = ret ∨ done = (·.finish r) →
          ((p.resume r next done x).reqs r).flagBuffer = (p.reqs r).flagBuffer := by
        rintro P next done ⟨o, l⟩ hb hdone
        cases o with
        | goto pt => simpa [resume, setCall, setLoc] using hb
        | progressOther pt => simpa [resume, progressOther, push, setCall, setLoc] using hb
        | ret => rcases hdone with rfl | rfl <;> simpa [resume, ret, finish, setLoc] using hb
      cases hcall : p.call with
      | bSend q pt =>
          obtain rfl : q = r := by simpa [hcall, Call.movesFor] using hr
          rw [hcall] at hrun
          cases hrun
          exact hresume _ (bSend_flagBuffer ans.imm (by simpa [hcall] using hf)) (Or.inl rfl)
      | bRecv q pt =>
          obtain rfl : q = r := by simpa [hcall, Call.movesFor] using hr
          rw [hcall] at hrun
          cases hrun
          exact hresume _ (bRecv_flagBuffer ans.imm (by simpa [hcall] using hf)) (Or.inl rfl)
      | eSend q w =>
          obtain rfl : q = r := by simpa [hcall, Call.movesFor] using hr
          rw [hcall] at hrun
          cases hrun
          exact hresume _ (eSend_flagBuffer w) (Or.inr rfl)
      | eRecv q w =>
          obtain rfl : q = r := by simpa [hcall, Call.movesFor] using hr
          rw [hcall] at hrun
          cases hrun
          refine hresume _ (eRecv_flagBuffer ans.imm fun pt hw => ?_) (Or.inr rfl)
          subst hw
          simpa [hcall] using hf
      | _ => simp [hcall, Call.movesFor] at hr
  · exact (run_handles hr hrun).flagBuffer

end

end Proc

end CompMatch.Rendezvous

/-
Requests that share a worker.

The functions that move data name their operations (`tag`) and wait for those of one
endpoint (`toEp`).  Seen by one request, with only its own operations, each of them
does what it does on a worker of its own, except that a flush may wait longer.  To
every other request it only moves the clock and the barrier.
-/
import CompMatch.Rendezvous.Pair

namespace CompMatch.Rendezvous

variable {Op : Type*} {v : Op → Option RdmaOp} {tag : RdmaOp → Op} {toEp : Op → Bool}
  {l : Local Op}

/-- What a request sees of the process. -/
def Local.view (v : Op → Option RdmaOp) (l : Local Op) : Local RdmaOp :=
  ⟨l.req, l.worker.view v, l.failed⟩

/-! ### Seen by the request itself -/

/-- A request sees the operations it tags, and its endpoint's flushes wait for them. -/
structure Sees (v : Op → Option RdmaOp) (tag : RdmaOp → Op) (toEp : Op → Bool) : Prop where
  own : ∀ op, v (tag op) = some op
  ep : ∀ op op', v op = some op' → toEp op = true

theorem view_ucpEpFlushNb (h : Sees v tag toEp) (imm : Bool) (w : Worker Op) :
    ucpEpFlushNb oneEp (imm && w.clear toEp w.clock) (w.view v) = ucpEpFlushNb toEp imm w := by
  unfold ucpEpFlushNb
  by_cases hc : (imm && w.clear toEp w.clock) = true
  · have hcl : (w.view v).clear (fun _ => true) w.clock = true :=
      Worker.view_clear h.ep (Bool.and_eq_true_iff.mp hc).2
    rw [if_pos hc, if_pos]
    simp only [hc, Bool.true_and, Worker.view_clock]
    exact hcl
  · rw [if_neg hc, if_neg (by simp [hc])]
    rfl

theorem view_post (h : Sees v tag toEp) (op : RdmaOp) :
    (l.post (tag op)).view v = (l.view v).post op := by
  simp only [Local.view, Local.post, Worker.view_post (h.own op)]

/-- **The fetching branch, seen by its request.** -/
theorem view_fetchStep (h : Sees v tag toEp) (checked imm : Bool) (p : Point) :
    ∃ imm', fetchStep id oneEp checked imm' p (l.view v) =
      ((fetchStep tag toEp checked imm p l).1, (fetchStep tag toEp checked imm p l).2.view v) := by
  refine ⟨imm && l.worker.clear toEp l.worker.clock, ?_⟩
  cases p with
  | data => simp only [fetchStep, view_post h]; rfl
  | signal => simp only [fetchStep, view_post h]; rfl
  | flush =>
      have hf := view_ucpEpFlushNb h imm l.worker
      simp only [fetchStep, Local.view] at hf ⊢
      rw [hf]
      rfl
  | _ => rfl

/-- **`b_recv`, seen by its request.** -/
theorem view_bRecv (h : Sees v tag toEp) (imm : Bool) (p : Point) :
    ∃ imm', bRecv id oneEp imm' p (l.view v) =
      ((bRecv tag toEp imm p l).1, (bRecv tag toEp imm p l).2.view v) := by
  cases p with
  | test =>
      refine ⟨false, ?_⟩
      simp only [bRecv]
      by_cases hflag : l.req.flag = l.req.operationNumber * 2 + 1
      · rw [if_pos hflag]
        exact if_pos hflag
      · rw [if_neg hflag]
        exact if_neg hflag
  | fillReady => exact ⟨false, rfl⟩
  | ready => exact ⟨false, by simp only [bRecv, view_post h]; rfl⟩
  | flushReady =>
      refine ⟨imm && l.worker.clear toEp l.worker.clock, ?_⟩
      have hf := view_ucpEpFlushNb h imm l.worker
      simp only [bRecv, Local.view] at hf ⊢
      rw [hf]
      rfl
  | _ =>
      simp only [bRecv]
      exact view_fetchStep h true imm _

/-- **`progress_recv_request`, seen by its request.** -/
theorem view_progressRecvRequest (h : Sees v tag toEp) (imm : Bool) (p : Point) :
    ∃ imm', progressRecvRequest id oneEp imm' p (l.view v) =
      ((progressRecvRequest tag toEp imm p l).1, (progressRecvRequest tag toEp imm p l).2.view v) := by
  cases p with
  | test =>
      refine ⟨false, ?_⟩
      simp only [progressRecvRequest]
      by_cases hflag : l.req.flag = l.req.operationNumber * 2 + 1
      · rw [if_pos hflag]
        exact if_pos hflag
      · rw [if_neg hflag]
        exact if_neg hflag
  | _ =>
      simp only [progressRecvRequest]
      exact view_fetchStep h false imm _

/-- A flush that is complete for the endpoint is complete for the request. -/
theorem view_flushed (h : Sees v tag toEp) {w : Worker Op} {handle : Option Nat}
    (hf : flushed toEp w handle = true) : flushed oneEp (w.view v) handle = true := by
  cases handle with
  | none => rfl
  | some t => exact Worker.view_clear h.ep hf

/-- **`e_recv`, seen by its request**: it does the same or waits where it is. -/
theorem view_eRecv (h : Sees v tag toEp) (imm : Bool) (w : RecvWait) :
    (∃ imm', eRecv id oneEp imm' w (l.view v) =
      ((eRecv tag toEp imm w l).1, (eRecv tag toEp imm w l).2.view v)) ∨
      eRecv tag toEp imm w l = (.goto w, l) := by
  cases w with
  | flagTransfer =>
      by_cases hf : flushed toEp l.worker l.req.ucxRequestFlagTransfer = true
      · refine Or.inl ⟨false, ?_⟩
        simp only [eRecv]
        rw [if_pos hf]
        exact if_pos (view_flushed h hf)
      · exact Or.inr (by simp only [eRecv]; rw [if_neg hf])
  | dataTransfer =>
      by_cases hf : flushed toEp l.worker l.req.ucxRequestDataTransfer = true
      · refine Or.inl ⟨false, ?_⟩
        simp only [eRecv]
        rw [if_pos hf]
        exact if_pos (view_flushed h hf)
      · exact Or.inr (by simp only [eRecv]; rw [if_neg hf])
  | fetched =>
      by_cases hf : flushed toEp l.worker l.req.ucxRequestDataTransfer = true
      · refine Or.inl ⟨false, ?_⟩
        simp only [eRecv]
        rw [if_pos hf]
        exact if_pos (view_flushed h hf)
      · exact Or.inr (by simp only [eRecv]; rw [if_neg hf])
  | fetch p =>
      obtain ⟨imm', hb⟩ := view_bRecv (l := l) h imm p
      refine Or.inl ⟨imm', ?_⟩
      simp only [eRecv, hb]
      rcases bRecv tag toEp imm p l with ⟨o, l'⟩
      cases o <;> rfl
  | spin count =>
      refine Or.inl ⟨false, ?_⟩
      simp only [eRecv]
      by_cases hspin : l.req.flag < l.req.operationNumber * 2 + 1 ∧ count < rdmaSpinWaitThreshold
      · rw [if_pos hspin]
        exact if_pos hspin
      · rw [if_neg hspin]
        exact if_neg hspin
  | poll =>
      refine Or.inl ⟨false, ?_⟩
      simp only [eRecv]
      by_cases hflag : l.req.flag < l.req.operationNumber * 2 + 1
      · rw [if_pos hflag]
        exact if_pos hflag
      · rw [if_neg hflag]
        exact if_neg hflag
  | crosstalk =>
      refine Or.inl ⟨false, ?_⟩
      simp only [eRecv]
      by_cases hflag : l.req.flag = l.req.operationNumber * 2 + 1
      · rw [if_pos hflag]
        exact if_pos hflag
      · rw [if_neg hflag]
        exact if_neg hflag

/-- **`b_send`, seen by its request.** -/
theorem view_bSend (h : Sees v tag toEp) (imm : Bool) (p : Point) :
    ∃ imm', bSend id oneEp imm' p (l.view v) =
      ((bSend tag toEp imm p l).1, (bSend tag toEp imm p l).2.view v) := by
  cases p with
  | test =>
      refine ⟨false, ?_⟩
      simp only [bSend]
      by_cases hflag : l.req.flag = l.req.operationNumber * 2 + 1
      · rw [if_pos hflag]
        exact if_pos hflag
      · rw [if_neg hflag]
        exact if_neg hflag
  | data => exact ⟨false, by simp only [bSend, view_post h]; rfl⟩
  | signal => exact ⟨false, by simp only [bSend, view_post h]; rfl⟩
  | ready => exact ⟨false, by simp only [bSend, view_post h]; rfl⟩
  | flush =>
      refine ⟨imm && l.worker.clear toEp l.worker.clock, ?_⟩
      have hf := view_ucpEpFlushNb h imm l.worker
      simp only [bSend, Local.view] at hf ⊢
      rw [hf]
      rfl
  | flushReady =>
      refine ⟨imm && l.worker.clear toEp l.worker.clock, ?_⟩
      have hf := view_ucpEpFlushNb h imm l.worker
      simp only [bSend, Local.view] at hf ⊢
      rw [hf]
      rfl
  | _ => exact ⟨false, rfl⟩

/-- **`e_send`, seen by its request**: it does the same or waits where it is. -/
theorem view_eSend (h : Sees v tag toEp) (w : SendWait) :
    eSend oneEp w (l.view v) = ((eSend toEp w l).1, (eSend toEp w l).2.view v) ∨
      eSend toEp w l = (.goto w, l) := by
  cases w with
  | flagTransfer =>
      by_cases hf : flushed toEp l.worker l.req.ucxRequestFlagTransfer = true
      · refine Or.inl ?_
        simp only [eSend]
        rw [if_pos hf]
        exact if_pos (view_flushed h hf)
      · exact Or.inr (by simp only [eSend]; rw [if_neg hf])
  | dataTransfer =>
      by_cases hf : flushed toEp l.worker l.req.ucxRequestDataTransfer = true
      · refine Or.inl ?_
        simp only [eSend]
        rw [if_pos hf]
        exact if_pos (view_flushed h hf)
      · exact Or.inr (by simp only [eSend]; rw [if_neg hf])
  | spin count =>
      refine Or.inl ?_
      simp only [eSend]
      by_cases hspin : l.req.flag < l.req.operationNumber * 2 + 2 ∧ count < rdmaSpinWaitThreshold
      · rw [if_pos hspin]
        exact if_pos hspin
      · rw [if_neg hspin]
        exact if_neg hspin
  | poll =>
      refine Or.inl ?_
      simp only [eSend]
      by_cases hflag : l.req.flag < l.req.operationNumber * 2 + 2
      · rw [if_pos hflag]
        exact if_pos hflag
      · rw [if_neg hflag]
        exact if_neg hflag

/-! ### Seen by everyone else -/

/-- What one request may do to a worker it shares. -/
def Worker.Moves {Op : Type*} (tag : RdmaOp → Op) (w w' : Worker Op) : Prop :=
  w' = w ∨ (∃ op, w' = w.post (tag op)) ∨ w' = w.fence

section
variable {imm : Bool}

theorem moves_fetchStep (checked : Bool) (p : Point) :
    Worker.Moves tag l.worker (fetchStep tag toEp checked imm p l).2.worker := by
  cases p with
  | data => exact Or.inr (Or.inl ⟨_, rfl⟩)
  | signal => exact Or.inr (Or.inl ⟨_, rfl⟩)
  | fence => exact Or.inr (Or.inr rfl)
  | _ => exact Or.inl rfl

theorem moves_bRecv (p : Point) :
    Worker.Moves tag l.worker (bRecv tag toEp imm p l).2.worker := by
  cases p with
  | test =>
      simp only [bRecv]
      split <;> exact Or.inl rfl
  | ready => exact Or.inr (Or.inl ⟨_, rfl⟩)
  | fillReady => exact Or.inl rfl
  | flushReady => exact Or.inl rfl
  | _ =>
      simp only [bRecv]
      exact moves_fetchStep true _

theorem moves_progressRecvRequest (p : Point) :
    Worker.Moves tag l.worker (progressRecvRequest tag toEp imm p l).2.worker := by
  cases p with
  | test =>
      simp only [progressRecvRequest]
      split <;> exact Or.inl rfl
  | _ =>
      simp only [progressRecvRequest]
      exact moves_fetchStep false _

theorem moves_bSend (p : Point) :
    Worker.Moves tag l.worker (bSend tag toEp imm p l).2.worker := by
  cases p with
  | test =>
      simp only [bSend]
      split <;> exact Or.inl rfl
  | data => exact Or.inr (Or.inl ⟨_, rfl⟩)
  | signal => exact Or.inr (Or.inl ⟨_, rfl⟩)
  | ready => exact Or.inr (Or.inl ⟨_, rfl⟩)
  | fence => exact Or.inr (Or.inr rfl)
  | _ => exact Or.inl rfl

theorem moves_eSend (w : SendWait) : (eSend toEp w l).2.worker = l.worker := by
  cases w <;> simp only [eSend] <;> split <;> rfl

theorem moves_eRecv (w : RecvWait) :
    Worker.Moves tag l.worker (eRecv tag toEp imm w l).2.worker := by
  cases w with
  | fetch p =>
      have hb : Worker.Moves tag l.worker (bRecv tag toEp imm p l).2.worker := moves_bRecv p
      simp only [eRecv]
      split <;> rename_i heq <;> rw [heq] at hb <;> exact hb
  | _ =>
      simp only [eRecv]
      split <;> exact Or.inl rfl

/-! No function that moves data changes the type of its request. -/

theorem type_bRecv (p : Point) : (bRecv tag toEp imm p l).2.req.type = l.req.type := by
  cases p with
  | test =>
      simp only [bRecv]
      split <;> rfl
  | _ => rfl

theorem type_progressRecvRequest (p : Point) :
    (progressRecvRequest tag toEp imm p l).2.req.type = l.req.type := by
  cases p with
  | test =>
      simp only [progressRecvRequest]
      split <;> rfl
  | _ => rfl

theorem type_bSend (p : Point) : (bSend tag toEp imm p l).2.req.type = l.req.type := by
  cases p with
  | test =>
      simp only [bSend]
      split <;> rfl
  | _ => rfl

theorem type_eSend (w : SendWait) : (eSend toEp w l).2.req.type = l.req.type := by
  cases w <;> simp only [eSend] <;> split <;> rfl

theorem type_eRecv (w : RecvWait) : (eRecv tag toEp imm w l).2.req.type = l.req.type := by
  cases w with
  | fetch p =>
      have hb : (bRecv tag toEp imm p l).2.req.type = l.req.type := type_bRecv p
      simp only [eRecv]
      split <;> rename_i heq <;> rw [heq] at hb <;> exact hb
  | _ =>
      simp only [eRecv]
      split <;> rfl

end

/-- What others do to the worker moves the clock and the barrier forward and posts nothing of
ours. -/
theorem Worker.Moves.view {w w' : Worker Op} (h : Worker.Moves tag w w')
    (hv : ∀ op, v (tag op) = none) (hb : w.barrier ≤ w.clock) :
    (w'.view v).pending = (w.view v).pending ∧ w.clock ≤ w'.clock ∧ w.barrier ≤ w'.barrier := by
  rcases h with rfl | ⟨op, rfl⟩ | rfl
  · exact ⟨rfl, Nat.le_refl _, Nat.le_refl _⟩
  · exact ⟨Worker.view_pending_post (hv op) w, Nat.le_succ _, Nat.le_refl _⟩
  · exact ⟨rfl, Nat.le_refl _, hb⟩

end CompMatch.Rendezvous

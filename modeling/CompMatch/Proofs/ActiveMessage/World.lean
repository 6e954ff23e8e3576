/-
Progressing other requests.

`progress_recv_request` calls `b_recv` for a request that is ready to receive, and the
first thing `b_recv` does is `ucp_worker_progress`.  A handler that runs there for that
very request takes a message and clears the flag, and `b_recv` goes on to set it again,
or takes another message.  As long as that does not happen, progressing other requests
is harmless to every receive request of the process.
-/
import CompMatch.Proofs.ActiveMessage.Process

namespace CompMatch.ActiveMessage

/-- No handler runs for a request inside its own `b_recv` while it is ready to receive. -/
def World.Undisturbed (w : World) : WorldAct → Prop
  | .deliver r _ => (w.proc.reqs r).req.isReadyToRecv = true → ¬ w.proc.inBRecv r
  | _ => True

/-! ### The invariant -/

structure World.Inv (mode : Mode) (w : World) : Prop where
  links : ∀ r, r < w.proc.nextRid → (w.proc.type r).isRecv = true → LinkReach mode (w.link r)
  call : CallOk w.proc
  stack : StackOk w.proc
  list : ∀ r ∈ w.proc.requestList, r < w.proc.nextRid
  handlers : ∀ r ∈ w.proc.handlers, r < w.proc.nextRid ∧ (w.proc.type r).isRecv = true

namespace World

section
variable {mode : Mode} {w w' : World} {r : Rid} {l' : Link} {p : Proc}

theorem inv_init (h : w.Init) : w.Inv mode := by
  refine ⟨fun r hr => ?_, ?_, ?_, ?_, ?_⟩
  · rw [h.nextRid] at hr
    exact absurd hr (Nat.not_lt_zero _)
  · simp [CallOk, h.call]
  · simp [StackOk, h.nested]
  · simp [h.requestList]
  · simp [h.handlers]

/-! ### A step of one link -/

/-- One link changed, and its request kept its type and its program point. -/
theorem setLink_link (hs : w.setLink r (some l') = some w') (hpc : l'.pc = w.proc.recvPc r)
    (ht : l'.recv.req.type = w.proc.type r) :
    (∀ r', w'.proc.type r' = w.proc.type r') ∧ w'.link r = l' ∧
      ∀ r', r' ≠ r → w'.link r' = w.link r' := by
  cases hs
  have htype : ∀ r', (w.proc.setLoc r l'.recv).type r' = w.proc.type r' := by
    intro r'
    by_cases hr : r' = r
    · rw [hr, setLoc_type, ht]
    · simp [Proc.type, Proc.setLoc, hr]
  have hrecvPc : ∀ r', (w.proc.setLoc r l'.recv).recvPc r' = w.proc.recvPc r' :=
    fun r' => recvPc_congr rfl rfl (htype r')
  refine ⟨htype, ?_, fun r' hr => ?_⟩
  · have hrecv : (w.proc.setLoc r l'.recv).reqs r = l'.recv := Function.update_self _ _ _
    have hpeer : Function.update w.peers r l'.peer r = l'.peer := Function.update_self _ _ _
    show Link.mk _ _ _ = l'
    rw [show (setPeer (w.setProc (w.proc.setLoc r l'.recv)) r l'.peer).proc.recvPc r = l'.pc from
      (hrecvPc r).trans hpc.symm]
    exact congrArg₂ (Link.mk l'.pc) hrecv hpeer
  · have hrecv : (w.proc.setLoc r l'.recv).reqs r' = w.proc.reqs r' :=
      Function.update_of_ne hr _ _
    have hpeer : Function.update w.peers r l'.peer r' = w.peers r' := Function.update_of_ne hr _ _
    show Link.mk _ _ _ = Link.mk _ _ _
    rw [show (setPeer (w.setProc (w.proc.setLoc r l'.recv)) r l'.peer).proc.recvPc r' = _ from
      hrecvPc r']
    exact congrArg₂ (Link.mk (w.proc.recvPc r')) hrecv hpeer

/-- A step of one link that does not involve the code of the process. -/
theorem Inv.setLink (h : w.Inv mode) (hs : w.setLink r (some l') = some w')
    (ha : Advances mode (w.link r) l') (hpc : l'.pc = w.proc.recvPc r)
    (ht : l'.recv.req.type = w.proc.type r)
    (hready : ∀ pt below, w.proc.nested = .progressRecv r pt :: below →
      l'.recv.req.isReadyToRecv = (w.proc.reqs r).req.isReadyToRecv) : w'.Inv mode := by
  obtain ⟨htype, hself, hother⟩ := setLink_link hs hpc ht
  cases hs
  refine ⟨fun r' hr hrecv => ?_, ?_, ?_, h.list, fun r' hr => ?_⟩
  · rw [htype] at hrecv
    by_cases he : r' = r
    · subst he
      rw [hself]
      exact (h.links r' hr hrecv).advance ha
    · rw [hother r' he]
      exact h.links r' hr hrecv
  · have hc := h.call
    unfold CallOk at hc ⊢
    simp only [htype]
    exact hc
  · refine h.stack.congr rfl rfl rfl htype (fun r' pt below hn => ?_)
    show (Function.update w.proc.reqs r l'.recv r').req.isReadyToRecv = _
    by_cases he : r' = r
    · subst he
      rw [Function.update_self]
      exact hready _ _ hn
    · rw [Function.update_of_ne he]
  · rw [htype]
    exact h.handlers r' hr

/-! ### What the sender, UCX and the handler do -/

theorem Inv.peer (h : w.Inv mode) {a : PeerAct}
    (hs : w.setLink r ((w.link r).peerStep mode a) = some w') : w'.Inv mode := by
  cases hl : (w.link r).peerStep mode a with
  | none => simp [hl, World.setLink] at hs
  | some l' =>
      rw [hl] at hs
      have hkeep : l'.pc = w.proc.recvPc r ∧ l'.recv = w.proc.reqs r := by
        unfold Link.peerStep at hl
        split at hl <;> cases hl
        exact ⟨rfl, rfl⟩
      exact h.setLink hs (Or.inr ⟨.peer a, trivial, hl⟩) hkeep.1 (by rw [hkeep.2]; rfl)
        (fun _ _ _ => by rw [hkeep.2])

theorem Inv.lands (h : w.Inv mode) {n : Nat}
    (hs : w.setLink r ((w.link r).lands n) = some w') : w'.Inv mode := by
  cases hl : (w.link r).lands n with
  | none => simp [hl, World.setLink] at hs
  | some l' =>
      rw [hl] at hs
      have hadv : Advances mode (w.link r) l' := Or.inr ⟨.lands n, trivial, hl⟩
      unfold Link.lands at hl
      split at hl <;> cases hl
      exact h.setLink hs hadv rfl rfl (fun _ _ _ => rfl)

/-- While handlers may run, a request in `b_recv` is at its `ucp_worker_progress`. -/
theorem Inv.progressing (h : w.Inv mode) (hp : w.proc.progressing = true) {pt : RecvPoint}
    (hpc : w.proc.recvPc r = .start pt) : w.proc.inBRecv r ∧ pt = .progress := by
  have hcall : w.proc.call = .bRecv r pt := by
    cases hc : w.proc.call with
    | bRecv r' pt' =>
        by_cases he : r' = r
        · simp only [Proc.recvPc, Call.recvPc, hc, he, if_true, Option.getD_some,
            RecvPc.start.injEq] at hpc
          rw [he, hpc]
        · simp only [Proc.recvPc, Call.recvPc, hc, he, if_false, Option.getD_none] at hpc
          split at hpc <;> simp at hpc
    | eRecv r' w' =>
        simp only [Proc.recvPc, Call.recvPc, hc] at hpc
        split at hpc
        · simp at hpc
        · rw [Option.getD_none] at hpc
          split at hpc <;> simp at hpc
    | _ =>
        simp only [Proc.recvPc, Call.recvPc, hc, Option.getD_none] at hpc
        split at hpc <;> simp at hpc
  cases hn : w.proc.nested with
  | nil =>
      simp only [Proc.progressing, hn, hcall] at hp
      cases pt with
      | progress => exact ⟨Or.inr ⟨hn, hcall⟩, rfl⟩
      | fetch => simp [Call.progressing] at hp
  | cons f below =>
      have hst := h.stack
      have hw : w.proc.call.waiting = true := by
        unfold StackOk at hst
        rw [hn] at hst
        split at hst
        · rename_i he
          exact absurd he (by simp)
        · exact hst.1
        · exact hst.1
        · exact hst.elim
      rw [hcall] at hw
      simp [Call.waiting] at hw

/-- **A handler runs**, not within a `b_recv` of the request it is for if that is ready. -/
theorem Inv.deliver (h : w.Inv mode) {imm : Bool} (hp : w.proc.progressing = true)
    (hok : (w.proc.reqs r).req.isReadyToRecv = true → ¬ w.proc.inBRecv r)
    (hs : w.setLink r ((w.link r).deliver mode imm) = some w') : w'.Inv mode := by
  cases hl : (w.link r).deliver mode imm with
  | none => simp [hl, World.setLink] at hs
  | some l' =>
      rw [hl] at hs
      have hadv : Advances mode (w.link r) l' := by
        refine Or.inr ⟨.deliver imm, fun hr pt hpc => hok hr (h.progressing hp hpc).1, ?_⟩
        have hmay : Link.mayDeliver false (w.link r).pc = true := by
          simp only [Link.mayDeliver, Bool.false_eq_true, if_false, decide_eq_true_eq]
          intro hpc
          exact absurd (h.progressing hp hpc).2 (by decide)
        simp only [Link.step, hmay, if_true, hl]
      have hready : ∀ pt below, w.proc.nested = .progressRecv r pt :: below →
          l'.recv.req.isReadyToRecv = (w.proc.reqs r).req.isReadyToRecv := by
        intro pt below hn
        have hr : (w.proc.reqs r).req.isReadyToRecv = true := by
          have hst := h.stack
          unfold StackOk at hst
          rw [hn] at hst
          split at hst
          · rename_i he
            exact absurd he (by simp)
          · rename_i he
            exact absurd he (by simp)
          · rename_i he
            cases he
            exact hst.2.2.2.2
          · exact hst.elim
        have hpt : pt = .progress := by
          cases pt with
          | progress => rfl
          | fetch => simp [Proc.progressing, hn] at hp
        exact absurd (Or.inl ⟨below, hpt ▸ hn⟩) (hok hr)
      unfold Link.deliver at hl
      split at hl <;> cases hl
      exact h.setLink hs hadv rfl handler_untouched.type hready

/-! ### What the process does -/

/-- The process moved, every request kept its kind, and every link moved as a link does. -/
theorem Inv.setProc (h : w.Inv mode) (hcall : CallOk p) (hstack : StackOk p)
    (hrid : p.nextRid = w.proc.nextRid) (hlist : ∀ r ∈ p.requestList, r < p.nextRid)
    (hhandlers : ∀ r ∈ p.handlers, r ∈ w.proc.handlers)
    (htype : ∀ r, (p.type r).isRecv = (w.proc.type r).isRecv)
    (hlinks : ∀ r, r < w.proc.nextRid → (w.proc.type r).isRecv = true →
      Advances mode (w.link r) (p.linkTo r (w.peers r))) : (w.setProc p).Inv mode := by
  refine ⟨fun r hr hrecv => ?_, hcall, hstack, hlist, fun r hr => ?_⟩
  · have hr' : r < w.proc.nextRid := hrid ▸ hr
    have hrecv' : (w.proc.type r).isRecv = true := (htype r).symm.trans hrecv
    exact (h.links r hr' hrecv').advance (hlinks r hr' hrecv')
  · obtain ⟨hlt, hrecv⟩ := h.handlers r (hhandlers r hr)
    exact ⟨lt_of_lt_of_eq hlt hrid.symm, (htype r).trans hrecv⟩

/-- One step of the process's code. -/
theorem Inv.run (h : w.Inv mode) {imm flag : Bool} {m : Option MpiCall}
    (hs : w.proc.run mode (w.answer imm flag) = some (p, m)) : (w.setProc p).Inv mode := by
  unfold Proc.run at hs
  split at hs
  · rename_i f below hn
    have hready : ∀ r, r < w.proc.nextRid → w.proc.type r = .recv →
        (w.proc.reqs r).req.isReadyToRecv = true → (w.proc.reqs r).req.listOfPendingMsgs = [] :=
      fun r hr ht => (h.links r hr (by rw [ht]; rfl)).ordered.ready
    obtain ⟨hsame, hst⟩ : SameReqs w.proc
        ((w.proc.setNested below).runFrame mode (w.answer imm flag) f) ∧
        StackOk ((w.proc.setNested below).runFrame mode (w.answer imm flag) f) :=
      runFrame_same h.stack hn hready
    cases hs
    refine h.setProc (hsame.callOk h.call) hst hsame.nextRid ?_ ?_ ?_ ?_
    · rw [hsame.requestList, hsame.nextRid]
      exact h.list
    · rw [hsame.handlers]
      exact fun _ hr => hr
    · intro r
      rw [Proc.type, hsame.reqs]
      rfl
    · exact fun r _ _ => Or.inl (hsame.linkTo _)
  · rename_i hn
    obtain ⟨hrid, hhandlers, hlist, htype⟩ := runCall_keeps hs h.call
    obtain ⟨hcall, hst⟩ := runCall_ok hs h.call hn h.list
    refine h.setProc hcall hst hrid ?_ ?_ htype ?_
    · intro r hr
      rw [hrid]
      rcases hlist r hr with hr | hr
      · exact h.list r hr
      · exact h.call.rid_lt hr
    · rw [hhandlers]
      exact fun _ hr => hr
    · intro r _ hrecv
      by_cases hc : w.proc.call.rid = some r
      · exact runCall_self hs h.call hc hrecv rfl
      · exact Or.inl ((runCall_elsewhere hs hc).linkTo hc _)

theorem stackOk_of_nil {q : Proc} (hn : q.nested = []) : StackOk q := by
  simp [StackOk, hn]

/-- A function is called while the process is in none, and leaves the other requests alone. -/
theorem Free.elsewhere (hf : w.proc.Free) {r' : Rid} (hr : r' ≠ r)
    (hreqs : p.reqs r' = w.proc.reqs r') (hactive : p.active r' = w.proc.active r')
    (hcall : p.call.rid = some r ∨ p.call = .none) :
    p.linkTo r' (w.peers r') = w.link r' := by
  refine Elsewhere.linkTo ⟨hreqs, hactive, ?_⟩ (by rw [hf.1]; simp [Call.rid]) _
  rcases hcall with hc | hc
  · rw [hc]
    exact fun he => hr (Option.some.inj he).symm
  · rw [hc]
    simp [Call.rid]

/-- MPIOPT_Start. -/
theorem Inv.start (h : w.Inv mode) (hf : w.proc.Free) (hr : r ∈ w.proc.requestList)
    (ha : w.proc.active r = false) : (w.setProc (w.proc.start r).1).Inv mode := by
  have hlt := h.list r hr
  have hidle : w.proc.recvPc r = .idle := recvPc_idle (by rw [hf.1]; rfl) (Or.inl ha)
  -- a request that posts an MPI operation
  have post : ∀ b, w.proc.type r ≠ .recv →
      (w.setProc ((({ w.proc with active := Function.update w.proc.active r true } : Proc).assert
        b).postBackup r)).Inv mode := by
    intro b hne
    have htype : ∀ r', (((({ w.proc with active := Function.update w.proc.active r true } :
        Proc).assert b).postBackup r).type r') = w.proc.type r' := by
      intro r'
      by_cases he : r' = r
      · subst he
        exact setLoc_type
      · exact congrArg (·.req.type) (Function.update_of_ne he _ w.proc.reqs)
    refine h.setProc ?_ (stackOk_of_nil hf.2) rfl h.list (fun _ hx => hx)
      (fun r' => by rw [htype]) (fun r' _ _ => ?_)
    · have hc : (((({ w.proc with active := Function.update w.proc.active r true } :
          Proc).assert b).postBackup r).call) = .none := hf.1
      simp [CallOk, hc]
    · by_cases he : r' = r
      · subst he
        refine advances_mpi (f := fun x => { x with backupRequest := some w.proc.nextHandle }) hidle
          (recvPc_idle ?_ (Or.inr ?_)) (Function.update_self _ _ _) (fun _ => rfl)
        · exact congrArg (Call.recvPc · r') hf.1
        · rw [htype]
          exact hne
      · exact Or.inl (Free.elsewhere hf he (Function.update_of_ne he _ _)
          (Function.update_of_ne he _ _) (Or.inr hf.1))
  -- a request that goes on to `b_send` or `b_recv`
  have begin : ∀ c : Call, c.rid = some r →
      (∀ p : Proc, p.call = c → p.nextRid = w.proc.nextRid → p.active r = true →
        p.type r = w.proc.type r → CallOk p) →
      (w.proc.type r ≠ .recv ∨ c = .bRecv r .progress) →
      ((w.proc.type r).isRecv = true → w.proc.type r = .recv) →
      (w.setProc ((({ w.proc with active := Function.update w.proc.active r true } : Proc).setLoc r
        (w.proc.reqs r).countStart).setCall c)).Inv mode := by
    intro c hc hok hcall hrecv
    have htype : ∀ r', (((({ w.proc with active := Function.update w.proc.active r true } :
        Proc).setLoc r (w.proc.reqs r).countStart).setCall c).type r') = w.proc.type r' := by
      intro r'
      by_cases he : r' = r
      · subst he
        exact setLoc_type
      · exact congrArg (·.req.type) (Function.update_of_ne he _ w.proc.reqs)
    refine h.setProc (hok _ rfl rfl (Function.update_self _ _ _) (htype r)) (stackOk_of_nil hf.2) rfl
      h.list (fun _ hx => hx) (fun r' => by rw [htype]) (fun r' _ hrecv' => ?_)
    by_cases he : r' = r
    · subst he
      have ht := hrecv hrecv'
      rcases hcall with hne | rfl
      · exact absurd ht hne
      · refine Or.inr ⟨.start, trivial, ?_⟩
        simp only [Link.step, World.link, Proc.linkTo, hidle]
        rw [if_pos ⟨trivial, ht⟩]
        simp [Proc.recvPc, Proc.setCall, Proc.setLoc, Call.recvPc]
    · exact Or.inl (Free.elsewhere hf he (Function.update_of_ne he _ _)
        (Function.update_of_ne he _ _) (Or.inl hc))
  unfold Proc.start
  cases ht : w.proc.type r with
  | send =>
      refine begin _ rfl (fun p hc hn _ htype => ?_) (Or.inl (by rw [ht]; decide))
        (fun he => by rw [ht] at he; exact absurd he (by decide))
      simp only [CallOk, hc]
      exact ⟨hn ▸ hlt, htype.trans ht⟩
  | recv =>
      refine begin _ rfl (fun p hc hn hact htype => ?_) (Or.inr rfl) (fun _ => ht)
      simp only [CallOk, hc]
      exact ⟨hn ▸ hlt, htype.trans ht, hact⟩
  | sendSearch | sendFallback | recvFallback => exact post _ (by rw [ht]; decide)
  | recvSearch =>
      have hpost := post true (by rw [ht]; decide)
      simp only [Proc.assert, Bool.not_true, Bool.or_false] at hpost
      exact hpost

/-- MPIOPT_Wait. -/
theorem Inv.wait (h : w.Inv mode) (hf : w.proc.Free) (hr : r ∈ w.proc.requestList)
    (ha : w.proc.active r = true) : (w.setProc (w.proc.wait mode r)).Inv mode := by
  have hlt := h.list r hr
  have hsame : ∃ c : Call, w.proc.wait mode r = w.proc.setCall c ∧ c.rid = some r ∧
      (w.proc.type r = .recv → c = .eRecv r (eRecvEntry mode)) ∧
      (w.proc.type r ≠ .recv → c.recvPc r = Option.none) ∧ CallOk (w.proc.setCall c) := by
    unfold Proc.wait
    cases ht : w.proc.type r with
    | send | sendSearch | recv | recvSearch =>
        exact ⟨_, rfl, rfl, by simp, by simp [Call.recvPc], hlt, ht⟩
    | sendFallback => exact ⟨_, rfl, rfl, by simp, by simp [Call.recvPc], hlt, Or.inl ht⟩
    | recvFallback => exact ⟨_, rfl, rfl, by simp, by simp [Call.recvPc], hlt, Or.inr ht⟩
  obtain ⟨c, hw, hrid, hrecv, hother, hok⟩ := hsame
  rw [hw]
  refine h.setProc hok (stackOk_of_nil hf.2) rfl h.list (fun _ hx => hx) (fun _ => rfl)
    (fun r' _ _ => ?_)
  by_cases he : r' = r
  · subst he
    by_cases ht : w.proc.type r' = .recv
    · have hpc : w.proc.recvPc r' = .started := by
        simp [Proc.recvPc, hf.1, Call.recvPc, ha, ht]
      refine Or.inr ⟨.wait, trivial, ?_⟩
      simp only [Link.step, World.link, Proc.linkTo, hpc]
      rw [if_pos ⟨trivial, ht⟩, hrecv ht]
      simp [Proc.recvPc, Proc.setCall, Call.recvPc]
    · refine Or.inl ?_
      have hpc : (w.proc.setCall c).recvPc r' = w.proc.recvPc r' :=
        recvPc_congr ((hother ht).trans (by rw [hf.1]; rfl)) rfl rfl
      rw [Proc.linkTo, hpc]
      rfl
  · exact Or.inl (Free.elsewhere hf he rfl rfl (Or.inl hrid))

/-- MPIOPT_Request_free. -/
theorem Inv.free (h : w.Inv mode) : (w.setProc (w.proc.free r)).Inv mode := by
  refine h.setProc h.call h.stack rfl (fun x hx => h.list x (List.mem_of_mem_erase hx))
    (fun x hx => ?_) (fun _ => rfl) (fun _ _ _ => Or.inl rfl)
  simp only [Proc.free] at hx
  split at hx
  · exact List.mem_of_mem_erase hx
  · exact hx

/-- MPIOPT_Send_init. -/
theorem Inv.sendInit (h : w.Inv mode) (hf : w.proc.Free) {args : InitArgs} :
    (w.setProc (w.proc.sendInit args).1).Inv mode := by
  have hother : ∀ r, r < w.proc.nextRid →
      (w.proc.sendInit args).1.linkTo r (w.peers r) = w.link r := by
    intro r hr
    exact Free.elsewhere hf (Nat.ne_of_lt hr) (Function.update_of_ne (Nat.ne_of_lt hr) _ _)
      (Function.update_of_ne (Nat.ne_of_lt hr) _ _) (Or.inr hf.1)
  have htype : ∀ r, r < w.proc.nextRid →
      ((w.proc.sendInit args).1.type r) = w.proc.type r := by
    intro r hr
    exact congrArg (·.req.type) (Function.update_of_ne (Nat.ne_of_lt hr) _ w.proc.reqs)
  refine ⟨fun r hr hrecv => ?_, ?_, stackOk_of_nil hf.2, fun r hr => ?_, fun r hr => ?_⟩
  · rcases Nat.lt_succ_iff_lt_or_eq.mp hr with hr | rfl
    · have hrecv' : (w.proc.type r).isRecv = true := by
        rw [← htype r hr]
        exact hrecv
      rw [show (w.setProc (w.proc.sendInit args).1).link r = w.link r from hother r hr]
      exact h.links r hr hrecv'
    · have hnew : (w.proc.sendInit args).1.type w.proc.nextRid = .sendSearch := setLoc_type
      rw [show (w.setProc (w.proc.sendInit args).1).proc.type w.proc.nextRid = _ from hnew] at hrecv
      exact absurd hrecv (by decide)
  · have hc : (w.setProc (w.proc.sendInit args).1).proc.call = .none := hf.1
    simp [CallOk, hc]
  · rcases List.mem_cons.mp hr with rfl | hr
    · exact Nat.lt_succ_self _
    · exact Nat.lt_succ_of_lt (h.list r hr)
  · obtain ⟨hlt, hrecv⟩ := h.handlers r hr
    exact ⟨Nat.lt_succ_of_lt hlt, (congrArg _ (htype r hlt)).trans hrecv⟩

/-- MPIOPT_Recv_init. -/
theorem Inv.recvInit (h : w.Inv mode) (hf : w.proc.Free) {args : InitArgs} {bytes : List UInt8}
    (hb : bytes.length = args.buf.length) :
    ((w.setProc (w.proc.recvInit args)).setPeer w.proc.nextRid
      (.connected args w.proc.amTag bytes)).Inv mode := by
  have hother : ∀ r, r < w.proc.nextRid →
      (w.proc.recvInit args).linkTo r (w.peers r) = w.link r := by
    intro r hr
    exact Free.elsewhere hf (Nat.ne_of_lt hr) (Function.update_of_ne (Nat.ne_of_lt hr) _ _)
      (Function.update_of_ne (Nat.ne_of_lt hr) _ _) (Or.inl rfl)
  have htype : ∀ r, r < w.proc.nextRid → ((w.proc.recvInit args).type r) = w.proc.type r := by
    intro r hr
    exact congrArg (·.req.type) (Function.update_of_ne (Nat.ne_of_lt hr) _ w.proc.reqs)
  have hnew : (w.proc.recvInit args).type w.proc.nextRid = .recvSearch := setLoc_type
  refine ⟨fun r hr hrecv => ?_, ?_, stackOk_of_nil hf.2, fun r hr => ?_, fun r hr => ?_⟩
  · rcases Nat.lt_succ_iff_lt_or_eq.mp hr with hr | rfl
    · have hrecv' : (w.proc.type r).isRecv = true := by
        rw [← htype r hr]
        exact hrecv
      have hpeer : Function.update w.peers w.proc.nextRid
          (.connected args w.proc.amTag bytes) r = w.peers r :=
        Function.update_of_ne (Nat.ne_of_lt hr) _ _
      have hlink : ((w.setProc (w.proc.recvInit args)).setPeer w.proc.nextRid
          (.connected args w.proc.amTag bytes)).link r = w.link r :=
        (congrArg ((w.proc.recvInit args).linkTo r) hpeer).trans (hother r hr)
      rw [hlink]
      exact h.links r hr hrecv'
    · have hpeer : Function.update w.peers w.proc.nextRid
          (.connected args w.proc.amTag bytes) w.proc.nextRid =
            .connected args w.proc.amTag bytes := Function.update_self _ _ _
      have hreq : (w.proc.recvInit args).reqs w.proc.nextRid = _ := Function.update_self _ _ _
      have hidle : (w.proc.recvInit args).recvPc w.proc.nextRid = .idle :=
        recvPc_idle rfl (Or.inl (Function.update_self _ _ _))
      refine .init ?_
      have hlink : ((w.setProc (w.proc.recvInit args)).setPeer w.proc.nextRid
          (.connected args w.proc.amTag bytes)).link w.proc.nextRid =
          (w.proc.recvInit args).linkTo w.proc.nextRid (.connected args w.proc.amTag bytes) :=
        congrArg ((w.proc.recvInit args).linkTo w.proc.nextRid) hpeer
      rw [hlink, Proc.linkTo, hidle, hreq]
      exact ⟨rfl, rfl, rfl, hb, ⟨rfl, rfl, rfl, rfl, rfl, rfl, rfl, rfl, rfl, rfl⟩,
        ⟨rfl, rfl, rfl, rfl, rfl, rfl, rfl, rfl, rfl, rfl⟩, rfl⟩
  · exact ⟨Nat.lt_succ_self _, hnew⟩
  · exact Nat.lt_succ_of_lt (h.list r hr)
  · rcases List.mem_cons.mp hr with rfl | hr
    · exact ⟨Nat.lt_succ_self _, congrArg RequestType.isRecv hnew⟩
    · obtain ⟨hlt, hrecv⟩ := h.handlers r hr
      exact ⟨Nat.lt_succ_of_lt hlt, (congrArg _ (htype r hlt)).trans hrecv⟩

/-- The user, or MPI, writes to a buffer no active message is received into. -/
theorem Inv.write (h : w.Inv mode) {bytes : List UInt8} (hpc : w.proc.recvPc r = .idle)
    (hb : bytes.length = (w.proc.reqs r).req.size) :
    (w.setProc (w.proc.setLoc r ((w.proc.reqs r).setBuf bytes))).Inv mode := by
  have hs : (w.link r).step mode false (.write bytes) =
      some { w.link r with recv := (w.proc.reqs r).setBuf bytes } := by
    simp only [Link.step, World.link, hpc]
    rw [if_pos ⟨trivial, hb⟩]
  have hset : w.setLink r (some { w.link r with recv := (w.proc.reqs r).setBuf bytes }) =
      some (w.setProc (w.proc.setLoc r ((w.proc.reqs r).setBuf bytes))) := by
    simp [World.setLink, World.setPeer, World.link, World.setProc]
  exact h.setLink hset (Or.inr ⟨.write bytes, trivial, hs⟩) rfl rfl (fun _ _ _ => rfl)

/-- **One step keeps the invariant.** -/
theorem Inv.step (h : w.Inv mode) {a : WorldAct} (hok : w.Undisturbed a)
    (hs : w.step mode a = some w') : w'.Inv mode := by
  cases a with
  | sendInit args =>
      simp only [World.step] at hs
      split at hs <;> cases hs
      exact h.sendInit (by assumption)
  | recvInit args bytes =>
      simp only [World.step] at hs
      split at hs <;> cases hs
      rename_i hc
      exact h.recvInit hc.1 hc.2
  | start r =>
      simp only [World.step] at hs
      split at hs <;> cases hs
      rename_i hc
      exact h.start hc.1 hc.2.1 hc.2.2
  | wait r =>
      simp only [World.step] at hs
      split at hs <;> cases hs
      rename_i hc
      exact h.wait hc.1 hc.2.1 hc.2.2
  | free r =>
      simp only [World.step] at hs
      split at hs <;> cases hs
      exact h.free
  | run imm flag =>
      simp only [World.step] at hs
      split at hs <;> cases hs
      rename_i hrun
      exact h.run hrun
  | write r bytes =>
      simp only [World.step] at hs
      split at hs <;> cases hs
      rename_i hc
      exact h.write hc.1 hc.2.2
  | lands r n =>
      simp only [World.step] at hs
      split at hs
      · exact h.lands hs
      · simp at hs
  | deliver r imm =>
      simp only [World.step] at hs
      split at hs
      · rename_i hc
        exact h.deliver hc.1 hok hs
      · simp at hs
  | peer r a =>
      simp only [World.step] at hs
      split at hs
      · exact h.peer hs
      · simp at hs

/-! ### What follows for every receive request -/

/-- The invariant about the Waits holds until one of them returns early. -/
theorem settled_of_reach {l : Link} (h : LinkReach mode l)
    (hready : ∀ x ∈ l.recv.returned, x.ready = false) : Settled l := by
  have hboth := h.invariant
    (I := fun l => Ordered mode l ∧ ((∀ x ∈ l.recv.returned, x.ready = false) → Settled l))
    (fun _ h0 => ⟨ordered_init h0, fun _ => settled_init h0⟩)
    fun l l' a hl hok hs => ⟨hl.1.step hok hs, fun hr => ?_⟩
  · exact hboth.2 hready
  · obtain ⟨xs, hxs, -⟩ := step_returned hs
    refine (hl.2 fun x hx => hr x ?_).step hl.1 hs hr
    rw [hxs]
    exact List.mem_append_left _ hx

theorem harmless_of_reach {l : Link} (h : LinkReach mode l) : l.Harmless mode := by
  have ho := h.ordered
  refine ⟨fun x hx he => ?_, ho.messages.taken, ho.history.timely, ho.history.once,
    ho.messages.stream, fun hready x hx => ?_, ho.returned⟩
  · cases hr : l.recv.req.isReadyToRecv with
    | false => rfl
    | true =>
        have hlt := (ho.fresh (Or.inl hr)).2 x hx
        omega
  · obtain ⟨-, ha, hu, hb, -⟩ := (settled_of_reach h hready).returned x hx
    exact ⟨ha, hu, hb⟩

/--
**Progressing other requests is harmless** to every receive request, in every run in
which no handler runs for a request inside its own `b_recv` while it is ready to receive.
-/
theorem progress_harmless (h : Reach (World.step mode) World.Undisturbed World.Init w) :
    w.Harmless mode := by
  intro r hr hrecv
  have hinv := h.invariant (I := Inv mode) (fun _ h0 => inv_init h0) fun _ _ _ hi hok hs =>
    hi.step hok hs
  exact harmless_of_reach (hinv.links r hr hrecv)

end

/-! ### Two runs -/

/-- A process with no requests. -/
def freshProc : Proc where
  reqs := fun _ => Proc.blankRequest .recvSearch ⟨[], 0, 0⟩
  requestList := []
  handlers := []
  nextRid := 0
  nextHandle := 1
  amTag := 1
  active := fun _ => false
  call := .none
  nested := []
  failed := false

def freshWorld : World := ⟨freshProc, fun _ => .connected ⟨[], 0, 0⟩ 0 []⟩

theorem freshWorld_init : Init freshWorld := ⟨rfl, rfl, rfl, rfl, rfl⟩

/-- `n` steps of the process. -/
def runs (n : Nat) (flag : Bool) : List WorldAct := List.replicate n (.run false flag)

/-- A receive request 0 and a send request 1, both connected. -/
def connectRun : List WorldAct :=
  [.recvInit ⟨[0], 1, 0⟩ [7]] ++ runs 1 false ++ [.sendInit ⟨[5], 2, 0⟩, .start 0, .start 1, .wait 0] ++
    runs 2 true ++ [.wait 1] ++ runs 2 true

/-- Request 0 awaits its message, and the process waits for request 1. -/
def waitingRun : List WorldAct :=
  connectRun ++ [.start 0] ++ runs 2 false ++ [.start 1] ++ runs 2 false ++
    [.peer 0 .start, .peer 0 (.run ⟨false, false⟩), .wait 1] ++ runs 1 false

/-- The message comes while `e_send` is in `ucp_worker_progress`. -/
def undisturbedRun : List WorldAct :=
  waitingRun ++ [.deliver 0 false] ++ runs 6 true ++ [.lands 0 1, .wait 0] ++ runs 7 false

/-- The message comes while `progress_recv_request` is in the `ucp_worker_progress` of `b_recv`. -/
def disturbedRun : List WorldAct :=
  waitingRun ++ runs 4 false ++ [.deliver 0 false] ++ runs 2 false

def undisturbed (w : World) : WorldAct → Bool
  | .deliver r _ =>
      !(w.proc.reqs r).req.isReadyToRecv ||
        match w.proc.nested with
        | .progressRecv r' .progress :: _ => decide (r' ≠ r)
        | _ :: _ => true
        | [] => decide (w.proc.call ≠ .bRecv r .progress)
  | _ => true

theorem undisturbed_sound (w : World) (a : WorldAct) (h : undisturbed w a = true) :
    w.Undisturbed a := by
  cases a with
  | deliver r imm =>
      rintro hr (⟨below, hn⟩ | ⟨hn, hc⟩)
      · simp [undisturbed, hr, hn] at h
      · simp [undisturbed, hr, hn, hc] at h
  | _ => trivial

theorem undisturbedRun_harmless :
    match runFrom (guarded undisturbed (World.step .rendezvous)) freshWorld undisturbedRun with
    | some w => w.Harmless .rendezvous ∧ (w.proc.reqs 0).taken = [(1, 1)] ∧
        (w.proc.reqs 0).returned = [⟨1, [7], false, 1, []⟩]
    | none => False := by
  have hrun : (runFrom (guarded undisturbed (World.step .rendezvous)) freshWorld undisturbedRun).any
      (fun w => decide ((w.proc.reqs 0).taken = [(1, 1)] ∧
        (w.proc.reqs 0).returned = [⟨1, [7], false, 1, []⟩])) = true := by
    decide +kernel
  cases h : runFrom (guarded undisturbed (World.step .rendezvous)) freshWorld undisturbedRun with
  | none => simp [h] at hrun
  | some w =>
      simp only [h, Option.any_some, decide_eq_true_eq] at hrun
      exact ⟨progress_harmless (.of_guarded undisturbed_sound _ (.init freshWorld_init) h), hrun⟩

/-- The message of the operation was taken, and the request is ready for the next one. -/
structure Harmed (mode : Mode) (w : World) : Prop where
  reach : Reach (World.step mode) anyStep Init w
  harm : ¬ w.Harmless mode
  taken : (w.proc.reqs 0).taken = [(1, 1)]
  starts : (w.proc.reqs 0).starts = 1
  ready : (w.proc.reqs 0).req.isReadyToRecv = true

theorem harmed_of_disturbedRun (mode : Mode) :
    ∃ w, runFrom (World.step mode) freshWorld disturbedRun = some w ∧ w.Harmed mode := by
  have hrun : (runFrom (World.step mode) freshWorld disturbedRun).any
      (fun w => decide (0 < w.proc.nextRid ∧ (w.proc.type 0).isRecv = true ∧
        (w.proc.reqs 0).taken = [(1, 1)] ∧ (w.proc.reqs 0).starts = 1 ∧
        (w.proc.reqs 0).req.isReadyToRecv = true)) = true := by
    cases mode <;> decide
  cases h : runFrom (World.step mode) freshWorld disturbedRun with
  | none => simp [h] at hrun
  | some w =>
      simp only [h, Option.any_some, decide_eq_true_eq] at hrun
      obtain ⟨hlt, htype, htaken, hstarts, hready⟩ := hrun
      refine ⟨w, rfl, .of_runFrom _ (.init freshWorld_init) h, fun hh => ?_, htaken, hstarts, hready⟩
      have hmem : ((1, 1) : Nat × Nat) ∈ (w.proc.reqs 0).taken := by
        rw [htaken]
        exact List.mem_singleton_self _
      have hfalse : (w.proc.reqs 0).req.isReadyToRecv = false :=
        (hh 0 hlt htype).ready _ hmem hstarts.symm
      exact Bool.noConfusion (hready.symm.trans hfalse)

theorem disturbedRun_harmful :
    (∃ w, runFrom (World.step .eager) freshWorld disturbedRun = some w ∧ w.Harmed .eager) ∧
      ∃ w, runFrom (World.step .rendezvous) freshWorld disturbedRun = some w ∧
        w.Harmed .rendezvous :=
  ⟨harmed_of_disturbedRun .eager, harmed_of_disturbedRun .rendezvous⟩

end World

end CompMatch.ActiveMessage

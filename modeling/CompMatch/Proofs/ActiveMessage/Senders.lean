/-
What a process does to one of its send requests.

A step of a process starts one of them, moves it through `b_send` or `e_send`, waits for
it, or leaves it where it is.  A sender of `Link.lean` that is where the process is with
the request can take the same step, and hands the same message to UCX.
-/
import CompMatch.Proofs.ActiveMessage.Network

namespace CompMatch.ActiveMessage

/-- What `b_send` and `e_send` use of a request is the same. -/
structure Alike (l l' : Local) : Prop where
  buf : l'.req.buf = l.req.buf
  size : l'.req.size = l.req.size
  transfer : l'.req.ucxRequestDataTransfer = l.req.ucxRequestDataTransfer
  starts : l'.starts = l.starts

/-- Where `b_send` leaves a process with the request. -/
def Outcome.afterSend : Outcome SendPoint → SendPc
  | .goto pt => .start pt
  | _ => .started

/-- Where `e_send` does. -/
def Outcome.afterWait : Outcome SendWait → SendPc
  | .goto w | .progressOther w => .wait w
  | .ret => .idle

/-- The message that a step hands to UCX. -/
def ProcAct.emits (mode : Mode) (p : Proc) : ProcAct → Option (Rid × AmMsg)
  | .run ans => p.emits mode ans.imm
  | _ => none

/-- It is a message of this request. -/
def sentFor (s : Rid) : Option (Rid × AmMsg) → Option AmMsg
  | some (s', msg) => if s' = s then some msg else none
  | none => none

/-- What a step of a process does to send request `s`. -/
inductive SendStep (mode : Mode) (s : Rid) (p p' : Proc) : ProcAct → Option AmMsg → Prop
  | rests {a : ProcAct} (hr : Alike (p.reqs s) (p'.reqs s)) (hpc : p'.sendPc s = p.sendPc s)
      (ha : p'.active s = p.active s ∨ p'.sendPc s = .idle) : SendStep mode s p p' a none
  | starts (ht : p.type s = .send) (hpc : p.sendPc s = .idle) (hr : p'.reqs s = (p.reqs s).countStart)
      (hpc' : p'.sendPc s = .start .post) (ha : p'.active s = true) : SendStep mode s p p' (.start s) none
  | waits (ht : p.type s = .send) (hpc : p.sendPc s = .started) (hr : p'.reqs s = p.reqs s)
      (hpc' : p'.sendPc s = .wait .test) : SendStep mode s p p' (.wait s) none
  | sends {ans : Answer} {pt : SendPoint} (ht : p.type s = .send) (hn : p.nested = [])
      (hc : p.call = .bSend s pt) (hr : p'.reqs s = (bSend mode ans.imm pt (p.reqs s)).2.1)
      (hpc' : p'.sendPc s = (bSend mode ans.imm pt (p.reqs s)).1.afterSend)
      (ha : p'.active s = p.active s) :
      SendStep mode s p p' (.run ans) (bSend mode ans.imm pt (p.reqs s)).2.2
  | completes {ans : Answer} {w : SendWait} (ht : p.type s = .send) (hn : p.nested = [])
      (hc : p.call = .eSend s w) (hr : p'.reqs s = (eSend ans.flag w (p.reqs s)).2)
      (hpc' : p'.sendPc s = (eSend ans.flag w (p.reqs s)).1.afterWait)
      (ho : ∀ r, r ≠ s → p'.reqs r = p.reqs r) : SendStep mode s p p' (.run ans) none

/-- What is true of a send request of a process. -/
structure SendOk (p : Proc) (s : Rid) : Prop where
  /-- A request that is not connected has not sent anything over active messages. -/
  quiet : p.type s ≠ .send → (p.reqs s).starts = 0 ∧ (p.reqs s).req.ucxRequestDataTransfer = none
  full : (p.reqs s).req.buf.length = (p.reqs s).req.size
  active : ∀ pt, p.sendPc s = .start pt → p.active s = true

theorem Alike.refl {l : Local} : Alike l l := ⟨rfl, rfl, rfl, rfl⟩

theorem Alike.symm {l l' : Local} (h : Alike l l') : Alike l' l :=
  ⟨h.buf.symm, h.size.symm, h.transfer.symm, h.starts.symm⟩

theorem Alike.trans {l l' l'' : Local} (h : Alike l l') (h' : Alike l' l'') : Alike l l'' :=
  ⟨h'.buf.trans h.buf, h'.size.trans h.size, h'.transfer.trans h.transfer, h'.starts.trans h.starts⟩

section
variable {mode : Mode} {p p' : Proc} {ans : Answer} {s r : Rid} {c : Call} {m : Option MpiCall}

theorem Call.sendPc_of_rid (h : c.rid ≠ some s) : c.sendPc s = Option.none := by
  cases c with
  | bSend s' pt | eSend s' w =>
      have hne : s' ≠ s := fun he => h (congrArg some he)
      simp [Call.sendPc, hne]
  | _ => rfl

theorem sendPc_congr (hc : p'.call.sendPc s = p.call.sendPc s) (ha : p'.active s = p.active s)
    (ht : p'.type s = p.type s) : p'.sendPc s = p.sendPc s := by
  unfold Proc.sendPc
  rw [hc, ha, ht]

/-- A request that is not connected, or not started, is idle. -/
theorem sendPc_idle (hc : p.call.sendPc s = none) (h : p.active s = false ∨ p.type s ≠ .send) :
    p.sendPc s = .idle := by
  unfold Proc.sendPc
  rw [hc, Option.getD_none, if_neg]
  rintro ⟨ha, ht⟩
  rcases h with h | h
  · exact Bool.noConfusion (ha.symm.trans h)
  · exact h ht

theorem sendPc_started (hc : p.call.sendPc s = none) (ha : p.active s = true) (ht : p.type s = .send) :
    p.sendPc s = .started := by
  unfold Proc.sendPc
  rw [hc, Option.getD_none, if_pos ⟨ha, ht⟩]

/-! ### The step of a process -/

/-- A step that is not about the request. -/
theorem SendStep.elsewhere {a : ProcAct} (hr : p'.reqs s = p.reqs s) (ha : p'.active s = p.active s)
    (hc : p'.call.sendPc s = p.call.sendPc s) : SendStep mode s p p' a none :=
  .rests (hr ▸ .refl) (sendPc_congr hc ha (by rw [Proc.type, Proc.type, hr])) (Or.inl ha)

/-- MPI changes what it uses of an idle request. -/
theorem SendStep.mpi {a : ProcAct} (hpc : p.sendPc s = .idle) (hpc' : p'.sendPc s = .idle)
    {f : MpioptRequest → MpioptRequest} (hr : p'.reqs s = { p.reqs s with req := f (p.reqs s).req })
    (hf : ∀ x, f x = { x with
      type := (f x).type, backupRequest := (f x).backupRequest
      rdmaExchangeRequest := (f x).rdmaExchangeRequest }) : SendStep mode s p p' a none := by
  refine .rests ?_ (hpc'.trans hpc.symm) (Or.inr hpc')
  rw [hr, hf]
  exact ⟨rfl, rfl, rfl, rfl⟩

theorem runCall_send (hok : CallOk p) (hn : p.nested = []) (hc : p.call.rid = some s)
    (ht : (p.type s).isRecv = false) (hact : ∀ pt, p.sendPc s = .start pt → p.active s = true)
    (h : p.runCall mode ans p.call = some (p', m)) :
    SendStep mode s p p' (.run ans) (sentFor s (p.emits mode ans.imm)) := by
  have helse : ∀ r, r ≠ s → p'.reqs r = p.reqs r := by
    intro r hr
    exact (runCall_elsewhere h (by rw [hc]; exact fun he => hr (Option.some.inj he).symm)).reqs
  unfold CallOk at hok
  cases hcall : p.call with
  | none => simp [hcall, Call.rid] at hc
  | init r | eRecv r w | waitRecv r pt =>
      rw [hcall] at hok hc
      obtain rfl : r = s := Option.some.inj hc
      rw [hok.2] at ht
      exact absurd ht (by decide)
  | bRecv r pt =>
      rw [hcall] at hok hc
      obtain rfl : r = s := Option.some.inj hc
      rw [hok.2.1] at ht
      exact absurd ht (by decide)
  | bSend r pt =>
      rw [hcall] at hok hc h
      obtain rfl : r = s := Option.some.inj hc
      have hpc : p.sendPc r = .start pt := by simp [Proc.sendPc, hcall, Call.sendPc]
      have hm : sentFor r (p.emits mode ans.imm) = (bSend mode ans.imm pt (p.reqs r)).2.2 := by
        simp only [Proc.emits, hn, hcall]
        cases (bSend mode ans.imm pt (p.reqs r)).2.2 <;> simp [sentFor]
      rw [hm]
      have ha : p.active r = true := hact pt hpc
      cases pt with
      | post =>
          cases h
          exact .sends hok.2 hn hcall (Function.update_self _ _ _)
            (by simp [Proc.sendPc, Proc.setCall, Call.sendPc, bSend, Outcome.afterSend]) rfl
      | progress =>
          cases h
          refine .sends hok.2 hn hcall (Function.update_self _ _ _) ?_ rfl
          exact sendPc_started rfl ha (setLoc_type.trans hok.2)
  | eSend r w =>
      rw [hcall] at hok hc h
      obtain rfl : r = s := Option.some.inj hc
      have hm : p.emits mode ans.imm = none := by simp [Proc.emits, hn, hcall]
      rw [hm]
      cases heq : eSend ans.flag w (p.reqs r) with
      | mk o l =>
          simp only [Proc.runCall, heq] at h
          refine .completes (w := w) hok.2 hn hcall ?_ ?_ helse <;> rw [heq] <;> cases o <;> cases h
          · exact Function.update_self _ _ _
          · exact Function.update_self _ _ _
          · exact Function.update_self _ _ _
          · simp [Proc.sendPc, Proc.setCall, Call.sendPc, Outcome.afterWait]
          · simp [Proc.sendPc, Proc.setCall, Proc.progressOther, Proc.push, Call.sendPc, Outcome.afterWait]
          · simp [Proc.sendPc, Proc.finish, Call.sendPc, Outcome.afterWait]
  | waitSend r pt =>
      rw [hcall] at hok hc h
      obtain rfl : r = s := Option.some.inj hc
      have hne : p.type r ≠ .send := by
        rw [hok.2]
        decide
      have hpc : p.sendPc r = .idle := sendPc_idle (by rw [hcall]; rfl) (Or.inr hne)
      have hm : p.emits mode ans.imm = none := by simp [Proc.emits, hn, hcall]
      rw [hm]
      cases pt with
      | backup =>
          simp only [Proc.runCall] at h
          split at h <;> cases h
          · refine .mpi (f := fun x => { x with backupRequest := none }) hpc
              (sendPc_idle rfl (Or.inr ?_)) (Function.update_self _ _ _) (fun _ => rfl)
            simpa [Proc.type, Proc.setCall, Proc.setReq, Proc.setLoc] using hne
          · exact .elsewhere rfl rfl rfl
      | exchange =>
          simp only [Proc.runCall, Option.some.injEq, Prod.mk.injEq] at h
          obtain ⟨rfl, -⟩ := h
          refine .mpi (f := fun x =>
              if p.exchangeDone ans r then { x with type := .send, rdmaExchangeRequest := none }
              else { x with type := .sendFallback }) hpc
            (sendPc_idle rfl (Or.inl (Function.update_self _ _ _))) (Function.update_self _ _ _) ?_
          intro x
          split <;> rfl
  | mpiWait r =>
      rw [hcall] at hok hc h
      obtain rfl : r = s := Option.some.inj hc
      have hne : p.type r ≠ .send := by
        rcases hok.2 with he | he <;> rw [he] <;> decide
      have hpc : p.sendPc r = .idle := sendPc_idle (by rw [hcall]; rfl) (Or.inr hne)
      have hm : p.emits mode ans.imm = none := by simp [Proc.emits, hn, hcall]
      rw [hm]
      simp only [Proc.runCall] at h
      split at h <;> cases h
      · exact .mpi (f := fun x => { x with backupRequest := none }) hpc
          (sendPc_idle rfl (Or.inl (Function.update_self _ _ _))) (Function.update_self _ _ _)
          (fun _ => rfl)
      · exact .elsewhere rfl rfl rfl

/-- A function is called for another request. -/
theorem sendPc_of_other (hc : c.rid = some r) (hr : s ≠ r) : c.sendPc s = Option.none := by
  refine Call.sendPc_of_rid ?_
  rw [hc]
  exact fun he => hr (Option.some.inj he).symm

/-- The stack is about receive requests. -/
theorem StackOk.recv (h : StackOk p) {f : Frame} {below : List Frame} (hn : p.nested = f :: below)
    {pt : RecvPoint} (hf : f = .progressRecv r pt) : r < p.nextRid ∧ p.type r = .recv := by
  unfold StackOk at h
  rw [hn, hf] at h
  split at h
  · rename_i he
    cases he
  · rename_i he
    cases he
  · rename_i he
    cases he
    exact ⟨h.2.2.1, h.2.2.2.1⟩
  · exact h.elim

theorem runFrame_send (hstack : StackOk p) {f : Frame} {below : List Frame} (hn : p.nested = f :: below)
    (ht : (p.type s).isRecv = false) : ((p.setNested below).runFrame mode ans f).reqs s = p.reqs s := by
  cases f with
  | progressOther current rest =>
      cases rest with
      | nil => rfl
      | cons r rest =>
          simp only [Proc.runFrame]
          split
          · rfl
          · unfold Proc.progressRequest
            split
            · split <;> rfl
            all_goals rfl
  | progressRecv r pt =>
      have hne : s ≠ r := by
        rintro rfl
        rw [(hstack.recv hn rfl).2] at ht
        exact absurd ht (by decide)
      simp only [Proc.runFrame]
      split <;> exact Function.update_of_ne hne _ _

theorem start_send (hf : p.Free) (ha : p.active r = false) (ht : (p.type s).isRecv = false) :
    SendStep mode s p (p.start r).1 (.start r) none := by
  have hcall : ∀ {p' : Proc}, p'.call = p.call → p'.call.sendPc s = p.call.sendPc s := by
    rintro p' hc
    rw [hc]
  have hnone : p.call.sendPc s = none := by rw [hf.1]; rfl
  by_cases hr : s = r
  · subst hr
    have hidle : p.sendPc s = .idle := sendPc_idle hnone (Or.inl ha)
    cases htype : p.type s <;> simp only [Proc.start, htype]
    case send =>
      exact .starts htype hidle (Function.update_self _ _ _)
        (by simp [Proc.sendPc, Proc.setCall, Call.sendPc]) (Function.update_self _ _ _)
    case recv | recvSearch | recvFallback =>
      rw [htype] at ht
      exact absurd ht (by decide)
    all_goals
      refine .mpi (f := fun x => { x with backupRequest := some p.nextHandle }) hidle
        (sendPc_idle ((hcall rfl).trans hnone) (Or.inr ?_)) (Function.update_self _ _ _) (fun _ => rfl)
      rw [Proc.type, Proc.postBackup, Proc.setReq]
      simp [Proc.setLoc, Proc.assert, show (p.reqs s).req.type = _ from htype]
  · have hactive : Function.update p.active r true s = p.active s := Function.update_of_ne hr _ _
    cases htype : p.type r <;> simp only [Proc.start, htype]
    case send | recv =>
      exact .elsewhere (Function.update_of_ne hr _ _) hactive ((sendPc_of_other rfl hr).trans hnone.symm)
    all_goals exact .elsewhere (Function.update_of_ne hr _ _) hactive (hcall rfl)

theorem wait_send (hf : p.Free) (ha : p.active r = true) (ht : (p.type s).isRecv = false) :
    SendStep mode s p (p.wait mode r) (.wait r) none := by
  have hnone : p.call.sendPc s = none := by rw [hf.1]; rfl
  by_cases hr : s = r
  · subst hr
    cases htype : p.type s <;> simp only [Proc.wait, htype]
    case send =>
      exact .waits htype (sendPc_started hnone ha htype) rfl (by simp [Proc.sendPc, Proc.setCall, Call.sendPc])
    case recv | recvSearch | recvFallback =>
      rw [htype] at ht
      exact absurd ht (by decide)
    all_goals exact .elsewhere rfl rfl hnone.symm
  · have hc : ∀ c : Call, c.rid = some r → SendStep mode s p (p.setCall c) (.wait r) none :=
      fun c hc => .elsewhere rfl rfl ((sendPc_of_other hc hr).trans hnone.symm)
    cases htype : p.type r <;> simp only [Proc.wait, htype] <;> exact hc _ rfl

/-- **What a step of a process does to a send request.** -/
theorem act_send {a : ProcAct} (hp : ProcOk p) (hh : HandlersOk p) (hstack : StackOk p)
    (hs : p.act mode a = some (p', m)) (hlt : s < p.nextRid) (ht : (p.type s).isRecv = false)
    (htr : (p.reqs s).transfers = []) (hok : SendOk p s) :
    SendStep mode s p p' a (sentFor s (a.emits mode p)) := by
  have hne : s ≠ p.nextRid := Nat.ne_of_lt hlt
  cases a with
  | sendInit args =>
      simp only [Proc.act] at hs
      split at hs <;> simp only [reduceCtorEq, Option.some.injEq] at hs
      obtain rfl : (p.sendInit args).1 = p' := by rw [hs]
      exact .elsewhere (Function.update_of_ne hne _ _) (Function.update_of_ne hne _ _) rfl
  | recvInit args =>
      simp only [Proc.act] at hs
      split at hs <;> cases hs
      rename_i hf
      refine .elsewhere (Function.update_of_ne hne _ _) (Function.update_of_ne hne _ _) ?_
      rw [hf.1]
      rfl
  | start r =>
      simp only [Proc.act] at hs
      split at hs <;> simp only [reduceCtorEq, Option.some.injEq] at hs
      rename_i hf
      obtain rfl : (p.start r).1 = p' := by rw [hs]
      exact start_send hf.1 hf.2.2 ht
  | wait r =>
      simp only [Proc.act] at hs
      split at hs <;> cases hs
      rename_i hf
      exact wait_send hf.1 hf.2.2 ht
  | free r =>
      simp only [Proc.act] at hs
      split at hs <;> cases hs
      exact .elsewhere rfl rfl rfl
  | run ans =>
      simp only [Proc.act, Proc.run] at hs
      split at hs
      · rename_i f below hn
        obtain ⟨-, hcall, -, -, hactive⟩ : RunsSame (p.setNested below)
            ((p.setNested below).runFrame mode ans f) := runFrame_info f
        have hreqs : ((p.setNested below).runFrame mode ans f).reqs s = p.reqs s :=
          runFrame_send hstack hn ht
        have hm : p.emits mode ans.imm = none := by simp [Proc.emits, hn]
        cases hs
        rw [ProcAct.emits, hm]
        exact .elsewhere hreqs (congrFun hactive s) (congrArg (Call.sendPc · s) hcall)
      · rename_i hn
        by_cases hc : p.call.rid = some s
        · exact runCall_send hp.call hn hc ht hok.active hs
        · have helse := runCall_elsewhere hs hc
          have hm : sentFor s (p.emits mode ans.imm) = none := by
            simp only [Proc.emits, hn]
            split
            · rename_i r pt _ hcall
              have hr : r ≠ s := fun he => hc (by rw [hcall, he]; rfl)
              cases (bSend mode ans.imm pt (p.reqs r)).2.2 <;> simp [sentFor, hr]
            · rfl
          rw [ProcAct.emits, hm]
          exact .elsewhere helse.reqs helse.active
            ((Call.sendPc_of_rid helse.call).trans (Call.sendPc_of_rid hc).symm)
  | deliver r msg here =>
      simp only [Proc.act] at hs
      split at hs <;> cases hs
      rename_i hr
      have hsr : s ≠ r := by
        rintro rfl
        rw [(hh.handlers s hr.2).2] at ht
        exact Bool.noConfusion ht
      exact .elsewhere (Function.update_of_ne hsr _ _) rfl rfl
  | lands r number bytes =>
      simp only [Proc.act] at hs
      split at hs <;> cases hs
      rename_i hr
      have hsr : s ≠ r := by
        rintro rfl
        rw [htr] at hr
        exact absurd hr List.not_mem_nil
      exact .elsewhere (Function.update_of_ne hsr _ _) rfl rfl

theorem bSend_size {imm : Bool} {pt : SendPoint} {l : Local} :
    (bSend mode imm pt l).2.1.req.buf = l.req.buf ∧ (bSend mode imm pt l).2.1.req.size = l.req.size := by
  cases pt <;> exact ⟨rfl, rfl⟩

theorem eSend_size {done : Bool} {w : SendWait} {l : Local} :
    (eSend done w l).2.req.buf = l.req.buf ∧ (eSend done w l).2.req.size = l.req.size := by
  cases w with
  | test | blocking p =>
      simp only [eSend]
      split <;> exact ⟨rfl, rfl⟩

theorem afterWait_ne_start {o : Outcome SendWait} {pt : SendPoint} : o.afterWait ≠ .start pt := by
  cases o <;> simp [Outcome.afterWait]

/-- No step changes what a send buffer holds. -/
theorem SendStep.buf {a : ProcAct} {msg : Option AmMsg} (h : SendStep mode s p p' a msg) :
    (p'.reqs s).req.buf = (p.reqs s).req.buf := by
  cases h with
  | rests hr hpc ha => exact hr.buf
  | starts hs hpc hr hpc' ha => exact congrArg (·.req.buf) hr
  | waits hs hpc hr hpc' => exact congrArg (·.req.buf) hr
  | sends hs hn hc hr hpc' ha => rw [hr, bSend_size.1]
  | completes hs hn hc hr hpc' ho => rw [hr, eSend_size.1]

/-- No step connects a request that has sent something. -/
theorem SendStep.sendOk {a : ProcAct} {msg : Option AmMsg} (h : SendStep mode s p p' a msg)
    (ht : p'.type s ≠ .send → p.type s ≠ .send) (hok : SendOk p s) : SendOk p' s := by
  obtain ⟨hquiet, hfull, hactive⟩ := hok
  cases h with
  | rests hr hpc ha =>
      refine ⟨fun hne => ?_, by rw [hr.buf, hr.size, hfull], fun pt hpt => ?_⟩
      · rw [hr.starts, hr.transfer]
        exact hquiet (ht hne)
      · rcases ha with ha | ha
        · rw [ha]
          exact hactive pt (hpc ▸ hpt)
        · rw [ha] at hpt
          cases hpt
  | starts hs hpc hr hpc' ha =>
      exact ⟨fun hne => absurd hs (ht hne), by rw [hr]; exact hfull, fun _ _ => ha⟩
  | waits hs hpc hr hpc' =>
      refine ⟨fun hne => absurd hs (ht hne), by rw [hr]; exact hfull, fun pt hpt => ?_⟩
      rw [hpc'] at hpt
      cases hpt
  | sends hs hn hc hr hpc' ha =>
      refine ⟨fun hne => absurd hs (ht hne), ?_, fun pt hpt => ?_⟩
      · rw [hr, bSend_size.1, bSend_size.2, hfull]
      · rw [ha]
        exact hactive _ (by simp [Proc.sendPc, hc, Call.sendPc]; rfl)
  | completes hs hn hc hr hpc' ho =>
      refine ⟨fun hne => absurd hs (ht hne), ?_, fun pt hpt => ?_⟩
      · rw [hr, eSend_size.1, eSend_size.2, hfull]
      · rw [hpc'] at hpt
        exact absurd hpt afterWait_ne_start

end

/-! ### The sender of a link -/

/-- The sender of a link is where the process is with the request. -/
structure Plays (p : Proc) (s : Rid) (q : Peer) : Prop where
  pc : q.pc = p.sendPc s
  type : q.loc.req.type = .send
  loc : Alike (p.reqs s) q.loc

/-- One step of the sender, or none. -/
def Moves (mode : Mode) (complete : Nat → Bool) (q q' : Peer) : Prop :=
  q' = q ∨ ∃ a, q.step mode complete a = some q'

/-- What is known of the payloads after a message. -/
def noted (payload : Nat → List UInt8) (buf : List UInt8) : Option AmMsg → Nat → List UInt8
  | some msg => Function.update payload msg.number buf
  | none => payload

/-- The sender has handed this message to UCX, if any. -/
structure Emitted (buf : List UInt8) (msg : Option AmMsg) (q q' : Peer) : Prop where
  inFlight : q'.inFlight = q.inFlight ++ msg.toList
  payload : q'.payload = noted q.payload buf msg

section
variable {mode : Mode} {complete : Nat → Bool} {p p' : Proc} {s : Rid} {q : Peer} {l l' : Local}
  {a : ProcAct} {msg : Option AmMsg}

theorem Emitted.refl {buf : List UInt8} : Emitted buf none q q := ⟨(List.append_nil _).symm, rfl⟩

theorem Emitted.emit {buf : List UInt8} {pc : SendPc} (hb : l.req.buf = buf) :
    Emitted buf msg q ((q.setLoc pc l).emit msg) := by
  subst hb
  cases msg with
  | none => exact ⟨(List.append_nil _).symm, rfl⟩
  | some msg => exact ⟨rfl, rfl⟩

theorem bSend_alike {imm : Bool} {pt : SendPoint} (h : Alike l l') :
    (bSend mode imm pt l').1 = (bSend mode imm pt l).1 ∧
      (bSend mode imm pt l').2.2 = (bSend mode imm pt l).2.2 ∧
        Alike (bSend mode imm pt l).2.1 (bSend mode imm pt l').2.1 := by
  obtain ⟨hb, hs, ht, hn⟩ := h
  cases pt with
  | post =>
      refine ⟨rfl, by simp only [bSend, hb, hs, hn], hb, hs, ?_, hn⟩
      simp only [bSend, Local.setTransfer, hn]
  | progress => exact ⟨rfl, rfl, hb, hs, ht, hn⟩

theorem eSend_alike {done : Bool} {w : SendWait} (h : Alike l l') :
    (eSend done w l').1 = (eSend done w l).1 ∧ Alike (eSend done w l).2 (eSend done w l').2 := by
  obtain ⟨hb, hs, ht, hn⟩ := h
  cases w with
  | test =>
      by_cases hx : l.req.ucxRequestDataTransfer.isSome = true
      · have hx' : l'.req.ucxRequestDataTransfer.isSome = true := ht ▸ hx
        simp only [eSend, Local.assert, hx, hx', if_true]
        exact ⟨trivial, hb, hs, ht, hn⟩
      · have hx' : ¬ l'.req.ucxRequestDataTransfer.isSome = true := ht ▸ hx
        simp only [eSend, Local.assert, hx, hx']
        exact ⟨rfl, hb, hs, ht, hn⟩
  | blocking pt =>
      simp only [eSend]
      split
      · exact ⟨rfl, hb, hs, ht, hn⟩
      · exact ⟨rfl, hb, hs, ht, hn⟩
      · exact ⟨rfl, hb, hs, rfl, hn⟩

/-! ### The answers that matter -/

/-- `b_send` asks UCX whether the send is complete only as it posts it. -/
theorem bSend_imm {imm : Bool} {pt : SendPoint} (hpt : pt ≠ .post) : bSend mode imm pt l = bSend mode false pt l := by
  cases pt with
  | post => exact absurd rfl hpt
  | progress => rfl

/-- `e_send` does only in `ucp_request_check_status`. -/
theorem eSend_done {done : Bool} {w : SendWait} (hw : w ≠ .blocking .check) : eSend done w l = eSend false w l := by
  cases w with
  | test => rfl
  | blocking pt =>
      cases pt with
      | check => exact absurd rfl hw
      | progress => rfl
      | tested b => cases b <;> rfl

theorem run_start {ans : SendAnswer} {pt : SendPoint} (hpc : q.pc = .start pt) :
    q.run mode ans = some ((q.setLoc (bSend mode ans.imm pt q.loc).1.afterSend
      (bSend mode ans.imm pt q.loc).2.1).emit (bSend mode ans.imm pt q.loc).2.2) := by
  simp only [Peer.run, hpc]
  obtain ⟨o, l, msg⟩ := bSend mode ans.imm pt q.loc
  cases o <;> rfl

theorem run_wait {ans : SendAnswer} {w : SendWait} (hpc : q.pc = .wait w) :
    q.run mode ans = some (q.setLoc (eSend ans.done w q.loc).1.afterWait (eSend ans.done w q.loc).2) := by
  simp only [Peer.run, hpc]
  obtain ⟨o, l⟩ := eSend ans.done w q.loc
  cases o <;> rfl

theorem bSend_type {imm : Bool} {pt : SendPoint} : (bSend mode imm pt l).2.1.req.type = l.req.type :=
  bSend_untouched.type

/-- **The sender of a link takes the step that the process takes with the request**, and sends
the same message. -/
theorem SendStep.moves (h : SendStep mode s p p' a msg) (hq : Plays p s q)
    (himm : ∀ ans, a = .run ans → p.nested = [] → p.call = .bSend s .post → ans.imm = true → mode = .eager)
    (hdone : ∀ ans, a = .run ans → p.nested = [] → p.call = .eSend s (.blocking .check) →
      ans.flag = true → (∀ r, r ≠ s → p'.reqs r = p.reqs r) →
      ∀ x ∈ (p.reqs s).req.ucxRequestDataTransfer, complete x = true) :
    ∃ q', Moves mode complete q q' ∧ Plays p' s q' ∧ Emitted (p.reqs s).req.buf msg q q' := by
  obtain ⟨hq, ht, hl⟩ := hq
  cases h with
  | rests hr hpc ha => exact ⟨q, Or.inl rfl, ⟨hq.trans hpc.symm, ht, hr.symm.trans hl⟩, .refl⟩
  | starts hs hpc hr hpc' ha =>
      refine ⟨q.setLoc (.start .post) q.loc.countStart, Or.inr ⟨.start, ?_⟩, ⟨hpc'.symm, ht, ?_⟩, ⟨?_, rfl⟩⟩
      · simp only [Peer.step]
        rw [if_pos ⟨hq.trans hpc, ht⟩]
      · rw [hr]
        exact ⟨hl.buf, hl.size, hl.transfer, congrArg (· + 1) hl.starts⟩
      · exact (List.append_nil _).symm
  | waits hs hpc hr hpc' =>
      refine ⟨q.setLoc (.wait .test) q.loc, Or.inr ⟨.wait, ?_⟩, ⟨hpc'.symm, ht, hr ▸ hl⟩, ⟨?_, rfl⟩⟩
      · simp only [Peer.step]
        rw [if_pos ⟨hq.trans hpc, ht⟩]
      · exact (List.append_nil _).symm
  | @sends ans pt hs hn hc hr hpc' ha =>
      have hpc : q.pc = .start pt := hq.trans (by simp [Proc.sendPc, hc, Call.sendPc])
      -- the sender is told what the process is told if that matters
      obtain ⟨b, hb, he⟩ : ∃ b, (b = true → mode = .eager) ∧ ∀ l, bSend mode ans.imm pt l = bSend mode b pt l := by
        by_cases hpt : pt = .post
        · exact ⟨ans.imm, himm ans rfl hn (hpt ▸ hc), fun _ => rfl⟩
        · exact ⟨false, by simp, fun _ => bSend_imm hpt⟩
      obtain ⟨hout, hmsg, hloc⟩ : (bSend mode b pt q.loc).1 = _ ∧ (bSend mode b pt q.loc).2.2 = _ ∧ Alike _ _ :=
        bSend_alike hl
      refine ⟨(q.setLoc (bSend mode b pt q.loc).1.afterSend (bSend mode b pt q.loc).2.1).emit
        (bSend mode b pt q.loc).2.2, Or.inr ⟨.run ⟨b, false⟩, ?_⟩, ?_, ?_⟩
      · simp only [Peer.step]
        rw [if_pos ⟨hb, by simp⟩, run_start hpc]
      · rw [he] at hr hpc'
        have hkeep : ∀ m : Option AmMsg, ∀ q : Peer, (q.emit m).pc = q.pc ∧ (q.emit m).loc = q.loc := by
          intro m q
          cases m <;> exact ⟨rfl, rfl⟩
        refine ⟨?_, ?_, ?_⟩
        · rw [(hkeep _ _).1, hpc', ← hout]
          rfl
        · rw [(hkeep _ _).2]
          exact bSend_type.trans ht
        · rw [(hkeep _ _).2, hr]
          exact hloc
      · rw [he, ← hmsg]
        exact .emit (bSend_size.1.trans hl.buf)
  | @completes ans w hs hn hc hr hpc' ho =>
      have hpc : q.pc = .wait w := hq.trans (by simp [Proc.sendPc, hc, Call.sendPc])
      obtain ⟨b, hb, he⟩ : ∃ b, (b = true → ∀ x ∈ q.loc.req.ucxRequestDataTransfer, complete x = true) ∧
          ∀ l, eSend ans.flag w l = eSend b w l := by
        by_cases hw : w = .blocking .check
        · refine ⟨ans.flag, fun hf => ?_, fun _ => rfl⟩
          rw [hl.transfer]
          exact hdone ans rfl hn (hw ▸ hc) hf ho
        · exact ⟨false, by simp, fun _ => eSend_done hw⟩
      obtain ⟨hout, hloc⟩ : (eSend b w q.loc).1 = _ ∧ Alike _ _ := eSend_alike hl
      refine ⟨q.setLoc (eSend b w q.loc).1.afterWait (eSend b w q.loc).2, Or.inr ⟨.run ⟨false, b⟩, ?_⟩,
        ⟨?_, ?_, ?_⟩, ⟨(List.append_nil _).symm, rfl⟩⟩
      · simp only [Peer.step]
        rw [if_pos ⟨by simp, hb⟩, run_wait hpc]
      · rw [hpc', he, ← hout]
        rfl
      · exact eSend_untouched.type.trans ht
      · rw [hr, he]
        exact hloc

end

end CompMatch.ActiveMessage

/-
Active messages find their way.

An active message carries an id and nothing else that says whom it is for.  The id of a
send request is the one MPI has brought it from its partner: the handshake messages of one
envelope are matched in order, so the `i`-th send request is told the id of the `i`-th
receive request.  No two handlers of a process have the same id, and a handler stays until
its request is freed.  So UCX gives every message to the partner of its sender or, if that
was freed, to nobody.  This holds of every run of any number of processes.
-/
import CompMatch.ActiveMessage.Network
import CompMatch.Proofs.ActiveMessage.Handshake

namespace CompMatch.ActiveMessage

open Matching

/-! ### What the functions keep of a request -/

/-- The messages that a request has in hand. -/
def Local.held (l : Local) : List Nat := l.req.listOfPendingMsgs.map AmMsg.number ++ l.transfers

/-- The envelope stays, and no message comes in but `given`. -/
structure Retains (given : List Nat) (l l' : Local) : Prop where
  dest : l'.req.dest = l.req.dest
  tag : l'.req.tag = l.req.tag
  size : l'.req.size = l.req.size
  held : ∀ x ∈ l'.held, x ∈ l.held ∨ x ∈ given

/-- The message a handler is given for a request. -/
def ProcAct.given (q : Rid) : ProcAct → List Nat
  | .deliver r msg _ => if r = q then [msg.number] else []
  | _ => []

section
variable {mode : Mode} {here : Option (List UInt8)} {l l' : Local} {given : List Nat}

theorem Retains.refl : Retains given l l := ⟨rfl, rfl, rfl, fun _ hx => Or.inl hx⟩

theorem Retains.of_eq (h : l' = l) : Retains given l l' := h ▸ .refl

theorem Retains.of_held (hd : l'.req.dest = l.req.dest) (ht : l'.req.tag = l.req.tag)
    (hs : l'.req.size = l.req.size) (hh : l'.held = l.held) : Retains given l l' :=
  ⟨hd, ht, hs, fun _ hx => Or.inl (hh ▸ hx)⟩

theorem dequeue_retains : Retains given l l.dequeueFromListOfIncomingMsg := by
  unfold Local.dequeueFromListOfIncomingMsg
  split
  · rename_i msg rest heq
    refine ⟨rfl, rfl, rfl, fun x hx => Or.inl ?_⟩
    rw [Local.held, heq, List.map_cons, List.cons_append]
    exact List.mem_cons_of_mem _ hx
  · exact .of_held rfl rfl rfl rfl

/-- A transfer is started for a message that is in hand, or given. -/
theorem recvData_retains {msg : AmMsg} (hm : msg.number ∈ l.held ∨ msg.number ∈ given) :
    Retains given l (l.recvData here msg) := by
  cases here with
  | some bytes => exact .of_held rfl rfl rfl rfl
  | none =>
      refine ⟨rfl, rfl, rfl, fun x hx => ?_⟩
      have hx' : x ∈ l.held ∨ x = msg.number := by
        simpa [Local.held, Local.recvData, Local.setTransfer, Local.take, or_assoc] using hx
      rcases hx' with hx' | rfl
      · exact Or.inl hx'
      · exact hm

theorem bRecvFetch_retains : Retains given l (bRecvFetch mode here l) := by
  unfold bRecvFetch
  split
  · exact .of_held rfl rfl rfl rfl
  · exact dequeue_retains
  · rename_i msg rest heq
    have hm : msg.number ∈ l.held := by simp [Local.held, heq]
    obtain ⟨hd, ht, hs, hh⟩ : Retains given (l.assert l.req.ucxRequestDataTransfer.isNone)
        ((l.assert l.req.ucxRequestDataTransfer.isNone).recvData here msg) := recvData_retains (Or.inl hm)
    refine ⟨hd, ht, hs, fun x hx => hh x ?_⟩
    rw [Local.held, List.mem_append] at hx ⊢
    exact hx.elim (fun hx => absurd hx (by simp [Local.setPending])) Or.inr

theorem bRecv_retains {pt : RecvPoint} : Retains given l (bRecv mode here pt l).2 := by
  cases pt with
  | progress => exact .refl
  | fetch => exact bRecvFetch_retains

theorem eRecv_retains {w : RecvWait} : Retains given l (eRecv w l).2 := by
  cases w with
  | ready | loop | test =>
      simp only [eRecv]
      split <;> exact .refl
  | progress => exact .refl
  | dequeue =>
      simp only [eRecv]
      split
      · obtain ⟨hd, ht, hs, hh⟩ : Retains given (l.setReady false) _ := dequeue_retains
        exact ⟨hd, ht, hs, hh⟩
      · exact .refl
  | blocking p =>
      simp only [eRecv]
      split <;> exact .of_held rfl rfl rfl rfl

theorem bSend_retains {imm : Bool} {pt : SendPoint} : Retains given l (bSend mode imm pt l).2.1 := by
  cases pt <;> exact .of_held rfl rfl rfl rfl

theorem eSend_retains {done : Bool} {w : SendWait} : Retains given l (eSend done w l).2 := by
  cases w with
  | test | blocking p =>
      simp only [eSend]
      split <;> exact .of_held rfl rfl rfl rfl

theorem land_retains {number : Nat} {bytes : List UInt8} : Retains given l (l.land number bytes) := by
  refine ⟨rfl, rfl, rfl, fun x hx => Or.inl ?_⟩
  rw [Local.held, List.mem_append] at hx ⊢
  exact hx.imp_right List.mem_of_mem_erase

theorem handler_retains {msg : AmMsg} : Retains [msg.number] l (incomingAmMsgHandler mode here msg l) := by
  have hm : msg.number ∈ l.held ∨ msg.number ∈ [msg.number] := Or.inr (List.mem_singleton_self _)
  have push : ∀ x ∈ l.req.listOfPendingMsgs.map AmMsg.number ++ msg.number :: l.transfers,
      x ∈ l.held ∨ x ∈ [msg.number] := by
    intro x hx
    simp only [List.mem_append, List.mem_cons] at hx
    simp only [Local.held, List.mem_append, List.mem_singleton]
    tauto
  unfold incomingAmMsgHandler
  split
  · dsimp only
    split
    · have hrecv : ∀ l' : Local, l'.held = l.held → Retains [msg.number] l' (l'.recvData here msg) :=
        fun l' hl => recvData_retains (hl ▸ hm)
      obtain ⟨hd, ht, hs, hh⟩ := hrecv ((((l.assert (l.req.size = msg.length)).assert
        (mode = .rendezvous)).assert l.req.listOfPendingMsgs.isEmpty).assert
          l.req.ucxRequestDataTransfer.isNone) rfl
      exact ⟨hd, ht, hs, hh⟩
    · refine ⟨rfl, rfl, rfl, fun x hx => push x ?_⟩
      simp only [Local.held, Local.setPending, List.map_cons, List.map_nil, List.mem_append,
        List.mem_cons] at hx ⊢
      tauto
  · dsimp only
    split
    · exact .of_held rfl rfl rfl rfl
    · refine ⟨rfl, rfl, rfl, fun x hx => push x ?_⟩
      simp only [Local.held, Local.addToListOfIncomingMsg, Local.setPending, List.map_append, List.map_cons,
        List.map_nil, List.mem_append, List.mem_cons] at hx ⊢
      tauto

end

/-! ### What a process keeps of its requests -/

section
variable {mode : Mode} {p p' : Proc} {ans : Answer} {q r : Rid} {c : Option MpiCall} {l : Local}
  {given : List Nat}

theorem setLoc_retains (h : Retains given (p.reqs r) l) (q : Rid) :
    Retains given (p.reqs q) ((p.setLoc r l).reqs q) := by
  by_cases he : q = r
  · subst he
    show Retains given _ (Function.update p.reqs q l q)
    rw [Function.update_self]
    exact h
  · show Retains given _ (Function.update p.reqs r l q)
    rw [Function.update_of_ne he]
    exact .refl

/-- MPI changes what it uses of a request. -/
theorem setReq_retains {f : MpioptRequest → MpioptRequest}
    (hp : p'.reqs = Function.update p.reqs r { p.reqs r with req := f (p.reqs r).req })
    (hf : ∀ x, f x = { x with
      type := (f x).type, backupRequest := (f x).backupRequest
      rdmaExchangeRequest := (f x).rdmaExchangeRequest }) (q : Rid) :
    Retains given (p.reqs q) (p'.reqs q) := by
  have hl : Retains given (p.reqs r) { p.reqs r with req := f (p.reqs r).req } := by
    rw [hf]
    exact .of_held rfl rfl rfl rfl
  rw [hp]
  exact setLoc_retains hl q

/-- One step of the function the user called. -/
theorem runCall_retains (h : p.runCall mode ans p.call = some (p', c)) (q : Rid) :
    Retains given (p.reqs q) (p'.reqs q) := by
  cases hcall : p.call with
  | none => simp [Proc.runCall, hcall] at h
  | init r =>
      rw [hcall] at h
      cases h
      exact setReq_retains (f := fun x => { x with rdmaExchangeRequest := some p.nextHandle }) rfl
        (fun _ => rfl) q
  | bSend r pt =>
      rw [hcall] at h
      have hk : Retains given (p.reqs r) (bSend mode ans.imm pt (p.reqs r)).2.1 := bSend_retains
      simp only [Proc.runCall] at h
      split at h <;> cases h <;> rename_i heq <;> rw [heq] at hk <;> exact setLoc_retains hk q
  | bRecv r pt =>
      rw [hcall] at h
      have hk : Retains given (p.reqs r) (bRecv mode (ans.here r) pt (p.reqs r)).2 := bRecv_retains
      simp only [Proc.runCall] at h
      split at h <;> cases h <;> rename_i heq <;> rw [heq] at hk <;> exact setLoc_retains hk q
  | eSend r w =>
      rw [hcall] at h
      have hk : Retains given (p.reqs r) (eSend ans.flag w (p.reqs r)).2 := eSend_retains
      simp only [Proc.runCall] at h
      split at h <;> cases h <;> rename_i heq <;> rw [heq] at hk <;> exact setLoc_retains hk q
  | eRecv r w =>
      rw [hcall] at h
      have hk : Retains given (p.reqs r) (eRecv w (p.reqs r)).2 := eRecv_retains
      simp only [Proc.runCall] at h
      split at h <;> cases h <;> rename_i heq <;> rw [heq] at hk
      · exact setLoc_retains hk q
      · exact setLoc_retains hk q
      · have hr : Retains given (p.reqs r) (Local.recordReturn _) := ⟨hk.dest, hk.tag, hk.size, hk.held⟩
        exact setLoc_retains hr q
  | waitSend r pt | waitRecv r pt =>
      rw [hcall] at h
      cases pt with
      | backup =>
          simp only [Proc.runCall] at h
          split at h <;> cases h
          · exact setReq_retains (f := fun x => { x with backupRequest := none }) rfl (fun _ => rfl) q
          · exact .refl
      | exchange =>
          simp only [Proc.runCall, Option.some.injEq, Prod.mk.injEq] at h
          obtain ⟨rfl, -⟩ := h
          refine setLoc_retains (r := r) (l := { p.reqs r with req := _ }) ?_ q
          split <;> exact .of_held rfl rfl rfl rfl
  | mpiWait r =>
      rw [hcall] at h
      simp only [Proc.runCall] at h
      split at h <;> cases h
      · exact setReq_retains (f := fun x => { x with backupRequest := none }) rfl (fun _ => rfl) q
      · exact .refl

theorem runFrame_retains (f : Frame) (q : Rid) :
    Retains given (p.reqs q) ((p.runFrame mode ans f).reqs q) := by
  cases f with
  | progressOther current rest =>
      cases rest with
      | nil => exact .refl
      | cons r rest =>
          simp only [Proc.runFrame]
          split
          · exact .refl
          · unfold Proc.progressRequest
            split
            · split <;> exact .refl
            all_goals exact .refl
  | progressRecv r pt =>
      have hk : Retains given (p.reqs r) (bRecv mode (ans.here r) pt (p.reqs r)).2 := bRecv_retains
      simp only [Proc.runFrame]
      split <;> rename_i heq <;> rw [heq] at hk <;> exact setLoc_retains hk q

/-- **No step changes the envelope of a request**, and none but a handler gets it a message. -/
theorem act_retains {a : ProcAct} (h : p.act mode a = some (p', c)) (hq : q < p.nextRid) :
    Retains (a.given q) (p.reqs q) (p'.reqs q) := by
  have hne : q ≠ p.nextRid := Nat.ne_of_lt hq
  cases a with
  | sendInit args =>
      simp only [Proc.act] at h
      split at h <;> simp only [reduceCtorEq, Option.some.injEq] at h
      obtain rfl : (p.sendInit args).1 = p' := by rw [h]
      exact .of_eq (Function.update_of_ne hne _ _)
  | recvInit args =>
      simp only [Proc.act] at h
      split at h <;> cases h
      exact .of_eq (Function.update_of_ne hne _ _)
  | start r =>
      simp only [Proc.act] at h
      split at h <;> simp only [reduceCtorEq, Option.some.injEq] at h
      obtain rfl : (p.start r).1 = p' := by rw [h]
      have hcount : Retains ((ProcAct.start r).given q) (p.reqs r) (p.reqs r).countStart :=
        .of_held rfl rfl rfl rfl
      cases ht : p.type r <;> simp only [Proc.start, ht]
      case send | recv => exact setLoc_retains hcount q
      all_goals
        exact setReq_retains (f := fun x => { x with backupRequest := some p.nextHandle }) rfl
          (fun _ => rfl) q
  | wait r =>
      simp only [Proc.act] at h
      split at h <;> cases h
      cases ht : p.type r <;> simp only [Proc.wait, ht] <;> exact .refl
  | free r =>
      simp only [Proc.act] at h
      split at h <;> cases h
      exact .refl
  | run ans =>
      simp only [Proc.act, Proc.run] at h
      split at h
      · rename_i f below hn
        have hk : Retains ((ProcAct.run ans).given q) ((p.setNested below).reqs q)
            (((p.setNested below).runFrame mode ans f).reqs q) := runFrame_retains f q
        cases h
        exact hk
      · exact runCall_retains h q
  | deliver r msg here =>
      simp only [Proc.act] at h
      split at h <;> cases h
      by_cases he : r = q
      · subst he
        rw [ProcAct.given, if_pos rfl]
        exact setLoc_retains handler_retains r
      · exact .of_eq (Function.update_of_ne (Ne.symm he) _ _)
  | lands r number bytes =>
      simp only [Proc.act] at h
      split at h <;> cases h
      exact setLoc_retains land_retains q

theorem Effect.isRecv {flag : Bool} {a : ProcAct} (h : Effect p p' flag c a) (hq : q < p.nextRid) :
    (p'.type q).isRecv = (p.type q).isRecv := by
  have decided : ∀ (t : RequestType) (found : Bool), (t.decided found).isRecv = t.isRecv := by
    intro t found
    cases t <;> cases found <;> rfl
  cases h with
  | sendInit hn ho ht hc | recvInit hn ho ht hc => rw [Proc.type, ho q (Nat.ne_of_lt hq)]; rfl
  | steps hn hi hpost htest hrecv =>
      cases hi q with
      | same hs hc => exact congrArg _ hs.type
      | posted ht ha he => exact congrArg _ ht
      | decided hs ha ht => exact (congrArg _ ht).trans (decided _ _)

/-! ### The handlers of a process -/

/-- Every receive request has its handler until it is freed, and an id of its own. -/
structure HandlersOk (p : Proc) : Prop where
  handlers : ∀ r ∈ p.handlers, r < p.nextRid ∧ (p.type r).isRecv = true
  missing : ∀ r < p.nextRid, (p.type r).isRecv = true → r ∉ p.handlers →
    r ∉ p.requestList ∧ p.call ≠ .init r
  ids : ∀ r < p.nextRid, (p.type r).isRecv = true → (p.reqs r).req.amId < p.amTag
  distinct : ∀ q < p.nextRid, ∀ r < p.nextRid, (p.type q).isRecv = true → (p.type r).isRecv = true →
    (p.reqs q).req.amId = (p.reqs r).req.amId → q = r
  nodup : p.requestList.Nodup
  starting : ∀ r, p.call = .init r → r ∉ p.requestList

/-- The kinds and ids of the requests, and where they are listed, stay. -/
theorem HandlersOk.congr (h : HandlersOk p) (hn : p'.nextRid = p.nextRid)
    (ht : ∀ r < p.nextRid, (p'.type r).isRecv = (p.type r).isRecv)
    (ha : ∀ r < p.nextRid, (p'.reqs r).req.amId = (p.reqs r).req.amId)
    (hh : p'.handlers = p.handlers) (htag : p'.amTag = p.amTag)
    (hl : ∀ r ∈ p'.requestList, r ∈ p.requestList ∨ p.call = .init r) (hnd : p'.requestList.Nodup)
    (hc : ∀ r, p'.call = .init r → p.call = .init r ∧ r ∉ p'.requestList) : HandlersOk p' := by
  refine ⟨fun r hr => ?_, fun r hr hrecv hno => ?_, fun r hr hrecv => ?_,
    fun q hq r hr hqrecv hrrecv he => ?_, hnd, fun r hr => (hc r hr).2⟩
  · obtain ⟨hlt, hrecv⟩ := h.handlers r (hh ▸ hr)
    exact ⟨hn ▸ hlt, (ht r hlt).trans hrecv⟩
  · rw [hn] at hr
    rw [ht r hr] at hrecv
    obtain ⟨hlist, hcall⟩ := h.missing r hr hrecv (hh ▸ hno)
    exact ⟨fun hmem => (hl r hmem).elim hlist hcall, fun he => hcall (hc r he).1⟩
  · rw [hn] at hr
    rw [ha r hr, htag]
    exact h.ids r hr ((ht r hr).symm.trans hrecv)
  · rw [hn] at hq hr
    rw [ha q hq, ha r hr] at he
    exact h.distinct q hq r hr ((ht q hq).symm.trans hqrecv) ((ht r hr).symm.trans hrrecv) he

theorem runCall_registry (h : p.runCall mode ans p.call = some (p', c)) :
    p'.amTag = p.amTag ∧ ∀ r, p'.call ≠ .init r := by
  cases hcall : p.call with
  | none => simp [Proc.runCall, hcall] at h
  | init r =>
      rw [hcall] at h
      cases h
      exact ⟨rfl, by simp⟩
  | bSend r pt | bRecv r pt | eSend r w | eRecv r w =>
      rw [hcall] at h
      simp only [Proc.runCall] at h
      split at h <;> cases h <;>
        exact ⟨rfl, by simp [Proc.setCall, Proc.ret, Proc.finish, Proc.progressOther, Proc.push]⟩
  | waitSend r pt | waitRecv r pt =>
      rw [hcall] at h
      cases pt with
      | backup =>
          simp only [Proc.runCall] at h
          split at h <;> cases h
          · exact ⟨rfl, by simp [Proc.setCall]⟩
          · exact ⟨rfl, by simp [hcall]⟩
      | exchange =>
          simp only [Proc.runCall, Option.some.injEq, Prod.mk.injEq] at h
          obtain ⟨rfl, -⟩ := h
          exact ⟨rfl, by simp [Proc.finish]⟩
  | mpiWait r =>
      rw [hcall] at h
      simp only [Proc.runCall] at h
      split at h <;> cases h
      · exact ⟨rfl, by simp [Proc.finish]⟩
      · exact ⟨rfl, by simp [hcall]⟩

theorem runFrame_registry (f : Frame) :
    (p.runFrame mode ans f).handlers = p.handlers ∧ (p.runFrame mode ans f).amTag = p.amTag := by
  cases f with
  | progressOther current rest =>
      cases rest with
      | nil => exact ⟨rfl, rfl⟩
      | cons r rest =>
          simp only [Proc.runFrame]
          split
          · exact ⟨rfl, rfl⟩
          · unfold Proc.progressRequest
            split
            · split <;> exact ⟨rfl, rfl⟩
            all_goals exact ⟨rfl, rfl⟩
  | progressRecv r pt =>
      simp only [Proc.runFrame]
      split <;> exact ⟨rfl, rfl⟩

theorem HandlersOk.sendInit (h : HandlersOk p) (hp : ProcOk p) (hf : p.Free) {args : InitArgs} :
    HandlersOk (p.sendInit args).1 := by
  have hold : ∀ r, r ≠ p.nextRid → (p.sendInit args).1.reqs r = p.reqs r :=
    fun r hr => Function.update_of_ne hr _ _
  have htype : ∀ r, r ≠ p.nextRid → (p.sendInit args).1.type r = p.type r :=
    fun r hr => congrArg (·.req.type) (hold r hr)
  have hnew : (p.sendInit args).1.type p.nextRid = .sendSearch := setLoc_type
  have hcall : (p.sendInit args).1.call = .none := hf.1
  -- a receive request is an old one
  have old : ∀ r, r < (p.sendInit args).1.nextRid → ((p.sendInit args).1.type r).isRecv = true →
      r < p.nextRid ∧ r ≠ p.nextRid ∧ (p.type r).isRecv = true := by
    intro r hr hrecv
    have hne : r ≠ p.nextRid := by
      rintro rfl
      rw [hnew] at hrecv
      exact absurd hrecv (by decide)
    have hlt : r < p.nextRid := Nat.lt_of_le_of_ne (Nat.le_of_lt_succ hr) hne
    exact ⟨hlt, hne, htype r hne ▸ hrecv⟩
  refine ⟨fun r hr => ?_, fun r hr hrecv hno => ⟨?_, by simp [hcall]⟩, fun r hr hrecv => ?_,
    fun q hq r hr hqrecv hrrecv he => ?_, ?_, fun r hr => by simp [hcall] at hr⟩
  · obtain ⟨hlt, hrecv⟩ := h.handlers r hr
    refine ⟨Nat.lt_succ_of_lt hlt, ?_⟩
    rw [htype r (Nat.ne_of_lt hlt)]
    exact hrecv
  · obtain ⟨hlt, hne, hrecv⟩ := old r hr hrecv
    intro hmem
    rcases List.mem_cons.mp hmem with he | hmem
    · exact hne he
    · exact (h.missing r hlt hrecv hno).1 hmem
  · obtain ⟨hlt, hne, hrecv⟩ := old r hr hrecv
    rw [hold r hne]
    exact h.ids r hlt hrecv
  · obtain ⟨hqlt, hqne, hqrecv⟩ := old q hq hqrecv
    obtain ⟨hrlt, hrne, hrrecv⟩ := old r hr hrrecv
    rw [hold q hqne, hold r hrne] at he
    exact h.distinct q hqlt r hrlt hqrecv hrrecv he
  · exact List.nodup_cons.mpr ⟨fun hmem => Nat.lt_irrefl _ (hp.list _ hmem).1, h.nodup⟩

theorem HandlersOk.recvInit (h : HandlersOk p) (hp : ProcOk p) {args : InitArgs} :
    HandlersOk (p.recvInit args) := by
  have hold : ∀ r, r ≠ p.nextRid → (p.recvInit args).reqs r = p.reqs r :=
    fun r hr => Function.update_of_ne hr _ _
  have htype : ∀ r, r ≠ p.nextRid → (p.recvInit args).type r = p.type r :=
    fun r hr => congrArg (·.req.type) (hold r hr)
  have hid : ((p.recvInit args).reqs p.nextRid).req.amId = p.amTag :=
    congrArg (·.req.amId) (Function.update_self p.nextRid _ p.reqs)
  have hfresh : p.nextRid ∉ p.requestList := fun hmem => Nat.lt_irrefl _ (hp.list _ hmem).1
  have old : ∀ r, r < (p.recvInit args).nextRid → r ≠ p.nextRid → r < p.nextRid :=
    fun r hr hne => Nat.lt_of_le_of_ne (Nat.le_of_lt_succ hr) hne
  have hids : ∀ r, r < p.nextRid → ((p.recvInit args).type r).isRecv = true →
      ((p.recvInit args).reqs r).req.amId < p.amTag := by
    intro r hlt hrecv
    have hne := Nat.ne_of_lt hlt
    rw [hold r hne]
    exact h.ids r hlt (htype r hne ▸ hrecv)
  refine ⟨fun r hr => ?_, fun r hr hrecv hno => ?_, fun r hr hrecv => ?_,
    fun q hq r hr hqrecv hrrecv he => ?_, h.nodup, fun r hr => ?_⟩
  · rcases List.mem_cons.mp hr with rfl | hr
    · have ht : (p.recvInit args).type p.nextRid = .recvSearch := setLoc_type
      exact ⟨Nat.lt_succ_self _, by rw [ht]; rfl⟩
    · obtain ⟨hlt, hrecv⟩ := h.handlers r hr
      refine ⟨Nat.lt_succ_of_lt hlt, ?_⟩
      rw [htype r (Nat.ne_of_lt hlt)]
      exact hrecv
  · have hmem : r ∉ p.nextRid :: p.handlers := hno
    rw [List.mem_cons, not_or] at hmem
    have hlt := old r hr hmem.1
    rw [htype r hmem.1] at hrecv
    refine ⟨(h.missing r hlt hrecv hmem.2).1, fun hc => hmem.1 ?_⟩
    simpa [Proc.recvInit, Proc.setLoc] using hc.symm
  · by_cases hne : r = p.nextRid
    · rw [hne, hid]
      exact Nat.lt_succ_self _
    · exact Nat.lt_succ_of_lt (hids r (old r hr hne) hrecv)
  · by_cases hqn : q = p.nextRid <;> by_cases hrn : r = p.nextRid
    · rw [hqn, hrn]
    · rw [hqn, hid] at he
      exact absurd (hids r (old r hr hrn) hrrecv) (by omega)
    · rw [hrn, hid] at he
      exact absurd (hids q (old q hq hqn) hqrecv) (by omega)
    · rw [hold q hqn, hold r hrn] at he
      exact h.distinct q (old q hq hqn) r (old r hr hrn) (htype q hqn ▸ hqrecv)
        (htype r hrn ▸ hrrecv) he
  · obtain rfl : r = p.nextRid := by simpa [Proc.recvInit, Proc.setLoc] using hr.symm
    exact hfresh

theorem HandlersOk.free (h : HandlersOk p) (hf : p.Free) : HandlersOk (p.free r) := by
  have hmem : ∀ x ∈ (p.free r).handlers, x ∈ p.handlers := by
    intro x hx
    simp only [Proc.free] at hx
    split at hx
    · exact List.mem_of_mem_erase hx
    · exact hx
  have hcall : (p.free r).call = .none := hf.1
  refine ⟨fun x hx => h.handlers x (hmem x hx), fun x hx hrecv hno => ⟨?_, by simp [hcall]⟩, h.ids,
    h.distinct, h.nodup.erase r, fun x hx => by simp [hcall] at hx⟩
  intro hlist
  by_cases hxr : x = r
  · rw [hxr] at hlist
    exact (h.nodup.not_mem_erase) hlist
  · have hno' : x ∉ p.handlers := by
      intro hx'
      refine hno ?_
      simp only [Proc.free]
      split
      · exact (List.mem_erase_of_ne hxr).mpr hx'
      · exact hx'
    exact (h.missing x hx hrecv hno').1 (List.mem_of_mem_erase hlist)

/-- **A step keeps the handlers in order.** -/
theorem HandlersOk.act (h : HandlersOk p) (hp : ProcOk p) {a : ProcAct}
    (hs : p.act mode a = some (p', c)) : HandlersOk p' := by
  have heff := (act_effect hp hs).2
  -- neither the list nor the handlers change
  have same : p'.nextRid = p.nextRid → p'.handlers = p.handlers → p'.amTag = p.amTag →
      p'.requestList = p.requestList → (p'.call = p.call ∨ ∀ r, p'.call ≠ .init r) → HandlersOk p' := by
    intro hn hh htag hl hc
    refine h.congr hn (fun r hr => heff.isRecv hr) (fun r hr => heff.amId hr) hh htag
      (fun r hr => Or.inl (hl ▸ hr)) (hl ▸ h.nodup) fun r hr => ?_
    rcases hc with hc | hc
    · exact ⟨hc ▸ hr, hl ▸ h.starting r (hc ▸ hr)⟩
    · exact absurd hr (hc r)
  cases a with
  | sendInit args =>
      simp only [Proc.act] at hs
      split at hs <;> simp only [reduceCtorEq, Option.some.injEq] at hs
      rename_i hf
      obtain rfl : (p.sendInit args).1 = p' := by rw [hs]
      exact h.sendInit hp hf
  | recvInit args =>
      simp only [Proc.act] at hs
      split at hs <;> cases hs
      exact h.recvInit hp
  | start r =>
      simp only [Proc.act] at hs
      split at hs <;> simp only [reduceCtorEq, Option.some.injEq] at hs
      rename_i hf
      obtain rfl : (p.start r).1 = p' := by rw [hs]
      have hnone : p.call = .none := hf.1.1
      cases ht : p.type r <;> simp only [Proc.start, ht] at same ⊢ <;>
        exact same rfl rfl rfl rfl (Or.inr (by simp [Proc.setCall, Proc.postBackup, Proc.setReq,
          Proc.setLoc, Proc.assert, hnone]))
  | wait r =>
      simp only [Proc.act] at hs
      split at hs <;> cases hs
      cases ht : p.type r <;> simp only [Proc.wait, ht] at same ⊢ <;>
        exact same rfl rfl rfl rfl (Or.inr (by simp [Proc.setCall]))
  | free r =>
      simp only [Proc.act] at hs
      split at hs <;> cases hs
      rename_i hf
      exact h.free hf.1
  | run ans =>
      simp only [Proc.act, Proc.run] at hs
      split at hs
      · rename_i f below hn
        obtain ⟨hh, htag⟩ : ((p.setNested below).runFrame mode ans f).handlers = p.handlers ∧
            ((p.setNested below).runFrame mode ans f).amTag = p.amTag := runFrame_registry f
        obtain ⟨-, hcall, hrid, hl, -⟩ : RunsSame (p.setNested below)
            ((p.setNested below).runFrame mode ans f) := runFrame_info f
        cases hs
        exact same hrid hh htag hl (Or.inl hcall)
      · obtain ⟨hn, hh, -⟩ := runCall_keeps hs hp.call
        obtain ⟨htag, hc⟩ := runCall_registry hs
        obtain ⟨hl, -⟩ := runCall_control hs
        rcases hl with hl | ⟨r, hr, -, hl⟩
        · exact same hn hh htag hl (Or.inr hc)
        · refine h.congr hn (fun q hq => heff.isRecv hq) (fun q hq => heff.amId hq) hh htag ?_ ?_
            fun q hq => absurd hq (hc q)
          · intro q hq
            rw [hl, List.mem_cons] at hq
            rcases hq with rfl | hq
            · exact Or.inr hr
            · exact Or.inl hq
          · rw [hl]
            exact List.nodup_cons.mpr ⟨h.starting r hr, h.nodup⟩
  | deliver r msg here =>
      simp only [Proc.act] at hs
      split at hs <;> cases hs
      exact same rfl rfl rfl rfl (Or.inl rfl)
  | lands r number bytes =>
      simp only [Proc.act] at hs
      split at hs <;> cases hs
      exact same rfl rfl rfl rfl (Or.inl rfl)

/-- A handler that is gone does not come back. -/
theorem act_handlers (hp : ProcOk p) {a : ProcAct} (hs : p.act mode a = some (p', c)) :
    ∀ r ∈ p'.handlers, r ∈ p.handlers ∨ r = p.nextRid := by
  have same : p'.handlers = p.handlers → ∀ r ∈ p'.handlers, r ∈ p.handlers ∨ r = p.nextRid :=
    fun hh r hr => Or.inl (hh ▸ hr)
  cases a with
  | sendInit args =>
      simp only [Proc.act] at hs
      split at hs <;> simp only [reduceCtorEq, Option.some.injEq] at hs
      obtain rfl : (p.sendInit args).1 = p' := by rw [hs]
      exact same rfl
  | recvInit args =>
      simp only [Proc.act] at hs
      split at hs <;> cases hs
      intro r hr
      exact (List.mem_cons.mp hr).symm
  | start r =>
      simp only [Proc.act] at hs
      split at hs <;> simp only [reduceCtorEq, Option.some.injEq] at hs
      obtain rfl : (p.start r).1 = p' := by rw [hs]
      cases ht : p.type r <;> simp only [Proc.start, ht] at same ⊢ <;> exact same rfl
  | wait r =>
      simp only [Proc.act] at hs
      split at hs <;> cases hs
      cases ht : p.type r <;> simp only [Proc.wait, ht] at same ⊢ <;> exact same rfl
  | free r =>
      simp only [Proc.act] at hs
      split at hs <;> cases hs
      intro x hx
      simp only [Proc.free] at hx
      split at hx
      · exact Or.inl (List.mem_of_mem_erase hx)
      · exact Or.inl hx
  | run ans =>
      simp only [Proc.act, Proc.run] at hs
      split at hs
      · rename_i f below hn
        have hh : ((p.setNested below).runFrame mode ans f).handlers = p.handlers := (runFrame_registry f).1
        cases hs
        exact same hh
      · exact same (runCall_keeps hs hp.call).2.1
  | deliver r msg here | lands r number bytes =>
      simp only [Proc.act] at hs
      split at hs <;> cases hs
      exact same rfl

/-- A new request has nothing in hand. -/
theorem act_new (hp : ProcOk p) {a : ProcAct} (hs : p.act mode a = some (p', c)) (hr : r < p'.nextRid)
    (hnew : ¬ r < p.nextRid) : (p'.reqs r).held = [] := by
  cases (act_effect hp hs).2 with
  | steps hn hi hpost htest hrecv => exact absurd (hn ▸ hr) hnew
  | @sendInit args hn ho ht hc =>
      obtain rfl : r = p.nextRid := Nat.le_antisymm (Nat.le_of_lt_succ (hr.trans_eq hn)) (Nat.le_of_not_lt hnew)
      simp only [Proc.act] at hs
      split at hs <;> simp only [reduceCtorEq, Option.some.injEq] at hs
      obtain rfl : (p.sendInit args).1 = p' := by rw [hs]
      rw [show (p.sendInit args).1.reqs p.nextRid = _ from Function.update_self _ _ _]
      rfl
  | @recvInit args hn ho ht hc =>
      obtain rfl : r = p.nextRid := Nat.le_antisymm (Nat.le_of_lt_succ (hr.trans_eq hn)) (Nat.le_of_not_lt hnew)
      simp only [Proc.act] at hs
      split at hs <;> cases hs
      rw [show (p.recvInit args).reqs p.nextRid = _ from Function.update_self _ _ _]
      rfl

/-! ### Which requests there are for an envelope -/

/-- Requests are added, and the old ones stay what they are. -/
structure Grows (p p' : Proc) : Prop where
  nextRid : p.nextRid ≤ p'.nextRid
  isRecv : ∀ r < p.nextRid, (p'.type r).isRecv = (p.type r).isRecv
  dest : ∀ r < p.nextRid, (p'.reqs r).req.dest = (p.reqs r).req.dest
  tag : ∀ r < p.nextRid, (p'.reqs r).req.tag = (p.reqs r).req.tag
  amId : ∀ r < p.nextRid, (p'.reqs r).req.amId = (p.reqs r).req.amId

theorem Grows.refl : Grows p p := ⟨Nat.le_refl _, fun _ _ => rfl, fun _ _ => rfl, fun _ _ => rfl, fun _ _ => rfl⟩

theorem act_grows (hp : ProcOk p) {a : ProcAct} (hs : p.act mode a = some (p', c)) : Grows p p' := by
  have heff := (act_effect hp hs).2
  exact ⟨heff.nextRid.1, fun r hr => heff.isRecv hr, fun r hr => (act_retains hs hr).dest,
    fun r hr => (act_retains hs hr).tag, fun r hr => heff.amId hr⟩

theorem mem_lane {recv : Bool} {peer : Rank} {tag : Int} :
    r ∈ p.lane recv peer tag ↔ r < p.nextRid ∧ (p.type r).isRecv = recv ∧ (p.reqs r).req.dest = peer ∧
      (p.reqs r).req.tag = tag := by
  simp [Proc.lane, and_assoc]

theorem lane_nodup {recv : Bool} {peer : Rank} {tag : Int} : (p.lane recv peer tag).Nodup :=
  List.nodup_range.filter _

theorem Grows.lane (h : Grows p p') (recv : Bool) (peer : Rank) (tag : Int) :
    ∃ more, p'.lane recv peer tag = p.lane recv peer tag ++ more := by
  obtain ⟨n, hn⟩ := Nat.exists_eq_add_of_le h.nextRid
  refine ⟨((List.range n).map (p.nextRid + ·)).filter fun r => (p'.type r).isRecv == recv &&
    (p'.reqs r).req.dest == peer && (p'.reqs r).req.tag == tag, ?_⟩
  rw [Proc.lane, Proc.lane, hn, List.range_add, List.filter_append]
  congr 1
  refine List.filter_congr fun r hr => ?_
  have hlt := List.mem_range.mp hr
  rw [h.isRecv r hlt, h.dest r hlt, h.tag r hlt]

end

namespace Network

/-! ### Partners -/

section
variable {mode : Mode} {n n' : Network} {j k : Rank} {r s : Rid}

theorem Partners.mem (h : n.Partners j s k r) :
    s ∈ (n.procs j).lane false k (n.req j s).tag ∧ r ∈ (n.procs k).lane true j (n.req j s).tag := by
  obtain ⟨hsend, rfl, hm⟩ := h
  simp only [counterpart, hsend] at hm
  obtain ⟨hs, hr⟩ := opposite_eq_some.mp hm
  exact ⟨hs, List.mem_of_getElem? hr⟩

theorem Partners.send_lt (h : n.Partners j s k r) : s < (n.procs j).nextRid := (mem_lane.mp h.mem.1).1

theorem Partners.recv_lt (h : n.Partners j s k r) : r < (n.procs k).nextRid := (mem_lane.mp h.mem.2).1

theorem Partners.isRecv (h : n.Partners j s k r) : ((n.procs k).type r).isRecv = true :=
  (mem_lane.mp h.mem.2).2.1

/-- Seen from the receive request. -/
theorem Partners.symm (h : n.Partners j s k r) :
    (n.req k r).dest = j ∧ n.counterpart k r = some s := by
  obtain ⟨hlt, hrecv, hdest, htag⟩ := mem_lane.mp h.mem.2
  obtain ⟨hsend, hpeer, hm⟩ := h
  refine ⟨hdest, ?_⟩
  simp only [counterpart, hsend, hpeer, Bool.not_false] at hm
  simp only [counterpart, show (n.req k r).type.isRecv = true from hrecv,
    show (n.req k r).dest = j from hdest, show (n.req k r).tag = (n.req j s).tag from htag, Bool.not_true]
  exact opposite_symm lane_nodup hm

/-- **A receive request belongs with one send request only.** -/
theorem Partners.unique (h : n.Partners j s k r) {j' : Rank} {s' : Rid} (h' : n.Partners j' s' k r) :
    j' = j ∧ s' = s := by
  obtain ⟨hd, hm⟩ := h.symm
  obtain ⟨hd', hm'⟩ := h'.symm
  exact ⟨hd'.symm.trans hd, Option.some.inj (hm'.symm.trans hm)⟩

/-- A send request belongs with one receive request only. -/
theorem Partners.unique_recv (h : n.Partners j s k r) {k' : Rank} {r' : Rid} (h' : n.Partners j s k' r') :
    k' = k ∧ r' = r :=
  ⟨h'.peer.symm.trans h.peer, Option.some.inj (h'.matched.symm.trans h.matched)⟩

/-- **Requests that belong together do so for good.** -/
theorem Partners.grows (h : n.Partners j s k r) (hg : ∀ k, Grows (n.procs k) (n'.procs k)) :
    n'.Partners j s k r := by
  have hlt := h.send_lt
  obtain ⟨hsend, hpeer, hm⟩ := h
  have hsend' : (n'.req j s).type.isRecv = false := ((hg j).isRecv s hlt).trans hsend
  have hpeer' : (n'.req j s).dest = k := ((hg j).dest s hlt).trans hpeer
  refine ⟨hsend', hpeer', ?_⟩
  simp only [counterpart, hsend, hpeer] at hm
  simp only [counterpart, hsend', hpeer', show (n'.req j s).tag = (n.req j s).tag from (hg j).tag s hlt]
  obtain ⟨xs, hxs⟩ := (hg j).lane false k (n.req j s).tag
  obtain ⟨ys, hys⟩ := (hg k).lane (!false) j (n.req j s).tag
  rw [hxs, hys]
  exact opposite_append hm

theorem IsFor.grows {x : Packet} (h : n.IsFor x k r) (hg : ∀ k, Grows (n.procs k) (n'.procs k)) :
    n'.IsFor x k r := by
  refine ⟨h.1.grows hg, h.2.trans ?_⟩
  exact ((hg k).amId r h.1.recv_lt).symm

theorem handlerOf_iff (h : HandlersOk (n.procs k)) {amId : Nat} :
    (n.procs k).handlerOf amId = some r ↔ r ∈ (n.procs k).handlers ∧ (n.req k r).amId = amId := by
  constructor
  · intro hr
    have he : ((n.procs k).reqs r).req.amId = amId := by simpa using List.find?_some hr
    exact ⟨List.mem_of_find?_eq_some hr, he⟩
  · rintro ⟨hmem, rfl⟩
    cases hf : (n.procs k).handlerOf (n.req k r).amId with
    | none =>
        have hno := List.find?_eq_none.mp hf r hmem
        exact absurd (beq_self_eq_true _) hno
    | some q =>
        have hq := List.mem_of_find?_eq_some hf
        have he : ((n.procs k).reqs q).req.amId = (n.req k r).amId := by simpa using List.find?_some hf
        obtain ⟨hqlt, hqrecv⟩ := h.handlers q hq
        obtain ⟨hrlt, hrrecv⟩ := h.handlers r hmem
        rw [h.distinct q hqlt r hrlt hqrecv hrrecv he]

/-- UCX finds the request that a message is for, or nothing. -/
theorem IsFor.handlerOf (h : HandlersOk (n.procs k)) {x : Packet} (hx : n.IsFor x k r) :
    (n.procs k).handlerOf x.amId = some r ∨
      (n.procs k).handlerOf x.amId = none ∧ r ∉ (n.procs k).handlers := by
  by_cases hr : r ∈ (n.procs k).handlers
  · exact Or.inl ((handlerOf_iff h).mpr ⟨hr, hx.2.symm⟩)
  · refine Or.inr ⟨?_, hr⟩
    cases hf : (n.procs k).handlerOf x.amId with
    | none => rfl
    | some q =>
        obtain ⟨hq, he⟩ := (handlerOf_iff h).mp hf
        obtain ⟨hqlt, hqrecv⟩ := h.handlers q hq
        have hqr : q = r := h.distinct q hqlt r hx.1.recv_lt hqrecv hx.1.isRecv (he.trans hx.2)
        exact absurd (hqr ▸ hq) hr

end

/-! ### The invariant -/

structure Inv (n : Network) : Prop where
  procs : ∀ k, ProcOk (n.procs k)
  handlers : ∀ k, HandlersOk (n.procs k)
  /-- The id that has come to a send request is that of its partner. -/
  arrived : ∀ j s a, n.amIds j s = some a → ∃ k r, n.Partners j s k r ∧ a = (n.req k r).amId
  connected : ∀ j s, s < (n.procs j).nextRid → (n.procs j).type s = .send → (n.amIds j s).isSome = true
  inFlight : ∀ j k, ∀ x ∈ n.channels j k, x.origin.1 = j ∧ ∃ r, n.IsFor x k r
  given : ∀ k r number o, n.origin k r number = some o → n.Partners o.1 o.2 k r
  discarded : ∀ x ∈ n.discarded, ∃ k r, n.IsFor x k r ∧ r ∉ (n.procs k).handlers
  /-- What a request has in hand was given to its handler. -/
  held : ∀ k, ∀ r < (n.procs k).nextRid, ∀ x ∈ ((n.procs k).reqs r).held, (n.origin k r x).isSome = true
  /-- Only a connected request has sent anything. -/
  sent : ∀ j s x, n.payload j s x ≠ [] → ∃ k r, n.Partners j s k r

section
variable {mode : Mode} {n n' : Network} {j k : Rank} {r s : Rid}

theorem inv_init (h : Init n) : n.Inv := by
  have hrid := fun k => (h.requests k).2.2
  have none_lt : ∀ {k r} {P : Prop}, r < (n.procs k).nextRid → P := by
    intro k r P hr
    rw [hrid] at hr
    exact absurd hr (Nat.not_lt_zero _)
  refine ⟨fun k => ⟨?_, ?_, ?_⟩, fun k => ⟨?_, ?_, ?_, ?_, ?_, ?_⟩, ?_, ?_, ?_, ?_, ?_, ?_, ?_⟩
  · simp [CallOk, (h.free k).1]
  · simp [(h.requests k).1]
  · simp [(h.free k).1]
  · simp [(h.requests k).2.1]
  · exact fun r hr => none_lt hr
  · exact fun r hr => none_lt hr
  · exact fun q hq => none_lt hq
  · simp [(h.requests k).1]
  · simp [(h.free k).1]
  · simp [h.amIds]
  · exact fun j s hs => none_lt hs
  · simp [h.channels]
  · simp [h.origin]
  · simp [h.discarded]
  · exact fun k r hr => none_lt hr
  · simp [h.payload]

/-- What is on its way, or was given, is as before, and the processes have gone on. -/
theorem Inv.follow (h : n.Inv) (hg : ∀ k, Grows (n.procs k) (n'.procs k))
    (hprocs : ∀ k, ProcOk (n'.procs k)) (hhandlers : ∀ k, HandlersOk (n'.procs k))
    (hmissing : ∀ k, ∀ r ∈ (n'.procs k).handlers, r ∈ (n.procs k).handlers ∨ r = (n.procs k).nextRid)
    (hamIds : n'.amIds = n.amIds) (hchannels : n'.channels = n.channels) (horigin : n'.origin = n.origin)
    (hdiscarded : n'.discarded = n.discarded) (hpayload : n'.payload = n.payload)
    (hconnected : ∀ j s, s < (n'.procs j).nextRid → (n'.procs j).type s = .send →
      (n.amIds j s).isSome = true)
    (hheld : ∀ k, ∀ r < (n'.procs k).nextRid, ∀ x ∈ ((n'.procs k).reqs r).held,
      (n.origin k r x).isSome = true) : n'.Inv := by
  refine ⟨hprocs, hhandlers, fun j s a ha => ?_, fun j s hs ht => ?_, fun j k x hx => ?_,
    fun k r number o ho => ?_, fun x hx => ?_, fun k r hr x hx => ?_, fun j s x hx => ?_⟩
  · rw [hamIds] at ha
    obtain ⟨k, r, hp, rfl⟩ := h.arrived j s a ha
    exact ⟨k, r, hp.grows hg, ((hg k).amId r hp.recv_lt).symm⟩
  · rw [hamIds]
    exact hconnected j s hs ht
  · rw [hchannels] at hx
    obtain ⟨hj, r, hfor⟩ := h.inFlight j k x hx
    exact ⟨hj, r, hfor.grows hg⟩
  · rw [horigin] at ho
    exact (h.given k r number o ho).grows hg
  · rw [hdiscarded] at hx
    obtain ⟨k, r, hfor, hno⟩ := h.discarded x hx
    refine ⟨k, r, hfor.grows hg, fun hmem => ?_⟩
    exact (hmissing k r hmem).elim hno (Nat.ne_of_lt hfor.1.recv_lt)
  · rw [horigin]
    exact hheld k r hr x hx
  · rw [hpayload] at hx
    obtain ⟨k, r, hp⟩ := h.sent j s x hx
    exact ⟨k, r, hp.grows hg⟩

/-- The processes are as before, and what is new fits them. -/
theorem Inv.add (h : n.Inv) (hp : n'.procs = n.procs)
    (hamIds : ∀ j s a, n'.amIds j s = some a →
      n.amIds j s = some a ∨ ∃ k r, n.Partners j s k r ∧ a = (n.req k r).amId)
    (hkeep : ∀ j s, (n.amIds j s).isSome = true → (n'.amIds j s).isSome = true)
    (hchannels : ∀ j k, ∀ x ∈ n'.channels j k,
      x ∈ n.channels j k ∨ x.origin.1 = j ∧ ∃ r, n.IsFor x k r)
    (horigin : ∀ k r number o, n'.origin k r number = some o →
      n.origin k r number = some o ∨ n.Partners o.1 o.2 k r)
    (hnoted : ∀ k r x, (n.origin k r x).isSome = true → (n'.origin k r x).isSome = true)
    (hdiscarded : ∀ x ∈ n'.discarded,
      x ∈ n.discarded ∨ ∃ k r, n.IsFor x k r ∧ r ∉ (n.procs k).handlers)
    (hpayload : ∀ j s x, n'.payload j s x ≠ [] → n.payload j s x ≠ [] ∨ ∃ k r, n.Partners j s k r) :
    n'.Inv := by
  have hg : ∀ k, Grows (n.procs k) (n'.procs k) := fun k => hp ▸ .refl
  have hreq : ∀ k r, n'.req k r = n.req k r := fun k r => by rw [req, req, hp]
  refine ⟨fun k => hp ▸ h.procs k, fun k => hp ▸ h.handlers k, fun j s a ha => ?_, fun j s hs ht => ?_,
    fun j k x hx => ?_, fun k r number o ho => ?_, fun x hx => ?_, fun k r hr x hx => ?_,
    fun j s x hx => ?_⟩
  · obtain ⟨k, r, hpart, rfl⟩ := (hamIds j s a ha).elim (h.arrived j s a) id
    exact ⟨k, r, hpart.grows hg, by rw [hreq]⟩
  · rw [hp] at hs ht
    exact hkeep j s (h.connected j s hs ht)
  · obtain ⟨hj, r, hfor⟩ := (hchannels j k x hx).elim (h.inFlight j k x) id
    exact ⟨hj, r, hfor.grows hg⟩
  · exact ((horigin k r number o ho).elim (h.given k r number o) id).grows hg
  · obtain ⟨k, r, hfor, hno⟩ := (hdiscarded x hx).elim (h.discarded x) id
    exact ⟨k, r, hfor.grows hg, by rwa [hp]⟩
  · rw [hp] at hr hx
    exact hnoted k r x (h.held k r hr x hx)
  · obtain ⟨k, r, hpart⟩ := (hpayload j s x hx).elim (h.sent j s x) id
    exact ⟨k, r, hpart.grows hg⟩

/-- Only a request that its id has come to turns into a connected one. -/
theorem connected_act (h : n.Inv) {a : ProcAct} {p : Proc} {c : Option MpiCall}
    (hs : (n.procs k).act mode a = some (p, c)) (hperm : n.permits k a.flag c = true)
    (hlt : s < p.nextRid) (ht : p.type s = .send) : (n.amIds k s).isSome = true := by
  cases (act_effect (h.procs k) hs).2 with
  | sendInit hn ho ht' hc | recvInit hn ho ht' hc =>
      have hne : s ≠ (n.procs k).nextRid := by
        rintro rfl
        rw [ht'] at ht
        exact absurd ht (by decide)
      refine h.connected k s (Nat.lt_of_le_of_ne (Nat.le_of_lt_succ (hlt.trans_eq hn)) hne) ?_
      rw [Proc.type, ho s hne] at ht
      exact ht
  | steps hn hi hpost htest hrecv =>
      have hold : s < (n.procs k).nextRid := hn ▸ hlt
      cases hi s with
      | same hsame hc => exact h.connected k s hold (hsame.type.symm.trans ht)
      | posted ht' ha he => exact h.connected k s hold (ht'.symm.trans ht)
      | decided hsearch ha ht' =>
          obtain ⟨-, hx⟩ := htest s rfl
          have hnone : (n.req k s).rdmaExchangeRequest.isNone = false := by
            cases hr : (n.req k s).rdmaExchangeRequest with
            | none => simp [show ((n.procs k).reqs s).req.rdmaExchangeRequest = none from hr] at hx
            | some x => rfl
          rw [Proc.type, ht', show ((n.procs k).reqs s).req.rdmaExchangeRequest.isNone = false from hnone,
            Bool.false_or] at ht
          -- the type is that of a sender that has seen the id
          have htype : (n.req k s).type = .sendSearch ∧ a.flag = true := by
            cases hq : (n.req k s).type <;> cases hf : a.flag <;>
              simp [show ((n.procs k).reqs s).req.type = _ from hq, hf, RequestType.decided,
                RequestType.isSearch] at hsearch ht ⊢
          simp only [permits, htype.1, htype.2, Bool.not_true, Bool.false_or] at hperm
          exact hperm

/-- **A process takes a step**, and what it is given is noted. -/
theorem Inv.act (h : n.Inv) {a : ProcAct} (hs : n.act mode k a = some n')
    (hgiven : ∀ q, ∀ x ∈ a.given q, (n.origin k q x).isSome = true) : n'.Inv := by
  unfold Network.act at hs
  split at hs
  · rename_i p c hact
    split at hs <;> cases hs
    rename_i hperm
    have hself : ∀ {k'}, k' = k → (n.setProc k p).procs k' = p := by
      rintro k' rfl
      exact Function.update_self _ _ _
    have hother : ∀ {k'}, k' ≠ k → (n.setProc k p).procs k' = n.procs k' :=
      fun hk => Function.update_of_ne hk _ _
    refine h.follow (fun k' => ?_) (fun k' => ?_) (fun k' => ?_) (fun k' => ?_) rfl rfl rfl rfl rfl
      (fun k' s hs ht => ?_) (fun k' r hr x hx => ?_) <;> by_cases hk : k' = k
    · rw [hself hk, hk]
      exact act_grows (h.procs k) hact
    · rw [hother hk]
      exact .refl
    · rw [hself hk]
      exact (act_effect (h.procs k) hact).1
    · rw [hother hk]
      exact h.procs k'
    · rw [hself hk]
      exact (h.handlers k).act (h.procs k) hact
    · rw [hother hk]
      exact h.handlers k'
    · rw [hself hk, hk]
      exact act_handlers (h.procs k) hact
    · rw [hother hk]
      exact fun _ hr => Or.inl hr
    · rw [hself hk] at hs ht
      rw [hk]
      exact connected_act h hact hperm hs ht
    · rw [hother hk] at hs ht
      exact h.connected k' s hs ht
    · rw [hself hk] at hr hx
      rw [hk]
      by_cases hold : r < (n.procs k).nextRid
      · rcases (act_retains hact hold).held x hx with hx | hx
        · exact h.held k r hold x hx
        · exact hgiven r x hx
      · rw [act_new (h.procs k) hact hr hold] at hx
        exact absurd hx List.not_mem_nil
    · rw [hother hk] at hr hx
      exact h.held k' r hr x hx
  · cases hs

theorem update_update {α : Type} (f : Rank → Nat → α) (j k : Rank) (x : α) (j' k' : Nat) :
    Function.update f j (Function.update (f j) k x) j' k' = if j' = j ∧ k' = k then x else f j' k' := by
  by_cases hj : j' = j
  · subst hj
    by_cases hk : k' = k
    · simp [hk]
    · simp [hk]
  · simp [hj]

theorem channels_setChannel (n : Network) (j k : Rank) (xs : List Packet) (j' k' : Rank) :
    (n.setChannel j k xs).channels j' k' = if j' = j ∧ k' = k then xs else n.channels j' k' :=
  update_update n.channels j k xs j' k'

/-- A connected request hands a message to UCX. -/
theorem Inv.emit (h : n.Inv) {msg : AmMsg} (ha : (n.amIds j s).isSome = true) :
    (n.emit j (some (s, msg))).Inv := by
  obtain ⟨a, ha⟩ := Option.isSome_iff_exists.mp ha
  obtain ⟨k, r, hpart, rfl⟩ := h.arrived j s a ha
  refine h.add rfl (fun _ _ _ hx => Or.inl hx) (fun _ _ hx => hx) (fun j' k' x hx => ?_)
    (fun _ _ _ _ hx => Or.inl hx) (fun _ _ _ hx => hx) (fun _ hx => Or.inl hx) (fun j' s' x hx => ?_)
  · rw [show (n.emit j (some (s, msg))).channels j' k' = _ from channels_setChannel n j _ _ j' k'] at hx
    split at hx
    · rename_i hk
      obtain ⟨rfl, rfl⟩ := hk
      rw [List.mem_append, List.mem_singleton] at hx
      refine hx.imp_right ?_
      rintro rfl
      refine ⟨rfl, r, ?_⟩
      rw [hpart.peer]
      exact ⟨hpart, by simp [amId, ha]⟩
    · exact Or.inl hx
  · rw [show (n.emit j (some (s, msg))).payload j' s' = _ from update_update n.payload j s _ j' s'] at hx
    split at hx
    · rename_i hs
      obtain ⟨rfl, rfl⟩ := hs
      exact Or.inr ⟨k, r, hpart⟩
    · exact Or.inl hx

/-- A message leaves its channel. -/
theorem Inv.setChannel (h : n.Inv) {xs : List Packet} (hxs : ∀ x ∈ xs, x ∈ n.channels j k) :
    (n.setChannel j k xs).Inv := by
  refine h.add rfl (fun _ _ _ hx => Or.inl hx) (fun _ _ hx => hx) (fun j' k' x hx => Or.inl ?_)
    (fun _ _ _ _ hx => Or.inl hx) (fun _ _ _ hx => hx) (fun _ hx => Or.inl hx) (fun _ _ _ hx => Or.inl hx)
  rw [channels_setChannel] at hx
  split at hx
  · rename_i hk
    rw [hk.1, hk.2]
    exact hxs x hx
  · exact hx

/-- It is noted where a message comes from. -/
theorem Inv.note (h : n.Inv) {x : Packet} (hx : n.IsFor x k r) : (n.note k r x).Inv := by
  refine h.add rfl (fun _ _ _ hx => Or.inl hx) (fun _ _ hx => hx) (fun _ _ _ hx => Or.inl hx)
    (fun k' r' number o ho => ?_) (fun k' r' number hnoted => ?_) (fun _ hx => Or.inl hx)
    (fun _ _ _ hx => Or.inl hx)
  · simp only [Network.note, update_update] at ho
    split at ho
    · rename_i hk
      obtain ⟨rfl, rfl⟩ := hk
      by_cases hn : number = x.msg.number
      · rw [hn, Function.update_self, Option.some.injEq] at ho
        exact Or.inr (ho ▸ hx.1)
      · rw [Function.update_of_ne hn] at ho
        exact Or.inl ho
    · exact Or.inl ho
  · simp only [Network.note, update_update]
    split
    · rename_i hk
      obtain ⟨rfl, rfl⟩ := hk
      by_cases hn : number = x.msg.number
      · rw [hn, Function.update_self]
        rfl
      · rw [Function.update_of_ne hn]
        exact hnoted
    · exact hnoted

/-- **A handler runs, or UCX discards a message.** -/
theorem Inv.give (h : n.Inv) {imm : Bool} {x : Packet} (hx : n.IsFor x k r)
    (hprog : (n.procs k).progressing = true) : (give mode n k imm x).Inv := by
  have hr := hx.handlerOf (h.handlers k)
  unfold Network.give
  rcases hr with hr | ⟨hr, hno⟩ <;> rw [hr]
  · have hmem := ((handlerOf_iff (h.handlers k)).mp hr).1
    have hact : (n.note k r x).act mode k
        (.deliver r x.msg (if imm then some (n.req x.origin.1 x.origin.2).buf else none)) =
          some ((n.note k r x).setProc k ((n.procs k).setLoc r (incomingAmMsgHandler mode
            (if imm then some (n.req x.origin.1 x.origin.2).buf else none) x.msg ((n.procs k).reqs r)))) := by
      simp [Network.act, Network.note, Proc.act, hprog, hmem, permits]
    refine (h.note hx).act hact fun q y hy => ?_
    simp only [ProcAct.given] at hy
    split at hy
    · rename_i hq
      subst hq
      rw [List.mem_singleton] at hy
      simp [Network.note, hy]
    · exact absurd hy List.not_mem_nil
  · refine h.add rfl (fun _ _ _ hx => Or.inl hx) (fun _ _ hx => hx) (fun _ _ _ hx => Or.inl hx)
      (fun _ _ _ _ hx => Or.inl hx) (fun _ _ _ hx => hx) (fun y hy => ?_) (fun _ _ _ hx => Or.inl hx)
    rcases List.mem_append.mp hy with hy | hy
    · exact Or.inl hy
    · rw [List.mem_singleton] at hy
      exact Or.inr ⟨k, r, hy ▸ hx, hno⟩

/-- MPI writes the id of its partner to a send request. -/
theorem Inv.arrive (h : n.Inv) (hp : n.Partners j s k r) :
    Inv { n with
      amIds := Function.update n.amIds j (Function.update (n.amIds j) s (some (n.req k r).amId)) } := by
  refine h.add rfl (fun j' s' a ha => ?_) (fun j' s' hs => ?_) (fun _ _ _ hx => Or.inl hx)
    (fun _ _ _ _ hx => Or.inl hx) (fun _ _ _ hx => hx) (fun _ hx => Or.inl hx) (fun _ _ _ hx => Or.inl hx)
  · simp only [update_update] at ha
    split at ha
    · rename_i hj
      obtain ⟨rfl, rfl⟩ := hj
      exact Or.inr ⟨k, r, hp, (Option.some.inj ha).symm⟩
    · exact Or.inl ha
  · simp only [update_update]
    split
    · rfl
    · exact hs

/-- The user fills a buffer. -/
theorem Inv.write (h : n.Inv) {bytes : List UInt8} :
    (n.setProc k ((n.procs k).setLoc r (((n.procs k).reqs r).setBuf bytes))).Inv := by
  have hinfo : SameInfo ((n.procs k).reqs r) (((n.procs k).reqs r).setBuf bytes) := ⟨rfl, rfl, rfl⟩
  have hkeep : Retains [] ((n.procs k).reqs r) (((n.procs k).reqs r).setBuf bytes) :=
    .of_held rfl rfl rfl rfl
  have hi := setLoc_sameInfo hinfo
  have hk := setLoc_retains hkeep
  have hself : ∀ {k'}, k' = k → (n.setProc k ((n.procs k).setLoc r (((n.procs k).reqs r).setBuf
      bytes))).procs k' = (n.procs k).setLoc r (((n.procs k).reqs r).setBuf bytes) := by
    rintro k' rfl
    exact Function.update_self _ _ _
  have hother : ∀ {k'}, k' ≠ k → (n.setProc k ((n.procs k).setLoc r (((n.procs k).reqs r).setBuf
      bytes))).procs k' = n.procs k' := fun hk => Function.update_of_ne hk _ _
  refine h.follow (fun k' => ?_) (fun k' => ?_) (fun k' => ?_) (fun k' => ?_) rfl rfl rfl rfl rfl
    (fun k' s hs ht => ?_) (fun k' r' hr x hx => ?_) <;> by_cases he : k' = k
  · rw [hself he, he]
    exact ⟨Nat.le_refl _, fun q _ => congrArg _ (hi q).type, fun q _ => (hk q).dest, fun q _ => (hk q).tag,
      fun q _ => (hi q).amId⟩
  · rw [hother he]
    exact .refl
  · rw [hself he]
    exact (h.procs k).congr hi rfl rfl (fun _ hq => hq) rfl
  · rw [hother he]
    exact h.procs k'
  · rw [hself he]
    exact (h.handlers k).congr rfl (fun q _ => congrArg _ (hi q).type) (fun q _ => (hi q).amId) rfl rfl
      (fun _ hq => Or.inl hq) (h.handlers k).nodup fun q hq => ⟨hq, (h.handlers k).starting q hq⟩
  · rw [hother he]
    exact h.handlers k'
  · rw [hself he, he]
    exact fun _ hr => Or.inl hr
  · rw [hother he]
    exact fun _ hr => Or.inl hr
  · rw [hself he] at hs ht
    rw [he]
    exact h.connected k s hs ((hi s).type.symm.trans ht)
  · rw [hother he] at hs ht
    exact h.connected k' s hs ht
  · rw [hself he] at hr hx
    rw [he]
    exact h.held k r' hr x (((hk r').held x hx).resolve_right List.not_mem_nil)
  · rw [hother he] at hr hx
    exact h.held k' r' hr x hx

/-- A step that hands a message to UCX is that of a connected request. -/
theorem Inv.emits (h : n.Inv) {imm : Bool} {msg : AmMsg}
    (he : (n.procs k).emits mode imm = some (s, msg)) : (n.amIds k s).isSome = true := by
  have hok := (h.procs k).call
  unfold Proc.emits at he
  split at he
  · rename_i s' pt hn hc
    obtain ⟨msg', -, hs⟩ := Option.map_eq_some_iff.mp he
    obtain rfl : s' = s := congrArg Prod.fst hs
    rw [CallOk, hc] at hok
    exact h.connected k s' hok.1 hok.2
  · cases he

/-- **One step keeps the invariant.** -/
theorem Inv.step (h : n.Inv) {a : NetworkAct} (hs : n.step mode a = some n') : n'.Inv := by
  cases a with
  | sendInit k args | recvInit k args | start k r | wait k r | free k r =>
      exact h.act hs fun _ _ hx => absurd hx List.not_mem_nil
  | lands k r number =>
      simp only [Network.step] at hs
      split at hs
      · exact h.act hs fun _ _ hx => absurd hx List.not_mem_nil
      · cases hs
  | run k imm flag =>
      simp only [Network.step] at hs
      split at hs
      · obtain ⟨n₁, hact, rfl⟩ := Option.map_eq_some_iff.mp hs
        have h₁ : n₁.Inv := h.act hact fun _ _ hx => absurd hx List.not_mem_nil
        cases he : (n.procs k).emits mode imm with
        | none => exact h₁
        | some x =>
            refine h₁.emit ?_
            have ha := h.emits he
            unfold Network.act at hact
            split at hact
            · split at hact <;> cases hact
              exact ha
            · cases hact
      · cases hs
  | write k r bytes =>
      simp only [Network.step] at hs
      split at hs <;> cases hs
      exact h.write
  | infoArrives j s =>
      simp only [Network.step] at hs
      split at hs
      · rename_i r hm
        split at hs <;> cases hs
        rename_i hc
        exact h.arrive ⟨hc.1, rfl, hm⟩
      · cases hs
  | deliver j k imm =>
      simp only [Network.step] at hs
      split at hs
      · rename_i x rest hx
        split at hs <;> cases hs
        rename_i hprog
        have h₁ : (n.setChannel j k rest).Inv :=
          h.setChannel fun y hy => hx ▸ List.mem_cons_of_mem _ hy
        obtain ⟨-, r, hfor⟩ := h.inFlight j k x (hx ▸ List.mem_cons_self)
        exact h₁.give (hfor.grows fun _ => .refl) hprog
      · cases hs

/--
**Every message goes to the request it is for**, in every run of any number of processes.
-/
theorem addressed (h : Reach (Network.step mode) anyStep Init n) : n.Addressed := by
  have hinv : n.Inv := h.invariant (fun _ h0 => inv_init h0) fun _ _ _ hi _ hs => hi.step hs
  refine ⟨fun j s k r hp j' s' hp' => hp.unique hp', fun k r hr r' hr' he => ?_, hinv.arrived,
    fun j s hs ht => ?_, fun j k x hx => ?_, hinv.given, fun x hx => ?_⟩
  · obtain ⟨hlt, hrecv⟩ := (hinv.handlers k).handlers r hr
    obtain ⟨hlt', hrecv'⟩ := (hinv.handlers k).handlers r' hr'
    exact (hinv.handlers k).distinct r hlt r' hlt' hrecv hrecv' he
  · obtain ⟨a, ha⟩ := Option.isSome_iff_exists.mp (hinv.connected j s hs ht)
    obtain ⟨k, r, hp, he⟩ := hinv.arrived j s a ha
    exact ⟨k, r, hp, by rw [amId, ha, Option.getD_some, he]⟩
  · obtain ⟨-, r, hfor⟩ := hinv.inFlight j k x hx
    refine ⟨r, hfor, (hfor.handlerOf (hinv.handlers k)).imp_right fun hno => ⟨hno.1, ?_⟩⟩
    exact ((hinv.handlers k).missing r hfor.1.recv_lt hfor.1.isRecv hno.2).1
  · obtain ⟨k, r, hfor, hno⟩ := hinv.discarded x hx
    exact ⟨k, r, hfor, ((hinv.handlers k).missing r hfor.1.recv_lt hfor.1.isRecv hno).1⟩

end

/-! ### A run of two processes -/

/-- Every process is without requests. -/
def fresh : Network where
  procs := fun _ => World.freshProc
  channels := fun _ _ => []
  amIds := fun _ _ => none
  origin := fun _ _ _ => none
  discarded := []
  payload := fun _ _ _ => []

theorem fresh_init : Init fresh :=
  ⟨fun _ => ⟨rfl, rfl, rfl⟩, fun _ => ⟨rfl, rfl⟩, fun _ _ => rfl, fun _ _ => rfl, fun _ _ _ => rfl, rfl,
    fun _ _ _ => rfl⟩

/-- `i` steps of process `k`. -/
def runs (i : Nat) (k : Rank) (flag : Bool) : List NetworkAct := List.replicate i (.run k false flag)

/-- Two receive requests of process 1, and two send requests of process 0 in the other order. -/
def crossedRun : List NetworkAct :=
  [.recvInit 1 ⟨[0], 0, 5⟩] ++ runs 1 1 false ++ [.recvInit 1 ⟨[0], 0, 6⟩] ++ runs 1 1 false ++
    [.sendInit 0 ⟨[7], 1, 6⟩, .sendInit 0 ⟨[8], 1, 5⟩, .infoArrives 0 0, .infoArrives 0 1, .start 0 0,
      .start 1 1, .start 0 1, .start 1 0, .wait 0 0] ++ runs 2 0 true ++ [.wait 0 1] ++ runs 2 0 true ++
    [.wait 1 0] ++ runs 2 1 true ++ [.wait 1 1] ++ runs 2 1 true

/-- Each request receives once, and the messages come while process 1 waits for the second. -/
def deliveredRun : List NetworkAct :=
  crossedRun ++ [.start 1 0] ++ runs 2 1 false ++ [.start 1 1] ++ runs 2 1 false ++ [.start 0 0] ++
    runs 2 0 false ++ [.start 0 1] ++ runs 2 0 false ++ [.wait 1 1] ++ runs 2 1 false ++
    [.deliver 0 1 false, .deliver 0 1 false] ++ runs 3 1 false ++ [.wait 1 0] ++ runs 1 1 false

/-- Each buffer has the message of the request with its tag. -/
def crossed (n : Network) : Bool := decide ((n.req 1 0).buf = [8] ∧ (n.req 1 1).buf = [7])

theorem deliveredRun_addressed :
    match runFrom (Network.step .eager) fresh deliveredRun with
    | some n => n.Addressed ∧ crossed n = true
    | none => False := by
  have hrun : (runFrom (Network.step .eager) fresh deliveredRun).any crossed = true := by decide +kernel
  cases h : runFrom (Network.step .eager) fresh deliveredRun with
  | none => simp [h] at hrun
  | some n =>
      rw [h, Option.any_some] at hrun
      exact ⟨addressed (.of_runFrom _ (.init fresh_init) h), hrun⟩

end Network

end CompMatch.ActiveMessage

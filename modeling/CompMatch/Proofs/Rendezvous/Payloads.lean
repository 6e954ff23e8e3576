/-
Where both sides are when a payload lands.

A put takes effect while the receiver waits for it.  A get takes effect while the sender
is still in its operation, if the protocol is not torn (`Untorn`), and that takes flag
puts that are read from a word nobody overwrites (`FlagBuffer.lean`).  Gets are issued at
one point of the code only, for the request whose payload is fetched.
-/
import CompMatch.Proofs.Rendezvous.Backup
import CompMatch.Proofs.Rendezvous.FlagBuffer

namespace CompMatch.Rendezvous

/-! ### Gets under way -/

def RdmaOp.isGet : RdmaOp → Bool
  | .get _ _ _ _ => true
  | _ => false

/-- The gets of a worker that are under way. -/
def gets (w : Worker (Rid × RdmaOp)) : List (Posted (Rid × RdmaOp)) :=
  w.pending.filter fun x => x.op.2.isGet

theorem gets_post {w : Worker (Rid × RdmaOp)} {x : Rid × RdmaOp} (h : x.2.isGet = false) :
    gets (w.post x) = gets w := by
  simp [gets, Worker.post, h]

section
variable {toEp : Rid × RdmaOp → Bool} {imm : Bool} {l : Local (Rid × RdmaOp)} {q : Rid}

theorem gets_bSend (p : Point) : gets (bSend (Prod.mk q) toEp imm p l).2.worker = gets l.worker := by
  cases p with
  | test =>
      simp only [bSend]
      split <;> rfl
  | data => exact gets_post rfl
  | signal => exact gets_post rfl
  | ready => exact gets_post rfl
  | _ => rfl

theorem gets_fetchStep (checked : Bool) {p : Point} (hp : p ≠ .data) :
    gets (fetchStep (Prod.mk q) toEp checked imm p l).2.worker = gets l.worker := by
  cases p with
  | data => exact absurd rfl hp
  | signal => exact gets_post rfl
  | _ => rfl

theorem gets_bRecv {p : Point} (hp : p ≠ .data) :
    gets (bRecv (Prod.mk q) toEp imm p l).2.worker = gets l.worker := by
  cases p with
  | test =>
      simp only [bRecv]
      split <;> rfl
  | fillReady => rfl
  | ready => exact gets_post rfl
  | flushReady => rfl
  | _ => exact gets_fetchStep true hp

theorem gets_progressRecvRequest {p : Point} (hp : p ≠ .data) :
    gets (progressRecvRequest (Prod.mk q) toEp imm p l).2.worker = gets l.worker := by
  cases p with
  | test =>
      simp only [progressRecvRequest]
      split <;> rfl
  | _ => exact gets_fetchStep false hp

theorem gets_eRecv {w : RecvWait} (hw : w ≠ .fetch .data) :
    gets (eRecv (Prod.mk q) toEp imm w l).2.worker = gets l.worker := by
  cases w with
  | fetch p =>
      have hp : p ≠ .data := by
        rintro rfl
        exact hw rfl
      have h : gets (bRecv (Prod.mk q) toEp imm p l).2.worker = gets l.worker := gets_bRecv hp
      simp only [eRecv]
      split <;> rename_i heq <;> rwa [heq] at h
  | _ =>
      simp only [eRecv]
      split <;> rfl

end

namespace Proc

section
variable {p p' : Proc} {r : Rid} {ans : Answer} {c : Option MpiCall}

/-- What the request whose payload the next step fetches is. -/
theorem fetches_type (hS : Shape p) (h : p.fetches = some r) : (p.reqs r).type = .recv := by
  have htyped := hS.typed
  unfold fetches at h
  split at h
  · rename_i q below hn
    obtain rfl : q = r := by simpa using h
    exact hS.fetching q .data (by simp [hn])
  · simp at h
  · split at h
    · rename_i q hcall
      obtain rfl : q = r := by simpa using h
      simp only [Typed, hcall] at htyped
      exact htyped.2
    · rename_i q hcall
      obtain rfl : q = r := by simpa using h
      simp only [Typed, hcall] at htyped
      exact htyped.2
    · simp at h

/-- **A step issues no get** but for the request whose payload it fetches. -/
theorem run_gets (hrun : p.run ans = some (p', c)) {x : Posted (Rid × RdmaOp)}
    (hx : x ∈ gets p'.worker) : x ∈ gets p.worker ∨ p.fetches = some x.op.1 := by
  -- the gets are the same, or the step works at the point that issues one
  have hcase : gets p'.worker = gets p.worker ∨ p.fetches = p.mover ∧ p.mover ≠ none := by
    unfold run at hrun
    unfold fetches mover
    split at hrun
    · rename_i f below hn
      rw [hn]
      have hp : p' = ((p.setNested below).runFrame ans f).1 := by
        rw [Option.some.inj hrun]
      cases f with
      | progressRecv q pt =>
          by_cases hpt : pt = .data
          · subst hpt
            exact Or.inr ⟨rfl, by simp⟩
          · refine Or.inl ?_
            have h : gets (progressRecvRequest (Prod.mk q) (p.toEp q) ans.imm pt (p.loc q)).2.worker =
                gets p.worker := gets_progressRecvRequest (l := p.loc q) hpt
            rw [hp]
            show gets ((p.setNested below).resumeProgress q (progressRecvRequest (Prod.mk q)
              (p.toEp q) ans.imm pt (p.loc q))).worker = _
            generalize progressRecvRequest (Prod.mk q) (p.toEp q) ans.imm pt (p.loc q) = y at h ⊢
            obtain ⟨o, l⟩ := y
            cases o <;> exact h
      | _ =>
          refine Or.inl ?_
          have hrun' : p.run ans = some (p', c) := by
            unfold run
            rw [hn]
            exact hrun
          rcases run_moves hrun' with hw | ⟨q, hq, -⟩
          · rw [hw]
          · simp [mover, hn] at hq
    · rename_i hn
      rw [hn]
      cases hcall : p.call with
      | bSend q pt =>
          rw [hcall] at hrun
          cases hrun
          rw [resume_worker (Or.inl rfl)]
          exact Or.inl (gets_bSend (l := p.loc q) pt)
      | bRecv q pt =>
          by_cases hpt : pt = .data
          · subst hpt
            exact Or.inr ⟨rfl, by simp [Call.movesFor]⟩
          · rw [hcall] at hrun
            cases hrun
            rw [resume_worker (Or.inl rfl)]
            exact Or.inl (gets_bRecv (l := p.loc q) hpt)
      | eSend q w =>
          rw [hcall] at hrun
          cases hrun
          rw [resume_worker (Or.inr rfl), moves_eSend (l := p.loc q) w]
          exact Or.inl rfl
      | eRecv q w =>
          by_cases hw : w = .fetch .data
          · subst hw
            exact Or.inr ⟨rfl, by simp [Call.movesFor]⟩
          · rw [hcall] at hrun
            cases hrun
            rw [resume_worker (Or.inr rfl)]
            exact Or.inl (gets_eRecv (l := p.loc q) hw)
      | _ =>
          refine Or.inl ?_
          rcases runCall_moves hrun with hw | ⟨q, hq, -⟩
          · rw [hw]
          · simp [hcall, Call.movesFor] at hq
  rcases hcase with heq | ⟨hf, -⟩
  · exact Or.inl (heq ▸ hx)
  · rcases run_moves hrun with hw | ⟨q, hq, hw | ⟨op, hw⟩ | hw⟩
    · exact Or.inl (hw ▸ hx)
    · exact Or.inl (hw ▸ hx)
    · rw [hw] at hx
      simp only [gets, Worker.post, List.filter_append, List.mem_append, List.mem_filter,
        List.mem_singleton] at hx
      rcases hx with hx | ⟨rfl, -⟩
      · exact Or.inl (List.mem_filter.mpr hx)
      · exact Or.inr (hf.trans hq)
    · rw [hw] at hx
      exact Or.inl hx

end

end Proc

/-! ### Where the sender is when a payload lands -/

/-- The announcement has not landed as a notice. -/
def Proto.Untorn {β : Type*} (a : Proto β) : Prop := ∀ p, a.recv = .pull p → p.torn = false

theorem Proto.untorn_step {β : Type*} {a a' : Proto β} {act : ProtoAct β} (h : a.Untorn)
    (hno : ∀ p, a.recv = .pull p → p.pending = true → p.filled = false)
    (hs : a.step act = some a') : a'.Untorn := by
  obtain ⟨ns, nr, s, r, fs, fr, last, landed, sb, rb, sent, recd⟩ := a
  simp only [Proto.step] at hs
  (repeat' split at hs) <;> simp only [reduceCtorEq, Option.some.injEq] at hs
  all_goals
    subst hs
    simp only [Untorn] at h ⊢
    grind

theorem RecvIn.filled {l : Local RdmaOp} {fl : Flight} {s : RecvStage} {pc : RecvPc}
    {prog : Option Point} {p : Pull} (h : RecvIn l fl s pc prog) (hs : s = .pull p)
    (hp : p.pending = true) (hf : p.filled = true) :
    fl.ready ≠ none ∧ l.req.flagBuffer = l.req.operationNumber * 2 + 2 := by
  subst hs
  have hat : RecvAt l fl (.pull p) pc →
      fl.ready ≠ none ∧ l.req.flagBuffer = l.req.operationNumber * 2 + 2 := by
    intro hA
    unfold RecvAt at hA
    split at hA
    case h_2 pt =>
      cases pt <;> simp only [RecvStartAt, RecvWaits, FetchAt] at hA <;>
        grind [Pulled, RecvReady, Pulling, RecvStage.Pulls]
    case h_9 pt =>
      cases pt <;> simp only [CrosstalkAt, FetchAt] at hA <;> grind [Pulled, Pulling, RecvStage.Pulls]
    all_goals grind [RecvWaits, Pulled, RecvReady, RecvSettled, RecvStage.Pulls]
  cases prog with
  | none => exact hat h
  | some pt =>
      cases pt with
      | test => exact hat h
      | progress => exact hat h
      | _ =>
          simp only [RecvIn, ProgressAt, FetchAt] at h
          grind [Pulling, RecvStage.Pulls]

/-- The sender has announced the operation that the receiver fetches, and is still in it. -/
theorem Proto.get_lands {β : Type*} {a a' : Proto β} (hJ : Joint a) (h : a.Untorn)
    (hs : a.step .recvDataLands = some a') :
    a.send ≠ .rest ∧ a.recv ≠ .rest ∧ a.recvNumber = a.sendNumber ∧ a.last = a.recvNumber - 1 := by
  obtain ⟨ns, nr, s, r, fs, fr, last, landed, sb, rb, sent, recd⟩ := a
  cases r <;> simp only [step, reduceCtorEq] at hs
  split at hs <;> simp only [reduceCtorEq, Option.some.injEq] at hs
  simp only [Untorn] at h
  cases s <;> simp only [Joint] at hJ <;> dsimp only <;> grind

/-- The receiver waits for the operation that the sender pushes. -/
theorem Proto.put_lands {β : Type*} {a a' : Proto β} (hJ : Joint a)
    (hs : a.step .sendDataLands = some a') :
    a.send ≠ .rest ∧ a.recv ≠ .rest ∧ a.recvNumber = a.sendNumber ∧ a.last = a.recvNumber - 1 := by
  obtain ⟨ns, nr, s, r, fs, fr, last, landed, sb, rb, sent, recd⟩ := a
  simp only [step] at hs
  split at hs <;> simp only [reduceCtorEq, Option.some.injEq] at hs
  cases r <;> simp only [Joint] at hJ <;> dsimp only <;> grind

/-- A receiver at rest has the payload of its last operation, and no other. -/
theorem Proto.last_rest {β : Type*} {a : Proto β} (hJ : Joint a) (hr : a.recv = .rest) :
    a.last = a.recvNumber := by
  obtain ⟨ns, nr, s, r, fs, fr, last, landed, sb, rb, sent, recd⟩ := a
  subst hr
  cases s <;> simp only [Joint] at hJ <;> grind

section
variable {w w' : World} {r : Rid} {a : Proto Unit}

/-- The word does not hold the notice while the announcement is under way. -/
theorem World.FlagInv.not_filled (h : World.FlagInv w) (hr : r < w.proc.nextRid)
    (ha : Conn w r a) (ht : w.proc.Tracked r) {p : Pull} (hs : a.recv = .pull p)
    (hp : p.pending = true) : p.filled = false := by
  by_contra hf
  have hfill : p.filled = true := by simpa using hf
  rcases ht with ht | ht
  · obtain ⟨fl, hC, hA⟩ := (ha.receives.connected ht).rel.sim
    obtain ⟨hready, hbuf⟩ := hA.filled hs hp hfill
    obtain ⟨x, hx⟩ := Option.ne_none_iff_exists'.mp hready
    have hflags := h.recvs r hr (Or.inl ht)
    have hputs := hC.flagPuts
    rcases hA.overtaken hx hbuf with hsome | hsignal
    · obtain ⟨y, hy⟩ := Option.ne_none_iff_exists'.mp hsome
      have hone := hflags.one.one
      rw [hputs, hx, hy] at hone
      simp at hone
    · have hnil := (hflags.fetching .signal hsignal rfl).1
      rw [hputs, hx] at hnil
      simp at hnil
  · rw [(ha.receives.searching ht).rest] at hs
    simp at hs

/-- The current operation of a receive request is under way, and its payload is not there yet. -/
structure World.Underway (w : World) (r : Rid) : Prop where
  type : (w.proc.reqs r).type = .recv
  active : w.proc.active r = true
  number : 1 < (w.proc.reqs r).operationNumber
  fresh : transfersOf (w.landed r) (w.proc.reqs r).operationNumber = 0
  peer : (w.peers r).pc ≠ .idle
  peerNumber : (w.peers r).loc.req.operationNumber = (w.proc.reqs r).operationNumber

/-- What a step of the protocol that moves the payload finds. -/
theorem Conn.underway (ha : Conn w r a) (ht : w.proc.Tracked r)
    (h : a.send ≠ .rest ∧ a.recv ≠ .rest ∧ a.recvNumber = a.sendNumber ∧ a.last = a.recvNumber - 1) :
    w.Underway r := by
  obtain ⟨hs, hr, hnum, hlast⟩ := h
  have htype : (w.proc.reqs r).type = .recv := by
    rcases ht with ht | ht
    · exact ht
    · exact absurd (ha.receives.searching ht).rest hr
  have hcon := ha.receives.connected htype
  have hn : a.recvNumber = (w.proc.reqs r).operationNumber := hcon.rel.number
  have hcounted := Proto.reach_counted ha.reached
  refine ⟨htype, ?_, ?_, ?_, ?_, ?_⟩
  · by_contra hno
    exact hr (hcon.idle (by simpa using hno)).1
  · have := hcounted.le
    omega
  · rw [← ha.landed, hcounted.count, if_neg (by omega)]
  · intro hidle
    obtain ⟨fl, -, hA⟩ := ha.sends.rel.sim
    rw [hidle] at hA
    exact hs hA.1
  · rw [← hn, hnum]
    exact ha.sends.rel.number.symm

/-- **A get that lands** has what its request says, and finds its operation under way. -/
theorem Conn.get_lands {i : Nat} {x : Posted (Rid × RdmaOp)} (ha : Conn w r a) (hun : a.Untorn)
    (ht : (w.proc.reqs r).type = .recv) (hx : w.proc.worker.enabled? i = some x) (hq : x.op.1 = r)
    (hget : x.op.2.isGet = true) :
    x.op.2 = .get (w.proc.reqs r).operationNumber (w.proc.reqs r).buf (w.proc.reqs r).size
      (w.proc.counterpart r).dataAddr ∧ w.Underway r := by
  have hown : operationOf r x.op = some x.op.2 := if_pos hq
  obtain ⟨j, hj, -⟩ := Worker.view_enabled? hx hown
  have hcon := ha.receives.connected ht
  rcases hcon.rel.lands hj with ⟨hop, -⟩ | ⟨hop, s', hstep, -⟩
  · have hop' : x.op.2 = .flag (w.proc.reqs r).operationNumber (w.proc.reqs r).remoteFlagAddr := hop
    simp [hop', RdmaOp.isGet] at hget
  · have hop' : x.op.2 = .get (w.proc.reqs r).operationNumber (w.proc.reqs r).buf
        (w.proc.reqs r).size (w.proc.reqs r).remoteDataAddr := hop
    refine ⟨by rw [hop', hcon.dataAddr], ha.underway (Or.inl ht) ?_⟩
    exact Proto.get_lands (Proto.reach_joint ha.reached) hun hstep

/-- **A put that lands** has what the sender's request says, and finds its operation under way. -/
theorem Conn.put_lands {i : Nat} {x : Posted RdmaOp} (ha : Conn w r a) (ht : w.proc.Tracked r)
    (hx : (w.peers r).loc.worker.enabled? i = some x) (hflag : x.op.isFlag = false) :
    x.op = .put (w.peers r).loc.req.operationNumber (w.peers r).loc.req.buf
      (w.peers r).loc.req.size (w.proc.reqs r).buf ∧ w.Underway r := by
  rcases ha.sends.rel.lands hx with ⟨hop, -⟩ | ⟨hop, s', hstep, -⟩
  · simp [hop, RdmaOp.isFlag] at hflag
  · refine ⟨by rw [hop, payloadOp, ha.sends.dataAddr], ha.underway ht ?_⟩
    exact Proto.put_lands (Proto.reach_joint ha.reached) hstep

end

/-! ### What every step leaves -/

/-- A request is where it was. -/
structure World.SamePlace (w w' : World) (r : Rid) : Prop where
  buf : (w'.proc.reqs r).buf = (w.proc.reqs r).buf
  size : (w'.proc.reqs r).size = (w.proc.reqs r).size
  flagAddr : (w'.proc.reqs r).flagAddr = (w.proc.reqs r).flagAddr
  counterpart : w'.proc.counterpart r = w.proc.counterpart r

section
variable {w w' : World} {r : Rid}

theorem SameBuffer.place (h : SameBuffer (w.proc.reqs r) (w'.proc.reqs r))
    (hc : w'.proc.counterpart r = w.proc.counterpart r) : World.SamePlace w w' r :=
  ⟨h.buf, h.size, h.flagAddr, hc⟩

/-- A Start counts the operation, and leaves the request where it is. -/
theorem start_buffer {p : Proc} (q r : Rid) :
    ((p.start q).1.reqs r).buf = (p.reqs r).buf ∧ ((p.start q).1.reqs r).size = (p.reqs r).size ∧
      ((p.start q).1.reqs r).flagAddr = (p.reqs r).flagAddr ∧
      ((p.start q).1.reqs r).operationNumber =
        (p.reqs r).operationNumber + if r = q then 1 else 0 := by
  by_cases hr : r = q
  · subst hr
    rw [if_pos rfl]
    unfold Proc.start
    split <;> simp [Proc.setCall, Proc.postBackup, Proc.assert, Proc.setReq]
  · rw [(start_frame (p := p) q).2.2.2.2 r hr, if_neg hr]
    simp

/-- The flag of a request is written. -/
theorem setFlag_buffer {p : Proc} (q : Rid) (v : Int) (r : Rid) :
    SameBuffer (p.reqs r) ((p.setReq q fun x => { x with flag := v }).reqs r) := by
  by_cases hr : r = q
  · subst hr
    refine ⟨?_, ?_, ?_, ?_⟩ <;> simp [Proc.setReq]
  · rw [Proc.setReq_other hr]
    exact .refl _

theorem landPeer_buffer (q : Rid) (op : RdmaOp) (r : Rid) :
    SameBuffer (w.proc.reqs r) ((w.landPeer q op).proc.reqs r) := by
  unfold World.landPeer
  split
  · split <;> exact .refl _
  · exact .refl _
  · split
    · exact setFlag_buffer q _ r
    · exact .refl _

/-- What a step does that is neither a Start nor one of the process's own. -/
theorem step_buffer {act : WorldAct} (h : World.Inv w) (hs : w.step act = some w')
    (hr : r < w.proc.nextRid) (hno : ∀ q, act ≠ .start q) :
    SameBuffer (w.proc.reqs r) (w'.proc.reqs r) ∧
      w'.proc.counterpart r = w.proc.counterpart r := by
  have hinit : ∀ (type : RequestType) (args : Proc.InitArgs) (info : RdmaInfo),
      SameBuffer (w.proc.reqs r) ((w.proc.initRequest type args info).1.reqs r) := by
    intro type args info
    rw [show (w.proc.initRequest type args info).1.reqs r = w.proc.reqs r from
      Function.update_of_ne (Nat.ne_of_lt hr) ..]
    exact .refl _
  cases act with
  | start q => exact absurd rfl (hno q)
  | run ans =>
      simp only [World.step] at hs
      split at hs <;> simp only [reduceCtorEq, Option.some.injEq] at hs
      rename_i p c hrun
      subst hs
      exact ⟨Proc.run_buffer hrun r, congrFun (Proc.run_control h.shape h.known hrun).2.2.counterpart r⟩
  | lands i =>
      simp only [World.step] at hs
      split at hs <;> simp only [reduceCtorEq, Option.some.injEq] at hs
      rename_i x hx
      subst hs
      rw [(land_frame (w := w.setProc { w.proc with worker := w.proc.worker.retire i })
        x.op.1 x.op.2).1]
      exact ⟨.refl _, rfl⟩
  | sendInit args info =>
      simp only [World.step] at hs
      split at hs <;> simp only [reduceCtorEq, Option.some.injEq] at hs
      subst hs
      exact ⟨hinit .sendSearch args info, counterpart_initRequest hr⟩
  | recvInit args info size =>
      simp only [World.step] at hs
      split at hs <;> simp only [reduceCtorEq, Option.some.injEq] at hs
      subst hs
      exact ⟨hinit .recvSearch args info, counterpart_initRequest hr⟩
  | wait q =>
      simp only [World.step] at hs
      split at hs <;> simp only [reduceCtorEq, Option.some.injEq] at hs
      subst hs
      obtain ⟨-, -, -, hreqs, hk⟩ := wait_frame (p := w.proc) q
      refine ⟨?_, congrFun hk.counterpart r⟩
      rw [World.setProc, hreqs]
      exact .refl _
  | writeFlag q v =>
      simp only [World.step] at hs
      split at hs <;> simp only [reduceCtorEq, Option.some.injEq] at hs
      subst hs
      exact ⟨setFlag_buffer q v r, rfl⟩
  | peerRun q imm =>
      simp only [World.step] at hs
      split at hs
      · split at hs <;> simp only [reduceCtorEq, Option.some.injEq] at hs
        subst hs
        exact ⟨.refl _, rfl⟩
      · simp at hs
  | peerLands q i =>
      simp only [World.step] at hs
      split at hs
      · rename_i x hx
        split at hs <;> simp only [reduceCtorEq, Option.some.injEq] at hs
        subst hs
        refine ⟨landPeer_buffer (w := w.setPeer q _) q x.op r, ?_⟩
        obtain ⟨-, -, ⟨reqs, hproc⟩, -, -⟩ := landPeer_frame
          (w := w.setPeer q { w.peers q with loc := (w.peers q).loc.retire i }) q x.op
        rw [hproc]
        rfl
      · simp at hs
  | _ =>
      simp only [World.step] at hs
      split at hs <;> simp only [reduceCtorEq, Option.some.injEq] at hs
      subst hs
      exact ⟨.refl _, rfl⟩

/-- **A request stays where it is.** -/
theorem step_place {act : WorldAct} (h : World.Inv w) (hs : w.step act = some w')
    (hr : r < w.proc.nextRid) : World.SamePlace w w' r := by
  by_cases hact : ∃ q, act = .start q
  · obtain ⟨q, rfl⟩ := hact
    simp only [World.step] at hs
    split at hs <;> simp only [reduceCtorEq, Option.some.injEq] at hs
    subst hs
    obtain ⟨h1, h2, h3, -⟩ := start_buffer (p := w.proc) q r
    exact ⟨h1, h2, h3, congrFun (start_frame (p := w.proc) q).2.2.1.counterpart r⟩
  · obtain ⟨hreq, hc⟩ := step_buffer h hs hr fun q hq => hact ⟨q, hq⟩
    exact hreq.place hc

/-- Requests are initialised one at a time. -/
theorem step_nextRid {act : WorldAct} (h : World.Inv w) (hs : w.step act = some w') :
    w'.proc.nextRid = w.proc.nextRid ∨ (∃ args info, act = .sendInit args info) ∨
      ∃ args info size, act = .recvInit args info size := by
  cases act with
  | sendInit args info => exact Or.inr (Or.inl ⟨args, info, rfl⟩)
  | recvInit args info size => exact Or.inr (Or.inr ⟨args, info, size, rfl⟩)
  | run ans =>
      simp only [World.step] at hs
      split at hs <;> simp only [reduceCtorEq, Option.some.injEq] at hs
      rename_i p c hrun
      subst hs
      exact Or.inl (Proc.run_control h.shape h.known hrun).2.2.nextRid
  | start q =>
      simp only [World.step] at hs
      split at hs <;> simp only [reduceCtorEq, Option.some.injEq] at hs
      subst hs
      exact Or.inl (start_frame (p := w.proc) q).2.2.1.nextRid
  | wait q =>
      simp only [World.step] at hs
      split at hs <;> simp only [reduceCtorEq, Option.some.injEq] at hs
      subst hs
      exact Or.inl (wait_frame (p := w.proc) q).2.2.2.2.nextRid
  | lands i =>
      simp only [World.step] at hs
      split at hs <;> simp only [reduceCtorEq, Option.some.injEq] at hs
      rename_i x hx
      subst hs
      rw [(land_frame (w := w.setProc { w.proc with worker := w.proc.worker.retire i })
        x.op.1 x.op.2).1]
      exact Or.inl rfl
  | peerRun q imm =>
      simp only [World.step] at hs
      split at hs
      · split at hs <;> simp only [reduceCtorEq, Option.some.injEq] at hs
        subst hs
        exact Or.inl rfl
      · simp at hs
  | peerLands q i =>
      simp only [World.step] at hs
      split at hs
      · rename_i x hx
        split at hs <;> simp only [reduceCtorEq, Option.some.injEq] at hs
        subst hs
        obtain ⟨-, -, ⟨reqs, hproc⟩, -, -⟩ := landPeer_frame
          (w := w.setPeer q { w.peers q with loc := (w.peers q).loc.retire i }) q x.op
        rw [hproc]
        exact Or.inl rfl
      · simp at hs
  | _ =>
      simp only [World.step] at hs
      split at hs <;> simp only [reduceCtorEq, Option.some.injEq] at hs
      subst hs
      exact Or.inl rfl

/-- A request that was not there before is the one the step initialises. -/
theorem step_new {act : WorldAct} (h : World.Inv w) (hs : w.step act = some w')
    (hr : r < w'.proc.nextRid) (hno : ¬ r < w.proc.nextRid) : r = w.proc.nextRid ∧
      ((∃ args info, act = .sendInit args info) ∨ ∃ args info size, act = .recvInit args info size) := by
  have hnext : w'.proc.nextRid ≤ w.proc.nextRid + 1 ∧ (w'.proc.nextRid = w.proc.nextRid ∨
      ((∃ args info, act = .sendInit args info) ∨
        ∃ args info size, act = .recvInit args info size)) := by
    rcases step_nextRid h hs with heq | hinit | hinit
    · exact ⟨heq ▸ Nat.le_succ _, Or.inl heq⟩
    · refine ⟨?_, Or.inr (Or.inl hinit)⟩
      obtain ⟨args, info, rfl⟩ := hinit
      simp only [World.step] at hs
      split at hs <;> simp only [reduceCtorEq, Option.some.injEq] at hs
      subst hs
      exact Nat.le_refl _
    · refine ⟨?_, Or.inr (Or.inr hinit)⟩
      obtain ⟨args, info, size, rfl⟩ := hinit
      simp only [World.step] at hs
      split at hs <;> simp only [reduceCtorEq, Option.some.injEq] at hs
      subst hs
      exact Nat.le_refl _
  obtain ⟨hle, heq | hinit⟩ := hnext
  · exact absurd (heq ▸ hr) hno
  · exact ⟨Nat.le_antisymm (Nat.le_of_lt_succ (Nat.lt_of_lt_of_le hr hle)) (Nat.le_of_not_lt hno), hinit⟩

/-- Only the process's own steps post anything. -/
theorem step_pending {act : WorldAct} (hs : w.step act = some w') (hno : ∀ ans, act ≠ .run ans) :
    ∀ x ∈ w'.proc.worker.pending, x ∈ w.proc.worker.pending := by
  cases act with
  | run ans => exact absurd rfl (hno ans)
  | start q =>
      simp only [World.step] at hs
      split at hs <;> simp only [reduceCtorEq, Option.some.injEq] at hs
      subst hs
      rw [World.setProc, (start_frame (p := w.proc) q).1]
      exact fun _ => id
  | wait q =>
      simp only [World.step] at hs
      split at hs <;> simp only [reduceCtorEq, Option.some.injEq] at hs
      subst hs
      rw [World.setProc, (wait_frame (p := w.proc) q).1]
      exact fun _ => id
  | lands i =>
      simp only [World.step] at hs
      split at hs <;> simp only [reduceCtorEq, Option.some.injEq] at hs
      rename_i x hx
      subst hs
      rw [(land_frame (w := w.setProc { w.proc with worker := w.proc.worker.retire i })
        x.op.1 x.op.2).1]
      exact fun _ hy => List.mem_of_mem_eraseIdx hy
  | peerRun q imm =>
      simp only [World.step] at hs
      split at hs
      · split at hs <;> simp only [reduceCtorEq, Option.some.injEq] at hs
        subst hs
        exact fun _ => id
      · simp at hs
  | peerLands q i =>
      simp only [World.step] at hs
      split at hs
      · rename_i x hx
        split at hs <;> simp only [reduceCtorEq, Option.some.injEq] at hs
        subst hs
        obtain ⟨-, -, ⟨reqs, hproc⟩, -, -⟩ := landPeer_frame
          (w := w.setPeer q { w.peers q with loc := (w.peers q).loc.retire i }) q x.op
        rw [hproc]
        exact fun _ => id
      · simp at hs
  | _ =>
      simp only [World.step] at hs
      split at hs <;> simp only [reduceCtorEq, Option.some.injEq] at hs
      subst hs
      exact fun _ => id

end

/-! ### Receivers that have fallen back -/

/-- While the receiver does not start an operation over RDMA, its sender is told nothing. -/
structure Proto.Untouched {β : Type*} (k : Int) (a : Proto β) : Prop where
  recvNumber : k ≤ a.recvNumber
  sendNumber : k ≤ a.sendNumber
  rest : a.recvNumber = k → a.recv = .rest ∧ a.sendFlag ≤ 2 * k ∧ a.landed = []
  push : a.recvNumber = k → ∀ st d n, a.send ≠ .push st d n

theorem Proto.untouched_init {β : Type*} {k : Int} {a : Proto β} (h : Init k a) : Untouched k a :=
  ⟨Int.le_of_eq h.recvNumber.symm, Int.le_of_eq h.sendNumber.symm,
    fun _ => ⟨h.recv, h.sendFlag, h.landed⟩, fun _ => by simp [h.send]⟩

theorem Proto.untouched_step {β : Type*} {k : Int} {a a' : Proto β} {act : ProtoAct β}
    (h : Untouched k a) (hs : a.step act = some a') : Untouched k a' := by
  obtain ⟨ns, nr, s, r, fs, fr, last, landed, sb, rb, sent, recd⟩ := a
  obtain ⟨h1, h2, h3, h4⟩ := h
  simp only [step] at hs
  (repeat' split at hs) <;> simp only [reduceCtorEq, Option.some.injEq] at hs
  all_goals
    subst hs
    refine ⟨?_, ?_, fun hk => ?_, fun hk => ?_⟩ <;> dsimp only at * <;> grind

theorem Proto.reach_untouched {β : Type*} {k : Int} {a : Proto β}
    (h : Reach step anyStep (Init k) a) : Untouched k a :=
  h.invariant (fun _ => untouched_init) fun _ _ _ h _ hs => untouched_step h hs

/-- The sender of a receiver that has fallen back. -/
structure World.Fallen (w : World) (r : Rid) : Prop where
  conn : ∃ a, Conn w r a ∧ a.recvNumber = 1
  pending : (w.proc.view r).worker.pending = []

section
variable {w w' : World} {r : Rid} {a : Proto Unit}

theorem World.Fallen.landed (h : w.Fallen r) : w.landed r = [] := by
  obtain ⟨a, ha, hone⟩ := h.conn
  rw [← ha.landed]
  exact ((Proto.reach_untouched ha.reached).rest hone).2.2

/-- The sender pushes nothing. -/
theorem World.Fallen.put_lands {i : Nat} {x : Posted RdmaOp} (h : w.Fallen r)
    (hx : (w.peers r).loc.worker.enabled? i = some x) : x.op.isFlag = true := by
  obtain ⟨a, ha, hone⟩ := h.conn
  rcases ha.sends.rel.lands hx with ⟨hop, -⟩ | ⟨-, s', hstep, -⟩
  · rw [hop]
    rfl
  · have hpush := (Proto.reach_untouched ha.reached).push hone
    simp only [Proto.step] at hstep
    split at hstep
    · rename_i hs
      exact (hpush _ _ _ hs).elim
    · simp at hstep

/-- A request that has fallen back is nothing to its sender any more. -/
theorem Conn.fallen (h : Conn w r a) (ht : (w'.proc.reqs r).type = .recvFallback)
    (hpeer : w'.peers r = w.peers r) (hp : World.SamePlace w w' r) (hl : w'.landed r = w.landed r) :
    Conn w' r a where
  reached := h.reached
  sends := by
    rw [hpeer, hp.counterpart, hp.buf, hp.flagAddr]
    exact h.sends
  receives := ⟨fun h => by simp [ht] at h, fun h => by simp [ht] at h⟩
  landed := h.landed.trans hl.symm

/-- Nothing changes but what the request's own code does with MPI. -/
theorem World.Fallen.congr (h : w.Fallen r) (ht : (w'.proc.reqs r).type = .recvFallback)
    (hpeer : w'.peers r = w.peers r) (hp : World.SamePlace w w' r) (hl : w'.landed r = w.landed r)
    (hpend : (w'.proc.view r).worker.pending = (w.proc.view r).worker.pending) : w'.Fallen r := by
  obtain ⟨a, ha, hone⟩ := h.conn
  exact ⟨⟨a, ha.fallen ht hpeer hp hl, hone⟩, hpend.trans h.pending⟩

/-- The sender of a resting receiver goes on. -/
theorem fallen_peer {q : Rid} {peer : Peer} (h : w.Fallen r)
    (hconn : q = r → ∀ a, Conn w r a → a.recvNumber = 1 →
      ∃ a', Conn (w.setPeer r peer) r a' ∧ a'.recvNumber = 1)
    (ht : ((w.setPeer q peer).proc.reqs r).type = .recvFallback) : (w.setPeer q peer).Fallen r := by
  by_cases hq : q = r
  · subst hq
    obtain ⟨a, ha, hone⟩ := h.conn
    exact ⟨hconn rfl a ha hone, h.pending⟩
  · exact h.congr ht (Function.update_of_ne (Ne.symm hq) ..) ⟨rfl, rfl, rfl, rfl⟩ rfl rfl

/-- **A receiver that rests goes on resting**, once it has fallen back. -/
theorem fallen_step {act : WorldAct} (hi : World.Inv w) (h : w.Fallen r) (hr : r < w.proc.nextRid)
    (ht : (w.proc.reqs r).type = .recvSearch ∨ (w.proc.reqs r).type = .recvFallback)
    (ht' : (w'.proc.reqs r).type = .recvFallback) (hs : w.step act = some w') : w'.Fallen r := by
  have hp := step_place hi hs hr
  have hview : w'.proc.worker = w.proc.worker →
      (w'.proc.view r).worker.pending = (w.proc.view r).worker.pending := by
    intro hw
    simp only [Proc.view, Local.view, Proc.loc, hw]
  cases act with
  | run ans =>
      simp only [World.step] at hs
      split at hs <;> simp only [reduceCtorEq, Option.some.injEq] at hs
      rename_i p c hrun
      subst hs
      refine h.congr ht' rfl hp rfl (Proc.view_pending_other hi.shape (fun hm => ?_) hrun)
      rcases Proc.mover_type hi.shape hm with hm | hm <;> rcases ht with ht | ht <;> simp [ht] at hm
  | lands i =>
      simp only [World.step] at hs
      split at hs <;> simp only [reduceCtorEq, Option.some.injEq] at hs
      rename_i x hx
      subst hs
      have hne : x.op.1 ≠ r := by
        intro hq
        have hown : operationOf r x.op = some x.op.2 := if_pos hq
        obtain ⟨j, hj, -⟩ := Worker.view_enabled? hx hown
        have hmem := (Worker.enabled?_eq_some.mp hj).1
        rw [show (w.proc.worker.view (operationOf r)).pending = [] from h.pending] at hmem
        simp at hmem
      obtain ⟨hproc, hpeers, hlanded⟩ :=
        land_frame (w := w.setProc { w.proc with worker := w.proc.worker.retire i }) x.op.1 x.op.2
      refine h.congr ht' (hpeers r (Ne.symm hne)) hp (hlanded r (Ne.symm hne)) ?_
      rw [hproc]
      exact (unmoved_retire hx hne).pending
  | start q =>
      simp only [World.step] at hs
      split at hs <;> simp only [reduceCtorEq, Option.some.injEq] at hs
      subst hs
      exact h.congr ht' rfl hp rfl (hview (start_frame (p := w.proc) q).1)
  | wait q =>
      simp only [World.step] at hs
      split at hs <;> simp only [reduceCtorEq, Option.some.injEq] at hs
      subst hs
      exact h.congr ht' rfl hp rfl (hview (wait_frame (p := w.proc) q).1)
  | recvInit args info size =>
      simp only [World.step] at hs
      split at hs <;> simp only [reduceCtorEq, Option.some.injEq] at hs
      subst hs
      exact h.congr ht' (Function.update_of_ne (Nat.ne_of_lt hr) ..) hp rfl (hview rfl)
  | peerStart q =>
      simp only [World.step] at hs
      split at hs <;> simp only [reduceCtorEq, Option.some.injEq] at hs
      rename_i hidle
      subst hs
      refine fallen_peer h (fun hq a ha hone => ?_) ht'
      subst hq
      have hrel := ha.sends.rel
      rw [hidle.1] at hrel
      obtain ⟨hstep, hrel'⟩ := hrel.countStart
      exact ⟨_, conn_peer ha (.step ha.reached trivial hstep) hrel' (Or.inr rfl) rfl rfl rfl rfl, hone⟩
  | peerWait q =>
      simp only [World.step] at hs
      split at hs <;> simp only [reduceCtorEq, Option.some.injEq] at hs
      rename_i hstarted
      subst hs
      refine fallen_peer h (fun hq a ha hone => ⟨a, ?_, hone⟩) ht'
      subst hq
      obtain ⟨fl, hC, hA⟩ := ha.sends.rel.sim
      rw [hstarted.1] at hA
      exact conn_peer ha ha.reached ⟨⟨fl, hC, hA⟩, ha.sends.rel.number, ha.sends.rel.flag⟩
        (Or.inl (.refl _)) rfl rfl rfl rfl
  | peerRun q imm =>
      simp only [World.step] at hs
      split at hs
      · rename_i pc l hrun
        split at hs <;> simp only [reduceCtorEq, Option.some.injEq] at hs
        subst hs
        refine fallen_peer h (fun hq a ha hone => ?_) ht'
        subst hq
        obtain ⟨s', hm, hrel, hlink, -⟩ := ha.sends.rel.run (Proto.reach_joint ha.reached) hrun
        refine ⟨_, conn_peer ha ?_ hrel (Or.inl hlink) rfl rfl rfl rfl, hone⟩
        rcases hm with ⟨rfl, hf⟩ | ⟨act, -, hstep⟩
        · rw [hf]
          exact ha.reached
        · exact .step ha.reached trivial hstep
      · simp at hs
  | peerLands q i =>
      simp only [World.step] at hs
      split at hs
      · rename_i x hx
        split at hs <;> simp only [reduceCtorEq, Option.some.injEq] at hs
        subst hs
        obtain ⟨-, -, ⟨reqs, hproc⟩, hpeers, hlanded⟩ := landPeer_frame
          (w := w.setPeer q { w.peers q with loc := (w.peers q).loc.retire i }) q x.op
        have hw : (((w.setPeer q { w.peers q with loc := (w.peers q).loc.retire i }).landPeer q
            x.op).proc).worker = w.proc.worker := by
          rw [hproc]
          rfl
        by_cases hq : q = r
        · subst hq
          obtain ⟨a, ha, hone⟩ := h.conn
          obtain ⟨a', -, hnum, hconn⟩ := conn_peerLands ha hx
          exact ⟨⟨a', hconn, hnum.trans hone⟩, (hview hw).trans h.pending⟩
        · refine h.congr ht' ?_ hp (hlanded r (Ne.symm hq)) (hview hw)
          rw [hpeers]
          exact Function.update_of_ne (Ne.symm hq) ..
      · simp at hs
  | _ =>
      simp only [World.step] at hs
      split at hs <;> simp only [reduceCtorEq, Option.some.injEq] at hs
      subst hs
      exact h.congr ht' rfl hp rfl (hview rfl)

end

/-! ### Every run of the world -/

/-- What makes every payload land within its operation. -/
structure World.DataInv (w : World) : Prop where
  flags : w.FlagInv
  untorn : ∀ r < w.proc.nextRid, w.proc.Tracked r → ∃ a, Conn w r a ∧ a.Untorn
  fallen : ∀ r < w.proc.nextRid, (w.proc.reqs r).type = .recvFallback → w.Fallen r
  gets : ∀ x ∈ gets w.proc.worker, (w.proc.reqs x.op.1).type = .recv

section
variable {w w' : World} {r : Rid}

theorem dataInv_init (h : World.Init w) : World.DataInv w where
  flags := flagInv_init h
  untorn r hr := by
    rw [h.nextRid] at hr
    exact absurd hr (Nat.not_lt_zero r)
  fallen r hr := by
    rw [h.nextRid] at hr
    exact absurd hr (Nat.not_lt_zero r)
  gets x hx := by
    rw [h.worker] at hx
    simp [CompMatch.Rendezvous.gets, Worker.idle] at hx

/-- While the request has not started an operation over RDMA, its receiver rests. -/
theorem World.DataInv.rests (h : World.DataInv w) (hr : r < w.proc.nextRid)
    (ht : (w.proc.reqs r).type = .recvSearch ∨ (w.proc.reqs r).type = .recvFallback) : w.Fallen r := by
  rcases ht with ht | ht
  · obtain ⟨a, ha⟩ := h.flags.inv.conn r hr (Or.inr ht)
    have hsr := ha.receives.searching ht
    exact ⟨⟨a, ha, hsr.one⟩, hsr.pending⟩
  · exact h.fallen r hr ht

theorem untorn_of_step {act : WorldAct} (h : World.DataInv w) (hok : w.FlushedFirst act)
    (hs : w.step act = some w') (hr : r < w.proc.nextRid) (ht : w'.proc.Tracked r) :
    ∃ a, Conn w' r a ∧ a.Untorn := by
  have htr := step_tracked h.flags.inv hs hr ht
  obtain ⟨a, ha, hun⟩ := h.untorn r hr htr
  obtain ⟨a', hl, ha'⟩ := goesOn_step h.flags.inv hok.1 hs r hr ht a ha
  refine ⟨a', ha', ?_⟩
  rcases hl with rfl | ⟨pact, hstep⟩
  · exact hun
  · exact Proto.untorn_step hun (fun p hs hp => h.flags.not_filled hr ha htr hs hp) hstep

theorem gets_of_step {act : WorldAct} (h : World.DataInv w) (hs : w.step act = some w') :
    ∀ x ∈ gets w'.proc.worker, (w'.proc.reqs x.op.1).type = .recv := by
  have hstays : ∀ {q : Rid}, q < w.proc.nextRid → (w.proc.reqs q).type = .recv →
      (w'.proc.reqs q).type = .recv := by
    intro q hq ht
    rcases step_type h.flags.inv hs hq with heq | ⟨hs, -⟩ | ⟨hs, -⟩
    · exact heq.trans ht
    · simp [ht] at hs
    · simp [ht] at hs
  have hold : ∀ x ∈ gets w.proc.worker, (w'.proc.reqs x.op.1).type = .recv := fun x hx =>
    hstays (h.flags.inv.known.pending x (List.mem_filter.mp hx).1) (h.gets x hx)
  intro x hx
  by_cases hrun : ∃ ans, act = .run ans
  · obtain ⟨ans, rfl⟩ := hrun
    simp only [World.step] at hs
    split at hs <;> simp only [reduceCtorEq, Option.some.injEq] at hs
    rename_i p c hrun
    have hx' : x ∈ gets p.worker := by
      subst hs
      exact hx
    rcases Proc.run_gets hrun hx' with hx | hf
    · exact hold x hx
    · have hlt : x.op.1 < w.proc.nextRid := by
        have hmem : x ∈ w'.proc.worker.pending := by
          subst hs
          exact (List.mem_filter.mp hx).1
        have hk := Proc.run_control h.flags.inv.shape h.flags.inv.known hrun
        have hlt := hk.2.1.pending x (by subst hs; exact hmem)
        rwa [hk.2.2.nextRid] at hlt
      exact hstays hlt (Proc.fetches_type h.flags.inv.shape hf)
  · obtain ⟨hmem, hget⟩ := List.mem_filter.mp hx
    exact hold x (List.mem_filter.mpr
      ⟨step_pending hs (fun ans ha => hrun ⟨ans, ha⟩) x hmem, hget⟩)

/-- **Step lemma.** -/
theorem dataInv_step {act : WorldAct} (h : World.DataInv w) (hok : w.FlushedFirst act)
    (hs : w.step act = some w') : World.DataInv w' := by
  have hi := h.flags.inv
  refine ⟨flagInv_step h.flags hok hs, fun r hr ht => ?_, fun r hr ht => ?_, gets_of_step h hs⟩
  · by_cases hlt : r < w.proc.nextRid
    · exact untorn_of_step h hok hs hlt ht
    · obtain ⟨rfl, ⟨args, info, rfl⟩ | ⟨args, info, size, rfl⟩⟩ := step_new hi hs hr hlt <;>
        simp only [World.step] at hs <;> split at hs <;>
        simp only [reduceCtorEq, Option.some.injEq] at hs <;> subst hs
      · simp [World.setProc, Proc.initRequest, Proc.Tracked] at ht
      · exact ⟨.connected, conn_recvInit hi, fun p hp => by simp [Proto.connected] at hp⟩
  · by_cases hlt : r < w.proc.nextRid
    · have hold : (w.proc.reqs r).type = .recvSearch ∨ (w.proc.reqs r).type = .recvFallback := by
        rcases step_type hi hs hlt with heq | ⟨-, heq | heq⟩ | ⟨hsearch, -⟩
        · exact Or.inr (heq ▸ ht)
        · simp [heq] at ht
        · simp [heq] at ht
        · exact Or.inl hsearch
      exact fallen_step hi (h.rests hlt hold) hlt hold ht hs
    · obtain ⟨rfl, ⟨args, info, rfl⟩ | ⟨args, info, size, rfl⟩⟩ := step_new hi hs hr hlt <;>
        simp only [World.step] at hs <;> split at hs <;>
        simp only [reduceCtorEq, Option.some.injEq] at hs <;> subst hs <;>
        simp [World.setProc, World.setPeer, Proc.initRequest] at ht

end

end CompMatch.Rendezvous

/-
The receiver follows the protocol.

The same for `b_recv` and `e_recv` as `Sender.lean` for the sender.  The branch that
fetches the payload is shared by `b_recv` and `progress_recv_request`, and so is the
lemma about it.
-/
import CompMatch.Proofs.Rendezvous.Protocol
import CompMatch.Proofs.Rendezvous.Stages

namespace CompMatch.Rendezvous

variable {β : Type*}

/-- The receive request is where the protocol says the receiver is. -/
structure RecvRel (pc : RecvPc) (prog : Option Point) (l : Local RdmaOp) (a : Proto β) : Prop where
  sim : ∃ fl, Carries .get l fl ∧ RecvIn l fl a.recv pc prog
  number : a.recvNumber = l.req.operationNumber
  flag : a.recvFlag = l.req.flag

/-- The receiver as it moves to stage `s` with flag `f`. -/
def Proto.recvTo (a : Proto β) (s : RecvStage) (f : Int) : Proto β :=
  { a with recv := s, recvFlag := f }

/-- The receiver moves to stage `s` with flag `f`, by one step of the protocol at most. -/
def RecvMoves (a : Proto β) (s : RecvStage) (f : Int) : Prop :=
  (s = a.recv ∧ f = a.recvFlag) ∨
    ∃ act, a.Timely act ∧ a.step act = some (a.recvTo s f)

/-- The receiver's payload lands. -/
def Proto.get (a : Proto β) (s : RecvStage) : Proto β :=
  { a with
    recv := s
    recvBuf := a.sendBuf
    last := a.recvNumber
    landed := a.landed ++ [(a.recvNumber, .get)] }

/-- The receiver is told that its operation is over. -/
def Proto.complete (a : Proto β) : Proto β :=
  { a with
    recv := .rest
    received := Function.update a.received a.recvNumber (some a.recvBuf) }

/-! ### What landing does to the stage -/

namespace RecvStage

/-- The announcement is under way. -/
def Announcing : RecvStage → Prop
  | .ready landed => landed = false
  | .pull p => p.pending = true
  | _ => False

/-- The stage after the announcement has landed. -/
def readyLanded : RecvStage → RecvStage
  | .pull p => .pull { p with pending := false, torn := p.torn || p.filled }
  | _ => .ready true

/-- What the announcement puts into the sender's flag when it lands. -/
def readyValue (n : Int) : RecvStage → Int
  | .pull p => if p.filled then 2 * n + 2 else 2 * n + 1
  | _ => 2 * n + 1

/-- The payload may be under way. -/
def Fetching : RecvStage → Prop
  | .pull p => p.stored = true ∧ p.data = false
  | _ => False

def dataLanded : RecvStage → RecvStage
  | .pull p => .pull { p with data := true }
  | s => s

variable {s : RecvStage} {pending stored filled data notice : Bool}

theorem Pulls.ready_lands (h : s.Pulls true stored filled data notice) (k : Int) :
    s.Announcing ∧ s.readyLanded.Pulls false stored filled data notice ∧
      s.readyValue k = if filled then 2 * k + 2 else 2 * k + 1 := by
  obtain ⟨t, rfl⟩ := h
  exact ⟨rfl, ⟨_, rfl⟩, rfl⟩

theorem Pulls.data_lands (h : s.Pulls pending true filled false notice) :
    s.Fetching ∧ s.dataLanded.Pulls pending true filled true notice := by
  obtain ⟨t, rfl⟩ := h
  exact ⟨⟨rfl, rfl⟩, t, rfl⟩

variable {a : Proto β}

theorem Announcing.step (h : a.recv.Announcing) :
    a.step .recvReadyLands = some { a with
      recv := a.recv.readyLanded
      sendFlag := a.recv.readyValue a.recvNumber } := by
  unfold Announcing at h
  split at h
  · rename_i hs
    simp [Proto.step, hs, h, readyLanded, readyValue]
  · rename_i p hs
    cases hfl : p.filled <;> simp [Proto.step, hs, h, readyLanded, readyValue, hfl]
  · exact h.elim

theorem Fetching.step (h : a.recv.Fetching) :
    a.step .recvDataLands = some (a.get a.recv.dataLanded) := by
  unfold Fetching at h
  split at h
  · rename_i p hs
    simp [Proto.step, hs, h, dataLanded, Proto.get]
  · exact h.elim

end RecvStage

section
variable {l l' : Local RdmaOp} {fl : Flight} {s : RecvStage} {pc : RecvPc} {p : Point}
  {prog : Option Point} {x : Posted RdmaOp}

theorem FetchAt.ready_lands (h : FetchAt l fl s p) (hx : fl.ready = some x)
    (hreq : l'.req = l.req) (hb : l'.worker.barrier = l.worker.barrier) :
    s.Announcing ∧ l.req.flagBuffer = s.readyValue l.req.operationNumber ∧
      FetchAt l' { fl with ready := none } s.readyLanded p := by
  have hsome : fl.ready.isSome = true := by simp [hx]
  have hne : fl ≠ .empty := by
    rintro rfl
    simp [Flight.empty] at hx
  unfold FetchAt at h ⊢
  split at h <;> grind [RecvStage.Pulls.ready_lands, Pulling]

theorem FetchAt.data_lands (h : FetchAt l fl s p) (hx : fl.data = some x) (hreq : l'.req = l.req)
    (hb : l'.worker.barrier = l.worker.barrier) :
    s.Fetching ∧ FetchAt l' { fl with data := none } s.dataLanded p := by
  have hne : fl ≠ .empty := by
    rintro rfl
    simp [Flight.empty] at hx
  have hnone : fl.data.isNone = false := by simp [hx]
  unfold FetchAt at h ⊢
  split at h <;> grind [RecvStage.Pulls.data_lands, Pulling]

theorem FetchAt.notice_lands (h : FetchAt l fl s p) (hx : fl.notice = some x)
    (hr : fl.ready = none) (hd : fl.data = none) (hreq : l'.req = l.req) :
    s.Pulls false true true true false ∧
      l.req.flagBuffer = l.req.operationNumber * 2 + 2 ∧
      ∀ s', s'.Pulls false true true true true → FetchAt l' .empty s' p := by
  have hne : fl ≠ .empty := by
    rintro rfl
    simp [Flight.empty] at hx
  unfold FetchAt at h ⊢
  split at h <;> grind [Pulling, Flight.empty]

theorem Pulled.ready_lands (h : Pulled l fl s) (hx : fl.ready = some x) (hreq : l'.req = l.req) :
    s.Announcing ∧ l.req.flagBuffer = s.readyValue l.req.operationNumber ∧
      Pulled l' { fl with ready := none } s.readyLanded := by
  have hsome : fl.ready.isSome = true := by simp [hx]
  have hne : fl ≠ .empty := by
    rintro rfl
    simp [Flight.empty] at hx
  obtain ⟨hs, hl, hb, hh⟩ := h
  rw [hsome] at hs
  have hpull := hs.ready_lands l.req.operationNumber
  refine ⟨hpull.1, by rw [hb, hpull.2.2]; simp [Int.mul_comm], hpull.2.1, fun hn => absurd (hl hn) hne,
    by rw [hreq]; exact hb, by rw [hreq]; exact hh.mono fun _ => Flight.mem_of_ready_none⟩

theorem Pulled.data_lands (h : Pulled l fl s) (hx : fl.data = some x) (hreq : l'.req = l.req) :
    s.Fetching ∧ Pulled l' { fl with data := none } s.dataLanded := by
  have hnone : fl.data.isNone = false := by simp [hx]
  have hne : fl ≠ .empty := by
    rintro rfl
    simp [Flight.empty] at hx
  obtain ⟨hs, hl, hb, hh⟩ := h
  rw [hnone] at hs
  obtain ⟨hf, hs'⟩ := hs.data_lands
  exact ⟨hf, hs', fun hn => absurd (hl hn) hne, by rw [hreq]; exact hb,
    by rw [hreq]; exact hh.mono fun _ => Flight.mem_of_data_none⟩

theorem Pulled.notice_lands (h : Pulled l fl s) (hx : fl.notice = some x) (hr : fl.ready = none)
    (hd : fl.data = none) (hreq : l'.req = l.req) :
    s.Pulls false true true true false ∧
      l.req.flagBuffer = l.req.operationNumber * 2 + 2 ∧
      ∀ s', s'.Pulls false true true true true → Pulled l' .empty s' := by
  obtain ⟨hs, -, hb, -⟩ := h
  rw [hr, hd, hx] at hs
  exact ⟨hs, hb, fun s' hs' => ⟨hs', fun _ => rfl, by rw [hreq]; exact hb, held_empty _⟩⟩

theorem RecvReady.ready_lands (h : RecvReady l fl s) (hx : fl.ready = some x)
    (hreq : l'.req = l.req) :
    s.Announcing ∧ l.req.flagBuffer = s.readyValue l.req.operationNumber ∧
      RecvReady l' { fl with ready := none } s.readyLanded := by
  have hs : s = .ready false := by rw [h.stage, hx]; rfl
  subst hs
  exact ⟨rfl, by rw [h.flagBuffer]; simp [RecvStage.readyValue, Int.mul_comm], rfl, h.data, h.notice,
    by rw [hreq]; exact h.flagBuffer⟩

theorem RecvWaits.ready_lands (h : RecvWaits l fl s) (hx : fl.ready = some x)
    (hreq : l'.req = l.req) :
    s.Announcing ∧ l.req.flagBuffer = s.readyValue l.req.operationNumber ∧
      RecvWaits l' { fl with ready := none } s.readyLanded := by
  rcases h with hp | ⟨hr, hh, hno⟩
  · obtain ⟨h1, h2, h3⟩ := hp.ready_lands hx hreq
    exact ⟨h1, h2, Or.inl h3⟩
  · obtain ⟨h1, h2, h3⟩ := hr.ready_lands hx hreq
    exact ⟨h1, h2, Or.inr ⟨h3, hreq ▸ hh.mono fun _ => Flight.mem_of_ready_none, hreq ▸ hno⟩⟩

theorem RecvWaits.data_lands (h : RecvWaits l fl s) (hx : fl.data = some x)
    (hreq : l'.req = l.req) :
    s.Fetching ∧ RecvWaits l' { fl with data := none } s.dataLanded := by
  rcases h with hp | ⟨hr, -, -⟩
  · obtain ⟨h1, h2⟩ := hp.data_lands hx hreq
    exact ⟨h1, Or.inl h2⟩
  · simp [hr.data] at hx

theorem RecvWaits.notice_lands (h : RecvWaits l fl s) (hx : fl.notice = some x)
    (hr : fl.ready = none) (hd : fl.data = none) (hreq : l'.req = l.req) :
    s.Pulls false true true true false ∧
      l.req.flagBuffer = l.req.operationNumber * 2 + 2 ∧
      ∀ s', s'.Pulls false true true true true → RecvWaits l' .empty s' := by
  rcases h with hp | ⟨hr, -, -⟩
  · obtain ⟨h1, h2, h3⟩ := hp.notice_lands hx hr hd hreq
    exact ⟨h1, h2, fun s' hs' => Or.inl (h3 s' hs')⟩
  · simp [hr.notice] at hx

/-- **The announcement lands**, wherever the receiver is. -/
theorem RecvAt.ready_lands (h : RecvAt l fl s pc) (hx : fl.ready = some x)
    (hreq : l'.req = l.req) :
    s.Announcing ∧ l.req.flagBuffer = s.readyValue l.req.operationNumber ∧
      RecvAt l' { fl with ready := none } s.readyLanded pc := by
  have hne : fl ≠ .empty := by
    rintro rfl
    simp [Flight.empty] at hx
  have hsome : fl.ready ≠ none := by simp [hx]
  unfold RecvAt at h ⊢
  split at h
  case h_2 p =>
    cases p <;> simp only [RecvStartAt] at h ⊢ <;>
      grind [RecvWaits.ready_lands, RecvReady.ready_lands]
  case h_9 p =>
    cases p <;> simp only [CrosstalkAt] at h ⊢ <;> grind [Pulled.ready_lands]
  all_goals grind [RecvWaits.ready_lands, Pulled.ready_lands, RecvSettled]

/-- **The payload lands**, wherever the receiver is. -/
theorem RecvAt.data_lands (h : RecvAt l fl s pc) (hx : fl.data = some x)
    (hreq : l'.req = l.req) (hb : l'.worker.barrier = l.worker.barrier) :
    s.Fetching ∧ RecvAt l' { fl with data := none } s.dataLanded pc := by
  have hne : fl ≠ .empty := by
    rintro rfl
    simp [Flight.empty] at hx
  have hsome : fl.data ≠ none := by simp [hx]
  unfold RecvAt at h ⊢
  split at h
  case h_2 p =>
    cases p <;> simp only [RecvStartAt] at h ⊢ <;>
      grind [RecvWaits.data_lands, FetchAt.data_lands, RecvReady]
  case h_9 p =>
    cases p <;> simp only [CrosstalkAt] at h ⊢ <;> grind [Pulled.data_lands, FetchAt.data_lands]
  all_goals grind [RecvWaits.data_lands, Pulled.data_lands, RecvSettled]

/-- **The notice lands**, wherever the receiver is. -/
theorem RecvAt.notice_lands (h : RecvAt l fl s pc) (hx : fl.notice = some x)
    (hr : fl.ready = none) (hd : fl.data = none) (hreq : l'.req = l.req) :
    s.Pulls false true true true false ∧
      l.req.flagBuffer = l.req.operationNumber * 2 + 2 ∧
      ∀ s', s'.Pulls false true true true true → RecvAt l' .empty s' pc := by
  have hne : fl ≠ .empty := by
    rintro rfl
    simp [Flight.empty] at hx
  have hsome : fl.notice ≠ none := by simp [hx]
  have hempty : Flight.empty.ready = none := rfl
  unfold RecvAt at h ⊢
  split at h
  case h_2 p =>
    cases p <;> simp only [RecvStartAt] at h ⊢ <;>
      grind [RecvWaits.notice_lands, FetchAt.notice_lands, RecvReady]
  case h_9 p =>
    cases p <;> simp only [CrosstalkAt] at h ⊢ <;>
      grind [Pulled.notice_lands, FetchAt.notice_lands]
  all_goals grind [RecvWaits.notice_lands, Pulled.notice_lands, RecvSettled]

theorem RecvIn.ready_lands (h : RecvIn l fl s pc prog) (hx : fl.ready = some x)
    (hreq : l'.req = l.req) (hb : l'.worker.barrier = l.worker.barrier) :
    s.Announcing ∧ l.req.flagBuffer = s.readyValue l.req.operationNumber ∧
      RecvIn l' { fl with ready := none } s.readyLanded pc prog := by
  cases prog with
  | none => exact RecvAt.ready_lands h hx hreq
  | some p =>
      have hsome : fl.ready ≠ none := by simp [hx]
      cases p <;> simp only [RecvIn, ProgressAt] at h ⊢ <;>
        grind [RecvAt.ready_lands, FetchAt.ready_lands]

theorem RecvIn.data_lands (h : RecvIn l fl s pc prog) (hx : fl.data = some x)
    (hreq : l'.req = l.req) (hb : l'.worker.barrier = l.worker.barrier) :
    s.Fetching ∧ RecvIn l' { fl with data := none } s.dataLanded pc prog := by
  cases prog with
  | none => exact RecvAt.data_lands h hx hreq hb
  | some p =>
      cases p <;> simp only [RecvIn, ProgressAt] at h ⊢ <;>
        grind [RecvAt.data_lands, FetchAt.data_lands]

theorem RecvIn.notice_lands (h : RecvIn l fl s pc prog) (hx : fl.notice = some x)
    (hr : fl.ready = none) (hd : fl.data = none) (hreq : l'.req = l.req) :
    s.Pulls false true true true false ∧
      l.req.flagBuffer = l.req.operationNumber * 2 + 2 ∧
      ∀ s', s'.Pulls false true true true true → RecvIn l' .empty s' pc prog := by
  cases prog with
  | none => exact RecvAt.notice_lands h hx hr hd hreq
  | some p =>
      have hempty : Flight.empty.ready = none := rfl
      cases p <;> simp only [RecvIn, ProgressAt] at h ⊢ <;>
        grind [RecvAt.notice_lands, FetchAt.notice_lands]

end

theorem FetchAt.setFlag {l : Local RdmaOp} {fl : Flight} {s : RecvStage} {p : Point}
    (h : FetchAt l fl s p) (v : Int) : FetchAt (l.setFlag v) fl s p := by
  cases p <;> first | exact ⟨h.1, h.2, h.3⟩ | exact ⟨⟨h.1.1, h.1.2, h.1.3⟩, h.2⟩ | exact h

/-- The sender writes the flag. -/
theorem RecvAt.setFlag {l : Local RdmaOp} {fl : Flight} {s : RecvStage} {pc : RecvPc}
    (h : RecvAt l fl s pc) {v : Int} (hv : l.req.flag ≤ v) : RecvAt (l.setFlag v) fl s pc := by
  have hu : Unheld l.req → Unheld (l.setFlag v).req := fun h => ⟨h.1, h.2⟩
  have hp : Pulled l fl s → Pulled (l.setFlag v) fl s := fun h => ⟨h.1, h.2, h.3, h.4⟩
  have hr : RecvReady l fl s → RecvReady (l.setFlag v) fl s := fun h => ⟨h.1, h.2, h.3, h.4⟩
  have hs : RecvSettled l fl s → RecvSettled (l.setFlag v) fl s :=
    fun h => ⟨h.1, h.2, ⟨h.3.1, h.3.2⟩⟩
  have hw : RecvWaits l fl s → RecvWaits (l.setFlag v) fl s :=
    Or.imp hp fun ⟨h1, h2, h3⟩ => ⟨hr h1, h2, h3⟩
  have hf : ∀ p, FetchAt l fl s p → FetchAt (l.setFlag v) fl s p := fun _ h => h.setFlag v
  unfold RecvAt at h ⊢
  split at h
  case h_2 p =>
    cases p <;> simp only [RecvStartAt] at h ⊢ <;> simp only [Local.setFlag] at * <;> grind
  case h_9 p =>
    cases p <;> simp only [CrosstalkAt] at h ⊢ <;> simp only [Local.setFlag] at * <;> grind
  all_goals
    simp only [Local.setFlag] at *
    grind

theorem RecvIn.setFlag {l : Local RdmaOp} {fl : Flight} {s : RecvStage} {pc : RecvPc}
    {prog : Option Point} (h : RecvIn l fl s pc prog) {v : Int} (hv : l.req.flag ≤ v) :
    RecvIn (l.setFlag v) fl s pc prog := by
  cases prog with
  | none => exact RecvAt.setFlag h hv
  | some p =>
      cases p with
      | test => exact RecvAt.setFlag h hv
      | progress => exact RecvAt.setFlag h hv
      | _ => exact ⟨FetchAt.setFlag h.1 v, h.2.1, h.2.2⟩

/-! ### The code's steps -/

section
variable {l l' : Local RdmaOp} {fl : Flight} {a : Proto β} {p : Point} {imm checked : Bool}
  {o : Outcome Point}

/-- Until the payload has landed, the flag of a receiver that fetches is the announcement or one
more. -/
theorem flag_of_pulls (hJ : Proto.Joint a) {pending stored : Bool}
    (hs : a.recv.Pulls pending stored false false false) :
    a.recvFlag = if stored then 2 * a.recvNumber + 2 else 2 * a.recvNumber + 1 := by
  obtain ⟨t, hs⟩ := hs
  simp only [Proto.Joint, hs] at hJ
  split at hJ <;> grind

/-- A receiver that has begun to fetch does not find the announcement in its flag again. -/
theorem flag_ne_of_stored (hJ : Proto.Joint a) {pending filled data notice : Bool}
    (hs : a.recv.Pulls pending true filled data notice) : a.recvFlag ≠ 2 * a.recvNumber + 1 := by
  obtain ⟨t, hs⟩ := hs
  simp only [Proto.Joint, hs] at hJ
  split at hJ <;> grind

/-- **The branch that fetches the payload follows the protocol.** -/
theorem FetchAt.step (hJ : Proto.Joint a) (hC : Carries .get l fl) (hA : FetchAt l fl a.recv p)
    (hn : a.recvNumber = l.req.operationNumber) (hf : a.recvFlag = l.req.flag)
    (hu : l.req.ucxRequestDataTransfer = none)
    (hstep : fetchStep id oneEp checked imm p l = (o, l')) :
    ∃ s' fl', RecvMoves a s' l'.req.flag ∧ Carries .get l' fl' ∧ fl'.ready = fl.ready ∧
      SameLink l.req l'.req ∧ l'.failed = l.failed ∧
      l'.req.ucxRequestFlagTransfer = l.req.ucxRequestFlagTransfer ∧
      ((o = .goto .progress ∧ Pulled l' fl' s') ∨
        ∃ p', o = .goto p' ∧ FetchAt l' fl' s' p' ∧ l'.req.ucxRequestDataTransfer = none) := by
  have hle := Nat.le_refl l.worker.clock
  cases p with
  | load =>
      obtain ⟨hs, hd, hnt, hb⟩ := hA
      cases hstep
      have hfl := flag_of_pulls hJ hs
      simp only [Bool.false_eq_true, if_false] at hfl
      exact ⟨a.recv, fl, Or.inl ⟨rfl, hf.symm⟩, hC, rfl, .refl _, rfl, rfl,
        Or.inr ⟨_, rfl, ⟨hs, hd, hnt, hb, by omega⟩, hu⟩⟩
  | store v =>
      obtain ⟨⟨t, hs⟩, hd, hnt, hb, rfl⟩ := hA
      cases hstep
      refine ⟨.pull ⟨fl.ready.isSome, true, false, false, false, t⟩, fl, Or.inr ⟨.recvStore, ?_, ?_⟩,
        hC.congr rfl hle (.of_setters ..), rfl, .of_setters .., rfl, rfl,
        Or.inr ⟨_, rfl, ⟨⟨t, rfl⟩, hd, hnt, hb⟩, hu⟩⟩
      · simp [Proto.Timely]
      · simp only [Proto.step, hs, Local.setFlag, hn, Proto.recvTo]
        simp
        omega
  | data =>
      obtain ⟨hs, hd, hnt, hb⟩ := hA
      cases hstep
      have hfl := flag_of_pulls hJ hs
      simp only [if_true] at hfl
      have hC' : Carries .get (l.assert (l.req.flag = l.req.operationNumber * 2 + 2)) fl :=
        hC.congr rfl hle (.refl _)
      obtain ⟨x, hx⟩ := hC'.post_data hd hnt
      refine ⟨a.recv, _, Or.inl ⟨rfl, hf.symm⟩, hx, rfl, .refl _, ?_, rfl,
        Or.inr ⟨_, rfl, ⟨hs, hnt, hb⟩, hu⟩⟩
      simp [Local.post, Local.assert]
      omega
  | fence =>
      cases hstep
      obtain ⟨hx, hbar⟩ := hC.fence
      exact ⟨a.recv, fl, Or.inl ⟨rfl, hf.symm⟩, hx, rfl, .refl _, rfl, rfl,
        Or.inr ⟨_, rfl, ⟨⟨hA.1, hA.2, hA.3⟩, hbar⟩, hu⟩⟩
  | fill =>
      obtain ⟨⟨⟨t, hs⟩, hnt, hb⟩, hbar⟩ := hA
      cases hstep
      refine ⟨.pull ⟨fl.ready.isSome, true, true, fl.data.isNone, false, t⟩, fl,
        Or.inr ⟨.recvFill, ?_, ?_⟩, hC.congr rfl hle (.of_setters ..), rfl, .of_setters .., rfl, rfl,
        Or.inr ⟨_, rfl, ⟨⟨t, rfl⟩, hnt, rfl, hbar⟩, hu⟩⟩
      · simp [Proto.Timely]
      · simp only [Proto.step, hs, Local.setFlagBuffer, Proto.recvTo]
        simp [hf]
  | signal =>
      obtain ⟨hs, hnt, hb, hbar⟩ := hA
      cases hstep
      obtain ⟨x, hx⟩ := hC.post_notice hnt hbar
      exact ⟨a.recv, _, Or.inl ⟨rfl, hf.symm⟩, hx, rfl, .refl _, rfl, rfl,
        Or.inr ⟨_, rfl, ⟨hs, by simp, hb⟩, hu⟩⟩
  | flush =>
      obtain ⟨hs, hlast, hb⟩ := hA
      cases hstep
      refine ⟨a.recv, fl, Or.inl ⟨rfl, hf.symm⟩, hC.congr rfl hle (.of_setters ..), rfl,
        .of_setters .., ?_, rfl, Or.inl ⟨rfl, ⟨hs, hlast, hb, held_flush hC imm⟩⟩⟩
      simp [Local.setDataTransfer, Local.assert, hu]
  | _ => exact absurd hA (by simp [FetchAt])

end

/-- Where the fetching branch goes, `b_recv` called from Start goes. -/
theorem RecvStartAt.of_fetch {l : Local RdmaOp} {fl : Flight} {s : RecvStage} {p : Point}
    (h : FetchAt l fl s p) (hr : fl.ready = none) (hu : Unheld l.req) : RecvStartAt l fl s p := by
  cases p <;> first | exact ⟨h, hr, hu⟩ | exact h.elim

theorem CrosstalkAt.of_fetch {l : Local RdmaOp} {fl : Flight} {s : RecvStage} {p : Point}
    (h : FetchAt l fl s p) (hr : fl.ready = none) (hu : Unheld l.req) : CrosstalkAt l fl s p := by
  cases p <;> first | exact ⟨h, hr, hu⟩ | exact h.elim

theorem bRecv_of_fetch {l : Local RdmaOp} {fl : Flight} {s : RecvStage} {p : Point}
    (h : FetchAt l fl s p) (imm : Bool) :
    bRecv id oneEp imm p l = fetchStep id oneEp true imm p l := by
  cases p <;> first | rfl | exact h.elim

namespace RecvRel

variable {pc pc' : RecvPc} {prog : Option Point} {l l' : Local RdmaOp} {a : Proto β} {imm : Bool}

/-- A step that leaves the stage and the flag as they are. -/
theorem stay (h : RecvRel pc none l a) {fl : Flight} (hC : Carries .get l' fl)
    (hA : RecvAt l' fl a.recv pc') (hr : SameLink l.req l'.req) (hf : l'.req.flag = l.req.flag)
    (hfail : l'.failed = l.failed) :
    ∃ s', RecvMoves a s' l'.req.flag ∧ RecvRel pc' none l' (a.recvTo s' l'.req.flag) ∧
      SameLink l.req l'.req ∧ l'.failed = l.failed :=
  ⟨a.recv, Or.inl ⟨rfl, by rw [hf, h.flag]⟩,
    ⟨⟨fl, hC, hA⟩, by rw [hr.operationNumber]; exact h.number, rfl⟩, hr, hfail⟩

/-- A step that the protocol takes too. -/
theorem move (h : RecvRel pc none l a) {s' : RecvStage} {fl : Flight}
    (hm : RecvMoves a s' l'.req.flag) (hC : Carries .get l' fl) (hA : RecvAt l' fl s' pc')
    (hr : SameLink l.req l'.req) (hfail : l'.failed = l.failed) :
    ∃ s', RecvMoves a s' l'.req.flag ∧ RecvRel pc' none l' (a.recvTo s' l'.req.flag) ∧
      SameLink l.req l'.req ∧ l'.failed = l.failed :=
  ⟨s', hm, ⟨⟨fl, hC, hA⟩, by rw [hr.operationNumber]; exact h.number, rfl⟩, hr, hfail⟩

/-- The sender writes the flag. -/
theorem setFlag (h : RecvRel pc prog l a) {v : Int} (hv : a.recvFlag ≤ v) (s : SendStage) :
    RecvRel pc prog (l.setFlag v) { a with send := s, recvFlag := v } := by
  obtain ⟨fl, hC, hA⟩ := h.sim
  exact ⟨⟨fl, hC.congr rfl (Nat.le_refl _) (.of_setters ..), hA.setFlag (h.flag ▸ hv)⟩,
    h.number, rfl⟩

/-- The fetching branch of `b_recv`, called from Start. -/
theorem run_start_fetch {p : Point} {fl : Flight} (hJ : Proto.Joint a) (h : RecvRel (.start p) none l a)
    (hC : Carries .get l fl) (hA : FetchAt l fl a.recv p) (hr : fl.ready = none)
    (hu : Unheld l.req) (hrun : recvRun imm (.start p) l = some (pc', l')) :
    ∃ s', RecvMoves a s' l'.req.flag ∧ RecvRel pc' none l' (a.recvTo s' l'.req.flag) ∧
      SameLink l.req l'.req ∧ l'.failed = l.failed := by
  simp only [recvRun, bRecv_of_fetch hA] at hrun
  rcases hstep : fetchStep id oneEp true imm p l with ⟨o, l₁⟩
  obtain ⟨s', fl', hm, hC', hr', hlink, hfail, hft, hgo⟩ :=
    hA.step hJ hC h.number h.flag hu.1 hstep
  rw [hstep] at hrun
  rcases hgo with ⟨rfl, hp⟩ | ⟨p', rfl, hp, hdt⟩
  · cases hrun
    exact h.move hm hC' (Or.inl hp) hlink hfail
  · cases hrun
    exact h.move hm hC' (.of_fetch hp (hr'.trans hr) ⟨hdt, hft.trans hu.2⟩) hlink hfail

/-- **`b_recv`, called from Start, follows the protocol.** -/
theorem run_start {p : Point} (hJ : Proto.Joint a) (h : RecvRel (.start p) none l a)
    (hrun : recvRun imm (.start p) l = some (pc', l')) :
    ∃ s', RecvMoves a s' l'.req.flag ∧ RecvRel pc' none l' (a.recvTo s' l'.req.flag) ∧
      SameLink l.req l'.req ∧ l'.failed = l.failed := by
  obtain ⟨fl, hC, hA⟩ := h.sim
  have hn := h.number
  have hf := h.flag
  have hle := Nat.le_refl l.worker.clock
  cases p with
  | test =>
      obtain ⟨hs, rfl, hu⟩ := hA
      by_cases hflag : l.req.flag = l.req.operationNumber * 2 + 1
      · obtain ⟨rfl, rfl⟩ : pc' = .start .load ∧ l' = l := by
          simpa [recvRun, bRecv, hflag, eq_comm] using hrun
        refine h.move (Or.inr ⟨.recvTest, by simp [Proto.Timely], ?_⟩) hC
          ⟨⟨⟨false, rfl⟩, rfl, rfl, Or.inl rfl⟩, rfl, hu⟩ (.refl _) rfl
        simp only [Proto.step, hs, Proto.recvTo]
        rw [if_pos (by omega), hf]
        rfl
      · obtain ⟨rfl, rfl⟩ : pc' = .start .fillReady ∧ l' = l := by
          simpa [recvRun, bRecv, hflag, eq_comm] using hrun
        refine h.move (Or.inr ⟨.recvTest, by simp [Proto.Timely], ?_⟩) hC
          ⟨rfl, rfl, hu⟩ (.refl _) rfl
        simp only [Proto.step, hs, Proto.recvTo]
        rw [if_neg (by omega), hf]
  | fillReady =>
      obtain ⟨hs, rfl, hu⟩ := hA
      cases hrun
      exact h.stay (hC.congr rfl hle (.of_setters ..)) ⟨hs, rfl, ⟨hu.1, hu.2⟩, rfl⟩
        (.of_setters ..) rfl rfl
  | ready =>
      obtain ⟨hs, rfl, hu, hb⟩ := hA
      cases hrun
      obtain ⟨x, hx⟩ := hC.post_ready
      exact h.stay hx ⟨⟨hs, rfl, rfl, hb⟩, hu⟩ (.refl _) rfl rfl
  | flushReady =>
      obtain ⟨hp, hu⟩ := hA
      cases hrun
      refine h.stay (hC.congr rfl hle (.of_setters ..))
        (Or.inr ⟨⟨hp.1, hp.2, hp.3, hp.4⟩, held_flush hC imm, hu.1⟩) (.of_setters ..) rfl ?_
      simp [Local.setFlagTransfer, Local.assert, hu.2]
  | progress =>
      cases hrun
      exact h.stay hC hA (.refl _) rfl rfl
  | _ =>
      obtain ⟨hfetch, hr, hu⟩ := hA
      exact run_start_fetch hJ h hC hfetch hr hu hrun

/-- The fetching branch of `b_recv`, called from `e_recv`. -/
theorem run_crosstalk_fetch {p : Point} {fl : Flight} (hJ : Proto.Joint a)
    (h : RecvRel (.wait (.fetch p)) none l a) (hC : Carries .get l fl) (hA : FetchAt l fl a.recv p)
    (hr : fl.ready = none) (hu : Unheld l.req)
    (hrun : recvRun imm (.wait (.fetch p)) l = some (pc', l')) :
    ∃ s', RecvMoves a s' l'.req.flag ∧ RecvRel pc' none l' (a.recvTo s' l'.req.flag) ∧
      SameLink l.req l'.req ∧ l'.failed = l.failed := by
  simp only [recvRun, eRecv, bRecv_of_fetch hA] at hrun
  rcases hstep : fetchStep id oneEp true imm p l with ⟨o, l₁⟩
  obtain ⟨s', fl', hm, hC', hr', hlink, hfail, hft, hgo⟩ :=
    hA.step hJ hC h.number h.flag hu.1 hstep
  rw [hstep] at hrun
  rcases hgo with ⟨rfl, hp⟩ | ⟨p', rfl, hp, hdt⟩
  · cases hrun
    exact h.move hm hC' ⟨hp, hft.trans hu.2⟩ hlink hfail
  · cases hrun
    exact h.move hm hC' (CrosstalkAt.of_fetch hp (hr'.trans hr) ⟨hdt, hft.trans hu.2⟩) hlink hfail

/-- `b_recv`, called from `e_recv`: the flag is still the announcement. -/
theorem run_crosstalk {p : Point} (hJ : Proto.Joint a) (h : RecvRel (.wait (.fetch p)) none l a)
    (hrun : recvRun imm (.wait (.fetch p)) l = some (pc', l')) :
    ∃ s', RecvMoves a s' l'.req.flag ∧ RecvRel pc' none l' (a.recvTo s' l'.req.flag) ∧
      SameLink l.req l'.req ∧ l'.failed = l.failed := by
  obtain ⟨fl, hC, hA⟩ := h.sim
  have hn := h.number
  have hf := h.flag
  cases p with
  | test =>
      obtain ⟨hs, rfl, hu⟩ := hA
      have hpulls : a.recv.Pulls false false false false false := ⟨false, hs⟩
      have hfl := flag_of_pulls hJ hpulls
      simp only [Bool.false_eq_true, if_false] at hfl
      have hflag : l.req.flag = l.req.operationNumber * 2 + 1 := by omega
      obtain ⟨rfl, rfl⟩ : pc' = .wait (.fetch .load) ∧ l' = l := by
        simpa [recvRun, eRecv, bRecv, hflag, eq_comm] using hrun
      exact h.stay hC ⟨⟨hpulls, rfl, rfl, Or.inl rfl⟩, rfl, hu⟩ (.refl _) rfl rfl
  | progress =>
      cases hrun
      exact h.stay hC hA (.refl _) rfl rfl
  | fillReady => exact absurd hA.1 (by simp [FetchAt])
  | ready => exact absurd hA.1 (by simp [FetchAt])
  | flushReady => exact absurd hA.1 (by simp [FetchAt])
  | _ =>
      obtain ⟨hfetch, hr, hu⟩ := hA
      exact run_crosstalk_fetch hJ h hC hfetch hr hu hrun

/-- **`e_recv` follows the protocol**, until it returns. -/
theorem run_wait {w : RecvWait} (hJ : Proto.Joint a) (h : RecvRel (.wait w) none l a)
    (hrun : recvRun imm (.wait w) l = some (pc', l')) (hpc : pc' ≠ .idle) :
    ∃ s', RecvMoves a s' l'.req.flag ∧ RecvRel pc' none l' (a.recvTo s' l'.req.flag) ∧
      SameLink l.req l'.req ∧ l'.failed = l.failed := by
  obtain ⟨fl, hC, hA⟩ := h.sim
  have hn := h.number
  have hf := h.flag
  have hle := Nat.le_refl l.worker.clock
  cases w with
  | flagTransfer =>
      simp only [recvRun, eRecv] at hrun
      by_cases hdone : flushed oneEp l.worker l.req.ucxRequestFlagTransfer = true
      · rw [if_pos hdone] at hrun
        cases hrun
        refine h.stay (hC.congr rfl hle (.of_setters ..)) ?_ (.of_setters ..) rfl rfl
        rcases hA with hp | ⟨hr, hh, hno⟩
        · exact Or.inl ⟨⟨hp.1, hp.2, hp.3, hp.4⟩, rfl⟩
        · obtain rfl := eq_empty_of_flushed hC hh hdone
          exact Or.inr ⟨Or.inl hr.1, rfl, ⟨hno, rfl⟩⟩
      · rw [if_neg hdone] at hrun
        cases hrun
        exact h.stay hC hA (.refl _) rfl rfl
  | dataTransfer =>
      simp only [recvRun, eRecv] at hrun
      by_cases hdone : flushed oneEp l.worker l.req.ucxRequestDataTransfer = true
      · rw [if_pos hdone] at hrun
        cases hrun
        refine h.stay (hC.congr rfl hle (.of_setters ..)) ?_ (.of_setters ..) rfl rfl
        rcases hA with ⟨hp, hft⟩ | hp
        · obtain rfl := eq_empty_of_flushed hC hp.held hdone
          exact ⟨Or.inr hp.1, rfl, ⟨rfl, hft⟩⟩
        · exact ⟨hp.1, hp.2, ⟨rfl, hp.3.2⟩⟩
      · rw [if_neg hdone] at hrun
        cases hrun
        exact h.stay hC hA (.refl _) rfl rfl
  | spin count =>
      simp only [recvRun, eRecv] at hrun
      split at hrun <;> rename_i heq <;> split at heq <;> cases heq <;> cases hrun <;>
        exact h.stay hC hA (.refl _) rfl rfl
  | poll =>
      by_cases hflag : l.req.flag < l.req.operationNumber * 2 + 1
      · obtain ⟨rfl, rfl⟩ : pc' = .wait .poll ∧ l' = l := by
          simpa [recvRun, eRecv, hflag, eq_comm] using hrun
        exact h.stay hC hA (.refl _) rfl rfl
      · obtain ⟨rfl, rfl⟩ : pc' = .wait .crosstalk ∧ l' = l := by
          simpa [recvRun, eRecv, hflag, eq_comm] using hrun
        exact h.stay hC ⟨hA, by omega⟩ (.refl _) rfl rfl
  | crosstalk =>
      obtain ⟨⟨hs, rfl, hu⟩, -⟩ := hA
      by_cases hflag : l.req.flag = l.req.operationNumber * 2 + 1
      · obtain ⟨rfl, rfl⟩ : pc' = .wait (.fetch .test) ∧ l' = l := by
          simpa [recvRun, eRecv, hflag, eq_comm] using hrun
        rcases hs with hs | hs
        · refine h.move (Or.inr ⟨.recvFetch, fun _ => hs, ?_⟩) hC ⟨rfl, rfl, hu⟩ (.refl _) rfl
          simp only [Proto.step, hs, Proto.recvTo]
          rw [if_pos (by omega), hf]
          rfl
        · exact absurd (by omega) (flag_ne_of_stored hJ hs)
      · obtain ⟨rfl, rfl⟩ : pc' = .idle ∧ l' = l := by
          simpa [recvRun, eRecv, hflag, eq_comm] using hrun
        exact absurd rfl hpc
  | fetch p => exact run_crosstalk hJ h hrun
  | fetched =>
      simp only [recvRun, eRecv] at hrun
      by_cases hdone : flushed oneEp l.worker l.req.ucxRequestDataTransfer = true
      · rw [if_pos hdone] at hrun
        cases hrun
        exact absurd rfl hpc
      · rw [if_neg hdone] at hrun
        cases hrun
        exact h.stay hC hA (.refl _) rfl rfl

/-- **Every step of the receiver's code but the last is at most one step of the protocol.** -/
theorem run (hJ : Proto.Joint a) (h : RecvRel pc none l a) (hrun : recvRun imm pc l = some (pc', l'))
    (hpc : pc' ≠ .idle) :
    ∃ s', RecvMoves a s' l'.req.flag ∧ RecvRel pc' none l' (a.recvTo s' l'.req.flag) ∧
      SameLink l.req l'.req ∧ l'.failed = l.failed := by
  cases pc with
  | start p => exact run_start hJ h hrun
  | wait w => exact run_wait hJ h hrun hpc
  | idle => simp [recvRun] at hrun
  | started => simp [recvRun] at hrun

/-- A receiver that waits for nothing any more is done. -/
theorem complete {fl : Flight} (h : RecvRel pc none l a) (hC : Carries .get l' fl) (hfl : fl = .empty)
    (hs : (a.recv = .ready true ∧ 2 * a.recvNumber + 2 ≤ a.recvFlag) ∨
      a.recv.Pulls false true true true true)
    (hu : Unheld l'.req) (hr : SameLink l.req l'.req) (hf : l'.req.flag = l.req.flag) :
    a.step .recvReturn = some a.complete ∧ RecvRel .idle none l' a.complete := by
  subst hfl
  refine ⟨?_, ⟨_, hC, rfl, rfl, hu⟩, by rw [hr.operationNumber]; exact h.number,
    by rw [hf]; exact h.flag⟩
  rcases hs with ⟨hs, hle⟩ | ⟨t, hs⟩
  · simp only [Proto.step, hs, Proto.complete]
    rw [if_pos hle]
  · simp only [Proto.step, hs, Proto.complete]
    rw [if_pos (by simp)]

/-- **When `e_recv` returns the protocol completes the operation**, and no handle is left. -/
theorem run_return (h : RecvRel pc none l a) (hrun : recvRun imm pc l = some (.idle, l')) :
    a.step .recvReturn = some a.complete ∧ RecvRel .idle none l' a.complete ∧ Unheld l'.req ∧
      SameLink l.req l'.req ∧ l'.req.flag = l.req.flag ∧ l'.failed = l.failed := by
  obtain ⟨fl, hC, hA⟩ := h.sim
  have hn := h.number
  have hf := h.flag
  cases pc with
  | idle => simp [recvRun] at hrun
  | started => simp [recvRun] at hrun
  | start p =>
      simp only [recvRun] at hrun
      split at hrun <;> cases hrun
  | wait w =>
      cases w with
      | crosstalk =>
          obtain ⟨⟨hs, rfl, hu⟩, hge⟩ := hA
          by_cases hflag : l.req.flag = l.req.operationNumber * 2 + 1
          · simp [recvRun, eRecv, hflag] at hrun
          · obtain rfl : l' = l := by simpa [recvRun, eRecv, hflag, eq_comm] using hrun
            obtain ⟨h1, h2⟩ := h.complete hC rfl (hs.imp (fun hs => ⟨hs, by omega⟩) id) hu (.refl _) rfl
            exact ⟨h1, h2, hu, .refl _, rfl, rfl⟩
      | fetched =>
          obtain ⟨hp, hft⟩ := hA
          by_cases hdone : flushed oneEp l.worker l.req.ucxRequestDataTransfer = true
          · obtain rfl : l' = l.setDataTransfer none := by
              simpa [recvRun, eRecv, hdone, eq_comm] using hrun
            obtain rfl := eq_empty_of_flushed hC hp.held hdone
            have hu : Unheld (l.setDataTransfer none).req := ⟨rfl, hft⟩
            have hC' : Carries .get (l.setDataTransfer none) .empty :=
              hC.congr rfl (Nat.le_refl _) (.of_setters ..)
            obtain ⟨h1, h2⟩ := h.complete hC' rfl (Or.inr hp.stage) hu (.of_setters ..) rfl
            exact ⟨h1, h2, hu, .of_setters .., rfl, rfl⟩
          · simp [recvRun, eRecv, hdone] at hrun
      | fetch p =>
          simp only [recvRun, eRecv] at hrun
          split at hrun <;> rename_i heq <;> split at heq <;> cases heq <;> cases hrun
      | _ =>
          simp only [recvRun, eRecv] at hrun
          split at hrun <;> rename_i heq <;> split at heq <;> cases heq <;> cases hrun

/-- **An operation of the receiver that lands is a step of the protocol.** -/
theorem lands {i : Nat} {x : Posted RdmaOp} (h : RecvRel pc prog l a)
    (hx : l.worker.enabled? i = some x) :
    (x.op = .flag l.req.operationNumber l.req.remoteFlagAddr ∧ ∃ s' act, act ≠ .recvFetch ∧
        a.step act = some { a with recv := s', sendFlag := l.req.flagBuffer } ∧
        RecvRel pc prog (l.retire i) { a with recv := s', sendFlag := l.req.flagBuffer }) ∨
      (x.op = payloadOp .get l.req ∧ ∃ s',
        a.step .recvDataLands = some (a.get s') ∧ RecvRel pc prog (l.retire i) (a.get s')) := by
  obtain ⟨fl, hC, hA⟩ := h.sim
  have hn := h.number
  have hf := h.flag
  have hreq : (l.retire i).req = l.req := rfl
  rcases hC.lands hx with ⟨hr, hC'⟩ | ⟨hd, hC'⟩ | ⟨hnt, hr, hd, hC'⟩
  · obtain ⟨hs, hb, hA'⟩ := hA.ready_lands hr hreq rfl
    refine Or.inl ⟨hC.ready x hr, a.recv.readyLanded, .recvReadyLands, by simp, ?_,
      ⟨_, hC', hA'⟩, hn, hf⟩
    rw [hb, ← hn]
    exact hs.step
  · obtain ⟨hs, hA'⟩ := hA.data_lands hd hreq rfl
    refine Or.inr ⟨hC.data x hd, a.recv.dataLanded, ?_, ⟨_, hC', hA'⟩, hn, hf⟩
    exact hs.step
  · obtain ⟨⟨t, hs⟩, hb, hA'⟩ := hA.notice_lands hnt hr hd hreq
    refine Or.inl ⟨hC.notice x hnt, .pull ⟨false, true, true, true, true, t⟩, .recvNoticeLands,
      by simp, ?_, ⟨_, hC', hA' _ ⟨t, rfl⟩⟩, hn, hf⟩
    rw [hb, ← hn]
    simp [Proto.step, hs, Int.mul_comm]

end RecvRel

/-! ### What others do -/

section
variable {l l' : Local RdmaOp} {fl : Flight} {s : RecvStage} {pc : RecvPc} {prog : Option Point}
  {p : Point} {a : Proto β}

theorem FetchAt.mono (h : FetchAt l fl s p) (hreq : Alike l.req l'.req)
    (hb : l.worker.barrier ≤ l'.worker.barrier) : FetchAt l' fl s p := by
  have hn := hreq.operationNumber
  have hfb := hreq.flagBuffer
  unfold FetchAt at h ⊢
  split at h <;> grind [Pulling]

/-- A receiver does not notice a change to fields that no function moving data reads, nor
that others use the worker. -/
theorem RecvAt.mono (h : RecvAt l fl s pc) (hreq : Alike l.req l'.req)
    (hb : l.worker.barrier ≤ l'.worker.barrier) : RecvAt l' fl s pc := by
  have hn := hreq.operationNumber
  have hfl := hreq.flag
  have hfb := hreq.flagBuffer
  have hu : Unheld l.req → Unheld l'.req :=
    fun h => ⟨hreq.dataTransfer.trans h.1, hreq.flagTransfer.trans h.2⟩
  have hp : Pulled l fl s → Pulled l' fl s :=
    fun h => ⟨h.1, h.2, by rw [hfb, hn, h.3], by rw [hreq.dataTransfer]; exact h.4⟩
  have hr : RecvReady l fl s → RecvReady l' fl s := fun h => ⟨h.1, h.2, h.3, by rw [hfb, hn, h.4]⟩
  have hs : RecvSettled l fl s → RecvSettled l' fl s := fun h => ⟨h.1, h.2, hu h.3⟩
  have hw : RecvWaits l fl s → RecvWaits l' fl s :=
    Or.imp hp fun ⟨h1, h2, h3⟩ => ⟨hr h1, by rw [hreq.flagTransfer]; exact h2,
      by rw [hreq.dataTransfer]; exact h3⟩
  have hf : ∀ p, FetchAt l fl s p → FetchAt l' fl s p := fun _ h => h.mono hreq hb
  have hft := hreq.flagTransfer
  unfold RecvAt at h ⊢
  split at h
  case h_2 p =>
    cases p <;> simp only [RecvStartAt] at h ⊢ <;> grind
  case h_9 p =>
    cases p <;> simp only [CrosstalkAt] at h ⊢ <;> grind
  all_goals grind

theorem RecvIn.mono (h : RecvIn l fl s pc prog) (hreq : Alike l.req l'.req)
    (hb : l.worker.barrier ≤ l'.worker.barrier) : RecvIn l' fl s pc prog := by
  have hdt := hreq.dataTransfer
  have hft := hreq.flagTransfer
  cases prog with
  | none => exact RecvAt.mono h hreq hb
  | some p =>
      cases p with
      | test => exact RecvAt.mono h hreq hb
      | progress => exact RecvAt.mono h hreq hb
      | _ =>
          refine ⟨FetchAt.mono h.1 hreq hb, hdt.trans h.2.1, h.2.2.imp id ?_⟩
          intro ⟨h1, h2, h3⟩
          exact ⟨h1, h2, hft.trans h3⟩

theorem RecvRel.mono (h : RecvRel pc prog l a) (hreq : Alike l.req l'.req)
    (hp : l'.worker.pending = l.worker.pending) (hc : l.worker.clock ≤ l'.worker.clock)
    (hb : l.worker.barrier ≤ l'.worker.barrier) : RecvRel pc prog l' a := by
  obtain ⟨fl, hC, hA⟩ := h.sim
  exact ⟨⟨fl, hC.congr hp hc hreq.toSameLink, hA.mono hreq hb⟩,
    h.number.trans hreq.operationNumber.symm, h.flag.trans hreq.flag.symm⟩

end

/-! ### `progress_recv_request` -/

section
variable {l l' : Local RdmaOp} {fl : Flight} {pc : RecvPc} {a : Proto β} {pt : Point} {imm : Bool}
  {o : Outcome Point}

/-- Where a receiver can be while the process is in `progress_recv_request` for it. -/
def RecvPc.Pauses (pc : RecvPc) : Prop := pc = .idle ∨ pc = .started ∨ pc = .wait .poll

/-- Where `progress_recv_request` goes after a step. -/
def Outcome.point : Outcome Point → Option Point
  | .goto pt => some pt
  | _ => none

/-- The receiver moves to stage `s` with flag `f`, by one step of the protocol at most, timely or
not. -/
def RecvFollows (a : Proto β) (s : RecvStage) (f : Int) : Prop :=
  (s = a.recv ∧ f = a.recvFlag) ∨ ∃ act, a.step act = some (a.recvTo s f)

theorem RecvMoves.follows {s : RecvStage} {f : Int} (h : RecvMoves a s f) : RecvFollows a s f :=
  h.imp id fun ⟨act, _, hs⟩ => ⟨act, hs⟩

/-- A receiver that finds the announcement has announced itself and holds no payload handle. -/
theorem RecvAt.announced (hJ : Proto.Joint a) (hpc : pc.Pauses) (hA : RecvAt l fl a.recv pc)
    (hf : a.recvFlag = 2 * a.recvNumber + 1) :
    a.recv = .ready fl.ready.isNone ∧ fl.data = none ∧ fl.notice = none ∧
      l.req.ucxRequestDataTransfer = none ∧
      (fl.ready = none ∨ l.req.flagBuffer = l.req.operationNumber * 2 + 1) ∧
      (pc = .started ∨ (pc = .wait .poll ∧ fl.ready = none ∧ l.req.ucxRequestFlagTransfer = none)) := by
  rcases hpc with rfl | rfl | rfl
  · obtain ⟨hs, -, -⟩ := hA
    simp only [Proto.Joint, hs] at hJ
    split at hJ <;> grind
  · rcases hA with hp | ⟨hr, hh, hdt⟩
    · exact absurd hf (flag_ne_of_stored hJ hp.stage)
    · exact ⟨hr.stage, hr.data, hr.notice, hdt, Or.inr hr.flagBuffer, Or.inl rfl⟩
  · obtain ⟨hs | hs, rfl, hu⟩ := hA
    · exact ⟨hs, rfl, rfl, hu.1, Or.inl rfl, Or.inr ⟨rfl, rfl, hu.2⟩⟩
    · exact absurd hf (flag_ne_of_stored hJ hs)

/-- The fetching branch of `progress_recv_request`.  Inside the polling loop of the request's own
Wait it stays with the protocol if its flush is complete at once. -/
theorem RecvRel.progress_fetch (hJ : Proto.Joint a) (h : RecvRel pc (some pt) l a)
    (hA : FetchAt l fl a.recv pt) (hC : Carries .get l fl)
    (hdt : l.req.ucxRequestDataTransfer = none)
    (hpc : pc = .started ∨ (pc = .wait .poll ∧ fl.ready = none ∧ l.req.ucxRequestFlagTransfer = none))
    (hstep : fetchStep id oneEp false imm pt l = (o, l'))
    (hflush : pt = .flush → pc = .wait .poll → l'.req.ucxRequestDataTransfer = none) :
    ∃ s', RecvFollows a s' l'.req.flag ∧ RecvRel pc o.point l' (a.recvTo s' l'.req.flag) ∧
      SameLink l.req l'.req := by
  obtain ⟨s', fl', hm, hC', hr', hlink, -, hft, hgo⟩ := hA.step hJ hC h.number h.flag hdt hstep
  have hnum : (a.recvTo s' l'.req.flag).recvNumber = l'.req.operationNumber := by
    rw [hlink.operationNumber]
    exact h.number
  refine ⟨s', hm.follows, ⟨⟨fl', hC', ?_⟩, hnum, rfl⟩, hlink⟩
  rcases hgo with ⟨rfl, hp⟩ | ⟨p', rfl, hp, hdt'⟩
  · -- the handle has just been written
    show RecvAt l' fl' s' pc
    rcases hpc with rfl | ⟨rfl, hr, hno⟩
    · exact Or.inl hp
    · have hpt : pt = .flush := by
        cases pt <;> simp [fetchStep] at hstep
        rfl
      have hnone := hflush hpt rfl
      have hfl' : fl' = .empty := by
        have hheld := hp.held
        rwa [hnone] at hheld
      have hstage := hp.stage
      subst hfl'
      exact ⟨Or.inr hstage, rfl, hnone, hft.trans hno⟩
  · have hin : ProgressAt l' fl' s' pc p' := by
      have hpc' : pc = .started ∨
          (pc = .wait .poll ∧ fl'.ready = none ∧ l'.req.ucxRequestFlagTransfer = none) :=
        hpc.imp id fun ⟨h1, h2, h3⟩ => ⟨h1, hr'.trans h2, hft.trans h3⟩
      cases p' <;> first | exact ⟨hp, hdt', hpc'⟩ | exact hp.elim
    exact hin

/-- **`progress_recv_request` follows the protocol**, unless it leaves a flush incomplete inside the
polling loop of the request's own Wait. -/
theorem RecvRel.progress (hJ : Proto.Joint a) (h : RecvRel pc (some pt) l a) (hpc : pc.Pauses)
    (hstep : progressRecvRequest id oneEp imm pt l = (o, l'))
    (hflush : pt = .flush → pc = .wait .poll → l'.req.ucxRequestDataTransfer = none) :
    ∃ s', RecvFollows a s' l'.req.flag ∧ RecvRel pc o.point l' (a.recvTo s' l'.req.flag) ∧
      SameLink l.req l'.req := by
  obtain ⟨fl, hC, hA⟩ := h.sim
  have hn := h.number
  have hf := h.flag
  have hfetch : ∀ {pt : Point}, RecvRel pc (some pt) l a → FetchAt l fl a.recv pt →
      l.req.ucxRequestDataTransfer = none →
      (pc = .started ∨ (pc = .wait .poll ∧ fl.ready = none ∧ l.req.ucxRequestFlagTransfer = none)) →
      fetchStep id oneEp false imm pt l = (o, l') →
      (pt = .flush → pc = .wait .poll → l'.req.ucxRequestDataTransfer = none) →
      ∃ s', RecvFollows a s' l'.req.flag ∧ RecvRel pc o.point l' (a.recvTo s' l'.req.flag) ∧
        SameLink l.req l'.req :=
    fun h hA hdt hpc hstep hflush => h.progress_fetch hJ hA hC hdt hpc hstep hflush
  cases pt with
  | test =>
      simp only [progressRecvRequest] at hstep
      by_cases hflag : l.req.flag = l.req.operationNumber * 2 + 1
      · rw [if_pos hflag] at hstep
        cases hstep
        have hfa : a.recvFlag = 2 * a.recvNumber + 1 := by omega
        obtain ⟨hs, hd, hnt, hdt, hb, hpc'⟩ := RecvAt.announced hJ hpc hA hfa
        refine ⟨.pull ⟨!fl.ready.isNone, false, false, false, false, false⟩,
          Or.inr ⟨.recvFetch, ?_⟩, ⟨⟨fl, hC, ?_, hdt, hpc'⟩, hn, rfl⟩, .refl _⟩
        · simp only [Proto.step, hs, Proto.recvTo]
          rw [if_pos hfa, hf]
        · exact ⟨⟨false, by cases fl.ready <;> rfl⟩, hd, hnt, hb⟩
      · rw [if_neg hflag] at hstep
        cases hstep
        exact ⟨a.recv, Or.inl ⟨rfl, hf.symm⟩, ⟨⟨fl, hC, hA⟩, hn, rfl⟩, .refl _⟩
  | progress =>
      cases hstep
      exact ⟨a.recv, Or.inl ⟨rfl, hf.symm⟩, ⟨⟨fl, hC, hA⟩, hn, rfl⟩, .refl _⟩
  | fillReady => exact absurd hA.1 (by simp [FetchAt])
  | ready => exact absurd hA.1 (by simp [FetchAt])
  | flushReady => exact absurd hA.1 (by simp [FetchAt])
  | _ => exact hfetch h hA.1 hA.2.1 hA.2.2 hstep hflush

end

end CompMatch.Rendezvous

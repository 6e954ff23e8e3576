/-
Program points and stages.

For every program point of `b_send`, `e_send`, `b_recv`, `e_recv` and
`progress_recv_request`: which stage of the rendezvous protocol a request is in
there, which of its operations can be under way, and which handles it holds.

A request has at most three operations under way: the announcement, the payload and
the notice.  A `Flight` says which, and the stages only read off what is missing
from it.  What the code relies on UCX for is in two places.  The notice was posted
behind a fence, so it lands last (`ordered`); and a handle of a flush covers what was
posted before it (`Held`), so once the flush is complete the flight is empty.
-/
import CompMatch.Rendezvous.Pair
import CompMatch.Rendezvous.Protocol

namespace CompMatch.Rendezvous

/-! ### Operations under way -/

/-- The operations of one request that have not landed. -/
structure Flight where
  ready : Option (Posted RdmaOp)
  data : Option (Posted RdmaOp)
  notice : Option (Posted RdmaOp)

namespace Flight

/-- Nothing is under way. -/
def empty : Flight := ⟨none, none, none⟩

def list (fl : Flight) : List (Posted RdmaOp) :=
  fl.ready.toList ++ fl.data.toList ++ fl.notice.toList

@[simp] theorem list_empty : empty.list = [] := rfl

theorem eq_empty_of_list {fl : Flight} (h : fl.list = []) : fl = empty := by
  obtain ⟨r, d, n⟩ := fl
  simp only [list, List.append_eq_nil_iff, Option.toList_eq_nil_iff] at h
  obtain ⟨⟨rfl, rfl⟩, rfl⟩ := h
  rfl

theorem mem_list {fl : Flight} {x : Posted RdmaOp} :
    x ∈ fl.list ↔ fl.ready = some x ∨ fl.data = some x ∨ fl.notice = some x := by
  simp [list]

theorem mem_of_ready_none {fl : Flight} {x : Posted RdmaOp}
    (h : x ∈ { fl with ready := none }.list) : x ∈ fl.list := by
  rw [mem_list] at h ⊢
  simpa using Or.inr h

theorem mem_of_data_none {fl : Flight} {x : Posted RdmaOp}
    (h : x ∈ { fl with data := none }.list) : x ∈ fl.list := by
  rw [mem_list] at h ⊢
  rcases h with h | h | h
  · exact Or.inl h
  · simp at h
  · exact Or.inr (Or.inr h)

/-- Whatever is taken off the list was the announcement, the payload or the notice. -/
theorem eraseIdx_list {fl : Flight} {i : Nat} {x : Posted RdmaOp} (h : fl.list[i]? = some x) :
    (fl.ready = some x ∧ fl.list.eraseIdx i = { fl with ready := none }.list) ∨
      (fl.data = some x ∧ fl.list.eraseIdx i = { fl with data := none }.list) ∨
      (fl.notice = some x ∧ fl.list.eraseIdx i = { fl with notice := none }.list) := by
  obtain ⟨r, d, n⟩ := fl
  cases r <;> cases d <;> cases n <;> rcases i with _ | _ | _ | i <;> simp_all [list]

end Flight

/-- What carries the payload: the sender's put or the receiver's get. -/
def payloadOp : Transfer → MpioptRequest → RdmaOp
  | .put, r => .put r.operationNumber r.buf r.size r.remoteDataAddr
  | .get, r => .get r.operationNumber r.buf r.size r.remoteDataAddr

/-- The flight of a request that moves its payload by `t`. -/
structure Carries (t : Transfer) (l : Local RdmaOp) (fl : Flight) : Prop where
  pending : l.worker.pending = fl.list
  stamped : ∀ x ∈ fl.list, x.stamp < l.worker.clock
  ready : ∀ x, fl.ready = some x → x.op = .flag l.req.operationNumber l.req.remoteFlagAddr
  data : ∀ x, fl.data = some x → x.op = payloadOp t l.req
  notice : ∀ x, fl.notice = some x → x.op = .flag l.req.operationNumber l.req.remoteFlagAddr
  /-- The notice lands after everything else. -/
  ordered : ∀ x y, fl.notice = some x → fl.ready = some y ∨ fl.data = some y → y.stamp < x.after

/-- The flush behind the handle waits for everything under way. -/
def Held (h : Option Nat) (fl : Flight) : Prop :=
  match h with
  | none => fl = .empty
  | some t => ∀ x ∈ fl.list, x.stamp < t

structure Unheld (r : MpioptRequest) : Prop where
  dataTransfer : r.ucxRequestDataTransfer = none
  flagTransfer : r.ucxRequestFlagTransfer = none

/-- What no operation changes about a request. -/
structure SameLink (r r' : MpioptRequest) : Prop where
  operationNumber : r'.operationNumber = r.operationNumber
  buf : r'.buf = r.buf
  size : r'.size = r.size
  flagAddr : r'.flagAddr = r.flagAddr
  remoteDataAddr : r'.remoteDataAddr = r.remoteDataAddr
  remoteFlagAddr : r'.remoteFlagAddr = r.remoteFlagAddr

theorem SameLink.refl (r : MpioptRequest) : SameLink r r := ⟨rfl, rfl, rfl, rfl, rfl, rfl⟩

theorem SameLink.payloadOp {r r' : MpioptRequest} (h : SameLink r r') (t : Transfer) :
    payloadOp t r' = payloadOp t r := by
  cases t <;> simp only [Rendezvous.payloadOp, h.operationNumber, h.buf, h.size, h.remoteDataAddr]

/-- The six fields are the ones every setter leaves alone. -/
theorem SameLink.of_setters {r : MpioptRequest} (flag flagBuffer : Int) (data ready : Option Nat) :
    SameLink r { r with flag := flag, flagBuffer := flagBuffer, ucxRequestDataTransfer := data,
                        ucxRequestFlagTransfer := ready } :=
  ⟨rfl, rfl, rfl, rfl, rfl, rfl⟩

/-- Requests that no function moving data can tell apart. -/
structure Alike (r r' : MpioptRequest) : Prop extends SameLink r r' where
  flag : r'.flag = r.flag
  flagBuffer : r'.flagBuffer = r.flagBuffer
  dataTransfer : r'.ucxRequestDataTransfer = r.ucxRequestDataTransfer
  flagTransfer : r'.ucxRequestFlagTransfer = r.ucxRequestFlagTransfer

theorem Alike.refl (r : MpioptRequest) : Alike r r := ⟨.refl r, rfl, rfl, rfl, rfl⟩

/-! ### How a flight changes -/

section
variable {t : Transfer} {l l' : Local RdmaOp} {fl : Flight}

/-- A step that posts nothing leaves the flight as it is. -/
theorem Carries.congr (h : Carries t l fl) (hp : l'.worker.pending = l.worker.pending)
    (hc : l.worker.clock ≤ l'.worker.clock) (hr : SameLink l.req l'.req) : Carries t l' fl where
  pending := by rw [hp, h.pending]
  stamped x hx := Nat.lt_of_lt_of_le (h.stamped x hx) hc
  ready x hx := by rw [h.ready x hx, hr.operationNumber, hr.remoteFlagAddr]
  data x hx := by rw [h.data x hx, hr.payloadOp]
  notice x hx := by rw [h.notice x hx, hr.operationNumber, hr.remoteFlagAddr]
  ordered := h.ordered

/-- A request with nothing under way starts its next operation with nothing under way. -/
theorem Carries.of_empty (hp : l.worker.pending = []) : Carries t l .empty where
  pending := by rw [hp, Flight.list_empty]
  stamped := by simp
  ready := by simp [Flight.empty]
  data := by simp [Flight.empty]
  notice := by simp [Flight.empty]
  ordered := by simp [Flight.empty]

theorem Carries.pending_empty (h : Carries t l .empty) : l.worker.pending = [] := by
  rw [h.pending, Flight.list_empty]

theorem Carries.post_ready (h : Carries t l .empty) :
    ∃ x, Carries t (l.post (.flag l.req.operationNumber l.req.remoteFlagAddr))
      ⟨some x, none, none⟩ := by
  refine ⟨⟨l.worker.clock, l.worker.barrier, .flag l.req.operationNumber l.req.remoteFlagAddr⟩,
    ?_, ?_, ?_, by simp, by simp, by simp⟩
  · simp [Local.post, h.pending_empty, Flight.list]
  · simp [Local.post, Flight.list]
  · simp [Local.post]

theorem Carries.post_data (h : Carries t l fl) (hd : fl.data = none) (hn : fl.notice = none) :
    ∃ x, Carries t (l.post (payloadOp t l.req)) { fl with data := some x } := by
  refine ⟨⟨l.worker.clock, l.worker.barrier, payloadOp t l.req⟩, ?_, ?_, h.ready, ?_,
    by simp [hn], by simp [hn]⟩
  · simp [Local.post, h.pending, Flight.list, hd, hn]
  · intro x hx
    rw [Flight.mem_list] at hx
    show x.stamp < l.worker.clock + 1
    rcases hx with hx | hx | hx
    · have := h.stamped x (Flight.mem_list.mpr (Or.inl hx))
      omega
    · simp only [Option.some.injEq] at hx
      simp [← hx]
    · simp [hn] at hx
  · simp [Local.post]

theorem Carries.post_notice (h : Carries t l fl) (hn : fl.notice = none)
    (hb : ∀ x, fl.ready = some x ∨ fl.data = some x → x.stamp < l.worker.barrier) :
    ∃ x, Carries t (l.post (.flag l.req.operationNumber l.req.remoteFlagAddr))
      { fl with notice := some x } := by
  refine ⟨⟨l.worker.clock, l.worker.barrier, .flag l.req.operationNumber l.req.remoteFlagAddr⟩,
    ?_, ?_, h.ready, h.data, ?_, ?_⟩
  · simp [Local.post, h.pending, Flight.list, hn]
  · intro x hx
    rw [Flight.mem_list] at hx
    show x.stamp < l.worker.clock + 1
    rcases hx with hx | hx | hx
    · have := h.stamped x (Flight.mem_list.mpr (Or.inl hx))
      omega
    · have := h.stamped x (Flight.mem_list.mpr (Or.inr (Or.inl hx)))
      omega
    · simp only [Option.some.injEq] at hx
      simp [← hx]
  · simp [Local.post]
  · intro x y hx hy
    simp only [Option.some.injEq] at hx
    rw [← hx]
    exact hb y hy

/-- After a fence, everything under way lands before what is posted next. -/
theorem Carries.fence (h : Carries t l fl) :
    Carries t l.fence fl ∧
      ∀ x, fl.ready = some x ∨ fl.data = some x → x.stamp < l.fence.worker.barrier := by
  refine ⟨h.congr rfl (Nat.le_refl _) (.refl _), fun x hx => ?_⟩
  show x.stamp < l.worker.clock
  refine h.stamped x (Flight.mem_list.mpr ?_)
  rcases hx with hx | hx
  · exact Or.inl hx
  · exact Or.inr (Or.inl hx)

/-- What lands is the announcement, the payload, or the notice after both of them. -/
theorem Carries.lands {i : Nat} {x : Posted RdmaOp} (h : Carries t l fl)
    (hx : l.worker.enabled? i = some x) :
    (fl.ready = some x ∧ Carries t (l.retire i) { fl with ready := none }) ∨
      (fl.data = some x ∧ Carries t (l.retire i) { fl with data := none }) ∨
      (fl.notice = some x ∧ fl.ready = none ∧ fl.data = none ∧ Carries t (l.retire i) .empty) := by
  obtain ⟨hget, hall⟩ := Worker.enabled?_eq_some.mp hx
  rw [h.pending] at hget hall
  have hkeep : ∀ {fl' : Flight}, fl.list.eraseIdx i = fl'.list →
      (∀ y, fl'.ready = some y → fl.ready = some y) → (∀ y, fl'.data = some y → fl.data = some y) →
      (∀ y, fl'.notice = some y → fl.notice = some y) → Carries t (l.retire i) fl' := by
    intro fl' hlist h1 h2 h3
    refine ⟨?_, fun y hy => ?_, fun y hy => ?_, fun y hy => ?_, fun y hy => ?_, fun y z hy hz => ?_⟩
    · show l.worker.pending.eraseIdx i = fl'.list
      rw [h.pending, hlist]
    · exact h.stamped y (List.mem_of_mem_eraseIdx (hlist ▸ hy))
    · exact h.ready y (h1 y hy)
    · exact h.data y (h2 y hy)
    · exact h.notice y (h3 y hy)
    · exact h.ordered y z (h3 y hy) (hz.imp (h1 z) (h2 z))
  rcases Flight.eraseIdx_list hget with ⟨hx, hl⟩ | ⟨hx, hl⟩ | ⟨hx, hl⟩
  · exact Or.inl ⟨hx, hkeep hl (by simp) (fun _ h => h) (fun _ h => h)⟩
  · exact Or.inr (Or.inl ⟨hx, hkeep hl (fun _ h => h) (by simp) (fun _ h => h)⟩)
  · have hnone : ∀ y, ¬ (fl.ready = some y ∨ fl.data = some y) := by
      intro y hy
      have hlt := h.ordered x y hx hy
      have hle := hall y (Flight.mem_list.mpr (by rcases hy with hy | hy <;> simp [hy]))
      omega
    have hready : fl.ready = none :=
      Option.eq_none_iff_forall_ne_some.mpr fun y hy => hnone y (Or.inl hy)
    have hdata : fl.data = none :=
      Option.eq_none_iff_forall_ne_some.mpr fun y hy => hnone y (Or.inr hy)
    refine Or.inr (Or.inr ⟨hx, hready, hdata, hkeep ?_ ?_ ?_ ?_⟩)
    · rw [hl]
      simp [Flight.list, Flight.empty, hready, hdata]
    · simp [Flight.empty]
    · simp [Flight.empty]
    · simp [Flight.empty]

/-- A flush covers what is under way when it is issued. -/
theorem held_flush (h : Carries t l fl) (imm : Bool) :
    Held (ucpEpFlushNb oneEp imm l.worker) fl := by
  unfold ucpEpFlushNb
  split
  · rename_i hc
    simp only [Bool.and_eq_true, Worker.clear_iff] at hc
    refine Flight.eq_empty_of_list (List.eq_nil_iff_forall_not_mem.mpr fun x hx => ?_)
    have hlt := h.stamped x hx
    have hle := hc.2 x (h.pending ▸ hx) rfl
    omega
  · exact h.stamped

/-- Once the flush is complete nothing is under way. -/
theorem eq_empty_of_flushed {handle : Option Nat} (h : Carries t l fl) (hh : Held handle fl)
    (hf : flushed oneEp l.worker handle = true) : fl = .empty := by
  cases handle with
  | none => exact hh
  | some k =>
      simp only [flushed, Worker.clear_iff] at hf
      refine Flight.eq_empty_of_list (List.eq_nil_iff_forall_not_mem.mpr fun x hx => ?_)
      have hlt := hh x hx
      have hle := hf x (h.pending ▸ hx) rfl
      omega

theorem held_empty (handle : Option Nat) : Held handle .empty := by
  cases handle <;> simp [Held]

/-- A handle keeps covering what is left of a flight. -/
theorem Held.mono {handle : Option Nat} {fl fl' : Flight} (h : Held handle fl)
    (hsub : ∀ x ∈ fl'.list, x ∈ fl.list) : Held handle fl' := by
  cases handle with
  | none =>
      have hnil : fl = .empty := h
      refine Flight.eq_empty_of_list (List.eq_nil_iff_forall_not_mem.mpr fun x hx => ?_)
      simpa [hnil] using hsub x hx
  | some k => exact fun x hx => h x (hsub x hx)

end

/-! ### The sender -/

/-- The payload is on its way or across. -/
structure Pushed (l : Local RdmaOp) (fl : Flight) (s : SendStage) : Prop where
  stage : s = .push true fl.data.isNone fl.notice.isNone
  ready : fl.ready = none
  last : fl.notice = none → fl.data = none
  flagBuffer : l.req.flagBuffer = l.req.operationNumber * 2 + 2

/-- The announcement is on its way or across. -/
structure SendReady (l : Local RdmaOp) (fl : Flight) (s : SendStage) : Prop where
  stage : s = .ready fl.ready.isNone
  data : fl.data = none
  notice : fl.notice = none
  flagBuffer : l.req.flagBuffer = l.req.operationNumber * 2 + 1

/-- Where the sender can be in the protocol at each of its program points. -/
def SendAt (l : Local RdmaOp) (fl : Flight) (s : SendStage) : SendPc → Prop
  | .idle => s = .rest ∧ fl = .empty ∧ Unheld l.req
  | .start .test => s = .fresh ∧ fl = .empty ∧ Unheld l.req
  | .start .load => s = .push false false false ∧ fl = .empty ∧ Unheld l.req
  | .start (.store v) =>
      s = .push false false false ∧ fl = .empty ∧ Unheld l.req ∧ v = l.req.operationNumber * 2 + 1
  | .start .fill => s = .push true false false ∧ fl = .empty ∧ Unheld l.req
  | .start .data =>
      s = .push true false false ∧ fl = .empty ∧ Unheld l.req ∧
        l.req.flagBuffer = l.req.operationNumber * 2 + 2
  | .start .fence =>
      s = .push true fl.data.isNone false ∧ fl.ready = none ∧ fl.notice = none ∧ Unheld l.req ∧
        l.req.flagBuffer = l.req.operationNumber * 2 + 2
  | .start .signal =>
      s = .push true fl.data.isNone false ∧ fl.ready = none ∧ fl.notice = none ∧ Unheld l.req ∧
        l.req.flagBuffer = l.req.operationNumber * 2 + 2 ∧
        ∀ x, fl.data = some x → x.stamp < l.worker.barrier
  | .start .flush => Pushed l fl s ∧ Unheld l.req
  | .start .fillReady => s = .ready false ∧ fl = .empty ∧ Unheld l.req
  | .start .ready =>
      s = .ready false ∧ fl = .empty ∧ Unheld l.req ∧
        l.req.flagBuffer = l.req.operationNumber * 2 + 1
  | .start .flushReady => SendReady l fl s ∧ Unheld l.req
  | .start .progress | .started | .wait .flagTransfer =>
      (Pushed l fl s ∧ Held l.req.ucxRequestDataTransfer fl ∧ l.req.ucxRequestFlagTransfer = none) ∨
        (SendReady l fl s ∧ Held l.req.ucxRequestFlagTransfer fl ∧
          l.req.ucxRequestDataTransfer = none)
  | .wait .dataTransfer =>
      (Pushed l fl s ∧ Held l.req.ucxRequestDataTransfer fl ∧ l.req.ucxRequestFlagTransfer = none) ∨
        (s = .ready true ∧ fl = .empty ∧ Unheld l.req)
  | .wait (.spin _) | .wait .poll =>
      (s = .push true true true ∨ s = .ready true) ∧ fl = .empty ∧ Unheld l.req

/-! ### The receiver

`b_recv` is called from Start, and from `e_recv` when both sides announced themselves.
-/

/-- The stage is that of a receiver that moves the payload, torn or not. -/
def RecvStage.Pulls (s : RecvStage) (pending stored filled data notice : Bool) : Prop :=
  ∃ torn, s = .pull ⟨pending, stored, filled, data, notice, torn⟩

/-- The receiver moves the payload, its own announcement possibly still under way. -/
structure Pulling (l : Local RdmaOp) (fl : Flight) (s : RecvStage) (filled : Bool) : Prop where
  stage : s.Pulls fl.ready.isSome true filled fl.data.isNone false
  notice : fl.notice = none
  flagBuffer : fl.ready = none ∨ l.req.flagBuffer = l.req.operationNumber * 2 + 1

/-- Inside the branch that fetches the payload. -/
def FetchAt (l : Local RdmaOp) (fl : Flight) (s : RecvStage) : Point → Prop
  | .load =>
      s.Pulls fl.ready.isSome false false false false ∧
        fl.data = none ∧ fl.notice = none ∧
        (fl.ready = none ∨ l.req.flagBuffer = l.req.operationNumber * 2 + 1)
  | .store v =>
      s.Pulls fl.ready.isSome false false false false ∧
        fl.data = none ∧ fl.notice = none ∧
        (fl.ready = none ∨ l.req.flagBuffer = l.req.operationNumber * 2 + 1) ∧
        v = l.req.operationNumber * 2 + 1
  | .data =>
      s.Pulls fl.ready.isSome true false false false ∧
        fl.data = none ∧ fl.notice = none ∧
        (fl.ready = none ∨ l.req.flagBuffer = l.req.operationNumber * 2 + 1)
  | .fence => Pulling l fl s false
  | .fill =>
      Pulling l fl s false ∧
        ∀ x, fl.ready = some x ∨ fl.data = some x → x.stamp < l.worker.barrier
  | .signal =>
      s.Pulls fl.ready.isSome true true fl.data.isNone false ∧
        fl.notice = none ∧ l.req.flagBuffer = l.req.operationNumber * 2 + 2 ∧
        ∀ x, fl.ready = some x ∨ fl.data = some x → x.stamp < l.worker.barrier
  | .flush =>
      s.Pulls fl.ready.isSome true true fl.data.isNone fl.notice.isNone ∧
        (fl.notice = none → fl = .empty) ∧ l.req.flagBuffer = l.req.operationNumber * 2 + 2
  | _ => False

/-- The receiver has done its part of moving the payload. -/
structure Pulled (l : Local RdmaOp) (fl : Flight) (s : RecvStage) : Prop where
  stage : s.Pulls fl.ready.isSome true true fl.data.isNone fl.notice.isNone
  last : fl.notice = none → fl = .empty
  flagBuffer : l.req.flagBuffer = l.req.operationNumber * 2 + 2
  held : Held l.req.ucxRequestDataTransfer fl

structure RecvReady (l : Local RdmaOp) (fl : Flight) (s : RecvStage) : Prop where
  stage : s = .ready fl.ready.isNone
  data : fl.data = none
  notice : fl.notice = none
  flagBuffer : l.req.flagBuffer = l.req.operationNumber * 2 + 1

/-- Nothing is under way and the receiver waits for its flag. -/
structure RecvSettled (l : Local RdmaOp) (fl : Flight) (s : RecvStage) : Prop where
  stage : s = .ready true ∨ s.Pulls false true true true true
  flight : fl = .empty
  unheld : Unheld l.req

/-- The receiver waits, one way or the other. -/
def RecvWaits (l : Local RdmaOp) (fl : Flight) (s : RecvStage) : Prop :=
  Pulled l fl s ∨
    (RecvReady l fl s ∧ Held l.req.ucxRequestFlagTransfer fl ∧ l.req.ucxRequestDataTransfer = none)

/-- In `b_recv`, called from Start. -/
def RecvStartAt (l : Local RdmaOp) (fl : Flight) (s : RecvStage) : Point → Prop
  | .test => s = .fresh ∧ fl = .empty ∧ Unheld l.req
  | .fillReady => s = .ready false ∧ fl = .empty ∧ Unheld l.req
  | .ready =>
      s = .ready false ∧ fl = .empty ∧ Unheld l.req ∧
        l.req.flagBuffer = l.req.operationNumber * 2 + 1
  | .flushReady => RecvReady l fl s ∧ Unheld l.req
  | .progress => RecvWaits l fl s
  | p => FetchAt l fl s p ∧ fl.ready = none ∧ Unheld l.req

/-- In `b_recv`, called from `e_recv`. -/
def CrosstalkAt (l : Local RdmaOp) (fl : Flight) (s : RecvStage) : Point → Prop
  | .test => s = .pull ⟨false, false, false, false, false, false⟩ ∧ fl = .empty ∧ Unheld l.req
  | .progress => Pulled l fl s ∧ l.req.ucxRequestFlagTransfer = none
  | p => FetchAt l fl s p ∧ fl.ready = none ∧ Unheld l.req

/-- Where the receiver can be in the protocol at each of its program points. -/
def RecvAt (l : Local RdmaOp) (fl : Flight) (s : RecvStage) : RecvPc → Prop
  | .idle => s = .rest ∧ fl = .empty ∧ Unheld l.req
  | .start p => RecvStartAt l fl s p
  | .started | .wait .flagTransfer => RecvWaits l fl s
  | .wait .dataTransfer =>
      (Pulled l fl s ∧ l.req.ucxRequestFlagTransfer = none) ∨ RecvSettled l fl s
  | .wait (.spin _) | .wait .poll => RecvSettled l fl s
  | .wait .crosstalk => RecvSettled l fl s ∧ l.req.operationNumber * 2 + 1 ≤ l.req.flag
  | .wait (.fetch p) => CrosstalkAt l fl s p
  | .wait .fetched => Pulled l fl s ∧ l.req.ucxRequestFlagTransfer = none

/-- Where the receiver can be while the process is in `progress_recv_request` for it.  That
function is called when the receive is not being waited for, or from inside the polling loop
of its own Wait. -/
def ProgressAt (l : Local RdmaOp) (fl : Flight) (s : RecvStage) (pc : RecvPc) : Point → Prop
  | .test | .progress => RecvAt l fl s pc
  | p =>
      FetchAt l fl s p ∧ l.req.ucxRequestDataTransfer = none ∧
        (pc = .started ∨
          (pc = .wait .poll ∧ fl.ready = none ∧ l.req.ucxRequestFlagTransfer = none))

/-- Where the receiver can be, in `progress_recv_request` or not. -/
def RecvIn (l : Local RdmaOp) (fl : Flight) (s : RecvStage) (pc : RecvPc) : Option Point → Prop
  | none => RecvAt l fl s pc
  | some p => ProgressAt l fl s pc p

end CompMatch.Rendezvous

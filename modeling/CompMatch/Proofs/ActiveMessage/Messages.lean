/-
Messages on their way from a sender to a receive request.

A message is under way, in the list of the request, or past that: in the buffer, or
about to be.  `Messages` says that together these are the messages sent, in order and
with their bytes.  `History` is about the operations in which messages went into the
buffer, and `PeerOk` about what the sender keeps until its message has been fetched.
-/
import CompMatch.ActiveMessage.Link

namespace CompMatch.ActiveMessage

/-! ### What the handler and `b_recv` do to a request -/

section
variable {mode : Mode} {here : Option (List UInt8)} {msg : AmMsg} {l : Local}

/-- The message goes into the buffer, as its mode has it. -/
def Local.fill (mode : Mode) (here : Option (List UInt8)) (msg : AmMsg) (l : Local) : Local :=
  match mode with
  | .eager => l.copy msg
  | .rendezvous => l.recvData here msg

/-- The message joins the ones the request has not asked for. -/
def Local.queue (mode : Mode) (msg : AmMsg) (l : Local) : Local :=
  match mode with
  | .eager => l.addToListOfIncomingMsg msg
  | .rendezvous => l.setPending [msg]

def Local.setFailed (l : Local) (b : Bool) : Local := { l with failed := b }

/-- The message is one of this build's, and of the size the request asks for. -/
structure Fits (mode : Mode) (size : Nat) (msg : AmMsg) : Prop where
  rndv : msg.rndv = decide (mode = .rendezvous)
  length : msg.length = size
  data : mode = .eager → msg.data.length = size

theorem handler_of_ready (hm : Fits mode l.req.size msg) (hr : l.req.isReadyToRecv = true) :
    incomingAmMsgHandler mode here msg l =
      ((l.fill mode here msg).setReady false).setFailed
        (l.failed || !(l.req.listOfPendingMsgs.isEmpty &&
          (decide (mode = .eager) || l.req.ucxRequestDataTransfer.isNone))) := by
  cases mode <;> cases here <;>
    simp [incomingAmMsgHandler, hm.rndv, hm.length, hr, Local.fill, Local.assert, Local.copy,
      Local.recvData, Local.setReady, Local.setFailed, Local.setBuf, Local.setTransfer, Local.take,
      Bool.or_assoc]

theorem handler_of_not_ready (hm : Fits mode l.req.size msg) (hr : l.req.isReadyToRecv = false) :
    incomingAmMsgHandler mode here msg l =
      (l.queue mode msg).setFailed
        (l.failed || !(decide (mode = .eager) || l.req.listOfPendingMsgs.isEmpty)) := by
  cases mode <;>
    simp [incomingAmMsgHandler, hm.rndv, hm.length, hr, Local.queue, Local.assert, Local.setFailed,
      Local.addToListOfIncomingMsg, Local.setPending]

/-- A message that fits is queued as it is. -/
theorem queue_eq (hm : Fits mode l.req.size msg)
    (hp : mode = .rendezvous → l.req.listOfPendingMsgs = []) :
    l.queue mode msg = l.setPending (l.req.listOfPendingMsgs ++ [msg]) := by
  cases mode with
  | eager =>
      have htake : msg.data.take l.req.size = msg.data := List.take_of_length_le (hm.data rfl).le
      simp only [Local.queue, Local.addToListOfIncomingMsg, htake]
  | rendezvous =>
      rw [hp rfl]
      rfl

theorem bRecvFetch_nil (h : l.req.listOfPendingMsgs = []) :
    bRecvFetch mode here l = l.setReady true := by
  simp [bRecvFetch, h]

theorem bRecvFetch_cons {rest : List AmMsg} (h : l.req.listOfPendingMsgs = msg :: rest)
    (hrest : mode = .rendezvous → rest = []) :
    bRecvFetch mode here l =
      ((l.fill mode here msg).setPending rest).setFailed
        (l.failed || !(decide (mode = .eager) || l.req.ucxRequestDataTransfer.isNone)) := by
  cases mode with
  | eager =>
      simp [bRecvFetch, h, Local.dequeueFromListOfIncomingMsg, Local.fill, Local.copy, Local.setBuf,
        Local.setPending, Local.take, Local.setFailed]
  | rendezvous =>
      obtain rfl := hrest rfl
      cases here <;>
        simp [bRecvFetch, h, Local.fill, Local.recvData, Local.setPending, Local.assert, Local.take,
          Local.setTransfer, Local.setBuf, Local.setFailed]

@[simp] theorem fill_taken : (l.fill mode here msg).taken = l.taken ++ [(msg.number, l.starts)] := by
  cases mode <;> cases here <;> rfl

@[simp] theorem fill_starts : (l.fill mode here msg).starts = l.starts := by
  cases mode <;> cases here <;> rfl

@[simp] theorem fill_returned : (l.fill mode here msg).returned = l.returned := by
  cases mode <;> cases here <;> rfl

@[simp] theorem fill_pending :
    (l.fill mode here msg).req.listOfPendingMsgs = l.req.listOfPendingMsgs := by
  cases mode <;> cases here <;> rfl

@[simp] theorem fill_ready : (l.fill mode here msg).req.isReadyToRecv = l.req.isReadyToRecv := by
  cases mode <;> cases here <;> rfl

@[simp] theorem fill_size : (l.fill mode here msg).req.size = l.req.size := by
  cases mode <;> cases here <;> rfl

theorem fill_transfers : (l.fill mode here msg).transfers =
    if mode = .rendezvous ∧ here = none then l.transfers ++ [msg.number] else l.transfers := by
  cases mode <;> cases here <;> rfl

theorem fill_transfer : (l.fill mode here msg).req.ucxRequestDataTransfer =
    if mode = .rendezvous then here.elim (some msg.number) (fun _ => none)
    else l.req.ucxRequestDataTransfer := by
  cases mode <;> cases here <;> rfl

/-- The bytes a message brings when it goes into the buffer, if it brings them at once. -/
def Local.bytes (mode : Mode) (here : Option (List UInt8)) (msg : AmMsg) : Option (List UInt8) :=
  match mode with
  | .eager => some msg.data
  | .rendezvous => here

theorem fill_buf (hb : l.req.buf.length = l.req.size)
    (hd : ∀ bytes, Local.bytes mode here msg = some bytes → bytes.length = l.req.size) :
    (l.fill mode here msg).req.buf = (Local.bytes mode here msg).getD l.req.buf := by
  cases mode with
  | eager => exact memcpy_of_length hb (hd _ rfl)
  | rendezvous =>
      cases here with
      | none => rfl
      | some bytes => exact memcpy_of_length hb (hd _ rfl)

end

/-! ### What the functions that move data leave alone -/

structure Untouched (r r' : Local) : Prop where
  type : r'.req.type = r.req.type
  amId : r'.req.amId = r.req.amId
  exchange : r'.req.rdmaExchangeRequest = r.req.rdmaExchangeRequest
  starts : r'.starts = r.starts
  returned : r'.returned = r.returned

section
variable {mode : Mode} {here : Option (List UInt8)} {r : Local}

theorem Untouched.refl : Untouched r r := ⟨rfl, rfl, rfl, rfl, rfl⟩

theorem dequeue_untouched : Untouched r r.dequeueFromListOfIncomingMsg := by
  unfold Local.dequeueFromListOfIncomingMsg
  split <;> exact ⟨rfl, rfl, rfl, rfl, rfl⟩

theorem handler_untouched {msg : AmMsg} : Untouched r (incomingAmMsgHandler mode here msg r) := by
  unfold incomingAmMsgHandler
  split
  · dsimp only
    split
    · cases here <;> exact ⟨rfl, rfl, rfl, rfl, rfl⟩
    · exact ⟨rfl, rfl, rfl, rfl, rfl⟩
  · dsimp only
    split <;> exact ⟨rfl, rfl, rfl, rfl, rfl⟩

theorem bRecvFetch_untouched : Untouched r (bRecvFetch mode here r) := by
  unfold bRecvFetch
  split
  · exact ⟨rfl, rfl, rfl, rfl, rfl⟩
  · exact dequeue_untouched
  · cases here <;> exact ⟨rfl, rfl, rfl, rfl, rfl⟩

theorem bRecv_untouched {p : RecvPoint} : Untouched r (bRecv mode here p r).2 := by
  cases p with
  | progress => exact .refl
  | fetch => exact bRecvFetch_untouched

theorem eRecv_untouched {w : RecvWait} : Untouched r (eRecv w r).2 := by
  cases w with
  | ready | loop | test =>
      simp only [eRecv]
      split <;> exact .refl
  | progress => exact .refl
  | dequeue =>
      simp only [eRecv]
      split
      · obtain ⟨ht, ha, he, hs, hr⟩ := dequeue_untouched (r := r.setReady false)
        exact ⟨ht, ha, he, hs, hr⟩
      · exact .refl
  | blocking p =>
      simp only [eRecv]
      split <;> exact ⟨rfl, rfl, rfl, rfl, rfl⟩

theorem bSend_untouched {imm : Bool} {p : SendPoint} : Untouched r (bSend mode imm p r).2.1 := by
  cases p <;> exact ⟨rfl, rfl, rfl, rfl, rfl⟩

theorem eSend_untouched {done : Bool} {w : SendWait} : Untouched r (eSend done w r).2 := by
  cases w with
  | test | blocking p =>
      simp only [eSend]
      split <;> exact ⟨rfl, rfl, rfl, rfl, rfl⟩

/-- The handler does not make a request ready. -/
theorem handler_ready {msg : AmMsg}
    (h : (incomingAmMsgHandler mode here msg r).req.isReadyToRecv = true) :
    r.req.isReadyToRecv = true := by
  unfold incomingAmMsgHandler at h
  split at h
  · dsimp only at h
    split at h
    · assumption
    · exact h
  · dsimp only at h
    split at h
    · assumption
    · exact h

/-- Neither does `e_recv`. -/
theorem eRecv_ready {w : RecvWait} (h : (eRecv w r).2.req.isReadyToRecv = true) :
    r.req.isReadyToRecv = true := by
  cases w with
  | ready | loop | test =>
      simp only [eRecv] at h
      split at h <;> exact h
  | progress => exact h
  | dequeue =>
      simp only [eRecv] at h
      split at h
      · assumption
      · exact h
  | blocking p =>
      simp only [eRecv] at h
      split at h <;> exact h

end

/-! ### The invariant about the messages -/

/-- Where the messages of the sender are: in or past the buffer, in the list, or under way. -/
def Link.stream (l : Link) : List Nat :=
  l.recv.taken.map Prod.fst ++ l.recv.req.listOfPendingMsgs.map AmMsg.number ++
    l.peer.inFlight.map AmMsg.number

/-- The messages come in the order they were sent, and with the bytes that were sent. -/
structure Messages (mode : Mode) (l : Link) : Prop where
  stream : l.stream = List.range' 1 l.peer.sent
  fits : ∀ m ∈ l.recv.req.listOfPendingMsgs ++ l.peer.inFlight, Fits mode l.recv.req.size m
  data : mode = .eager → ∀ m ∈ l.recv.req.listOfPendingMsgs ++ l.peer.inFlight,
    m.data = l.peer.payload m.number

/-- No two messages go into the buffer in one operation, and none comes too early. -/
structure History (r : Local) : Prop where
  count : r.taken.length ≤ r.starts
  timely : ∀ x ∈ r.taken, x.1 ≤ x.2 ∧ x.2 ≤ r.starts
  once : r.taken.Pairwise (·.2 < ·.2)

/-- No message has gone into the buffer since the last Start. -/
def Fresh (r : Local) : Prop := r.taken.length < r.starts ∧ ∀ x ∈ r.taken, x.2 < r.starts

theorem History.of_eq {r r' : Local} (h : History r) (ht : r'.taken = r.taken)
    (hs : r'.starts = r.starts) : History r' :=
  ⟨by rw [ht, hs]; exact h.count, by rw [ht, hs]; exact h.timely, by rw [ht]; exact h.once⟩

theorem Fresh.of_eq {r r' : Local} (h : Fresh r) (ht : r'.taken = r.taken)
    (hs : r'.starts = r.starts) : Fresh r' := by
  unfold Fresh
  rw [ht, hs]
  exact h

theorem History.countStart {r : Local} (h : History r) :
    History r.countStart ∧ Fresh r.countStart := by
  refine ⟨⟨Nat.le_succ_of_le h.count, ?_, h.once⟩, ⟨Nat.lt_succ_of_le h.count, ?_⟩⟩
  · intro x hx
    exact ⟨(h.timely x hx).1, Nat.le_succ_of_le (h.timely x hx).2⟩
  · intro x hx
    exact Nat.lt_succ_of_le (h.timely x hx).2

/-- The next message goes into the buffer. -/
theorem History.take {r r' : Local} {n : Nat} (h : History r) (hf : Fresh r)
    (hn : n = r.taken.length + 1) (ht : r'.taken = r.taken ++ [(n, r.starts)])
    (hs : r'.starts = r.starts) : History r' := by
  obtain ⟨hlt, hbelow⟩ := hf
  constructor
  · rw [ht, hs, List.length_append]
    exact hlt
  · intro x hx
    rw [ht, List.mem_append, List.mem_singleton] at hx
    rw [hs]
    rcases hx with hx | rfl
    · exact h.timely x hx
    · exact ⟨by omega, le_refl _⟩
  · rw [ht, List.pairwise_append]
    refine ⟨h.once, List.pairwise_singleton _ _, ?_⟩
    intro x hx y hy
    obtain rfl := List.mem_singleton.mp hy
    exact hbelow x hx

/-! ### Messages move along -/

section
variable {mode : Mode} {l : Link} {msg : AmMsg} {rest : List AmMsg}

theorem Messages.length (h : Messages mode l) :
    l.recv.taken.length + l.recv.req.listOfPendingMsgs.length + l.peer.inFlight.length =
      l.peer.sent := by
  have hlen := congrArg List.length h.stream
  simpa [Link.stream, Nat.add_assoc] using hlen

theorem Messages.taken (h : Messages mode l) :
    l.recv.taken.map Prod.fst = List.range' 1 l.recv.taken.length := by
  have hs := h.stream
  rw [Link.stream, List.append_assoc] at hs
  obtain ⟨k, -, hk, -⟩ := List.range'_eq_append_iff.mp hs.symm
  have hlen := congrArg List.length hk
  simp only [List.length_map, List.length_range'] at hlen
  rw [hk, hlen]

/-- The message at the head of the line has the next number. -/
theorem Messages.number (h : Messages mode l)
    (hm : l.recv.req.listOfPendingMsgs ++ l.peer.inFlight = msg :: rest) :
    msg.number = l.recv.taken.length + 1 := by
  have hs := h.stream
  rw [Link.stream, List.append_assoc, ← List.map_append, hm, h.taken] at hs
  have hget := congrArg (fun ns => ns[l.recv.taken.length]?) hs
  have hlen : l.recv.taken.length < l.peer.sent := by
    have := h.length
    have := congrArg List.length hm
    simp only [List.length_append, List.length_cons] at this
    omega
  simp [hlen] at hget
  omega

/-- Messages keep their order and their bytes as they move along. -/
theorem Messages.move {l' : Link} (h : Messages mode l) (hstream : l'.stream = l.stream)
    (hmem : ∀ m ∈ l'.recv.req.listOfPendingMsgs ++ l'.peer.inFlight,
      m ∈ l.recv.req.listOfPendingMsgs ++ l.peer.inFlight)
    (hsize : l'.recv.req.size = l.recv.req.size) (hpayload : l'.peer.payload = l.peer.payload)
    (hsent : l'.peer.sent = l.peer.sent) : Messages mode l' := by
  refine ⟨by rw [hstream, hsent]; exact h.stream, ?_, ?_⟩
  · intro m hm
    rw [hsize]
    exact h.fits m (hmem m hm)
  · intro he m hm
    rw [hpayload]
    exact h.data he m (hmem m hm)

/-- The sender's next message joins the line. -/
theorem Messages.emit {q : Peer} (h : Messages mode l) (hn : msg.number = l.peer.sent + 1)
    (hm : Fits mode l.recv.req.size msg) (hd : mode = .eager → msg.data = q.loc.req.buf)
    (hsent : (q.emit (some msg)).sent = l.peer.sent + 1) (hflight : q.inFlight = l.peer.inFlight)
    (hpayload : q.payload = l.peer.payload) :
    Messages mode { l with peer := q.emit (some msg) } := by
  have hold : ∀ m ∈ l.recv.req.listOfPendingMsgs ++ l.peer.inFlight, m.number ≤ l.peer.sent := by
    intro m hmem
    have hin : m.number ∈ l.stream := by
      rw [Link.stream, List.append_assoc, ← List.map_append]
      exact List.mem_append_right _ (List.mem_map_of_mem hmem)
    rw [h.stream, List.mem_range'_1] at hin
    omega
  have hmem : ∀ m, m ∈ l.recv.req.listOfPendingMsgs ++ (q.emit (some msg)).inFlight →
      m ∈ l.recv.req.listOfPendingMsgs ++ l.peer.inFlight ∨ m = msg := by
    intro m hin
    simpa [Peer.emit, hflight, or_assoc] using hin
  constructor
  · have hs := h.stream
    simp only [Link.stream] at hs ⊢
    simp only [Peer.emit, hflight, List.map_append, List.map_cons, List.map_nil] at hsent ⊢
    rw [hsent, ← List.append_assoc, hs, List.range'_concat, hn]
    simp [Nat.add_comm]
  · intro m hin
    rcases hmem m hin with hin | rfl
    · exact h.fits m hin
    · exact hm
  · intro he m hin
    simp only [Peer.emit, hpayload]
    rcases hmem m hin with hin | rfl
    · rw [Function.update_of_ne (by have := hold m hin; omega)]
      exact h.data he m hin
    · rw [Function.update_self]
      exact hd he

end

/-! ### The sender -/

/-- Between a Wait and the sending of the next message. -/
def SendPc.resting : SendPc → Bool
  | .idle | .start .post => true
  | _ => false

/--
What the sender keeps, with `taken` messages taken by the receiver and `transfers` the
ones whose bytes are still on their way.  A rendezvous sender has at most one message
outstanding.
-/
structure PeerOk (mode : Mode) (q : Peer) (taken : Nat) (transfers : List Nat) : Prop where
  starts : q.pc = .start .post → 1 ≤ q.loc.starts
  transfer : q.pc.resting = true → q.loc.req.ucxRequestDataTransfer = none
  payload : q.pc.resting = false → q.payload q.loc.starts = q.loc.req.buf
  handle : mode = .rendezvous → q.pc.resting = false →
    q.loc.req.ucxRequestDataTransfer = some q.loc.starts
  landed : mode = .rendezvous →
    q.pc.resting = true ∨ q.pc = .wait (.blocking (.tested false)) →
      taken = q.sent ∧ transfers = []
  outstanding : mode = .rendezvous →
    (taken + 1 = q.sent ∧ transfers = []) ∨
      (taken = q.sent ∧ (transfers = [] ∨ transfers = [q.sent]))

theorem Peer.sent_of_busy {q : Peer} (h : q.pc.resting = false) : q.sent = q.loc.starts := by
  unfold Peer.sent
  split
  · rename_i hpc
    rw [hpc] at h
    exact absurd h (by decide)
  · rfl

section
variable {mode : Mode} {q : Peer} {t : Nat} {tr : List Nat}

/-- A message that is still waited for keeps the sender busy. -/
theorem PeerOk.busy (h : PeerOk mode q t tr) (hm : mode = .rendezvous) (ht : t < q.sent) :
    q.pc.resting = false ∧ t + 1 = q.sent ∧ tr = [] := by
  refine ⟨?_, ?_⟩
  · cases hr : q.pc.resting with
    | false => rfl
    | true =>
        have := (h.landed hm (Or.inl hr)).1
        omega
  · rcases h.outstanding hm with h | h
    · exact h
    · omega

/-- What is in flight does not matter. -/
theorem PeerOk.withInFlight (h : PeerOk mode q t tr) (msgs : List AmMsg) :
    PeerOk mode { q with inFlight := msgs } t tr :=
  ⟨h.starts, h.transfer, h.payload, h.handle, h.landed, h.outstanding⟩

/-- The receiver takes the message that is outstanding. -/
theorem PeerOk.take (h : PeerOk mode q t tr) {tr' : List Nat}
    (hm : mode = .rendezvous → t < q.sent ∧ (tr' = tr ∨ tr' = tr ++ [t + 1])) :
    PeerOk mode q (t + 1) tr' := by
  refine ⟨h.starts, h.transfer, h.payload, h.handle, ?_, ?_⟩
  · intro hmode hpc
    have := (h.landed hmode hpc).1
    have := (hm hmode).1
    omega
  · intro hmode
    obtain ⟨hlt, htr⟩ := hm hmode
    obtain ⟨-, hsent, rfl⟩ := h.busy hmode hlt
    refine Or.inr ⟨hsent, ?_⟩
    rw [← hsent]
    rcases htr with rfl | rfl
    · exact Or.inl rfl
    · exact Or.inr rfl

/-- The bytes of a message arrive. -/
theorem PeerOk.land (h : PeerOk mode q t tr) {n : Nat} (hm : mode = .rendezvous) (hn : n ∈ tr) :
    PeerOk mode q t (tr.erase n) ∧ n = q.sent ∧ t = q.sent ∧ tr.erase n = [] ∧
      q.pc.resting = false := by
  rcases h.outstanding hm with ⟨-, rfl⟩ | ⟨ht, rfl | rfl⟩
  · exact absurd hn List.not_mem_nil
  · exact absurd hn List.not_mem_nil
  · obtain rfl := List.mem_singleton.mp hn
    have herase : [q.sent].erase q.sent = [] := by simp
    refine ⟨⟨h.starts, h.transfer, h.payload, h.handle, ?_, ?_⟩, rfl, ht, herase, ?_⟩
    · intro hmode hpc
      exact absurd (h.landed hmode hpc).2 (by simp)
    · intro _
      exact Or.inr ⟨ht, Or.inl herase⟩
    · cases hr : q.pc.resting with
      | false => rfl
      | true => exact absurd (h.landed hm (Or.inl hr)).2 (by simp)

end

end CompMatch.ActiveMessage

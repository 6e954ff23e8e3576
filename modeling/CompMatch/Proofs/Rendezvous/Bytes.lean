/-
The bytes that operations carry, and when they are the right ones.

Which way an operation goes is decided by a race, and every way ends with the bytes of
its Start in the buffer.  What makes it so is that the effect of a put, of a get and of
an arriving message falls within the operation: the receive is started and not over, its
payload is not there yet, and the sender has not gone on.

What a request owes its user is kept in three parts: what the sender has started
(`SenderInv`), what is in the receive buffer (`ReceiverInv`), and where the bytes go
(`PlaceInv`).  A get has the length of the receiver's request, so it is right only if the
sender's has the same.
-/
import CompMatch.Proofs.Rendezvous.Backup
import CompMatch.Proofs.Rendezvous.Payloads

namespace CompMatch.Rendezvous

/-! ### Memory -/

section
variable {m : Mem} {a b len : Nat} {bytes : List UInt8}

/-- What is written at the beginning of a buffer is there, and the rest is as it was. -/
theorem readMem_writeMem_prefix (h : bytes.length ≤ len) :
    readMem (writeMem m a bytes) a len = bytes ++ (readMem m a len).drop bytes.length := by
  refine List.ext_getElem ?_ fun i hi hi' => ?_
  · simp [h]
  · have hlen : i < len := by simpa using hi
    by_cases hlt : i < bytes.length
    · simp [readMem, writeMem, hlt, List.getElem_append_left]
    · have hge : bytes.length ≤ i := Nat.le_of_not_lt hlt
      rw [List.getElem_append_right hge]
      simp [readMem, writeMem, hge]

/-- A write elsewhere. -/
theorem readMem_writeMem_apart (h : a + bytes.length ≤ b ∨ b + len ≤ a) :
    readMem (writeMem m a bytes) b len = readMem m b len := by
  refine List.ext_getElem (by simp) fun i hi _ => ?_
  have hlen : i < len := by simpa using hi
  simp only [readMem, List.getElem_map, List.getElem_range, writeMem]
  by_cases hle : a ≤ b + i
  · rw [if_pos hle, List.getElem?_eq_none (by omega)]
    rfl
  · rw [if_neg hle]

/-- Memory that agrees on the cells of a buffer. -/
theorem readMem_congr {m' : Mem} (h : ∀ i < len, m' (a + i) = m (a + i)) :
    readMem m' a len = readMem m a len := by
  refine List.ext_getElem (by simp) fun i hi _ => ?_
  have hlen : i < len := by simpa using hi
  simpa [readMem] using h i hlen

end

/-! ### What a request owes its user -/

namespace ByteWorld

/-- The payload of the current operation is in the buffer. -/
def Landed (b : ByteWorld) (r : Rid) : Prop :=
  (b.reqs r).operationNumber ≤ b.delivered r ∨
    0 < transfersOf (b.world.landed r) (b.reqs r).operationNumber

/-- How many operations the sender has started. -/
def started (b : ByteWorld) (r : Rid) : Int :=
  (b.messages r).length - 1 + (b.peerReq r).operationNumber

/-- `bytes` is what the buffer is to hold after operation `n`. -/
structure Right (b : ByteWorld) (r : Rid) (n : Int) (bytes : List UInt8) : Prop where
  payload : bytes.take (b.peerReq r).size = b.sent r n
  rest : bytes.drop (b.peerReq r).size = (b.prior r n).drop (b.peerReq r).size

/-- What the sender of a request has started. -/
structure SenderInv (b : ByteWorld) (r : Rid) : Prop where
  number : 1 ≤ (b.peerReq r).operationNumber
  /-- It goes on over RDMA after its first operation, or over MPI. -/
  path : (b.peerReq r).operationNumber = 1 ∨ (b.messages r).length = 1
  length : ∀ m ∈ b.messages r, m.length = (b.peerReq r).size
  message : ∀ (i : Nat) m, (b.messages r)[i]? = some m → m = b.sent r (i + 1)
  /-- The payload of an operation over RDMA stays where it is. -/
  busy : (b.world.peers r).pc ≠ .idle → b.payload r = b.sent r (b.peerReq r).operationNumber

/-- What is in the receive buffer. -/
structure ReceiverInv (b : ByteWorld) (r : Rid) : Prop where
  landed : b.world.proc.active r = true → b.Landed r →
    (b.reqs r).operationNumber ≤ b.started r ∧ b.Right r (b.reqs r).operationNumber (b.buffer r)
  unlanded : b.world.proc.active r = true → ¬ b.Landed r →
    b.buffer r = b.prior r (b.reqs r).operationNumber
  done : ∀ n, 1 ≤ n → b.Done r n → n ≤ b.started r ∧
    ∃ bytes, b.received r n = some bytes ∧ bytes.length = (b.reqs r).size ∧ b.Right r n bytes

/-- Where the bytes come from and where they go. -/
structure PlaceInv (b : ByteWorld) (r : Rid) : Prop where
  fits : (b.peerReq r).size ≤ (b.reqs r).size
  source : (b.peerReq r).buf = (b.world.proc.counterpart r).dataAddr
  accesses : ∀ x ∈ b.accesses r, x = ⟨(b.peerReq r).buf, (b.peerReq r).size, (b.reqs r).buf⟩

section
variable {b b' : ByteWorld} {r : Rid}

/-- Nothing changes but where the sender is in its code. -/
theorem SenderInv.congr (h : b.SenderInv r) (hsize : (b'.peerReq r).size = (b.peerReq r).size)
    (hnum : (b'.peerReq r).operationNumber = (b.peerReq r).operationNumber)
    (hmsg : b'.messages r = b.messages r) (hsent : b'.sent r = b.sent r)
    (hbusy : (b'.world.peers r).pc ≠ .idle →
      (b.world.peers r).pc ≠ .idle ∧ b'.payload r = b.payload r) : b'.SenderInv r where
  number := hnum ▸ h.number
  path := by
    rw [hnum, hmsg]
    exact h.path
  length := by
    rw [hsize, hmsg]
    exact h.length
  message := by
    rw [hmsg, hsent]
    exact h.message
  busy hpc := by
    obtain ⟨hpc', hpay⟩ := hbusy hpc
    rw [hpay, hnum, hsent]
    exact h.busy hpc'

theorem Right.congr {n : Int} {bytes : List UInt8} (h : b.Right r n bytes)
    (hsize : (b'.peerReq r).size = (b.peerReq r).size) (hsent : b'.sent r n = b.sent r n)
    (hprior : b'.prior r n = b.prior r n) : b'.Right r n bytes :=
  ⟨by rw [hsize, hsent]; exact h.payload, by rw [hsize, hprior]; exact h.rest⟩

/-- What an operation finds that leaves the receive buffer alone. -/
structure Still (b b' : ByteWorld) (r : Rid) : Prop where
  req : SameBuffer (b.reqs r) (b'.reqs r)
  size : (b'.peerReq r).size = (b.peerReq r).size
  active : b'.world.proc.active r = b.world.proc.active r
  buffer : b.world.proc.active r = true → b'.buffer r = b.buffer r
  landed : b'.Landed r ↔ b.Landed r
  sent : ∀ n ≤ b.started r, b'.sent r n = b.sent r n
  started : b.started r ≤ b'.started r
  prior : b'.prior r = b.prior r
  received : b'.received r = b.received r

theorem Still.done (h : Still b b' r) {n : Int} : b'.Done r n ↔ b.Done r n := by
  unfold Done
  rw [h.req.number, h.active]

theorem ReceiverInv.still (h : b.ReceiverInv r) (hs : Still b b' r) : b'.ReceiverInv r := by
  refine ⟨fun ha hl => ?_, fun ha hl => ?_, fun n hn hd => ?_⟩
  · have ha' : b.world.proc.active r = true := hs.active ▸ ha
    obtain ⟨hle, hright⟩ := h.landed ha' (hs.landed.mp hl)
    rw [hs.req.number, hs.buffer ha']
    exact ⟨Int.le_trans hle hs.started, hright.congr hs.size (hs.sent _ hle) (by rw [hs.prior])⟩
  · have ha' : b.world.proc.active r = true := hs.active ▸ ha
    rw [hs.buffer ha', hs.prior, hs.req.number]
    exact h.unlanded ha' fun hl' => hl (hs.landed.mpr hl')
  · obtain ⟨hle, bytes, hrec, hlen, hright⟩ := h.done n hn (hs.done.mp hd)
    refine ⟨Int.le_trans hle hs.started, bytes, by rw [hs.received]; exact hrec,
      by rw [hs.req.size]; exact hlen, hright.congr hs.size (hs.sent _ hle) (by rw [hs.prior])⟩

/-- **The payload of the current operation arrives.** -/
theorem ReceiverInv.arrives {m : List UInt8} (h : b.ReceiverInv r) (hp : b.PlaceInv r)
    (hreq : SameBuffer (b.reqs r) (b'.reqs r)) (hsize : (b'.peerReq r).size = (b.peerReq r).size)
    (hact : b.world.proc.active r = true) (hact' : b'.world.proc.active r = true)
    (hfresh : ¬ b.Landed r) (hland : b'.Landed r)
    (hmem : b'.mem = writeMem b.mem (b.reqs r).buf m) (hlen : m.length = (b.peerReq r).size)
    (hm : m = b.sent r (b.reqs r).operationNumber) (hle : (b.reqs r).operationNumber ≤ b.started r)
    (hstarted : b'.started r = b.started r) (hsent : b'.sent r = b.sent r)
    (hprior : b'.prior r = b.prior r) (hrec : b'.received r = b.received r) : b'.ReceiverInv r := by
  have hbuf : b'.buffer r = m ++ (b.buffer r).drop m.length := by
    unfold buffer
    rw [hmem, hreq.buf, hreq.size]
    exact readMem_writeMem_prefix (hlen ▸ hp.fits)
  refine ⟨fun _ _ => ?_, fun _ hno => absurd hland hno, fun n hn hd => ?_⟩
  · rw [hreq.number, hstarted]
    refine ⟨hle, ?_, ?_⟩
    · rw [hbuf, hsize, ← hlen, List.take_left, hsent]
      exact hm
    · rw [hbuf, hsize, ← hlen, List.drop_left, hprior, h.unlanded hact hfresh]
  · have hd' : b.Done r n := by
      unfold Done at hd ⊢
      rwa [hreq.number, hact', ← hact] at hd
    obtain ⟨hle', bytes, hbytes, hlen', hright⟩ := h.done n hn hd'
    refine ⟨hstarted ▸ hle', bytes, by rw [hrec]; exact hbytes, by rw [hreq.size]; exact hlen',
      hright.congr hsize (by rw [hsent]) (by rw [hprior])⟩

/-- **The next operation is started.** -/
theorem ReceiverInv.start (h : b.ReceiverInv r) (hbuf : b'.buffer r = b.buffer r)
    (hsize' : (b'.reqs r).size = (b.reqs r).size)
    (hnum : (b'.reqs r).operationNumber = (b.reqs r).operationNumber + 1)
    (hsize : (b'.peerReq r).size = (b.peerReq r).size) (hact : b.world.proc.active r = false)
    (hact' : b'.world.proc.active r = true) (hfresh : ¬ b'.Landed r)
    (hprior : ∀ n, b'.prior r n =
      if n = (b.reqs r).operationNumber + 1 then b.buffer r else b.prior r n)
    (hstarted : b'.started r = b.started r) (hsent : b'.sent r = b.sent r)
    (hrec : b'.received r = b.received r) : b'.ReceiverInv r := by
  refine ⟨fun _ hl => absurd hl hfresh, fun _ _ => ?_, fun n hn hd => ?_⟩
  · rw [hnum, hprior, if_pos rfl, hbuf]
  · have hle : n ≤ (b.reqs r).operationNumber := by
      rcases hd with hd | ⟨-, hd⟩
      · omega
      · simp [hact'] at hd
    have hd' : b.Done r n := (Int.lt_or_eq_of_le hle).imp id fun heq => ⟨heq, hact⟩
    obtain ⟨hle', bytes, hbytes, hlen, hright⟩ := h.done n hn hd'
    refine ⟨hstarted ▸ hle', bytes, by rw [hrec]; exact hbytes, by rw [hsize']; exact hlen,
      hright.congr hsize (by rw [hsent]) ?_⟩
    rw [hprior, if_neg (by omega)]

/-- **A Wait returns.** -/
theorem ReceiverInv.return (h : b.ReceiverInv r) (hreq : SameBuffer (b.reqs r) (b'.reqs r))
    (hsize : (b'.peerReq r).size = (b.peerReq r).size) (hact : b.world.proc.active r = true)
    (hact' : b'.world.proc.active r = false) (hland : b.Landed r)
    (hstarted : b'.started r = b.started r) (hsent : b'.sent r = b.sent r)
    (hprior : b'.prior r = b.prior r)
    (hrec : ∀ n, b'.received r n =
      if n = (b.reqs r).operationNumber then some (b.buffer r) else b.received r n) :
    b'.ReceiverInv r := by
  have hno : ¬ b'.world.proc.active r = true := by simp [hact']
  refine ⟨fun ha => absurd ha hno, fun ha => absurd ha hno, fun n hn hd => ?_⟩
  by_cases hlast : n = (b.reqs r).operationNumber
  · obtain ⟨hle, hright⟩ := h.landed hact hland
    subst hlast
    refine ⟨hstarted ▸ hle, b.buffer r, by rw [hrec, if_pos rfl], ?_,
      hright.congr hsize (by rw [hsent]) (by rw [hprior])⟩
    rw [hreq.size]
    exact length_readMem ..
  · have hd' : b.Done r n := by
      rcases hd with hd | ⟨hd, -⟩
      · exact Or.inl (hreq.number ▸ hd)
      · exact absurd (hd.trans hreq.number) hlast
    obtain ⟨hle, bytes, hbytes, hlen, hright⟩ := h.done n hn hd'
    refine ⟨hstarted ▸ hle, bytes, by rw [hrec, if_neg hlast]; exact hbytes,
      by rw [hreq.size]; exact hlen, hright.congr hsize (by rw [hsent]) (by rw [hprior])⟩

theorem PlaceInv.congr (h : b.PlaceInv r) (hown : (b'.reqs r).buf = (b.reqs r).buf)
    (hlen : (b'.reqs r).size = (b.reqs r).size) (hbuf : (b'.peerReq r).buf = (b.peerReq r).buf)
    (hsize : (b'.peerReq r).size = (b.peerReq r).size)
    (hc : b'.world.proc.counterpart r = b.world.proc.counterpart r)
    (hacc : ∀ x ∈ b'.accesses r, x ∈ b.accesses r ∨
      x = ⟨(b.peerReq r).buf, (b.peerReq r).size, (b.reqs r).buf⟩) : b'.PlaceInv r := by
  refine ⟨by rw [hsize, hlen]; exact h.fits, by rw [hbuf, hc]; exact h.source, fun x hx => ?_⟩
  rw [hbuf, hsize, hown]
  rcases hacc x hx with hx | hx
  · exact h.accesses x hx
  · exact hx

/-- What is kept of every receive request. -/
structure ReqInv (b : ByteWorld) (r : Rid) : Prop where
  backup : Backup b.world.proc r (b.posted r) (b.delivered r)
  sender : b.SenderInv r
  receiver : b.ReceiverInv r
  place : b.PlaceInv r

/-- The sender is in the same operation, or done with it. -/
structure SamePeer (q q' : Peer) : Prop where
  buf : q'.loc.req.buf = q.loc.req.buf
  size : q'.loc.req.size = q.loc.req.size
  number : q'.loc.req.operationNumber = q.loc.req.operationNumber
  busy : q'.pc ≠ .idle → q.pc ≠ .idle

theorem SamePeer.refl (q : Peer) : SamePeer q q := ⟨rfl, rfl, rfl, id⟩

/-- Nothing of the request changes but the receives that were posted and the flags. -/
theorem ReqInv.goTo {w : World} {posted : Rid → Nat} {received : Rid → Int → Option (List UInt8)}
    (h : b.ReqInv r) (hreq : SameBuffer (b.reqs r) (w.proc.reqs r))
    (hc : w.proc.counterpart r = b.world.proc.counterpart r)
    (hact : w.proc.active r = b.world.proc.active r) (hland : w.landed r = b.world.landed r)
    (hpeer : SamePeer (b.world.peers r) (w.peers r))
    (hk : Backup w.proc r (posted r) (b.delivered r)) (hrec : received r = b.received r) :
    ReqInv { b.goTo w with posted := posted, received := received } r where
  backup := hk
  sender := h.sender.congr hpeer.size hpeer.number rfl rfl fun hpc =>
    ⟨hpeer.busy hpc, by simp only [payload, peerReq, ByteWorld.goTo, hpeer.buf, hpeer.size]⟩
  receiver := by
    refine h.receiver.still ⟨hreq, hpeer.size, hact, fun _ => ?_, ?_, fun _ _ => rfl, ?_, rfl, hrec⟩
    · simp only [buffer, reqs, ByteWorld.goTo, hreq.buf, hreq.size]
    · simp only [Landed, reqs, ByteWorld.goTo, hland, hreq.number]
    · simp only [started, peerReq, ByteWorld.goTo, hpeer.number]
      exact Int.le_refl _
  place := h.place.congr hreq.buf hreq.size hpeer.buf hpeer.size hc fun _ => Or.inl

/-- Bytes are written elsewhere. -/
theorem ReqInv.elsewhere (h : b.ReqInv r) (hworld : b'.world = b.world)
    (hpeerMem : b'.peerMem r = b.peerMem r) (hmsg : b'.messages r = b.messages r)
    (hposted : b'.posted r = b.posted r) (hdel : b'.delivered r = b.delivered r)
    (hsent : b'.sent r = b.sent r) (hprior : b'.prior r = b.prior r)
    (hrec : b'.received r = b.received r) (hacc : b'.accesses r = b.accesses r)
    (hbuf : b.world.proc.active r = true → b'.buffer r = b.buffer r) : b'.ReqInv r where
  backup := by
    rw [hworld, hposted, hdel]
    exact h.backup
  sender := by
    refine h.sender.congr (by simp only [peerReq, hworld]) (by simp only [peerReq, hworld]) hmsg hsent ?_
    intro hpc
    rw [hworld] at hpc
    exact ⟨hpc, by simp only [payload, peerReq, hworld, hpeerMem]⟩
  receiver := by
    refine h.receiver.still ⟨by simp only [reqs, hworld]; exact .refl _,
      by simp only [peerReq, hworld], by rw [hworld], hbuf, ?_, fun _ _ => by rw [hsent], ?_, hprior, hrec⟩
    · simp only [Landed, reqs, hworld, hdel]
    · simp only [started, peerReq, hworld, hmsg]
      exact Int.le_refl _
  place := by
    refine h.place.congr (by simp only [reqs, hworld]) (by simp only [reqs, hworld])
      (by simp only [peerReq, hworld])
      (by simp only [peerReq, hworld]) (by rw [hworld]) fun x hx => Or.inl (hacc ▸ hx)

/-- A write that keeps clear of the buffer. -/
theorem buffer_writeMem {m : List UInt8} {a : Nat} (hreq : b'.reqs r = b.reqs r)
    (hmem : b'.mem = writeMem b.mem a m)
    (h : a + m.length ≤ (b.reqs r).buf ∨ (b.reqs r).buf + (b.reqs r).size ≤ a) :
    b'.buffer r = b.buffer r := by
  unfold buffer
  rw [hreq, hmem]
  exact readMem_writeMem_apart h

theorem length_payload (r : Rid) : (b.payload r).length = (b.peerReq r).size := length_readMem ..

/-- Over RDMA, the operation the receiver is in is the one its sender has started last. -/
theorem ReqInv.number_le (h : b.ReqInv r) (hu : b.world.Underway r) :
    (b.reqs r).operationNumber ≤ b.started r := by
  have hnum : (b.peerReq r).operationNumber = (b.reqs r).operationNumber := hu.peerNumber
  have hlt : 1 < (b.reqs r).operationNumber := hu.number
  have hpath := h.sender.path
  unfold started
  omega

/-- The payload of an operation over RDMA that is under way is not in the buffer yet. -/
theorem ReqInv.unlanded (h : b.ReqInv r) (hu : b.world.Underway r) : ¬ b.Landed r := by
  have htype : (b.world.proc.reqs r).type ≠ .recvSearch := by simp [hu.type]
  have hcount := (h.backup.settled htype).count
  rw [if_pos hu.type] at hcount
  have hle := h.backup.le
  have hnum : 1 < (b.reqs r).operationNumber := hu.number
  have hzero : transfersOf (b.world.landed r) (b.reqs r).operationNumber = 0 := hu.fresh
  unfold Landed
  omega

/-- **A put or a get takes effect.** -/
theorem ReqInv.copy {w : World} {t : Transfer} (h : b.ReqInv r) (hu : b.world.Underway r)
    (hreq : SameBuffer (b.reqs r) (w.proc.reqs r))
    (hc : w.proc.counterpart r = b.world.proc.counterpart r)
    (hact : w.proc.active r = b.world.proc.active r)
    (hland : w.landed r = b.world.landed r ++ [((b.reqs r).operationNumber, t)])
    (hpeer : SamePeer (b.world.peers r) (w.peers r))
    (hk : Backup w.proc r (b.posted r) (b.delivered r)) :
    ((b.goTo w).copy r ⟨(b.peerReq r).buf, (b.peerReq r).size, (b.reqs r).buf⟩).ReqInv r where
  backup := hk
  sender := h.sender.congr hpeer.size hpeer.number rfl rfl fun hpc =>
    ⟨hpeer.busy hpc, by simp only [payload, peerReq, ByteWorld.copy, ByteWorld.goTo, hpeer.buf, hpeer.size]⟩
  receiver := by
    refine h.receiver.arrives (m := b.payload r) h.place hreq hpeer.size hu.active
      (hact.trans hu.active) (h.unlanded hu) (Or.inr ?_) rfl (length_payload r) ?_ (h.number_le hu) ?_
      rfl rfl rfl
    · show 0 < transfersOf (w.landed r) (w.proc.reqs r).operationNumber
      rw [hland, hreq.number, transfersOf_append, if_pos rfl]
      exact Nat.succ_pos _
    · rw [h.sender.busy hu.peer]
      exact congrArg (b.sent r) hu.peerNumber
    · simp only [started, peerReq, ByteWorld.copy, ByteWorld.goTo, hpeer.number]
  place := h.place.congr hreq.buf hreq.size hpeer.buf hpeer.size hc fun x hx => by
    simpa [ByteWorld.copy, ByteWorld.goTo] using hx

/-- What `init_request` leaves of a receive request. -/
structure New (p : Proc) (r : Rid) : Prop where
  type : (p.reqs r).type = .recvSearch
  number : (p.reqs r).operationNumber = 0
  backup : (p.reqs r).backupRequest = none
  remote : (p.reqs r).remoteDataAddr = 0
  active : p.active r = false
  call : p.call = .none

/-- Nothing is owed yet. -/
theorem ReqInv.new (h : New b.world.proc r) (hpc : (b.world.peers r).pc = .idle)
    (hone : (b.peerReq r).operationNumber = 1) (hfit : (b.peerReq r).size ≤ (b.reqs r).size)
    (hsource : (b.peerReq r).buf = (b.world.proc.counterpart r).dataAddr) (hmsg : b.messages r = [])
    (hposted : b.posted r = 0) (hdel : b.delivered r = 0) (hacc : b.accesses r = []) : b.ReqInv r where
  backup := by
    rw [hposted, hdel]
    refine ⟨Nat.le_refl _, Nat.zero_le _, fun _ => ⟨?_, ?_, fun hb => ?_,
      fun pt hpt => ?_, fun hpt => ?_, fun hpt => ?_⟩, fun ht => absurd h.type ht⟩
    · rw [h.number, h.active]
      rfl
    · rw [h.backup]
      rfl
    · simp [h.backup] at hb
    · simp [h.call] at hpt
    · simp [h.call] at hpt
    · simp [h.call] at hpt
  sender := by
    refine ⟨Int.le_of_eq hone.symm, Or.inl hone, ?_, ?_, fun hbusy => absurd hpc hbusy⟩ <;>
      simp [hmsg]
  receiver := by
    have hno : ¬ b.world.proc.active r = true := by simp [h.active]
    refine ⟨fun ha => absurd ha hno, fun ha => absurd ha hno, fun n hn hd => ?_⟩
    have hzero : (b.reqs r).operationNumber = 0 := h.number
    rcases hd with hd | ⟨hd, -⟩ <;> omega
  place := ⟨hfit, hsource, by simp [hacc]⟩

/-- Nothing changes but what the sender does. -/
structure Held (b b' : ByteWorld) (r : Rid) : Prop where
  proc : b'.world.proc = b.world.proc
  landed : b'.world.landed r = b.world.landed r
  buf : (b'.peerReq r).buf = (b.peerReq r).buf
  size : (b'.peerReq r).size = (b.peerReq r).size
  mem : b'.mem = b.mem
  posted : b'.posted r = b.posted r
  delivered : b'.delivered r = b.delivered r
  prior : b'.prior r = b.prior r
  received : b'.received r = b.received r
  accesses : b'.accesses r = b.accesses r

/-- The sender starts operations behind the one the receiver is in. -/
theorem ReqInv.sends (h : b.ReqInv r) (hh : Held b b' r) (hsender : b'.SenderInv r)
    (hstarted : b.started r ≤ b'.started r) (hsent : ∀ n ≤ b.started r, b'.sent r n = b.sent r n) :
    b'.ReqInv r where
  backup := by
    rw [hh.proc, hh.posted, hh.delivered]
    exact h.backup
  sender := hsender
  receiver := by
    have hreq : b'.reqs r = b.reqs r := by simp only [reqs, hh.proc]
    refine h.receiver.still ⟨hreq ▸ .refl _, hh.size, by rw [hh.proc], fun _ => ?_, ?_, hsent, hstarted,
      hh.prior, hh.received⟩
    · simp only [buffer, hreq, hh.mem]
    · simp only [Landed, hreq, hh.landed, hh.delivered]
  place := by
    have hreq : b'.reqs r = b.reqs r := by simp only [reqs, hh.proc]
    exact h.place.congr (by rw [hreq]) (by rw [hreq]) hh.buf hh.size (by rw [hh.proc]) fun x hx =>
      Or.inl (hh.accesses ▸ hx)

/-- The sender starts an operation over RDMA. -/
theorem ReqInv.peerStarts (h : b.ReqInv r) (hh : Held b b' r) (hone : (b.messages r).length = 1)
    (hnum : (b'.peerReq r).operationNumber = (b.peerReq r).operationNumber + 1)
    (hmem : b'.peerMem r = b.peerMem r) (hmsg : b'.messages r = b.messages r)
    (hsent : ∀ n, b'.sent r n =
      if n = (b.peerReq r).operationNumber + 1 then b.payload r else b.sent r n) : b'.ReqInv r := by
  have hle := h.sender.number
  have hstarted : b.started r = (b.peerReq r).operationNumber := by
    unfold started
    omega
  refine h.sends hh ⟨?_, ?_, ?_, fun i m hm => ?_, fun _ => ?_⟩ ?_ fun n hn => ?_
  · exact hnum ▸ Int.le_add_one hle
  · exact Or.inr (hmsg ▸ hone)
  · rw [hmsg, hh.size]
    exact h.sender.length
  · rw [hmsg] at hm
    have hidx := (List.getElem?_eq_some_iff.mp hm).1
    rw [hsent, if_neg (by omega)]
    exact h.sender.message i m hm
  · rw [hnum, hsent, if_pos rfl]
    simp only [payload, hmem, hh.buf, hh.size]
  · unfold started
    rw [hmsg, hnum]
    omega
  · rw [hsent, if_neg (by omega)]

/-- The sender starts an operation over MPI. -/
theorem ReqInv.peerSends (h : b.ReqInv r) (hh : Held b b' r)
    (hone : (b.peerReq r).operationNumber = 1) (hpc : (b'.world.peers r).pc = .idle)
    (hnum : (b'.peerReq r).operationNumber = (b.peerReq r).operationNumber)
    (hmsg : b'.messages r = b.messages r ++ [b.payload r])
    (hsent : ∀ n, b'.sent r n =
      if n = (b.messages r).length + 1 then b.payload r else b.sent r n) : b'.ReqInv r := by
  have hstarted : b.started r = (b.messages r).length := by
    unfold started
    omega
  refine h.sends hh ⟨?_, ?_, fun m hm => ?_, fun i m hm => ?_, fun hbusy => absurd hpc hbusy⟩ ?_
    fun n hn => ?_
  · exact hnum ▸ h.sender.number
  · exact Or.inl (hnum.trans hone)
  · rw [hmsg, List.mem_append, List.mem_singleton] at hm
    rw [hh.size]
    rcases hm with hm | rfl
    · exact h.sender.length m hm
    · exact length_readMem ..
  · rw [hmsg] at hm
    by_cases hi : i < (b.messages r).length
    · rw [List.getElem?_append_left hi] at hm
      rw [hsent, if_neg (by omega)]
      exact h.sender.message i m hm
    · have hlt := (List.getElem?_eq_some_iff.mp hm).1
      rw [List.length_append, List.length_singleton] at hlt
      have hi' : i = (b.messages r).length := by omega
      subst hi'
      rw [List.getElem?_concat_length] at hm
      rw [hsent, if_pos rfl, Option.some.inj hm]
  · unfold started
    rw [hmsg, hnum, List.length_append]
    push_cast
    omega
  · rw [hsent, if_neg (by omega)]

/-- **A message arrives.** -/
theorem ReqInv.delivers {m : List UInt8} (h : b.ReqInv r)
    (hm : (b.messages r)[b.delivered r]? = some m) (hlt : b.delivered r < b.posted r)
    (hzero : transfersOf (b.world.landed r) (b.reqs r).operationNumber = 0)
    (hact : b.world.proc.active r = true)
    (hnum : (b.reqs r).operationNumber = b.delivered r + 1) :
    ReqInv { b with
      mem := writeMem b.mem (b.reqs r).buf m
      delivered := Function.update b.delivered r (b.delivered r + 1)
      accesses := Function.update b.accesses r
        (b.accesses r ++ [⟨(b.peerReq r).buf, (b.peerReq r).size, (b.reqs r).buf⟩]) } r where
  backup := by
    show Backup b.world.proc r (b.posted r) (Function.update b.delivered r _ r)
    rw [Function.update_self]
    exact h.backup.delivers hlt
  sender := h.sender.congr rfl rfl rfl rfl fun hpc => ⟨hpc, rfl⟩
  receiver := by
    have hlen := h.sender.length m (List.mem_of_getElem? hm)
    have hsent : m = b.sent r (b.reqs r).operationNumber := by
      rw [hnum]
      exact h.sender.message _ m hm
    have hle : (b.reqs r).operationNumber ≤ b.started r := by
      have hidx := (List.getElem?_eq_some_iff.mp hm).1
      have hpeer := h.sender.number
      unfold started
      omega
    refine h.receiver.arrives (m := m) h.place (.refl _) rfl hact hact ?_ (Or.inl ?_) rfl hlen hsent hle
      rfl rfl rfl rfl
    · unfold Landed
      omega
    · show (b.reqs r).operationNumber ≤ (Function.update b.delivered r _ r : Nat)
      rw [Function.update_self, hnum]
      exact Int.le_refl _
  place := h.place.congr rfl rfl rfl rfl rfl fun x hx => by
    simpa using hx

end

end ByteWorld

end CompMatch.Rendezvous

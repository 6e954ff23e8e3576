/-
What `send_rdma_info` packs, `receive_rdma_info` unpacks.

The writer's cursor is always behind what it has written, and only zeros follow; so the
message is the concatenation of its parts (`layout`), and each load of the reader finds
the next part.  The one thing in the way is the count: a message whose length is no
`int` is not sent, or only a part of it is.
-/
import CompMatch.Rendezvous.RdmaInfo
import Mathlib.Tactic.NormNum

namespace CompMatch.Rendezvous

/-! ### The writer -/

section
variable (dataPtr flagPtr : UInt64) (rkeyData rkeyFlag : PackedRkey)

/-- `msg_size`, as a number. -/
def infoSize : Nat := 8 * 2 + 8 * 2 + rkeyData.size + rkeyFlag.size + 8 * 2

def header : List UInt8 :=
  toBytes 8 rkeyData.size ++ toBytes 8 rkeyFlag.size ++ toBytes 8 dataPtr.toNat ++
    toBytes 8 flagPtr.toNat

/-- The message, part by part. -/
def layout : List UInt8 :=
  header dataPtr flagPtr rkeyData rkeyFlag ++ rkeyData.bytes ++ List.replicate 8 0 ++
    rkeyFlag.bytes ++ List.replicate 8 0

theorem length_header : (header dataPtr flagPtr rkeyData rkeyFlag).length = 32 := by
  simp [header]

theorem length_layout :
    (layout dataPtr flagPtr rkeyData rkeyFlag).length = infoSize rkeyData rkeyFlag := by
  simp only [layout, List.length_append, length_header, List.length_replicate, infoSize,
    PackedRkey.size]
  omega

/-- Every store of the writer stays inside the buffer. -/
theorem sendRdmaInfo_eq (h : infoSize rkeyData rkeyFlag < 2 ^ 64) :
    sendRdmaInfo dataPtr flagPtr rkeyData rkeyFlag =
      some ⟨layout dataPtr flagPtr rkeyData rkeyFlag, infoSize rkeyData rkeyFlag,
        infoSize rkeyData rkeyFlag⟩ := by
  have hmod : (8 * 2 + 8 * 2 + rkeyData.size + rkeyFlag.size + 8 * 2) % 2 ^ 64 =
      infoSize rkeyData rkeyFlag := Nat.mod_eq_of_lt h
  have hfull := length_layout dataPtr flagPtr rkeyData rkeyFlag
  have hheader := length_header dataPtr flagPtr rkeyData rkeyFlag
  have hN : infoSize rkeyData rkeyFlag = 48 + rkeyData.bytes.length + rkeyFlag.bytes.length := by
    simp only [infoSize, PackedRkey.size]
    omega
  have hsize : rkeyData.size = rkeyData.bytes.length ∧ rkeyFlag.size = rkeyFlag.bytes.length :=
    ⟨rfl, rfl⟩
  unfold header at hheader
  unfold layout header at hfull ⊢
  generalize infoSize rkeyData rkeyFlag = N at *
  have hlen := length_toBytes 8
  have h1 : store (List.replicate N 0) 0 (toBytes 8 rkeyData.size) =
      some (filled N (toBytes 8 rkeyData.size)) := by
    rw [← filled_nil]
    exact store_filled rfl (by simp [hlen]; omega)
  have h2 : store (filled N (toBytes 8 rkeyData.size)) (0 + 8) (toBytes 8 rkeyFlag.size) =
      some (filled N (toBytes 8 rkeyData.size ++ toBytes 8 rkeyFlag.size)) :=
    store_filled (by simp [hlen]) (by simp [hlen]; omega)
  have h3 : store (filled N (toBytes 8 rkeyData.size ++ toBytes 8 rkeyFlag.size)) (0 + 8 + 8)
      (toBytes 8 dataPtr.toNat) = some (filled N (toBytes 8 rkeyData.size ++ toBytes 8 rkeyFlag.size ++
        toBytes 8 dataPtr.toNat)) :=
    store_filled (by simp [hlen]) (by simp [hlen]; omega)
  have h4 : store (filled N (toBytes 8 rkeyData.size ++ toBytes 8 rkeyFlag.size ++
      toBytes 8 dataPtr.toNat)) (0 + 8 + 8 + 8) (toBytes 8 flagPtr.toNat) =
        some (filled N (toBytes 8 rkeyData.size ++ toBytes 8 rkeyFlag.size ++
          toBytes 8 dataPtr.toNat ++ toBytes 8 flagPtr.toNat)) :=
    store_filled (by simp [hlen]) (by simp [hlen]; omega)
  generalize toBytes 8 rkeyData.size ++ toBytes 8 rkeyFlag.size ++ toBytes 8 dataPtr.toNat ++
    toBytes 8 flagPtr.toNat = head at *
  have h5 : store (filled N head) (0 + 8 + 8 + 8 + 8) rkeyData.bytes =
      some (filled N (head ++ rkeyData.bytes)) := store_filled (by omega) (by omega)
  have hskip : filled N (head ++ rkeyData.bytes) =
      filled N (head ++ rkeyData.bytes ++ List.replicate 8 0) :=
    filled_skip (by simp only [List.length_append]; omega)
  have h6 : store (filled N (head ++ rkeyData.bytes ++ List.replicate 8 0))
      (0 + 8 + 8 + 8 + 8 + rkeyData.size + 8) rkeyFlag.bytes =
        some (filled N (head ++ rkeyData.bytes ++ List.replicate 8 0 ++ rkeyFlag.bytes)) :=
    store_filled (by simp only [List.length_append, List.length_replicate]; omega)
      (by simp only [List.length_append, List.length_replicate]; omega)
  have hlast : filled N (head ++ rkeyData.bytes ++ List.replicate 8 0 ++ rkeyFlag.bytes) =
      head ++ rkeyData.bytes ++ List.replicate 8 0 ++ rkeyFlag.bytes ++ List.replicate 8 0 := by
    rw [filled_skip (n := 8) (by simp only [List.length_append, List.length_replicate]; omega)]
    exact filled_full hfull
  have hend : 0 + 8 + 8 + 8 + 8 + rkeyData.size + 8 + rkeyFlag.size + 8 = N := by omega
  simp only [sendRdmaInfo, hmod, h1, h2, h3, h4, h5, h6, hskip, hlast, hend, Option.bind_eq_bind,
    Option.bind_some, Option.pure_def]

/-- Where the writer ends, if it does. -/
theorem cursor_of_send {p : PackedInfo} (h : sendRdmaInfo dataPtr flagPtr rkeyData rkeyFlag = some p) :
    p.msgSize = infoSize rkeyData rkeyFlag % 2 ^ 64 ∧ p.currentPos = infoSize rkeyData rkeyFlag := by
  simp only [sendRdmaInfo, Option.bind_eq_bind, Option.bind_eq_some_iff, Option.pure_def,
    Option.some.injEq] at h
  obtain ⟨-, -, -, -, -, -, -, -, -, -, -, -, rfl⟩ := h
  refine ⟨rfl, ?_⟩
  simp only [infoSize]
  omega

/-! ### The reader -/

/-- The fields of the header. -/
theorem load_header :
    load (layout dataPtr flagPtr rkeyData rkeyFlag) 0 8 = some (toBytes 8 rkeyData.size) ∧
    load (layout dataPtr flagPtr rkeyData rkeyFlag) (0 + 8) 8 = some (toBytes 8 rkeyFlag.size) ∧
    load (layout dataPtr flagPtr rkeyData rkeyFlag) (0 + 8 + 8) 8 = some (toBytes 8 dataPtr.toNat) ∧
    load (layout dataPtr flagPtr rkeyData rkeyFlag) (0 + 8 + 8 + 8) 8 =
      some (toBytes 8 flagPtr.toNat) := by
  have hlen := length_toBytes 8
  have happ : layout dataPtr flagPtr rkeyData rkeyFlag = header dataPtr flagPtr rkeyData rkeyFlag ++
      (rkeyData.bytes ++ List.replicate 8 0 ++ rkeyFlag.bytes ++ List.replicate 8 0) := by
    simp only [layout, List.append_assoc]
  refine ⟨?_, ?_, ?_, ?_⟩ <;> rw [happ, header] <;> simp only [List.append_assoc]
  · rw [← List.nil_append (toBytes 8 rkeyData.size ++ _), ← List.append_assoc]
    exact load_append rfl (hlen _).symm
  · rw [← List.append_assoc]
    exact load_append (by simp [hlen]) (hlen _).symm
  · rw [← List.append_assoc, ← List.append_assoc]
    exact load_append (by simp [hlen]) (hlen _).symm
  · rw [← List.append_assoc, ← List.append_assoc, ← List.append_assoc]
    exact load_append (by simp [hlen]) (hlen _).symm

/-- The fields of the header are numbers of eight bytes. -/
theorem ofBytes_header : ofBytes (toBytes 8 rkeyData.size) = rkeyData.size ∧
    ofBytes (toBytes 8 rkeyFlag.size) = rkeyFlag.size ∧
    ofBytes (toBytes 8 dataPtr.toNat) = dataPtr.toNat ∧
    ofBytes (toBytes 8 flagPtr.toNat) = flagPtr.toNat :=
  ⟨ofBytes_toBytes rkeyData.fits, ofBytes_toBytes rkeyFlag.fits,
    ofBytes_toBytes dataPtr.toNat_lt, ofBytes_toBytes flagPtr.toNat_lt⟩

/-- What the reader makes of the message. -/
def unpacked : UnpackedInfo where
  remoteDataAddr := dataPtr.toNat
  remoteFlagAddr := flagPtr.toNat
  dataRkeyPos := 32
  flagRkeyPos := 32 + rkeyData.size + 8
  currentPos := infoSize rkeyData rkeyFlag

theorem receive_layout : receiveRdmaInfo (layout dataPtr flagPtr rkeyData rkeyFlag) =
    some (unpacked dataPtr flagPtr rkeyData rkeyFlag) := by
  obtain ⟨h1, h2, h3, h4⟩ := load_header dataPtr flagPtr rkeyData rkeyFlag
  obtain ⟨e1, e2, e3, e4⟩ := ofBytes_header dataPtr flagPtr rkeyData rkeyFlag
  have hend : 0 + 8 + 8 + 8 + 8 + rkeyData.size + 8 + rkeyFlag.size + 8 =
      infoSize rkeyData rkeyFlag := by
    unfold infoSize
    omega
  simp only [receiveRdmaInfo, h1, h2, h3, h4, e1, e2, e3, e4, hend, unpacked, Option.bind_eq_bind,
    Option.bind_some, Option.pure_def]

/-- A part of the message that has the header makes the reader look for the rest. -/
theorem receive_take {k : Nat} {u : UnpackedInfo}
    (h : receiveRdmaInfo ((layout dataPtr flagPtr rkeyData rkeyFlag).take k) = some u) :
    u.currentPos = infoSize rkeyData rkeyFlag := by
  obtain ⟨h1, h2, -, -⟩ := load_header dataPtr flagPtr rkeyData rkeyFlag
  obtain ⟨e1, e2, -, -⟩ := ofBytes_header dataPtr flagPtr rkeyData rkeyFlag
  simp only [receiveRdmaInfo, Option.bind_eq_bind, Option.bind_eq_some_iff, Option.pure_def,
    Option.some.injEq] at h
  obtain ⟨x1, hx1, x2, hx2, x3, -, x4, -, rfl⟩ := h
  obtain rfl := Option.some.inj ((load_of_take hx1).symm.trans h1)
  obtain rfl := Option.some.inj ((load_of_take hx2).symm.trans h2)
  simp only [e1, e2, infoSize]
  omega

/-- Both keys are where the reader says they are. -/
theorem keys_at : KeyAt (layout dataPtr flagPtr rkeyData rkeyFlag) 32 rkeyData ∧
    KeyAt (layout dataPtr flagPtr rkeyData rkeyFlag) (32 + rkeyData.size + 8) rkeyFlag := by
  have hhead := length_header dataPtr flagPtr rkeyData rkeyFlag
  unfold layout
  generalize header dataPtr flagPtr rkeyData rkeyFlag = head at hhead ⊢
  refine ⟨⟨?_, ?_⟩, ⟨?_, ?_⟩⟩
  · rw [List.append_assoc (head ++ rkeyData.bytes), List.append_assoc (head ++ rkeyData.bytes)]
    exact load_append hhead.symm rfl
  · rw [List.append_assoc (head ++ rkeyData.bytes ++ _)]
    exact load_append (by simp [hhead, PackedRkey.size]) (by simp)
  · exact load_append (by simp [hhead, PackedRkey.size]; omega) rfl
  · rw [← List.append_nil (head ++ _ ++ _ ++ _ ++ _)]
    exact load_append (by simp [hhead, PackedRkey.size]; omega) (by simp)

end

/-! ### The round trip -/

/-- The length of a message is the `int` it is counted with as long as there is one. -/
theorem toInt_eq_iff {n : Nat} : toInt n = n ↔ n < 2 ^ 31 := by
  unfold toInt
  rw [Int.bmod_eq_iff (by decide)]
  omega

/-- Where the message makes it, its length is an `int`. -/
theorem RoundTrips.fits {dataPtr flagPtr : UInt64} {rkeyData rkeyFlag : PackedRkey}
    (h : RoundTrips dataPtr flagPtr rkeyData rkeyFlag) : infoSize rkeyData rkeyFlag < 2 ^ 31 := by
  obtain ⟨p, msg, u, hp, hasserted, hmsg, hu, hcount, -⟩ := h
  obtain ⟨hsize, hcursor⟩ := cursor_of_send dataPtr flagPtr rkeyData rkeyFlag hp
  have heq : p.msgSize = infoSize rkeyData rkeyFlag := hcursor ▸ hasserted
  have hlt : infoSize rkeyData rkeyFlag < 2 ^ 64 := by
    rw [← heq, hsize]
    exact Nat.mod_lt _ (by decide)
  have hbuf : p.rdmaInfoBuf = layout dataPtr flagPtr rkeyData rkeyFlag := by
    rw [sendRdmaInfo_eq dataPtr flagPtr rkeyData rkeyFlag hlt] at hp
    rw [← Option.some.inj hp]
  unfold PackedInfo.issend at hmsg
  rw [heq, hbuf] at hmsg
  have hpos : 0 ≤ toInt (infoSize rkeyData rkeyFlag) := by
    by_contra hno
    rw [if_neg hno] at hmsg
    simp at hmsg
  rw [if_pos hpos] at hmsg
  have hlen := length_of_load hmsg
  have htake : msg = (layout dataPtr flagPtr rkeyData rkeyFlag).take
      (toInt (infoSize rkeyData rkeyFlag)).toNat := by
    unfold load at hmsg
    split at hmsg <;> simp only [reduceCtorEq, Option.some.injEq] at hmsg
    exact hmsg.symm
  rw [htake] at hu
  have hend := receive_take dataPtr flagPtr rkeyData rkeyFlag hu
  have hcount' : msg.length = u.currentPos := hcount
  have hnat : (toInt (infoSize rkeyData rkeyFlag)).toNat = infoSize rkeyData rkeyFlag :=
    hlen.symm.trans (hcount'.trans hend)
  refine toInt_eq_iff.mp ?_
  calc toInt (infoSize rkeyData rkeyFlag)
      = ((toInt (infoSize rkeyData rkeyFlag)).toNat : Int) := (Int.toNat_of_nonneg hpos).symm
    _ = infoSize rkeyData rkeyFlag := by rw [hnat]

/--
**The handshake message comes out as it was put in**, and both cursors end where they
are asserted to, exactly for the messages whose length is an `int`.
-/
theorem roundTrips_iff (dataPtr flagPtr : UInt64) (rkeyData rkeyFlag : PackedRkey) :
    RoundTrips dataPtr flagPtr rkeyData rkeyFlag ↔
      8 * 2 + 8 * 2 + rkeyData.size + rkeyFlag.size + 8 * 2 < 2 ^ 31 := by
  refine ⟨RoundTrips.fits, fun h => ?_⟩
  have hN : infoSize rkeyData rkeyFlag < 2 ^ 31 := h
  have hlt : infoSize rkeyData rkeyFlag < 2 ^ 64 := Nat.lt_trans hN (by decide)
  have hint : toInt (infoSize rkeyData rkeyFlag) = infoSize rkeyData rkeyFlag := toInt_eq_iff.mpr hN
  have hlen := length_layout dataPtr flagPtr rkeyData rkeyFlag
  obtain ⟨hdata, hflag⟩ := keys_at dataPtr flagPtr rkeyData rkeyFlag
  refine ⟨_, layout dataPtr flagPtr rkeyData rkeyFlag, _,
    sendRdmaInfo_eq dataPtr flagPtr rkeyData rkeyFlag hlt, rfl, ?_,
    receive_layout dataPtr flagPtr rkeyData rkeyFlag, hlen, rfl, rfl, hdata, hflag⟩
  rw [PackedInfo.issend, hint, if_pos (Int.natCast_nonneg _), Int.toNat_natCast, ← hlen]
  exact load_all _

/-- A key of a gibibyte. -/
def longRkey : PackedRkey := ⟨List.replicate (2 ^ 30) 0, by
  rw [List.length_replicate]
  decide⟩

/-- The message with two of them has a length of 2 ^ 31 + 48, which is negative as an `int`. -/
theorem longRkey_not_roundTrips : ¬ RoundTrips 16 24 longRkey longRkey := by
  intro h
  have hfits := h.fits
  have hsize : longRkey.size = 2 ^ 30 := List.length_replicate
  rw [infoSize, hsize] at hfits
  omega

end CompMatch.Rendezvous

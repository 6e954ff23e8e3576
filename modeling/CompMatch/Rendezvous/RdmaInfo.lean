/-
The handshake message: `send_rdma_info` packs it, `receive_rdma_info` unpacks it.

It consists of the lengths of the two packed keys, the two addresses, and the keys, each
with a `u_int64_t` of zeros behind it.  `size_t` and `u_int64_t` have eight bytes.

`MPI_Issend` and `MPI_Get_count` have an `int` for the length of the message, while
`msg_size` is a `size_t`.  A count that is negative is an error of MPI.
-/
import CompMatch.Lib.Cursor

namespace CompMatch.Rendezvous

/-- A memory key as `ucp_rkey_pack` returns it: its length is a `size_t`. -/
structure PackedRkey where
  bytes : List UInt8
  fits : bytes.length < 2 ^ 64

namespace PackedRkey

/-- `rkey_size_data`, `rkey_size_flag`. -/
def size (k : PackedRkey) : Nat := k.bytes.length

end PackedRkey

/-- `rdma_info_buf` once it is populated, with `current_pos` and `msg_size`. -/
structure PackedInfo where
  rdmaInfoBuf : List UInt8
  currentPos : Nat
  msgSize : Nat
deriving DecidableEq, Repr

/-- `(int)n`. -/
def toInt (n : Nat) : Int := (n : Int).bmod (2 ^ 32)

/-- `send_rdma_info`, from the packed keys on.  A store outside the buffer has no result. -/
def sendRdmaInfo (dataPtr flagPtr : UInt64) (rkeyData rkeyFlag : PackedRkey) : Option PackedInfo := do
  let msgSize := (8 * 2 + 8 * 2 + rkeyData.size + rkeyFlag.size + 8 * 2) % 2 ^ 64
  let rdmaInfoBuf := List.replicate msgSize (0 : UInt8)
  let currentPos := 0
  let rdmaInfoBuf ← store rdmaInfoBuf currentPos (toBytes 8 rkeyData.size)
  let currentPos := currentPos + 8
  let rdmaInfoBuf ← store rdmaInfoBuf currentPos (toBytes 8 rkeyFlag.size)
  let currentPos := currentPos + 8
  let rdmaInfoBuf ← store rdmaInfoBuf currentPos (toBytes 8 dataPtr.toNat)
  let currentPos := currentPos + 8
  let rdmaInfoBuf ← store rdmaInfoBuf currentPos (toBytes 8 flagPtr.toNat)
  let currentPos := currentPos + 8
  let rdmaInfoBuf ← store rdmaInfoBuf currentPos rkeyData.bytes
  let currentPos := currentPos + rkeyData.size
  let currentPos := currentPos + 8 -- null termination
  let rdmaInfoBuf ← store rdmaInfoBuf currentPos rkeyFlag.bytes
  let currentPos := currentPos + rkeyFlag.size
  let currentPos := currentPos + 8 -- null termination
  return { rdmaInfoBuf, currentPos, msgSize }

/-- `assert(msg_size + request->rdma_info_buf == current_pos)`. -/
def PackedInfo.Asserted (p : PackedInfo) : Prop := p.msgSize = p.currentPos

instance (p : PackedInfo) : Decidable p.Asserted := inferInstanceAs (Decidable (_ = _))

/-- What `MPI_Issend(rdma_info_buf, msg_size, MPI_BYTE, …)` sends. -/
def PackedInfo.issend (p : PackedInfo) : Option (List UInt8) :=
  if 0 ≤ toInt p.msgSize then load p.rdmaInfoBuf 0 (toInt p.msgSize).toNat else none

/-- What `receive_rdma_info` reads, and where it lets `ucp_ep_rkey_unpack` read. -/
structure UnpackedInfo where
  remoteDataAddr : Nat
  remoteFlagAddr : Nat
  dataRkeyPos : Nat
  flagRkeyPos : Nat
  currentPos : Nat
deriving DecidableEq, Repr

/-- `receive_rdma_info`, on the message in `tmp_buf`.  A load outside the buffer has no result. -/
def receiveRdmaInfo (tmpBuf : List UInt8) : Option UnpackedInfo := do
  let currentPos := 0
  let rkeySizeData := ofBytes (← load tmpBuf currentPos 8)
  let currentPos := currentPos + 8
  let rkeySizeFlag := ofBytes (← load tmpBuf currentPos 8)
  let currentPos := currentPos + 8
  let remoteDataAddr := ofBytes (← load tmpBuf currentPos 8)
  let currentPos := currentPos + 8
  let remoteFlagAddr := ofBytes (← load tmpBuf currentPos 8)
  let currentPos := currentPos + 8
  let dataRkeyPos := currentPos
  let currentPos := currentPos + rkeySizeData
  let currentPos := currentPos + 8 -- null termination
  let flagRkeyPos := currentPos
  let currentPos := currentPos + rkeySizeFlag
  let currentPos := currentPos + 8 -- null termination
  return { remoteDataAddr, remoteFlagAddr, dataRkeyPos, flagRkeyPos, currentPos }

/-- `assert(count + tmp_buf == current_pos)`. -/
def UnpackedInfo.Asserted (u : UnpackedInfo) (count : Nat) : Prop := count = u.currentPos

instance (u : UnpackedInfo) (count : Nat) : Decidable (u.Asserted count) :=
  inferInstanceAs (Decidable (_ = _))

/-- The key that begins at `pos` is `k`, with eight zeros behind it. -/
structure KeyAt (msg : List UInt8) (pos : Nat) (k : PackedRkey) : Prop where
  key : load msg pos k.size = some k.bytes
  zeros : load msg (pos + k.size) 8 = some (List.replicate 8 0)

/-- The message comes out as it was put in, and both sides end where they assert they do. -/
def RoundTrips (dataPtr flagPtr : UInt64) (rkeyData rkeyFlag : PackedRkey) : Prop :=
  ∃ p msg u, sendRdmaInfo dataPtr flagPtr rkeyData rkeyFlag = some p ∧ p.Asserted ∧
    p.issend = some msg ∧ receiveRdmaInfo msg = some u ∧ u.Asserted msg.length ∧
    u.remoteDataAddr = dataPtr.toNat ∧ u.remoteFlagAddr = flagPtr.toNat ∧
    KeyAt msg u.dataRkeyPos rkeyData ∧ KeyAt msg u.flagRkeyPos rkeyFlag

end CompMatch.Rendezvous

/-
Requests of the two-sided rendezvous implementation
(`openmpi-patch/one-sided-persistent_two_sided_rendezvous.c`).

`MpioptRequest` is `struct mpiopt_request` without the parts no modelled function
reads: the embedded `ompi_request_t` and the memory handles.  C integers are `Int`
and do not wrap.  Handles that may be `NULL` or `MPI_REQUEST_NULL` are options, and
the address 0 is `NULL`.
-/
import Mathlib.Data.List.Basic

namespace CompMatch.Rendezvous

/-- An address in some process, and the bytes a process sees there. -/
abbrev Addr := Nat

abbrev Mem := Addr → UInt8

/-- The bytes of `len` cells from `a` on. -/
def readMem (m : Mem) (a : Addr) (len : Nat) : List UInt8 :=
  (List.range len).map fun i => m (a + i)

/-- `m` with `bytes` written from `a` on. -/
def writeMem (m : Mem) (a : Addr) (bytes : List UInt8) : Mem := fun x =>
  if a ≤ x then (bytes[x - a]?).getD (m x) else m x

@[simp] theorem length_readMem (m : Mem) (a : Addr) (len : Nat) :
    (readMem m a len).length = len := by
  simp [readMem]

theorem readMem_writeMem (m : Mem) (a : Addr) (bytes : List UInt8) :
    readMem (writeMem m a bytes) a bytes.length = bytes := by
  refine List.ext_getElem (by simp) ?_
  intro i hi _
  have hlt : i < bytes.length := by simpa using hi
  simp [readMem, writeMem, hlt]

theorem readMem_writeMem_of_length {bytes : List UInt8} {len : Nat} (h : bytes.length = len)
    (m : Mem) (a : Addr) : readMem (writeMem m a bytes) a len = bytes :=
  h ▸ readMem_writeMem m a bytes

/-- The `type` field of a request. -/
inductive RequestType
  | recv            -- RECV_REQUEST_TYPE
  | send            -- SEND_REQUEST_TYPE
  | sendSearch      -- SEND_REQUEST_TYPE_SEARCH_FOR_RDMA_CONNECTION
  | recvSearch      -- RECV_REQUEST_TYPE_SEARCH_FOR_RDMA_CONNECTION
  | sendFallback    -- SEND_REQUEST_TYPE_USE_FALLBACK
  | recvFallback    -- Recv_REQUEST_TYPE_USE_FALLBACK
deriving DecidableEq, Repr

structure MpioptRequest where
  flag : Int
  flagBuffer : Int
  /-- `&request->flag`. -/
  flagAddr : Addr
  remoteDataAddr : Addr
  remoteFlagAddr : Addr
  remoteDataRkey : Nat
  remoteFlagRkey : Nat
  buf : Addr
  size : Nat
  ucxRequestDataTransfer : Option Nat
  ucxRequestFlagTransfer : Option Nat
  operationNumber : Int
  type : RequestType
  backupRequest : Option Nat
  tag : Int
  dest : Nat
  rdmaExchangeRequestSend : Option Nat
deriving DecidableEq, Repr

/-- Which way the payload of an operation travels. -/
inductive Transfer
  | put    -- the sender pushes it
  | get    -- the receiver fetches it
deriving DecidableEq, Repr

/-- How often the payload of operation `n` was transferred. -/
def transfersOf (landed : List (Int × Transfer)) (n : Int) : Nat :=
  landed.countP fun x => x.1 == n

@[simp] theorem transfersOf_nil (n : Int) : transfersOf [] n = 0 := rfl

theorem transfersOf_append (landed : List (Int × Transfer)) (m n : Int) (t : Transfer) :
    transfersOf (landed ++ [(m, t)]) n = transfersOf landed n + if m = n then 1 else 0 := by
  simp [transfersOf, List.countP_append, List.countP_cons]

/--
What is handed to `ucp_put_nbi` and `ucp_get_nbi`.  `number` is the operation the
poster was in, which nothing in the code reads.
-/
inductive RdmaOp
  | put (number : Int) (src : Addr) (len : Nat) (dst : Addr)
  | get (number : Int) (dst : Addr) (len : Nat) (src : Addr)
  /-- The four bytes of `flag_buffer`, to the flag at `dst`. -/
  | flag (number : Int) (dst : Addr)
deriving DecidableEq, Repr

end CompMatch.Rendezvous

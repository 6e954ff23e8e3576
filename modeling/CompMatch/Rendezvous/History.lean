/-
One process, and what has happened to its requests.

Around the process anything may happen: handshake messages say anything and arrive at
any time, any flag is written with any value, and probes and tests answer as they like.
One thing is as MPI has it: a test finds a receive complete only when its message is in
the buffer.  The user starts requests that are not started, waits for those that are,
and uses none that was freed.

`infos`, `posted` and `delivered` record what has happened and are read by no function
of the process.
-/
import CompMatch.Rendezvous.Bytes

namespace CompMatch.Rendezvous

structure History where
  proc : Proc
  /-- The handshake messages that were received for the request. -/
  infos : Rid → List RdmaInfo
  /-- How many receives were posted for the request. -/
  posted : Rid → Nat
  /-- How many of them have their message in the buffer. -/
  delivered : Rid → Nat

inductive HistoryAct
  | sendInit (args : Proc.InitArgs)
  | recvInit (args : Proc.InitArgs)
  | start (r : Rid)
  | wait (r : Rid)
  | free (r : Rid)
  | run (ans : Answer)
  | announces (r : Rid) (info : RdmaInfo)  -- the next handshake message for the request says `info`
  | delivers (r : Rid)                     -- a message arrives in the buffer of its receive
  | lands (i : Nat)                        -- an operation of UCX takes effect
  | writeFlag (r : Rid) (v : Int)          -- another process writes the flag of a request
deriving DecidableEq, Repr

/-- What `memset` leaves. -/
def RdmaInfo.zero : RdmaInfo := ⟨0, 0, 0, 0⟩

/-- The addresses and keys of a request. -/
def Proc.remote (p : Proc) (r : Rid) : RdmaInfo :=
  ⟨(p.reqs r).remoteDataAddr, (p.reqs r).remoteFlagAddr, (p.reqs r).remoteDataRkey,
    (p.reqs r).remoteFlagRkey⟩

/-- The request that a `receive_rdma_info` works on. -/
def Frame.receives : Frame → Option Rid
  | .receiveInfo r _ => some r
  | _ => none

def Frame.isProgressOther : Frame → Bool
  | .progressOther _ _ => true
  | _ => false

/-- The requests that `receive_rdma_info` is on the stack for. -/
def Proc.receiving (p : Proc) : List Rid := p.nested.filterMap Frame.receives

namespace History

def setProc (h : History) (p : Proc) : History := { h with proc := p }

/-- What an MPI call does to the receives and the handshake. -/
def call (h : History) (c : Option MpiCall) : History :=
  { h with
    posted := fun r => if c = some (.irecv r) then h.posted r + 1 else h.posted r
    infos := fun r =>
      match c with
      | some (.recv q _) => if r = q then h.infos r ++ [h.proc.counterpart r] else h.infos r
      | _ => h.infos r }

/-- The user may call a function. -/
def Free (h : History) : Prop := h.proc.call = .none ∧ h.proc.nested = []

instance (h : History) : Decidable h.Free := inferInstanceAs (Decidable (_ ∧ _))

/-- A test that finds a receive complete is right. -/
def truthful (h : History) (ans : Answer) : Bool :=
  match (h.proc.run ans).bind fun x => x.2.bind MpiCall.tests with
  | some r => !ans.flag || !(h.proc.reqs r).type.isRecv || h.posted r == h.delivered r
  | none => true

def step (h : History) : HistoryAct → Option History
  | .sendInit args =>
      if h.Free then some (h.setProc (h.proc.initRequest .sendSearch args .zero).1) else none
  | .recvInit args =>
      if h.Free then some (h.setProc (h.proc.initRequest .recvSearch args .zero).1) else none
  | .start r =>
      if h.Free ∧ r ∈ h.proc.requestList ∧ h.proc.active r = false
      then some ((h.call (h.proc.start r).2).setProc (h.proc.start r).1) else none
  | .wait r =>
      if h.Free ∧ r ∈ h.proc.requestList ∧ h.proc.active r = true
      then some (h.setProc (h.proc.wait r)) else none
  | .free r =>
      if h.Free ∧ r ∈ h.proc.requestList ∧ h.proc.active r = false
      then some (h.setProc (h.proc.free r)) else none
  | .run ans =>
      match h.proc.run ans with
      | some (p, c) => if h.truthful ans then some ((h.call c).setProc p) else none
      | none => none
  | .announces r info =>
      some (h.setProc { h.proc with counterpart := Function.update h.proc.counterpart r info })
  | .delivers r =>
      if h.delivered r < h.posted r then
        some { h with delivered := Function.update h.delivered r (h.delivered r + 1) }
      else none
  | .lands i =>
      match h.proc.worker.enabled? i with
      | some _ => some (h.setProc { h.proc with worker := h.proc.worker.retire i })
      | none => none
  | .writeFlag r v => some (h.setProc (h.proc.setReq r fun q => { q with flag := v }))

/-- No request was initialised yet. -/
structure Init (h : History) : Prop where
  requestList : h.proc.requestList = []
  nextRid : h.proc.nextRid = 0
  call : h.proc.call = .none
  nested : h.proc.nested = []
  worker : h.proc.worker = .idle
  infos : ∀ r, h.infos r = []
  posted : ∀ r, h.posted r = 0
  delivered : ∀ r, h.delivered r = 0

/-! ### The receive for the first operation -/

/-- What holds of the first operation of every receive request. -/
structure FirstReceive (h : History) (r : Rid) : Prop where
  /-- No receive is posted before the first Start. -/
  unstarted : (h.proc.reqs r).operationNumber = 0 → h.posted r = 0
  /-- It is posted once. -/
  once : (h.proc.reqs r).operationNumber ≤ 1 → h.posted r ≤ 1
  /-- When the first Wait has returned, it was posted and its message is there. -/
  returned : (h.proc.reqs r).operationNumber = 1 → h.proc.active r = false →
    h.posted r = 1 ∧ h.delivered r = 1
  /-- Where it is posted `backup_request` is `MPI_REQUEST_NULL`, and all assertions hold. -/
  asserted : ∀ act h', h.step act = some h' → (h'.proc.reqs r).operationNumber ≤ 1 →
    h'.posted r ≠ h.posted r →
      (h.proc.reqs r).backupRequest = none ∧ h'.proc.failed = h.proc.failed

/-! ### How deep functions call each other -/

/-- No handshake message that is received says that the address of its data is `NULL`. -/
def NonNull (h : History) (act : HistoryAct) : Prop :=
  ∀ ans r below, act = .run ans → h.proc.nested = .receiveInfo r .recv :: below →
    (h.proc.counterpart r).dataAddr ≠ 0

/-- The requests of the list that search for their connection. -/
def searching (h : History) : List Rid :=
  h.proc.requestList.filter fun r => (h.proc.reqs r).type.isSearch

/-- What bounds the recursion. -/
structure Bounded (h : History) : Prop where
  /-- No `receive_rdma_info` is called for a request that another one works on. -/
  distinct : h.proc.receiving.Nodup
  searches : ∀ r ∈ h.proc.receiving, r ∈ h.searching
  /-- There are no more of them than requests that search. -/
  receives : h.proc.receiving.length ≤ h.searching.length
  /-- Each calls `progress_other_requests` once at a time, and so does the function the user called. -/
  depth : h.proc.nested.countP Frame.isProgressOther ≤ h.searching.length + 1
  /-- A request receives one handshake message at most. -/
  once : ∀ r < h.proc.nextRid, (h.infos r).length ≤ 1
  /-- What it says is kept. -/
  remote : ∀ r < h.proc.nextRid, h.proc.remote r = (h.infos r).headD .zero
  unchanged : ∀ act h', h.step act = some h' → ∀ r < h.proc.nextRid,
    (h.proc.reqs r).remoteDataAddr ≠ 0 → h'.proc.remote r = h.proc.remote r
  /-- The functions that receive it are called for requests that search. -/
  asserted : ∀ f below, h.proc.nested = f :: below →
    (∃ r, f = .progressWaiting r .probe ∨ f = .receiveInfo r .recv) →
      ∀ ans h', h.step (.run ans) = some h' → h'.proc.failed = h.proc.failed

end History

end CompMatch.Rendezvous

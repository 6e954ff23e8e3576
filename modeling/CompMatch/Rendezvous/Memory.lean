/-
The lists of requests as they are in memory.

`Proc` has the requests of a process in a list, and `progress_other_requests` walks over
the list as it is when it is called.  In memory there are two linked lists.  The one from
`request_list_head` has the requests that are in use, the one from `to_free_list_head`
those that were freed: their memory is kept until `MPIOPT_FINALIZE`, as the other process
may still write to their flags.

`none` is a failed assertion, or what C leaves undefined.  `malloc` is told the address it
finds.  Of a request only the pointer to the handshake message is modelled here; the rest
of it is in `Proc`.  The buffer that `receive_rdma_info` allocates and frees again, and
what UCX allocates, are left out.
-/
import CompMatch.Lib.Heap
import CompMatch.Lib.LinkedList
import CompMatch.Rendezvous.History

namespace CompMatch.Rendezvous

open LinkedList

inductive Object
  | listElem (elem next : Addr)     -- struct list_elem
  | request (rdmaInfoBuf : Addr)    -- MPIOPT_Request
  | buffer                          -- what rdma_info_buf points to
deriving DecidableEq, Repr

structure Memory where
  heap : Heap Addr Object
  requestListHead : Addr
  toFreeListHead : Addr

namespace Memory

/-- The `struct list_elem` at an address. -/
def listElem (m : Memory) (p : Addr) : Option (Cell Addr Addr) :=
  match m.heap.lookup p with
  | some (.listElem elem next) => some ⟨elem, next⟩
  | _ => none

/-- The `rdma_info_buf` of the request at an address. -/
def rdmaInfoBuf (m : Memory) (p : Addr) : Option Addr :=
  match m.heap.lookup p with
  | some (.request buf) => some buf
  | _ => none

def malloc (m : Memory) (p : Addr) (o : Object) : Option Memory :=
  (Heap.malloc 0 m.heap p o).map fun h => { m with heap := h }

def store (m : Memory) (p : Addr) (o : Object) : Option Memory :=
  (Heap.store m.heap p o).map fun h => { m with heap := h }

def free (m : Memory) (p : Addr) : Option Memory :=
  (Heap.free 0 m.heap p).map fun h => { m with heap := h }

/-- A new element is put behind the head of a list. -/
def push (m : Memory) (head request newElem : Addr) : Option Memory :=
  (m.listElem head).bind fun h =>
  (m.malloc newElem (.listElem request h.next)).bind fun m => m.store head (.listElem h.elem newElem)

/-- `add_request_to_list`. -/
def addRequestToList (m : Memory) (request newElem : Addr) : Option Memory :=
  m.push m.requestListHead request newElem

/-- `remove_request_from_list`.  No list is longer than there are live objects. -/
def removeRequestFromList (m : Memory) (request : Addr) : Option Memory :=
  (m.listElem m.requestListHead).bind fun head =>
  (walk m.listElem (fun c => c.elem == request) m.heap.keys.length m.requestListHead head.next).bind fun x =>
  (m.listElem x.1).bind fun previous =>
  (m.listElem x.2).bind fun current =>
  (m.store x.1 (.listElem previous.elem current.next)).bind fun m => m.free x.2

/-- `MPIOPT_Send_init` and `MPIOPT_Recv_init`: the request, the message of `send_rdma_info`, and
the element of the list. -/
def initRequest (m : Memory) (request infoBuf newElem : Addr) : Option Memory :=
  (m.malloc request (.request 0)).bind fun m =>
  (m.malloc infoBuf .buffer).bind fun m =>
  (m.store request (.request infoBuf)).bind fun m => m.addRequestToList request newElem

/-- `MPIOPT_Request_free_internal`. -/
def requestFree (m : Memory) (request newElem : Addr) : Option Memory :=
  (m.removeRequestFromList request).bind fun m => m.push m.toFreeListHead request newElem

/-- `MPIOPT_INIT`. -/
def mpioptInit (requestListHead toFreeListHead : Addr) : Option Memory :=
  ((⟨∅, requestListHead, toFreeListHead⟩ : Memory).malloc requestListHead (.listElem 0 0)).bind fun m =>
    m.malloc toFreeListHead (.listElem 0 0)

/-- What `MPIOPT_FINALIZE` frees with an element of the list. -/
def freeRequest (m : Memory) (req : Addr) : Option Memory :=
  if req = 0 then some m
  else (m.rdmaInfoBuf req).bind fun buf => (m.free buf).bind fun m => m.free req

/-- The loop of `MPIOPT_FINALIZE`. -/
def freeList : Nat → Memory → Addr → Option Memory
  | 0, m, elem => if elem = 0 then some m else none
  | n + 1, m, elem =>
      if elem = 0 then some m
      else (m.listElem elem).bind fun e =>
        (m.freeRequest e.elem).bind fun m => (m.free elem).bind fun m => freeList n m e.next

/-- `MPIOPT_FINALIZE`. -/
def mpioptFinalize (m : Memory) : Option Memory :=
  (m.listElem m.requestListHead).bind fun head =>
    if head.next = 0 then
      (m.free m.requestListHead).bind fun m' => m'.freeList m.heap.keys.length m.toFreeListHead
    else none

end Memory

/-! ### A process with its memory -/

structure Stored where
  history : History
  memory : Memory
  /-- Where the request is: the handle the user has. -/
  addr : Rid → Addr
  /-- `to_free_list_head->next` and what follows. -/
  toFree : List Rid

/-- What a step does, and the addresses that `malloc` finds in it. -/
structure StoredAct where
  act : HistoryAct
  request : Addr
  infoBuf : Addr
  newElem : Addr
deriving DecidableEq, Repr

namespace Stored

/-- What a step does with the memory. -/
def memoryStep (s : Stored) (a : StoredAct) : Option Memory :=
  match a.act with
  | .sendInit _ | .recvInit _ => s.memory.initRequest a.request a.infoBuf a.newElem
  | .free r => s.memory.requestFree (s.addr r) a.newElem
  | _ => some s.memory

/-- What the user and the lists know after a step. -/
def after (s : Stored) (a : StoredAct) (h : History) (m : Memory) : Stored where
  history := h
  memory := m
  addr := match a.act with
    | .sendInit _ | .recvInit _ => Function.update s.addr s.history.proc.nextRid a.request
    | _ => s.addr
  toFree := match a.act with
    | .free r => r :: s.toFree
    | _ => s.toFree

def step (s : Stored) (a : StoredAct) : Option Stored :=
  (s.history.step a.act).bind fun h => (s.memoryStep a).map (s.after a h)

/-- `MPIOPT_INIT` was called. -/
structure Init (s : Stored) : Prop where
  history : History.Init s.history
  memory : ∃ p q, Memory.mpioptInit p q = some s.memory
  toFree : s.toFree = []

/-- The addresses that `malloc` finds are not in use where it is called. -/
structure Fresh (s : Stored) (a : StoredAct) : Prop where
  init : ∀ args, a.act = .sendInit args ∨ a.act = .recvInit args →
    [a.request, a.infoBuf, a.newElem].Nodup ∧
      ∀ p ∈ [a.request, a.infoBuf, a.newElem], p ≠ 0 ∧ p ∉ s.memory.heap
  /-- It may be that of the element that was freed just before. -/
  free : ∀ r m, a.act = .free r → s.memory.removeRequestFromList (s.addr r) = some m →
    a.newElem ≠ 0 ∧ a.newElem ∉ m.heap

/-- From the address `p` on the linked list has the requests `rs`. -/
def Lists (s : Stored) (p : Addr) (rs : List Rid) : Prop :=
  ∃ cells, Chain s.memory.listElem p cells 0 ∧ cells.map Prod.snd = rs.map s.addr

/-- The memory is as the lists of requests say. -/
structure Refines (s : Stored) : Prop where
  requestList : ∃ head, s.memory.listElem s.memory.requestListHead = some head ∧
    s.Lists head.next s.history.proc.requestList
  toFree : ∃ head, s.memory.listElem s.memory.toFreeListHead = some head ∧ s.Lists head.next s.toFree
  /-- Wherever `progress_other_requests` is in its walk, the linked list goes on as it should. -/
  walks : ∀ current rest, .progressOther current rest ∈ s.history.proc.nested → ∃ p, s.Lists p rest
  /-- The memory of every request is kept, whether it was freed or not. -/
  kept : ∀ r < s.history.proc.nextRid, (s.memory.rdmaInfoBuf (s.addr r)).isSome = true
  apart : ∀ q < s.history.proc.nextRid, ∀ r < s.history.proc.nextRid, s.addr q = s.addr r → q = r
  /-- A second `MPIOPT_Request_free` fails an assertion. -/
  twice : ∀ r < s.history.proc.nextRid, r ∉ s.history.proc.requestList →
    ∀ e, s.memory.requestFree (s.addr r) e = none
  /-- Else nothing is undefined, and no assertion fails. -/
  defined : ∀ a, s.Fresh a → (s.history.step a.act).isSome = true → (s.step a).isSome = true

end Stored

end CompMatch.Rendezvous

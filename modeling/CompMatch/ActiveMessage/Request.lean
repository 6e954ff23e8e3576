/-
Requests of the active-message implementation
(`openmpi-patch/one-sided-persistent.c`) and the functions that move their data:
`incoming_am_msg_handler`, `b_send`, `e_send`, `b_recv` and `e_recv`.

`Mode` is the choice between `USE_EAGER` and `USE_RENDEZVOUS`.  As in the rendezvous
files, a function is given by its program points.  The points called `progress` are
the calls of `ucp_worker_progress`: while a function is there, handlers may run, any
number of times.

A buffer is the bytes it holds, and a handle of UCX is the number of the message it
stands for.  `NULL` handles and `MPI_REQUEST_NULL` are `none`.
-/
import Mathlib.Data.List.Basic

namespace CompMatch.ActiveMessage

inductive Mode
  | eager        -- USE_EAGER
  | rendezvous   -- USE_RENDEZVOUS
deriving DecidableEq, Repr

/-- The `type` field of a request. -/
inductive RequestType
  | recv            -- RECV_REQUEST_TYPE
  | send            -- SEND_REQUEST_TYPE
  | sendSearch      -- SEND_REQUEST_TYPE_SEARCH_FOR_RDMA_CONNECTION
  | recvSearch      -- RECV_REQUEST_TYPE_SEARCH_FOR_RDMA_CONNECTION
  | sendFallback    -- SEND_REQUEST_TYPE_USE_FALLBACK
  | recvFallback    -- Recv_REQUEST_TYPE_USE_FALLBACK
deriving DecidableEq, Repr

def RequestType.isRecv : RequestType → Bool
  | .recv | .recvSearch | .recvFallback => true
  | .send | .sendSearch | .sendFallback => false

/-- What the handler is given. -/
structure AmMsg where
  /-- The sender's operation, which nothing in the code reads. -/
  number : Nat
  rndv : Bool       -- UCP_AM_RECV_ATTR_FLAG_RNDV
  length : Nat
  /-- The bytes of an eager message; those of a rendezvous message are still at the sender. -/
  data : List UInt8
deriving DecidableEq, Repr

structure MpioptRequest where
  amId : Nat
  ucxRequestDataTransfer : Option Nat
  buf : List UInt8
  size : Nat
  type : RequestType
  isReadyToRecv : Bool
  /-- A queue of copies when eager, the descriptor of one message otherwise. -/
  listOfPendingMsgs : List AmMsg
  backupRequest : Option Nat
  tag : Int
  dest : Nat
  rdmaExchangeRequest : Option Nat
deriving DecidableEq, Repr

/-- What there was when a Wait on a receive request returned. -/
structure Return where
  number : Nat            -- the operation, counted from the first over active messages
  buf : List UInt8
  ready : Bool            -- is_ready_to_recv
  arrived : Nat           -- how many messages were copied or had their transfer started
  underWay : List Nat     -- the transfers that were not complete
deriving DecidableEq, Repr

/--
What the functions of this file work on: a request, and the transfers into its buffer
that UCX has not completed.  `starts`, `taken` and `returned` record what has happened
and are read by nothing: `starts` counts the calls of Start that reach `b_send` or
`b_recv`, and `taken` has the messages that were copied into the buffer, or whose
transfer into it was started, each with the operation this was in.
-/
structure Local where
  req : MpioptRequest
  transfers : List Nat
  failed : Bool     -- an assertion did not hold
  starts : Nat
  taken : List (Nat × Nat)
  returned : List Return
deriving DecidableEq, Repr

def memcpy (dst src : List UInt8) (n : Nat) : List UInt8 := src.take n ++ dst.drop n

theorem memcpy_of_length {dst src : List UInt8} {n : Nat} (hd : dst.length = n)
    (hs : src.length = n) : memcpy dst src n = src := by
  subst hs
  simp [memcpy, hd]

theorem length_memcpy {dst src : List UInt8} {n : Nat} (hd : dst.length = n)
    (hs : n ≤ src.length) : (memcpy dst src n).length = n := by
  simp [memcpy, hd, hs]

namespace Local

def assert (l : Local) (c : Bool) : Local := { l with failed := l.failed || !c }

def setReady (l : Local) (b : Bool) : Local := { l with req := { l.req with isReadyToRecv := b } }

def setTransfer (l : Local) (h : Option Nat) : Local :=
  { l with req := { l.req with ucxRequestDataTransfer := h } }

def setPending (l : Local) (msgs : List AmMsg) : Local :=
  { l with req := { l.req with listOfPendingMsgs := msgs } }

def setBuf (l : Local) (bytes : List UInt8) : Local := { l with req := { l.req with buf := bytes } }

/-- The message with this number goes into the buffer. -/
def take (l : Local) (number : Nat) : Local := { l with taken := l.taken ++ [(number, l.starts)] }

/-- `memcpy(request->buf, data, request->size)`. -/
def copy (l : Local) (msg : AmMsg) : Local :=
  (l.setBuf (memcpy l.req.buf msg.data l.req.size)).take msg.number

/--
`ucp_am_recv_data_nbx`, with `here` the bytes if the transfer is complete at once.
Then it returns `NULL`.
-/
def recvData (l : Local) (here : Option (List UInt8)) (msg : AmMsg) : Local :=
  match here with
  | some bytes =>
      ((l.setBuf (memcpy l.req.buf bytes l.req.size)).setTransfer none).take msg.number
  | none =>
      { (l.setTransfer (some msg.number)).take msg.number with
        transfers := l.transfers ++ [msg.number] }

/-- The bytes of a transfer have arrived, and it is complete. -/
def land (l : Local) (number : Nat) (bytes : List UInt8) : Local :=
  { l.setBuf (memcpy l.req.buf bytes l.req.size) with transfers := l.transfers.erase number }

/-- The status of the transfer into the buffer is not `UCS_INPROGRESS`. -/
def transferDone (l : Local) : Bool :=
  match l.req.ucxRequestDataTransfer with
  | some h => !l.transfers.contains h
  | none => true

/-- `add_to_list_of_incoming_msg`: a copy of the message goes to the end of the list. -/
def addToListOfIncomingMsg (l : Local) (msg : AmMsg) : Local :=
  l.setPending (l.req.listOfPendingMsgs ++ [{ msg with data := msg.data.take l.req.size }])

/-- `dequeue_from_list_of_incoming_msg`. -/
def dequeueFromListOfIncomingMsg (l : Local) : Local :=
  match l.req.listOfPendingMsgs with
  | msg :: rest => (l.setPending rest).copy msg
  | [] => l.assert false

/-- Start reaches `b_send` or `b_recv`. -/
def countStart (l : Local) : Local := { l with starts := l.starts + 1 }

/-- `e_recv` returns, and Wait with it. -/
def recordReturn (l : Local) : Local :=
  { l with returned := l.returned ++
      [⟨l.starts, l.req.buf, l.req.isReadyToRecv, l.taken.length, l.transfers⟩] }

end Local

/-- `incoming_am_msg_handler`, called with the request as its argument. -/
def incomingAmMsgHandler (mode : Mode) (here : Option (List UInt8)) (msg : AmMsg) (l₀ : Local) :
    Local :=
  let l := l₀.assert (l₀.req.size = msg.length)
  if msg.rndv then
    let l := (l.assert (mode = .rendezvous)).assert l.req.listOfPendingMsgs.isEmpty
    if l.req.isReadyToRecv then
      ((l.assert l.req.ucxRequestDataTransfer.isNone).recvData here msg).setReady false
    else l.setPending [msg]   -- deferred
  else
    let l := l.assert (mode = .eager)
    if l.req.isReadyToRecv then ((l.assert l.req.listOfPendingMsgs.isEmpty).setReady false).copy msg
    else l.addToListOfIncomingMsg msg

/-- Where control goes after a step of a function with points `P`. -/
inductive Outcome (P : Type)
  | goto (p : P)
  /-- `progress_other_requests(request)` is called; `p` is where it returns to. -/
  | progressOther (p : P)
  | ret
deriving DecidableEq, Repr

/-- The program points of `wait_for_completion_blocking`. -/
inductive Blocking
  | progress
  | check                       -- ucp_request_check_status, then progress_other_requests
  | tested (inProgress : Bool)  -- while (status == UCS_INPROGRESS)
deriving DecidableEq, Repr

/-- The program points of `b_send`. -/
inductive SendPoint
  | post       -- ucp_am_send_nbx
  | progress
deriving DecidableEq, Repr

/-- The program points of `b_recv`. -/
inductive RecvPoint
  | progress
  | fetch      -- take a message that is there, or set is_ready_to_recv
deriving DecidableEq, Repr

/-- The program points of `e_send`. -/
inductive SendWait
  | test       -- if (request->ucx_request_data_transfer != NULL)
  | blocking (p : Blocking)
deriving DecidableEq, Repr

/-- The program points of `e_recv`. -/
inductive RecvWait
  | ready      -- USE_EAGER: if (request->is_ready_to_recv)
  | loop       -- while (request->is_ready_to_recv && request->list_of_pending_msgs == NULL)
  | progress
  | dequeue    -- receive msg from queue
  | test       -- USE_RENDEZVOUS: if (request->ucx_request_data_transfer != NULL)
  | blocking (p : Blocking)
deriving DecidableEq, Repr

/-- `done` is what `ucp_request_check_status` says. -/
def waitForCompletionBlocking (done : Bool) : Blocking → Outcome Blocking
  | .progress => .goto .check
  | .check => .progressOther (.tested (!done))
  | .tested true => .goto .progress
  | .tested false => .ret

/--
`imm` says that `ucp_am_send_nbx` completes at once.  The flags a send request is
initialised with make its messages eager or rendezvous.
-/
def bSend (mode : Mode) (imm : Bool) : SendPoint → Local → Outcome SendPoint × Local × Option AmMsg
  | .post, l =>
      (.goto .progress,
        (l.assert l.req.ucxRequestDataTransfer.isNone).setTransfer
          (if imm then none else some l.starts),
        some
          { number := l.starts, rndv := mode = .rendezvous, length := l.req.size,
            data := if mode = .eager then l.req.buf.take l.req.size else [] })
  | .progress, l => (.ret, l, none)

def eSend (done : Bool) : SendWait → Local → Outcome SendWait × Local
  | .test, l =>
      let l := l.assert l.req.backupRequest.isNone
      if l.req.ucxRequestDataTransfer.isSome then (.goto (.blocking .progress), l) else (.ret, l)
  | .blocking p, l =>
      match waitForCompletionBlocking done p with
      | .goto p' => (.goto (.blocking p'), l)
      | .progressOther p' => (.progressOther (.blocking p'), l)
      | .ret => (.ret, l.setTransfer none)

/-- What `b_recv` does after `ucp_worker_progress`. -/
def bRecvFetch (mode : Mode) (here : Option (List UInt8)) (l : Local) : Local :=
  match l.req.listOfPendingMsgs, mode with
  | [], _ => l.setReady true
  | _ :: _, .eager => l.dequeueFromListOfIncomingMsg
  | msg :: _, .rendezvous =>
      ((l.assert l.req.ucxRequestDataTransfer.isNone).recvData here msg).setPending []

def bRecv (mode : Mode) (here : Option (List UInt8)) : RecvPoint → Local → Outcome RecvPoint × Local
  | .progress, l => (.goto .fetch, l)
  | .fetch, l => (.ret, bRecvFetch mode here l)

/-- Where `e_recv` begins. -/
def eRecvEntry : Mode → RecvWait
  | .eager => .ready
  | .rendezvous => .test

def eRecv : RecvWait → Local → Outcome RecvWait × Local
  | .ready, l => if l.req.isReadyToRecv then (.goto .loop, l) else (.ret, l)
  | .loop, l =>
      if l.req.isReadyToRecv && l.req.listOfPendingMsgs.isEmpty then (.goto .progress, l)
      else (.goto .dequeue, l)
  | .progress, l => (.goto .loop, l)
  | .dequeue, l =>
      if l.req.isReadyToRecv then (.ret, (l.setReady false).dequeueFromListOfIncomingMsg)
      else (.ret, l)
  | .test, l =>
      if l.req.ucxRequestDataTransfer.isSome then (.goto (.blocking .progress), l) else (.ret, l)
  | .blocking p, l =>
      match waitForCompletionBlocking l.transferDone p with
      | .goto p' => (.goto (.blocking p'), l)
      | .progressOther p' => (.progressOther (.blocking p'), l)
      | .ret => (.ret, l.setTransfer none)

end CompMatch.ActiveMessage

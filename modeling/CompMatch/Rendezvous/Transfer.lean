/-
Starting and finishing an operation over RDMA: `b_send`, `e_send`, `b_recv`,
`e_recv` and `progress_recv_request`.

Each function is given by its program points.  A step runs from one point to the
next and touches the peer or the worker at most once, so that whatever the other
process does may fall between any two of them: the test of the flag, the load and
the store of `flag++`, each operation handed to UCX and each flush are steps of
their own.

The functions act on one request and on the worker of its process.  `tag` marks an
operation as this request's on a worker that several requests share, and `toEp`
picks out the operations posted to this request's endpoint, the ones its flushes
wait for.
-/
import CompMatch.Lib.OneSided
import CompMatch.Rendezvous.Request

namespace CompMatch.Rendezvous

def rdmaSpinWaitThreshold : Nat := 32

/-- What a function of this file works on. -/
structure Local (Op : Type*) where
  req : MpioptRequest
  worker : Worker Op
  /-- An assertion did not hold. -/
  failed : Bool
deriving DecidableEq, Repr

namespace Local

variable {Op : Type*}

def assert (l : Local Op) (c : Bool) : Local Op := { l with failed := l.failed || !c }

def setFlag (l : Local Op) (v : Int) : Local Op := { l with req := { l.req with flag := v } }

def setFlagBuffer (l : Local Op) (v : Int) : Local Op :=
  { l with req := { l.req with flagBuffer := v } }

def post (l : Local Op) (op : Op) : Local Op := { l with worker := l.worker.post op }

def fence (l : Local Op) : Local Op := { l with worker := l.worker.fence }

def retire (l : Local Op) (i : Nat) : Local Op := { l with worker := l.worker.retire i }

def setDataTransfer (l : Local Op) (h : Option Nat) : Local Op :=
  { l with req := { l.req with ucxRequestDataTransfer := h } }

def setFlagTransfer (l : Local Op) (h : Option Nat) : Local Op :=
  { l with req := { l.req with ucxRequestFlagTransfer := h } }

end Local

/-- The program points of `b_send`, `b_recv` and `progress_recv_request`. -/
inductive Point
  | test             -- if (request->flag == request->operation_number * 2 + 1)
  | load             -- request->flag++, the load
  | store (v : Int)  -- request->flag++, the store
  | data             -- ucp_put_nbi / ucp_get_nbi of the payload
  | fence            -- ucp_worker_fence
  | fill             -- request->flag_buffer = request->operation_number * 2 + 2
  | signal           -- ucp_put_nbi of the flag
  | flush            -- request->ucx_request_data_transfer = ucp_ep_flush_nb
  | fillReady        -- request->flag_buffer = request->operation_number * 2 + 1
  | ready            -- ucp_put_nbi of the flag
  | flushReady       -- request->ucx_request_flag_transfer = ucp_ep_flush_nb
  | progress         -- ucp_worker_progress
deriving DecidableEq, Repr

/-- The program points of `e_send`. -/
inductive SendWait
  | flagTransfer         -- wait_for_completion_blocking(ucx_request_flag_transfer)
  | dataTransfer         -- wait_for_completion_blocking(ucx_request_data_transfer)
  | spin (count : Nat)   -- the busy wait
  | poll                 -- the loop that progresses the other requests
deriving DecidableEq, Repr

/-- The program points of `e_recv`. -/
inductive RecvWait
  | flagTransfer
  | dataTransfer
  | spin (count : Nat)
  | poll
  | crosstalk            -- if (request->flag == request->operation_number * 2 + 1)
  | fetch (p : Point)    -- inside b_recv(request)
  | fetched              -- wait_for_completion_blocking(ucx_request_data_transfer)
deriving DecidableEq, Repr

/-- Where control goes after a step of a function with points `P`. -/
inductive Outcome (P : Type)
  | goto (p : P)
  /-- `progress_other_requests(request)` is called; `p` is where it returns to. -/
  | progressOther (p : P)
  | ret
deriving DecidableEq, Repr

section
variable {Op : Type*} (tag : RdmaOp → Op) (toEp : Op → Bool)

/--
`ucp_ep_flush_nb`: the clock, or `NULL` when the flush is complete at once, which it
can only be with nothing under way.
-/
def ucpEpFlushNb (imm : Bool) (w : Worker Op) : Option Nat :=
  if imm && w.clear toEp w.clock then none else some w.clock

/-- `ucp_request_check_status`, for a flush that may be `NULL`. -/
def flushed (w : Worker Op) : Option Nat → Bool
  | none => true
  | some h => w.clear toEp h

def bSend (imm : Bool) : Point → Local Op → Outcome Point × Local Op
  | .test, l =>
      if l.req.flag = l.req.operationNumber * 2 + 1 then (.goto .load, l) else (.goto .fillReady, l)
  | .load, l => (.goto (.store l.req.flag), l)
  | .store v, l => (.goto .fill, l.setFlag (v + 1))
  | .fill, l =>
      (.goto .data,
        (l.assert (l.req.flag = l.req.operationNumber * 2 + 2)).setFlagBuffer
          (l.req.operationNumber * 2 + 2))
  | .data, l =>
      (.goto .fence,
        l.post (tag (.put l.req.operationNumber l.req.buf l.req.size l.req.remoteDataAddr)))
  | .fence, l => (.goto .signal, l.fence)
  | .signal, l => (.goto .flush, l.post (tag (.flag l.req.operationNumber l.req.remoteFlagAddr)))
  | .flush, l =>
      (.goto .progress,
        (l.assert l.req.ucxRequestDataTransfer.isNone).setDataTransfer
          (ucpEpFlushNb toEp imm l.worker))
  | .fillReady, l => (.goto .ready, l.setFlagBuffer (l.req.operationNumber * 2 + 1))
  | .ready, l =>
      (.goto .flushReady, l.post (tag (.flag l.req.operationNumber l.req.remoteFlagAddr)))
  | .flushReady, l =>
      (.goto .progress,
        (l.assert l.req.ucxRequestFlagTransfer.isNone).setFlagTransfer
          (ucpEpFlushNb toEp imm l.worker))
  | .progress, l => (.ret, l)

/--
What `b_recv` and `progress_recv_request` do once the sender has announced itself.
`checked` says whether the handle is asserted to be `NULL` before it is overwritten;
only `b_recv` asserts that.
-/
def fetchStep (checked imm : Bool) : Point → Local Op → Outcome Point × Local Op
  | .load, l => (.goto (.store l.req.flag), l)
  | .store v, l => (.goto .data, l.setFlag (v + 1))
  | .data, l =>
      (.goto .fence,
        (l.assert (l.req.flag = l.req.operationNumber * 2 + 2)).post
          (tag (.get l.req.operationNumber l.req.buf l.req.size l.req.remoteDataAddr)))
  | .fence, l => (.goto .fill, l.fence)
  | .fill, l => (.goto .signal, l.setFlagBuffer (l.req.operationNumber * 2 + 2))
  | .signal, l => (.goto .flush, l.post (tag (.flag l.req.operationNumber l.req.remoteFlagAddr)))
  | .flush, l =>
      (.goto .progress,
        (l.assert (!checked || l.req.ucxRequestDataTransfer.isNone)).setDataTransfer
          (ucpEpFlushNb toEp imm l.worker))
  | _, l => (.ret, l)

def bRecv (imm : Bool) : Point → Local Op → Outcome Point × Local Op
  | .test, l =>
      if l.req.flag = l.req.operationNumber * 2 + 1 then (.goto .load, l) else (.goto .fillReady, l)
  | .fillReady, l => (.goto .ready, l.setFlagBuffer (l.req.operationNumber * 2 + 1))
  | .ready, l =>
      (.goto .flushReady, l.post (tag (.flag l.req.operationNumber l.req.remoteFlagAddr)))
  | .flushReady, l =>
      (.goto .progress,
        (l.assert l.req.ucxRequestFlagTransfer.isNone).setFlagTransfer
          (ucpEpFlushNb toEp imm l.worker))
  | p, l => fetchStep tag toEp true imm p l

def progressRecvRequest (imm : Bool) : Point → Local Op → Outcome Point × Local Op
  | .test, l =>
      if l.req.flag = l.req.operationNumber * 2 + 1 then (.goto .load, l) else (.goto .progress, l)
  | p, l => fetchStep tag toEp false imm p l

def eSend : SendWait → Local Op → Outcome SendWait × Local Op
  | .flagTransfer, l =>
      if flushed toEp l.worker l.req.ucxRequestFlagTransfer
      then (.goto .dataTransfer, l.setFlagTransfer none) else (.goto .flagTransfer, l)
  | .dataTransfer, l =>
      if flushed toEp l.worker l.req.ucxRequestDataTransfer
      then (.goto (.spin 0), l.setDataTransfer none) else (.goto .dataTransfer, l)
  | .spin count, l =>
      if l.req.flag < l.req.operationNumber * 2 + 2 ∧ count < rdmaSpinWaitThreshold
      then (.goto (.spin (count + 1)), l) else (.goto .poll, l)
  | .poll, l =>
      if l.req.flag < l.req.operationNumber * 2 + 2 then (.progressOther .poll, l) else (.ret, l)

def eRecv (imm : Bool) : RecvWait → Local Op → Outcome RecvWait × Local Op
  | .flagTransfer, l =>
      if flushed toEp l.worker l.req.ucxRequestFlagTransfer
      then (.goto .dataTransfer, l.setFlagTransfer none) else (.goto .flagTransfer, l)
  | .dataTransfer, l =>
      if flushed toEp l.worker l.req.ucxRequestDataTransfer
      then (.goto (.spin 0), l.setDataTransfer none) else (.goto .dataTransfer, l)
  | .spin count, l =>
      if l.req.flag < l.req.operationNumber * 2 + 1 ∧ count < rdmaSpinWaitThreshold
      then (.goto (.spin (count + 1)), l) else (.goto .poll, l)
  | .poll, l =>
      if l.req.flag < l.req.operationNumber * 2 + 1
      then (.progressOther .poll, l) else (.goto .crosstalk, l)
  | .crosstalk, l =>
      if l.req.flag = l.req.operationNumber * 2 + 1 then (.goto (.fetch .test), l) else (.ret, l)
  | .fetch p, l =>
      match bRecv tag toEp imm p l with
      | (.goto p', l') => (.goto (.fetch p'), l')
      | (_, l') => (.goto .fetched, l')
  | .fetched, l =>
      if flushed toEp l.worker l.req.ucxRequestDataTransfer
      then (.ret, l.setDataTransfer none) else (.goto .fetched, l)

end

end CompMatch.Rendezvous

/-
One process with any number of requests.

`Call` is where the process is in the MPIOPT function its user called, and `nested`
is the stack of the functions called from there to progress other requests:
`progress_other_requests` walks the request list, `progress_request_waiting_for_rdma`
may call `receive_rdma_info`, and that calls `progress_other_requests` again, with
another request.  A request can therefore change while it is being waited for.

The process asks MPI and UCX questions that other processes decide: whether a probe
finds a message, whether a test finds a request complete, whether a flush completes
at once.  Every step takes an `Answer`, and tells which MPI call it made.

MPI handles are numbers, given out in order, and `none` is `MPI_REQUEST_NULL`.
`MPI_Test` and `MPI_Wait` set a handle to `MPI_REQUEST_NULL` when it is complete, and
find `MPI_REQUEST_NULL` complete.  The statistics and the buffer checking of debug
builds are left out.
-/
import CompMatch.Rendezvous.Transfer
import Mathlib.Logic.Function.Basic

namespace CompMatch.Rendezvous

/-- A request of the process. -/
abbrev Rid := Nat

/-- What a handshake message says. -/
structure RdmaInfo where
  dataAddr : Addr
  flagAddr : Addr
  dataRkey : Nat
  flagRkey : Nat
deriving DecidableEq, Repr

inductive Comm
  | comm        -- request->comm
  | handshake   -- handshake_communicator
  | response    -- handshake_response_communicator
deriving DecidableEq, Repr

/-- An MPI call made on behalf of a request. -/
inductive MpiCall
  | iprobe (r : Rid) (c : Comm)
  | recv (r : Rid) (c : Comm)     -- MPI_Probe and MPI_Recv of a handshake message
  | issend (r : Rid) (c : Comm)
  | isend (r : Rid)
  | irecv (r : Rid)
  | testBackup (r : Rid)
  | testExchange (r : Rid)
  | waitBackup (r : Rid)
deriving DecidableEq, Repr

/-- What the process is told in a step. -/
structure Answer where
  /-- `ucp_ep_flush_nb` finds nothing to wait for. -/
  imm : Bool
  /-- The flag of `MPI_Iprobe` or `MPI_Test`. -/
  flag : Bool
deriving DecidableEq, Repr

/-- The program points of `start_send_when_searching_for_connection`. -/
inductive StartSendSearch
  | progress   -- progress_request_waiting_for_rdma(request)
  | post       -- MPI_Issend of the payload
deriving DecidableEq, Repr

/-- The program points of `start_recv_when_searching_for_connection`. -/
inductive StartRecvSearch
  | progress   -- progress_request_waiting_for_rdma(request)
  | probe      -- if (request->remote_data_addr == NULL), MPI_Iprobe
  | fallback   -- post the matching recv, the payload is there and the info is not
  | post       -- post the matching recv, if not done already
deriving DecidableEq, Repr

/-- The program points of `wait_send_when_searching_for_connection`. -/
inductive WaitSendSearch
  | progress              -- progress_request_waiting_for_rdma(request)
  | established           -- if (request->remote_data_addr != NULL)
  | test                  -- MPI_Test, then progress_other_requests(request)
  | tested (flag : Bool)  -- while (!flag)
deriving DecidableEq, Repr

/-- The program points of `wait_recv_when_searching_for_connection`. -/
inductive WaitRecvSearch
  | probe (flag : Bool)     -- the first loop's head, MPI_Iprobe, progress_other_requests
  | progress (flag : Bool)  -- progress_request_waiting_for_rdma(request)
  | post                    -- post the matching recv if needed
  | decide                  -- if (request->remote_data_addr == NULL)
  | test                    -- MPI_Test, then progress_other_requests(request)
  | tested (flag : Bool)    -- while (!flag)
deriving DecidableEq, Repr

/-- Where the process is in the function its user called. -/
inductive Call
  | none
  | bSend (r : Rid) (p : Point)
  | bRecv (r : Rid) (p : Point)
  | startSend (r : Rid) (p : StartSendSearch)
  | startRecv (r : Rid) (p : StartRecvSearch)
  | eSend (r : Rid) (w : SendWait)
  | eRecv (r : Rid) (w : RecvWait)
  | waitSend (r : Rid) (p : WaitSendSearch)
  | waitRecv (r : Rid) (p : WaitRecvSearch)
  | mpiWait (r : Rid)       -- MPI_Wait(&request->backup_request)
deriving DecidableEq, Repr

/-- The program points of `progress_request_waiting_for_rdma`. -/
inductive Waiting
  | probe   -- if (request->remote_data_addr == NULL)
  | post    -- post the matching recv
deriving DecidableEq, Repr

/-- The program points of `receive_rdma_info`. -/
inductive ReceiveInfo
  | recv   -- MPI_Probe, MPI_Recv and the reading of the buffer
  | test   -- MPI_Test(&request->rdma_exchange_request_send)
deriving DecidableEq, Repr

/-- A function called to progress requests, and where it is. -/
inductive Frame
  /-- `progress_other_requests(current)`, with the rest of the list. -/
  | progressOther (current : Rid) (rest : List Rid)
  | progressWaiting (r : Rid) (p : Waiting)
  | receiveInfo (r : Rid) (p : ReceiveInfo)
  | progressRecv (r : Rid) (p : Point)
deriving DecidableEq, Repr

structure Proc where
  reqs : Rid → MpioptRequest
  /-- What the handshake message of a request's counterpart says. -/
  counterpart : Rid → RdmaInfo
  /-- `request_list_head->next` and what follows. -/
  requestList : List Rid
  nextRid : Rid
  nextHandle : Nat
  worker : Worker (Rid × RdmaOp)
  /-- The user has started the request and not finished waiting for it. -/
  active : Rid → Bool
  call : Call
  nested : List Frame
  /-- An assertion did not hold. -/
  failed : Bool

def RequestType.isRecv : RequestType → Bool
  | .recv | .recvSearch | .recvFallback => true
  | .send | .sendSearch | .sendFallback => false

def RequestType.isSearch : RequestType → Bool
  | .recvSearch | .sendSearch => true
  | _ => false

namespace Proc

def setReq (p : Proc) (r : Rid) (f : MpioptRequest → MpioptRequest) : Proc :=
  { p with reqs := Function.update p.reqs r (f (p.reqs r)) }

def assert (p : Proc) (c : Bool) : Proc := { p with failed := p.failed || !c }

def setCall (p : Proc) (c : Call) : Proc := { p with call := c }

def setNested (p : Proc) (fs : List Frame) : Proc := { p with nested := fs }

def push (p : Proc) (f : Frame) : Proc := { p with nested := f :: p.nested }

/-- What the functions that move data work on. -/
def loc (p : Proc) (r : Rid) : Local (Rid × RdmaOp) := ⟨p.reqs r, p.worker, p.failed⟩

def setLoc (p : Proc) (r : Rid) (l : Local (Rid × RdmaOp)) : Proc :=
  { p with reqs := Function.update p.reqs r l.req, worker := l.worker, failed := l.failed }

/-- The operation was posted to the endpoint of request `r`. -/
def toEp (p : Proc) (r : Rid) (x : Rid × RdmaOp) : Bool := (p.reqs x.1).dest == (p.reqs r).dest

/-- A nonblocking MPI call that leaves its handle in `backup_request`. -/
def postBackup (p : Proc) (r : Rid) : Proc :=
  { p.setReq r fun q => { q with backupRequest := some p.nextHandle } with
    nextHandle := p.nextHandle + 1 }

/-- The flag of `MPI_Test(&request->backup_request)`. -/
def backupDone (p : Proc) (ans : Answer) (r : Rid) : Bool :=
  (p.reqs r).backupRequest.isNone || ans.flag

def testBackup (p : Proc) (ans : Answer) (r : Rid) : Proc :=
  if p.backupDone ans r then p.setReq r fun q => { q with backupRequest := none } else p

/-- The flag of `MPI_Test(&request->rdma_exchange_request_send)`. -/
def exchangeDone (p : Proc) (ans : Answer) (r : Rid) : Bool :=
  (p.reqs r).rdmaExchangeRequestSend.isNone || ans.flag

def testExchange (p : Proc) (ans : Answer) (r : Rid) : Proc :=
  if p.exchangeDone ans r then p.setReq r fun q => { q with rdmaExchangeRequestSend := none } else p

/-- Where the info of the counterpart arrives. -/
def commToUse (p : Proc) (r : Rid) : Comm :=
  if (p.reqs r).type = .sendSearch then .response else .handshake

/-! ### Progressing requests -/

/-- `progress_request`; the functions it calls are put on the stack. -/
def progressRequest (p : Proc) (ans : Answer) (r : Rid) : Proc × Option MpiCall :=
  match (p.reqs r).type with
  | .send => (p, none)
  | .recv => (p.push (.progressRecv r .test), none)
  | .sendSearch | .recvSearch => (p.push (.progressWaiting r .probe), none)
  | .sendFallback | .recvFallback => (p.testBackup ans r, some (.testBackup r))

/-- `progress_other_requests(r)` is called. -/
def progressOther (p : Proc) (r : Rid) : Proc := p.push (.progressOther r p.requestList)

/-- `progress_recv_request(r)` goes on, or returns. -/
def resumeProgress (p : Proc) (r : Rid) : Outcome Point × Local (Rid × RdmaOp) → Proc
  | (.goto pt, l) => (p.setLoc r l).push (.progressRecv r pt)
  | (_, l) => p.setLoc r l

/-- One step of the topmost function on the stack, with `p.nested` what is below it. -/
def runFrame (p : Proc) (ans : Answer) : Frame → Proc × Option MpiCall
  | .progressOther _ [] => (p, none)
  | .progressOther current (r :: rest) =>
      if r = current then (p.push (.progressOther current rest), none)
      else (p.push (.progressOther current rest)).progressRequest ans r
  | .progressWaiting r .probe =>
      let below := p.push (.progressWaiting r .post)
      if (p.reqs r).remoteDataAddr = 0 then
        let asserted := below.assert (p.reqs r).type.isSearch
        (if ans.flag then asserted.push (.receiveInfo r .recv) else asserted,
          some (.iprobe r (p.commToUse r)))
      else (below, none)
  | .progressWaiting r .post =>
      let q := p.reqs r
      if q.remoteDataAddr ≠ 0 ∧ q.type = .recvSearch ∧ q.backupRequest = none ∧ q.operationNumber = 1
      then (p.postBackup r, some (.irecv r)) else (p, none)
  | .receiveInfo r .recv =>
      let info := p.counterpart r
      let asserted := p.assert (p.reqs r).type.isSearch
      ((asserted.setReq r fun q => { q with
          remoteDataAddr := info.dataAddr
          remoteFlagAddr := info.flagAddr
          remoteDataRkey := info.dataRkey
          remoteFlagRkey := info.flagRkey }).push (.receiveInfo r .test),
        some (.recv r (p.commToUse r)))
  | .receiveInfo r .test =>
      let tested := p.testExchange ans r
      (if p.exchangeDone ans r then tested
        else (tested.push (.receiveInfo r .test)).progressOther r,
        some (.testExchange r))
  | .progressRecv r pt =>
      (p.resumeProgress r (progressRecvRequest (Prod.mk r) (p.toEp r) ans.imm pt (p.loc r)), none)

/-! ### The functions of the interface -/

/-- The call returns. -/
def ret (p : Proc) : Proc := { p with call := .none }

/-- A Wait on `r` returns. -/
def finish (p : Proc) (r : Rid) : Proc :=
  { p with call := .none, active := Function.update p.active r false }

/-- A function that moves data for `r` goes on, calls `progress_other_requests`, or is `done`. -/
def resume {P : Type} (p : Proc) (r : Rid) (next : P → Call) (done : Proc → Proc) :
    Outcome P × Local (Rid × RdmaOp) → Proc
  | (.goto pt, l) => (p.setLoc r l).setCall (next pt)
  | (.progressOther pt, l) => ((p.setLoc r l).setCall (next pt)).progressOther r
  | (.ret, l) => done (p.setLoc r l)

/-- One step of the function the user called. -/
def runCall (p : Proc) (ans : Answer) : Call → Option (Proc × Option MpiCall)
  | .none => none
  | .bSend r pt =>
      some (p.resume r (.bSend r) ret
        (Rendezvous.bSend (Prod.mk r) (p.toEp r) ans.imm pt (p.loc r)), none)
  | .bRecv r pt =>
      some (p.resume r (.bRecv r) ret
        (Rendezvous.bRecv (Prod.mk r) (p.toEp r) ans.imm pt (p.loc r)), none)
  | .eSend r w =>
      some (p.resume r (.eSend r) (·.finish r) (Rendezvous.eSend (p.toEp r) w (p.loc r)), none)
  | .eRecv r w =>
      some (p.resume r (.eRecv r) (·.finish r)
        (Rendezvous.eRecv (Prod.mk r) (p.toEp r) ans.imm w (p.loc r)), none)
  | .startSend r .progress =>
      some (((p.assert ((p.reqs r).operationNumber = 1)).setCall (.startSend r .post)).push
        (.progressWaiting r .probe), none)
  | .startSend r .post =>
      some (((p.assert (p.reqs r).backupRequest.isNone).postBackup r).ret, some (.issend r .comm))
  | .startRecv r .progress =>
      some (((p.assert ((p.reqs r).operationNumber = 1)).setCall (.startRecv r .probe)).push
        (.progressWaiting r .probe), none)
  | .startRecv r .probe =>
      if (p.reqs r).remoteDataAddr = 0 then
        some (if ans.flag then p.setCall (.startRecv r .fallback) else p.ret, some (.iprobe r .comm))
      else some (p.setCall (.startRecv r .post), none)
  | .startRecv r .fallback =>
      some (((p.assert (p.reqs r).backupRequest.isNone).postBackup r).ret, some (.irecv r))
  | .startRecv r .post =>
      if (p.reqs r).backupRequest.isNone then some ((p.postBackup r).ret, some (.irecv r))
      else some (p.ret, none)
  | .waitSend r .progress =>
      some ((p.setCall (.waitSend r .established)).push (.progressWaiting r .probe), none)
  | .waitSend r .established =>
      let q := p.setCall (.waitSend r .test)
      some (if (p.reqs r).remoteDataAddr ≠ 0 then q.setReq r fun q => { q with type := .send } else q,
        none)
  | .waitSend r .test =>
      some (((p.testBackup ans r).setCall (.waitSend r (.tested (p.backupDone ans r)))).progressOther r,
        some (.testBackup r))
  | .waitSend r (.tested flag) =>
      if flag then
        some ((if (p.reqs r).type ≠ .send then p.setReq r fun q => { q with type := .sendFallback }
          else p).finish r, none)
      else some (p.setCall (.waitSend r .progress), none)
  | .waitRecv r (.probe flag) =>
      if (p.reqs r).remoteDataAddr = 0 ∧ flag = false then
        some ((p.setCall (.waitRecv r (.progress ans.flag))).progressOther r, some (.iprobe r .comm))
      else some (p.setCall (.waitRecv r .post), none)
  | .waitRecv r (.progress flag) =>
      some ((p.setCall (.waitRecv r (.probe flag))).push (.progressWaiting r .probe), none)
  | .waitRecv r .post =>
      let q := p.setCall (.waitRecv r .decide)
      if (p.reqs r).backupRequest.isNone then some (q.postBackup r, some (.irecv r)) else some (q, none)
  | .waitRecv r .decide =>
      some ((p.setReq r fun q => { q with
          type := if q.remoteDataAddr = 0 then .recvFallback else .recv }).setCall (.waitRecv r .test),
        none)
  | .waitRecv r .test =>
      some (((p.testBackup ans r).setCall (.waitRecv r (.tested (p.backupDone ans r)))).progressOther r,
        some (.testBackup r))
  | .waitRecv r (.tested flag) =>
      if flag then some (p.finish r, none) else some (p.setCall (.waitRecv r .test), none)
  | .mpiWait r =>
      if p.backupDone ans r then some ((p.testBackup ans r).finish r, some (.waitBackup r))
      else some (p, some (.waitBackup r))

/-- One step of the process: of the topmost function on the stack. -/
def run (p : Proc) (ans : Answer) : Option (Proc × Option MpiCall) :=
  match p.nested with
  | f :: below => some ((p.setNested below).runFrame ans f)
  | [] => p.runCall ans p.call

/-- `MPIOPT_Start_internal`. -/
def start (p : Proc) (r : Rid) : Proc × Option MpiCall :=
  let q := { p.setReq r fun q => { q with operationNumber := q.operationNumber + 1 } with
    active := Function.update p.active r true }
  match (p.reqs r).type with
  | .send => (q.setCall (.bSend r .test), none)
  | .sendSearch => (q.setCall (.startSend r .progress), none)
  | .sendFallback => ((q.assert (q.reqs r).backupRequest.isNone).postBackup r, some (.isend r))
  | .recv => (q.setCall (.bRecv r .test), none)
  | .recvSearch => (q.setCall (.startRecv r .progress), none)
  | .recvFallback => ((q.assert (q.reqs r).backupRequest.isNone).postBackup r, some (.irecv r))

/-- `MPIOPT_Wait_internal`. -/
def wait (p : Proc) (r : Rid) : Proc :=
  match (p.reqs r).type with
  | .send => p.setCall (.eSend r .flagTransfer)
  | .sendSearch => (p.assert ((p.reqs r).operationNumber = 1)).setCall (.waitSend r .progress)
  | .recv => p.setCall (.eRecv r .flagTransfer)
  | .recvSearch => (p.assert ((p.reqs r).operationNumber = 1)).setCall (.waitRecv r (.probe false))
  | .sendFallback | .recvFallback => p.setCall (.mpiWait r)

/-- The arguments of `MPIOPT_Send_init` and `MPIOPT_Recv_init`, and where the request is. -/
structure InitArgs where
  buf : Addr
  size : Nat
  peer : Nat
  tag : Int
  flagAddr : Addr
deriving DecidableEq, Repr

/-- `init_request`, after `memset(request, 0, sizeof(MPIOPT_Request))`. -/
def initRequest (p : Proc) (type : RequestType) (args : InitArgs) (counterpart : RdmaInfo) :
    Proc × Option MpiCall :=
  ({ p with
      reqs := Function.update p.reqs p.nextRid
        { flag := 0, flagBuffer := 0, flagAddr := args.flagAddr, remoteDataAddr := 0,
          remoteFlagAddr := 0, remoteDataRkey := 0, remoteFlagRkey := 0, buf := args.buf,
          size := args.size, ucxRequestDataTransfer := none, ucxRequestFlagTransfer := none,
          operationNumber := 0, type := type, backupRequest := none, tag := args.tag,
          dest := args.peer, rdmaExchangeRequestSend := some p.nextHandle }
      counterpart := Function.update p.counterpart p.nextRid counterpart
      requestList := p.nextRid :: p.requestList
      nextRid := p.nextRid + 1
      nextHandle := p.nextHandle + 1
      active := Function.update p.active p.nextRid false },
    some (.issend p.nextRid (if type = .recvSearch then .response else .handshake)))

/-- `MPIOPT_Request_free_internal`, as far as the list is concerned. -/
def free (p : Proc) (r : Rid) : Proc :=
  let q := p.reqs r
  { p.assert (!(q.type = .recv ∨ q.type = .send) ||
      (q.ucxRequestDataTransfer.isNone && q.ucxRequestFlagTransfer.isNone)) with
    requestList := p.requestList.erase r }

end Proc

end CompMatch.Rendezvous

/-
One process of the active-message implementation, with any number of requests.

`Call` is where the process is in the MPIOPT function its user called, and `nested` what
it called from there to progress other requests: `progress_other_requests` walks the
request list, and `progress_recv_request` starts a receive again that is still ready.

Every step takes an `Answer` of MPI and UCX and tells which MPI call it made.  MPI
handles are numbers, given out in order, and `none` is `MPI_REQUEST_NULL`.  The
statistics, the locks and the buffer checking of other builds are left out, and so are
the messages the process itself sends: their receivers are other processes.
-/
import CompMatch.ActiveMessage.Link

namespace CompMatch.ActiveMessage

/-- A request of the process. -/
abbrev Rid := Nat

/-- An MPI call made on behalf of a request. -/
inductive MpiCall
  | irecvInfo (r : Rid)      -- MPI_Irecv of the AM_ID
  | issendInfo (r : Rid)     -- MPI_Issend of the AM_ID
  | issend (r : Rid)
  | isend (r : Rid)
  | irecv (r : Rid)
  | waitBackup (r : Rid)
  | testExchange (r : Rid)
deriving DecidableEq, Repr

/-- What the process is told in a step. -/
structure Answer where
  /-- What UCX is asked for completes at once. -/
  imm : Bool
  /-- The flag of `MPI_Test`, `MPI_Wait` can return, or a send is complete. -/
  flag : Bool
  /-- What the send buffer at the other end of a request holds. -/
  remote : Rid → List UInt8

/-- The program points of `wait_send_when_searching_for_connection` and its sibling. -/
inductive WaitSearch
  | backup     -- MPI_Wait(&request->backup_request)
  | exchange   -- MPI_Test(&request->rdma_exchange_request)
deriving DecidableEq, Repr

/-- Where the process is in the function its user called. -/
inductive Call
  | none
  | init (r : Rid)       -- in send_rdma_info, before the MPI_Issend
  | bSend (r : Rid) (p : SendPoint)
  | bRecv (r : Rid) (p : RecvPoint)
  | eSend (r : Rid) (w : SendWait)
  | eRecv (r : Rid) (w : RecvWait)
  | waitSend (r : Rid) (p : WaitSearch)
  | waitRecv (r : Rid) (p : WaitSearch)
  | mpiWait (r : Rid)    -- MPI_Wait(&request->backup_request)
deriving DecidableEq, Repr

/-- A function called to progress requests, and where it is. -/
inductive Frame
  /-- `progress_other_requests(current)`, with the rest of the list. -/
  | progressOther (current : Rid) (rest : List Rid)
  /-- `progress_recv_request`, inside `b_recv`. -/
  | progressRecv (r : Rid) (p : RecvPoint)
deriving DecidableEq, Repr

structure Proc where
  reqs : Rid → Local
  /-- `request_list_head->next` and what follows. -/
  requestList : List Rid
  /-- The requests whose handler is registered. -/
  handlers : List Rid
  nextRid : Rid
  nextHandle : Nat
  amTag : Nat
  /-- The user has started the request and not finished waiting for it. -/
  active : Rid → Bool
  call : Call
  nested : List Frame
  /-- An assertion on a handle of MPI did not hold. -/
  failed : Bool

/-- The arguments of `MPIOPT_Send_init` and `MPIOPT_Recv_init`, with what the buffer holds. -/
structure InitArgs where
  buf : List UInt8
  peer : Nat
  tag : Int
deriving DecidableEq, Repr

def Answer.here (ans : Answer) (r : Rid) : Option (List UInt8) :=
  if ans.imm then some (ans.remote r) else none

/-- The function is in `ucp_worker_progress`. -/
def Call.progressing : Call → Bool
  | .init _ | .bSend _ .progress | .bRecv _ .progress | .eSend _ (.blocking .progress)
  | .eRecv _ .progress | .eRecv _ (.blocking .progress) => true
  | _ => false

/-- Where the function is if it is `b_recv` or `e_recv` of `r`. -/
def Call.recvPc (c : Call) (r : Rid) : Option RecvPc :=
  match c with
  | .bRecv r' pt => if r' = r then some (.start pt) else Option.none
  | .eRecv r' w => if r' = r then some (.wait w) else Option.none
  | _ => Option.none

namespace Proc

def setLoc (p : Proc) (r : Rid) (l : Local) : Proc := { p with reqs := Function.update p.reqs r l }

def setReq (p : Proc) (r : Rid) (f : MpioptRequest → MpioptRequest) : Proc :=
  p.setLoc r { p.reqs r with req := f (p.reqs r).req }

def assert (p : Proc) (c : Bool) : Proc := { p with failed := p.failed || !c }

def setCall (p : Proc) (c : Call) : Proc := { p with call := c }

def setNested (p : Proc) (fs : List Frame) : Proc := { p with nested := fs }

def push (p : Proc) (f : Frame) : Proc := { p with nested := f :: p.nested }

def type (p : Proc) (r : Rid) : RequestType := (p.reqs r).req.type

/-- Handlers may run. -/
def progressing (p : Proc) : Bool :=
  match p.nested with
  | .progressRecv _ .progress :: _ => true
  | _ :: _ => false
  | [] => p.call.progressing

/-- The `ucp_worker_progress` at the head of `b_recv` is running, called for `r`. -/
def inBRecv (p : Proc) (r : Rid) : Prop :=
  (∃ below, p.nested = .progressRecv r .progress :: below) ∨
    (p.nested = [] ∧ p.call = .bRecv r .progress)

/-- A nonblocking MPI call that leaves its handle in `backup_request`. -/
def postBackup (p : Proc) (r : Rid) : Proc :=
  { p.setReq r fun q => { q with backupRequest := some p.nextHandle } with
    nextHandle := p.nextHandle + 1 }

/-- `MPI_Wait(&request->backup_request)` can return. -/
def backupDone (p : Proc) (ans : Answer) (r : Rid) : Bool :=
  (p.reqs r).req.backupRequest.isNone || ans.flag

/-- The flag of `MPI_Test(&request->rdma_exchange_request)`. -/
def exchangeDone (p : Proc) (ans : Answer) (r : Rid) : Bool :=
  (p.reqs r).req.rdmaExchangeRequest.isNone || ans.flag

/-! ### Progressing requests -/

/-- `progress_request`; the functions it calls are put on the stack. -/
def progressRequest (p : Proc) (r : Rid) : Proc :=
  match p.type r with
  | .recv => if (p.reqs r).req.isReadyToRecv then p.push (.progressRecv r .progress) else p
  | .send | .sendSearch | .recvSearch | .sendFallback | .recvFallback => p

/-- `progress_other_requests(r)` is called. -/
def progressOther (p : Proc) (r : Rid) : Proc := p.push (.progressOther r p.requestList)

/-- One step of the topmost function on the stack, with `p.nested` what is below it. -/
def runFrame (mode : Mode) (p : Proc) (ans : Answer) : Frame → Proc
  | .progressOther _ [] => p
  | .progressOther current (r :: rest) =>
      let q := p.push (.progressOther current rest)
      if r = current then q else q.progressRequest r
  | .progressRecv r pt =>
      match bRecv mode (ans.here r) pt (p.reqs r) with
      | (.goto pt', l) => (p.setLoc r l).push (.progressRecv r pt')
      | (_, l) => p.setLoc r l

/-! ### The functions of the interface -/

/-- The call returns. -/
def ret (p : Proc) : Proc := { p with call := .none }

/-- A Wait on `r` returns. -/
def finish (p : Proc) (r : Rid) : Proc :=
  { p with call := .none, active := Function.update p.active r false }

/-- One step of the function the user called. -/
def runCall (mode : Mode) (p : Proc) (ans : Answer) : Call → Option (Proc × Option MpiCall)
  | .none => none
  | .init r =>
      let q := p.setReq r fun q => { q with rdmaExchangeRequest := some p.nextHandle }
      some ({ q with
          nextHandle := p.nextHandle + 1, requestList := r :: p.requestList, call := .none },
        some (.issendInfo r))
  | .bSend r pt =>
      match bSend mode ans.imm pt (p.reqs r) with
      | (.goto pt', l, _) => some ((p.setLoc r l).setCall (.bSend r pt'), none)
      | (_, l, _) => some ((p.setLoc r l).ret, none)
  | .bRecv r pt =>
      match bRecv mode (ans.here r) pt (p.reqs r) with
      | (.goto pt', l) => some ((p.setLoc r l).setCall (.bRecv r pt'), none)
      | (_, l) => some ((p.setLoc r l).ret, none)
  | .eSend r w =>
      match eSend ans.flag w (p.reqs r) with
      | (.goto w', l) => some ((p.setLoc r l).setCall (.eSend r w'), none)
      | (.progressOther w', l) =>
          some (((p.setLoc r l).setCall (.eSend r w')).progressOther r, none)
      | (.ret, l) => some ((p.setLoc r l).finish r, none)
  | .eRecv r w =>
      match eRecv w (p.reqs r) with
      | (.goto w', l) => some ((p.setLoc r l).setCall (.eRecv r w'), none)
      | (.progressOther w', l) =>
          some (((p.setLoc r l).setCall (.eRecv r w')).progressOther r, none)
      | (.ret, l) => some ((p.setLoc r l.recordReturn).finish r, none)
  | .waitSend r .backup =>
      if p.backupDone ans r then
        some ((p.setReq r fun q => { q with backupRequest := none }).setCall (.waitSend r .exchange),
          some (.waitBackup r))
      else some (p, none)
  | .waitSend r .exchange =>
      some ((p.setReq r fun q =>
          if p.exchangeDone ans r then { q with type := .send, rdmaExchangeRequest := none }
          else { q with type := .sendFallback }).finish r,
        some (.testExchange r))
  | .waitRecv r .backup =>
      if p.backupDone ans r then
        some ((p.setReq r fun q => { q with backupRequest := none }).setCall (.waitRecv r .exchange),
          some (.waitBackup r))
      else some (p, none)
  | .waitRecv r .exchange =>
      some ((p.setReq r fun q =>
          if p.exchangeDone ans r then { q with type := .recv, rdmaExchangeRequest := none }
          else { q with type := .recvFallback }).finish r,
        some (.testExchange r))
  | .mpiWait r =>
      if p.backupDone ans r then
        some ((p.setReq r fun q => { q with backupRequest := none }).finish r, some (.waitBackup r))
      else some (p, none)

/-- One step of the process: of the topmost function on the stack. -/
def run (mode : Mode) (p : Proc) (ans : Answer) : Option (Proc × Option MpiCall) :=
  match p.nested with
  | f :: below => some ((p.setNested below).runFrame mode ans f, none)
  | [] => p.runCall mode ans p.call

/-- `MPIOPT_Start_internal`. -/
def start (p : Proc) (r : Rid) : Proc × Option MpiCall :=
  let q := { p with active := Function.update p.active r true }
  match p.type r with
  | .send => ((q.setLoc r (p.reqs r).countStart).setCall (.bSend r .post), none)
  | .sendSearch =>
      ((q.assert (p.reqs r).req.backupRequest.isNone).postBackup r, some (.issend r))
  | .sendFallback =>
      ((q.assert (p.reqs r).req.backupRequest.isNone).postBackup r, some (.isend r))
  | .recv => ((q.setLoc r (p.reqs r).countStart).setCall (.bRecv r .progress), none)
  | .recvSearch => (q.postBackup r, some (.irecv r))
  | .recvFallback =>
      ((q.assert (p.reqs r).req.backupRequest.isNone).postBackup r, some (.irecv r))

/-- `MPIOPT_Wait_internal`. -/
def wait (mode : Mode) (p : Proc) (r : Rid) : Proc :=
  match p.type r with
  | .send => p.setCall (.eSend r .test)
  | .sendSearch => p.setCall (.waitSend r .backup)
  | .recv => p.setCall (.eRecv r (eRecvEntry mode))
  | .recvSearch => p.setCall (.waitRecv r .backup)
  | .sendFallback | .recvFallback => p.setCall (.mpiWait r)

/-- A request as `init_request` fills it in, but for `send_rdma_info`. -/
def blankRequest (type : RequestType) (args : InitArgs) : Local where
  req :=
    { amId := 0, ucxRequestDataTransfer := none, buf := args.buf, size := args.buf.length,
      type := type, isReadyToRecv := false, listOfPendingMsgs := [], backupRequest := none,
      tag := args.tag, dest := args.peer, rdmaExchangeRequest := none }
  transfers := []
  failed := false
  starts := 0
  taken := []
  returned := []

/-- `MPIOPT_Send_init`. -/
def sendInit (p : Proc) (args : InitArgs) : Proc × Option MpiCall :=
  let q := { p with
    nextRid := p.nextRid + 1, nextHandle := p.nextHandle + 1
    requestList := p.nextRid :: p.requestList
    active := Function.update p.active p.nextRid false }
  let l := blankRequest .sendSearch args
  (q.setLoc p.nextRid { l with req := { l.req with rdmaExchangeRequest := some p.nextHandle } },
    some (.irecvInfo p.nextRid))

/-- `MPIOPT_Recv_init`, up to the `ucp_worker_progress` in `send_rdma_info`. -/
def recvInit (p : Proc) (args : InitArgs) : Proc :=
  let q := { p with
    nextRid := p.nextRid + 1, amTag := p.amTag + 1, handlers := p.nextRid :: p.handlers
    active := Function.update p.active p.nextRid false, call := .init p.nextRid }
  let l := blankRequest .recvSearch args
  q.setLoc p.nextRid { l with req := { l.req with amId := p.amTag } }

/-- `MPIOPT_Request_free_internal`. -/
def free (p : Proc) (r : Rid) : Proc :=
  { p with
    requestList := p.requestList.erase r
    handlers := if p.type r = .recv then p.handlers.erase r else p.handlers }

/-- The user may call a function. -/
def Free (p : Proc) : Prop := p.call = .none ∧ p.nested = []

instance (p : Proc) : Decidable p.Free := inferInstanceAs (Decidable (_ ∧ _))

/-- Where the process is with receive request `r`, as far as active messages are concerned. -/
def recvPc (p : Proc) (r : Rid) : RecvPc :=
  (p.call.recvPc r).getD (if p.active r = true ∧ p.type r = .recv then .started else .idle)

end Proc

end CompMatch.ActiveMessage

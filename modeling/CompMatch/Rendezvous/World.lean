/-
One process and the senders its receive requests are connected to.

The process is `Proc`, with all its requests.  For each receive request there is the
matching send request of another process, from its second operation on: the first one
goes over MPI and the handshake.  That sender goes through `b_send` and `e_send` as in
`Pair.lean`, on a worker of its own.  A worker it shares with other requests would
only order more operations and let its flushes wait for more.

MPI answers the process as it likes.  So it finds handshake messages, payloads and
completed requests at any time and in any order, and nothing here depends on when.
The flags of receive requests are written by their senders; those of send requests by
anyone, with anything.
-/
import CompMatch.Rendezvous.Pair
import CompMatch.Rendezvous.Process

namespace CompMatch.Rendezvous

/-- The sender a receive request is connected to. -/
structure Peer where
  pc : SendPc
  loc : Local RdmaOp

/-- A sender whose next operation over RDMA is its second. -/
def Peer.connected (args : Proc.InitArgs) (info : RdmaInfo) (size : Nat) : Peer where
  pc := .idle
  loc :=
    { req :=
        { flag := 0, flagBuffer := 0, flagAddr := info.flagAddr, remoteDataAddr := args.buf,
          remoteFlagAddr := args.flagAddr, remoteDataRkey := 0, remoteFlagRkey := 0,
          buf := info.dataAddr, size := size, ucxRequestDataTransfer := none,
          ucxRequestFlagTransfer := none, operationNumber := 1, type := .send,
          backupRequest := none, tag := args.tag, dest := 0, rdmaExchangeRequestSend := none }
      worker := .idle
      failed := false }

structure World where
  proc : Proc
  peers : Rid → Peer
  /-- The payload transfers into a request's buffer that took effect, each with its operation. -/
  landed : Rid → List (Int × Transfer)

inductive WorldAct
  | sendInit (args : Proc.InitArgs) (info : RdmaInfo)
  | recvInit (args : Proc.InitArgs) (info : RdmaInfo) (size : Nat)
  | start (r : Rid)
  | wait (r : Rid)
  | free (r : Rid)
  | run (ans : Answer)
  | lands (i : Nat)
  /-- Another process writes the flag of a send request. -/
  | writeFlag (r : Rid) (v : Int)
  | peerStart (r : Rid)
  | peerWait (r : Rid)
  | peerRun (r : Rid) (imm : Bool)
  | peerLands (r : Rid) (i : Nat)

namespace World

def setProc (w : World) (p : Proc) : World := { w with proc := p }

def setPeer (w : World) (r : Rid) (q : Peer) : World :=
  { w with peers := Function.update w.peers r q }

def record (w : World) (r : Rid) (x : Int × Transfer) : World :=
  { w with landed := Function.update w.landed r (w.landed r ++ [x]) }

/-- The effect of an operation the process posted for request `r`. -/
def land (w : World) (r : Rid) : RdmaOp → World
  | .put _ _ _ _ => w
  | .get number dst _ _ => if dst = (w.proc.reqs r).buf then w.record r (number, .get) else w
  | .flag _ dst =>
      if dst = (w.peers r).loc.req.flagAddr then
        w.setPeer r { w.peers r with
          loc := (w.peers r).loc.setFlag (w.proc.reqs r).flagBuffer }
      else w

/-- The effect of an operation the sender of request `r` posted. -/
def landPeer (w : World) (r : Rid) : RdmaOp → World
  | .put number _ _ dst => if dst = (w.proc.reqs r).buf then w.record r (number, .put) else w
  | .get _ _ _ _ => w
  | .flag _ dst =>
      if dst = (w.proc.reqs r).flagAddr then
        w.setProc (w.proc.setReq r fun q => { q with flag := (w.peers r).loc.req.flagBuffer })
      else w

/-- The user may call a function. -/
def Free (w : World) : Prop := w.proc.call = .none ∧ w.proc.nested = []

instance (w : World) : Decidable w.Free := inferInstanceAs (Decidable (_ ∧ _))

def step (w : World) : WorldAct → Option World
  | .sendInit args info =>
      if w.Free then some (w.setProc (w.proc.initRequest .sendSearch args info).1) else none
  | .recvInit args info size =>
      if w.Free then
        some ((w.setProc (w.proc.initRequest .recvSearch args info).1).setPeer w.proc.nextRid
          (.connected args info size))
      else none
  | .start r =>
      if w.Free ∧ r ∈ w.proc.requestList ∧ w.proc.active r = false
      then some (w.setProc (w.proc.start r).1) else none
  | .wait r =>
      if w.Free ∧ r ∈ w.proc.requestList ∧ w.proc.active r = true
      then some (w.setProc (w.proc.wait r)) else none
  | .free r =>
      if w.Free ∧ r ∈ w.proc.requestList ∧ w.proc.active r = false
      then some (w.setProc (w.proc.free r)) else none
  | .run ans =>
      match w.proc.run ans with
      | some (p, _) => some (w.setProc p)
      | none => none
  | .lands i =>
      match w.proc.worker.enabled? i with
      | some x =>
          some ((w.setProc { w.proc with worker := w.proc.worker.retire i }).land x.op.1 x.op.2)
      | none => none
  | .writeFlag r v =>
      if (w.proc.reqs r).type.isRecv then none
      else some (w.setProc (w.proc.setReq r fun q => { q with flag := v }))
  | .peerStart r =>
      let q := w.peers r
      if q.pc = .idle ∧ r < w.proc.nextRid then
        some (w.setPeer r { q with pc := .start .test, loc := q.loc.countStart }) else none
  | .peerWait r =>
      let q := w.peers r
      if q.pc = .started ∧ r < w.proc.nextRid then
        some (w.setPeer r { q with pc := .wait .flagTransfer }) else none
  | .peerRun r imm =>
      let q := w.peers r
      match sendRun imm q.pc q.loc with
      | some (pc, l) => if r < w.proc.nextRid then some (w.setPeer r ⟨pc, l⟩) else none
      | none => none
  | .peerLands r i =>
      let q := w.peers r
      match q.loc.worker.enabled? i with
      | some x =>
          if r < w.proc.nextRid then
            some ((w.setPeer r { q with loc := q.loc.retire i }).landPeer r x.op)
          else none
      | none => none

/-- What a step of the code is. -/
theorem step_code {w w' : World} {ans : Answer} (hs : w.step (.run ans) = some w') :
    ∃ p c, w.proc.run ans = some (p, c) ∧ w' = w.setProc p := by
  simp only [step] at hs
  split at hs <;> simp only [reduceCtorEq, Option.some.injEq] at hs
  rename_i p c hrun
  exact ⟨p, c, hrun, hs.symm⟩

/-- No request was initialised yet. -/
structure Init (w : World) : Prop where
  requestList : w.proc.requestList = []
  nextRid : w.proc.nextRid = 0
  call : w.proc.call = .none
  nested : w.proc.nested = []
  worker : w.proc.worker = .idle
  landed : ∀ r, w.landed r = []

end World

end CompMatch.Rendezvous

/-
What the requests of a process hold, and when it is given back.

`send_rdma_info` maps the buffer and the flag of a request and allocates the message that
is sent; `receive_rdma_info` unpacks the keys of the counterpart's two regions.  The
region and the key of the data are given back by `MPIOPT_Request_free`, those of the flag
and the message by `MPIOPT_FINALIZE`, and all but the message only if the request has type
`RECV_REQUEST_TYPE` or `SEND_REQUEST_TYPE`.

An operation of UCX uses the key it is posted with, and the region it works on, until it
takes effect.  So there are entries where it is posted and where it takes effect.  The
regions of a receive request are used by its sender, and those of the sender by the
process; the sender has gone through its handshake when the receive request is
initialised.  Whoever receives from a send request of the process is a process like this
one, with the sender as a peer.

`MPIOPT_FINALIZE` begins with `MPI_Win_free`, which no process leaves before all have
called it.
-/
import CompMatch.Lib.Ledger
import CompMatch.Rendezvous.FlagBuffer

namespace CompMatch.Rendezvous

open CompMatch.Ledger

/-- Who holds a resource. -/
inductive Holder
  | own    -- the process's
  | peer   -- of the sender of one of its receive requests
deriving DecidableEq, Repr

inductive Resource
  | dataRegion (s : Holder) (r : Rid)           -- mem_handle_data
  | flagRegion (s : Holder) (r : Rid)           -- mem_handle_flag
  | dataRkey (s : Holder) (r : Rid) (k : Nat)   -- remote_data_rkey, when it was unpacked the k-th time
  | flagRkey (s : Holder) (r : Rid) (k : Nat)   -- remote_flag_rkey
  | infoBuf (s : Holder) (r : Rid)              -- rdma_info_buf
deriving DecidableEq, Repr

/-- What `send_rdma_info` acquires. -/
def Holder.sendRdmaInfo (s : Holder) (r : Rid) : List Resource :=
  [.dataRegion s r, .flagRegion s r, .infoBuf s r]

/-- What `receive_rdma_info` acquires. -/
def Holder.receiveRdmaInfo (s : Holder) (r : Rid) (k : Nat) : List Resource :=
  [.dataRkey s r k, .flagRkey s r k]

/-- `RECV_REQUEST_TYPE` or `SEND_REQUEST_TYPE`. -/
def RequestType.isRdma : RequestType → Bool
  | .recv | .send => true
  | _ => false

/-- What `MPIOPT_Request_free_internal` releases. -/
def Holder.requestFree (s : Holder) (type : RequestType) (r : Rid) (k : Nat) : List Resource :=
  if type.isRdma then [.dataRegion s r, .dataRkey s r k] else []

/-- What `MPIOPT_FINALIZE` releases of a request in `to_free_list`. -/
def Holder.finalize (s : Holder) (type : RequestType) (r : Rid) (k : Nat) : List Resource :=
  .infoBuf s r :: if type.isRdma then [.flagRegion s r, .flagRkey s r k] else []

/-- The key an operation is posted with. -/
def RdmaOp.rkey (s : Holder) (r : Rid) (k : Nat) : RdmaOp → Resource
  | .put _ _ _ _ | .get _ _ _ _ => .dataRkey s r k
  | .flag _ _ => .flagRkey s r k

/-- The region an operation works on. -/
def RdmaOp.region (s : Holder) (r : Rid) : RdmaOp → Resource
  | .put _ _ _ _ | .get _ _ _ _ => .dataRegion s r
  | .flag _ _ => .flagRegion s r

/-- The operations a step has posted. -/
def posted {Op : Type*} (w w' : Worker Op) : List Op :=
  (w'.pending.drop w.pending.length).map (·.op)

structure Accounts where
  world : World
  /-- How many messages `receive_rdma_info` has received for the request. -/
  unpacked : Rid → Nat
  /-- `to_free_list_head->next` and what follows. -/
  toFree : List Rid
  /-- The sender of the receive request has called `MPIOPT_Request_free`. -/
  peerFreed : Rid → Bool
  finalized : Bool
  ledger : List (Entry Resource)

inductive AccountsAct
  | world (act : WorldAct)
  | peerFree (r : Rid)   -- the sender of receive request `r` frees its request
  | finalize             -- MPIOPT_FINALIZE, in all processes

namespace Accounts

def reqs (s : Accounts) (r : Rid) : MpioptRequest := s.world.proc.reqs r

/-- The receive requests of the process. -/
def receivers (s : Accounts) : List Rid :=
  (List.range s.world.proc.nextRid).filter fun r => (s.reqs r).type.isRecv

/-- What the process's users and the other processes may do. -/
def permits (s : Accounts) : WorldAct → Bool
  | .sendInit _ _ | .recvInit _ _ _ => !s.finalized
  | .writeFlag r _ => !s.finalized && decide (r < s.world.proc.nextRid)
  | .peerStart r => decide (r ∈ s.receivers) && !s.peerFreed r
  | .peerWait r | .peerRun r _ | .peerLands r _ => decide (r ∈ s.receivers)
  | _ => true

/-- The request whose message a step of the process receives. -/
def receives (s : Accounts) : WorldAct → Option Rid
  | .run ans =>
      match (s.world.proc.run ans).bind (·.2) with
      | some (.recv r _) => some r
      | _ => none
  | _ => none

/-- What a step does with resources. -/
def entries (s : Accounts) (w : World) (act : WorldAct) : List (Entry Resource) :=
  let p := s.world.proc
  match act with
  | .sendInit _ _ => (Holder.own.sendRdmaInfo p.nextRid).map .acquire
  | .recvInit _ _ _ =>
      (Holder.own.sendRdmaInfo p.nextRid ++ Holder.peer.sendRdmaInfo p.nextRid ++
        Holder.peer.receiveRdmaInfo p.nextRid 1).map .acquire
  | .free r => (Holder.own.requestFree (p.reqs r).type r (s.unpacked r)).map .release
  | .run _ =>
      match s.receives act with
      | some r => (Holder.own.receiveRdmaInfo r (s.unpacked r + 1)).map .acquire
      | none =>
          ((posted p.worker w.proc.worker).map fun x => x.2.rkey .own x.1 (s.unpacked x.1)).map .use
  | .lands i =>
      match p.worker.enabled? i with
      | some x =>
          (x.op.2.rkey .own x.op.1 (s.unpacked x.op.1) ::
            if (p.reqs x.op.1).type.isRecv then [x.op.2.region .peer x.op.1] else []).map .use
      | none => []
  | .writeFlag r _ => [.use (.flagRegion .own r)]
  | .peerRun r _ =>
      ((posted (s.world.peers r).loc.worker (w.peers r).loc.worker).map (·.rkey .peer r 1)).map .use
  | .peerLands r i =>
      match (s.world.peers r).loc.worker.enabled? i with
      | some x => [x.op.rkey .peer r 1, x.op.region .own r].map .use
      | none => []
  | _ => []

/-- What `MPIOPT_FINALIZE` releases. -/
def finalizeEntries (s : Accounts) : List (Entry Resource) :=
  (s.toFree.flatMap (fun r => Holder.own.finalize (s.reqs r).type r (s.unpacked r)) ++
    s.receivers.flatMap fun r => Holder.peer.finalize .send r 1).map .release

/-- The world goes on as `w`. -/
def follow (s : Accounts) (w : World) (act : WorldAct) : Accounts :=
  { s with
    world := w
    unpacked := fun r => if s.receives act = some r then s.unpacked r + 1 else s.unpacked r
    toFree := match act with
      | .free r => r :: s.toFree
      | _ => s.toFree
    ledger := s.ledger ++ s.entries w act }

def step (s : Accounts) : AccountsAct → Option Accounts
  | .world act =>
      match s.world.step act with
      | some w => if s.permits act then some (s.follow w act) else none
      | none => none
  | .peerFree r =>
      if r ∈ s.receivers ∧ (s.world.peers r).pc = .idle ∧ s.peerFreed r = false then
        some { s with
          peerFreed := Function.update s.peerFreed r true
          ledger := s.ledger ++ (Holder.peer.requestFree .send r 1).map .release }
      else none
  | .finalize =>
      if s.world.Free ∧ s.world.proc.requestList = [] ∧ s.finalized = false ∧
          ∀ r ∈ s.receivers, s.peerFreed r = true then
        some { s with finalized := true, ledger := s.ledger ++ s.finalizeEntries }
      else none

/-- No request was initialised yet. -/
structure Init (s : Accounts) : Prop where
  world : World.Init s.world
  unpacked : ∀ r, s.unpacked r = 0
  toFree : s.toFree = []
  peerFreed : ∀ r, s.peerFreed r = false
  finalized : s.finalized = false
  ledger : s.ledger = []

/-- The resources are accounted for. -/
structure Accounted (s : Accounts) : Prop where
  /-- Nothing is released twice, or used after its release. -/
  kept : Ledger.Kept s.ledger
  /-- After `MPIOPT_FINALIZE` everything was released exactly once. -/
  settled : s.finalized = true → Ledger.Settled s.ledger
  /-- The message is not freed while `MPI_Issend` may read it. -/
  sent : ∀ r, .release (.infoBuf .own r) ∈ s.ledger → (s.reqs r).rdmaExchangeRequestSend = none

end Accounts

end CompMatch.Rendezvous

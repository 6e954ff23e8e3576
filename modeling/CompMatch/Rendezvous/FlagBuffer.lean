/-
The word that flag puts are read from.

A request has one `flag_buffer`.  The put that announces the request and the put that
tells the peer that the payload is over both read it, whenever UCX gets to them.  So a
put delivers what it was issued with only if nobody writes the word while the put is
under way.

`fills` says which request's word the next step of a process writes.  A put that is
under way is one whose flush cannot be complete; a flush that is complete is what the
code can know about it.
-/
import CompMatch.Rendezvous.World

namespace CompMatch.Rendezvous

/-- The operation is read from `flag_buffer`. -/
def RdmaOp.isFlag : RdmaOp → Bool
  | .flag _ _ => true
  | _ => false

/-- `flag_buffer` is written at this point. -/
def Point.fills : Point → Bool
  | .fill | .fillReady => true
  | _ => false

/-- The request whose `flag_buffer` the next step of the process writes. -/
def Proc.fills (p : Proc) : Option Rid :=
  match p.nested with
  | .progressRecv r pt :: _ => if pt.fills then some r else none
  | _ :: _ => none
  | [] =>
      match p.call with
      | .bSend r pt | .bRecv r pt | .eRecv r (.fetch pt) => if pt.fills then some r else none
      | _ => none

/-- The next step of the sender writes its `flag_buffer`. -/
def SendPc.fills : SendPc → Bool
  | .start pt => pt.fills
  | _ => false

/-- The request may write its `flag_buffer`: no put is under way that reads it, and the flushes the
request holds handles of are complete. -/
structure Proc.FlagFlushed (p : Proc) (r : Rid) : Prop where
  landed : ∀ x ∈ p.worker.pending, x.op.1 = r → x.op.2.isFlag = false
  dataTransfer : flushed (p.toEp r) p.worker (p.reqs r).ucxRequestDataTransfer = true
  flagTransfer : flushed (p.toEp r) p.worker (p.reqs r).ucxRequestFlagTransfer = true

structure Peer.FlagFlushed (q : Peer) : Prop where
  landed : ∀ x ∈ q.loc.worker.pending, x.op.isFlag = false
  dataTransfer : flushed oneEp q.loc.worker q.loc.req.ucxRequestDataTransfer = true
  flagTransfer : flushed oneEp q.loc.worker q.loc.req.ucxRequestFlagTransfer = true

namespace World

/-- What the single word of a request must not do. -/
structure FlagBufferSafe (w : World) : Prop where
  /-- It is not written while a put that reads it is not flushed. -/
  unwritten : ∀ r, w.proc.fills = some r → w.proc.FlagFlushed r
  /-- Nor is that of a sender a receive request is connected to. -/
  peerUnwritten : ∀ r < w.proc.nextRid, (w.proc.reqs r).type.isRecv = true →
    (w.peers r).pc.fills = true → (w.peers r).FlagFlushed
  /-- A sender's flag reaches `2 * n + 2` by the sender's own `flag++`, or after the get of operation
  `n`. -/
  finished : ∀ act w' r n, w.step act = some w' → r < w.proc.nextRid →
    (w.proc.reqs r).type = .recv ∨ (w.proc.reqs r).type = .recvSearch →
    (w'.peers r).loc.req.flag ≠ (w.peers r).loc.req.flag → (w'.peers r).loc.req.flag = 2 * n + 2 →
    (n, .get) ∈ w.landed r ∨ ∃ imm v, act = .peerRun r imm ∧ (w.peers r).pc = .start (.store v)

/-- A put that is under way in both states would deliver the same value in both: from where it was
issued to where it takes effect, the word it reads is the same. -/
structure SameValues (w w' : World) : Prop where
  own : ∀ x ∈ w.proc.worker.pending, x ∈ w'.proc.worker.pending → x.op.2.isFlag = true →
    (w'.proc.reqs x.op.1).flagBuffer = (w.proc.reqs x.op.1).flagBuffer
  peer : ∀ r < w.proc.nextRid, (w.proc.reqs r).type.isRecv = true →
    ∀ x ∈ (w.peers r).loc.worker.pending, x ∈ (w'.peers r).loc.worker.pending → x.op.isFlag = true →
    (w'.peers r).loc.req.flagBuffer = (w.peers r).loc.req.flagBuffer

/-- `progress_recv_request` goes into its branch for a request only when the flush of that request's
own announcement is complete. -/
def AnnouncementFlushed (w : World) (act : WorldAct) : Prop :=
  ∀ ans r below, act = .run ans → w.proc.nested = .progressRecv r .test :: below →
    (w.proc.reqs r).flag = (w.proc.reqs r).operationNumber * 2 + 1 →
    flushed (w.proc.toEp r) w.proc.worker (w.proc.reqs r).ucxRequestFlagTransfer = true

end World

end CompMatch.Rendezvous

/-
The bytes that operations carry.

`ByteWorld` is a `World` with memory: that of the process, and for each receive request
that of the process its sender is in.  An operation carries its payload over MPI, by the
sender's put or by the receiver's get.  MPI carries the first one, and all of them once
both sides have fallen back.

Three things are as MPI has them.  A test finds a receive complete only when its message
is in the buffer.  A user leaves the buffers of operations that are not over alone, and
does not receive into one place twice at a time.  A sender has started its second
operation only when the receive for the first was posted.

A message that MPI carries is what was in the send buffer at its Start.  `sent`, `prior`,
`received` and `accesses` record what has happened and are read by nothing.
-/
import CompMatch.Rendezvous.FlagBuffer

namespace CompMatch.Rendezvous

/-- `len` bytes were read at `src` in the sender's process and written at `dst`. -/
structure Access where
  src : Addr
  len : Nat
  dst : Addr
deriving DecidableEq, Repr

structure ByteWorld where
  world : World
  mem : Mem
  peerMem : Rid → Mem
  /-- The messages the sender has handed to MPI. -/
  messages : Rid → List (List UInt8)
  /-- How many receives were posted for the request. -/
  posted : Rid → Nat
  /-- How many of them have their message in the buffer. -/
  delivered : Rid → Nat
  /-- What the send buffer held at the Start of each operation. -/
  sent : Rid → Int → List UInt8
  /-- What the receive buffer held at the Start of each operation. -/
  prior : Rid → Int → List UInt8
  /-- What the receive buffer held when each Wait returned. -/
  received : Rid → Int → Option (List UInt8)
  accesses : Rid → List Access

inductive ByteAct
  | world (act : WorldAct)
  | write (m : Mem)                -- the user writes to the memory of the process
  | peerWrite (r : Rid) (m : Mem)  -- the user of the sender writes to its memory
  | peerSend (r : Rid)             -- the sender starts an operation over MPI
  | delivers (r : Rid)             -- a message arrives in the buffer of its receive

/-- Two buffers do not overlap. -/
def MpioptRequest.Apart (q r : MpioptRequest) : Prop :=
  q.buf + q.size ≤ r.buf ∨ r.buf + r.size ≤ q.buf

instance (q r : MpioptRequest) : Decidable (q.Apart r) := inferInstanceAs (Decidable (_ ∨ _))

/-- The request whose `backup_request` is tested. -/
def MpiCall.tests : MpiCall → Option Rid
  | .testBackup r | .waitBackup r => some r
  | _ => none

/-- The request whose payload the next step of the process fetches. -/
def Proc.fetches (p : Proc) : Option Rid :=
  match p.nested with
  | .progressRecv r .data :: _ => some r
  | _ :: _ => none
  | [] =>
      match p.call with
      | .bRecv r .data | .eRecv r (.fetch .data) => some r
      | _ => none

namespace ByteWorld

def reqs (b : ByteWorld) (r : Rid) : MpioptRequest := b.world.proc.reqs r

/-- The sender's request. -/
def peerReq (b : ByteWorld) (r : Rid) : MpioptRequest := (b.world.peers r).loc.req

/-- The receive buffer. -/
def buffer (b : ByteWorld) (r : Rid) : List UInt8 := readMem b.mem (b.reqs r).buf (b.reqs r).size

/-- The send buffer. -/
def payload (b : ByteWorld) (r : Rid) : List UInt8 :=
  readMem (b.peerMem r) (b.peerReq r).buf (b.peerReq r).size

/-- A receive that is not over. -/
def Receiving (b : ByteWorld) (r : Rid) : Prop :=
  (b.reqs r).type.isRecv = true ∧ b.world.proc.active r = true

instance (b : ByteWorld) (r : Rid) : Decidable (b.Receiving r) := inferInstanceAs (Decidable (_ ∧ _))

def goTo (b : ByteWorld) (w : World) : ByteWorld := { b with world := w }

/-- An operation of UCX takes effect. -/
def copy (b : ByteWorld) (r : Rid) (x : Access) : ByteWorld :=
  { b with
    mem := writeMem b.mem x.dst (readMem (b.peerMem r) x.src x.len)
    accesses := Function.update b.accesses r (b.accesses r ++ [x]) }

/-- The effect on the memory of an operation the process posted. -/
def land (b : ByteWorld) (r : Rid) : RdmaOp → ByteWorld
  | .get _ dst len src => b.copy r ⟨src, len, dst⟩
  | .put _ _ _ _ | .flag _ _ => b

/-- The effect on the memory of an operation the sender of request `r` posted. -/
def landPeer (b : ByteWorld) (r : Rid) : RdmaOp → ByteWorld
  | .put _ src len dst => b.copy r ⟨src, len, dst⟩
  | .get _ _ _ _ | .flag _ _ => b

/-- What an MPI call does to the receives. -/
def call (b : ByteWorld) (c : Option MpiCall) : ByteWorld :=
  { b with posted := fun r => if c = some (.irecv r) then b.posted r + 1 else b.posted r }

/-- What MPI and its rules allow. -/
def permits (b : ByteWorld) : WorldAct → Bool
  | .recvInit args _ size => size ≤ args.size
  | .start r =>
      decide ((b.reqs r).type.isRecv = true →
        ∀ q < b.world.proc.nextRid, b.Receiving q → (b.reqs q).Apart (b.reqs r))
  | .run ans =>
      match (b.world.proc.run ans).bind fun x => x.2.bind MpiCall.tests with
      | some r => !ans.flag || !(b.reqs r).type.isRecv || b.posted r == b.delivered r
      | none => true
  | .peerStart r =>
      (b.reqs r).type.isRecv && (b.messages r).length == 1 && decide (0 < b.posted r)
  | .peerWait r | .peerRun r _ | .peerLands r _ => (b.reqs r).type.isRecv
  | _ => true

/-- The Waits that return as the process goes on. -/
def returns (b : ByteWorld) (w : World) (r : Rid) (n : Int) : Option (List UInt8) :=
  if b.world.proc.active r = true ∧ w.proc.active r = false ∧ n = (b.reqs r).operationNumber
  then some (b.buffer r) else b.received r n

/-- The world goes on as `w`. -/
def follow (b : ByteWorld) (w : World) : WorldAct → ByteWorld
  | .start r =>
      { (b.goTo w).call (b.world.proc.start r).2 with
        prior := Function.update b.prior r
          (Function.update (b.prior r) ((b.reqs r).operationNumber + 1) (b.buffer r)) }
  | .run ans =>
      { (b.goTo w).call ((b.world.proc.run ans).bind (·.2)) with received := b.returns w }
  | .lands i =>
      match b.world.proc.worker.enabled? i with
      | some x => (b.goTo w).land x.op.1 x.op.2
      | none => b.goTo w
  | .peerStart r =>
      { b.goTo w with
        sent := Function.update b.sent r
          (Function.update (b.sent r) ((b.peerReq r).operationNumber + 1) (b.payload r)) }
  | .peerLands r i =>
      match (b.world.peers r).loc.worker.enabled? i with
      | some x => (b.goTo w).landPeer r x.op
      | none => b.goTo w
  | _ => b.goTo w

def step (b : ByteWorld) : ByteAct → Option ByteWorld
  | .world act =>
      match b.world.step act with
      | some w => if b.permits act then some (b.follow w act) else none
      | none => none
  | .write m =>
      if b.world.Free ∧ ∀ r < b.world.proc.nextRid, b.Receiving r →
          ∀ i < (b.reqs r).size, m ((b.reqs r).buf + i) = b.mem ((b.reqs r).buf + i)
      then some { b with mem := m } else none
  | .peerWrite r m =>
      if (b.world.peers r).pc ≠ .idle → ∀ i < (b.peerReq r).size,
          m ((b.peerReq r).buf + i) = b.peerMem r ((b.peerReq r).buf + i)
      then some { b with peerMem := Function.update b.peerMem r m } else none
  | .peerSend r =>
      if r < b.world.proc.nextRid ∧ (b.reqs r).type.isRecv = true ∧ (b.world.peers r).pc = .idle ∧
          (b.peerReq r).operationNumber = 1 ∧ (b.messages r = [] ∨ 0 < b.posted r)
      then
        some { b with
          messages := Function.update b.messages r (b.messages r ++ [b.payload r])
          sent := Function.update b.sent r
            (Function.update (b.sent r) ((b.messages r).length + 1) (b.payload r)) }
      else none
  | .delivers r =>
      match (b.messages r)[b.delivered r]? with
      | some m =>
          if b.delivered r < b.posted r then
            some { b with
              mem := writeMem b.mem (b.reqs r).buf m
              delivered := Function.update b.delivered r (b.delivered r + 1)
              accesses := Function.update b.accesses r
                (b.accesses r ++ [⟨(b.peerReq r).buf, (b.peerReq r).size, (b.reqs r).buf⟩]) }
          else none
      | none => none

/-- No request was initialised, and nothing was sent or posted. -/
structure Init (b : ByteWorld) : Prop where
  world : World.Init b.world
  messages : ∀ r, b.messages r = []
  posted : ∀ r, b.posted r = 0
  delivered : ∀ r, b.delivered r = 0
  accesses : ∀ r, b.accesses r = []

/-- The Wait on operation `n` of a request has returned. -/
def Done (b : ByteWorld) (r : Rid) (n : Int) : Prop :=
  n < (b.reqs r).operationNumber ∨
    (n = (b.reqs r).operationNumber ∧ b.world.proc.active r = false)

/-- What every receive request owes its user. -/
structure Delivers (b : ByteWorld) : Prop where
  /-- After each Wait the buffer begins with the payload, and its other bytes are as they were at the
  Start. -/
  received : ∀ r < b.world.proc.nextRid, (b.reqs r).type.isRecv = true → ∀ n, 1 ≤ n → b.Done r n →
    ∃ bytes, b.received r n = some bytes ∧ bytes.length = (b.reqs r).size ∧
      bytes.take (b.peerReq r).size = b.sent r n ∧
      bytes.drop (b.peerReq r).size = (b.prior r n).drop (b.peerReq r).size
  /-- Nothing outside the send buffer is read. -/
  reads : ∀ r < b.world.proc.nextRid, (b.reqs r).type.isRecv = true → ∀ x ∈ b.accesses r,
    (b.peerReq r).buf ≤ x.src ∧ x.src + x.len ≤ (b.peerReq r).buf + (b.peerReq r).size
  /-- Nothing outside the receive buffer is written. -/
  writes : ∀ r < b.world.proc.nextRid, (b.reqs r).type.isRecv = true → ∀ x ∈ b.accesses r,
    (b.reqs r).buf ≤ x.dst ∧ x.dst + x.len ≤ (b.reqs r).buf + (b.reqs r).size

/-- A get is only issued by a request that is of its sender's size. -/
def FetchFits (b : ByteWorld) (act : ByteAct) : Prop :=
  ∀ ans r, act = .world (.run ans) → b.world.proc.fetches = some r →
    (b.peerReq r).size = (b.reqs r).size

end ByteWorld

end CompMatch.Rendezvous

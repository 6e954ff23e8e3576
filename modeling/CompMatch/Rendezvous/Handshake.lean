/-
Two processes that look for each other.

Each has one request: the sender's a send request, the receiver's the receive request
that matches it.  The info of the sender travels on the handshake communicator, that
of the receiver on the response communicator and the payload on the communicator of
the requests.  MPI orders the messages of one communicator and nothing else.

A message that was sent may take any time to arrive.  So a probe that could find it
may find nothing, and what is fixed is what an answer `true` takes: for a probe, that
a message was sent that no receive was posted for; for a test of a synchronous send,
that the receive it matches was posted; for a test of a receive, that the message it
matches was sent.  As there is one request a side, the messages of a communicator
differ by their number only.

What RDMA writes to the flags, and when it takes effect, is left open.
-/
import CompMatch.Rendezvous.Process

namespace CompMatch.Rendezvous

/-- The messages from one process to the other on one communicator. -/
structure Envelope where
  sent : Nat
  /-- The receives that were posted; they match the messages in order. -/
  received : Nat
deriving DecidableEq, Repr

namespace Envelope

def send (e : Envelope) : Envelope := { e with sent := e.sent + 1 }

def receive (e : Envelope) : Envelope := { e with received := e.received + 1 }

/-- A probe can find a message. -/
def probable (e : Envelope) : Bool := decide (e.received < e.sent)

/-- Every message was matched by a receive. -/
def matched (e : Envelope) : Bool := decide (e.sent ≤ e.received)

/-- Every receive was matched by a message. -/
def filled (e : Envelope) : Bool := decide (e.received ≤ e.sent)

end Envelope

inductive Side
  | sender
  | receiver
deriving DecidableEq, Repr

structure Meeting where
  send : Proc
  recv : Proc
  handshake : Envelope   -- the sender's info
  response : Envelope    -- the receiver's info
  payload : Envelope

namespace Meeting

/-- What MPI may answer the sender. -/
def permitsSend (m : Meeting) (flag : Bool) : Option MpiCall → Bool
  | some (.iprobe _ .response) => !flag || m.response.probable
  | some (.testExchange _) => !flag || m.handshake.matched
  | some (.testBackup _) => !flag || m.payload.matched
  | some (.iprobe _ _) => !flag
  | _ => true

/-- What MPI may answer the receiver. -/
def permitsRecv (m : Meeting) (flag : Bool) : Option MpiCall → Bool
  | some (.iprobe _ .handshake) => !flag || m.handshake.probable
  | some (.iprobe _ .comm) => !flag || m.payload.probable
  | some (.testExchange _) => !flag || m.response.matched
  | some (.testBackup _) | some (.waitBackup _) => !flag || m.payload.filled
  | some (.iprobe _ .response) => !flag
  | _ => true

/-- What a call of the sender does to the messages. -/
def callSend (m : Meeting) : Option MpiCall → Meeting
  | some (.issend _ .handshake) => { m with handshake := m.handshake.send }
  | some (.issend _ .comm) | some (.isend _) => { m with payload := m.payload.send }
  | some (.recv _ .response) => { m with response := m.response.receive }
  | _ => m

/-- What a call of the receiver does to the messages. -/
def callRecv (m : Meeting) : Option MpiCall → Meeting
  | some (.issend _ .response) => { m with response := m.response.send }
  | some (.recv _ .handshake) => { m with handshake := m.handshake.receive }
  | some (.irecv _) => { m with payload := m.payload.receive }
  | _ => m

def setSend (m : Meeting) (x : Proc × Option MpiCall) : Meeting :=
  callSend { m with send := x.1 } x.2

def setRecv (m : Meeting) (x : Proc × Option MpiCall) : Meeting :=
  callRecv { m with recv := x.1 } x.2

end Meeting

/-- What happens in one process. -/
inductive ProcAct
  | init (args : Proc.InitArgs) (info : RdmaInfo)
  | start
  | wait
  | run (ans : Answer)
  | lands (i : Nat)
  | writeFlag (v : Int)

namespace Proc

/-- The user may call a function. -/
def Free (p : Proc) : Prop := p.call = .none ∧ p.nested = []

instance (p : Proc) : Decidable p.Free := inferInstanceAs (Decidable (_ ∧ _))

/--
One step of a process whose user initialises one request and then calls Start and
Wait.  The counterpart's buffer is not `NULL`.
-/
def act (p : Proc) (type : RequestType) : ProcAct → Option (Proc × Option MpiCall)
  | .init args info =>
      if p.Free ∧ p.nextRid = 0 ∧ info.dataAddr ≠ 0 then some (p.initRequest type args info) else none
  | .start => if p.Free ∧ p.nextRid = 1 ∧ p.active 0 = false then some (p.start 0) else none
  | .wait => if p.Free ∧ p.nextRid = 1 ∧ p.active 0 = true then some (p.wait 0, none) else none
  | .run ans => p.run ans
  | .lands i =>
      match p.worker.enabled? i with
      | some _ => some ({ p with worker := p.worker.retire i }, none)
      | none => none
  | .writeFlag v => some (p.setReq 0 fun q => { q with flag := v }, none)

/-- A process with no requests. -/
structure Blank (p : Proc) : Prop where
  requestList : p.requestList = []
  nextRid : p.nextRid = 0
  call : p.call = .none
  nested : p.nested = []

/-- The first Wait has returned. -/
def Decided (p : Proc) : Prop :=
  p.nextRid = 1 ∧ ((p.active 0 = false ∧ 1 ≤ (p.reqs 0).operationNumber) ∨
    2 ≤ (p.reqs 0).operationNumber)

/-- The request is to use plain MPI from now on. -/
def FellBack (p : Proc) : Prop :=
  p.nextRid = 1 ∧ ((p.reqs 0).type = .sendFallback ∨ (p.reqs 0).type = .recvFallback)

end Proc

/-- The answer a step is given. -/
def ProcAct.flag : ProcAct → Bool
  | .run ans => ans.flag
  | _ => false

namespace Meeting

def step (m : Meeting) : Side × ProcAct → Option Meeting
  | (.sender, act) =>
      match m.send.act .sendSearch act with
      | some x => if m.permitsSend act.flag x.2 then some (m.setSend x) else none
      | none => none
  | (.receiver, act) =>
      match m.recv.act .recvSearch act with
      | some x => if m.permitsRecv act.flag x.2 then some (m.setRecv x) else none
      | none => none

/-- Neither process has a request, and no message was sent. -/
structure Init (m : Meeting) : Prop where
  send : m.send.Blank
  recv : m.recv.Blank
  handshake : m.handshake = ⟨0, 0⟩
  response : m.response = ⟨0, 0⟩
  payload : m.payload = ⟨0, 0⟩

/-- The two sides agree on how the payloads are to travel. -/
structure Agree (m : Meeting) : Prop where
  /-- The sender does not fall back once the receiver has its info. -/
  sender : m.send.FellBack → m.handshake.received = 0
  /-- The receiver does not fall back once the sender has its info. -/
  receiver : m.recv.FellBack → m.response.received = 0
  /-- Nobody waits in `receive_rdma_info` for a side that has given up. -/
  spinning : (.receiveInfo 0 .test ∈ m.send.nested → ¬ m.recv.FellBack) ∧
    (.receiveInfo 0 .test ∈ m.recv.nested → ¬ m.send.FellBack)
  outcome : m.send.Decided → m.recv.Decided →
    ((m.send.reqs 0).type = .send ∧ (m.recv.reqs 0).type = .recv) ∨
      (m.send.FellBack ∧ m.recv.FellBack)

end Meeting

end CompMatch.Rendezvous

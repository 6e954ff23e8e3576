/-
Two processes that look for each other, over active messages.

Request `s` of one process is a send request, request `r` of the other the receive
request that matches it.  The receiver sends the id of its handler at once, and the
first payload goes over MPI; both are synchronous sends.  In its first Wait each side
waits for the payload, and then tests once for the id: the sender for its arrival, the
receiver for the acknowledgement.

The processes may have other requests, which are answered in any way.  `sendSaw` and
`recvSaw` record what had arrived at the two tests, and are read by nothing.
-/
import CompMatch.Lib.Exchange
import CompMatch.ActiveMessage.Process

namespace CompMatch.ActiveMessage

/-- What happens in one process. -/
inductive ProcAct
  | sendInit (args : InitArgs)
  | recvInit (args : InitArgs)
  | start (r : Rid)
  | wait (r : Rid)
  | free (r : Rid)
  | run (ans : Answer)
  /-- `ucp_worker_progress` runs the handler of `r`. -/
  | deliver (r : Rid) (msg : AmMsg) (here : Option (List UInt8))
  | lands (r : Rid) (number : Nat) (bytes : List UInt8)

/-- The answer a step is given. -/
def ProcAct.flag : ProcAct → Bool
  | .run ans => ans.flag
  | _ => false

def Proc.act (mode : Mode) (p : Proc) : ProcAct → Option (Proc × Option MpiCall)
  | .sendInit args => if p.Free then some (p.sendInit args) else none
  | .recvInit args => if p.Free then some (p.recvInit args, none) else none
  | .start r =>
      if p.Free ∧ r ∈ p.requestList ∧ p.active r = false then some (p.start r) else none
  | .wait r =>
      if p.Free ∧ r ∈ p.requestList ∧ p.active r = true then some (p.wait mode r, none) else none
  | .free r =>
      if p.Free ∧ r ∈ p.requestList ∧ p.active r = false then some (p.free r, none) else none
  | .run ans => p.run mode ans
  | .deliver r msg here =>
      if p.progressing ∧ r ∈ p.handlers then
        some (p.setLoc r (incomingAmMsgHandler mode here msg (p.reqs r)), none)
      else none
  | .lands r number bytes =>
      if number ∈ (p.reqs r).transfers then
        some (p.setLoc r ((p.reqs r).land number bytes), none)
      else none

structure Meeting where
  send : Proc
  recv : Proc
  info : Exchange       -- the AM_ID, from the receiver to the sender
  payload : Exchange    -- the first payload, from the sender to the receiver
  /-- Whether the AM_ID had arrived as the sender tested for it. -/
  sendSaw : Option Bool
  /-- Whether its acknowledgement had arrived as the receiver tested for it. -/
  recvSaw : Option Bool

inductive MeetingAct
  | send (a : ProcAct)
  | recv (a : ProcAct)
  | infoArrives
  | infoAcked
  | payloadArrives
  | payloadAcked

namespace Meeting

/-- What MPI may answer the sender. -/
def permitsSend (m : Meeting) (s : Rid) (flag : Bool) : Option MpiCall → Bool
  | some (.testExchange q) => q ≠ s || flag == m.info.arrived
  | some (.waitBackup q) => q ≠ s || m.payload.acked
  | _ => true

/-- What MPI may answer the receiver. -/
def permitsRecv (m : Meeting) (r : Rid) (flag : Bool) : Option MpiCall → Bool
  | some (.testExchange q) => q ≠ r || flag == m.info.acked
  | some (.waitBackup q) => q ≠ r || m.payload.arrived
  | _ => true

/-- What a call of the sender does to the messages. -/
def callSend (m : Meeting) (s : Rid) : Option MpiCall → Meeting
  | some (.irecvInfo q) => if q = s then { m with info := m.info.post } else m
  | some (.issend q) => if q = s then { m with payload := m.payload.send } else m
  | some (.testExchange q) => if q = s then { m with sendSaw := some m.info.arrived } else m
  | _ => m

/-- What a call of the receiver does to the messages. -/
def callRecv (m : Meeting) (r : Rid) : Option MpiCall → Meeting
  | some (.issendInfo q) => if q = r then { m with info := m.info.send } else m
  | some (.irecv q) => if q = r then { m with payload := m.payload.post } else m
  | some (.testExchange q) => if q = r then { m with recvSaw := some m.info.acked } else m
  | _ => m

/-- Request `s` is to be a send request, and request `r` a receive request. -/
def asAgreed (m : Meeting) (s r : Rid) : MeetingAct → Bool
  | .send (.recvInit _) => m.send.nextRid ≠ s
  | .recv (.sendInit _) => m.recv.nextRid ≠ r
  | _ => true

def step (mode : Mode) (s r : Rid) (m : Meeting) (a : MeetingAct) : Option Meeting :=
  if m.asAgreed s r a then
    match a with
    | .send a =>
        match m.send.act mode a with
        | some (p, call) =>
            if m.permitsSend s a.flag call then some (callSend { m with send := p } s call) else none
        | none => none
    | .recv a =>
        match m.recv.act mode a with
        | some (p, call) =>
            if m.permitsRecv r a.flag call then some (callRecv { m with recv := p } r call) else none
        | none => none
    | .infoArrives =>
        match m.info.arrive with
        | some e =>
            some { m with
              info := e
              send := m.send.setReq s fun q => { q with amId := (m.recv.reqs r).req.amId } }
        | none => none
    | .infoAcked =>
        match m.info.ack with
        | some e => some { m with info := e }
        | none => none
    | .payloadArrives =>
        match m.payload.arrive with
        | some e => some { m with payload := e }
        | none => none
    | .payloadAcked =>
        match m.payload.ack with
        | some e => some { m with payload := e }
        | none => none
  else none

/-- Neither process has a request, and no message was sent. -/
structure Init (m : Meeting) : Prop where
  send : m.send.nextRid = 0 ∧ m.send.requestList = [] ∧ m.send.Free
  recv : m.recv.nextRid = 0 ∧ m.recv.requestList = [] ∧ m.recv.Free
  info : m.info = .idle
  payload : m.payload = .idle
  sendSaw : m.sendSaw = none
  recvSaw : m.recvSaw = none

/-- Both first Waits have returned: they end the search. -/
def Decided (m : Meeting) (s r : Rid) : Prop :=
  (s < m.send.nextRid ∧ m.send.type s ≠ .sendSearch) ∧
    (r < m.recv.nextRid ∧ m.recv.type r ≠ .recvSearch)

/-- The types agree, and with them the handler's id. -/
def Agree (m : Meeting) (s r : Rid) : Prop :=
  (m.send.type s = .send ↔ m.recv.type r = .recv) ∧
    (m.send.type s = .send → m.recv.type r = .recv →
      (m.send.reqs s).req.amId = (m.recv.reqs r).req.amId)

end Meeting

end CompMatch.ActiveMessage

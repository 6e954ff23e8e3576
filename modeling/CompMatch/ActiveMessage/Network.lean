/-
Any number of processes that send active messages to one another.

Every process is a `Proc` with all its requests, and its rank is its number.  A receive
request sends the id of its handler to the process it receives from, a send request
posts a receive for the id.  MPI matches the two in order: the `i`-th send request to a
process with a tag gets the id of the `i`-th receive request there from this process with
this tag.

An active message carries that id and nothing else that says whom it is for.  UCX keeps
the order of the messages from one process to another, looks for the handler by its id,
and discards the message if there is none.  Messages take any time, MPI answers as it
likes about the first payloads, and what it and UCX say is complete may be found so at
any later time.
-/
import CompMatch.ActiveMessage.Handshake
import CompMatch.ActiveMessage.World
import CompMatch.Lib.Matching
import CompMatch.Lib.Runs

namespace CompMatch.ActiveMessage

/-- A process. -/
abbrev Rank := Nat

/-- An active message on its way. -/
structure Packet where
  /-- The request it is sent for.  UCX knows it, to fetch the bytes of a rendezvous message. -/
  origin : Rank × Rid
  amId : Nat
  msg : AmMsg
deriving DecidableEq, Repr

/-- The requests of one kind for one peer and tag, in the order of their handshake messages. -/
def Proc.lane (p : Proc) (recv : Bool) (peer : Rank) (tag : Int) : List Rid :=
  (List.range p.nextRid).filter fun r =>
    (p.type r).isRecv == recv && (p.reqs r).req.dest == peer && (p.reqs r).req.tag == tag

/-- The request that UCX finds for an id. -/
def Proc.handlerOf (p : Proc) (amId : Nat) : Option Rid :=
  p.handlers.find? fun r => (p.reqs r).req.amId == amId

/-- The message that the next step hands to UCX. -/
def Proc.emits (mode : Mode) (p : Proc) (imm : Bool) : Option (Rid × AmMsg) :=
  match p.nested, p.call with
  | [], .bSend s pt => (bSend mode imm pt (p.reqs s)).2.2.map (s, ·)
  | _, _ => none

/-- Where the process is with send request `s`, if it was called for it. -/
def Call.sendPc (c : Call) (s : Rid) : Option SendPc :=
  match c with
  | .bSend s' pt => if s' = s then some (.start pt) else Option.none
  | .eSend s' w => if s' = s then some (.wait w) else Option.none
  | _ => Option.none

/-- Where the process is with send request `s`, as far as active messages are concerned. -/
def Proc.sendPc (p : Proc) (s : Rid) : SendPc :=
  (p.call.sendPc s).getD (if p.active s = true ∧ p.type s = .send then .started else .idle)

structure Network where
  procs : Rank → Proc
  /-- The messages from one process to another. -/
  channels : Rank → Rank → List Packet
  /-- What MPI has written to the `AM_ID` of a send request. -/
  amIds : Rank → Rid → Option Nat
  /-- The request a message comes from that was given to the handler of a request. -/
  origin : Rank → Rid → Nat → Option (Rank × Rid)
  /-- The messages there was no handler for. -/
  discarded : List Packet
  /-- What the buffer held when a message was sent. -/
  payload : Rank → Rid → Nat → List UInt8

inductive NetworkAct
  | sendInit (k : Rank) (args : InitArgs)
  | recvInit (k : Rank) (args : InitArgs)
  | start (k : Rank) (r : Rid)
  | wait (k : Rank) (r : Rid)
  | free (k : Rank) (r : Rid)
  | run (k : Rank) (imm flag : Bool)
  | write (k : Rank) (r : Rid) (bytes : List UInt8)   -- the user fills a buffer
  | infoArrives (j : Rank) (s : Rid)                  -- MPI writes the AM_ID of a send request
  | deliver (j k : Rank) (imm : Bool)                 -- the next message from j to k
  | lands (k : Rank) (r : Rid) (number : Nat)
deriving DecidableEq, Repr

namespace Network

def setProc (n : Network) (k : Rank) (p : Proc) : Network :=
  { n with procs := Function.update n.procs k p }

@[simp] theorem procs_setProc_self (n : Network) (k : Rank) (p : Proc) : (n.setProc k p).procs k = p :=
  Function.update_self _ _ _

theorem procs_setProc_of_ne (n : Network) {k i : Rank} (p : Proc) (h : i ≠ k) :
    (n.setProc k p).procs i = n.procs i :=
  Function.update_of_ne h _ _

def setChannel (n : Network) (j k : Rank) (packets : List Packet) : Network :=
  { n with channels := Function.update n.channels j (Function.update (n.channels j) k packets) }

def req (n : Network) (k : Rank) (r : Rid) : MpioptRequest := ((n.procs k).reqs r).req

/-- The `AM_ID` of a request. -/
def amId (n : Network) (k : Rank) (r : Rid) : Nat := (n.amIds k r).getD (n.req k r).amId

/-- The request at the other end, with which MPI matches the handshake message. -/
def counterpart (n : Network) (k : Rank) (r : Rid) : Option Rid :=
  let q := n.req k r
  Matching.opposite ((n.procs k).lane q.type.isRecv q.dest q.tag)
    ((n.procs q.dest).lane (!q.type.isRecv) k q.tag) r

/-! ### MPI and UCX -/

/-- What MPI may say about a handshake message. -/
def permits (n : Network) (k : Rank) (flag : Bool) : Option MpiCall → Bool
  | some (.testExchange r) =>
      !flag || if (n.req k r).type.isRecv then (n.counterpart k r).isSome else (n.amIds k r).isSome
  | _ => true

/-- The bytes of a message need not stay in the send buffer. -/
def complete (n : Network) (mode : Mode) (j : Rank) (s : Rid) (number : Nat) : Bool :=
  let p := n.procs (n.req j s).dest
  decide (mode = .eager) || (List.range p.nextRid).any fun r =>
    decide (n.origin (n.req j s).dest r number = some (j, s)) &&
      ((p.reqs r).taken.map Prod.fst).contains number && !(p.reqs r).transfers.contains number

/-- What UCX may say about the messages of a process. -/
def ucxPermits (n : Network) (mode : Mode) (k : Rank) (imm flag : Bool) : Bool :=
  match (n.procs k).nested, (n.procs k).call with
  | [], .bSend _ .post => !imm || decide (mode = .eager)
  | [], .eSend s (.blocking .check) =>
      !flag || (n.req k s).ucxRequestDataTransfer.all (n.complete mode k s)
  | _, _ => true

/-- The bytes of a message are those in the buffer it comes from. -/
def bytesFor (n : Network) (k : Rank) (r : Rid) (number : Nat) : List UInt8 :=
  match n.origin k r number with
  | some (j, s) => (n.req j s).buf
  | none => []

/-- What a process is told in a step. -/
def answer (n : Network) (k : Rank) (imm flag : Bool) : Answer where
  imm := imm
  flag := flag
  remote := fun r =>
    match (n.req k r).listOfPendingMsgs with
    | msg :: _ => n.bytesFor k r msg.number
    | [] => []

/-! ### Steps -/

/-- A step of one process. -/
def act (mode : Mode) (n : Network) (k : Rank) (a : ProcAct) : Option Network :=
  match (n.procs k).act mode a with
  | some (p, call) => if n.permits k a.flag call then some (n.setProc k p) else none
  | none => none

/-- A message is handed to UCX. -/
def emit (n : Network) (j : Rank) : Option (Rid × AmMsg) → Network
  | some (s, msg) =>
      let k := (n.req j s).dest
      { n.setChannel j k (n.channels j k ++ [⟨(j, s), n.amId j s, msg⟩]) with
        payload := Function.update n.payload j (Function.update (n.payload j) s
          (Function.update (n.payload j s) msg.number (n.req j s).buf)) }
  | none => n

/-- It is noted which request a message for `r` comes from. -/
def note (n : Network) (k : Rank) (r : Rid) (x : Packet) : Network :=
  { n with origin := Function.update n.origin k (Function.update (n.origin k) r
      (Function.update (n.origin k r) x.msg.number (some x.origin))) }

/-- UCX hands a message to its handler, if there is one. -/
def give (mode : Mode) (n : Network) (k : Rank) (imm : Bool) (x : Packet) : Network :=
  match (n.procs k).handlerOf x.amId with
  | some r =>
      let here := if imm then some (n.req x.origin.1 x.origin.2).buf else none
      (n.note k r x).setProc k
        ((n.procs k).setLoc r (incomingAmMsgHandler mode here x.msg ((n.procs k).reqs r)))
  | none => { n with discarded := n.discarded ++ [x] }

def step (mode : Mode) (n : Network) : NetworkAct → Option Network
  | .sendInit k args => n.act mode k (.sendInit args)
  | .recvInit k args => n.act mode k (.recvInit args)
  | .start k r => n.act mode k (.start r)
  | .wait k r => n.act mode k (.wait r)
  | .free k r => n.act mode k (.free r)
  | .run k imm flag =>
      if n.ucxPermits mode k imm flag then
        (n.act mode k (.run (n.answer k imm flag))).map (emit · k ((n.procs k).emits mode imm))
      else none
  | .write k r bytes =>
      let p := n.procs k
      if p.Free ∧ r < p.nextRid ∧ p.active r = false ∧ bytes.length = (n.req k r).size then
        some (n.setProc k (p.setLoc r ((p.reqs r).setBuf bytes)))
      else none
  | .infoArrives j s =>
      match n.counterpart j s with
      | some r =>
          let k := (n.req j s).dest
          if (n.req j s).type.isRecv = false ∧ (n.procs k).call ≠ .init r ∧ n.amIds j s = none then
            some { n with
              amIds := Function.update n.amIds j (Function.update (n.amIds j) s (some (n.req k r).amId)) }
          else none
      | none => none
  | .deliver j k imm =>
      match n.channels j k with
      | x :: rest =>
          if (n.procs k).progressing then some (give mode (n.setChannel j k rest) k imm x) else none
      | [] => none
  | .lands k r number =>
      if r < (n.procs k).nextRid then n.act mode k (.lands r number (n.bytesFor k r number)) else none

/-- `MPIOPT_INIT` was called everywhere, and nothing else. -/
structure Init (n : Network) : Prop where
  requests : ∀ k, (n.procs k).requestList = [] ∧ (n.procs k).handlers = [] ∧ (n.procs k).nextRid = 0
  free : ∀ k, (n.procs k).Free
  channels : ∀ j k, n.channels j k = []
  amIds : ∀ j s, n.amIds j s = none
  origin : ∀ k r number, n.origin k r number = none
  discarded : n.discarded = []
  payload : ∀ j s number, n.payload j s number = []

/-! ### Whom a message is for -/

/-- Send request `s` of process `j` and receive request `r` of process `k` belong together. -/
structure Partners (n : Network) (j : Rank) (s : Rid) (k : Rank) (r : Rid) : Prop where
  send : (n.req j s).type.isRecv = false
  peer : (n.req j s).dest = k
  matched : n.counterpart j s = some r

/-- A message is for the request that its sender belongs with. -/
def IsFor (n : Network) (x : Packet) (k : Rank) (r : Rid) : Prop :=
  n.Partners x.origin.1 x.origin.2 k r ∧ x.amId = (n.req k r).amId

/-- Every message goes to the one request it is for. -/
structure Addressed (n : Network) : Prop where
  /-- Two requests that belong together belong with no other. -/
  unique : ∀ j s k r, n.Partners j s k r → ∀ j' s', n.Partners j' s' k r → j' = j ∧ s' = s
  /-- No two handlers of a process share an id. -/
  distinct : ∀ k, ∀ r ∈ (n.procs k).handlers, ∀ r' ∈ (n.procs k).handlers,
    (n.req k r).amId = (n.req k r').amId → r = r'
  /-- The id that has come to a send request is that of its partner. -/
  arrived : ∀ j s id, n.amIds j s = some id → ∃ k r, n.Partners j s k r ∧ id = (n.req k r).amId
  /-- A connected send request has the id of its partner. -/
  connected : ∀ j s, s < (n.procs j).nextRid → (n.req j s).type = .send →
    ∃ k r, n.Partners j s k r ∧ n.amId j s = (n.req k r).amId
  /-- UCX gives a message on its way to the request it is for, or to none if that was freed. -/
  inFlight : ∀ j k, ∀ x ∈ n.channels j k, ∃ r, n.IsFor x k r ∧
    ((n.procs k).handlerOf x.amId = some r ∨
      (n.procs k).handlerOf x.amId = none ∧ r ∉ (n.procs k).requestList)
  /-- What was given to a handler was for its request. -/
  given : ∀ k r number o, n.origin k r number = some o → n.Partners o.1 o.2 k r
  /-- Only a message for a request that was freed is discarded. -/
  discarded : ∀ x ∈ n.discarded, ∃ k r, n.IsFor x k r ∧ r ∉ (n.procs k).requestList

/-! ### The links -/

/-- The messages of a send request that no handler has run for. -/
def underWay (n : Network) (j : Rank) (s : Rid) (k : Rank) : List AmMsg :=
  ((n.discarded ++ n.channels j k).filter fun x => x.origin = (j, s)).map Packet.msg

/-- A send request and a receive request, and the messages between. -/
def link (n : Network) (j : Rank) (s : Rid) (k : Rank) (r : Rid) : Link where
  pc := (n.procs k).recvPc r
  recv := (n.procs k).reqs r
  peer :=
    { pc := (n.procs j).sendPc s
      loc := (n.procs j).reqs s
      inFlight := n.underWay j s k
      payload := n.payload j s }

/-- A request that is matched with a new one, if it is there already, has a buffer of its size. -/
def fits (n : Network) (k : Rank) (recv : Bool) (args : InitArgs) : Bool :=
  let p := n.procs args.peer
  ((p.lane (!recv) k args.tag)[((n.procs k).lane recv args.peer args.tag).length]?).all fun r =>
    (p.reqs r).req.size == args.buf.length

/-- Requests that belong together have buffers of one size. -/
def Fits (n : Network) : NetworkAct → Prop
  | .sendInit k args => n.fits k false args = true
  | .recvInit k args => n.fits k true args = true
  | _ => True

/-- No handler runs for a request inside its own `b_recv` while it is ready to receive. -/
def Undisturbed (n : Network) : NetworkAct → Prop
  | .deliver j k _ => ∀ x rest r, n.channels j k = x :: rest → (n.procs k).handlerOf x.amId = some r →
      (n.req k r).isReadyToRecv = true → ¬ (n.procs k).inBRecv r
  | _ => True

end Network

end CompMatch.ActiveMessage

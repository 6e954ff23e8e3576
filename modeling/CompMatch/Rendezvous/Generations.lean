/-
Requests that follow one another on one envelope.

One process sends to the other with one tag.  Its send requests for that and the other's
receive requests are initialised, used and freed one after another, and at most one is
alive on either side.  Either user may call plain MPI with the envelope, and both
processes have any other requests besides.

MPI orders the messages of one communicator and one envelope.  So the `i`-th handshake
message that is received from a process is that of its `i`-th request, whoever receives
it, and the `k`-th payload goes with the `k`-th receive that is posted.  A message may take
any time to arrive: a probe or a test may miss what is there.
-/
import CompMatch.Lib.Matching
import CompMatch.Lib.Runs
import CompMatch.Rendezvous.Handshake
import CompMatch.Rendezvous.History

namespace CompMatch.Rendezvous

open Matching

/-- One of the two processes. -/
structure Party where
  history : History
  /-- The rank of the other process. -/
  peer : Nat
  /-- The requests of the envelope in the order they were initialised, and what their handshake
  messages say. -/
  lane : List (Rid × RdmaInfo)
  /-- How many of these messages the other process has received. -/
  taken : Nat
  /-- The payloads that were sent, or the receives that were posted for them: the request, or none
  for a plain MPI call. -/
  posts : List (Option Rid)

/-- The requests of the envelope. -/
def Party.requests (x : Party) : List Rid := x.lane.map Prod.fst

namespace Side

def other : Side → Side
  | .sender => .receiver
  | .receiver => .sender

def init : Side → Proc.InitArgs → HistoryAct
  | .sender, args => .sendInit args
  | .receiver, args => .recvInit args

/-- The request that a payload is sent for, or a receive is posted for. -/
def payload : Side → MpiCall → Option Rid
  | .sender, .issend r .comm | .sender, .isend r | .receiver, .irecv r => some r
  | _, _ => none

end Side

/-- The MPI call that a step makes. -/
def History.mpiCall (h : History) : HistoryAct → Option MpiCall
  | .run ans => (h.proc.run ans).bind (·.2)
  | .start r => (h.proc.start r).2
  | _ => none

structure Generations where
  tag : Int
  party : Side → Party

inductive GenerationAct
  | init (side : Side) (args : Proc.InitArgs) (dataRkey flagRkey : Nat)  -- of a request of the envelope
  | proc (side : Side) (act : HistoryAct)                                -- anything else
  | plain (side : Side)                                                  -- plain MPI with the envelope
deriving DecidableEq, Repr

namespace Generations

def onEnvelope (g : Generations) (side : Side) (args : Proc.InitArgs) : Prop :=
  args.peer = (g.party side).peer ∧ args.tag = g.tag

instance (g : Generations) (side : Side) (args : Proc.InitArgs) : Decidable (g.onEnvelope side args) :=
  inferInstanceAs (Decidable (_ ∧ _))

/-- Every payload of the request has met its receive, or every receive its payload. -/
def matched (g : Generations) (side : Side) (r : Rid) : Bool :=
  decide (some r ∉ (g.party side).posts.drop (g.party side.other).posts.length)

/-- What MPI may answer to a call.  A nonblocking send is complete when MPI likes. -/
def answers (g : Generations) (side : Side) (flag : Bool) : Option MpiCall → Bool
  | some (.iprobe r .comm) =>
      !flag || decide (r ∉ (g.party side).requests) ||
        decide ((g.party side).posts.length < (g.party side.other).posts.length)
  | some (.iprobe r _) =>
      !flag || decide (r ∉ (g.party side).requests) ||
        decide ((g.party side.other).taken < (g.party side.other).lane.length)
  | some (.recv r _) =>
      decide (r ∉ (g.party side).requests) ||
        decide ((g.party side.other).lane[(g.party side.other).taken]?.map Prod.snd =
          some ((g.party side).history.proc.counterpart r))
  | some (.testExchange r) =>
      !flag || decide (r ∉ (g.party side).requests) ||
        decide ((g.party side).requests.idxOf r < (g.party side).taken)
  | some (.testBackup r) | some (.waitBackup r) =>
      !flag || decide (r ∉ (g.party side).requests) ||
        decide (((g.party side).history.proc.reqs r).type = .sendFallback) || g.matched side r
  | _ => true

/-- What the users and MPI allow. -/
def permits (g : Generations) (side : Side) (act : HistoryAct) : Bool :=
  match act with
  | .sendInit args => decide (side = .sender → ¬ g.onEnvelope side args)
  | .recvInit args => decide (side = .receiver → ¬ g.onEnvelope side args)
  | .run ans => g.answers side ans.flag ((g.party side).history.mpiCall act)
  | .delivers r => decide (r ∉ (g.party side).requests) || g.matched side r
  | _ => true

/-- The request of the envelope that a step sends a payload for, or posts a receive for. -/
def posted (g : Generations) (side : Side) (act : HistoryAct) : Option Rid :=
  (((g.party side).history.mpiCall act).bind side.payload).filter (· ∈ (g.party side).requests)

/-- A step receives a handshake message for a request of the envelope. -/
def receives (g : Generations) (side : Side) (act : HistoryAct) : Bool :=
  match (g.party side).history.mpiCall act with
  | some (.recv r _) => decide (r ∈ (g.party side).requests)
  | _ => false

/-- Both processes go on. -/
def set (g : Generations) (side : Side) (own other : Party) : Generations :=
  { g with party := fun s => if s = side then own else other }

/-- One process goes on with the history `h`. -/
def follow (g : Generations) (side : Side) (h : History) (act : HistoryAct) : Generations :=
  let own := g.party side
  let other := g.party side.other
  g.set side { own with history := h, posts := own.posts ++ (g.posted side act).toList.map some }
    { other with taken := if g.receives side act then other.taken + 1 else other.taken }

def step (g : Generations) : GenerationAct → Option Generations
  | .init side args dataRkey flagRkey =>
      let own := g.party side
      if g.onEnvelope side args ∧ ∀ r ∈ own.requests, r ∉ own.history.proc.requestList then
        (own.history.step (side.init args)).map fun h =>
          g.set side { own with
            history := h
            lane := own.lane ++ [(own.history.proc.nextRid, ⟨args.buf, args.flagAddr, dataRkey, flagRkey⟩)] }
            (g.party side.other)
      else none
  | .proc side act =>
      match (g.party side).history.step act with
      | some h => if g.permits side act then some (g.follow side h act) else none
      | none => none
  | .plain side =>
      let own := g.party side
      if own.history.Free then
        some (g.set side { own with posts := own.posts ++ [none] } (g.party side.other))
      else none

/-- No request was initialised yet, and nothing was sent. -/
structure Init (g : Generations) : Prop where
  history : ∀ side, History.Init (g.party side).history
  lane : ∀ side, (g.party side).lane = []
  taken : ∀ side, (g.party side).taken = 0
  posts : ∀ side, (g.party side).posts = []

/-! ### Whose addresses are stored -/

/-- The first operation of request `r` goes with that of request `s` of the other process. -/
structure Partners (a b : Party) (r s : Rid) : Prop where
  left : ∀ k, First a.posts r k → k < b.posts.length → First b.posts s k
  right : ∀ k, First b.posts s k → k < a.posts.length → First a.posts r k

/-- What is stored for request `r` of one process, or will be with the next step, is of request `s`
of the other process, whose handshake message says `info`. -/
structure Stored (g : Generations) (side : Side) (r s : Rid) (info : RdmaInfo) : Prop where
  /-- The two have the same place in the order in which requests were initialised. -/
  place : ∃ i : Nat, (g.party side).requests[i]? = some r ∧ (g.party side.other).lane[i]? = some (s, info)
  partners : Partners (g.party side) (g.party side.other) r s
  told : (g.party side).history.infos r ≠ [] → (g.party side).history.proc.remote r = info
  /-- If `s` was freed meanwhile, the two have met. -/
  freed : (g.party side).history.infos r ≠ [] → s ∉ (g.party side.other).history.proc.requestList →
    ∃ k, First (g.party side).posts r k ∧ First (g.party side.other).posts s k
  /-- It is stored while `s` is not freed. -/
  alive : ∀ act g', g.step act = some g' →
    (g'.party side).history.infos r ≠ (g.party side).history.infos r →
      (g'.party side).history.proc.remote r = info ∧
        s ∈ (g.party side.other).history.proc.requestList

/-- What is stored for the requests of one process is of the request whose first payload goes with
the first operation. -/
def Correct (g : Generations) (side : Side) : Prop :=
  ∀ r ∈ (g.party side).requests,
    ((g.party side).history.infos r ≠ [] ∨ ∃ act g', g.step act = some g' ∧
      (g'.party side).history.infos r ≠ (g.party side).history.infos r) →
    ∃ s info, g.Stored side r s info

/-- No operation of a persistent request goes with a plain MPI call. -/
def Unmixed (g : Generations) : GenerationAct → Prop
  | .proc side act => (g.posted side act).isSome = true →
      (g.party side.other).posts[(g.party side).posts.length]? ≠ some none
  | .plain side => ∀ r, (g.party side.other).posts[(g.party side).posts.length]? ≠ some (some r)
  | _ => True

/-- What must hold of the steps. -/
structure Orderly (g : Generations) (act : GenerationAct) : Prop where
  /-- A request is freed only when it is connected. -/
  connected : ∀ side, ∀ r ∈ (g.party side).requests, act = .proc side (.free r) →
    ((g.party side).history.proc.reqs r).type = .send ∨ ((g.party side).history.proc.reqs r).type = .recv
  unmixed : g.Unmixed act
  /-- No handshake message that is received says that the address of its data is `NULL`. -/
  nonNull : ∀ side a, act = .proc side a → (g.party side).history.NonNull a

end Generations

end CompMatch.Rendezvous

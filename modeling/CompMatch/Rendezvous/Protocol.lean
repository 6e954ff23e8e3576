/-
The rendezvous protocol, apart from the code that runs it.

Two parties go through numbered operations.  In each operation the sender has a
payload that must reach the receiver's buffer exactly once.  Either party may come
first.  A party that finds the other already announced moves the payload; a party
that does not, announces itself.  When both announce themselves at once, the
receiver notices and moves the payload.

What a party tells the other is one number per direction: `2 * n + 1` for "I am in
operation `n` and ready", `2 * n + 2` for "the payload of operation `n` is over".
Announcements, payloads and completion notices are on their way for a while before
they land, and landing is a step of its own.

This file is not translated from anything.  It is what `b_send`, `e_send`, `b_recv`
and `e_recv` are for, and `Proofs/Rendezvous` shows that they carry it out.
-/
import CompMatch.Rendezvous.Request

namespace CompMatch.Rendezvous

/-- How far the sender is with the operation it started last. -/
inductive SendStage
  /-- It is over for the sender. -/
  | rest
  /-- It is started, and the flag not looked at yet. -/
  | fresh
  /-- The sender announces itself. -/
  | ready (landed : Bool)
  /-- The sender moves the payload: its own flag is stepped past the announcement,
  the payload has landed, the notice has landed. -/
  | push (stored data notice : Bool)
deriving DecidableEq, Repr

/-- How far a receiver that moves the payload itself has got. -/
structure Pull where
  /-- Its own announcement is still under way. -/
  pending : Bool
  stored : Bool
  /-- The word the announcement and the notice are read from holds the notice. -/
  filled : Bool
  data : Bool
  notice : Bool
  /-- The announcement landed late, as a notice. -/
  torn : Bool
deriving DecidableEq, Repr

inductive RecvStage
  | rest
  | fresh
  | ready (landed : Bool)
  | pull (p : Pull)
deriving DecidableEq, Repr

/-- The state of both parties.  `β` is what a buffer can hold. -/
structure Proto (β : Type*) where
  sendNumber : Int
  recvNumber : Int
  send : SendStage
  recv : RecvStage
  sendFlag : Int
  recvFlag : Int
  /-- The last operation whose payload has landed. -/
  last : Int
  landed : List (Int × Transfer)
  sendBuf : β
  recvBuf : β
  /-- What the send buffer held when an operation was started. -/
  sent : Int → β
  /-- What the receive buffer held when the receiver was told an operation is over. -/
  received : Int → Option β

inductive ProtoAct (β : Type*)
  | sendWrite (b : β)
  | sendStart
  | sendTest
  | sendStore
  | sendReadyLands
  | sendDataLands
  | sendNoticeLands
  | sendReturn
  | recvWrite (b : β)
  | recvStart
  | recvTest
  | recvFetch
  | recvStore
  | recvFill
  | recvReadyLands
  | recvDataLands
  | recvNoticeLands
  | recvReturn

namespace Proto

variable {β : Type*}

/-- One step of either party or of something on its way. -/
def step (a : Proto β) : ProtoAct β → Option (Proto β)
  | .sendWrite b =>
      match a.send with
      | .rest => some { a with sendBuf := b }
      | _ => none
  | .sendStart =>
      match a.send with
      | .rest =>
          some { a with
            sendNumber := a.sendNumber + 1
            send := .fresh
            sent := Function.update a.sent (a.sendNumber + 1) a.sendBuf }
      | _ => none
  | .sendTest =>
      match a.send with
      | .fresh =>
          if a.sendFlag = 2 * a.sendNumber + 1 then some { a with send := .push false false false }
          else some { a with send := .ready false }
      | _ => none
  | .sendStore =>
      match a.send with
      | .push false false false =>
          some { a with send := .push true false false, sendFlag := 2 * a.sendNumber + 2 }
      | _ => none
  | .sendReadyLands =>
      match a.send with
      | .ready false => some { a with send := .ready true, recvFlag := 2 * a.sendNumber + 1 }
      | _ => none
  | .sendDataLands =>
      match a.send with
      | .push true false false =>
          some { a with
            send := .push true true false
            recvBuf := a.sendBuf
            last := a.sendNumber
            landed := a.landed ++ [(a.sendNumber, .put)] }
      | _ => none
  | .sendNoticeLands =>
      match a.send with
      | .push true true false =>
          some { a with send := .push true true true, recvFlag := 2 * a.sendNumber + 2 }
      | _ => none
  | .sendReturn =>
      match a.send with
      | .ready true | .push true true true =>
          if 2 * a.sendNumber + 2 ≤ a.sendFlag then some { a with send := .rest } else none
      | _ => none
  | .recvWrite b =>
      match a.recv with
      | .rest => some { a with recvBuf := b }
      | _ => none
  | .recvStart =>
      match a.recv with
      | .rest => some { a with recvNumber := a.recvNumber + 1, recv := .fresh }
      | _ => none
  | .recvTest =>
      match a.recv with
      | .fresh =>
          if a.recvFlag = 2 * a.recvNumber + 1 then
            some { a with recv := .pull ⟨false, false, false, false, false, false⟩ }
          else some { a with recv := .ready false }
      | _ => none
  | .recvFetch =>
      match a.recv with
      | .ready landed =>
          if a.recvFlag = 2 * a.recvNumber + 1 then
            some { a with recv := .pull ⟨!landed, false, false, false, false, false⟩ }
          else none
      | _ => none
  | .recvStore =>
      match a.recv with
      | .pull p =>
          if p.stored then none
          else some { a with recv := .pull { p with stored := true },
                             recvFlag := 2 * a.recvNumber + 2 }
      | _ => none
  | .recvFill =>
      match a.recv with
      | .pull p => if p.stored then some { a with recv := .pull { p with filled := true } } else none
      | _ => none
  | .recvReadyLands =>
      match a.recv with
      | .ready false => some { a with recv := .ready true, sendFlag := 2 * a.recvNumber + 1 }
      | .pull p =>
          if p.pending then
            if p.filled then
              some { a with recv := .pull { p with pending := false, torn := true },
                            sendFlag := 2 * a.recvNumber + 2 }
            else
              some { a with recv := .pull { p with pending := false },
                            sendFlag := 2 * a.recvNumber + 1 }
          else none
      | _ => none
  | .recvDataLands =>
      match a.recv with
      | .pull p =>
          if p.stored ∧ ¬ p.data then
            some { a with
              recv := .pull { p with data := true }
              recvBuf := a.sendBuf
              last := a.recvNumber
              landed := a.landed ++ [(a.recvNumber, .get)] }
          else none
      | _ => none
  | .recvNoticeLands =>
      match a.recv with
      | .pull p =>
          if p.filled ∧ p.data ∧ ¬ p.pending ∧ ¬ p.notice then
            some { a with recv := .pull { p with notice := true },
                          sendFlag := 2 * a.recvNumber + 2 }
          else none
      | _ => none
  | .recvReturn =>
      match a.recv with
      | .ready true =>
          if 2 * a.recvNumber + 2 ≤ a.recvFlag then
            some { a with
              recv := .rest
              received := Function.update a.received a.recvNumber (some a.recvBuf) }
          else none
      | .pull p =>
          if p.notice ∧ ¬ p.pending then
            some { a with
              recv := .rest
              received := Function.update a.received a.recvNumber (some a.recvBuf) }
          else none
      | _ => none

/-- Both parties rest after operation `k`, with flags no larger than `2 * k`. -/
structure Init (k : Int) (a : Proto β) : Prop where
  sendNumber : a.sendNumber = k
  recvNumber : a.recvNumber = k
  send : a.send = .rest
  recv : a.recv = .rest
  sendFlag : a.sendFlag ≤ 2 * k
  recvFlag : a.recvFlag ≤ 2 * k
  last : a.last = k
  landed : a.landed = []
  received : ∀ n, a.received n = none

end Proto

end CompMatch.Rendezvous

/-
What the rendezvous protocol guarantees.

`Joint` is the invariant: for every pair of stages the two parties can be in
together, what their operation numbers and flags are.  It is read as a table.  The
numbers of the parties differ by at most one; a party that is one operation ahead
has found the other side's old notice in its flag and can only have announced
itself; and a receiver moves the payload itself only while the sender is announced
and not yet past the operation, unless the announcement was overtaken (`torn`).

`last` follows the payloads: the operation whose payload landed last.  It only moves
up, one at a time, which is why every operation has exactly one transfer.
-/
import CompMatch.Lib.Runs
import CompMatch.Rendezvous.Protocol
import Mathlib.Logic.Function.Basic
import Mathlib.Tactic.Common

namespace CompMatch.Rendezvous.Proto

variable {β : Type*}

/-! ### The table of joint stages -/

/-- `f` is `hi` once `b`, and at most `lo` before. -/
def Upto (b : Bool) (f hi lo : Int) : Prop := if b then f = hi else f ≤ lo

/-- What the two parties' stages, numbers and flags can be together. -/
def Joint (a : Proto β) : Prop :=
  match a.send, a.recv with
  | .rest, .rest =>
      a.recvNumber = a.sendNumber ∧ a.last = a.sendNumber ∧
      a.sendFlag ≤ 2 * a.sendNumber + 2 ∧ a.recvFlag ≤ 2 * a.sendNumber + 2 ∧
      a.recvFlag ≠ 2 * a.recvNumber + 1
  | .fresh, .rest =>
      a.sendNumber = a.recvNumber + 1 ∧ a.last = a.recvNumber ∧
      a.sendFlag ≤ 2 * a.sendNumber ∧ a.recvFlag ≤ 2 * a.sendNumber ∧
      a.recvFlag ≠ 2 * a.recvNumber + 1
  | .ready l, .rest =>
      (a.sendNumber = a.recvNumber + 1 ∧ a.last = a.recvNumber ∧
        a.sendFlag ≤ 2 * a.sendNumber ∧ a.recvFlag ≠ 2 * a.recvNumber + 1 ∧
        Upto l a.recvFlag (2 * a.sendNumber + 1) (2 * a.sendNumber)) ∨
      (a.recvNumber = a.sendNumber ∧ a.last = a.sendNumber ∧ l ∧
        a.sendFlag = 2 * a.sendNumber + 2 ∧ a.recvFlag = 2 * a.sendNumber + 2)
  | .push st d f, .rest =>
      a.recvNumber = a.sendNumber ∧ a.last = a.sendNumber ∧ st ∧ d ∧ f ∧
      a.sendFlag = 2 * a.sendNumber + 2 ∧ a.recvFlag = 2 * a.sendNumber + 2
  | .rest, .fresh =>
      a.recvNumber = a.sendNumber + 1 ∧ a.last = a.sendNumber ∧
      a.sendFlag ≤ 2 * a.recvNumber ∧ a.recvFlag ≤ 2 * a.recvNumber
  | .fresh, .fresh =>
      a.recvNumber = a.sendNumber ∧ a.last = a.sendNumber - 1 ∧
      a.sendFlag ≤ 2 * a.sendNumber ∧ a.recvFlag ≤ 2 * a.sendNumber
  | .ready l, .fresh =>
      (a.recvNumber = a.sendNumber ∧ a.last = a.sendNumber - 1 ∧
        a.sendFlag ≤ 2 * a.sendNumber ∧ Upto l a.recvFlag (2 * a.sendNumber + 1) (2 * a.sendNumber)) ∨
      (a.recvNumber = a.sendNumber + 1 ∧ a.last = a.sendNumber ∧ l ∧
        a.sendFlag = 2 * a.recvNumber ∧ a.recvFlag = 2 * a.recvNumber)
  | .push st d f, .fresh =>
      a.recvNumber = a.sendNumber + 1 ∧ a.last = a.sendNumber ∧ st ∧ d ∧ f ∧
      a.sendFlag = 2 * a.recvNumber ∧ a.recvFlag = 2 * a.recvNumber
  | .rest, .ready l =>
      (a.recvNumber = a.sendNumber + 1 ∧ a.last = a.sendNumber ∧
        a.recvFlag ≤ 2 * a.recvNumber ∧ Upto l a.sendFlag (2 * a.recvNumber + 1) (2 * a.recvNumber)) ∨
      (a.recvNumber = a.sendNumber ∧ a.last = a.sendNumber ∧ l ∧
        a.sendFlag = 2 * a.sendNumber + 2 ∧ a.recvFlag = 2 * a.sendNumber + 2)
  | .fresh, .ready l =>
      (a.recvNumber = a.sendNumber ∧ a.last = a.sendNumber - 1 ∧
        a.recvFlag ≤ 2 * a.recvNumber ∧ Upto l a.sendFlag (2 * a.recvNumber + 1) (2 * a.recvNumber)) ∨
      (a.sendNumber = a.recvNumber + 1 ∧ a.last = a.recvNumber ∧ l ∧
        a.sendFlag = 2 * a.sendNumber ∧ a.recvFlag = 2 * a.sendNumber)
  | .ready ls, .ready lr =>
      (a.recvNumber = a.sendNumber ∧ a.last = a.sendNumber - 1 ∧
        Upto ls a.recvFlag (2 * a.sendNumber + 1) (2 * a.sendNumber) ∧
        Upto lr a.sendFlag (2 * a.recvNumber + 1) (2 * a.recvNumber)) ∨
      (a.sendNumber = a.recvNumber + 1 ∧ a.last = a.recvNumber ∧ lr ∧
        a.sendFlag = 2 * a.sendNumber ∧
        (if ls then a.recvFlag = 2 * a.sendNumber + 1 else a.recvFlag = 2 * a.sendNumber)) ∨
      (a.recvNumber = a.sendNumber + 1 ∧ a.last = a.sendNumber ∧ ls ∧
        a.recvFlag = 2 * a.recvNumber ∧
        (if lr then a.sendFlag = 2 * a.recvNumber + 1 else a.sendFlag = 2 * a.recvNumber))
  | .push st d f, .ready l =>
      (a.recvNumber = a.sendNumber ∧ l ∧ (d → st) ∧ (f → d) ∧
        a.last = (if d then a.sendNumber else a.sendNumber - 1) ∧
        a.sendFlag = (if st then 2 * a.sendNumber + 2 else 2 * a.sendNumber + 1) ∧
        Upto f a.recvFlag (2 * a.sendNumber + 2) (2 * a.sendNumber)) ∨
      (a.recvNumber = a.sendNumber + 1 ∧ a.last = a.sendNumber ∧ st ∧ d ∧ f ∧
        a.recvFlag = 2 * a.recvNumber ∧
        (if l then a.sendFlag = 2 * a.recvNumber + 1 else a.sendFlag = 2 * a.recvNumber))
  | .push .., .pull _ => False
  | s, .pull p =>
      (p.data → p.stored) ∧ (p.filled → p.stored) ∧ (p.notice → p.data ∧ p.filled ∧ ¬ p.pending) ∧
      (p.torn → p.filled ∧ ¬ p.pending) ∧
      a.last = (if p.data then a.recvNumber else a.recvNumber - 1) ∧
      ((s = .ready true ∧ a.recvNumber = a.sendNumber ∧
          a.recvFlag = (if p.stored then 2 * a.recvNumber + 2 else 2 * a.recvNumber + 1) ∧
          (if p.notice ∨ p.torn then a.sendFlag = 2 * a.recvNumber + 2
            else a.sendFlag ≤ 2 * a.recvNumber + 1)) ∨
        ((p.notice ∨ p.torn) ∧ a.sendFlag = 2 * a.recvNumber + 2 ∧
          (s = .rest ∧ a.recvNumber = a.sendNumber ∧ a.recvFlag = 2 * a.recvNumber + 2 ∨
            s = .fresh ∧ a.sendNumber = a.recvNumber + 1 ∧ a.recvFlag = 2 * a.recvNumber + 2 ∨
            s = .ready false ∧ a.sendNumber = a.recvNumber + 1 ∧ a.recvFlag = 2 * a.recvNumber + 2 ∨
            s = .ready true ∧ a.sendNumber = a.recvNumber + 1 ∧ a.recvFlag = 2 * a.sendNumber + 1)))

theorem joint_init {k : Int} {a : Proto β} (h : Init k a) : Joint a := by
  obtain ⟨hs, hr, hsend, hrecv, hsf, hrf, hlast, -, -⟩ := h
  simp only [Joint, hsend, hrecv]
  omega

/-- Every step of either party leads from an entry of the table to an entry of the table. -/
theorem joint_step {a a' : Proto β} {act : ProtoAct β} (h : Joint a) (hs : a.step act = some a') :
    Joint a' := by
  obtain ⟨ns, nr, s, r, fs, fr, last, landed, sb, rb, sent, recd⟩ := a
  cases act with
  | sendWrite b =>
      cases s <;> simp only [step, reduceCtorEq, Option.some.injEq] at hs
      subst hs
      cases r <;> exact h
  | sendStart =>
      cases s <;> simp only [step, reduceCtorEq, Option.some.injEq] at hs
      subst hs
      cases r <;> simp only [Joint, Upto] at h ⊢ <;> grind
  | sendTest =>
      cases s <;> simp only [step, reduceCtorEq] at hs
      split at hs <;> obtain rfl := Option.some.inj hs <;>
        cases r <;> simp only [Joint, Upto] at h ⊢ <;> grind
  | sendStore =>
      simp only [step] at hs
      split at hs <;> simp only [reduceCtorEq, Option.some.injEq] at hs
      subst hs
      cases r <;> simp only [Joint, Upto] at h ⊢ <;> grind
  | sendReadyLands =>
      simp only [step] at hs
      split at hs <;> simp only [reduceCtorEq, Option.some.injEq] at hs
      subst hs
      cases r <;> simp only [Joint, Upto] at h ⊢ <;> grind
  | sendDataLands =>
      simp only [step] at hs
      split at hs <;> simp only [reduceCtorEq, Option.some.injEq] at hs
      subst hs
      cases r <;> simp only [Joint, Upto] at h ⊢ <;> grind
  | sendNoticeLands =>
      simp only [step] at hs
      split at hs <;> simp only [reduceCtorEq, Option.some.injEq] at hs
      subst hs
      cases r <;> simp only [Joint, Upto] at h ⊢ <;> grind
  | sendReturn =>
      simp only [step] at hs
      split at hs <;> (try split at hs) <;> simp only [reduceCtorEq, Option.some.injEq] at hs
      all_goals
        subst hs
        cases r <;> simp only [Joint, Upto] at h ⊢ <;> grind
  | recvWrite b =>
      cases r <;> simp only [step, reduceCtorEq, Option.some.injEq] at hs
      subst hs
      cases s <;> exact h
  | recvStart =>
      cases r <;> simp only [step, reduceCtorEq, Option.some.injEq] at hs
      subst hs
      cases s <;> simp only [Joint, Upto] at h ⊢ <;> grind
  | recvTest =>
      cases r <;> simp only [step, reduceCtorEq] at hs
      split at hs <;> obtain rfl := Option.some.inj hs <;>
        cases s <;> simp only [Joint, Upto] at h ⊢ <;> grind
  | recvFetch =>
      cases r <;> simp only [step, reduceCtorEq] at hs
      split at hs <;> simp only [reduceCtorEq, Option.some.injEq] at hs
      subst hs
      cases s <;> simp only [Joint, Upto] at h ⊢ <;> grind
  | recvStore =>
      cases r <;> simp only [step, reduceCtorEq] at hs
      split at hs <;> simp only [reduceCtorEq, Option.some.injEq] at hs
      subst hs
      cases s <;> simp only [Joint] at h ⊢ <;> grind
  | recvFill =>
      cases r <;> simp only [step, reduceCtorEq] at hs
      split at hs <;> simp only [reduceCtorEq, Option.some.injEq] at hs
      subst hs
      cases s <;> simp only [Joint] at h ⊢ <;> grind
  | recvReadyLands =>
      simp only [step] at hs
      split at hs
      · obtain rfl := Option.some.inj hs
        cases s <;> simp only [Joint, Upto] at h ⊢ <;> grind
      · split at hs <;> (try split at hs) <;> simp only [reduceCtorEq, Option.some.injEq] at hs
        all_goals
          subst hs
          cases s <;> simp only [Joint] at h ⊢ <;> grind
      · simp at hs
  | recvDataLands =>
      cases r <;> simp only [step, reduceCtorEq] at hs
      split at hs <;> simp only [reduceCtorEq, Option.some.injEq] at hs
      subst hs
      cases s <;> simp only [Joint] at h ⊢ <;> grind
  | recvNoticeLands =>
      cases r <;> simp only [step, reduceCtorEq] at hs
      split at hs <;> simp only [reduceCtorEq, Option.some.injEq] at hs
      subst hs
      cases s <;> simp only [Joint] at h ⊢ <;> grind
  | recvReturn =>
      simp only [step] at hs
      split at hs <;> (try split at hs) <;> simp only [reduceCtorEq, Option.some.injEq] at hs
      all_goals
        subst hs
        rcases s with _ | _ | (_ | _) | _ <;> simp only [Joint, Upto] at h ⊢ <;> grind

/-- The receiver's Wait returns only once the payload of its operation has landed. -/
theorem last_of_recvReturn {a a' : Proto β} (h : Joint a) (hs : a.step .recvReturn = some a') :
    a.last = a.recvNumber ∧ a.recvNumber ≤ a.sendNumber := by
  obtain ⟨ns, nr, s, r, fs, fr, last, landed, sb, rb, sent, recd⟩ := a
  simp only [step] at hs
  split at hs <;> (try split at hs) <;> simp only [reduceCtorEq, Option.some.injEq] at hs
  all_goals rcases s with _ | _ | (_ | _) | _ <;> simp only [Joint, Upto] at h ⊢ <;> grind

/-- Whatever lands in the receiver's flag, and whatever the receiver stores there, raises it. -/
theorem recvFlag_mono {a a' : Proto β} {act : ProtoAct β} (h : Joint a)
    (hs : a.step act = some a') : a.recvFlag ≤ a'.recvFlag := by
  obtain ⟨ns, nr, s, r, fs, fr, last, landed, sb, rb, sent, recd⟩ := a
  simp only [step] at hs
  (repeat' split at hs) <;> simp only [reduceCtorEq, Option.some.injEq] at hs
  all_goals
    subst hs
    simp only [Joint, Upto] at h ⊢
    grind

/-- The same of the sender's flag. -/
theorem sendFlag_mono {a a' : Proto β} {act : ProtoAct β} (h : Joint a)
    (hs : a.step act = some a') : a.sendFlag ≤ a'.sendFlag := by
  obtain ⟨ns, nr, s, r, fs, fr, last, landed, sb, rb, sent, recd⟩ := a
  simp only [step] at hs
  (repeat' split at hs) <;> simp only [reduceCtorEq, Option.some.injEq] at hs
  all_goals
    subst hs
    simp only [Joint, Upto] at h ⊢
    grind

/-- A sender at rest does not have the announcement of the operation it has finished. -/
def Rested (a : Proto β) : Prop := a.send = .rest → a.sendFlag ≠ 2 * a.sendNumber + 1

theorem rested_init {k : Int} {a : Proto β} (h : Init k a) : Rested a := by
  intro _
  have hf := h.sendFlag
  rw [h.sendNumber]
  omega

theorem rested_step {a a' : Proto β} {act : ProtoAct β} (hJ : Joint a) (h : Rested a)
    (hs : a.step act = some a') : Rested a' := by
  obtain ⟨ns, nr, s, r, fs, fr, last, landed, sb, rb, sent, recd⟩ := a
  simp only [step] at hs
  (repeat' split at hs) <;> simp only [reduceCtorEq, Option.some.injEq] at hs
  all_goals
    subst hs
    simp only [Joint, Upto] at hJ
    simp only [Rested] at h ⊢
    grind

/-- A sender that is done with an operation, or has begun the next one, has seen it landed. -/
theorem last_of_send {a : Proto β} (h : Joint a)
    (hun : ∀ p, a.recv = .pull p → p.pending = false ∧ p.torn = false) :
    a.sendNumber - 1 ≤ a.last ∧ (a.send = .rest → a.sendNumber ≤ a.last) := by
  obtain ⟨ns, nr, s, r, fs, fr, last, landed, sb, rb, sent, recd⟩ := a
  cases s <;> cases r <;> simp only [Joint, Upto] at h ⊢ <;> grind

theorem last_of_recv {a : Proto β} (h : Joint a) :
    a.recvNumber - 1 ≤ a.last ∧ (a.recv = .rest → a.recvNumber ≤ a.last) := by
  obtain ⟨ns, nr, s, r, fs, fr, last, landed, sb, rb, sent, recd⟩ := a
  cases s <;> cases r <;> simp only [Joint, Upto] at h ⊢ <;> grind

/-! ### Every operation has one transfer -/

/-- A step transfers nothing, or it transfers the payload of the next operation. -/
theorem step_landed {a a' : Proto β} {act : ProtoAct β} (h : Joint a)
    (hs : a.step act = some a') :
    (a'.landed = a.landed ∧ a'.last = a.last) ∨
      ∃ t, a'.landed = a.landed ++ [(a.last + 1, t)] ∧ a'.last = a.last + 1 := by
  obtain ⟨ns, nr, s, r, fs, fr, last, landed, sb, rb, sent, recd⟩ := a
  cases act with
  | sendDataLands =>
      simp only [step] at hs
      split at hs <;> simp only [reduceCtorEq, Option.some.injEq] at hs
      subst hs
      have hlast : ns = last + 1 := by
        cases r <;> simp only [Joint] at h <;> grind
      exact Or.inr ⟨.put, by rw [hlast], hlast⟩
  | recvDataLands =>
      cases r <;> simp only [step, reduceCtorEq] at hs
      split at hs <;> simp only [reduceCtorEq, Option.some.injEq] at hs
      rename_i hp
      subst hs
      have hlast : nr = last + 1 := by
        cases s <;> simp only [Joint] at h <;> grind
      exact Or.inr ⟨.get, by rw [hlast], hlast⟩
  | _ =>
      refine Or.inl ?_
      simp only [step] at hs
      (repeat' split at hs) <;> simp only [reduceCtorEq, Option.some.injEq] at hs <;>
        exact hs ▸ ⟨rfl, rfl⟩

/-- The operations whose payload has landed are those from `k + 1` to `last`, once each. -/
structure Counted (k : Int) (a : Proto β) : Prop where
  le : k ≤ a.last
  count : ∀ n, transfersOf a.landed n = if k < n ∧ n ≤ a.last then 1 else 0

theorem counted_init {k : Int} {a : Proto β} (h : Init k a) : Counted k a := by
  refine ⟨Int.le_of_eq h.last.symm, fun n => ?_⟩
  rw [h.landed, h.last, if_neg (by omega), transfersOf_nil]

theorem counted_step {k : Int} {a a' : Proto β} {act : ProtoAct β} (hJ : Joint a)
    (h : Counted k a) (hs : a.step act = some a') : Counted k a' := by
  rcases step_landed hJ hs with ⟨hl, hlast⟩ | ⟨t, hl, hlast⟩
  · refine ⟨hlast ▸ h.le, fun n => ?_⟩
    rw [hl, hlast]
    exact h.count n
  · have hle := h.le
    refine ⟨by omega, fun n => ?_⟩
    rw [hl, hlast, transfersOf_append, h.count n]
    by_cases hn : a.last + 1 = n
    · rw [if_pos hn, if_neg (by omega), if_pos (by omega)]
    · rw [if_neg hn, Nat.add_zero]
      by_cases hin : k < n ∧ n ≤ a.last
      · rw [if_pos hin, if_pos (by omega)]
      · rw [if_neg hin, if_neg (by omega)]

/-- The payload of the operation the receiver fetches is recorded as fetched. -/
def Fetched (a : Proto β) : Prop :=
  ∀ p, a.recv = .pull p → p.data = true → (a.recvNumber, .get) ∈ a.landed

theorem fetched_init {k : Int} {a : Proto β} (h : Init k a) : Fetched a := by
  intro p hp
  rw [h.recv] at hp
  simp at hp

theorem fetched_step {a a' : Proto β} {act : ProtoAct β} (h : Fetched a) (hs : a.step act = some a') :
    Fetched a' := by
  obtain ⟨ns, nr, s, r, fs, fr, last, landed, sb, rb, sent, recd⟩ := a
  simp only [step] at hs
  (repeat' split at hs) <;> simp only [reduceCtorEq, Option.some.injEq] at hs
  all_goals
    subst hs
    simp only [Fetched] at h ⊢
    grind

/-! ### What the receiver is given is what was sent

This needs the announcement to have landed before the receiver fetches: only then
does the sender keep its buffer until the payload is across.
-/

/-- The receiver turns from announcing to fetching only when its announcement has landed. -/
def Timely (a : Proto β) (act : ProtoAct β) : Prop := act = .recvFetch → a.recv = .ready true

structure Payload (a : Proto β) : Prop where
  /-- No announcement is overtaken by the notice. -/
  untorn : ∀ p, a.recv = .pull p → p.pending = false ∧ p.torn = false
  /-- The send buffer keeps the payload for as long as the operation lasts. -/
  holds : a.send ≠ .rest → a.sent a.sendNumber = a.sendBuf
  /-- Once the payload has landed, the receive buffer has it. -/
  delivered : a.recv ≠ .rest → a.last = a.recvNumber → a.recvBuf = a.sent a.recvNumber
  received : ∀ n b, a.received n = some b → b = a.sent n ∧ n ≤ a.sendNumber ∧ n ≤ a.last

theorem payload_init {k : Int} {a : Proto β} (h : Init k a) : Payload a where
  untorn := by intro p hp; rw [h.recv] at hp; simp at hp
  holds := by intro hs; exact absurd h.send hs
  delivered := by intro hr; exact absurd h.recv hr
  received := by intro n b hn; rw [h.received n] at hn; simp at hn

/-- A step that only moves the stages and the flags keeps the payload where it is. -/
theorem Payload.of_stages {a : Proto β} (h : Payload a) {s : SendStage} {r : RecvStage}
    {fs fr : Int} (hsend : s ≠ .rest → a.send ≠ .rest) (hrecv : r ≠ .rest → a.recv ≠ .rest)
    (huntorn : ∀ p, r = .pull p → p.pending = false ∧ p.torn = false) :
    Payload { a with send := s, recv := r, sendFlag := fs, recvFlag := fr } where
  untorn := huntorn
  holds hs := h.holds (hsend hs)
  delivered hr hl := h.delivered (hrecv hr) hl
  received := h.received

theorem payload_step {a a' : Proto β} {act : ProtoAct β} (hJ : Joint a) (h : Payload a)
    (hok : Timely a act) (hs : a.step act = some a') : Payload a' := by
  cases act with
  | sendWrite b =>
      simp only [step] at hs
      split at hs <;> simp only [reduceCtorEq, Option.some.injEq] at hs
      rename_i hrest
      subst hs
      exact ⟨h.untorn, fun hne => absurd hrest hne, h.delivered, h.received⟩
  | sendStart =>
      simp only [step] at hs
      split at hs <;> simp only [reduceCtorEq, Option.some.injEq] at hs
      rename_i hrest
      subst hs
      have hlast : a.last ≤ a.sendNumber := by
        simp only [Joint, hrest] at hJ
        split at hJ <;> grind
      refine ⟨h.untorn, fun _ => Function.update_self .., fun hne hl => ?_, fun n b hn => ?_⟩
      · show a.recvBuf = Function.update a.sent (a.sendNumber + 1) a.sendBuf a.recvNumber
        rw [Function.update_of_ne (by simp only at hl; omega)]
        exact h.delivered hne hl
      · obtain ⟨hb, hle, hla⟩ := h.received n b hn
        refine ⟨?_, by show n ≤ a.sendNumber + 1; omega, hla⟩
        show b = Function.update a.sent (a.sendNumber + 1) a.sendBuf n
        rw [Function.update_of_ne (by omega)]
        exact hb
  | sendDataLands =>
      simp only [step] at hs
      split at hs <;> simp only [reduceCtorEq, Option.some.injEq] at hs
      rename_i hpush
      subst hs
      have hrow : a.recvNumber = a.sendNumber ∧ a.last = a.sendNumber - 1 := by
        simp only [Joint, hpush] at hJ
        split at hJ <;> grind
      have hsent : a.sent a.sendNumber = a.sendBuf := h.holds (by rw [hpush]; simp)
      refine ⟨h.untorn, fun _ => hsent, fun _ _ => ?_, fun n b hn => ?_⟩
      · show a.sendBuf = a.sent a.recvNumber
        rw [hrow.1, hsent]
      · obtain ⟨hb, hle, -⟩ := h.received n b hn
        exact ⟨hb, hle, hle⟩
  | recvWrite b =>
      simp only [step] at hs
      split at hs <;> simp only [reduceCtorEq, Option.some.injEq] at hs
      rename_i hrest
      subst hs
      exact ⟨h.untorn, h.holds, fun hne => absurd hrest hne, h.received⟩
  | recvStart =>
      simp only [step] at hs
      split at hs <;> simp only [reduceCtorEq, Option.some.injEq] at hs
      rename_i hrest
      subst hs
      have hlast : a.last < a.recvNumber + 1 := by
        simp only [Joint, hrest] at hJ
        split at hJ <;> grind
      refine ⟨by simp, h.holds, fun _ hl => ?_, h.received⟩
      simp only at hl
      omega
  | recvFetch =>
      have hready := hok rfl
      simp only [step, hready] at hs
      split at hs <;> simp only [reduceCtorEq, Option.some.injEq] at hs
      subst hs
      exact h.of_stages id (fun _ => by rw [hready]; simp) (by simp)
  | recvDataLands =>
      simp only [step] at hs
      split at hs <;> (try split at hs) <;> simp only [reduceCtorEq, Option.some.injEq] at hs
      rename_i p hpull hp
      subst hs
      obtain ⟨hpend, htorn⟩ := h.untorn p hpull
      have hrow : a.send = .ready true ∧ a.recvNumber = a.sendNumber ∧ a.last = a.recvNumber - 1 := by
        simp only [Joint, hpull] at hJ
        split at hJ <;> grind
      obtain ⟨hsend, hnum, hlast⟩ := hrow
      have hsent : a.sent a.sendNumber = a.sendBuf := h.holds (by rw [hsend]; simp)
      refine ⟨?_, h.holds, fun _ _ => ?_, fun n b hn => ?_⟩
      · rintro q hq
        obtain rfl := RecvStage.pull.inj hq
        exact ⟨hpend, htorn⟩
      · show a.sendBuf = a.sent a.recvNumber
        rw [hnum, hsent]
      · obtain ⟨hb, hle, -⟩ := h.received n b hn
        exact ⟨hb, hle, by show n ≤ a.recvNumber; omega⟩
  | recvReturn =>
      obtain ⟨hlast, hle⟩ := last_of_recvReturn hJ hs
      have hgot : a.recvBuf = a.sent a.recvNumber := by
        refine h.delivered ?_ hlast
        intro hrest
        simp [step, hrest] at hs
      have ha' : a' = { a with
          recv := .rest
          received := Function.update a.received a.recvNumber (some a.recvBuf) } := by
        simp only [step] at hs
        (repeat' split at hs) <;> simp only [reduceCtorEq, Option.some.injEq] at hs <;> exact hs.symm
      subst ha'
      refine ⟨by simp, h.holds, fun hne => absurd rfl hne, fun n b hn => ?_⟩
      by_cases hnr : n = a.recvNumber
      · subst hnr
        simp only [Function.update_self, Option.some.injEq] at hn
        exact ⟨by rw [← hn, hgot], hle, by show a.recvNumber ≤ a.last; omega⟩
      · simp only [Function.update_of_ne hnr] at hn
        exact h.received n b hn
  | recvReadyLands =>
      simp only [step] at hs
      split at hs
      · rename_i hready
        obtain rfl := Option.some.inj hs
        exact h.of_stages id (fun _ => by rw [hready]; simp) (by simp)
      · rename_i p hpull
        simp [(h.untorn p hpull).1] at hs
      · simp at hs
  | _ =>
      -- What is left moves one party's stage and one flag.
      simp only [step] at hs
      (repeat' split at hs) <;> simp only [reduceCtorEq, Option.some.injEq] at hs <;> subst hs <;>
        refine h.of_stages (by simp_all) (by simp_all) ?_ <;> have := h.untorn <;> grind

/-! ### The receiver is told about every operation -/

/-- Every operation the receiver is done with was recorded. -/
def Told (k : Int) (a : Proto β) : Prop :=
  ∀ n, k < n → n < a.recvNumber ∨ (n = a.recvNumber ∧ a.recv = .rest) → ∃ b, a.received n = some b

theorem told_init {k : Int} {a : Proto β} (h : Init k a) : Told k a := by
  intro n hn hdone
  have hk := h.recvNumber
  omega

theorem told_step {k : Int} {a a' : Proto β} {act : ProtoAct β} (h : Told k a)
    (hs : a.step act = some a') : Told k a' := by
  intro n hn hdone
  cases act with
  | recvStart =>
      simp only [step] at hs
      split at hs <;> simp only [reduceCtorEq, Option.some.injEq] at hs
      rename_i hrest
      subst hs
      refine h n hn ?_
      rcases hdone with hlt | ⟨-, hf⟩
      · have hlt' : n < a.recvNumber + 1 := hlt
        by_cases hnr : n = a.recvNumber
        · exact Or.inr ⟨hnr, hrest⟩
        · exact Or.inl (by omega)
      · simp at hf
  | recvReturn =>
      have ha' : a' = { a with
          recv := .rest
          received := Function.update a.received a.recvNumber (some a.recvBuf) } := by
        simp only [step] at hs
        (repeat' split at hs) <;> simp only [reduceCtorEq, Option.some.injEq] at hs <;> exact hs.symm
      subst ha'
      by_cases hnr : n = a.recvNumber
      · subst hnr
        exact ⟨_, Function.update_self ..⟩
      · obtain ⟨b, hb⟩ := h n hn (Or.inl (by rcases hdone with h | ⟨h, -⟩ <;> simp only at h <;> omega))
        refine ⟨b, ?_⟩
        show Function.update a.received a.recvNumber (some a.recvBuf) n = some b
        rw [Function.update_of_ne hnr, hb]
  | _ =>
      simp only [step] at hs
      (repeat' split at hs) <;> simp only [reduceCtorEq, Option.some.injEq] at hs <;> subst hs <;>
        exact h n hn (hdone.imp id (And.imp id (by simp_all)))

/-! ### Over whole runs -/

theorem reach_joint {k : Int} {ok : Proto β → ProtoAct β → Prop} {a : Proto β}
    (h : Reach step ok (Init k) a) : Joint a :=
  h.invariant (fun _ => joint_init) fun _ _ _ hJ _ hs => joint_step hJ hs

theorem reach_rested {k : Int} {ok : Proto β → ProtoAct β → Prop} {a : Proto β}
    (h : Reach step ok (Init k) a) : Rested a := by
  have hboth := h.invariant (I := fun a => Joint a ∧ Rested a)
    (fun _ h0 => ⟨joint_init h0, rested_init h0⟩)
    fun _ _ _ hI _ hs => ⟨joint_step hI.1 hs, rested_step hI.1 hI.2 hs⟩
  exact hboth.2

theorem reach_counted {k : Int} {ok : Proto β → ProtoAct β → Prop} {a : Proto β}
    (h : Reach step ok (Init k) a) : Counted k a := by
  refine (h.invariant (I := fun a => Joint a ∧ Counted k a)
    (fun _ h0 => ⟨joint_init h0, counted_init h0⟩) ?_).2
  rintro _ _ _ ⟨hJ, hC⟩ _ hs
  exact ⟨joint_step hJ hs, counted_step hJ hC hs⟩

theorem reach_fetched {k : Int} {ok : Proto β → ProtoAct β → Prop} {a : Proto β}
    (h : Reach step ok (Init k) a) : Fetched a :=
  h.invariant (fun _ h0 => fetched_init h0) fun _ _ _ h _ hs => fetched_step h hs

theorem reach_told {k : Int} {ok : Proto β → ProtoAct β → Prop} {a : Proto β}
    (h : Reach step ok (Init k) a) : Told k a :=
  h.invariant (fun _ => told_init) fun _ _ _ hT _ hs => told_step hT hs

theorem reach_payload {k : Int} {a : Proto β} (h : Reach step Timely (Init k) a) : Payload a := by
  refine (h.invariant (I := fun a => Joint a ∧ Payload a)
    (fun _ h0 => ⟨joint_init h0, payload_init h0⟩) ?_).2
  rintro _ _ _ ⟨hJ, hP⟩ hok hs
  exact ⟨joint_step hJ hs, payload_step hJ hP hok hs⟩

end CompMatch.Rendezvous.Proto

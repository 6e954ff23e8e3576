/-
Eager messages are received first in, first out.

In eager mode no Wait returns before its message has come, so what holds as long as
that does not happen holds in every run: the sender may be any number of messages
ahead, and the handler may run for them at any time.
-/
import CompMatch.Proofs.ActiveMessage.Delivery

namespace CompMatch.ActiveMessage

/-! ### The Waits are numbered -/

/-- How many Waits are still to return for the operations started. -/
def RecvPc.open : RecvPc → Nat
  | .idle => 0
  | .start _ | .started | .wait _ => 1

/-- Every operation started has had its Wait return, but the one under way. -/
structure Numbered (l : Link) : Prop where
  numbers : l.recv.returned.map Return.number = List.range' 1 l.recv.returned.length
  starts : l.recv.returned.length + l.pc.open = l.recv.starts

section
variable {mode : Mode} {l l' : Link} {r : Local}

theorem Numbered.of_eq (h : Numbered l) (hret : l'.recv.returned = l.recv.returned)
    (hpc : l'.pc.open = l.pc.open) (hstarts : l'.recv.starts = l.recv.starts) : Numbered l' :=
  ⟨by rw [hret]; exact h.numbers, by rw [hret, hpc, hstarts]; exact h.starts⟩

/-- A Wait returns for the operation under way. -/
theorem Numbered.finish (h : Numbered l) (hpc : l.pc.open = 1)
    (hret : r.returned = l.recv.returned) (hstarts : r.starts = l.recv.starts) :
    Numbered { l with pc := .idle, recv := r.recordReturn } := by
  have hs := h.starts
  rw [hpc] at hs
  constructor
  · simp only [Local.recordReturn, hret, List.map_append, List.map_cons, List.map_nil, h.numbers,
      List.length_append, List.length_cons, List.length_nil, Nat.zero_add, List.range'_concat, hstarts,
      ← hs]
    simp [Nat.add_comm]
  · simp only [Local.recordReturn, hret, hstarts, List.length_append, List.length_cons,
      List.length_nil, RecvPc.open]
    omega

theorem Numbered.step (h : Numbered l) {alone : Bool} {a : LinkAct}
    (hs : l.step mode alone a = some l') : Numbered l' := by
  cases a with
  | peer a =>
      simp only [Link.step, Link.peerStep] at hs
      split at hs <;> cases hs
      exact h.of_eq rfl rfl rfl
  | lands n =>
      simp only [Link.step, Link.lands] at hs
      split at hs <;> cases hs
      exact h.of_eq rfl rfl rfl
  | deliver imm =>
      simp only [Link.step, Link.deliver] at hs
      split at hs
      · split at hs <;> cases hs
        exact h.of_eq handler_untouched.returned rfl handler_untouched.starts
      · simp at hs
  | write bytes | mpi amId type backup exchange =>
      simp only [Link.step] at hs
      split at hs <;> cases hs
      exact h.of_eq rfl rfl rfl
  | start =>
      simp only [Link.step] at hs
      split at hs <;> cases hs
      rename_i hc
      have hstarts := h.starts
      rw [hc.1] at hstarts
      exact ⟨h.numbers, congrArg (· + 1) hstarts⟩
  | wait =>
      simp only [Link.step] at hs
      split at hs <;> cases hs
      rename_i hc
      exact h.of_eq rfl (by rw [hc.1]; rfl) rfl
  | run imm =>
      simp only [Link.step, Link.run] at hs
      split at hs
      · rename_i p hpc
        have hu : Untouched l.recv (bRecv mode (l.here imm) p l.recv).2 := bRecv_untouched
        split at hs <;> cases hs <;> rename_i heq <;> rw [heq] at hu
        · exact h.of_eq hu.returned (by rw [hpc]; rfl) hu.starts
        · exact h.of_eq hu.returned (by rw [hpc]; rfl) hu.starts
      · rename_i w hpc
        have hu : Untouched l.recv (eRecv w l.recv).2 := eRecv_untouched
        split at hs <;> cases hs <;> rename_i heq <;> rw [heq] at hu
        · exact h.of_eq hu.returned (by rw [hpc]; rfl) hu.starts
        · exact h.of_eq hu.returned (by rw [hpc]; rfl) hu.starts
        · exact h.finish (by rw [hpc]; rfl) hu.returned hu.starts
      · simp at hs

theorem numbered_init (h : Link.Init l) : Numbered l :=
  ⟨by rw [h.recv.returned]; rfl, by rw [h.recv.returned, h.pc, h.recv.starts]; rfl⟩

end

/-! ### The run theorem -/

section
variable {l l' : Link}

/-- What an eager pair keeps, whenever the handler runs. -/
structure Queued (l : Link) : Prop where
  ordered : Ordered .eager l
  settled : Settled l
  numbered : Numbered l

theorem Queued.step (h : Queued l) {alone : Bool} {a : LinkAct}
    (hs : l.step .eager alone a = some l') : Queued l' := by
  have ho := h.ordered.step h.settled.undisturbed hs
  exact ⟨ho, h.settled.step h.ordered hs (ho.returned rfl), h.numbered.step hs⟩

/-- The queued messages carry the payloads of their numbers. -/
theorem pending_data (h : Ordered .eager l) : l.recv.req.listOfPendingMsgs.map AmMsg.data =
    (List.range' (l.recv.taken.length + 1) l.recv.req.listOfPendingMsgs.length).map
      l.peer.payload := by
  have hs := h.messages.stream
  rw [Link.stream, h.messages.taken, List.append_assoc] at hs
  have hrest : l.recv.req.listOfPendingMsgs.map AmMsg.number ++
      l.peer.inFlight.map AmMsg.number = List.range' (1 + l.recv.taken.length)
        (l.peer.sent - l.recv.taken.length) := by
    have hsplit : List.range' 1 l.peer.sent = List.range' 1 l.recv.taken.length ++
        List.range' (1 + l.recv.taken.length) (l.peer.sent - l.recv.taken.length) := by
      rw [List.range'_append_1, Nat.add_sub_cancel' h.taken_le]
    exact List.append_cancel_left (hs.trans hsplit)
  obtain ⟨k, -, hk, -⟩ := List.range'_eq_append_iff.mp hrest.symm
  have hlen : k = l.recv.req.listOfPendingMsgs.length := by
    simpa using (congrArg List.length hk).symm
  rw [← hlen, Nat.add_comm l.recv.taken.length 1, ← hk, List.map_map]
  refine List.map_congr_left (fun m hm => ?_)
  exact h.messages.data rfl m (List.mem_append_left _ hm)

theorem Queued.fifo (h : Queued l) : l.Fifo := by
  refine ⟨h.numbered.numbers, fun x hx => ?_, pending_data h.ordered, h.ordered.messages.length,
    h.settled.asserted⟩
  exact (h.settled.returned x hx).2.2.2.1

/--
**Eager messages are received first in, first out**, in every run of a pair, whenever
the handler runs.
-/
theorem eager_fifo {alone : Bool}
    (h : Reach (Link.step .eager alone) anyStep Link.Init l) : l.Fifo := by
  have hq := h.invariant (I := Queued)
    (fun _ h0 => ⟨ordered_init h0, settled_init h0, numbered_init h0⟩) fun _ _ _ hq _ hs => hq.step hs
  exact hq.fifo

end

/-! ### A run -/

/-- The sender sends three messages; the receiver takes the first from the list, the second
comes while it waits, and the third is queued. -/
def aheadRun : List LinkAct :=
  [.peer .start, .peer (.run ⟨true, true⟩), .deliver false, .start, .run false, .run false, .wait,
    .run false, .peer (.run ⟨false, true⟩), .peer .wait, .peer (.run ⟨false, true⟩),
    .peer (.write [8]), .start, .run false, .run false, .wait, .run false, .run false, .peer .start,
    .peer (.run ⟨true, true⟩), .deliver false, .run false, .run false, .run false,
    .peer (.run ⟨false, true⟩), .peer .wait, .peer (.run ⟨false, true⟩), .peer (.write [9]),
    .peer .start, .peer (.run ⟨true, true⟩), .deliver false]

theorem aheadRun_fifo :
    match runFrom (Link.step .eager false) freshLink aheadRun with
    | some l => l.Fifo ∧ l.recv.returned.map Return.buf = [[7], [8]] ∧
        l.recv.req.listOfPendingMsgs.map AmMsg.data = [[9]]
    | none => False := by
  have hrun : (runFrom (Link.step .eager false) freshLink aheadRun).any
      (fun l => decide (l.recv.returned.map Return.buf = [[7], [8]] ∧
        l.recv.req.listOfPendingMsgs.map AmMsg.data = [[9]])) = true := by
    decide +kernel
  cases h : runFrom (Link.step .eager false) freshLink aheadRun with
  | none => simp [h] at hrun
  | some l =>
      simp only [h, Option.any_some, decide_eq_true_eq] at hrun
      exact ⟨eager_fifo (.of_runFrom _ (.init freshLink_init) h), hrun⟩

end CompMatch.ActiveMessage

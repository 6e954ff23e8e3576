/-
A search that keeps what is left to look at in a set ordered by addresses.

The items lie in blocks.  One item after another is looked at, until nothing follows
one; then it has named blocks to enter, each at the one item that is its entry, and
further items.  These join the set, but for the entries of the blocks that are marked,
and the item with the least address is taken out of the set, and its block marked.

The order decides which blocks are marked when they are named.  So what the search
comes to may depend on the addresses.  What it can come to is found without them:
`Trail` follows one thread of the search, which marks only the blocks of the items that
it has itself taken.  For every thread there are addresses for which the search takes
just these items.
-/
import CompMatch.Lib.Runs
import Mathlib.Data.List.MinMax
import Mathlib.Data.Set.Finite.Basic
import Mathlib.Data.Countable.Defs

namespace CompMatch

/-- What comes of looking at an item. -/
inductive Turn (α β V : Type*)
  | answers (v : V)
  | fails
  | goes (y : α)
  /-- Blocks to enter, unless they are marked, and items to look at. -/
  | ends (blocks : List β) (again : List α)
deriving DecidableEq

structure WorkList (α β V : Type*) where
  turn : α → Turn α β V
  entry : β → α
  block : α → β
  block_entry : ∀ b, block (entry b) = b
  again_ne_entry : ∀ x bs ys, turn x = .ends bs ys → ∀ y ∈ ys, y ≠ entry (block y)
  finite : {x | turn x ≠ .ends [] []}.Finite

namespace WorkList

variable {α β V : Type*}

inductive State (α β V : Type*)
  | running (next : α) (toCheck : List α) (checked : List β)
  | answered (v : V)
  | failed
  | exhausted

def State.isRunning : State α β V → Bool
  | .running _ _ _ => true
  | _ => false

variable [DecidableEq α] [DecidableEq β] (w : WorkList α β V)

/-- The items that are put into the set. -/
def due (checked : List β) (blocks : List β) (again : List α) : List α :=
  (blocks.filter (· ∉ checked)).map w.entry ++ again

/-- A list without repetitions stands for the set. -/
def insertAll (toCheck items : List α) : List α := toCheck ++ (items.filter (· ∉ toCheck)).dedup

/-- Take the item with the least address. -/
def take (address : α → Nat) (toCheck : List α) (checked : List β) : State α β V :=
  match toCheck.argmin address with
  | none => .exhausted
  | some y => .running y (toCheck.erase y) (w.block y :: checked)

def step (address : α → Nat) : State α β V → State α β V
  | .running x toCheck checked =>
      match w.turn x with
      | .answers v => .answered v
      | .fails => .failed
      | .goes y => .running y toCheck checked
      | .ends blocks again => w.take address (insertAll toCheck (w.due checked blocks again)) checked
  | s => s

/-- The state after `n` turns. -/
def run (address : α → Nat) (start : α) (n : Nat) : State α β V :=
  (w.step address)^[n] (.running start [] [])

/-! ### What one turn does -/

variable {w} {address : α → Nat} {start x y : α} {b : β} {bs cs : List β} {ps ts ys : List α}
  {n : Nat} {v : V}

theorem run_succ : w.run address start (n + 1) = w.step address (w.run address start n) :=
  Function.iterate_succ_apply' _ _ _

omit [DecidableEq α] in
theorem mem_due : y ∈ w.due cs bs ys ↔ (∃ b ∈ bs, b ∉ cs ∧ w.entry b = y) ∨ y ∈ ys := by
  simp only [due, List.mem_append, List.mem_map, List.mem_filter, decide_eq_true_eq, and_assoc]

@[simp] theorem mem_insertAll : y ∈ insertAll ts ys ↔ y ∈ ts ∨ y ∈ ys := by
  simp only [insertAll, List.mem_append, List.mem_dedup, List.mem_filter, decide_eq_true_eq]
  by_cases h : y ∈ ts
  · simp [h]
  · simp [h]

theorem nodup_insertAll (h : ts.Nodup) : (insertAll ts ys).Nodup := by
  refine List.Nodup.append h (List.nodup_dedup _) ?_
  intro y hy hd
  have hn := (List.mem_filter.mp (List.mem_dedup.mp hd)).2
  simp only [decide_eq_true_eq] at hn
  exact hn hy

omit [DecidableEq β] in
/-- Something is taken from a set that is not empty, and nothing in it has a smaller address. -/
theorem take_of_mem (w : WorkList α β V) (address : α → Nat) (cs : List β) (h : y ∈ ts) :
    ∃ q ∈ ts, address q ≤ address y ∧
      w.take address ts cs = .running q (ts.erase q) (w.block q :: cs) := by
  cases hq : ts.argmin address with
  | none => simp [List.argmin_eq_none.mp hq] at h
  | some q =>
      refine ⟨q, List.argmin_mem hq, List.le_of_mem_argmin h hq, ?_⟩
      rw [take, hq]

theorem step_goes (h : w.turn x = .goes y) :
    w.step address (.running x ts cs) = .running y ts cs := by rw [step, h]

theorem step_ends (h : w.turn x = .ends bs ys) : w.step address (.running x ts cs) =
    w.take address (insertAll ts (w.due cs bs ys)) cs := by rw [step, h]

theorem step_answers (h : w.turn x = .answers v) :
    w.step address (.running x ts cs) = .answered v := by rw [step, h]

theorem step_fails (h : w.turn x = .fails) : w.step address (.running x ts cs) = .failed := by
  rw [step, h]

/-- A turn after which the search still runs. -/
theorem step_running {s : State α β V} (h : w.step address s = .running y ts cs) :
    ∃ x ts₀ cs₀, s = .running x ts₀ cs₀ ∧
      ((w.turn x = .goes y ∧ ts = ts₀ ∧ cs = cs₀) ∨
        ∃ bs ys, w.turn x = .ends bs ys ∧ y ∈ insertAll ts₀ (w.due cs₀ bs ys) ∧
          ts = (insertAll ts₀ (w.due cs₀ bs ys)).erase y ∧ cs = w.block y :: cs₀) := by
  cases s with
  | running x ts₀ cs₀ =>
      refine ⟨x, ts₀, cs₀, rfl, ?_⟩
      cases hx : w.turn x with
      | answers v => simp [step_answers hx] at h
      | fails => simp [step_fails hx] at h
      | goes z =>
          rw [step_goes hx] at h
          cases h
          exact .inl ⟨rfl, rfl, rfl⟩
      | ends bs ys =>
          rw [step_ends hx, take] at h
          cases hq : (insertAll ts₀ (w.due cs₀ bs ys)).argmin address with
          | none => simp [hq] at h
          | some q =>
              rw [hq] at h
              cases h
              exact .inr ⟨bs, ys, rfl, List.argmin_mem hq, rfl, rfl⟩
  | answered v => simp [step] at h
  | failed => simp [step] at h
  | exhausted => simp [step] at h

/-! ### Threads -/

variable (w)

/-- One thread of the search has taken `ps`, the last first, and is at an item. -/
inductive Trail (start : α) : List α → α → Prop
  | start : Trail start [] start
  | goes {ps : List α} {x y : α} (h : Trail start ps x) (ht : w.turn x = .goes y) : Trail start ps y
  | enters {ps : List α} {x : α} {bs : List β} {ys : List α} {b : β} (h : Trail start ps x)
      (ht : w.turn x = .ends bs ys) (hb : b ∈ bs) (hn : b ∉ ps.map w.block) :
      Trail start (w.entry b :: ps) (w.entry b)
  | again {ps : List α} {x y : α} {bs : List β} {ys : List α} (h : Trail start ps x)
      (ht : w.turn x = .ends bs ys) (hy : y ∈ ys) : Trail start (y :: ps) y

/-- Some thread gets to the item. -/
def Gets (start x : α) : Prop := ∃ ps, w.Trail start ps x

/-- An item follows another whatever is marked. -/
def Moves (x y : α) : Prop := w.turn x = .goes y ∨ ∃ bs ys, w.turn x = .ends bs ys ∧ y ∈ ys

/-- An item follows another in the same thread. -/
def Goes : α → α → Prop := Relation.ReflTransGen fun x y => w.turn x = .goes y

variable {w}

omit [DecidableEq α] [DecidableEq β] in
/-- The start of what is left to a thread. -/
theorem Trail.here (h : w.Trail start ps x) : w.Goes (ps.headD start) x := by
  induction h with
  | start => exact .refl
  | goes _ ht ih => exact .tail ih ht
  | enters _ _ _ _ _ => exact .refl
  | again _ _ _ _ => exact .refl

omit [DecidableEq α] [DecidableEq β] in
/-- Where an item was that a thread has taken. -/
theorem Trail.behind {q : α} (h : w.Trail start (q :: ps) x) :
    ∃ z bs ys, w.Trail start ps z ∧ w.turn z = .ends bs ys ∧
      ((∃ b ∈ bs, b ∉ ps.map w.block ∧ w.entry b = q) ∨ q ∈ ys) := by
  generalize hqs : q :: ps = qs at h
  induction h with
  | start => cases hqs
  | goes _ _ ih => exact ih hqs
  | enters h ht hb hn _ =>
      cases hqs
      exact ⟨_, _, _, h, ht, .inl ⟨_, hb, hn, rfl⟩⟩
  | again h ht hy _ =>
      cases hqs
      exact ⟨_, _, _, h, ht, .inr hy⟩

omit [DecidableEq α] [DecidableEq β] in
theorem Trail.suffix (h : w.Trail start ps x) (hs : ts <:+ ps) : ∃ z, w.Trail start ts z := by
  induction ps generalizing x with
  | nil =>
      rw [List.suffix_nil.mp hs]
      exact ⟨_, .start⟩
  | cons q rest ih =>
      rcases List.suffix_cons_iff.mp hs with rfl | hs
      · exact ⟨_, h⟩
      · obtain ⟨z, _, _, hz, _⟩ := h.behind
        exact ih hz hs

/-- Everything a run gets to, a thread gets to that has not marked more. -/
structure Threaded (start : α) (ts : List α) (cs : List β) : Prop where
  due : ∀ y ∈ ts, ∃ ps, w.Trail start (y :: ps) y ∧ ∀ b ∈ ps.map w.block, b ∈ cs

omit [DecidableEq α] [DecidableEq β] in
theorem Threaded.mono {ds : List β} (h : w.Threaded start ts cs) (hs : ∀ y ∈ ys, y ∈ ts)
    (hc : ∀ b ∈ cs, b ∈ ds) : w.Threaded start ys ds := by
  refine ⟨fun y hy => ?_⟩
  obtain ⟨ps, ht, hp⟩ := h.due y (hs y hy)
  exact ⟨ps, ht, fun b hb => hc b (hp b hb)⟩

theorem run_threaded : ∀ {n x ts cs}, w.run address start n = .running x ts cs →
    (∃ ps, w.Trail start ps x ∧ ∀ b ∈ ps.map w.block, b ∈ cs) ∧ w.Threaded start ts cs := by
  intro n
  induction n with
  | zero =>
      intro x ts cs h
      cases h
      exact ⟨⟨[], .start, by simp⟩, ⟨by simp⟩⟩
  | succ n ih =>
      intro x ts cs h
      rw [run_succ] at h
      obtain ⟨z, ts₀, cs₀, hs, hz⟩ := step_running h
      obtain ⟨⟨ps, ht, hp⟩, hdue⟩ := ih hs
      rcases hz with ⟨hz, rfl, rfl⟩ | ⟨bs, ys, hz, hx, rfl, rfl⟩
      · exact ⟨⟨ps, .goes ht hz, hp⟩, hdue⟩
      · have hall : w.Threaded start (insertAll ts₀ (w.due cs₀ bs ys)) cs₀ := by
          refine ⟨fun y hy => ?_⟩
          rcases mem_insertAll.mp hy with hy | hy
          · exact hdue.due y hy
          · rcases mem_due.mp hy with ⟨b, hb, hn, rfl⟩ | hy
            · exact ⟨ps, .enters ht hz hb fun hc => hn (hp b hc), hp⟩
            · exact ⟨ps, .again ht hz hy, hp⟩
        obtain ⟨qs, hq, hqs⟩ := hall.due x hx
        constructor
        · refine ⟨x :: qs, hq, fun b hb => ?_⟩
          rcases List.mem_cons.mp hb with rfl | hb
          · exact List.mem_cons_self
          · exact List.mem_cons_of_mem _ (hqs b hb)
        · exact hall.mono (fun y hy => List.mem_of_mem_erase hy) fun b hb => List.mem_cons_of_mem _ hb

/-- What a run gets to, a thread gets to. -/
theorem gets_of_run (h : w.run address start n = .running x ts cs) : w.Gets start x :=
  (run_threaded h).1.imp fun _ h => h.1

/-! ### Addresses for a thread -/

/-- The items of a list have the least addresses, in the order of the list. -/
def listed (qs : List α) (f : α → Nat) (y : α) : Nat :=
  if y ∈ qs then qs.idxOf y else qs.length + f y

theorem listed_injective {qs : List α} {f : α → Nat} (hf : f.Injective) :
    (listed qs f).Injective := by
  intro x y h
  unfold listed at h
  by_cases hx : x ∈ qs
  · by_cases hy : y ∈ qs
    · rw [if_pos hx, if_pos hy] at h
      exact (List.idxOf_inj hx).mp h
    · rw [if_pos hx, if_neg hy] at h
      have hlt := List.idxOf_lt_length_of_mem hx
      omega
  · by_cases hy : y ∈ qs
    · rw [if_neg hx, if_pos hy] at h
      have hlt := List.idxOf_lt_length_of_mem hy
      omega
    · rw [if_neg hx, if_neg hy] at h
      exact hf (Nat.add_left_cancel h)

theorem of_listed_le {qs : List α} {f : α → Nat} (hx : x ∈ qs) (h : listed qs f y ≤ listed qs f x) :
    y ∈ qs ∧ qs.idxOf y ≤ qs.idxOf x := by
  have hlt := List.idxOf_lt_length_of_mem hx
  unfold listed at h
  rw [if_pos hx] at h
  by_cases hy : y ∈ qs
  · rw [if_pos hy] at h
    exact ⟨hy, h⟩
  · rw [if_neg hy] at h
    omega

theorem idxOf_getElem_le {m : Nat} (h : m < ps.length) : ps.idxOf ps[m] ≤ m := by
  have hmem : ps[m] ∈ ps.take (m + 1) := List.mem_take_iff_getElem.mpr ⟨m, by omega, rfl⟩
  have heq : (ps.take (m + 1) ++ ps.drop (m + 1)).idxOf ps[m] = (ps.take (m + 1)).idxOf ps[m] :=
    List.idxOf_append_of_mem hmem
  rw [List.take_append_drop] at heq
  have hlt := List.idxOf_lt_length_of_mem hmem
  rw [List.length_take] at hlt
  omega

/-- A run stays in its thread until something ends. -/
theorem run_goes (h : w.Goes x y) (hr : w.run address start n = .running x ts cs) :
    ∃ k, w.run address start (n + k) = .running y ts cs := by
  induction h with
  | refl => exact ⟨0, hr⟩
  | tail _ ht ih =>
      obtain ⟨k, hk⟩ := ih
      exact ⟨k + 1, by rw [← Nat.add_assoc, run_succ, hk, step_goes ht]⟩

/--
**Every thread is run**, for the addresses that put first what it takes, its last item
at the front.  Whatever is taken is in the thread, and never behind what was taken before.
-/
theorem Trail.run (h : w.Trail start ps x) (more : List α) (f : α → Nat) :
    ∃ n ts cs, w.run (listed (ps ++ more) f) start n = .running x ts cs ∧
      ∀ b ∈ cs, b ∈ ps.map w.block := by
  have hcatch : ∀ m ≤ ps.length, (∃ n ts cs, w.run (listed (ps ++ more) f) start n =
        .running ((ps.drop m).headD start) ts cs ∧ ∀ b ∈ cs, b ∈ (ps.drop m).map w.block) →
      ∃ n ts cs, w.run (listed (ps ++ more) f) start n = .running (ps.headD start) ts cs ∧
        ∀ b ∈ cs, b ∈ ps.map w.block := by
    intro m
    induction m using Nat.strong_induction_on with
    | _ m ih =>
        intro hm hrun
        cases m with
        | zero => exact hrun
        | succ m =>
            obtain ⟨n, ts, cs, hr, hcs⟩ := hrun
            have hdrop : ps.drop m = ps[m] :: ps.drop (m + 1) := List.drop_eq_getElem_cons hm
            obtain ⟨z, hz⟩ := h.suffix (hdrop ▸ List.drop_suffix m ps)
            obtain ⟨z, bs, ys, hz, ht, hq⟩ := hz.behind
            obtain ⟨k, hk⟩ := run_goes hz.here hr
            have hdue : ps[m] ∈ insertAll ts (w.due cs bs ys) := by
              refine mem_insertAll.mpr (.inr (mem_due.mpr ?_))
              exact hq.imp_left fun ⟨b, hb, hn, hq⟩ => ⟨b, hb, fun hc => hn (hcs b hc), hq⟩
            obtain ⟨q, -, hle, htake⟩ := take_of_mem w (listed (ps ++ more) f) cs hdue
            have hmem : ps[m] ∈ ps := List.getElem_mem hm
            obtain ⟨-, hidx⟩ := of_listed_le (List.mem_append_left more hmem) hle
            rw [List.idxOf_append_of_mem hmem] at hidx
            have hle : (ps ++ more).idxOf q ≤ m := Nat.le_trans hidx (idxOf_getElem_le hm)
            have hq : q ∈ ps := by
              by_contra hn
              have hlen : (ps ++ more).idxOf q = ps.length + more.idxOf q :=
                List.idxOf_append_of_notMem hn
              omega
            rw [List.idxOf_append_of_mem hq] at hle
            have hget : ps.drop (ps.idxOf q) = q :: ps.drop (ps.idxOf q + 1) := by
              rw [List.drop_eq_getElem_cons (List.idxOf_lt_length_of_mem hq), List.getElem_idxOf]
            have hnext : w.run (listed (ps ++ more) f) start (n + k + 1) =
                .running ((ps.drop (ps.idxOf q)).headD start)
                  ((insertAll ts (w.due cs bs ys)).erase q) (w.block q :: cs) := by
              rw [run_succ, hk, step_ends ht, htake, hget]
              rfl
            refine ih (ps.idxOf q) (by omega) List.idxOf_le_length ⟨_, _, _, hnext, fun b hb => ?_⟩
            rw [hget]
            rcases List.mem_cons.mp hb with rfl | hb
            · exact List.mem_cons_self
            · have hsub := List.drop_subset_drop_left ps (Nat.succ_le_succ hle)
              exact List.mem_cons_of_mem _ (List.map_subset w.block hsub (hcs b hb))
  obtain ⟨n, ts, cs, hr, hcs⟩ := hcatch ps.length (Nat.le_refl _)
    ⟨0, [], [], by rw [List.drop_length]; rfl, by simp⟩
  obtain ⟨k, hk⟩ := run_goes h.here hr
  exact ⟨n + k, ts, cs, hk, hcs⟩

/-! ### Where runs stop -/

theorem step_stopped {s : State α β V} (h : s.isRunning = false) : w.step address s = s := by
  cases s with
  | running x ts cs => cases h
  | _ => rfl

omit [DecidableEq α] [DecidableEq β] in
theorem exists_of_isRunning {s : State α β V} (h : s.isRunning = true) :
    ∃ x ts cs, s = .running x ts cs := by
  cases s with
  | running x ts cs => exact ⟨x, ts, cs, rfl⟩
  | _ => cases h

/-- Nothing changes after a run has stopped. -/
theorem run_stopped (h : (w.run address start n).isRunning = false) (k : Nat) :
    w.run address start (n + k) = w.run address start n := by
  induction k with
  | zero => rfl
  | succ k ih => rw [← Nat.add_assoc, run_succ, ih, step_stopped h]

/-- A run stops in one state. -/
theorem run_unique {k : Nat} (hn : (w.run address start n).isRunning = false)
    (hk : (w.run address start k).isRunning = false) :
    w.run address start n = w.run address start k := by
  rw [← run_stopped hn k, ← run_stopped hk n, Nat.add_comm]

/-- A run that has stopped was running before, at a turn that stops it. -/
theorem run_stops (h : (w.run address start n).isRunning = false) :
    ∃ k x ts cs, w.run address start k = .running x ts cs ∧
      w.step address (.running x ts cs) = w.run address start n := by
  induction n with
  | zero => cases h
  | succ n ih =>
      rw [run_succ]
      by_cases hs : (w.run address start n).isRunning = false
      · rw [step_stopped hs]
        exact ih hs
      · obtain ⟨x, ts, cs, hr⟩ := exists_of_isRunning (Bool.of_not_eq_false hs)
        exact ⟨n, x, ts, cs, hr, by rw [hr]⟩

theorem step_eq_answered (h : w.step address (.running x ts cs) = .answered v) :
    w.turn x = .answers v := by
  cases hx : w.turn x with
  | answers u =>
      rw [step_answers hx] at h
      cases h
      rfl
  | fails => simp [step_fails hx] at h
  | goes y => simp [step_goes hx] at h
  | ends bs ys =>
      rw [step_ends hx, take] at h
      split at h
      · cases h
      · cases h

theorem step_eq_failed (h : w.step address (.running x ts cs) = .failed) : w.turn x = .fails := by
  cases hx : w.turn x with
  | answers u => simp [step_answers hx] at h
  | fails => rfl
  | goes y => simp [step_goes hx] at h
  | ends bs ys =>
      rw [step_ends hx, take] at h
      split at h
      · cases h
      · cases h

variable [Countable α]

/-- There are addresses for which a run gets to what a thread gets to. -/
theorem Gets.run (h : w.Gets start x) : ∃ address : α → Nat, address.Injective ∧
    ∃ n ts cs, w.run address start n = .running x ts cs := by
  obtain ⟨ps, h⟩ := h
  obtain ⟨f, hf⟩ := exists_injective_nat α
  obtain ⟨n, ts, cs, hr, -⟩ := h.run [] f
  exact ⟨_, listed_injective hf, n, ts, cs, hr⟩

/-- **What the search can answer**, for some addresses, is what threads get to. -/
theorem answered_iff : (∃ address : α → Nat, address.Injective ∧
      ∃ n, w.run address start n = .answered v) ↔
    ∃ x, w.Gets start x ∧ w.turn x = .answers v := by
  constructor
  · rintro ⟨address, -, n, h⟩
    obtain ⟨k, x, ts, cs, hr, hs⟩ := run_stops (by rw [h]; rfl)
    exact ⟨x, gets_of_run hr, step_eq_answered (hs.trans h)⟩
  · rintro ⟨x, hx, hv⟩
    obtain ⟨address, hinj, n, ts, cs, hr⟩ := hx.run
    exact ⟨address, hinj, n + 1, by rw [run_succ, hr, step_answers hv]⟩

/-- The search can fail, for some addresses, where a thread does. -/
theorem failed_iff : (∃ address : α → Nat, address.Injective ∧
      ∃ n, w.run address start n = .failed) ↔ ∃ x, w.Gets start x ∧ w.turn x = .fails := by
  constructor
  · rintro ⟨address, -, n, h⟩
    obtain ⟨k, x, ts, cs, hr, hs⟩ := run_stops (by rw [h]; rfl)
    exact ⟨x, gets_of_run hr, step_eq_failed (hs.trans h)⟩
  · rintro ⟨x, hx, hv⟩
    obtain ⟨address, hinj, n, ts, cs, hr⟩ := hx.run
    exact ⟨address, hinj, n + 1, by rw [run_succ, hr, step_fails hv]⟩

end WorkList

end CompMatch

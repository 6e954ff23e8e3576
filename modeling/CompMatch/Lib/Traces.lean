/-
What the executions of two programs with procedures have in common.

An execution goes through locations, and each of them shows something.  One program
follows another one if, wherever both have got to in the same way, what the other one does
next it can do too, and they show the same.  Either may go on alone where it shows nothing.
Then whatever an execution of the one has shown, one of the other shows.

`Follows` is about one activation at a time; what holds of whole stacks is derived.  A
condition says which steps are taken in either program.
-/
import CompMatch.Lib.Procedures
import Mathlib.Data.List.Forall2

namespace CompMatch

variable {P L K E α β : Type*}

/-- An execution, with what it has shown. -/
structure Execution (P L E α : Type*) where
  stack : List (P × Spot L E)
  trace : List α

namespace Procedures

/-- What a step shows: what the location shows that is left, or entered from. -/
def shows (visible : P → L → List α) : List (P × Spot L E) → Choice → List α
  | (f, .at l) :: _, .goes _ | (f, .at l) :: _, .enters => visible f l
  | _, _ => []

def exec (pr : Procedures P L E) (visible : P → L → List α) (x : Execution P L E α) (c : Choice) :
    Option (Execution P L E α) :=
  (pr.step x.stack c).map fun stack => ⟨stack, x.trace ++ shows visible x.stack c⟩

/-- `f` was called, and nothing has happened yet. -/
def Begins (pr : Procedures P L E) (f : P) (x : Execution P L E α) : Prop :=
  pr.Started f x.stack ∧ x.trace = []

/-- A step from a location to another one meets a condition. -/
def Meets (ok : P → L → Nat → Prop) (x : Execution P L E α) (c : Choice) : Prop :=
  ∀ f l rest i, x.stack = (f, .at l) :: rest → c = .goes i → ok f l i

/-- An activation goes on and shows nothing. -/
inductive Alone (pr : Procedures P L E) (visible : P → L → List α) (ok : P → L → Nat → Prop) (f : P) :
    L → L → Prop
  | here (l : L) : Alone pr visible ok f l l
  | goes {l m n : L} {i : Nat} (ht : pr.target f l = none) (hn : (pr.next f l)[i]? = some (.at m))
      (hok : ok f l i) (hv : visible f l = []) (h : Alone pr visible ok f m n) :
      Alone pr visible ok f l n

theorem Alone.run {pr : Procedures P L E} {visible : P → L → List α} {ok : P → L → Nat → Prop} {f : P}
    {l m : L} {init : Execution P L E α → Prop} (h : Alone pr visible ok f l m) :
    ∀ {rest trace}, Reach (pr.exec visible) (Meets ok) init ⟨(f, .at l) :: rest, trace⟩ →
      Reach (pr.exec visible) (Meets ok) init ⟨(f, .at m) :: rest, trace⟩ := by
  induction h with
  | here l =>
      intro rest trace hr
      exact hr
  | @goes l m n i ht hn hok hv h ih =>
      intro rest trace hr
      refine ih (.step hr (a := .goes i) ?_ ?_)
      · rintro f' l' rest' i' heq hc
        cases heq
        cases hc
        exact hok
      · simp [exec, step, ht, hn, shows, hv]

/-- An execution of which less is shown. -/
theorem Begins.view {pr : Procedures P L E} {visible : P → L → List α} {ok : P → L → Nat → Prop} {f : P}
    {x : Execution P L E α} (k : α → List β) (h : Reach (pr.exec visible) (Meets ok) (pr.Begins f) x) :
    Reach (pr.exec fun f l => (visible f l).flatMap k) (Meets ok) (pr.Begins f)
      ⟨x.stack, x.trace.flatMap k⟩ := by
  induction h with
  | @init x h =>
      refine .init ⟨h.1, ?_⟩
      show x.trace.flatMap k = []
      rw [h.2]
      rfl
  | @step x x' c _ hok hs ih =>
      obtain ⟨stack, hstep, rfl⟩ := Option.map_eq_some_iff.mp hs
      refine .step ih (a := c) hok ?_
      simp only [exec, hstep, Option.map_some, List.flatMap_append]
      unfold shows
      split <;> rfl

/-- It can be seen in full. -/
theorem Begins.of_view {pr : Procedures P L E} {visible : P → L → List α} {ok : P → L → Nat → Prop} {f : P}
    {k : α → List β} {y : Execution P L E β}
    (h : Reach (pr.exec fun f l => (visible f l).flatMap k) (Meets ok) (pr.Begins f) y) :
    ∃ x, Reach (pr.exec visible) (Meets ok) (pr.Begins f) x ∧ y.stack = x.stack ∧
      y.trace = x.trace.flatMap k := by
  refine h.simulate (R := fun (y : Execution P L E β) (x : Execution P L E α) =>
    y.stack = x.stack ∧ y.trace = x.trace.flatMap k) ?_ ?_
  · rintro ⟨stack, trace⟩ ⟨hstack, htrace⟩
    exact ⟨⟨stack, []⟩, ⟨hstack, rfl⟩, rfl, htrace⟩
  · rintro ⟨stack, trace⟩ y' c x ⟨rfl, rfl⟩ hx hok hs
    obtain ⟨stack', hstep, rfl⟩ := Option.map_eq_some_iff.mp hs
    refine ⟨⟨stack', x.trace ++ shows visible x.stack c⟩, .step hx (a := c) hok ?_, rfl, ?_⟩
    · simp only [exec, hstep, Option.map_some]
    · simp only [List.flatMap_append]
      unfold shows
      split <;> rfl

end Procedures

/-- Two activations are at related locations, or were left in the same way. -/
inductive Spot.Alike (R : L → K → Prop) : Spot L E → Spot K E → Prop
  | at {l : L} {k : K} (h : R l k) : Alike R (.at l) (.at k)
  | left (e : E) : Alike R (.left e) (.left e)

section
variable (A : Procedures P L E) (B : Procedures P K E) (visA : P → L → List α) (visB : P → K → List α)
  (okA : P → L → Nat → Prop) (okB : P → K → Nat → Prop) (R : P → L → K → Prop)

/-- The program `B` does what `A` does. -/
structure Follows : Prop where
  entry : ∀ f, R f (A.entry f) (B.entry f)
  goes : ∀ {f l k i s}, R f l k → A.target f l = none → (A.next f l)[i]? = some s → okA f l i →
    (visA f l = [] ∧ ∃ l', s = .at l' ∧ R f l' k) ∨
      ∃ k' j t, B.Alone visB okB f k k' ∧ visA f l = visB f k' ∧ B.target f k' = none ∧
        (B.next f k')[j]? = some t ∧ okB f k' j ∧ s.Alike (R f) t
  enters : ∀ {f l k g}, R f l k → A.target f l = some g →
    ∃ k', B.Alone visB okB f k k' ∧ visA f l = visB f k' ∧ B.target f k' = some g ∧
      ∀ e, (A.after f l e).Alike (R f) (B.after f k' e)

/-- Two activations that go on in the same way when what they have entered is left. -/
def Waits (x : P × Spot L E) (y : P × Spot K E) : Prop :=
  ∃ f l k, x = (f, .at l) ∧ y = (f, .at k) ∧ ∀ e, (A.after f l e).Alike (R f) (B.after f k e)

/-- Two executions that correspond to each other, and have shown the same. -/
inductive Paired : Execution P L E α → Execution P K E α → Prop
  | mk {f : P} {s : Spot L E} {t : Spot K E} {rest : List (P × Spot L E)} {rest' : List (P × Spot K E)}
      {trace : List α} (htop : s.Alike (R f) t) (hrest : List.Forall₂ (Waits A B R) rest rest') :
      Paired ⟨(f, s) :: rest, trace⟩ ⟨(f, t) :: rest', trace⟩

end

theorem Paired.trace_eq {A : Procedures P L E} {B : Procedures P K E} {R : P → L → K → Prop}
    {x : Execution P L E α} {y : Execution P K E α} (h : Paired A B R x y) : x.trace = y.trace := by
  cases h
  rfl

namespace Follows

variable {A : Procedures P L E} {B : Procedures P K E} {visA : P → L → List α}
  {visB : P → K → List α} {okA : P → L → Nat → Prop} {okB : P → K → Nat → Prop}
  {R : P → L → K → Prop} {x x' : Execution P L E α} {y : Execution P K E α} {c : Procedures.Choice}
  {init : Execution P K E α → Prop}

/-- **Step lemma.** -/
theorem step (h : Follows A B visA visB okA okB R) (hp : Paired A B R x y)
    (hy : Reach (B.exec visB) (Procedures.Meets okB) init y) (hok : Procedures.Meets okA x c)
    (hs : A.exec visA x c = some x') :
    ∃ y', Reach (B.exec visB) (Procedures.Meets okB) init y' ∧ Paired A B R x' y' := by
  obtain ⟨htop, hrest⟩ := hp
  rename_i f s t rest rest' trace
  obtain ⟨stack, hstep, rfl⟩ := Option.map_eq_some_iff.mp hs
  cases c with
  | goes i =>
      cases htop with
      | left e => simp [Procedures.step] at hstep
      | @«at» l k hR =>
          simp only [Procedures.step] at hstep
          split at hstep
          · cases hstep
          · rename_i htarget
            obtain ⟨s', hnext, rfl⟩ := Option.map_eq_some_iff.mp hstep
            rcases h.goes hR htarget hnext (hok f l rest i rfl rfl) with
              ⟨hvis, l', rfl, hR'⟩ | ⟨k', j, t', halone, hvis, htargetB, hnextB, hokB, halike⟩
            · refine ⟨_, hy, ?_⟩
              show Paired A B R ⟨_, trace ++ visA f l⟩ _
              rw [hvis, List.append_nil]
              exact ⟨.at hR', hrest⟩
            · refine ⟨⟨(f, t') :: rest', trace ++ visB f k'⟩, .step (halone.run hy) (a := .goes j) ?_ ?_, ?_⟩
              · rintro f' l' rest'' i' heq hc
                cases heq
                cases hc
                exact hokB
              · simp [Procedures.exec, Procedures.step, htargetB, hnextB, Procedures.shows]
              · show Paired A B R ⟨_, trace ++ visA f l⟩ _
                rw [hvis]
                exact ⟨halike, hrest⟩
  | enters =>
      cases htop with
      | left e => simp [Procedures.step] at hstep
      | @«at» l k hR =>
          obtain ⟨g, htarget, rfl⟩ := Option.map_eq_some_iff.mp hstep
          obtain ⟨k', halone, hvis, htargetB, hafter⟩ := h.enters hR htarget
          refine ⟨⟨(g, .at (B.entry g)) :: (f, .at k') :: rest', trace ++ visB f k'⟩,
            .step (halone.run hy) (a := .enters) ?_ ?_, ?_⟩
          · rintro f' l' rest'' i' heq hc
            cases hc
          · simp [Procedures.exec, Procedures.step, htargetB, Procedures.shows]
          · show Paired A B R ⟨_, trace ++ visA f l⟩ _
            rw [hvis]
            exact ⟨.at (h.entry g), .cons ⟨f, l, k', rfl, rfl, hafter⟩ hrest⟩
  | leaves =>
      cases htop with
      | @«at» l k hR => cases hstep
      | left e =>
          cases hrest with
          | nil => cases hstep
          | cons hwaits hrest =>
              obtain ⟨g, l, k, rfl, rfl, hafter⟩ := hwaits
              cases hstep
              refine ⟨⟨(g, B.after g k e) :: _, trace ++ []⟩, .step hy (a := .leaves) ?_ rfl, ⟨hafter e, hrest⟩⟩
              rintro f' l' rest'' i' heq hc
              cases hc

theorem begins (h : Follows A B visA visB okA okB R) {f : P} (hx : A.Begins f x) :
    ∃ y : Execution P K E α, B.Begins f y ∧ Paired A B R x y := by
  obtain ⟨stack, trace⟩ := x
  obtain ⟨hstack, htrace⟩ := hx
  obtain rfl : stack = _ := hstack
  obtain rfl : trace = [] := htrace
  exact ⟨⟨[(f, .at (B.entry f))], []⟩, ⟨rfl, rfl⟩, ⟨.at (h.entry f), .nil⟩⟩

/-- **What an execution of the one program has shown, one of the other shows.** -/
theorem reach (h : Follows A B visA visB okA okB R) {f : P}
    (hx : Reach (A.exec visA) (Procedures.Meets okA) (A.Begins f) x) :
    ∃ y, Reach (B.exec visB) (Procedures.Meets okB) (B.Begins f) y ∧ Paired A B R x y :=
  hx.simulate (fun _ hx => h.begins hx) fun _ _ _ _ hp hy hok hs => h.step hp hy hok hs

end Follows

/-! ### What comes after what -/

/-- Every item fits the one before it; `last` comes before the first one. -/
def Consecutive (ok : Option α → α → Prop) : Option α → List α → Prop
  | _, [] => True
  | last, x :: rest => ok last x ∧ Consecutive ok (some x) rest

/-- What may come next is what may come first. -/
def Idle (ok : Option α → α → Prop) (last : Option α) : Prop := ∀ x, ok last x ↔ ok none x

/-- Every use comes after an item that begins, and before all that end. -/
def Bracketed (begins ends uses : α → Bool) (trace : List α) : Prop :=
  ∀ before x after, trace = before ++ x :: after → uses x = true →
    (∃ y ∈ before, begins y = true) ∧ ∀ y ∈ before, ends y = false

section
variable {ok : Option α → α → Prop} {last last' : Option α} {l : List α} {x y : α}

theorem Consecutive.of_idle (h : Consecutive ok last l) (hl : Idle ok last) (hl' : Idle ok last') :
    Consecutive ok last' l := by
  cases l with
  | nil => trivial
  | cons x rest => exact ⟨(hl' x).mpr ((hl x).mp h.1), h.2⟩

theorem consecutive_append : ∀ {l : List α} {last : Option α} {l' : List α},
    Consecutive ok last (l ++ l') ↔ Consecutive ok last l ∧ Consecutive ok (l.getLast?.or last) l' := by
  intro l
  induction l with
  | nil =>
      intro last l'
      exact (and_iff_right trivial).symm
  | cons x rest ih =>
      intro last l'
      have hlast : (x :: rest).getLast?.or last = rest.getLast?.or (some x) := by
        cases rest with
        | nil => rfl
        | cons y rest => simp [List.getLast?_cons]
      rw [List.cons_append, Consecutive, Consecutive, ih, hlast, and_assoc]

/-- Two items that follow each other. -/
theorem Consecutive.next {p s : List α} (h : Consecutive ok last (p ++ x :: y :: s)) : ok (some x) y :=
  (consecutive_append.mp h).2.2.1

end

/--
A trace that corresponds to one in which every use is bracketed, with other items in between:
if what begins is followed by what begins here, and what ends here by what ends, every use here
is bracketed too.
-/
theorem Bracketed.map {begins ends uses : α → Bool} {begins' ends' uses' keeps : β → Bool} {e : α → β}
    {ok : Option β → β → Prop} {trace : List α} {trace' : List β} (h : Bracketed begins ends uses trace)
    (hmap : trace'.filter keeps = trace.map e) (hok : Consecutive ok none trace')
    (huses : ∀ y, uses' y = true → keeps y = true) (hsource : ∀ x ∈ trace, uses' (e x) = true → uses x = true)
    (hbegins : ∀ x ∈ trace, ∀ y, ok (some (e x)) y → begins x = true → begins' y = true ∧ uses' y = false)
    (hends : ∀ y z, ok (some y) z → ends' y = true →
      keeps z = true ∧ uses' z = false ∧ ∀ x ∈ trace, z = e x → ends x = true) :
    Bracketed begins' ends' uses' trace' := by
  intro before z after heq hz
  -- what comes before the use, in either trace
  rw [heq, List.filter_append, List.filter_cons_of_pos (huses z hz)] at hmap
  obtain ⟨before₀, rest₀, rfl, hbefore, hrest⟩ := List.map_eq_append_iff.mp hmap.symm
  obtain ⟨x, after₀, rfl, rfl, -⟩ := List.map_eq_cons_iff.mp hrest
  have hx : x ∈ before₀ ++ x :: after₀ := List.mem_append_right _ List.mem_cons_self
  obtain ⟨hbegun, hnot⟩ := h before₀ x after₀ rfl (hsource x hx hz)
  have hmem : ∀ {k}, k ∈ before₀ → k ∈ before₀ ++ x :: after₀ := List.mem_append_left _
  rw [heq] at hok
  constructor
  · obtain ⟨k, hk, hbk⟩ := hbegun
    have hek : e k ∈ before := List.mem_of_mem_filter (hbefore ▸ List.mem_map_of_mem hk)
    obtain ⟨p, s, rfl⟩ := List.append_of_mem hek
    cases s with
    | nil =>
        rw [List.append_assoc] at hok
        obtain ⟨-, hno⟩ := hbegins k (hmem hk) _ hok.next hbk
        rw [hz] at hno
        cases hno
    | cons y s =>
        rw [List.append_assoc] at hok
        exact ⟨y, by simp, (hbegins k (hmem hk) y hok.next hbk).1⟩
  · intro y hy
    by_contra hend
    rw [Bool.not_eq_false] at hend
    obtain ⟨p, s, rfl⟩ := List.append_of_mem hy
    rw [List.append_assoc] at hok
    cases s with
    | nil =>
        obtain ⟨-, hno, -⟩ := hends y _ hok.next hend
        rw [hz] at hno
        cases hno
    | cons w s =>
        obtain ⟨hkeep, -, hsrc⟩ := hends y w hok.next hend
        have hw : w ∈ before₀.map e := by
          rw [hbefore]
          exact List.mem_filter.mpr ⟨by simp, hkeep⟩
        obtain ⟨k, hk, rfl⟩ := List.mem_map.mp hw
        have hno := hnot k hk
        rw [hsrc k (hmem hk) rfl] at hno
        cases hno

end CompMatch

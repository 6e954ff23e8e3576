/-
When the search through an iteration finds a path.

The search visits blocks in depth first order, and does not go on behind `block2`.  A
path is found below `block1`, or not at all: with `block1` on the path the search comes
to just those blocks to which a path leads over blocks that were not visited before
`block1`.  So what is found does not depend on the paths there are, but on the order in
which the blocks are visited.
-/
import CompMatch.Pass.LoopIteration

namespace CompMatch.Pass

namespace LoopBody

open DepthFirst

variable {m : Module} {l : LoopBody m} {block1 block2 cur : BlockId} {seen mid seen' ws : List BlockId}
  {enc : Bool} {n : Nat}

theorem mem_onward {a b : BlockId} :
    b ∈ l.onward block2 a ↔ b ∈ l.getSuccessors a ∧ l.contains b = true ∧ b ≠ block2 := by
  simp [onward]

theorem mem_blocks {b : BlockId} (h : l.contains b = true) : b ∈ l.blocks := of_decide_eq_true h

/-! ### The result does not depend on the bound -/

theorem trySuccessors_mono {f g : BlockId → List BlockId → Option (Bool × List BlockId)}
    (hfg : ∀ b visited r, f b visited = some r → g b visited = some r) {r : Bool × List BlockId}
    (h : l.trySuccessors f ws seen = some r) : l.trySuccessors g ws seen = some r := by
  induction ws generalizing seen with
  | nil => exact h
  | cons b ws ih =>
      rw [trySuccessors] at h ⊢
      split
      · rename_i hb
        rw [if_pos hb] at h
        obtain ⟨⟨found, visited⟩, hf, h⟩ := Option.bind_eq_some_iff.mp h
        rw [hfg b seen _ hf, Option.bind_some]
        cases found with
        | true => exact h
        | false => exact ih h
      · rename_i hb
        rw [if_neg hb] at h
        exact ih h

theorem isPath_succ {r : Bool × List BlockId} (h : l.isPathInLoopIter block1 block2 n cur enc seen = some r) :
    l.isPathInLoopIter block1 block2 (n + 1) cur enc seen = some r := by
  induction n generalizing cur enc seen r with
  | zero => cases h
  | succ n ih =>
      rw [isPathInLoopIter] at h ⊢
      split
      · rename_i hcur
        rw [if_pos hcur] at h
        exact h
      · rename_i hcur
        rw [if_neg hcur] at h
        exact trySuccessors_mono (fun b visited r hr => ih hr) h

theorem isPath_mono {k : Nat} {r : Bool × List BlockId} (hk : n ≤ k)
    (h : l.isPathInLoopIter block1 block2 n cur enc seen = some r) :
    l.isPathInLoopIter block1 block2 k cur enc seen = some r := by
  induction k, hk using Nat.le_induction with
  | base => exact h
  | succ k _ ih => exact isPath_succ ih

theorem Returns.unique {r r' : Bool} (h : l.Returns block1 block2 r) (h' : l.Returns block1 block2 r') :
    r = r' := by
  obtain ⟨n, visited, h⟩ := h
  obtain ⟨k, visited', h'⟩ := h'
  have hn := isPath_mono (Nat.le_add_right n k) h
  have hk := isPath_mono (Nat.le_add_left k n) h'
  rw [hn] at hk
  cases hk
  rfl

/-! ### What a call finds -/

/-- With `block1` on the path, a path is found at a new block from which control can go to `block2`. -/
def FindsBehind (l : LoopBody m) (block2 : BlockId) (seen seen' : List BlockId) : Prop :=
  ∃ x ∈ seen', x ∉ seen ∧ l.Arrives block2 x

/-- Before, it is found if `block1` is new, and `block2` can be reached from there over blocks
that were not visited before. -/
def FindsAfter (l : LoopBody m) (block1 block2 : BlockId) (seen seen' : List BlockId) : Prop :=
  ∃ later before, seen' = later ++ block1 :: before ∧ seen <:+ before ∧
    ∃ x, FreshPath (l.onward block2) before block1 x ∧ l.Arrives block2 x

def Finds (l : LoopBody m) (block1 block2 : BlockId) (enc : Bool) (seen seen' : List BlockId) : Prop :=
  if enc then l.FindsBehind block2 seen seen' else l.FindsAfter block1 block2 seen seen'

theorem Finds.irrefl (seen : List BlockId) : ¬ l.Finds block1 block2 enc seen seen := by
  unfold Finds
  split
  · rintro ⟨x, hx, hn, -⟩
    exact hn hx
  · rintro ⟨later, before, heq, hs, -⟩
    have hlen := hs.length_le
    rw [heq, List.length_append, List.length_cons] at hlen
    omega

/-- What is found in two parts of the search is found in one of them. -/
theorem finds_trans (h : seen <:+ mid) (h' : mid <:+ seen') : l.Finds block1 block2 enc seen seen' ↔
    l.Finds block1 block2 enc seen mid ∨ l.Finds block1 block2 enc mid seen' := by
  unfold Finds
  split
  · constructor
    · rintro ⟨x, hx, hn, ha⟩
      by_cases hm : x ∈ mid
      · exact .inl ⟨x, hm, hn, ha⟩
      · exact .inr ⟨x, hx, hm, ha⟩
    · rintro (⟨x, hx, hn, ha⟩ | ⟨x, hx, hn, ha⟩)
      · exact ⟨x, h'.subset hx, hn, ha⟩
      · exact ⟨x, hx, fun hs => hn (h.subset hs), ha⟩
  · constructor
    · rintro ⟨later, before, rfl, hs, hx⟩
      rcases List.suffix_or_suffix_of_suffix h' (List.suffix_append later (block1 :: before)) with hm | hm
      · rcases List.suffix_cons_iff.mp hm with rfl | hm
        · exact .inl ⟨[], before, rfl, hs, hx⟩
        · exact .inr ⟨later, before, rfl, hm, hx⟩
      · obtain ⟨newer, hnewer⟩ := hm
        exact .inl ⟨newer, before, hnewer.symm, hs, hx⟩
    · rintro (⟨later, before, rfl, hs, hx⟩ | ⟨later, before, rfl, hm, hx⟩)
      · obtain ⟨newer, rfl⟩ := h'
        exact ⟨newer ++ later, before, by rw [List.append_assoc], hs, hx⟩
      · exact ⟨later, before, rfl, h.trans hm, hx⟩

/-- Where an item lies in two lists without repetitions that are one. -/
theorem suffix_of_ne {a b : BlockId} {xs ys : List BlockId} (hab : a ≠ b) (hxs : a :: xs <:+ seen')
    (hys : b :: ys <:+ seen') (hs : ys <:+ xs) : b :: ys <:+ xs := by
  rcases List.suffix_or_suffix_of_suffix hys hxs with h | h
  · rcases List.suffix_cons_iff.mp h with heq | h
    · cases heq
      exact (hab rfl).elim
    · exact h
  · rcases List.suffix_cons_iff.mp h with heq | h
    · cases heq
      exact (hab rfl).elim
    · have hlen := h.length_le
      have hle := hs.length_le
      rw [List.length_cons] at hlen
      omega

theorem eq_of_suffix {a : BlockId} {xs ys : List BlockId} (hn : seen'.Nodup) (hxs : a :: xs <:+ seen')
    (hys : a :: ys <:+ seen') : xs = ys := by
  have hone : ∀ {us vs : List BlockId}, a :: us <:+ seen' → a :: vs <:+ a :: us → us = vs := by
    intro us vs hus h
    rcases List.suffix_cons_iff.mp h with heq | h
    · cases heq
      rfl
    · exact ((List.nodup_cons.mp (hn.sublist hus.sublist)).1 (h.subset List.mem_cons_self)).elim
  rcases List.suffix_or_suffix_of_suffix hxs hys with h | h
  · exact (hone hys h).symm
  · exact hone hxs h

/-- What a call for a block finds, at the block itself or behind it. -/
theorem finds_cons (hn : cur ∉ seen) (hnodup : seen.Nodup)
    (h : visit (l.onward block2) n cur seen = some seen') :
    l.Finds block1 block2 enc seen seen' ↔ (enc || cur = block1) = true ∧ l.Arrives block2 cur ∨
      l.Finds block1 block2 (enc || cur = block1) (cur :: seen) seen' := by
  obtain ⟨hgrows, hsuffix⟩ := visit_grows hn h
  have hbehind : l.FindsBehind block2 seen seen' ↔
      l.Arrives block2 cur ∨ l.FindsBehind block2 (cur :: seen) seen' := by
    constructor
    · rintro ⟨x, hx, hxn, ha⟩
      by_cases hxc : x = cur
      · exact .inl (hxc ▸ ha)
      · exact .inr ⟨x, hx, by simp [hxc, hxn], ha⟩
    · rintro (ha | ⟨x, hx, hxn, ha⟩)
      · exact ⟨cur, hsuffix.subset List.mem_cons_self, hn, ha⟩
      · exact ⟨x, hx, fun hs => hxn (List.mem_cons_of_mem _ hs), ha⟩
  cases enc with
  | true => simpa [Finds] using hbehind
  | false =>
      by_cases hcur : cur = block1
      · subst hcur
        -- the block is new here, so what comes before it is what was visited
        simp only [Finds, Bool.false_or, decide_true, if_true, true_and, ← hbehind]
        constructor
        · rintro ⟨later, before, heq, hs, x, hx, ha⟩
          have hpos : cur :: before <:+ seen' := heq ▸ List.suffix_append later (cur :: before)
          obtain rfl := eq_of_suffix (hgrows.nodup hnodup) hpos hsuffix
          obtain ⟨hmem, hxn⟩ := (mem_visit_iff hn h).mpr hx
          exact ⟨x, hmem, hxn, ha⟩
        · rintro ⟨x, hx, hxn, ha⟩
          obtain ⟨later, heq⟩ := hsuffix
          exact ⟨later, seen, heq.symm, List.suffix_refl _, x, (mem_visit_iff hn h).mp ⟨hx, hxn⟩, ha⟩
      · simp only [Finds, Bool.false_or, hcur, decide_false, Bool.false_eq_true, if_false, false_and, false_or]
        constructor
        · rintro ⟨later, before, heq, hs, hx⟩
          have hpos : block1 :: before <:+ seen' := heq ▸ List.suffix_append later (block1 :: before)
          exact ⟨later, before, heq, suffix_of_ne (Ne.symm hcur) hpos hsuffix hs, hx⟩
        · rintro ⟨later, before, heq, hs, hx⟩
          exact ⟨later, before, heq, (List.suffix_cons cur seen).trans hs, hx⟩

/-! ### What a call returns -/

/-- A call returns what it finds, and what was visited if that is nothing. -/
def Answers (l : LoopBody m) (block1 block2 : BlockId) (enc : Bool) (seen seen' : List BlockId)
    (r : Option (Bool × List BlockId)) : Prop :=
  ∃ found visited, r = some (found, visited) ∧ (found = false → visited = seen') ∧
    (found = true ↔ l.Finds block1 block2 enc seen seen')

/-- The blocks that a visit comes to are not `block2`. -/
theorem block2_notMem (h2 : block2 ∉ seen) (hcur : cur ≠ block2) (hn : cur ∉ seen)
    (h : visit (l.onward block2) n cur seen = some seen') : block2 ∉ seen' := by
  intro hmem
  rcases Relation.ReflTransGen.cases_tail ((mem_visit_iff hn h).mp ⟨hmem, h2⟩) with heq | ⟨a, -, ha⟩
  · exact hcur heq.symm
  · exact (mem_onward.mp ha.1).2.2 rfl

/-- The loop over the successors, if the calls for them answer as they should. -/
theorem trySuccessors_answers {search : BlockId → List BlockId → Option (Bool × List BlockId)}
    (htarget : ∀ seen, search block2 seen = some (enc, seen))
    (hsearch : ∀ b seen seen', b ≠ block2 → b ∉ seen → block2 ∉ seen → seen.Nodup →
      visit (l.onward block2) n b seen = some seen' →
        l.Answers block1 block2 enc seen seen' (search b seen))
    (h2 : block2 ∉ seen) (hnodup : seen.Nodup)
    (h : visitAll (visit (l.onward block2) n) (ws.filter fun b => l.contains b && decide (b ≠ block2)) seen =
      some seen') : ∃ found visited, l.trySuccessors search ws seen = some (found, visited) ∧
        (found = false → visited = seen') ∧ (found = true ↔
          (enc = true ∧ block2 ∈ ws ∧ l.contains block2 = true) ∨ l.Finds block1 block2 enc seen seen') := by
  induction ws generalizing seen with
  | nil =>
      cases h
      exact ⟨false, _, rfl, fun _ => rfl, by simp [Finds.irrefl]⟩
  | cons b ws ih =>
      rw [trySuccessors]
      by_cases hskip : l.contains b = true ∧ b ∉ seen
      · rw [if_pos (by simpa using hskip)]
        by_cases hb : b = block2
        · subst hb
          rw [List.filter_cons_of_neg (by simp)] at h
          rw [htarget, Option.bind_some]
          cases henc : enc with
          | true => exact ⟨true, seen, rfl, by simp, by simp [hskip.1]⟩
          | false =>
              rw [henc] at ih
              simpa using ih h2 hnodup h
        · rw [List.filter_cons_of_pos (by simp [hskip.1, hb]), visitAll, if_neg hskip.2] at h
          obtain ⟨mid, hmid, h⟩ := Option.bind_eq_some_iff.mp h
          obtain ⟨hfirst, hsuffix⟩ := visit_grows hskip.2 hmid
          obtain ⟨found, visited, hr, hvis, hfound⟩ := hsearch b seen mid hb hskip.2 h2 hnodup hmid
          have hmid2 := block2_notMem h2 hb hskip.2 hmid
          have hrest : mid <:+ seen' := (visits_grow h).suffix
          rw [hr, Option.bind_some]
          cases found with
          | true =>
              refine ⟨true, visited, rfl, by simp, iff_of_true rfl (.inr ?_)⟩
              exact (finds_trans hfirst.suffix hrest).mpr (.inl (hfound.mp rfl))
          | false =>
              obtain rfl := hvis rfl
              obtain ⟨found', visited', hr', hvis', hfound'⟩ := ih hmid2 (hfirst.nodup hnodup) h
              refine ⟨found', visited', hr', hvis', ?_⟩
              have hnot : ¬ l.Finds block1 block2 enc seen visited := fun hf => by simpa using hfound.mpr hf
              rw [hfound', finds_trans hfirst.suffix hrest]
              simp [hnot, Ne.symm hb]
      · rw [if_neg (by simpa using hskip)]
        have hfilter : visitAll (visit (l.onward block2) n)
            (ws.filter fun b => l.contains b && decide (b ≠ block2)) seen = some seen' := by
          rw [List.filter_cons] at h
          split at h
          · rename_i hkeep
            have hmem : b ∈ seen := by
              by_contra hn
              exact hskip ⟨(Bool.and_eq_true_iff.mp hkeep).1, hn⟩
            rw [visitAll, if_pos hmem] at h
            exact h
          · exact h
        have hmem : block2 ∈ b :: ws ∧ l.contains block2 = true ↔ block2 ∈ ws ∧ l.contains block2 = true := by
          constructor
          · rintro ⟨hm, hc⟩
            rcases List.mem_cons.mp hm with rfl | hm
            · exact (hskip ⟨hc, h2⟩).elim
            · exact ⟨hm, hc⟩
          · exact fun h => ⟨List.mem_cons_of_mem _ h.1, h.2⟩
        rw [hmem]
        exact ih h2 hnodup hfilter

theorem isPath_target (seen : List BlockId) :
    l.isPathInLoopIter block1 block2 (n + 1) block2 enc seen = some (enc, seen) := by
  rw [isPathInLoopIter, if_pos rfl]

/-- **What a call returns**, by induction on how deep it may go. -/
theorem isPath_answers (enc : Bool) (hcur : cur ≠ block2) (hn : cur ∉ seen) (h2 : block2 ∉ seen) (hnodup : seen.Nodup)
    (h : visit (l.onward block2) n cur seen = some seen') :
    l.Answers block1 block2 enc seen seen' (l.isPathInLoopIter block1 block2 (n + 1) cur enc seen) := by
  induction n generalizing cur enc seen seen' with
  | zero => cases h
  | succ n ih =>
      rw [isPathInLoopIter, if_neg hcur]
      have hcons : block2 ∉ cur :: seen := by simp [Ne.symm hcur, h2]
      obtain ⟨found, visited, hr, hvis, hfound⟩ := trySuccessors_answers (n := n) (fun seen => isPath_target seen)
        (fun b seen seen' hb hbn h2 hnodup h => ih _ hb hbn h2 hnodup h) hcons (List.nodup_cons.mpr ⟨hn, hnodup⟩) h
      exact ⟨found, visited, hr, hvis, hfound.trans (finds_cons hn hnodup h).symm⟩

/-! ### The search from the header -/

theorem visit_header (l : LoopBody m) (block2 : BlockId) :
    ∃ order, visit (l.onward block2) (l.blocks.length + 1) l.header [] = some order := by
  have hitems : ∀ a ∈ l.blocks, ∀ b ∈ l.onward block2 a, b ∈ l.blocks :=
    fun a _ b hb => mem_blocks (mem_onward.mp hb).2.1
  have hunseen : unseen l.blocks [] < l.blocks.length + 1 := Nat.lt_succ_of_le (List.length_filter_le _ _)
  exact visit_returns hitems l.header_mem (by simp) hunseen

/-- What the search returns for a depth first order of the loop. -/
theorem returns_of_visit {order : List BlockId} (block1 : BlockId) (hhead : l.header ≠ block2)
    (h : visit (l.onward block2) n l.header [] = some order) :
    ∃ found visited, l.isPathInLoopIter block1 block2 (n + 1) l.header false [] = some (found, visited) ∧
      (found = true ↔ l.FindsAfter block1 block2 [] order) := by
  obtain ⟨found, visited, hr, -, hfound⟩ :=
    isPath_answers false hhead (by simp) (by simp) List.nodup_nil h
  exact ⟨found, visited, hr, hfound⟩

/-- The calls of the search go no deeper than there are blocks. -/
theorem isPath_returns (l : LoopBody m) (block1 block2 : BlockId) : ∃ found visited,
    l.isPathInLoopIter block1 block2 (l.blocks.length + 2) l.header false [] = some (found, visited) := by
  by_cases hhead : l.header = block2
  · exact ⟨false, [], by rw [isPathInLoopIter, if_pos hhead]⟩
  · obtain ⟨order, horder⟩ := visit_header l block2
    obtain ⟨found, visited, hr, -⟩ := returns_of_visit block1 hhead horder
    exact ⟨found, visited, hr⟩

/-- The search returns, and with one result. -/
theorem returns_exists (l : LoopBody m) (block1 block2 : BlockId) : ∃! found, l.Returns block1 block2 found := by
  obtain ⟨found, visited, hr⟩ := isPath_returns l block1 block2
  have hreturns : l.Returns block1 block2 found := ⟨_, visited, hr⟩
  exact ⟨found, hreturns, fun other h => h.unique hreturns⟩

/-- **When a path is found**: when `block2` can be reached from `block1` in spite of the
blocks that were visited before. -/
theorem returns_true_iff (l : LoopBody m) (block1 block2 : BlockId) :
    l.Returns block1 block2 true ↔ l.header ≠ block2 ∧ l.Unhindered block1 block2 := by
  constructor
  · intro hreturns
    have hhead : l.header ≠ block2 := by
      intro hhead
      have hfalse : l.Returns block1 block2 false := ⟨1, [], by rw [isPathInLoopIter, if_pos hhead]⟩
      cases hreturns.unique hfalse
    obtain ⟨order, horder⟩ := visit_header l block2
    obtain ⟨found, visited, hr, hiff⟩ := returns_of_visit block1 hhead horder
    have hfound : l.Returns block1 block2 found := ⟨_, visited, hr⟩
    obtain ⟨later, before, rfl, -, hx⟩ := hiff.mp (hfound.unique hreturns)
    exact ⟨hhead, _, later, before, horder, hx⟩
  · rintro ⟨hhead, n, later, before, horder, hx⟩
    obtain ⟨found, visited, hr, hiff⟩ := returns_of_visit block1 hhead horder
    have htrue : found = true := hiff.mpr ⟨later, before, rfl, List.nil_suffix, hx⟩
    exact ⟨_, visited, htrue ▸ hr⟩

/-- Fresh paths that avoid the header stay in the iteration. -/
theorem continues_of_fresh {a b : BlockId} (h : FreshPath (l.onward block2) [l.header] a b) :
    Relation.ReflTransGen (l.Continues block2) a b := by
  induction h with
  | refl => exact .refl
  | tail _ hab ih =>
      obtain ⟨hsucc, hin, hne⟩ := mem_onward.mp hab.1
      exact ih.tail ⟨hsucc, hin, by simpa using hab.2, hne⟩

/-- A path that is found is one. -/
theorem Unhindered.hasPath (h : l.Unhindered block1 block2) (hhead : l.header ≠ block2) :
    l.HasPath block1 block2 := by
  obtain ⟨n, later, before, horder, x, hx, ha⟩ := h
  have hnil : l.header ∉ ([] : List BlockId) := by simp
  have hpos := List.suffix_append later (block1 :: before)
  have hto : FreshPath (l.onward block2) [] l.header block1 :=
    (mem_visit_iff hnil horder).mp ⟨hpos.subset List.mem_cons_self, by simp⟩
  have hfrom : FreshPath (l.onward block2) [l.header] block1 x := by
    obtain ⟨-, hsuffix⟩ := visit_grows hnil horder
    by_cases hbefore : l.header ∈ before
    · exact hx.mono fun y hy => (List.mem_singleton.mp hy) ▸ hbefore
    · -- only the header itself has no header before it
      have hsame : block1 = l.header := by
        rcases List.suffix_or_suffix_of_suffix hsuffix hpos with h | h
        · rcases List.suffix_cons_iff.mp h with heq | h
          · cases heq
            rfl
          · exact (hbefore (h.subset List.mem_cons_self)).elim
        · exact List.mem_singleton.mp (h.subset List.mem_cons_self)
      have hfree : FreshPath (l.onward block2) [] block1 x := hx.mono (by simp)
      rw [hsame] at hfree ⊢
      exact hfree.leave
  exact ⟨hhead, continues_of_fresh hto.leave, x, continues_of_fresh hfrom, ha⟩

/--
**What the search decides.**  It always returns.  It returns true just for the loops that
have a path if and only if, where there is a path, `block2` can be reached from `block1`
without the blocks that come before `block1` in depth first order.
-/
theorem decides_iff (l : LoopBody m) (block1 block2 : BlockId) :
    (∃! found, l.Returns block1 block2 found) ∧
      ((l.Returns block1 block2 true ↔ l.HasPath block1 block2) ↔
        (l.HasPath block1 block2 → l.Unhindered block1 block2)) := by
  refine ⟨returns_exists l block1 block2, ?_⟩
  rw [returns_true_iff]
  constructor
  · exact fun h hpath => (h.mpr hpath).2
  · intro h
    constructor
    · exact fun ⟨hhead, hfree⟩ => hfree.hasPath hhead
    · exact fun hpath => ⟨hpath.1, h hpath⟩

/--
Two calls in different blocks of a loop are taken for calls in different iterations unless a
path is found.
-/
theorem areCallsInDifferentLoopIters_iff {getLoopFor : FuncId × BlockId → Option (LoopBody m)} {orig conflict : Site}
    (hfun : orig.1 = conflict.1) (horig : getLoopFor (orig.1, orig.2.1) = some l)
    (hconf : getLoopFor (conflict.1, conflict.2.1) = some l) (hne : orig.2.1 ≠ conflict.2.1) :
    areCallsInDifferentLoopIters getLoopFor orig conflict = some true ↔
      ¬ (l.header ≠ conflict.2.1 ∧ l.Unhindered orig.2.1 conflict.2.1) := by
  have hcalls : orig ≠ conflict := fun heq => hne (by rw [heq])
  obtain ⟨found, visited, hr⟩ := isPath_returns l orig.2.1 conflict.2.1
  have hreturns : l.Returns orig.2.1 conflict.2.1 found := ⟨_, visited, hr⟩
  rw [← returns_true_iff, areCallsInDifferentLoopIters, if_neg hcalls, if_neg (not_not.mpr hfun), horig]
  simp only [hconf, ne_eq, not_true_eq_false, if_false, if_neg hne, hr, Option.map_some, Option.some.injEq,
    Bool.not_eq_true']
  constructor
  · intro hfalse htrue
    rw [hfalse] at hreturns
    cases hreturns.unique htrue
  · intro h
    cases hf : found with
    | true => exact (h (hf ▸ hreturns)).elim
    | false => rfl

end LoopBody

/-! ### Two ways to one block -/

/-- In the loop a branch goes to block 1 or to block 2, and from both on to block 3 and block 4. -/
def diamondModule : Module where
  functions :=
    [⟨"main", false,
      [[.condBr (.argument (.int 1) 0 0) 1 2], [.br 3], [.br 3], [.br 4],
        [.condBr (.argument (.int 1) 0 0) 0 5], [.ret]]⟩]
  names := by decide

def diamondLoop : LoopBody diamondModule where
  function := 0
  header := 0
  blocks := [0, 1, 2, 3, 4]
  header_mem := by decide

/-- Block 3 is visited behind block 1 first, so no path is found over block 2. -/
theorem diamondLoop_misses :
    ¬ (diamondLoop.Returns 2 4 true ↔ diamondLoop.HasPath 2 4) := by
  have hreturns : diamondLoop.Returns 2 4 false := ⟨5, [2, 3, 1, 0], by decide⟩
  have hpath : diamondLoop.HasPath 2 4 :=
    ⟨by decide, .single ⟨by decide, by decide, by decide, by decide⟩, 3,
      .single ⟨by decide, by decide, by decide, by decide⟩, by decide, by decide⟩
  intro h
  cases (h.mpr hpath).unique hreturns

end CompMatch.Pass

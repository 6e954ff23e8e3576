/-
The linked lists hold what the lists of requests say.

`Holds` says of the memory which cells there are, which requests, and that nothing else is
live.  Each function of the lists keeps it, with one cell more or less, and never finds
anything but what it expects.  `MPIOPT_FINALIZE` frees what `Holds` knows of, and so
everything.

A walk over the list is not disturbed: only the user's calls change the list, and no user
calls anything while a walk is under way.
-/
import CompMatch.Proofs.Rendezvous.History
import CompMatch.Rendezvous.Memory

namespace CompMatch.Rendezvous

open LinkedList

namespace Memory

/-! ### One object -/

/-- An object is written. -/
def put (m : Memory) (p : Addr) (o : Object) : Memory := { m with heap := AList.insert p o m.heap }

/-- An object is gone. -/
def drop (m : Memory) (p : Addr) : Memory := { m with heap := AList.erase p m.heap }

section
variable {m m' : Memory} {p q : Addr} {o : Object} {l : List Addr}

theorem malloc_fresh (hp : p ≠ 0) (hf : p ∉ m.heap) : m.malloc p o = some (m.put p o) := by
  unfold malloc Heap.malloc
  rw [if_pos ⟨hp, hf⟩]
  rfl

theorem store_live (hp : p ∈ m.heap) : m.store p o = some (m.put p o) := by
  unfold store
  rw [Heap.store_of_mem hp]
  rfl

theorem free_live (hne : p ≠ 0) (hp : p ∈ m.heap) : m.free p = some (m.drop p) := by
  unfold free
  rw [Heap.free_of_mem hne hp]
  rfl

theorem listElem_congr (h : m'.heap.lookup q = m.heap.lookup q) : m'.listElem q = m.listElem q := by
  unfold listElem
  rw [h]

theorem rdmaInfoBuf_congr (h : m'.heap.lookup q = m.heap.lookup q) : m'.rdmaInfoBuf q = m.rdmaInfoBuf q := by
  unfold rdmaInfoBuf
  rw [h]

theorem put_other (h : q ≠ p) : (m.put p o).heap.lookup q = m.heap.lookup q := AList.lookup_insert_ne h

theorem drop_other (h : q ≠ p) : (m.drop p).heap.lookup q = m.heap.lookup q := AList.lookup_erase_ne h

theorem mem_put : q ∈ (m.put p o).heap ↔ q = p ∨ q ∈ m.heap := AList.mem_insert _

theorem mem_of_drop (h : q ∈ (m.drop p).heap) : q ∈ m.heap := (AList.mem_erase.mp h).2

theorem put_listElem (elem next : Addr) : (m.put p (.listElem elem next)).listElem p = some ⟨elem, next⟩ := by
  unfold listElem put
  rw [AList.lookup_insert]

theorem put_rdmaInfoBuf (buf : Addr) : (m.put p (.request buf)).rdmaInfoBuf p = some buf := by
  unfold rdmaInfoBuf put
  rw [AList.lookup_insert]

theorem live_of_listElem {c : Cell Addr Addr} (h : m.listElem p = some c) : p ∈ m.heap := by
  unfold listElem at h
  split at h
  · rename_i hl
    exact Heap.mem_of_lookup hl
  · cases h

theorem listElem_null (h : 0 ∉ m.heap) : m.listElem 0 = none := by
  cases hc : m.listElem 0 with
  | none => rfl
  | some c => exact absurd (live_of_listElem hc) h

end

/-! ### The lists -/

/-- What the lists hold, and which requests there are: nothing else is live. -/
structure Holds (m : Memory) (listed freed : List (Addr × Addr)) (reqs : List Addr) (buf : Addr → Addr) :
    Prop where
  null : 0 ∉ m.heap
  requestList : Chain m.listElem m.requestListHead ((m.requestListHead, 0) :: listed) 0
  toFree : Chain m.listElem m.toFreeListHead ((m.toFreeListHead, 0) :: freed) 0
  requests : ∀ r ∈ reqs, m.rdmaInfoBuf r = some (buf r)
  owns : m.heap.Owns (m.requestListHead :: m.toFreeListHead ::
    (listed.map Prod.fst ++ freed.map Prod.fst ++ reqs.flatMap fun r => [buf r, r]))

section
variable {m m' : Memory} {listed freed : List (Addr × Addr)} {reqs : List Addr} {buf : Addr → Addr}
  {p r c : Addr}

theorem Holds.live (h : Holds m listed freed reqs buf) (hr : r ∈ reqs) : r ∈ m.heap := by
  have hbuf := h.requests r hr
  unfold rdmaInfoBuf at hbuf
  split at hbuf
  · rename_i hl
    exact Heap.mem_of_lookup hl
  · cases hbuf

/-- `MPIOPT_INIT`. -/
theorem holds_init {q : Addr} (h : mpioptInit p q = some m) (buf : Addr → Addr) : Holds m [] [] [] buf := by
  have hm : p ≠ 0 ∧ q ≠ 0 ∧ p ≠ q ∧
      m = ((⟨∅, p, q⟩ : Memory).put p (.listElem 0 0)).put q (.listElem 0 0) := by
    obtain ⟨m₁, hm₁, hm₂⟩ := Option.bind_eq_some_iff.mp h
    obtain ⟨heap₁, h₁, rfl⟩ := Option.map_eq_some_iff.mp hm₁
    obtain ⟨heap₂, h₂, rfl⟩ := Option.map_eq_some_iff.mp hm₂
    obtain ⟨hp, -, rfl⟩ := Heap.malloc_eq h₁
    obtain ⟨hq, hfree, rfl⟩ := Heap.malloc_eq h₂
    refine ⟨hp, hq, ?_, rfl⟩
    rintro rfl
    exact hfree ((AList.mem_insert _).mpr (Or.inl rfl))
  obtain ⟨hp, hq, hpq, rfl⟩ := hm
  have hempty : q ∉ ((⟨∅, p, q⟩ : Memory).put p (.listElem 0 0)).heap := by
    rw [mem_put]
    simp [Ne.symm hpq]
  refine ⟨?_, ⟨rfl, 0, ?_, rfl⟩, ⟨rfl, 0, put_listElem _ _, rfl⟩, by simp, ?_⟩
  · simp [mem_put, Ne.symm hp, Ne.symm hq]
  · show listElem _ p = _
    rw [listElem_congr (put_other hpq)]
    exact put_listElem _ _
  · exact ((Heap.Owns.empty.insert (by simp)).insert hempty).perm (List.Perm.swap _ _ _)

end

/-! ### An element is put behind the head -/

section
variable {m : Memory}

/-- What `push` does. -/
theorem push_eq {head request newElem : Addr} {x : Cell Addr Addr} (hh : m.listElem head = some x)
    (hne : newElem ≠ 0) (hfree : newElem ∉ m.heap) : m.push head request newElem =
      some ((m.put newElem (.listElem request x.next)).put head (.listElem x.elem newElem)) := by
  have hlive : head ∈ (m.put newElem (.listElem request x.next)).heap :=
    mem_put.mpr (Or.inr (live_of_listElem hh))
  unfold push
  rw [hh, Option.bind_some, malloc_fresh hne hfree, Option.bind_some, store_live hlive]

theorem push_other {head request newElem q : Addr} {x : Cell Addr Addr} (hq : q ≠ newElem) (hh : q ≠ head) :
    ((m.put newElem (.listElem request x.next)).put head (.listElem x.elem newElem)).heap.lookup q =
      m.heap.lookup q := (put_other hh).trans (put_other hq)

/-- The list has the new element first. -/
theorem chain_push {head request newElem : Addr} {x : Cell Addr Addr} {cells : List (Addr × Addr)}
    (h : Chain m.listElem head ((head, 0) :: cells) 0) (hnull : 0 ∉ m.heap) (hh : m.listElem head = some x)
    (hfree : newElem ∉ m.heap) :
    Chain ((m.put newElem (.listElem request x.next)).put head (.listElem x.elem newElem)).listElem head
      ((head, 0) :: (newElem, request) :: cells) 0 := by
  have hhead : newElem ≠ head := by
    rintro rfl
    exact hfree (live_of_listElem hh)
  have hnodup := h.nodup (listElem_null hnull)
  obtain ⟨-, next, hcell, hrest⟩ := h
  obtain rfl : x = ⟨0, next⟩ := Option.some.inj (hh.symm.trans hcell)
  refine ⟨rfl, newElem, put_listElem _ _, rfl, next, ?_, hrest.congr fun y hy => ?_⟩
  · rw [listElem_congr (put_other hhead)]
    exact put_listElem _ _
  · obtain ⟨_, hy'⟩ := hrest.cell_eq hy
    refine listElem_congr (push_other (x := ⟨0, next⟩) ?_ ?_)
    · intro heq
      exact hfree (heq ▸ live_of_listElem hy')
    · intro heq
      rw [List.map_cons, List.nodup_cons] at hnodup
      exact hnodup.1 (List.mem_map.mpr ⟨y, hy, heq⟩)

/-- Another list stays as it is. -/
theorem chain_push_other {head request newElem p : Addr} {x : Cell Addr Addr} {cells : List (Addr × Addr)}
    (h : Chain m.listElem p cells 0) (hfree : newElem ∉ m.heap) (hno : head ∉ cells.map Prod.fst) :
    Chain ((m.put newElem (.listElem request x.next)).put head (.listElem x.elem newElem)).listElem p
      cells 0 := by
  refine h.congr fun y hy => listElem_congr (push_other (x := x) ?_ ?_)
  · obtain ⟨_, hy'⟩ := h.cell_eq hy
    intro heq
    exact hfree (heq ▸ live_of_listElem hy')
  · intro heq
    exact hno (heq ▸ List.mem_map_of_mem hy)

theorem owns_push {head request newElem : Addr} {x : Cell Addr Addr} {l : List Addr} (ho : m.heap.Owns l)
    (hh : m.listElem head = some x) (hfree : newElem ∉ m.heap) :
    ((m.put newElem (.listElem request x.next)).put head (.listElem x.elem newElem)).heap.Owns
      (newElem :: l) :=
  (ho.insert hfree).update (mem_put.mpr (Or.inr (live_of_listElem hh)))

end

/-! ### What the functions of the lists keep -/

section
variable {m m' : Memory} {listed freed : List (Addr × Addr)} {reqs : List Addr} {buf : Addr → Addr}
  {p r c : Addr}

theorem Holds.head (h : Holds m listed freed reqs buf) :
    ∃ next, m.listElem m.requestListHead = some ⟨0, next⟩ ∧ Chain m.listElem next listed 0 := by
  obtain ⟨-, next, hcell, hrest⟩ := h.requestList
  exact ⟨next, hcell, hrest⟩

theorem Holds.freeHead (h : Holds m listed freed reqs buf) :
    ∃ next, m.listElem m.toFreeListHead = some ⟨0, next⟩ ∧ Chain m.listElem next freed 0 := by
  obtain ⟨-, next, hcell, hrest⟩ := h.toFree
  exact ⟨next, hcell, hrest⟩

/-- No two of what is live have the same address. -/
theorem Holds.nodup (h : Holds m listed freed reqs buf) :
    (m.requestListHead :: m.toFreeListHead ::
      (listed.map Prod.fst ++ freed.map Prod.fst ++ reqs.flatMap fun r => [buf r, r])).Nodup := h.owns.nodup

/-- An address of a cell is that of no request. -/
theorem Holds.cell_ne (h : Holds m listed freed reqs buf) {x : Cell Addr Addr} (hc : m.listElem c = some x)
    (hr : r ∈ reqs) : r ≠ c := by
  rintro rfl
  have hbuf := h.requests r hr
  unfold listElem at hc
  unfold rdmaInfoBuf at hbuf
  split at hc
  · rename_i hl
    rw [hl] at hbuf
    cases hbuf
  · cases hc

/-- The linked list from `request_list_head` gets an element. -/
theorem Holds.push_requestList (h : Holds m listed freed reqs buf) (hne : p ≠ 0) (hfree : p ∉ m.heap) :
    ∃ m', m.push m.requestListHead r p = some m' ∧ m'.requestListHead = m.requestListHead ∧
      m'.toFreeListHead = m.toFreeListHead ∧ Holds m' ((p, r) :: listed) freed reqs buf := by
  obtain ⟨next, hcell, -⟩ := h.head
  refine ⟨_, push_eq hcell hne hfree, rfl, rfl, ?_, chain_push h.requestList h.null hcell hfree,
    chain_push_other h.toFree hfree ?_, fun q hq => ?_, ?_⟩
  · rw [mem_put, mem_put, not_or, not_or]
    exact ⟨fun heq => h.null (heq ▸ live_of_listElem hcell), Ne.symm hne, h.null⟩
  · have hn := h.nodup
    intro hmem
    refine (List.nodup_cons.mp hn).1 ?_
    rw [List.map_cons] at hmem
    rcases List.mem_cons.mp hmem with heq | hmem
    · exact List.mem_cons.mpr (Or.inl heq)
    · exact List.mem_cons_of_mem _ (List.mem_append_left _ (List.mem_append_right _ hmem))
  · rw [rdmaInfoBuf_congr (push_other (x := ⟨0, next⟩) ?_ (h.cell_ne hcell hq))]
    · exact h.requests q hq
    · exact fun heq => hfree (heq ▸ h.live hq)
  · refine (owns_push h.owns hcell hfree).perm (List.perm_iff_count.mpr fun a => ?_)
    simp only [List.count_cons, List.count_append, List.map_cons, put]
    omega

/-- The one from `to_free_list_head` gets an element. -/
theorem Holds.push_toFree (h : Holds m listed freed reqs buf) (hne : p ≠ 0) (hfree : p ∉ m.heap) :
    ∃ m', m.push m.toFreeListHead r p = some m' ∧ m'.requestListHead = m.requestListHead ∧
      m'.toFreeListHead = m.toFreeListHead ∧ Holds m' listed ((p, r) :: freed) reqs buf := by
  obtain ⟨next, hcell, -⟩ := h.freeHead
  refine ⟨_, push_eq hcell hne hfree, rfl, rfl, ?_, chain_push_other h.requestList hfree ?_,
    chain_push h.toFree h.null hcell hfree, fun q hq => ?_, ?_⟩
  · rw [mem_put, mem_put, not_or, not_or]
    exact ⟨fun heq => h.null (heq ▸ live_of_listElem hcell), Ne.symm hne, h.null⟩
  · have hn := h.nodup
    intro hmem
    rw [List.map_cons] at hmem
    rcases List.mem_cons.mp hmem with heq | hmem
    · exact (List.nodup_cons.mp hn).1 (List.mem_cons.mpr (Or.inl heq.symm))
    · exact (List.nodup_cons.mp (List.nodup_cons.mp hn).2).1
        (List.mem_append_left _ (List.mem_append_left _ hmem))
  · rw [rdmaInfoBuf_congr (push_other (x := ⟨0, next⟩) ?_ (h.cell_ne hcell hq))]
    · exact h.requests q hq
    · exact fun heq => hfree (heq ▸ h.live hq)
  · refine (owns_push h.owns hcell hfree).perm (List.perm_iff_count.mpr fun a => ?_)
    simp only [List.count_cons, List.count_append, List.map_cons, put]
    omega

/-- A request and its message are allocated. -/
theorem Holds.newRequest {b : Addr} (h : Holds m listed freed reqs buf) (hr : r ≠ 0) (hb : b ≠ 0) (hrb : r ≠ b)
    (hrfree : r ∉ m.heap) (hbfree : b ∉ m.heap) :
    ∃ m', ((m.malloc r (.request 0)).bind fun m => (m.malloc b .buffer).bind fun m => m.store r (.request b)) =
        some m' ∧ m'.requestListHead = m.requestListHead ∧ m'.toFreeListHead = m.toFreeListHead ∧
          (∀ q, q ∈ m'.heap ↔ q = r ∨ q = b ∨ q ∈ m.heap) ∧
            Holds m' listed freed (r :: reqs) (Function.update buf r b) := by
  have hother : ∀ {q : Addr}, q ∈ m.heap →
      (((m.put r (.request 0)).put b .buffer).put r (.request b)).heap.lookup q = m.heap.lookup q := by
    intro q hq
    have hqr : q ≠ r := fun heq => hrfree (heq ▸ hq)
    have hqb : q ≠ b := fun heq => hbfree (heq ▸ hq)
    rw [put_other hqr, put_other hqb, put_other hqr]
  have hchain : ∀ {q : Addr} {cells : List (Addr × Addr)}, Chain m.listElem q cells 0 →
      Chain (((m.put r (.request 0)).put b .buffer).put r (.request b)).listElem q cells 0 := by
    intro q cells hc
    refine hc.congr fun y hy => ?_
    obtain ⟨_, hcell⟩ := hc.cell_eq hy
    exact listElem_congr (hother (live_of_listElem hcell))
  have hbfree' : b ∉ (m.put r (.request 0)).heap := by
    rw [mem_put, not_or]
    exact ⟨Ne.symm hrb, hbfree⟩
  have hlive : r ∈ ((m.put r (.request 0)).put b .buffer).heap := by simp [mem_put]
  refine ⟨((m.put r (.request 0)).put b .buffer).put r (.request b), ?_, rfl, rfl, fun q => ?_, ?_,
    hchain h.requestList, hchain h.toFree, fun q hq => ?_, ?_⟩
  · rw [malloc_fresh hr hrfree, Option.bind_some, malloc_fresh hb hbfree', Option.bind_some, store_live hlive]
  · simp only [mem_put]
    tauto
  · simp [mem_put, Ne.symm hr, Ne.symm hb, h.null]
  · by_cases hqr : q = r
    · subst hqr
      rw [Function.update_self]
      exact put_rdmaInfoBuf _
    · have hq : q ∈ reqs := (List.mem_cons.mp hq).resolve_left hqr
      rw [Function.update_of_ne hqr, rdmaInfoBuf_congr (hother (h.live hq))]
      exact h.requests q hq
  · have hsame : (reqs.flatMap fun q => [Function.update buf r b q, q]) = reqs.flatMap fun q => [buf q, q] := by
      refine List.flatMap_congr fun q hq => ?_
      have hqr : q ≠ r := by
        rintro rfl
        exact hrfree (h.live hq)
      rw [Function.update_of_ne hqr]
    have howns := ((h.owns.insert (o := .request 0) hrfree).insert (o := .buffer) hbfree').update
      (o := .request b) hlive
    refine howns.perm (List.perm_iff_count.mpr fun a => ?_)
    simp only [List.flatMap_cons, hsame, Function.update_self, List.count_cons, List.count_append, List.count_nil,
      put]
    omega

/-- The cells of the two lists are apart from each other. -/
theorem Holds.apart (h : Holds m listed freed reqs buf) {x y : Addr × Addr}
    (hx : x ∈ (m.requestListHead, 0) :: listed) (hy : y ∈ (m.toFreeListHead, 0) :: freed) : y.1 ≠ x.1 := by
  have hn : ((((m.requestListHead, 0) :: listed).map Prod.fst) ++
      (((m.toFreeListHead, 0) :: freed).map Prod.fst)).Nodup := by
    have hall : ((m.requestListHead :: m.toFreeListHead :: (listed.map Prod.fst ++ freed.map Prod.fst)) ++
        reqs.flatMap fun r => [buf r, r]).Nodup := h.nodup
    refine (List.Perm.nodup_iff (List.perm_iff_count.mpr fun a => ?_)).mp (List.nodup_append.mp hall).1
    simp only [List.count_cons, List.count_append, List.map_cons]
    omega
  intro heq
  exact (List.nodup_append.mp hn).2.2 x.1 (List.mem_map_of_mem hx) y.1 (List.mem_map_of_mem hy) heq.symm

/-- **`remove_request_from_list` takes out the cell of the request.** -/
theorem Holds.remove {front rest : List (Addr × Addr)}
    (h : Holds m (front ++ (c, r) :: rest) freed reqs buf) (hr : ∀ x ∈ front, x.2 ≠ r) :
    ∃ m', m.removeRequestFromList r = some m' ∧ m'.requestListHead = m.requestListHead ∧
      m'.toFreeListHead = m.toFreeListHead ∧ (∀ q ∈ m'.heap, q ∈ m.heap) ∧
        Holds m' (front ++ rest) freed reqs buf := by
  obtain ⟨next, hhead, hlist⟩ := h.head
  have hnull := listElem_null h.null
  -- The walk finds the cell.
  have hwalk : walk m.listElem (fun x => x.elem == r) m.heap.keys.length m.requestListHead next =
      some ((front.getLast?.map Prod.fst).getD m.requestListHead, c) := by
    refine hlist.walk_eq ?_ (fun y hy x hx => ?_) fun x hx => ?_
    · rw [h.owns.length]
      simp only [List.length_cons, List.length_append, List.map_append, List.map_cons, List.length_map]
      omega
    · obtain ⟨next', hcell⟩ := hlist.cell_eq (List.mem_append_left _ hy)
      obtain rfl : x = ⟨y.2, next'⟩ := Option.some.inj (hx.symm.trans hcell)
      exact beq_eq_false_iff_ne.mpr (hr y hy)
    · obtain ⟨next', hcell⟩ := hlist.cell_eq (x := (c, r)) (by simp)
      obtain rfl : x = ⟨r, next'⟩ := Option.some.inj (hx.symm.trans hcell)
      exact beq_self_eq_true r
  -- The cell before it.
  obtain ⟨pre, y, hpre, hprev⟩ : ∃ pre y, (m.requestListHead, 0) :: front = pre ++ [y] ∧
      (front.getLast?.map Prod.fst).getD m.requestListHead = y.1 := by
    rcases List.eq_nil_or_concat front with rfl | ⟨pre, y, rfl⟩
    · exact ⟨[], (m.requestListHead, 0), rfl, rfl⟩
    · exact ⟨(m.requestListHead, 0) :: pre, y, by simp, by simp⟩
  have hall : (m.requestListHead, 0) :: (front ++ (c, r) :: rest) = pre ++ y :: (c, r) :: rest := by
    rw [← List.cons_append, hpre, List.append_assoc]
    rfl
  have hchain := h.requestList
  rw [hall] at hchain
  have hnodup := hchain.nodup hnull
  obtain ⟨m₀, hfront, -, nexty, hcelly, hc⟩ := Chain.append_iff.mp hchain
  obtain ⟨hm₁, nextc, hcellc, hrest⟩ := hc
  have hyc : c ≠ y.1 := by
    simp only [List.map_append, List.map_cons, List.nodup_append, List.nodup_cons, List.mem_cons] at hnodup
    tauto
  have hcmem : c ∈ (m.put y.1 (.listElem y.2 nextc)).heap :=
    mem_put.mpr (Or.inr (live_of_listElem hcellc))
  have hcne : c ≠ 0 := by
    rintro rfl
    exact h.null (live_of_listElem hcellc)
  have hother : ∀ {q : Addr}, q ≠ y.1 → q ≠ c →
      ((m.put y.1 (.listElem y.2 nextc)).drop c).heap.lookup q = m.heap.lookup q :=
    fun hqy hqc => (drop_other hqc).trans (put_other hqy)
  have hmem : ∀ q, q ∈ ((m.put y.1 (.listElem y.2 nextc)).drop c).heap → q ∈ m.heap := by
    intro q hq
    rcases mem_put.mp (mem_of_drop hq) with rfl | hq
    · exact live_of_listElem hcelly
    · exact hq
  refine ⟨(m.put y.1 (.listElem y.2 nextc)).drop c, ?_, rfl, rfl, hmem, ⟨fun hz => h.null (hmem 0 hz), ?_, ?_,
    fun q hq => ?_, ?_⟩⟩
  · unfold removeRequestFromList
    rw [hhead, Option.bind_some, hwalk, Option.bind_some, hprev, hcelly, Option.bind_some, hcellc,
      Option.bind_some, store_live (live_of_listElem hcelly), Option.bind_some, free_live hcne hcmem]
  · have hgoal : (m.requestListHead, 0) :: (front ++ rest) = pre ++ y :: rest := by
      rw [← List.cons_append, hpre, List.append_assoc]
      rfl
    show Chain _ m.requestListHead ((m.requestListHead, 0) :: (front ++ rest)) 0
    rw [hgoal]
    simp only [List.map_append, List.map_cons, List.nodup_append, List.nodup_cons, List.mem_cons,
      List.mem_map] at hnodup
    refine hchain.relink ?_ (hrest.congr fun z hz => listElem_congr (hother ?_ ?_)) fun z hz =>
      listElem_congr (hother ?_ ?_)
    · rw [listElem_congr (drop_other (Ne.symm hyc))]
      exact put_listElem _ _
    · exact fun heq => hnodup.2.1.1 (Or.inr ⟨z, hz, heq⟩)
    · exact fun heq => hnodup.2.1.2.1 ⟨z, hz, heq⟩
    · exact hnodup.2.2 z.1 ⟨z, hz, rfl⟩ y.1 (Or.inl rfl)
    · exact hnodup.2.2 z.1 ⟨z, hz, rfl⟩ c (Or.inr (Or.inl rfl))
  · refine h.toFree.congr fun z hz => listElem_congr (hother ?_ ?_)
    · exact h.apart (x := y) (by rw [hall]; simp) hz
    · exact h.apart (x := (c, r)) (by simp) hz
  · rw [rdmaInfoBuf_congr (hother (h.cell_ne hcelly hq) (h.cell_ne hcellc hq))]
    exact h.requests q hq
  · have howns := h.owns.update (o := .listElem y.2 nextc) (live_of_listElem hcelly)
    have hperm : (m.requestListHead :: m.toFreeListHead :: ((front ++ (c, r) :: rest).map Prod.fst ++
        freed.map Prod.fst ++ reqs.flatMap fun r => [buf r, r])).Perm
          (c :: m.requestListHead :: m.toFreeListHead :: ((front ++ rest).map Prod.fst ++
            freed.map Prod.fst ++ reqs.flatMap fun r => [buf r, r])) := by
      refine List.perm_iff_count.mpr fun a => ?_
      simp only [List.count_cons, List.count_append, List.map_cons, List.map_append]
      omega
    exact (howns.perm hperm).erase

/-- It fails its assertion for a request that is not in the list. -/
theorem Holds.remove_none (h : Holds m listed freed reqs buf) (hr : ∀ x ∈ listed, x.2 ≠ r) :
    m.removeRequestFromList r = none := by
  obtain ⟨next, hhead, hlist⟩ := h.head
  have hwalk : walk m.listElem (fun x => x.elem == r) m.heap.keys.length m.requestListHead next = none := by
    refine hlist.walk_none (listElem_null h.null) fun y hy x hx => ?_
    obtain ⟨next', hcell⟩ := hlist.cell_eq hy
    obtain rfl : x = ⟨y.2, next'⟩ := Option.some.inj (hx.symm.trans hcell)
    exact beq_eq_false_iff_ne.mpr (hr y hy)
  rw [removeRequestFromList, hhead, Option.bind_some, hwalk, Option.bind_none]

/-! ### The functions of the interface -/

theorem push_fresh {head : Addr} (h : m.push head r p = some m') : p ≠ 0 ∧ p ∉ m.heap := by
  obtain ⟨x, -, h⟩ := Option.bind_eq_some_iff.mp h
  obtain ⟨m₁, hm, -⟩ := Option.bind_eq_some_iff.mp h
  obtain ⟨heap, hheap, -⟩ := Option.map_eq_some_iff.mp hm
  obtain ⟨hne, hfree, -⟩ := Heap.malloc_eq hheap
  exact ⟨hne, hfree⟩

/-- Where `MPIOPT_Send_init` gets through, `malloc` found what was not in use. -/
theorem initRequest_fresh {b : Addr} (h : m.initRequest r b p = some m') :
    [r, b, p].Nodup ∧ ∀ q ∈ [r, b, p], q ≠ 0 ∧ q ∉ m.heap := by
  obtain ⟨m₁, h₁, h⟩ := Option.bind_eq_some_iff.mp h
  obtain ⟨m₂, h₂, h⟩ := Option.bind_eq_some_iff.mp h
  obtain ⟨m₃, h₃, h⟩ := Option.bind_eq_some_iff.mp h
  obtain ⟨heap₁, hheap₁, rfl⟩ := Option.map_eq_some_iff.mp h₁
  obtain ⟨heap₂, hheap₂, rfl⟩ := Option.map_eq_some_iff.mp h₂
  obtain ⟨heap₃, hheap₃, rfl⟩ := Option.map_eq_some_iff.mp h₃
  obtain ⟨hr, hrfree, rfl⟩ := Heap.malloc_eq hheap₁
  obtain ⟨hb, hbfree, rfl⟩ := Heap.malloc_eq hheap₂
  obtain ⟨-, rfl⟩ := Heap.store_eq hheap₃
  obtain ⟨hp, hpfree⟩ := push_fresh h
  simp only [AList.mem_insert, not_or] at hbfree hpfree
  simp only [List.nodup_cons, List.mem_cons, List.not_mem_nil, or_false, not_or, List.nodup_nil]
  refine ⟨⟨⟨Ne.symm hbfree.1, Ne.symm hpfree.1⟩, Ne.symm hpfree.2.1, not_false, trivial⟩, ?_⟩
  rintro q (rfl | rfl | rfl)
  · exact ⟨hr, hrfree⟩
  · exact ⟨hb, hbfree.2⟩
  · exact ⟨hp, hpfree.2.2.2⟩

/-- `MPIOPT_Send_init` and `MPIOPT_Recv_init`. -/
theorem Holds.initRequest {b : Addr} (h : Holds m listed freed reqs buf) (hn : [r, b, p].Nodup)
    (hf : ∀ q ∈ [r, b, p], q ≠ 0 ∧ q ∉ m.heap) :
    ∃ m', m.initRequest r b p = some m' ∧
      Holds m' ((p, r) :: listed) freed (r :: reqs) (Function.update buf r b) := by
  obtain ⟨hr, hrfree⟩ := hf r (by simp)
  obtain ⟨hb, hbfree⟩ := hf b (by simp)
  obtain ⟨hp, hpfree⟩ := hf p (by simp)
  simp only [List.nodup_cons, List.mem_cons, List.not_mem_nil, or_false, not_or] at hn
  obtain ⟨m₁, hm₁, -, -, hmem, h₁⟩ := h.newRequest hr hb hn.1.1 hrfree hbfree
  have hpfree₁ : p ∉ m₁.heap := by
    rw [hmem]
    rintro (rfl | rfl | hin)
    · exact hn.1.2 rfl
    · exact hn.2.1 rfl
    · exact hpfree hin
  obtain ⟨m₂, hm₂, -, -, h₂⟩ := h₁.push_requestList (r := r) hp hpfree₁
  refine ⟨m₂, ?_, h₂⟩
  have hassoc : m.initRequest r b p = (((m.malloc r (.request 0)).bind fun m =>
      (m.malloc b .buffer).bind fun m => m.store r (.request b)).bind fun m => m.addRequestToList r p) := by
    simp only [Memory.initRequest, Option.bind_assoc]
  rw [hassoc, hm₁, Option.bind_some]
  exact hm₂

/-- `MPIOPT_Request_free`. -/
theorem Holds.requestFree {front rest : List (Addr × Addr)} (h : Holds m (front ++ (c, r) :: rest) freed reqs buf)
    (hr : ∀ x ∈ front, x.2 ≠ r)
    (hf : ∀ m₁, m.removeRequestFromList r = some m₁ → p ≠ 0 ∧ p ∉ m₁.heap) :
    ∃ m', m.requestFree r p = some m' ∧ Holds m' (front ++ rest) ((p, r) :: freed) reqs buf := by
  obtain ⟨m₁, hm₁, -, -, -, h₁⟩ := h.remove hr
  obtain ⟨hne, hfree⟩ := hf m₁ hm₁
  obtain ⟨m₂, hm₂, -, -, h₂⟩ := h₁.push_toFree (r := r) hne hfree
  refine ⟨m₂, ?_, h₂⟩
  unfold Memory.requestFree
  rw [hm₁, Option.bind_some]
  exact hm₂

/-- In which order the requests are named does not matter. -/
theorem Holds.perm {reqs' : List Addr} (h : Holds m listed freed reqs buf) (hreqs : reqs.Perm reqs') :
    Holds m listed freed reqs' buf where
  null := h.null
  requestList := h.requestList
  toFree := h.toFree
  requests q hq := h.requests q (hreqs.mem_iff.mpr hq)
  owns := h.owns.perm
    (((List.Perm.append_left _ (List.Perm.flatMap_right _ hreqs)).cons _).cons _)

/-- No request is there twice. -/
theorem Holds.reqs_nodup (h : Holds m listed freed reqs buf) : reqs.Nodup := by
  have hall := (List.nodup_append.mp (List.nodup_cons.mp (List.nodup_cons.mp h.nodup).2).2).2.1
  refine ((List.nodup_flatMap.mp hall).2).imp fun {q q'} hdisj heq => ?_
  subst heq
  exact hdisj (a := q) (by simp) (by simp)

/-! ### `MPIOPT_FINALIZE` -/

theorem drop_live {l : List Addr} (ho : m.heap.Owns (p :: l)) (hne : p ≠ 0) :
    m.free p = some (m.drop p) ∧ (m.drop p).heap.Owns l :=
  ⟨free_live hne (ho.mem_iff.mpr List.mem_cons_self), ho.erase⟩

/-- The loop frees every cell, with its request and the message of that. -/
theorem freeList_eq {cells : List (Addr × Addr)} {n : Nat} (hn : cells.length ≤ n)
    (h : Chain m.listElem p cells 0) (hnull : 0 ∉ m.heap)
    (hbuf : ∀ x ∈ cells, m.rdmaInfoBuf x.2 = some (buf x.2))
    (ho : m.heap.Owns (cells.flatMap fun x => [buf x.2, x.2, x.1])) :
    ∃ m', m.freeList n p = some m' ∧ m'.heap = ∅ := by
  induction cells generalizing m p n with
  | nil =>
      obtain rfl : p = 0 := h
      refine ⟨m, ?_, ho.eq_empty⟩
      cases n <;> exact if_pos rfl
  | cons x cells ih =>
      obtain ⟨rfl, next, hcell, hrest⟩ := h
      cases n with
      | zero => exact absurd hn (Nat.not_succ_le_zero _)
      | succ n =>
          rw [List.flatMap_cons] at ho
          have hne : ∀ q, q ∈ [buf x.2, x.2, x.1] → q ≠ 0 := by
            rintro q hq rfl
            exact hnull (ho.mem_iff.mpr (List.mem_append_left _ hq))
          have hnodup := ho.nodup
          -- the message, the request and the cell
          obtain ⟨hfree₁, ho₁⟩ := drop_live ho (hne _ (by simp))
          obtain ⟨hfree₂, ho₂⟩ := drop_live ho₁ (hne _ (by simp))
          obtain ⟨hfree₃, ho₃⟩ := drop_live ho₂ (hne _ (by simp))
          have hother : ∀ {q : Addr}, q ∈ cells.flatMap (fun x => [buf x.2, x.2, x.1]) →
              (((m.drop (buf x.2)).drop x.2).drop x.1).heap.lookup q = m.heap.lookup q := by
            intro q hq
            have hno : ∀ z, z ∈ [buf x.2, x.2, x.1] → q ≠ z :=
              fun z hz heq => (List.nodup_append.mp hnodup).2.2 z hz q hq heq.symm
            rw [drop_other (hno _ (by simp)), drop_other (hno _ (by simp)), drop_other (hno _ (by simp))]
          have hin : ∀ z ∈ cells, ∀ q ∈ [buf z.2, z.2, z.1], q ∈ cells.flatMap fun x => [buf x.2, x.2, x.1] :=
            fun z hz q hq => List.mem_flatMap.mpr ⟨z, hz, hq⟩
          obtain ⟨m', hm', hempty⟩ := ih (Nat.le_of_succ_le_succ hn)
            (hrest.congr fun z hz => listElem_congr (hother (hin z hz _ (by simp))))
            (fun hz => hnull (mem_of_drop (mem_of_drop (mem_of_drop hz))))
            (fun z hz => (rdmaInfoBuf_congr (hother (hin z hz _ (by simp)))).trans
              (hbuf z (List.mem_cons_of_mem _ hz))) ho₃
          refine ⟨m', ?_, hempty⟩
          rw [freeList, if_neg (hne _ (by simp)), hcell, Option.bind_some, freeRequest,
            if_neg (hne _ (by simp)), hbuf x List.mem_cons_self, Option.bind_some, hfree₁, Option.bind_some,
            hfree₂, Option.bind_some, hfree₃, Option.bind_some, hm']

/-- What is live, cell by cell. -/
theorem perm_cells (buf : Addr → Addr) (hreqs : reqs.Perm (freed.map Prod.snd)) :
    (freed.map Prod.fst ++ reqs.flatMap fun r => [buf r, r]).Perm
      (freed.flatMap fun x => [buf x.2, x.2, x.1]) := by
  refine (List.Perm.append_left _ (List.Perm.flatMap_right _ hreqs)).trans ?_
  clear hreqs
  induction freed with
  | nil => exact List.Perm.refl _
  | cons x freed ih =>
      refine List.perm_iff_count.mpr fun a => ?_
      have ha := List.perm_iff_count.mp ih a
      simp only [List.map_cons, List.flatMap_cons, List.count_cons, List.count_append, List.count_nil] at ha ⊢
      omega

/-- **`MPIOPT_FINALIZE` frees everything**, when all requests were freed. -/
theorem Holds.finalize (h : Holds m [] freed reqs buf) (hreqs : reqs.Perm (freed.map Prod.snd)) :
    ∃ m', m.mpioptFinalize = some m' ∧ m'.heap = ∅ := by
  obtain ⟨next, hhead, hlist⟩ := h.head
  obtain rfl : next = 0 := hlist
  obtain ⟨nextf, hfhead, hflist⟩ := h.freeHead
  have hlen : freed.length + 1 ≤ m.heap.keys.length := by
    rw [h.owns.length]
    simp only [List.length_cons, List.length_append, List.map_nil, List.length_nil, List.length_map]
    omega
  have hne : ∀ q ∈ m.heap, q ≠ 0 := by
    rintro q hq rfl
    exact h.null hq
  obtain ⟨hfree₁, ho₁⟩ := drop_live h.owns (hne _ (live_of_listElem hhead))
  have hcells : (m.drop m.requestListHead).heap.Owns
      (m.toFreeListHead :: freed.flatMap fun x => [buf x.2, x.2, x.1]) :=
    ho₁.perm (List.Perm.cons _ (perm_cells buf hreqs))
  have hfne : m.toFreeListHead ≠ m.requestListHead := h.apart (x := (m.requestListHead, 0))
    (y := (m.toFreeListHead, 0)) (by simp) (by simp)
  have hfhead' : (m.drop m.requestListHead).listElem m.toFreeListHead = some ⟨0, nextf⟩ :=
    (listElem_congr (drop_other hfne)).trans hfhead
  -- the head of the list of freed requests has no request
  have hfin : m.toFreeListHead ∈ m.heap := live_of_listElem hfhead
  obtain ⟨hfree₂, ho₂⟩ := drop_live hcells (hne _ hfin)
  have hother : ∀ {q : Addr}, q ≠ m.requestListHead → q ≠ m.toFreeListHead →
      ((m.drop m.requestListHead).drop m.toFreeListHead).heap.lookup q = m.heap.lookup q :=
    fun hq hq' => (drop_other hq').trans (drop_other hq)
  obtain ⟨k, hk⟩ : ∃ k, m.heap.keys.length = k + 1 := ⟨m.heap.keys.length - 1, by omega⟩
  have hnodup := h.toFree.nodup (listElem_null h.null)
  have hbuf : ∀ z ∈ freed, ((m.drop m.requestListHead).drop m.toFreeListHead).rdmaInfoBuf z.2 =
      some (buf z.2) := by
    intro z hz
    have hz : z.2 ∈ reqs := hreqs.mem_iff.mpr (List.mem_map_of_mem hz)
    rw [rdmaInfoBuf_congr (hother (h.cell_ne hhead hz) (h.cell_ne hfhead hz))]
    exact h.requests _ hz
  have hrest : Chain ((m.drop m.requestListHead).drop m.toFreeListHead).listElem nextf freed 0 := by
    refine hflist.congr fun z hz => listElem_congr (hother ?_ ?_)
    · exact h.apart (x := (m.requestListHead, 0)) (by simp) (List.mem_cons_of_mem _ hz)
    · exact fun heq => (List.nodup_cons.mp hnodup).1 (List.mem_map.mpr ⟨z, hz, heq⟩)
  obtain ⟨m', hm', hempty⟩ := freeList_eq (n := k) (by omega) hrest
    (fun hz => h.null (mem_of_drop (mem_of_drop hz))) hbuf ho₂
  refine ⟨m', ?_, hempty⟩
  rw [mpioptFinalize, hhead, Option.bind_some, if_pos rfl, hfree₁, Option.bind_some, hk, freeList,
    if_neg (hne _ hfin), hfhead', Option.bind_some, freeRequest, if_pos rfl, Option.bind_some, hfree₂,
    Option.bind_some, hm']

/-- It fails its assertion as long as a request is in use. -/
theorem Holds.finalize_none (h : Holds m listed freed reqs buf) (hne : listed ≠ []) :
    m.mpioptFinalize = none := by
  obtain ⟨next, hhead, hlist⟩ := h.head
  obtain ⟨x, listed, rfl⟩ := List.exists_cons_of_ne_nil hne
  have hnext : next ≠ 0 := by
    rw [hlist.1]
    exact hlist.ne_null (listElem_null h.null) List.mem_cons_self
  rw [mpioptFinalize, hhead, Option.bind_some, if_neg hnext]

end

end Memory

/-! ### Walks over the list -/

namespace Proc

/-- What every walk still has before it is the end of the list. -/
def Walks (p : Proc) : Prop := ∀ current rest, .progressOther current rest ∈ p.nested → rest <:+ p.requestList

section
variable {p p' : Proc} {ans : Answer} {c : Option MpiCall}

theorem walks_nil (hn : p.nested = []) : p.Walks := by
  intro current rest hmem
  simp [hn] at hmem

/-- A function other than `progress_other_requests` begins a walk at the head of the list. -/
theorem pushes_walk {f : Frame} {gs : List Frame} {current : Rid} {rest : List Rid} (hpush : Pushes p f gs)
    (hf : f.isProgressOther = false) (h : .progressOther current rest ∈ gs) : rest = p.requestList := by
  cases hpush with
  | returns => cases h
  | goes henters hrec hdepth hrids =>
      rw [← List.mem_singleton.mp h, hf] at hdepth
      cases hdepth
  | fetches => cases hf
  | probes hsearch => cases hf
  | receives hnone => simp at h
  | repeats =>
      rcases List.mem_cons.mp h with heq | h
      · exact (Frame.progressOther.inj heq).2
      · simp at h

/-- A function puts a walk on the stack that goes on, or begins. -/
theorem runFrame_walk {f : Frame} {below : List Frame} {current : Rid} {rest : List Rid}
    (h : .progressOther current rest ∈ ((p.setNested below).runFrame ans f).1.nested) :
    .progressOther current rest ∈ below ∨ rest = p.requestList ∨ ∃ r, f = .progressOther current (r :: rest) := by
  obtain ⟨gs, hgs, hpush⟩ : ∃ gs, ((p.setNested below).runFrame ans f).1.nested = gs ++ below ∧
      Pushes p f gs := runFrame_pushes
  cases f with
  | progressOther current' list =>
      cases list with
      | nil => exact Or.inl h
      | cons r list =>
          have hmem : .progressOther current rest ∈ Frame.progressOther current' list :: below := by
            simp only [runFrame] at h
            split at h
            · exact h
            · unfold progressRequest at h
              split at h
              · exact h
              · exact (List.mem_cons.mp h).resolve_left Frame.noConfusion
              · exact (List.mem_cons.mp h).resolve_left Frame.noConfusion
              · exact (List.mem_cons.mp h).resolve_left Frame.noConfusion
              · rwa [(testBackup_frame ans r).2.2.2] at h
              · rwa [(testBackup_frame ans r).2.2.2] at h
          rcases List.mem_cons.mp hmem with heq | hmem
          · obtain ⟨rfl, rfl⟩ := Frame.progressOther.inj heq
            exact Or.inr (Or.inr ⟨r, rfl⟩)
          · exact Or.inl hmem
  | progressWaiting | receiveInfo | progressRecv =>
      rw [hgs, List.mem_append] at h
      rcases h with h | h
      · exact Or.inr (Or.inl (pushes_walk hpush rfl h))
      · exact Or.inl h

theorem walks_run (h : p.Walks) (hS : Shape p) (hK : Known p) (hrun : p.run ans = some (p', c)) : p'.Walks := by
  have hlist := (run_control hS hK hrun).2.2.requestList
  intro current rest hmem
  rw [hlist]
  unfold run at hrun
  split at hrun
  · rename_i f below hn
    rw [show p' = ((p.setNested below).runFrame ans f).1 by rw [Option.some.inj hrun]] at hmem
    rcases runFrame_walk hmem with hmem | rfl | ⟨r, rfl⟩
    · exact h current rest (by simp [hn, hmem])
    · exact List.suffix_refl _
    · exact (List.suffix_cons r rest).trans (h current (r :: rest) (by simp [hn]))
  · rename_i hn
    cases runCall_calls hS hn hrun with
    | nothing hn' => simp [hn'] at hmem
    | progressOther q hn' =>
        rw [hn', List.mem_singleton] at hmem
        obtain ⟨-, rfl⟩ := Frame.progressOther.inj hmem
        exact List.suffix_refl _
    | progressWaiting q hn' hreqs hrid hsearch => simp [hn'] at hmem

end

end Proc

/-! ### The invariant -/

namespace Stored

structure Inv (s : Stored) : Prop where
  history : s.history.Inv False
  /-- Every request is in one of the lists. -/
  ids : (s.history.proc.requestList ++ s.toFree).Perm (List.range s.history.proc.nextRid)
  memory : ∃ listed freed buf,
    s.memory.Holds listed freed ((s.history.proc.requestList ++ s.toFree).map s.addr) buf ∧
      listed.map Prod.snd = s.history.proc.requestList.map s.addr ∧
        freed.map Prod.snd = s.toFree.map s.addr
  walks : s.history.proc.Walks

section
variable {s s' : Stored} {a : StoredAct} {r : Rid} {h' : History}

theorem Inv.mem_ids (hi : s.Inv) : r < s.history.proc.nextRid ↔ r ∈ s.history.proc.requestList ++ s.toFree := by
  rw [hi.ids.mem_iff, List.mem_range]

theorem Inv.addr_inj (hi : s.Inv) {q : Rid} (hq : q < s.history.proc.nextRid)
    (hr : r < s.history.proc.nextRid) (heq : s.addr q = s.addr r) : q = r := by
  obtain ⟨listed, freed, buf, hm, -, -⟩ := hi.memory
  exact List.inj_on_of_nodup_map hm.reqs_nodup (hi.mem_ids.mp hq) (hi.mem_ids.mp hr) heq

theorem inv_start (h0 : Init s) : s.Inv := by
  obtain ⟨p, q, hm⟩ := h0.memory
  refine ⟨History.inv_init h0.history, ?_, ⟨[], [], fun _ => 0, ?_, ?_, ?_⟩, Proc.walks_nil h0.history.nested⟩
  · simp [h0.history.requestList, h0.toFree, h0.history.nextRid]
  · rw [h0.history.requestList, h0.toFree]
    exact Memory.holds_init hm _
  · simp [h0.history.requestList]
  · simp [h0.toFree]

/-- A request is initialised. -/
theorem Inv.initRequest (hi : s.Inv) (hh : h'.Inv False) (hn : h'.proc.nested = [])
    (hlist : h'.proc.requestList = s.history.proc.nextRid :: s.history.proc.requestList)
    (hnext : h'.proc.nextRid = s.history.proc.nextRid + 1) {p b e : Addr} (hnodup : [p, b, e].Nodup)
    (hf : ∀ q ∈ [p, b, e], q ≠ 0 ∧ q ∉ s.memory.heap) :
    ∃ m', s.memory.initRequest p b e = some m' ∧
      Inv ⟨h', m', Function.update s.addr s.history.proc.nextRid p, s.toFree⟩ := by
  obtain ⟨listed, freed, buf, hm, hlisted, hfreed⟩ := hi.memory
  obtain ⟨m', hm', h₁⟩ := hm.initRequest hnodup hf
  -- the other requests stay where they are
  have hold : ∀ l : List Rid, (∀ q ∈ l, q < s.history.proc.nextRid) →
      l.map (Function.update s.addr s.history.proc.nextRid p) = l.map s.addr := by
    intro l hl
    refine List.map_congr_left fun q hq => ?_
    exact Function.update_of_ne (Nat.ne_of_lt (hl q hq)) ..
  have hlt : ∀ q ∈ s.history.proc.requestList ++ s.toFree, q < s.history.proc.nextRid :=
    fun q hq => hi.mem_ids.mpr hq
  refine ⟨m', hm', hh, ?_, ⟨(e, p) :: listed, freed,
    Function.update buf p b, ?_, ?_, ?_⟩, Proc.walks_nil hn⟩
  · show (h'.proc.requestList ++ s.toFree).Perm (List.range h'.proc.nextRid)
    rw [hlist, hnext, List.range_succ]
    exact (hi.ids.cons _).trans (List.perm_append_singleton _ _).symm
  · show m'.Holds _ _
      ((h'.proc.requestList ++ s.toFree).map (Function.update s.addr s.history.proc.nextRid p)) _
    rw [hlist, List.cons_append, List.map_cons, Function.update_self, hold _ hlt]
    exact h₁
  · show _ = h'.proc.requestList.map (Function.update s.addr s.history.proc.nextRid p)
    rw [hlist, List.map_cons, List.map_cons, Function.update_self, hlisted,
      hold _ fun q hq => hlt q (List.mem_append_left _ hq)]
  · rw [hfreed]
    exact (hold _ fun q hq => hlt q (List.mem_append_right _ hq)).symm

/-- A request is freed. -/
theorem Inv.requestFree (hi : s.Inv) (hh : h'.Inv False) (hn : h'.proc.nested = [])
    (hr : r ∈ s.history.proc.requestList)
    (hlist : h'.proc.requestList = s.history.proc.requestList.erase r)
    (hnext : h'.proc.nextRid = s.history.proc.nextRid) {e : Addr}
    (hf : ∀ m, s.memory.removeRequestFromList (s.addr r) = some m → e ≠ 0 ∧ e ∉ m.heap) :
    ∃ m', s.memory.requestFree (s.addr r) e = some m' ∧ Inv ⟨h', m', s.addr, r :: s.toFree⟩ := by
  obtain ⟨listed, freed, buf, hm, hlisted, hfreed⟩ := hi.memory
  -- where the request is in the list, and its cell in memory
  obtain ⟨front, rest, hno, hsplit, herase⟩ := List.exists_erase_eq hr
  rw [hsplit, List.map_append, List.map_cons] at hlisted
  obtain ⟨listed₁, listed₂, rfl, hlisted₁, hlisted₂⟩ := List.map_eq_append_iff.mp hlisted
  obtain ⟨cell, listed₃, rfl, hcell, hlisted₃⟩ := List.map_eq_cons_iff.mp hlisted₂
  obtain ⟨c, q⟩ := cell
  obtain rfl : q = s.addr r := hcell
  have hlt : ∀ q ∈ s.history.proc.requestList, q < s.history.proc.nextRid :=
    fun q hq => hi.mem_ids.mpr (List.mem_append_left _ hq)
  have hbefore : ∀ x ∈ listed₁, x.2 ≠ s.addr r := by
    intro x hx heq
    have hmem : s.addr r ∈ front.map s.addr := by
      rw [← hlisted₁, ← heq]
      exact List.mem_map_of_mem hx
    obtain ⟨q, hq, heq'⟩ := List.mem_map.mp hmem
    have hqlist : q ∈ s.history.proc.requestList := by
      rw [hsplit]
      exact List.mem_append_left _ hq
    exact hno (hi.addr_inj (hlt q hqlist) (hlt r hr) heq' ▸ hq)
  obtain ⟨m', hm', h₁⟩ := hm.requestFree hbefore hf
  have hperm : (s.history.proc.requestList ++ s.toFree).Perm (h'.proc.requestList ++ r :: s.toFree) := by
    rw [hlist]
    exact ((List.perm_cons_erase hr).append_right _).trans List.perm_middle.symm
  refine ⟨m', hm', hh, ?_, ⟨listed₁ ++ listed₃, (e, s.addr r) :: freed, buf, h₁.perm (hperm.map _), ?_, ?_⟩,
    Proc.walks_nil hn⟩
  · show (h'.proc.requestList ++ r :: s.toFree).Perm (List.range h'.proc.nextRid)
    rw [hnext]
    exact hperm.symm.trans hi.ids
  · show _ = h'.proc.requestList.map s.addr
    rw [hlist, herase, List.map_append, List.map_append, hlisted₁, hlisted₃]
  · rw [List.map_cons, hfreed]
    rfl

/-- Neither list is changed. -/
theorem Inv.quiet (hi : s.Inv) (hh : h'.Inv False)
    (hlist : h'.proc.requestList = s.history.proc.requestList)
    (hnext : h'.proc.nextRid = s.history.proc.nextRid) (hw : h'.proc.Walks) :
    Inv ⟨h', s.memory, s.addr, s.toFree⟩ := by
  refine ⟨hh, ?_, ?_, hw⟩
  · show (h'.proc.requestList ++ s.toFree).Perm (List.range h'.proc.nextRid)
    rw [hlist, hnext]
    exact hi.ids
  · show ∃ listed freed buf, s.memory.Holds listed freed ((h'.proc.requestList ++ s.toFree).map s.addr) buf ∧
      listed.map Prod.snd = h'.proc.requestList.map s.addr ∧ freed.map Prod.snd = s.toFree.map s.addr
    rw [hlist]
    exact hi.memory

/-- **One step**, if `malloc` finds what is not in use. -/
theorem Inv.act (hi : s.Inv) (hf : s.Fresh a) (hh : s.history.step a.act = some h') :
    ∃ m', s.memoryStep a = some m' ∧ (s.after a h' m').Inv := by
  have hh' : h'.Inv False := History.inv_step hi.history False.elim hh
  have hcase := hh
  obtain ⟨act, p, b, e⟩ := a
  cases act with
  | sendInit args | recvInit args =>
      simp only [History.step] at hcase
      split at hcase
      · rename_i hfree
        cases hcase
        obtain ⟨hnodup, hunused⟩ := hf.init args (by simp)
        exact hi.initRequest hh' hfree.2 rfl rfl hnodup hunused
      · cases hcase
  | free r =>
      simp only [History.step] at hcase
      split at hcase
      · rename_i hfree
        cases hcase
        exact hi.requestFree hh' hfree.1.2 hfree.2.1 rfl rfl fun m hm => hf.free r m rfl hm
      · cases hcase
  | start r =>
      simp only [History.step] at hcase
      split at hcase
      · rename_i hfree
        cases hcase
        obtain ⟨-, hn, hkept, -, -⟩ := start_frame (p := s.history.proc) r
        exact ⟨_, rfl, hi.quiet hh' hkept.requestList hkept.nextRid (Proc.walks_nil (hn.trans hfree.1.2))⟩
      · cases hcase
  | wait r =>
      simp only [History.step] at hcase
      split at hcase
      · rename_i hfree
        cases hcase
        obtain ⟨-, hn, -, -, hkept⟩ := wait_frame (p := s.history.proc) r
        exact ⟨_, rfl, hi.quiet hh' hkept.requestList hkept.nextRid (Proc.walks_nil (hn.trans hfree.1.2))⟩
      · cases hcase
  | run ans =>
      simp only [History.step] at hcase
      split at hcase
      · rename_i q c hrun
        have hw := Proc.walks_run hi.walks hi.history.shape hi.history.known hrun
        obtain ⟨-, -, hkept⟩ := Proc.run_control hi.history.shape hi.history.known hrun
        split at hcase
        · cases hcase
          exact ⟨_, rfl, hi.quiet hh' hkept.requestList hkept.nextRid hw⟩
        · cases hcase
      · cases hcase
  | announces r info =>
      cases hcase
      exact ⟨_, rfl, hi.quiet hh' rfl rfl hi.walks⟩
  | delivers r =>
      simp only [History.step] at hcase
      split at hcase
      · cases hcase
        exact ⟨_, rfl, hi.quiet hh' rfl rfl hi.walks⟩
      · cases hcase
  | lands i =>
      simp only [History.step] at hcase
      split at hcase
      · cases hcase
        exact ⟨_, rfl, hi.quiet hh' rfl rfl hi.walks⟩
      · cases hcase
  | writeFlag r v =>
      cases hcase
      exact ⟨_, rfl, hi.quiet hh' rfl rfl hi.walks⟩

/-- Where a step is defined, `malloc` found what was not in use. -/
theorem fresh_of_memoryStep {m : Memory} (h : s.memoryStep a = some m) : s.Fresh a := by
  constructor
  · rintro args (hact | hact)
    · simp only [memoryStep, hact] at h
      exact Memory.initRequest_fresh h
    · simp only [memoryStep, hact] at h
      exact Memory.initRequest_fresh h
  · intro r m₁ hact hm₁
    simp only [memoryStep, hact, Memory.requestFree, hm₁, Option.bind_some] at h
    exact Memory.push_fresh h

theorem inv_step (hi : s.Inv) (hs : s.step a = some s') : s'.Inv := by
  obtain ⟨h', hh, hs⟩ := Option.bind_eq_some_iff.mp hs
  obtain ⟨m, hm, rfl⟩ := Option.map_eq_some_iff.mp hs
  obtain ⟨m', hm', hi'⟩ := hi.act (fresh_of_memoryStep hm) hh
  obtain rfl : m' = m := Option.some.inj (hm'.symm.trans hm)
  exact hi'

/-! ### The linked lists -/

theorem Inv.refines (hi : s.Inv) : s.Refines := by
  obtain ⟨listed, freed, buf, hm, hlisted, hfreed⟩ := hi.memory
  obtain ⟨next, hhead, hlist⟩ := hm.head
  obtain ⟨nextf, hfhead, hflist⟩ := hm.freeHead
  constructor
  · exact ⟨_, hhead, listed, hlist, hlisted⟩
  · exact ⟨_, hfhead, freed, hflist, hfreed⟩
  · intro current rest hmem
    obtain ⟨front, hfront⟩ := hi.walks current rest hmem
    rw [← hfront, List.map_append] at hlisted
    obtain ⟨listed₁, listed₂, rfl, -, hlisted₂⟩ := List.map_eq_append_iff.mp hlisted
    obtain ⟨p, -, hp⟩ := Chain.append_iff.mp hlist
    exact ⟨p, listed₂, hp, hlisted₂⟩
  · intro r hr
    rw [hm.requests _ (List.mem_map_of_mem (hi.mem_ids.mp hr))]
    rfl
  · intro q hq r hr heq
    exact hi.addr_inj hq hr heq
  · intro r hr hno e
    have hremove : s.memory.removeRequestFromList (s.addr r) = none := by
      refine hm.remove_none fun x hx heq => hno ?_
      have hmem : s.addr r ∈ s.history.proc.requestList.map s.addr := by
        rw [← hlisted, ← heq]
        exact List.mem_map_of_mem hx
      obtain ⟨q, hq, heq'⟩ := List.mem_map.mp hmem
      exact hi.addr_inj (hi.mem_ids.mpr (List.mem_append_left _ hq)) hr heq' ▸ hq
    rw [Memory.requestFree, hremove, Option.bind_none]
  · intro a hf hs
    obtain ⟨h', hh⟩ := Option.isSome_iff_exists.mp hs
    obtain ⟨m', hm', -⟩ := hi.act hf hh
    rw [step, hh, Option.bind_some, hm']
    rfl

theorem reach_inv (h : Reach step anyStep Init s) : s.Inv :=
  h.invariant (fun _ h0 => inv_start h0) fun _ _ _ hi _ hs => inv_step hi hs

/--
**The linked lists are the lists of requests**, in every run, and whichever addresses
`malloc` finds.
-/
theorem lists_refine (h : Reach step anyStep Init s) : s.Refines := (reach_inv h).refines

/--
**`MPIOPT_FINALIZE` frees all memory**, if every request was freed; if not, an assertion
fails.
-/
theorem finalize_frees (h : Reach step anyStep Init s) :
    (s.history.proc.requestList = [] → ∃ m, s.memory.mpioptFinalize = some m ∧ m.heap = ∅) ∧
      (s.history.proc.requestList ≠ [] → s.memory.mpioptFinalize = none) := by
  have hi := reach_inv h
  obtain ⟨listed, freed, buf, hm, hlisted, hfreed⟩ := hi.memory
  constructor
  · intro hnil
    rw [hnil] at hm hlisted
    obtain rfl : listed = [] := List.map_eq_nil_iff.mp hlisted
    refine hm.finalize ?_
    rw [hfreed]
    exact List.Perm.refl _
  · intro hne
    refine hm.finalize_none ?_
    rintro rfl
    exact hne (List.map_eq_nil_iff.mp hlisted.symm)

end

/-! ### A run -/

/-- `MPIOPT_INIT` has just returned. -/
def freshStored : Stored where
  history := History.freshHistory
  memory := (Memory.mpioptInit 1 2).getD ⟨∅, 0, 0⟩
  addr := fun _ => 0
  toFree := []

theorem freshStored_init : Init freshStored := ⟨History.freshHistory_init, ⟨1, 2, rfl⟩, rfl⟩

/-- Actions that allocate nothing. -/
def silent (acts : List HistoryAct) : List StoredAct := acts.map fun act => ⟨act, 0, 0, 0⟩

/-- Three requests.  Request 1 is freed, and its element is found again for the other list.  The
Wait on request 0 looks after request 2 then. -/
def storedRun : List StoredAct :=
  [⟨.recvInit ⟨16, 2, 1, 0, 4⟩, 10, 11, 12⟩, ⟨.sendInit ⟨32, 2, 1, 1, 8⟩, 13, 14, 15⟩,
    ⟨.recvInit ⟨48, 2, 1, 2, 12⟩, 16, 17, 18⟩, ⟨.free 1, 0, 0, 15⟩] ++
      silent ([.start 0] ++ History.runs 4 false ++ [.wait 0] ++ History.runs 2 false)

theorem storedRun_refines :
    match runFrom step freshStored storedRun with
    | some s => s.Refines ∧ s.history.proc.requestList = [2, 0] ∧ s.toFree = [1] ∧
        s.history.proc.nested = [.progressWaiting 2 .probe, .progressOther 0 [0]]
    | none => False := by
  have hrun : (runFrom step freshStored storedRun).any (fun s => decide
      (s.history.proc.requestList = [2, 0] ∧ s.toFree = [1] ∧
        s.history.proc.nested = [.progressWaiting 2 .probe, .progressOther 0 [0]])) = true := by
    decide +kernel
  cases heq : runFrom step freshStored storedRun with
  | none => simp [heq] at hrun
  | some s =>
      simp only [heq, Option.any_some, decide_eq_true_eq] at hrun
      exact ⟨lists_refine (.of_runFrom _ (.init freshStored_init) heq), hrun⟩

/-- Two requests are initialised and freed, the second one first. -/
def freedRun : List StoredAct :=
  [⟨.recvInit ⟨16, 2, 1, 0, 4⟩, 10, 11, 12⟩, ⟨.sendInit ⟨32, 2, 1, 1, 8⟩, 13, 14, 15⟩,
    ⟨.free 1, 0, 0, 16⟩, ⟨.free 0, 0, 0, 15⟩]

theorem freedRun_finalize :
    match runFrom step freshStored freedRun with
    | some s => s.toFree = [0, 1] ∧ ∃ m, s.memory.mpioptFinalize = some m ∧ m.heap = ∅
    | none => False := by
  have hrun : (runFrom step freshStored freedRun).any (fun s => decide
      (s.toFree = [0, 1] ∧ s.history.proc.requestList = [])) = true := by
    decide +kernel
  cases heq : runFrom step freshStored freedRun with
  | none => simp [heq] at hrun
  | some s =>
      simp only [heq, Option.any_some, decide_eq_true_eq] at hrun
      obtain ⟨hfree, hlist⟩ := hrun
      exact ⟨hfree, (finalize_frees (.of_runFrom _ (.init freshStored_init) heq)).1 hlist⟩

end Stored

end CompMatch.Rendezvous

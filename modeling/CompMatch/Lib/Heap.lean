/-
A heap of objects that are allocated, read, written and freed.

What C leaves undefined is `none`: an access to an address at which nothing is live, and a
second `free`.  `malloc` is given the address it finds.

`Owns` lists the addresses that are live, each once.  Who knows the list knows what there
is still to be freed.
-/
import Mathlib.Data.List.AList

namespace CompMatch

/-- The objects that are live. -/
abbrev Heap (ι ω : Type*) := AList fun _ : ι => ω

namespace Heap

variable {ι ω : Type*}

/-- What is live. -/
def Owns (h : Heap ι ω) (l : List ι) : Prop := h.keys.Perm l

namespace Owns

variable {h : Heap ι ω} {p : ι} {l l' : List ι}

theorem empty : Owns (∅ : Heap ι ω) [] := by simp [Owns]

theorem eq_empty (ho : Owns h []) : h = ∅ := AList.ext (List.map_eq_nil_iff.mp (List.Perm.eq_nil ho))

theorem mem_iff (ho : Owns h l) : p ∈ h ↔ p ∈ l := AList.mem_keys.trans (List.Perm.mem_iff ho)

theorem nodup (ho : Owns h l) : l.Nodup := (List.Perm.nodup_iff ho).mp h.keys_nodup

theorem perm (ho : Owns h l) (hl : l.Perm l') : Owns h l' := List.Perm.trans ho hl

theorem length (ho : Owns h l) : h.keys.length = l.length := List.Perm.length_eq ho

end Owns

variable [DecidableEq ι]

def malloc (null : ι) (h : Heap ι ω) (p : ι) (o : ω) : Option (Heap ι ω) :=
  if p ≠ null ∧ p ∉ h then some (AList.insert p o h) else none

def store (h : Heap ι ω) (p : ι) (o : ω) : Option (Heap ι ω) :=
  if p ∈ h then some (AList.insert p o h) else none

/-- `free`, which does nothing for `NULL`. -/
def free (null : ι) (h : Heap ι ω) (p : ι) : Option (Heap ι ω) :=
  if p = null then some h else if p ∈ h then some (AList.erase p h) else none

section
variable {null : ι} {h h' : Heap ι ω} {p : ι} {o : ω} {l : List ι}

theorem malloc_eq (hm : malloc null h p o = some h') : p ≠ null ∧ p ∉ h ∧ h' = AList.insert p o h := by
  unfold malloc at hm
  split at hm
  · rename_i hp
    exact ⟨hp.1, hp.2, (Option.some.inj hm).symm⟩
  · cases hm

theorem store_eq (hs : store h p o = some h') : p ∈ h ∧ h' = AList.insert p o h := by
  unfold store at hs
  split at hs
  · rename_i hp
    exact ⟨hp, (Option.some.inj hs).symm⟩
  · cases hs

theorem store_of_mem (hp : p ∈ h) : store h p o = some (AList.insert p o h) := if_pos hp

theorem free_of_mem (hne : p ≠ null) (hp : p ∈ h) : free null h p = some (AList.erase p h) := by
  unfold free
  rw [if_neg hne, if_pos hp]

theorem mem_of_lookup (hl : h.lookup p = some o) : p ∈ h :=
  AList.lookup_isSome.mp (by rw [hl]; rfl)

namespace Owns

/-- A new object. -/
theorem insert (ho : Owns h l) (hp : p ∉ h) : Owns (AList.insert p o h) (p :: l) := by
  unfold Owns
  rw [AList.keys_insert, List.erase_of_not_mem (fun hk => hp (AList.mem_keys.mpr hk))]
  exact List.Perm.cons p ho

/-- An object is overwritten. -/
theorem update (ho : Owns h l) (hp : p ∈ h) : Owns (AList.insert p o h) l := by
  unfold Owns
  rw [AList.keys_insert]
  exact (List.perm_cons_erase (AList.mem_keys.mp hp)).symm.trans ho

/-- An object is freed. -/
theorem erase (ho : Owns h (p :: l)) : Owns (AList.erase p h) l := by
  unfold Owns
  rw [AList.keys_erase]
  have herase := List.Perm.erase p ho
  rwa [List.erase_cons_head] at herase

end Owns

end

end Heap

end CompMatch

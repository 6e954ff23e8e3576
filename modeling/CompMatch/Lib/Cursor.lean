/-
Buffers of bytes that are written and read at a cursor.

An access that does not stay inside the buffer has no result, so whatever has a result
has stayed inside.  Numbers are stored with their low byte first.
-/
import Mathlib.Algebra.Group.Nat.Defs
import Mathlib.Data.List.Basic

namespace CompMatch

/-- The `w` low bytes of `n`. -/
def toBytes : Nat → Nat → List UInt8
  | 0, _ => []
  | w + 1, n => UInt8.ofNat n :: toBytes w (n / 256)

def ofBytes : List UInt8 → Nat
  | [] => 0
  | b :: bs => b.toNat + 256 * ofBytes bs

/-- What is in the buffer after `bytes` were written from `pos` on. -/
def store (buf : List UInt8) (pos : Nat) (bytes : List UInt8) : Option (List UInt8) :=
  if pos + bytes.length ≤ buf.length
  then some (buf.take pos ++ bytes ++ buf.drop (pos + bytes.length)) else none

/-- The `len` bytes of the buffer from `pos` on. -/
def load (buf : List UInt8) (pos len : Nat) : Option (List UInt8) :=
  if pos + len ≤ buf.length then some ((buf.drop pos).take len) else none

/-! ### Numbers -/

@[simp] theorem length_toBytes (w n : Nat) : (toBytes w n).length = w := by
  induction w generalizing n with
  | zero => rfl
  | succ w ih => simp [toBytes, ih]

/-- A number that fits comes back as it was. -/
theorem ofBytes_toBytes {w n : Nat} (h : n < 256 ^ w) : ofBytes (toBytes w n) = n := by
  induction w generalizing n with
  | zero => simp_all [toBytes, ofBytes]
  | succ w ih =>
      have hdiv : n / 256 < 256 ^ w := by
        rw [Nat.div_lt_iff_lt_mul (by decide), ← Nat.pow_succ]
        exact h
      have hlow : (UInt8.ofNat n).toNat = n % 256 := by simp
      rw [toBytes, ofBytes, ih hdiv, hlow]
      exact Nat.mod_add_div n 256

/-! ### The cursor -/

section
variable {pre mid post bytes m : List UInt8} {pos len k : Nat}

/-- What follows the cursor is overwritten. -/
theorem store_append (hpos : pos = pre.length) (hlen : mid.length = bytes.length) :
    store (pre ++ mid ++ post) pos bytes = some (pre ++ bytes ++ post) := by
  subst hpos
  have hle : pre.length + bytes.length ≤ (pre ++ mid ++ post).length := by
    simp only [List.length_append]
    omega
  rw [store, if_pos hle, List.append_assoc pre mid post, List.take_left, ← List.drop_drop,
    List.drop_left, ← hlen, List.drop_left]

/-- What follows the cursor is read. -/
theorem load_append (hpos : pos = pre.length) (hlen : len = mid.length) :
    load (pre ++ mid ++ post) pos len = some mid := by
  subst hpos hlen
  have hle : pre.length + mid.length ≤ (pre ++ mid ++ post).length := by simp
  rw [load, if_pos hle, List.append_assoc, List.drop_left, List.take_left]

/-- A buffer of `k` bytes that is filled up to the cursor; zeros follow. -/
def filled (k : Nat) (pre : List UInt8) : List UInt8 := pre ++ List.replicate (k - pre.length) 0

theorem filled_nil (k : Nat) : filled k [] = List.replicate k 0 := rfl

theorem filled_full (h : pre.length = k) : filled k pre = pre := by
  rw [filled, h, Nat.sub_self, List.replicate_zero, List.append_nil]

/-- The cursor passes zeros. -/
theorem filled_skip {n : Nat} (h : pre.length + n ≤ k) :
    filled k pre = filled k (pre ++ List.replicate n 0) := by
  have hsplit : k - pre.length = n + (k - (pre ++ List.replicate n (0 : UInt8)).length) := by
    rw [List.length_append, List.length_replicate]
    omega
  rw [filled, filled, hsplit, List.append_assoc, List.replicate_append_replicate]

/-- More is written behind what was written. -/
theorem store_filled (hpos : pos = pre.length) (h : pre.length + bytes.length ≤ k) :
    store (filled k pre) pos bytes = some (filled k (pre ++ bytes)) := by
  rw [filled_skip h, filled, store_append hpos (by simp), filled]
  simp only [List.length_append, List.length_replicate]

theorem load_all (m : List UInt8) : load m 0 m.length = some m := by
  rw [load, if_pos (Nat.le_of_eq (Nat.zero_add _)), List.drop_zero, List.take_length]

theorem length_of_load (h : load m pos len = some bytes) : bytes.length = len := by
  unfold load at h
  split at h <;> simp only [reduceCtorEq, Option.some.injEq] at h
  rw [← h, List.length_take, List.length_drop]
  omega

/-- A part of the buffer reads the same as the whole. -/
theorem load_of_take (h : load (m.take k) pos len = some bytes) : load m pos len = some bytes := by
  unfold load at h ⊢
  split at h <;> simp only [reduceCtorEq, Option.some.injEq] at h
  rename_i hle
  rw [List.length_take] at hle
  rw [if_pos (by omega), ← h, List.drop_take, List.take_take, Nat.min_eq_left (by omega)]

end

end CompMatch

import Mathlib.Algebra.Group.Nat.Defs
import Mathlib.Data.List.Basic
import Mathlib.Tactic.Common

/-!
# Byte arrays that start out zero

A C array of bytes is a list of the bytes written so far; every byte past the
end of the list is still zero.  `slice` reads a range, `write` overwrites one
(this is `recv` and an assignment), `moveDown` is `memmove` to the front.  The
size of the C array is not part of the list: who writes shows that it stays
inside.

All facts about ranges follow from `getD_slice` and `getD_write`.
-/

namespace Buffer

abbrev Bytes := List UInt8

/-- The `len` bytes from `off` on. -/
def slice (b : Bytes) (off len : Nat) : Bytes :=
  (List.range len).map fun i => b.getD (off + i) 0

/-- Overwrite the bytes from `off` on with `xs`. -/
def write (b : Bytes) (off : Nat) (xs : Bytes) : Bytes :=
  slice b 0 off ++ (xs ++ b.drop (off + xs.length))

/-- `memmove(b, b + src, len)`. -/
def moveDown (b : Bytes) (src len : Nat) : Bytes := write b 0 (slice b src len)

/-! ## Reading -/

@[simp] theorem length_slice (b : Bytes) (off len : Nat) : (slice b off len).length = len := by
  simp [slice]

theorem getD_slice (b : Bytes) (off len i : Nat) :
    (slice b off len).getD i 0 = if i < len then b.getD (off + i) 0 else 0 := by
  unfold slice
  rw [List.getD_eq_getElem?_getD, List.getElem?_map]
  split
  · next h => rw [List.getElem?_range h]; rfl
  · next h => rw [List.getElem?_eq_none (by simpa using h)]; rfl

/-- Two ranges of one length are equal if they agree byte by byte. -/
theorem slice_ext (b c : Bytes) (m n len : Nat)
    (h : ∀ i, i < len → b.getD (m + i) 0 = c.getD (n + i) 0) : slice b m len = slice c n len := by
  unfold slice
  apply List.map_congr_left
  intro i hi
  exact h i (List.mem_range.mp hi)

@[simp] theorem slice_zero (b : Bytes) (off : Nat) : slice b off 0 = [] := rfl

theorem slice_succ (b : Bytes) (off n : Nat) :
    slice b off (n + 1) = b.getD off 0 :: slice b (off + 1) n := by
  unfold slice
  rw [List.range_succ_eq_map, List.map_cons, List.map_map, Nat.add_zero]
  congr 1
  apply List.map_congr_left
  intro i _
  simp only [Function.comp_apply, Nat.succ_eq_add_one]
  rw [Nat.add_right_comm, Nat.add_assoc]

theorem slice_add (b : Bytes) (off m n : Nat) :
    slice b off (m + n) = slice b off m ++ slice b (off + m) n := by
  unfold slice
  rw [List.range_add, List.map_append, List.map_map]
  congr 1
  apply List.map_congr_left
  intro i _
  simp [Nat.add_assoc]

theorem take_slice (b : Bytes) (off len k : Nat) :
    (slice b off len).take k = slice b off (min k len) := by
  unfold slice
  rw [← List.map_take, List.take_range]

theorem drop_slice (b : Bytes) (off len k : Nat) :
    (slice b off len).drop k = slice b (off + k) (len - k) := by
  rcases Nat.le_total k len with h | h
  · obtain ⟨n, rfl⟩ := Nat.exists_eq_add_of_le h
    rw [slice_add, List.drop_left' (length_slice b off k), Nat.add_sub_cancel_left]
  · rw [List.drop_of_length_le (by simpa using h), Nat.sub_eq_zero_of_le h, slice_zero]

/-- Reading a list from its front, when it is long enough. -/
theorem slice_eq_take (b : Bytes) (len : Nat) (h : len ≤ b.length) : slice b 0 len = b.take len := by
  apply List.ext_getElem
  · simp [h]
  · intro i h1 h2
    simp only [length_slice] at h1
    have hi : i < b.length := by omega
    simp [slice, List.getD_eq_getElem?_getD, List.getElem?_eq_getElem hi]

@[simp] theorem slice_self (b : Bytes) : slice b 0 b.length = b := by
  rw [slice_eq_take b _ (Nat.le_refl _), List.take_length]

/-! ## Writing -/

theorem getD_write (b : Bytes) (off : Nat) (xs : Bytes) (i : Nat) :
    (write b off xs).getD i 0 =
      if off ≤ i ∧ i < off + xs.length then xs.getD (i - off) 0 else b.getD i 0 := by
  unfold write
  simp only [List.getD_eq_getElem?_getD, List.getElem?_append, length_slice, List.getElem?_drop]
  split
  · next h =>
    rw [if_neg (by omega), ← List.getD_eq_getElem?_getD, getD_slice, if_pos h, Nat.zero_add,
      List.getD_eq_getElem?_getD]
  · next h =>
    split
    · next h2 => rw [if_pos (by omega)]
    · next h2 =>
      rw [if_neg (by omega)]
      congr 2
      omega

/-- What was written is read back. -/
theorem slice_write_same (b : Bytes) (off : Nat) (xs : Bytes) :
    slice (write b off xs) off xs.length = xs := by
  conv => rhs; rw [← slice_self xs]
  apply slice_ext
  intro i hi
  rw [getD_write, if_pos (by omega), Nat.zero_add, Nat.add_sub_cancel_left]

/-- Ranges below the written one keep their bytes. -/
theorem slice_write_below (b : Bytes) (off : Nat) (xs : Bytes) (m n : Nat) (h : m + n ≤ off) :
    slice (write b off xs) m n = slice b m n := by
  apply slice_ext
  intro i hi
  rw [getD_write, if_neg (by omega)]

/-- Ranges above the written one keep their bytes. -/
theorem slice_write_above (b : Bytes) (off : Nat) (xs : Bytes) (m n : Nat)
    (h : off + xs.length ≤ m) : slice (write b off xs) m n = slice b m n := by
  apply slice_ext
  intro i hi
  rw [getD_write, if_neg (by omega)]

/-- The bytes up to the end of a write: the old ones below it, then the new ones. -/
theorem slice_write_end (b : Bytes) (off : Nat) (xs : Bytes) :
    slice (write b off xs) 0 (off + xs.length) = slice b 0 off ++ xs := by
  rw [slice_add, slice_write_below b off xs 0 off (by omega), Nat.zero_add, slice_write_same]

/-- After `memmove` the moved bytes are at the front. -/
theorem slice_moveDown (b : Bytes) (src len : Nat) :
    slice (moveDown b src len) 0 len = slice b src len := by
  unfold moveDown
  have h := slice_write_same b 0 (slice b src len)
  rwa [length_slice] at h

end Buffer

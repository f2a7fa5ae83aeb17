import Websocksy.Lib.Buffer
import Mathlib.Data.List.Induction

/-!
# Numbers in network byte order

`bigEndian len n` is `n` in `len` bytes, of which only the lowest `len` bytes
are kept; `ofBigEndian` reads any number of bytes back.
-/

namespace Buffer

/-- The bytes of `n` in network byte order. -/
def bigEndian (len n : Nat) : Bytes :=
  (List.range len).map fun i => (n / 256 ^ (len - 1 - i)).toUInt8

/-- The number whose bytes in network byte order are `b`. -/
def ofBigEndian (b : Bytes) : Nat := b.foldl (fun n x => 256 * n + x.toNat) 0

@[simp] theorem length_bigEndian (len n : Nat) : (bigEndian len n).length = len := by
  simp [bigEndian]

/-- The last byte is the lowest. -/
theorem bigEndian_succ (len n : Nat) :
    bigEndian (len + 1) n = bigEndian len (n / 256) ++ [n.toUInt8] := by
  unfold bigEndian
  rw [List.range_succ, List.map_append]
  congr 1
  · apply List.map_congr_left
    intro i hi
    have hlt : i < len := List.mem_range.mp hi
    rw [Nat.div_div_eq_div_mul, ← Nat.pow_succ', show len + 1 - 1 - i = len - 1 - i + 1 by omega]
  · simp

theorem ofBigEndian_append (b : Bytes) (x : UInt8) :
    ofBigEndian (b ++ [x]) = 256 * ofBigEndian b + x.toNat := by
  simp [ofBigEndian]

/-- What was written is read back, as far as it fits. -/
theorem ofBigEndian_bigEndian (len n : Nat) : ofBigEndian (bigEndian len n) = n % 256 ^ len := by
  induction len generalizing n with
  | zero => simp [bigEndian, ofBigEndian, Nat.mod_one]
  | succ len ih =>
      rw [bigEndian_succ, ofBigEndian_append, ih, Nat.pow_succ', Nat.mod_mul]
      simp only [Nat.toUInt8_eq, UInt8.toNat_ofNat']
      omega

theorem ofBigEndian_lt (b : Bytes) : ofBigEndian b < 256 ^ b.length := by
  induction b using List.reverseRecOn with
  | nil => simp [ofBigEndian]
  | append_singleton b x ih =>
      have := x.toNat_lt
      rw [ofBigEndian_append, List.length_append, List.length_singleton, Nat.pow_succ]
      omega

/-- Bytes are those of the number that they are read as. -/
theorem bigEndian_ofBigEndian (b : Bytes) : bigEndian b.length (ofBigEndian b) = b := by
  induction b using List.reverseRecOn with
  | nil => rfl
  | append_singleton b x ih =>
      have hlt : x.toNat < 256 := x.toNat_lt
      have hdiv : ofBigEndian (b ++ [x]) / 256 = ofBigEndian b := by
        rw [ofBigEndian_append]
        omega
      have hlast : (ofBigEndian (b ++ [x])).toUInt8 = x := by
        apply UInt8.toNat_inj.mp
        rw [ofBigEndian_append]
        simp only [Nat.toUInt8_eq, UInt8.toNat_ofNat']
        omega
      rw [List.length_append, List.length_singleton, bigEndian_succ, hdiv, hlast, ih]

end Buffer

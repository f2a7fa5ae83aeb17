import Mathlib.Algebra.Group.Int.Defs
import Websocksy.Builtins

/-!
# The segment size of `framing_dynamic32`

The function adds offset, static amount and size field as 32-bit numbers, and also the end of
the size field is such a sum.  So a segment of 2^32 bytes or more is taken for a shorter one, and
a size field that ends behind 2^32 bytes is taken for one at the start of the buffer.
-/

namespace Websocksy

open Buffer CString

namespace Dynamic32Config

/-- The end of the size field. -/
def fieldEnd (c : Dynamic32Config) : Nat := c.offset.toNat + 4

/-- The number in the size field. -/
def sizeField (c : Dynamic32Config) (data : Bytes) : Nat :=
  let field := slice data c.offset.toNat 4
  ofBigEndian (if c.endian then field else field.reverse)

/-- `offset + 4 + static + size field content`, in exact arithmetic. -/
def segmentSize (c : Dynamic32Config) (data : Bytes) : Int :=
  c.fieldEnd + c.fixed.toInt + c.sizeField data

/-- The number of bytes to frame: the segment size once there are so many bytes. -/
def framed (c : Dynamic32Config) (data : Bytes) (length : Nat) : Int :=
  if c.fieldEnd ≤ length ∧ c.segmentSize data ≤ length ∧ 0 < c.segmentSize data then
    c.segmentSize data
  else 0

end Dynamic32Config

theorem sizeField_lt (c : Dynamic32Config) (data : Bytes) : c.sizeField data < 2 ^ 32 := by
  unfold Dynamic32Config.sizeField
  refine Nat.lt_of_lt_of_eq (ofBigEndian_lt _) ?_
  split <;> simp

theorem fieldEnd_toNat (c : Dynamic32Config) : (c.offset + 4).toNat = c.fieldEnd % 2 ^ 32 := by
  rw [UInt32.toNat_add]
  rfl

/-- The sum of 32-bit numbers is the segment size modulo 2^32. -/
theorem total_toNat (c : Dynamic32Config) (data : Bytes) :
    ((c.offset + 4 + c.fixed.toUInt32 + (c.sizeField data).toUInt32).toNat : Int) =
      c.segmentSize data % 2 ^ 32 := by
  have hsize : (c.sizeField data).toUInt32.toNat = c.sizeField data := by
    rw [Nat.toUInt32_eq, UInt32.toNat_ofNat_of_lt' (sizeField_lt c data)]
  have hfixed : (c.fixed.toUInt32.toNat : Int) = c.fixed.toInt ∨
      (c.fixed.toUInt32.toNat : Int) = c.fixed.toInt + 2 ^ 32 := by
    have hcond := BitVec.toInt_eq_toNat_cond c.fixed.toBitVec
    have hnat : c.fixed.toUInt32.toNat = c.fixed.toBitVec.toNat := rfl
    have hint : c.fixed.toInt = c.fixed.toBitVec.toInt := rfl
    rw [hnat, hint, hcond]
    split
    · exact .inl rfl
    · right
      have hmod : ((2 ^ 32 : Nat) : Int) = 2 ^ 32 := rfl
      omega
  rw [UInt32.toNat_add, UInt32.toNat_add, fieldEnd_toNat, hsize, Dynamic32Config.segmentSize]
  omega

/-- The code, in numbers: it waits for the end of the field modulo 2^32, reads the field if it is
in the buffer, and then frames by the sum modulo 2^32. -/
theorem dynamic32Frame_eq (c : Dynamic32Config) (data : Bytes) (length : Nat) :
    dynamic32Frame c (some data) length =
      if length < c.fieldEnd % 2 ^ 32 then some 0
      else if length < c.fieldEnd then none
      else some (if c.segmentSize data % 2 ^ 32 ≤ length then c.segmentSize data % 2 ^ 32 else 0) := by
  have htotal := total_toNat c data
  unfold dynamic32Frame dynamic32Size
  rw [fieldEnd_toNat]
  by_cases hwaits : length < c.fieldEnd % 2 ^ 32
  · rw [if_neg (Nat.not_le.mpr hwaits), if_pos hwaits]
  rw [if_pos (Nat.not_lt.mp hwaits), if_neg hwaits]
  by_cases hbehind : length < c.fieldEnd
  · have hread : length < c.offset.toNat + 4 := hbehind
    simp only [Option.bind_some, if_pos hread, if_pos hbehind, Option.map_none]
  · have hread : ¬length < c.offset.toNat + 4 := hbehind
    simp only [Option.bind_some, if_neg hread, if_neg hbehind, Option.map_some, Option.some.injEq]
    show (if (c.offset + 4 + c.fixed.toUInt32 + (c.sizeField data).toUInt32).toNat ≤ length then
      ((c.offset + 4 + c.fixed.toUInt32 + (c.sizeField data).toUInt32).toNat : Int) else 0) = _
    rw [← htotal]
    exact if_congr (by omega) rfl rfl

/-- The configuration of a call with a buffer: what it finds stored, or what it parses. -/
def Dynamic32Config.Configures (c : Dynamic32Config) (framingData : Option Dynamic32Config)
    (config : Option Bytes) : Prop :=
  framingData = some c ∨ framingData = none ∧ config.bind dynamic32Parse = some c

theorem framingDynamic32_frame {framingData : Option Dynamic32Config} {config : Option Bytes}
    {c : Dynamic32Config} (h : c.Configures framingData config) (data : Bytes)
    (length lastRead : Nat) (opcode : Option WsOperation) :
    framingDynamic32 (some data) length lastRead opcode framingData config =
      (dynamic32Frame c (some data) length).map (·, opcode, some c) := by
  rcases h with rfl | ⟨rfl, hparse⟩
  · rfl
  · unfold framingDynamic32
    rw [hparse]
    rfl

/-- **`framing_dynamic32` frames by the exact segment size** of its configuration `c` exactly if,
where the size field is in the buffer, the segment is shorter than 2^32 bytes or the sum modulo 2^32
keeps the function waiting too; and where it is not, its end modulo 2^32 is behind the buffer. -/
theorem segment_size_iff {framingData : Option Dynamic32Config} {config : Option Bytes}
    {c : Dynamic32Config} (hc : c.Configures framingData config)
    (hstatic : 0 ≤ c.fieldEnd + c.fixed.toInt) (data : Bytes) (length lastRead : Nat)
    (opcode : Option WsOperation) :
    framingDynamic32 (some data) length lastRead opcode framingData config =
        some (c.framed data length, opcode, some c) ↔
      if c.fieldEnd ≤ length then
        if c.segmentSize data ≤ length then c.segmentSize data < 2 ^ 32
        else length < c.segmentSize data % 2 ^ 32 ∨ c.segmentSize data % 2 ^ 32 = 0
      else length < c.fieldEnd % 2 ^ 32 := by
  have hsize : 0 ≤ c.segmentSize data := by
    unfold Dynamic32Config.segmentSize
    omega
  rw [framingDynamic32_frame hc, dynamic32Frame_eq, Dynamic32Config.framed]
  generalize c.segmentSize data = size at hsize ⊢
  generalize c.fieldEnd = field
  by_cases hfield : field ≤ length
  · -- the field is read
    rw [if_neg (by omega), if_neg (by omega), if_pos hfield]
    simp only [Option.map_some, Option.some.injEq, Prod.mk.injEq, and_true]
    by_cases hthere : size ≤ length
    · rw [if_pos hthere, if_pos (by omega)]
      by_cases hpos : 0 < size
      · rw [if_pos ⟨hfield, hthere, hpos⟩]
        omega
      · rw [if_neg fun h => hpos h.2.2]
        omega
    · have hwaits : ¬(field ≤ length ∧ size ≤ length ∧ 0 < size) := fun h => hthere h.2.1
      rw [if_neg hthere, if_neg hwaits]
      by_cases hwraps : size % 2 ^ 32 ≤ length
      · rw [if_pos hwraps]
        omega
      · rw [if_neg hwraps]
        omega
  · have hnone : ¬(field ≤ length ∧ size ≤ length ∧ 0 < size) := fun h => hfield h.1
    rw [if_neg hfield, if_neg hnone]
    by_cases hwaits : length < field % 2 ^ 32
    · rw [if_pos hwaits]
      exact iff_of_true rfl hwaits
    · rw [if_neg hwaits, if_pos (Nat.not_le.mp hfield)]
      exact iff_of_false (fun h => by cases h) hwaits

/-- The size 3 at the start of a segment. -/
theorem segment_size_iff_sample :
    framingDynamic32 (some [3, 0, 0, 0, 97, 98, 99, 0]) 8 8 (some .binary) none (some []) =
      some (Dynamic32Config.framed {} [3, 0, 0, 0, 97, 98, 99, 0] 8, some .binary, some {}) :=
  (segment_size_iff (.inr ⟨rfl, rfl⟩) (by decide) [3, 0, 0, 0, 97, 98, 99, 0] 8 8
    (some .binary)).mpr (by decide)

/-- A size field of `FF FF FF FF`: the segment of 2^32 + 3 bytes is framed after three bytes. -/
theorem segment_size_fails :
    framingDynamic32 (some [0xFF, 0xFF, 0xFF, 0xFF, 0]) 4 4 (some .binary) (some {}) none =
        some (3, some .binary, some {}) ∧
      Dynamic32Config.segmentSize {} [0xFF, 0xFF, 0xFF, 0xFF, 0] = 2 ^ 32 + 3 ∧
      (3 : Int) ≠ Dynamic32Config.framed {} [0xFF, 0xFF, 0xFF, 0xFF, 0] 4 := by
  decide

end Websocksy

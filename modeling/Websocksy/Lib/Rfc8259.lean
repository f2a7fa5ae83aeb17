import Websocksy.Lib.CString
import Mathlib.Data.List.Basic

/-!
# JSON texts

The grammar of RFC 8259 as syntax trees.  A tree holds all that the text does, whitespace and
the spelling of numbers and characters included, so `bytes` gives every text of the grammar,
and a statement about all texts is one about all trees.
-/

namespace Rfc8259

open Buffer CString

/-- `ws`: space, horizontal tab, line feed or carriage return. -/
def isWs (b : UInt8) : Bool := b == 32 || b == 9 || b == 10 || b == 13

abbrev Ws := {w : Bytes // ∀ b ∈ w, isWs b}

/-- `1*DIGIT` -/
abbrev Digits := {d : Bytes // d ≠ [] ∧ ∀ b ∈ d, isdigit b}

/-- `exp = e [ minus / plus ] 1*DIGIT` -/
structure Exponent where
  upper : Bool
  sign : Option Bool
  digits : Digits
  deriving DecidableEq

/-- `number = [ minus ] int [ frac ] [ exp ]`; no zero stands before other digits. -/
structure Number where
  minus : Bool
  int : Digits
  leading : int.val = [48] ∨ int.val.head? ≠ some 48
  frac : Option Digits
  exp : Option Exponent
  deriving DecidableEq

/-- `char`: a character as it is, in UTF-8, or one of the two kinds of escapes. -/
inductive Character
  | unescaped (c : Char) (h : 32 ≤ c.val ∧ c ≠ '"' ∧ c ≠ '\\')
  | escaped (b : UInt8) (h : b ∈ ascii "\"\\/bfnrt")
  | unicode (a b c d : UInt8) (h : ∀ x ∈ [a, b, c, d], isxdigit x)
  deriving DecidableEq

/-- A key with the colon behind it and the whitespace around both. -/
structure Key where
  before : Ws
  name : List Character
  behind : Ws
  after : Ws

mutual

/-- `value`; an array or an object is empty, or it has elements or members. -/
inductive Value
  | null
  | true
  | false
  | number (n : Number)
  | string (s : List Character)
  | emptyArray (w : Ws)
  | array (es : Elements)
  | emptyObject (w : Ws)
  | object (ms : Members)

/-- The elements of an array with the whitespace around them. -/
inductive Elements
  | last (before : Ws) (v : Value) (behind : Ws)
  | cons (before : Ws) (v : Value) (behind : Ws) (es : Elements)

inductive Members
  | last (key : Key) (v : Value) (behind : Ws)
  | cons (key : Key) (v : Value) (behind : Ws) (ms : Members)

end

def Exponent.bytes (e : Exponent) : Bytes :=
  (if e.upper then 69 else 101) :: (e.sign.elim [] (fun plus => [if plus then 43 else 45]) ++
    e.digits.val)

def Number.bytes (n : Number) : Bytes :=
  (if n.minus then [45] else []) ++ n.int.val ++ n.frac.elim [] (46 :: ·.val) ++
    n.exp.elim [] Exponent.bytes

def Character.bytes : Character → Bytes
  | .unescaped c _ => String.utf8EncodeChar c
  | .escaped b _ => [92, b]
  | .unicode a b c d _ => [92, 117, a, b, c, d]

/-- The characters between the quotation marks. -/
def content (s : List Character) : Bytes := s.flatMap Character.bytes

def stringBytes (s : List Character) : Bytes := 34 :: (content s ++ [34])

def Key.bytes (k : Key) : Bytes :=
  k.before.val ++ (stringBytes k.name ++ (k.behind.val ++ 58 :: k.after.val))

mutual

def Value.bytes : Value → Bytes
  | .null => ascii "null"
  | .true => ascii "true"
  | .false => ascii "false"
  | .number n => n.bytes
  | .string s => stringBytes s
  | .emptyArray w => 91 :: (w.val ++ [93])
  | .array es => 91 :: (es.bytes ++ [93])
  | .emptyObject w => 123 :: (w.val ++ [125])
  | .object ms => 123 :: (ms.bytes ++ [125])

def Elements.bytes : Elements → Bytes
  | .last before v behind => before.val ++ (v.bytes ++ behind.val)
  | .cons before v behind es => before.val ++ (v.bytes ++ (behind.val ++ 44 :: es.bytes))

def Members.bytes : Members → Bytes
  | .last key v behind => key.bytes ++ (v.bytes ++ behind.val)
  | .cons key v behind ms => key.bytes ++ (v.bytes ++ (behind.val ++ 44 :: ms.bytes))

end

def Value.isNumber : Value → Bool
  | .number _ => .true
  | _ => .false

/-- An object, an array or a string. -/
def Value.isEntity : Value → Bool
  | .string _ | .emptyArray _ | .array _ | .emptyObject _ | .object _ => .true
  | _ => .false

/-- An object or an array. -/
def Value.isContainer : Value → Bool
  | .emptyArray _ | .array _ | .emptyObject _ | .object _ => .true
  | _ => .false

/-! ## Bytes -/

theorem utf8EncodeChar_cases (c : Char) :
    String.utf8EncodeChar c = [UInt8.ofNat c.val.toNat] ∧ c.val.toNat ≤ 127 ∨
    ∀ b ∈ String.utf8EncodeChar c, 128 ≤ b := by
  have hle : ∀ n, 128 ≤ n → n < 256 → (128 : UInt8) ≤ UInt8.ofNat n := by
    intro n h h'
    rw [UInt8.le_iff_toNat_le, UInt8.toNat_ofNat_of_lt' h']
    exact h
  unfold String.utf8EncodeChar
  dsimp only
  split
  · next h => exact .inl ⟨rfl, h⟩
  · refine .inr ?_
    split
    · intro b hb
      simp only [List.mem_cons, List.not_mem_nil, or_false] at hb
      rcases hb with rfl | rfl <;> exact hle _ (by omega) (by omega)
    · split
      · intro b hb
        simp only [List.mem_cons, List.not_mem_nil, or_false] at hb
        rcases hb with rfl | rfl | rfl <;> exact hle _ (by omega) (by omega)
      · intro b hb
        simp only [List.mem_cons, List.not_mem_nil, or_false] at hb
        rcases hb with rfl | rfl | rfl | rfl <;> exact hle _ (by omega) (by omega)

/-- What an unescaped character is made of. -/
theorem unescaped_bytes {c : Char} (h : 32 ≤ c.val ∧ c ≠ '"' ∧ c ≠ '\\') :
    ∀ b ∈ String.utf8EncodeChar c, 32 ≤ b ∧ b ≠ 34 ∧ b ≠ 92 := by
  intro b hb
  rcases utf8EncodeChar_cases c with ⟨hone, hle⟩ | hhigh
  · rw [hone, List.mem_singleton] at hb
    obtain ⟨h32, hquote, hslash⟩ := h
    have hn : (UInt8.ofNat c.val.toNat).toNat = c.val.toNat := 
      UInt8.toNat_ofNat_of_lt' (Nat.lt_of_le_of_lt hle (by decide))
    have hval : ∀ {d : Char}, c.val.toNat = d.val.toNat → c = d := fun h =>
      Char.ext (UInt32.toNat_inj.mp h)
    rw [UInt32.le_iff_toNat_le] at h32
    subst hb
    refine ⟨?_, fun h => hquote (hval ?_), fun h => hslash (hval ?_)⟩
    · rw [UInt8.le_iff_toNat_le, hn]
      exact h32
    · rw [← hn, h]
      rfl
    · rw [← hn, h]
      rfl
  · have h128 := hhigh b hb
    refine ⟨?_, ?_, ?_⟩
    · exact UInt8.le_trans (by decide) h128
    · rintro rfl
      exact absurd h128 (by decide)
    · rintro rfl
      exact absurd h128 (by decide)

end Rfc8259

import Websocksy.Lib.Buffer
import Mathlib.Computability.Language

/-!
# UTF-8 by RFC 3629

The grammar of section 4 (`utf8Octets`), and the wider class of sequences that only have
the bit patterns of the table in section 3 (`bitPatterns`).  A string is cut into sequences
in one way at most, since the first byte of a sequence tells its length; and a sequence with
the bit pattern is a character of the grammar unless it is longer than its number needs,
stands for a surrogate, or for a number above U+10FFFF.
-/

namespace Rfc3629

open Buffer Computability

/-- `UTF8-tail` -/
def Tail (b : UInt8) : Prop := 0x80 ≤ b ∧ b ≤ 0xBF

instance (b : UInt8) : Decidable (Tail b) := inferInstanceAs (Decidable (_ ∧ _))

/-- `UTF8-char`, one line for each of `UTF8-1` to `UTF8-4`. -/
def utf8Char : Bytes → Prop
  | [a] => a ≤ 0x7F
  | [a, b] => (0xC2 ≤ a ∧ a ≤ 0xDF) ∧ Tail b
  | [a, b, c] =>
      (a = 0xE0 ∧ 0xA0 ≤ b ∧ b ≤ 0xBF ∨ (0xE1 ≤ a ∧ a ≤ 0xEC) ∧ Tail b ∨
        a = 0xED ∧ 0x80 ≤ b ∧ b ≤ 0x9F ∨ (0xEE ≤ a ∧ a ≤ 0xEF) ∧ Tail b) ∧ Tail c
  | [a, b, c, d] =>
      (a = 0xF0 ∧ 0x90 ≤ b ∧ b ≤ 0xBF ∨ (0xF1 ≤ a ∧ a ≤ 0xF3) ∧ Tail b ∨
        a = 0xF4 ∧ 0x80 ≤ b ∧ b ≤ 0x8F) ∧ Tail c ∧ Tail d
  | _ => False

/-- `UTF8-octets = *( UTF8-char )` -/
def utf8Octets : Language UInt8 := ({c | utf8Char c} : Language UInt8)∗

/-- A sequence of the table in section 3, by its bits. -/
def bitPattern : Bytes → Prop
  | [a] => a ≤ 0x7F
  | [a, b] => (0xC0 ≤ a ∧ a ≤ 0xDF) ∧ Tail b
  | [a, b, c] => (0xE0 ≤ a ∧ a ≤ 0xEF) ∧ Tail b ∧ Tail c
  | [a, b, c, d] => (0xF0 ≤ a ∧ a ≤ 0xF7) ∧ Tail b ∧ Tail c ∧ Tail d
  | _ => False

def bitPatterns : Language UInt8 := ({c | bitPattern c} : Language UInt8)∗

/-- The number that the bits of a sequence stand for. -/
def number : Bytes → Nat
  | [a] => a.toNat
  | [a, b] => a.toNat % 32 * 64 + b.toNat % 64
  | [a, b, c] => a.toNat % 16 * 4096 + b.toNat % 64 * 64 + c.toNat % 64
  | [a, b, c, d] => a.toNat % 8 * 262144 + b.toNat % 64 * 4096 + c.toNat % 64 * 64 + d.toNat % 64
  | _ => 0

/-- A longer sequence than the number needs. -/
def Overlong (c : Bytes) : Prop :=
  c.length = 2 ∧ number c < 0x80 ∨ c.length = 3 ∧ number c < 0x800 ∨ c.length = 4 ∧ number c < 0x10000

def Surrogate (c : Bytes) : Prop := 0xD800 ≤ number c ∧ number c ≤ 0xDFFF

/-- What the RFC forbids of the sequences with the bit pattern. -/
def Forbidden (c : Bytes) : Prop := Overlong c ∨ Surrogate c ∨ 0x10FFFF < number c

theorem tail_toNat (b : UInt8) : Tail b ↔ 128 ≤ b.toNat ∧ b.toNat ≤ 191 := by
  unfold Tail
  rw [UInt8.le_iff_toNat_le, UInt8.le_iff_toNat_le]
  rfl

/-- **The grammar says what the RFC forbids.** -/
theorem utf8Char_iff {c : Bytes} (h : bitPattern c) : utf8Char c ↔ ¬Forbidden c := by
  unfold Forbidden Overlong Surrogate
  match c, h with
  | [a], h =>
      simp only [bitPattern, utf8Char, number, UInt8.le_iff_toNat_le, List.length_singleton] at h ⊢
      have : a.toNat ≤ 127 := h
      omega
  | [a, b], h =>
      simp only [bitPattern, utf8Char, number, UInt8.le_iff_toNat_le, tail_toNat, List.length_cons,
        List.length_nil, Nat.reduceAdd, Nat.reduceEqDiff, UInt8.reduceToNat, true_and, false_and,
        or_false] at h ⊢
      omega
  | [a, b, c], h =>
      simp only [bitPattern, utf8Char, number, UInt8.le_iff_toNat_le, ← UInt8.toNat_inj, tail_toNat,
        List.length_cons, List.length_nil, Nat.reduceAdd, Nat.reduceEqDiff, UInt8.reduceToNat, true_and, false_and,
        or_false, false_or] at h ⊢
      omega
  | [a, b, c, d], h =>
      simp only [bitPattern, utf8Char, number, UInt8.le_iff_toNat_le, ← UInt8.toNat_inj, tail_toNat,
        List.length_cons, List.length_nil, Nat.reduceAdd, Nat.reduceEqDiff, UInt8.reduceToNat, true_and, false_and,
        false_or] at h ⊢
      omega

theorem utf8Char_bitPattern {c : Bytes} (h : utf8Char c) : bitPattern c := by
  match c, h with
  | [a], h => exact h
  | [a, b], h =>
      simp only [bitPattern, utf8Char, UInt8.le_iff_toNat_le, UInt8.reduceToNat] at h ⊢
      exact ⟨by omega, h.2⟩
  | [a, b, c], h =>
      simp only [bitPattern, utf8Char, UInt8.le_iff_toNat_le, ← UInt8.toNat_inj, tail_toNat,
        UInt8.reduceToNat] at h ⊢
      omega
  | [a, b, c, d], h =>
      simp only [bitPattern, utf8Char, UInt8.le_iff_toNat_le, ← UInt8.toNat_inj, tail_toNat,
        UInt8.reduceToNat] at h ⊢
      omega

/-! ## Cutting a string into sequences -/

/-- The length of the sequence that a byte starts. -/
def sequenceLength (a : UInt8) : Nat :=
  if a ≤ 0x7F then 1 else if a ≤ 0xDF then 2 else if a ≤ 0xEF then 3 else 4

theorem bitPattern_length {c : Bytes} (h : bitPattern c) :
    ∃ a r, c = a :: r ∧ c.length = sequenceLength a := by
  unfold sequenceLength
  match c, h with
  | [a], h => exact ⟨a, _, rfl, (if_pos h).symm⟩
  | [a, b], h =>
      refine ⟨a, _, rfl, ?_⟩
      simp only [bitPattern, UInt8.le_iff_toNat_le, UInt8.reduceToNat] at h ⊢
      rw [if_neg (by omega), if_pos (by omega)]
      rfl
  | [a, b, c], h =>
      refine ⟨a, _, rfl, ?_⟩
      simp only [bitPattern, UInt8.le_iff_toNat_le, UInt8.reduceToNat] at h ⊢
      rw [if_neg (by omega), if_neg (by omega), if_pos (by omega)]
      rfl
  | [a, b, c, d], h =>
      refine ⟨a, _, rfl, ?_⟩
      simp only [bitPattern, UInt8.le_iff_toNat_le, UInt8.reduceToNat] at h ⊢
      rw [if_neg (by omega), if_neg (by omega), if_neg (by omega)]
      rfl

/-- The first sequence of a string is determined. -/
theorem bitPattern_append {c d r s : Bytes} (hc : bitPattern c) (hd : bitPattern d)
    (h : c ++ r = d ++ s) : c = d ∧ r = s := by
  obtain ⟨a, x, hx, hlen⟩ := bitPattern_length hc
  obtain ⟨b, y, hy, hlen'⟩ := bitPattern_length hd
  have hhead : a = b := by
    rw [hx, hy, List.cons_append, List.cons_append] at h
    exact (List.cons.inj h).1
  exact List.append_inj h (by rw [hlen, hlen', hhead])

/-- **A string is cut into sequences in one way.** -/
theorem flatten_inj {l m : List Bytes} (hl : ∀ c ∈ l, bitPattern c) (hm : ∀ c ∈ m, bitPattern c)
    (h : l.flatten = m.flatten) : l = m := by
  have hne : ∀ {c r : Bytes}, bitPattern c → [] ≠ c ++ r := by
    intro c r hc he
    rw [(List.append_eq_nil_iff.mp he.symm).1] at hc
    exact hc
  induction l generalizing m with
  | nil =>
      cases m with
      | nil => rfl
      | cons d m => exact absurd h (hne (hm d List.mem_cons_self))
  | cons c l ih =>
      cases m with
      | nil => exact absurd h.symm (hne (hl c List.mem_cons_self))
      | cons d m =>
          obtain ⟨rfl, hrest⟩ := bitPattern_append (hl c List.mem_cons_self) (hm d List.mem_cons_self) h
          rw [ih (fun e he => hl e (List.mem_cons_of_mem _ he))
            (fun e he => hm e (List.mem_cons_of_mem _ he)) hrest]

theorem nil_mem_bitPatterns : ([] : Bytes) ∈ bitPatterns := Language.nil_mem_kstar _

/-- Taking off the first sequence. -/
theorem cons_mem_bitPatterns (a : UInt8) (r : Bytes) :
    a :: r ∈ bitPatterns ↔ sequenceLength a ≤ (a :: r).length ∧
      bitPattern ((a :: r).take (sequenceLength a)) ∧
      (a :: r).drop (sequenceLength a) ∈ bitPatterns := by
  constructor
  · rintro ⟨l, hl, hpatterns⟩
    cases l with
    | nil => cases hl
    | cons c l =>
        have hc := hpatterns c List.mem_cons_self
        obtain ⟨b, x, rfl, hlen⟩ := bitPattern_length hc
        have hsplit : a :: r = (b :: x) ++ l.flatten := hl
        obtain rfl : a = b := (List.cons.inj hl).1
        refine ⟨?_, ?_, ?_⟩
        · rw [hsplit, List.length_append, hlen]
          exact Nat.le_add_right _ _
        · rw [hsplit, List.take_left' hlen]
          exact hc
        · rw [hsplit, List.drop_left' hlen]
          exact ⟨l, rfl, fun e he => hpatterns e (List.mem_cons_of_mem _ he)⟩
  · rintro ⟨-, hc, l, hl, hpatterns⟩
    refine ⟨(a :: r).take (sequenceLength a) :: l, ?_, fun e he => ?_⟩
    · rw [List.flatten_cons, ← hl, List.take_append_drop]
    · rcases List.mem_cons.mp he with rfl | he
      · exact hc
      · exact hpatterns e he

/-- **UTF-8 is what has the bit patterns and holds nothing forbidden.** -/
theorem mem_utf8Octets_iff (b : Bytes) :
    (b ∈ bitPatterns ↔ b ∈ utf8Octets) ↔
      ∀ l : List Bytes, (∀ c ∈ l, bitPattern c) → l.flatten = b → ∀ c ∈ l, ¬Forbidden c := by
  constructor
  · rintro hiff l hl rfl c hc
    obtain ⟨m, hm, hchars⟩ := hiff.mp ⟨l, rfl, hl⟩
    have hsame := flatten_inj hl (fun d hd => utf8Char_bitPattern (hchars d hd)) hm
    rw [hsame] at hc
    exact (utf8Char_iff (utf8Char_bitPattern (hchars c hc))).mp (hchars c hc)
  · intro hallowed
    constructor
    · rintro ⟨l, rfl, hl⟩
      exact ⟨l, rfl, fun c hc => (utf8Char_iff (hl c hc)).mpr (hallowed l hl rfl c hc)⟩
    · rintro ⟨l, rfl, hl⟩
      exact ⟨l, rfl, fun c hc => utf8Char_bitPattern (hl c hc)⟩

/-- A sequence alone is UTF-8 if it is a character. -/
theorem utf8Char_of_mem {c : Bytes} (h : bitPattern c) (hc : c ∈ utf8Octets) : utf8Char c := by
  obtain ⟨l, hl, hchars⟩ := hc
  have hsame : [c] = l := by
    refine flatten_inj ?_ (fun d hd => utf8Char_bitPattern (hchars d hd)) (by simpa using hl)
    intro d hd
    rwa [List.mem_singleton.mp hd]
  exact hchars c (hsame ▸ List.mem_singleton_self c)

end Rfc3629

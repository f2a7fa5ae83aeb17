import Websocksy.Builtins

/-!
# The escapes in the configuration of `framing_separator`

A separator is spelled byte by byte: as it is, by a named escape, or by two hexadecimal
digits.  `framing_separator` reads the number of a `\x` from its second digit on, so that
the character behind the escape counts as its last digit.
-/

namespace Websocksy

open Buffer CString

/-! ## Spellings -/

/-- The named escapes. -/
inductive NamedEscape
  | carriageReturn | tab | newline | nul | formFeed | backslash
  deriving DecidableEq

/-- The letter behind the backslash. -/
def NamedEscape.letter : NamedEscape → UInt8
  | .carriageReturn => 114
  | .tab => 116
  | .newline => 110
  | .nul => 48
  | .formFeed => 102
  | .backslash => 92

def NamedEscape.byte : NamedEscape → UInt8
  | .carriageReturn => 13
  | .tab => 9
  | .newline => 10
  | .nul => 0
  | .formFeed => 12
  | .backslash => 92

/-- One way to write a byte. -/
inductive Spelling
  | plain (c : UInt8) (h : c ≠ 0 ∧ c ≠ 92)
  | named (e : NamedEscape)
  | hex (a b : UInt8) (ha : isxdigit a) (hb : isxdigit b)

def Spelling.chars : Spelling → Bytes
  | .plain c _ => [c]
  | .named e => [92, e.letter]
  | .hex a b _ _ => [92, 120, a, b]

def Spelling.byte : Spelling → UInt8
  | .plain c _ => c
  | .named e => e.byte
  | .hex a b _ _ => (16 * digitValue a + digitValue b).toUInt8

/-- The configuration string. -/
def spellText (ss : List Spelling) : Bytes := ss.flatMap Spelling.chars

/-- The digits `a` and `b` of a `\x` come out right before the character `next`: a further
digit has to be equal to both, and otherwise the first one has to be 0. -/
def ReadsHex (a b : UInt8) (next : Option UInt8) : Prop :=
  if next.any isxdigit then digitValue a = digitValue b ∧ digitValue b = digitValue (next.getD 0)
  else digitValue a = 0

instance (a b : UInt8) (next : Option UInt8) : Decidable (ReadsHex a b next) := by
  unfold ReadsHex
  infer_instance

/-! ## What is stored -/

/-- The bytes that come out. -/
def decoded : List Spelling → Bytes
  | [] => []
  | .hex _ b _ _ :: ss => scanHex (b :: spellText ss) :: decoded ss
  | s :: ss => s.byte :: decoded ss

theorem NamedEscape.spec (e : NamedEscape) :
    e.letter ≠ 0 ∧ e.letter ≠ 120 ∧ separatorEscape e.letter = e.byte := by
  cases e <;> decide

theorem isxdigit_ne_nul {c : UInt8} (h : isxdigit c) : c ≠ 0 := by
  rintro rfl
  exact absurd h (by decide)

theorem isxdigit_lt {c : UInt8} (h : isxdigit c) : digitValue c < 16 := by
  simpa [isxdigit] using h

theorem nul_notMem_spellText (ss : List Spelling) : 0 ∉ spellText ss := by
  intro h
  obtain ⟨s, -, hs⟩ := List.mem_flatMap.mp h
  cases s with
  | plain c hc => exact hc.1 (List.mem_singleton.mp hs).symm
  | named e =>
      have hletter := e.spec.1
      simp only [Spelling.chars, List.mem_cons, List.not_mem_nil, or_false] at hs
      rcases hs with hs | hs
      · exact absurd hs (by decide)
      · exact hletter hs.symm
  | hex a b ha hb =>
      simp only [Spelling.chars, List.mem_cons, List.not_mem_nil, or_false] at hs
      rcases hs with hs | hs | hs | hs
      · exact absurd hs (by decide)
      · exact absurd hs (by decide)
      · exact isxdigit_ne_nul ha hs.symm
      · exact isxdigit_ne_nul hb hs.symm

/-- The configuration loop over a spelled string. -/
theorem separatorParse_spellText (ss : List Spelling) : separatorParse (spellText ss) = some (decoded ss) := by
  induction ss with
  | nil => rfl
  | cons s ss ih =>
      have hcons : spellText (s :: ss) = s.chars ++ spellText ss := List.flatMap_cons
      rw [hcons]
      cases s with
      | plain c hc =>
          show separatorParse (c :: spellText ss) = _
          unfold separatorParse
          rw [if_neg hc.2, ih]
          rfl
      | named e =>
          obtain ⟨-, hx, hbyte⟩ := e.spec
          show separatorParse (92 :: e.letter :: spellText ss) = _
          unfold separatorParse
          rw [if_pos rfl]
          dsimp only
          rw [if_neg hx, ih, hbyte]
          rfl
      | hex a b ha hb =>
          show separatorParse (92 :: 120 :: a :: b :: spellText ss) = _
          unfold separatorParse
          rw [if_pos rfl]
          dsimp only
          rw [if_pos rfl, ha, hb, ih]
          rfl

/-- The number that is read from the second digit on. -/
theorem scanHex_cons {b : UInt8} (hb : isxdigit b) (s : Bytes) :
    scanHex (b :: s) = (if s.head?.any isxdigit then
      16 * digitValue b + digitValue (s.head?.getD 0) else digitValue b).toUInt8 := by
  have hlt := isxdigit_lt hb
  unfold scanHex numberValue
  cases s with
  | nil => simp [hlt]
  | cons c s =>
      by_cases hc : isxdigit c
      · have hlt' := isxdigit_lt hc
        simp [hlt, hlt', hc]
      · have hlt' : ¬digitValue c < 16 := by simpa [isxdigit] using hc
        simp [hlt, hlt', hc]

theorem readsHex_iff {a b : UInt8} (ha : isxdigit a) (hb : isxdigit b) (s : Bytes) :
    scanHex (b :: s) = (16 * digitValue a + digitValue b).toUInt8 ↔ ReadsHex a b s.head? := by
  have hlt := isxdigit_lt ha
  have hlt' := isxdigit_lt hb
  rw [scanHex_cons hb, ← UInt8.toNat_inj, UInt8.toNat_ofNat', UInt8.toNat_ofNat', ReadsHex]
  cases s with
  | nil =>
      rw [if_neg (by simp), if_neg (by simp)]
      omega
  | cons c s =>
      have hnext : (c :: s).head?.getD 0 = c := rfl
      by_cases hc : isxdigit c
      · have hany : (c :: s).head?.any isxdigit = true := hc
        have hlt'' := isxdigit_lt hc
        rw [if_pos hany, if_pos hany, hnext, Nat.mod_eq_of_lt (by omega), Nat.mod_eq_of_lt (by omega)]
        omega
      · have hany : ¬(c :: s).head?.any isxdigit = true := hc
        rw [if_neg hany, if_neg hany]
        omega

theorem decoded_iff (ss : List Spelling) :
    decoded ss = ss.map Spelling.byte ↔
      ∀ l a b ha hb r, ss = l ++ .hex a b ha hb :: r → ReadsHex a b (spellText r).head? := by
  induction ss with
  | nil =>
      refine iff_of_true rfl fun l a b ha hb r h => ?_
      exact absurd h.symm (by simp)
  | cons s ss ih =>
      have hsplit : (∀ l a b ha hb r, s :: ss = l ++ .hex a b ha hb :: r → ReadsHex a b (spellText r).head?) ↔
          (∀ a b ha hb, s = .hex a b ha hb → ReadsHex a b (spellText ss).head?) ∧
          ∀ l a b ha hb r, ss = l ++ .hex a b ha hb :: r → ReadsHex a b (spellText r).head? := by
        constructor
        · intro h
          refine ⟨fun a b ha hb hs => h [] a b ha hb ss (by rw [hs]; rfl), fun l a b ha hb r hr => ?_⟩
          exact h (s :: l) a b ha hb r (by rw [hr]; rfl)
        · rintro ⟨hfirst, hrest⟩ l a b ha hb r hr
          cases l with
          | nil =>
              obtain ⟨rfl, rfl⟩ := List.cons.inj hr
              exact hfirst a b ha hb rfl
          | cons s' l =>
              obtain ⟨rfl, rfl⟩ := List.cons.inj hr
              exact hrest l a b ha hb r rfl
      rw [hsplit, ← ih]
      cases s with
      | plain c hc =>
          rw [show decoded (.plain c hc :: ss) = c :: decoded ss from rfl, List.map_cons, List.cons.injEq]
          exact and_congr_left fun _ => iff_of_true rfl fun a b _ _ he => Spelling.noConfusion he
      | named e =>
          rw [show decoded (.named e :: ss) = e.byte :: decoded ss from rfl, List.map_cons, List.cons.injEq]
          exact and_congr_left fun _ => iff_of_true rfl fun a b _ _ he => Spelling.noConfusion he
      | hex a b ha hb =>
          rw [decoded, List.map_cons, List.cons.injEq, Spelling.byte, readsHex_iff ha hb]
          refine and_congr_left fun _ => ⟨fun h a' b' _ _ he => ?_, fun h => h a b ha hb rfl⟩
          cases he
          exact h

/-- **The separator that is stored** is the one that was spelled exactly if each `\x` comes out
right before the character behind it. -/
theorem separator_decoded_iff (ss : List Spelling) (rest data : Bytes) (length lastRead : Nat)
    (opcode : Option WsOperation) :
    (framingSeparator (some data) length lastRead opcode none
        (some (spellText ss ++ 0 :: rest))).bind (·.2.2) = some (ss.map Spelling.byte) ↔
      ∀ l a b ha hb r, ss = l ++ .hex a b ha hb :: r → ReadsHex a b (spellText r).head? := by
  rw [← decoded_iff]
  have hparse : separatorParse (cstr (spellText ss ++ 0 :: rest)) = some (decoded ss) := by
    rw [cstr_append_nul, cstr_eq_self _ (nul_notMem_spellText ss), separatorParse_spellText]
  unfold framingSeparator
  simp only [Option.map_some, Option.bind_some, hparse, Option.some.injEq]

/-- `\x1f`: the byte 15 is stored. -/
theorem separator_decoded_fails :
    spellText [.hex 49 102 (by decide) (by decide)] = ascii "\\x1f" ∧
    (framingSeparator (some (ascii "a")) 1 1 (some .binary) none
      (some (ascii "\\x1f" ++ [0]))).bind (·.2.2) = some [15] ∧
    [15] ≠ [Spelling.hex 49 102 (by decide) (by decide)].map Spelling.byte := by
  decide

end Websocksy

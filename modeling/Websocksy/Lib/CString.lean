import Websocksy.Lib.Buffer
import Mathlib.Data.List.TakeWhile

/-!
# C strings and the C locale

A C string at the start of an array is what stands before the first NUL
(`cstr`).  The functions of `<string.h>` and `<ctype.h>` are given on such
lists; the character classes are those of the C locale, in which no byte above
127 belongs to any class.  Comparison with a literal of `n` characters by
`strncmp` is a prefix test, and `strcmp` is equality of the lists.
-/

namespace CString

open Buffer

/-- The bytes of a string literal. -/
def ascii (s : String) : Bytes := s.toList.map fun c => c.toNat.toUInt8

/-- What holds of the numbers below 256 holds of every byte. -/
theorem forall_byte (p : UInt8 → Prop) (h : ∀ n : Fin 256, p (UInt8.ofNat n)) (b : UInt8) : p b := by
  have := h ⟨b.toNat, b.toNat_lt⟩
  rwa [UInt8.ofNat_toNat] at this

/-- A property of all bytes of a list, checked byte by byte. -/
theorem forall_mem_of_all {p : UInt8 → Prop} [DecidablePred p] {l : List UInt8}
    (h : l.all fun b => decide (p b)) : ∀ b ∈ l, p b := by
  simpa using h

def isspace (c : UInt8) : Bool := c == 32 || (9 ≤ c && c ≤ 13)

def isdigit (c : UInt8) : Bool := 48 ≤ c && c ≤ 57

def isprint (c : UInt8) : Bool := 32 ≤ c && c ≤ 126

def tolower (c : UInt8) : UInt8 := if 65 ≤ c && c ≤ 90 then c + 32 else c

/-- The C string at the start of `b`. -/
def cstr (b : Bytes) : Bytes := b.takeWhile (· != 0)

def strncmp (s lit : Bytes) : Bool := lit.isPrefixOf s

/-- `strcasecmp`, true when the strings are equal. -/
def strcasecmp (s t : Bytes) : Bool := s.map tolower == t.map tolower

/-- `strstr`, true when `t` occurs in `s`. -/
def strstr (s t : Bytes) : Bool := s.tails.any t.isPrefixOf

/-- `strchr`: what stands before and after the first `c`. -/
def strchr (c : UInt8) : Bytes → Option (Bytes × Bytes)
  | [] => none
  | x :: xs => if x = c then some ([], xs) else (strchr c xs).map fun p => (x :: p.1, p.2)

/-- All tokens of `strtok`: runs of characters other than `c`, none of them empty. -/
def strtok (c : UInt8) (s : Bytes) : List Bytes := (s.splitOn c).filter fun t => !t.isEmpty

def ltrim (s : Bytes) : Bytes := s.dropWhile isspace

def rtrim (s : Bytes) : Bytes := (s.reverse.dropWhile isspace).reverse

/-- The value of the digits at the start of `s`. -/
def digitsValue (s : Bytes) : Nat :=
  (s.takeWhile isdigit).foldl (fun n d => 10 * n + (d.toNat - 48)) 0

/-- `strtoul(s, NULL, 10)` with a 64-bit `unsigned long`: blanks, a sign, digits;
too large a number gives the largest value, a minus sign negates modulo 2^64. -/
def strtoul10 (s : Bytes) : Nat :=
  let s := ltrim s
  let neg := s.head? == some 45
  let n := digitsValue (if neg || s.head? == some 43 then s.tail else s)
  if 2 ^ 64 ≤ n then 2 ^ 64 - 1 else if neg then (2 ^ 64 - n) % 2 ^ 64 else n

/-- The value of a letter or a digit as a digit, 36 for other characters. -/
def digitValue (c : UInt8) : Nat :=
  if isdigit c then c.toNat - 48
  else if 97 ≤ tolower c && tolower c ≤ 122 then (tolower c).toNat - 87
  else 36

def isxdigit (c : UInt8) : Bool := digitValue c < 16

/-- The value of the digits to the base at the start of `s`. -/
def numberValue (base : Nat) (s : Bytes) : Nat :=
  (s.takeWhile (digitValue · < base)).foldl (fun n d => base * n + digitValue d) 0

/-- The base that the prefix of a number names, and the number behind the prefix. -/
def numberBase (s : Bytes) : Nat × Bytes :=
  if s.head? = some 48 then
    if (s.drop 1).head?.map tolower = some 120 ∧ (s.drop 2).head?.any isxdigit then (16, s.drop 2)
    else (8, s)
  else (10, s)

/-- `strtoul(s, NULL, 0)` with a 64-bit `unsigned long`. -/
def strtoul0 (s : Bytes) : Nat :=
  let s := ltrim s
  let neg := s.head? == some 45
  let b := numberBase (if neg || s.head? == some 43 then s.tail else s)
  let n := numberValue b.1 b.2
  if 2 ^ 64 ≤ n then 2 ^ 64 - 1 else if neg then (2 ^ 64 - n) % 2 ^ 64 else n

/-- The lines that `getline` gives, each with its newline. -/
def getLines : Bytes → List Bytes
  | [] => []
  | c :: content =>
    if c = 10 then [c] :: getLines content
    else match getLines content with
      | [] => [[c]]
      | line :: lines => (c :: line) :: lines

/-! ## Where a C string ends -/

theorem cstr_append_nul (l r : Bytes) : cstr (l ++ 0 :: r) = cstr l := by
  induction l with
  | nil => simp [cstr]
  | cons x xs ih =>
      simp only [cstr, List.cons_append, List.takeWhile_cons] at ih ⊢
      split
      · rw [ih]
      · rfl

theorem cstr_eq_self (l : Bytes) (h : 0 ∉ l) : cstr l = l := by
  unfold cstr
  rw [List.takeWhile_eq_self_iff]
  intro x hx
  have : x ≠ 0 := fun e => h (e ▸ hx)
  simpa using this

/-! ## `strchr` -/

theorem strchr_eq_none (c : UInt8) (s : Bytes) : strchr c s = none ↔ c ∉ s := by
  induction s with
  | nil => simp [strchr]
  | cons x xs ih =>
      unfold strchr
      split
      · next h => simp [h]
      · next h =>
        rw [Option.map_eq_none_iff, ih, List.mem_cons, not_or]
        exact ⟨fun h2 => ⟨fun e => h e.symm, h2⟩, And.right⟩

/-- What stands before the first `c` has none. -/
theorem strchr_notMem {c : UInt8} {s front back : Bytes} (h : strchr c s = some (front, back)) :
    c ∉ front := by
  induction s generalizing front with
  | nil => cases h
  | cons x xs ih =>
      unfold strchr at h
      split at h
      · cases h
        exact List.not_mem_nil
      · next hx =>
        obtain ⟨q, hq, hp⟩ := Option.map_eq_some_iff.mp h
        cases hp
        rw [List.mem_cons, not_or]
        exact ⟨fun e => hx e.symm, ih hq⟩

/-- The value `strchr` leaves after the separator, when there is one. -/
theorem strchr_eq_some (c : UInt8) (s : Bytes) (p : Bytes × Bytes) (h : strchr c s = some p) :
    s = p.1 ++ c :: p.2 := by
  induction s generalizing p with
  | nil => simp [strchr] at h
  | cons x xs ih =>
      unfold strchr at h
      split at h
      · next hx =>
        cases h
        simp [hx]
      · obtain ⟨q, hq, rfl⟩ := Option.map_eq_some_iff.mp h
        rw [ih q hq]
        rfl

/-- Behind a string without `c`, the first `c` is found. -/
theorem strchr_append {c : UInt8} {front : Bytes} (hf : c ∉ front) (back : Bytes) :
    strchr c (front ++ c :: back) = some (front, back) := by
  induction front with
  | nil => exact if_pos rfl
  | cons x front ih =>
      have hx : x ≠ c := fun e => hf (by rw [e]; exact List.mem_cons_self)
      rw [List.cons_append, strchr, if_neg hx, ih fun h => hf (List.mem_cons_of_mem x h)]
      rfl

/-! ## Lines -/

theorem getLines_line {line : Bytes} (h : 10 ∉ line) (rest : Bytes) :
    getLines (line ++ 10 :: rest) = (line ++ [10]) :: getLines rest := by
  induction line with
  | nil => exact if_pos rfl
  | cons c line ih =>
      have hc : c ≠ 10 := fun e => h (by rw [e]; exact List.mem_cons_self)
      rw [List.cons_append, getLines, if_neg hc, ih fun hm => h (List.mem_cons_of_mem c hm)]
      rfl

end CString

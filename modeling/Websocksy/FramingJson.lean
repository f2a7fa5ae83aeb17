import Websocksy.Builtins

/-!
# The framing function `json`

`framing_json.c`.  The scanners of an array and of an object and `json_length` call each
other; each gets the array from its first byte on and the number of bytes that are left, and
can look at what stands behind them.
-/

namespace Websocksy

open Buffer CString

variable {φ : Type}

/-- `for(; i < length && p(i); i++)` with `left` indices left. -/
def advance (p : Nat → Bool) : Nat → Nat → Nat
  | 0, i => i
  | left + 1, i => if p i then advance p left (i + 1) else i

theorem le_advance (p : Nat → Bool) (left i : Nat) : i ≤ advance p left i := by
  induction left generalizing i with
  | zero => exact Nat.le_refl _
  | succ left ih =>
      rw [advance]
      split
      · have := ih (i + 1)
        omega
      · exact Nat.le_refl _

theorem advance_le (p : Nat → Bool) (left i : Nat) : advance p left i ≤ i + left := by
  induction left generalizing i with
  | zero => exact Nat.le_refl _
  | succ left ih =>
      rw [advance]
      split
      · have := ih (i + 1)
        omega
      · omega

/-- The loop that skips whitespace. -/
def skipSpace (data : Bytes) (length offset : Nat) : Nat :=
  advance (fun i => isspace (data.getD i 0)) (length - offset) offset

theorem le_skipSpace (data : Bytes) (length offset : Nat) : offset ≤ skipSpace data length offset :=
  le_advance _ _ _

theorem skipSpace_le (data : Bytes) (length offset : Nat) :
    skipSpace data length offset ≤ max offset length := by
  have : skipSpace data length offset ≤ offset + (length - offset) := advance_le _ _ _
  omega

theorem le_skipSpace_add (data : Bytes) (length offset n : Nat) :
    offset ≤ skipSpace data length (offset + n) :=
  Nat.le_trans (Nat.le_add_right _ _) (le_skipSpace _ _ _)

def jsonLengthString (data : Bytes) (length : Nat) : Int :=
  if length = 0 then 0
  else if data.getD 0 0 ≠ 34 then -1
  else
    let stringLength := advance (fun i => isprint (data.getD i 0) &&
      (data.getD i 0 != 34 || data.getD (i - 1) 0 == 92)) (length - 1) 1
    if data.getD stringLength 0 = 34 ∧ data.getD (stringLength - 1) 0 ≠ 92 then stringLength + 1
    else if length ≤ stringLength then 0
    else -1

/-- A byte of a number. -/
def jsonNumberByte (c : UInt8) : Bool :=
  isdigit c || c == 43 || c == 45 || c == 46 || tolower c == 101

/-- A byte that a number does not end with. -/
def jsonNumberPart (c : UInt8) : Bool := c == 46 || tolower c == 101 || c == 45 || c == 43

/-- A byte behind a number: a comma, a space, the end of an object or an array. -/
def jsonNumberEnd (c : UInt8) : Bool := c == 44 || c == 32 || c == 125 || c == 93

/-- The part of `json_length_value` that matches a word or the beginning of one. -/
def jsonLengthLiteral (data : Bytes) (length : Nat) : Int :=
  if 4 ≤ length ∧ strncmp data (ascii "null") then 4
  else if 4 ≤ length ∧ strncmp data (ascii "true") then 4
  else if 5 ≤ length ∧ strncmp data (ascii "false") then 5
  else if length < 4 ∧ strncmp data ((ascii "null").take length) then 0
  else if length < 4 ∧ strncmp data ((ascii "true").take length) then 0
  else if length < 5 ∧ strncmp data ((ascii "false").take length) then 0
  else -1

def jsonLengthValue (data : Bytes) (length : Nat) : Int :=
  if length = 0 then 0
  else if data.getD 0 0 = 45 ∨ isdigit (data.getD 0 0) then
    let valueLength := advance (fun i => jsonNumberByte (data.getD i 0)) (length - 1) 1
    if jsonNumberEnd (data.getD valueLength 0) then valueLength
    else if length ≤ valueLength then
      if jsonNumberPart (data.getD (valueLength - 1) 0) then 0 else valueLength
    else jsonLengthLiteral data length
  else jsonLengthLiteral data length

/-- What follows the loop of a scanner. -/
def jsonClose (closer : UInt8) (data : Bytes) (offset : Nat) : Int :=
  if data.getD offset 0 = closer then offset + 1 else -1

/-- A loop of a scanner goes on behind the comma. -/
theorem pass_decreases {length offset behind : Nat} (hle : offset ≤ behind)
    (h : behind + 1 < length) : 3 * (length - (behind + 1)) + 3 < 3 * (length - offset) + 3 := by
  omega

/-- What a loop calls gets no more bytes than the loop has. -/
theorem call_decreases {length offset start : Nat} (hle : offset ≤ start) :
    3 * (length - start) + 2 < 3 * (length - offset) + 3 := by
  omega

mutual

/-- A pass of the loop of `json_length_array`, and what follows the loop. -/
def jsonArrayLoop (data : Bytes) (length offset : Nat) (nextLength : Int) : Int :=
  let start := skipSpace data length offset
  if nextLength = 0 ∧ data.getD start 0 = 93 then jsonClose 93 data start
  else
    let elementLength := jsonLength (data.drop start) (length - start)
    if elementLength ≤ 0 then elementLength
    else
      let behind := skipSpace data length (start + elementLength.toNat)
      if data.getD behind 0 = 93 then jsonClose 93 data behind
      else if length ≤ behind then 0
      else if data.getD behind 0 ≠ 44 then jsonClose 93 data behind
      else if behind + 1 < length then jsonArrayLoop data length (behind + 1) elementLength
      else jsonClose 93 data (behind + 1)
termination_by 3 * (length - offset) + 3
decreasing_by
  · exact call_decreases (le_skipSpace _ _ _)
  · exact pass_decreases (Nat.le_trans (le_skipSpace _ _ _) (le_skipSpace_add _ _ _ _)) ‹_›

def jsonLengthArray (data : Bytes) (length : Nat) : Int :=
  if length = 0 then 0
  else if data.getD 0 0 ≠ 91 then -1
  else jsonArrayLoop data length 1 0
termination_by 3 * length + 1

/-- A pass of the loop of `json_length_object`, and what follows the loop. -/
def jsonObjectLoop (data : Bytes) (length offset : Nat) (nextLength : Int) : Int :=
  let start := skipSpace data length offset
  if nextLength = 0 ∧ data.getD start 0 = 125 then jsonClose 125 data start
  else
    let keyLength := jsonLengthString (data.drop start) (length - start)
    if keyLength ≤ 0 then keyLength
    else
      let colon := skipSpace data length (start + keyLength.toNat)
      if length - 1 ≤ colon then 0 -- need one more character
      else if data.getD colon 0 ≠ 58 then -1
      else
        let valueLength := jsonLength (data.drop (colon + 1)) (length - (colon + 1))
        if valueLength ≤ 0 then valueLength
        else
          let behind := skipSpace data length (colon + 1 + valueLength.toNat)
          if data.getD behind 0 = 125 then jsonClose 125 data behind
          else if length ≤ behind then 0
          else if data.getD behind 0 ≠ 44 then jsonClose 125 data behind
          else if behind + 1 < length then jsonObjectLoop data length (behind + 1) valueLength
          else jsonClose 125 data (behind + 1)
termination_by 3 * (length - offset) + 3
decreasing_by
  · exact call_decreases (Nat.le_trans (le_skipSpace _ _ _) (Nat.le_trans (le_skipSpace_add _ _ _ _)
      (Nat.le_succ _)))
  · exact pass_decreases (Nat.le_trans (le_skipSpace _ _ _) (Nat.le_trans (le_skipSpace_add _ _ _ _)
      (Nat.le_trans (Nat.le_succ _) (le_skipSpace_add _ _ _ _)))) ‹_›

def jsonLengthObject (data : Bytes) (length : Nat) : Int :=
  if length = 0 then 0
  else if data.getD 0 0 ≠ 123 then -1
  else jsonObjectLoop data length 1 0
termination_by 3 * length + 1

def jsonLength (data : Bytes) (length : Nat) : Int :=
  if length = 0 then 0
  else
    let offset := skipSpace data length 0
    let c := data.getD offset 0
    let rv :=
      if c = 91 then jsonLengthArray (data.drop offset) (length - offset)
      else if c = 123 then jsonLengthObject (data.drop offset) (length - offset)
      else if c = 34 then jsonLengthString (data.drop offset) (length - offset)
      else jsonLengthValue (data.drop offset) (length - offset)
    if rv ≤ 0 then rv else offset + rv
termination_by 3 * length + 2

end

/-- `framing_json`: a JSON value as text, and everything at once if there is none. -/
def framingJson : WsFraming φ := fun data length _ opcode framingData _ =>
  let dataLength := jsonLength (data.getD []) length
  if 0 < dataLength then (dataLength, opcode.map fun _ => .text, framingData)
  else if dataLength = 0 then (0, opcode, framingData)
  else (length, opcode, framingData) -- failed to parse as json, just dump it

end Websocksy

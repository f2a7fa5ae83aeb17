import Websocksy.JsonScan
import Websocksy.Lib.Traced

/-!
# The calls and the sizes of `json`

The scanners of `framing_json.c` once more, under `Recorded`.  Here a call and an iteration of
a loop take fuel, a difference of two `size_t` wraps, and the calls, the sums and differences
and the iterations are recorded.  They come back with what the other model says, and no
difference wraps, although a length may exceed what its call was given.
-/

namespace Websocksy

open Buffer CString Traced

/-- What a scanner does on its way. -/
inductive ScanStep where
  | call (start length : Nat) -- a scanner, for `length` bytes from `start` on
  | sum (a b : Nat)
  | difference (a b : Nat)
  | pass (before after : Nat) -- an iteration of a loop, up to the end of an element
  | leave (before after : Nat) -- an iteration that leaves the loop without one
deriving DecidableEq, Repr

/-- Nothing is wrong with a step where the data end at `stop`.  A sum stays below twice the
data, and does not wrap either. -/
def ScanStep.Sound (stop : Nat) : ScanStep → Prop
  | .call start length => start + length = stop
  | .sum a b => a + b ≤ 2 * stop
  | .difference a b => b ≤ a
  | .pass before after => before < after
  | .leave before after => before ≤ after

/-- An iteration of a loop moves `current_offset`. -/
def ScanStep.Advances : ScanStep → Prop
  | .pass before after => before < after
  | .leave before after => before < after
  | _ => True

namespace Recorded

def sizeAdd (a b : Nat) : Traced ScanStep Nat := do
  step (.sum a b)
  return a + b

/-- `a - b`, of type `size_t`. -/
def sizeSub (a b : Nat) : Traced ScanStep Nat := do
  step (.difference a b)
  return if b ≤ a then a - b else 2 ^ 64 + a - b

/-- `data[i] == '"' && data[i - 1] != '\\'` -/
def quoteAt (data : Bytes) (i : Nat) : Traced ScanStep Bool := do
  if data.getD i 0 = 34 then return data.getD (← sizeSub i 1) 0 != 92
  else return false

/-- The loop of `json_length_string`. -/
def stringLoop (data : Bytes) (length : Nat) : Nat → Nat → Traced ScanStep Nat
  | 0, _ => outOfFuel
  | fuel + 1, stringLength => do
    if stringLength < length ∧ isprint (data.getD stringLength 0) then
      if ← quoteAt data stringLength then return stringLength
      else stringLoop data length fuel (← sizeAdd stringLength 1)
    else return stringLength

def jsonLengthString (buffer : Bytes) (fuel start length : Nat) : Traced ScanStep Int := do
  step (.call start length)
  let data := buffer.drop start
  if length = 0 then return 0
  else if data.getD 0 0 ≠ 34 then return -1
  else
    let stringLength ← stringLoop data length fuel 1
    if ← quoteAt data stringLength then return (← sizeAdd stringLength 1 : Nat)
    else if length ≤ stringLength then return 0
    else return -1

def jsonLengthValue (buffer : Bytes) (start length : Nat) : Traced ScanStep Int := do
  step (.call start length)
  let data := buffer.drop start
  if length = 0 then return 0
  else if data.getD 0 0 = 45 ∨ isdigit (data.getD 0 0) then
    let valueLength := advance (fun i => jsonNumberByte (data.getD i 0)) (length - 1) 1
    if jsonNumberEnd (data.getD valueLength 0) then return valueLength
    else if length ≤ valueLength then
      if jsonNumberPart (data.getD (← sizeSub valueLength 1) 0) then return 0
      else return valueLength
    else return jsonLengthLiteral data length
  else return jsonLengthLiteral data length

def jsonClose (closer : UInt8) (data : Bytes) (offset : Nat) : Traced ScanStep Int := do
  if data.getD offset 0 = closer then return (← sizeAdd offset 1 : Nat)
  else return -1

mutual

def jsonArrayLoop (buffer : Bytes) : Nat → Nat → Nat → Nat → Int → Traced ScanStep Int
  | 0, _, _, _, _ => outOfFuel
  | fuel + 1, start, length, offset, nextLength => do
    let data := buffer.drop start
    let element := skipSpace data length offset
    if nextLength = 0 ∧ data.getD element 0 = 93 then
      step (.leave offset element)
      jsonClose 93 data element
    else
      let elementLength ← jsonLength buffer fuel (start + element) (← sizeSub length element)
      if elementLength ≤ 0 then
        step (.leave offset element)
        return elementLength
      else
        let behind := skipSpace data length (← sizeAdd element elementLength.toNat)
        step (.pass offset behind)
        if data.getD behind 0 = 93 then jsonClose 93 data behind
        else if length ≤ behind then return 0
        else if data.getD behind 0 ≠ 44 then jsonClose 93 data behind
        else
          let next ← sizeAdd behind 1
          if next < length then jsonArrayLoop buffer fuel start length next elementLength
          else jsonClose 93 data next

def jsonLengthArray (buffer : Bytes) : Nat → Nat → Nat → Traced ScanStep Int
  | 0, _, _ => outOfFuel
  | fuel + 1, start, length => do
    step (.call start length)
    if length = 0 then return 0
    else if (buffer.drop start).getD 0 0 ≠ 91 then return -1
    else jsonArrayLoop buffer fuel start length 1 0

def jsonObjectLoop (buffer : Bytes) : Nat → Nat → Nat → Nat → Int → Traced ScanStep Int
  | 0, _, _, _, _ => outOfFuel
  | fuel + 1, start, length, offset, nextLength => do
    let data := buffer.drop start
    let key := skipSpace data length offset
    if nextLength = 0 ∧ data.getD key 0 = 125 then
      step (.leave offset key)
      jsonClose 125 data key
    else
      let keyLength ← jsonLengthString buffer fuel (start + key) (← sizeSub length key)
      if keyLength ≤ 0 then
        step (.leave offset key)
        return keyLength
      else
        let colon := skipSpace data length (← sizeAdd key keyLength.toNat)
        if (← sizeSub length 1) ≤ colon then
          step (.leave offset colon)
          return 0
        else if data.getD colon 0 ≠ 58 then
          step (.leave offset colon)
          return -1
        else
          let value ← sizeAdd colon 1
          let valueLength ← jsonLength buffer fuel (start + value) (← sizeSub length value)
          if valueLength ≤ 0 then
            step (.leave offset value)
            return valueLength
          else
            let behind := skipSpace data length (← sizeAdd value valueLength.toNat)
            step (.pass offset behind)
            if data.getD behind 0 = 125 then jsonClose 125 data behind
            else if length ≤ behind then return 0
            else if data.getD behind 0 ≠ 44 then jsonClose 125 data behind
            else
              let next ← sizeAdd behind 1
              if next < length then jsonObjectLoop buffer fuel start length next valueLength
              else jsonClose 125 data next

def jsonLengthObject (buffer : Bytes) : Nat → Nat → Nat → Traced ScanStep Int
  | 0, _, _ => outOfFuel
  | fuel + 1, start, length => do
    step (.call start length)
    if length = 0 then return 0
    else if (buffer.drop start).getD 0 0 ≠ 123 then return -1
    else jsonObjectLoop buffer fuel start length 1 0

def jsonLength (buffer : Bytes) : Nat → Nat → Nat → Traced ScanStep Int
  | 0, _, _ => outOfFuel
  | fuel + 1, start, length => do
    step (.call start length)
    if length = 0 then return 0
    else
      let data := buffer.drop start
      let offset := skipSpace data length 0
      let c := data.getD offset 0
      let left ← sizeSub length offset
      let rv ←
        if c = 91 then jsonLengthArray buffer fuel (start + offset) left
        else if c = 123 then jsonLengthObject buffer fuel (start + offset) left
        else if c = 34 then jsonLengthString buffer fuel (start + offset) left
        else jsonLengthValue buffer (start + offset) left
      if rv ≤ 0 then return rv
      else return (← sizeAdd offset rv.toNat : Nat)

end

end Recorded

/-! ## What comes back -/

/-- A scanner that gets `length` bytes comes back with `value`, all its steps are sound, and
the value may exceed its bytes, by no more than their number. -/
structure ComesBack (stop length : Nat) (scanner : Traced ScanStep Int) (value : Int) : Prop where
  returns : Returns (ScanStep.Sound stop) scanner (· = value)
  le : value ≤ 2 * length

section

variable {stop length : Nat}

theorem sizeAdd_returns {a b : Nat} (h : a + b ≤ 2 * stop) :
    Returns (ScanStep.Sound stop) (Recorded.sizeAdd a b) (· = a + b) :=
  .step_bind h (.pure rfl)

theorem sizeSub_returns {a b : Nat} (h : b ≤ a) :
    Returns (ScanStep.Sound stop) (Recorded.sizeSub a b) (· = a - b) := by
  apply Returns.step_bind
  · exact h
  · rw [if_pos h]
    exact .pure rfl

/-- A result of a scanner that is not recorded any further. -/
theorem ComesBack.pure {value : Int} (h : value ≤ 2 * length) :
    ComesBack stop length (Pure.pure value) value :=
  ⟨.pure rfl, h⟩

theorem ComesBack.bind {α : Type} {m : Traced ScanStep α} {f : α → Traced ScanStep Int} {a : α}
    {value : Int} (hm : Returns (ScanStep.Sound stop) m (· = a))
    (hf : ComesBack stop length (f a) value) : ComesBack stop length (m >>= f) value :=
  ⟨hm.bind_eq hf.returns, hf.le⟩

theorem ComesBack.step {e : ScanStep} {m : Traced ScanStep Int} {value : Int} (he : e.Sound stop)
    (hm : ComesBack stop length m value) : ComesBack stop length (do Traced.step e; m) value :=
  ⟨.step_bind he hm.returns, hm.le⟩

theorem ComesBack.ite {c : Prop} [Decidable c] {m m' : Traced ScanStep Int} {value value' : Int}
    (hpos : c → ComesBack stop length m value) (hneg : ¬c → ComesBack stop length m' value') :
    ComesBack stop length (if c then m else m') (if c then value else value') := by
  by_cases hc : c
  · rw [if_pos hc, if_pos hc]
    exact hpos hc
  · rw [if_neg hc, if_neg hc]
    exact hneg hc

/-- An iteration that leaves a loop. -/
theorem ComesBack.leave {before after : Nat} {m : Traced ScanStep Int} {value : Int}
    (h : before ≤ after) (hm : ComesBack stop length m value) :
    ComesBack stop length (do Traced.step (.leave before after); m) value := by
  apply ComesBack.step
  · exact h
  · exact hm

theorem quoteAt_returns (data : Bytes) {i : Nat} (h : 0 < i) :
    Returns (ScanStep.Sound stop) (Recorded.quoteAt data i)
      (· = (data.getD i 0 == 34 && data.getD (i - 1) 0 != 92)) := by
  unfold Recorded.quoteAt
  by_cases hq : data.getD i 0 = 34
  · rw [if_pos hq, hq]
    exact (sizeSub_returns h).bind_eq (.pure rfl)
  · rw [if_neg hq, beq_eq_false_iff_ne.mpr hq]
    exact .pure rfl

theorem jsonClose_comesBack (closer : UInt8) (data : Bytes) {offset : Nat}
    (h : offset + 1 ≤ 2 * length) (hstop : length ≤ stop) :
    ComesBack stop length (Recorded.jsonClose closer data offset)
      (jsonClose closer data offset) := by
  unfold Recorded.jsonClose jsonClose
  apply ComesBack.ite
  · intro hc
    apply ComesBack.bind (sizeAdd_returns (by omega))
    apply ComesBack.pure
    omega
  · intro hc
    apply ComesBack.pure
    omega

/-- The loop of `json_length_string` goes on up to the data's end, or to where it is left. -/
theorem stringLoop_returns (data : Bytes) (hstop : length ≤ stop) {fuel i : Nat} (hi : 0 < i)
    (hfuel : length - i < fuel) :
    Returns (ScanStep.Sound stop) (Recorded.stringLoop data length fuel i)
      (· = advance (fun i => isprint (data.getD i 0) &&
        (data.getD i 0 != 34 || data.getD (i - 1) 0 == 92)) (length - i) i) := by
  induction fuel generalizing i with
  | zero => omega
  | succ fuel ih =>
      rw [Recorded.stringLoop]
      by_cases hlt : i < length
      · have hleft : length - i = length - (i + 1) + 1 := by omega
        rw [hleft, advance]
        cases hp : isprint (data.getD i 0) with
        | false =>
            rw [if_neg fun h => Bool.false_ne_true h.2, Bool.false_and, if_neg Bool.false_ne_true]
            exact .pure rfl
        | true =>
            rw [if_pos ⟨hlt, rfl⟩, Bool.true_and]
            apply (quoteAt_returns data hi).bind_eq
            have hnext := ih (i := i + 1) (by omega) (by omega)
            cases hq : data.getD i 0 == 34 <;> cases hb : data.getD (i - 1) 0 == 92 <;>
              simp only [bne, hq, hb]
            · exact (sizeAdd_returns (by omega)).bind_eq hnext
            · exact (sizeAdd_returns (by omega)).bind_eq hnext
            · exact .pure rfl
            · exact (sizeAdd_returns (by omega)).bind_eq hnext
      · have hleft : length - i = 0 := by omega
        rw [hleft, if_neg fun h => hlt h.1, advance]
        exact .pure rfl

theorem jsonLengthString_comesBack (buffer : Bytes) {fuel start : Nat}
    (hstop : start + length = stop) (hfuel : length < fuel) :
    ComesBack stop length (Recorded.jsonLengthString buffer fuel start length)
      (jsonLengthString (buffer.drop start) length) := by
  unfold Recorded.jsonLengthString jsonLengthString
  generalize buffer.drop start = data
  apply ComesBack.step
  · exact hstop
  apply ComesBack.ite
  · intro hzero
    apply ComesBack.pure
    omega
  · intro hzero
    apply ComesBack.ite
    · intro hopen
      apply ComesBack.pure
      omega
    · intro hopen
      apply ComesBack.bind (stringLoop_returns data (by omega) Nat.one_pos (by omega))
      generalize hs : advance _ (length - 1) 1 = stringLength
      have hge : 1 ≤ stringLength := hs ▸ le_advance _ _ _
      have hle : stringLength ≤ 1 + (length - 1) := hs ▸ advance_le _ _ _
      apply ComesBack.bind (quoteAt_returns data hge)
      by_cases hq : data.getD stringLength 0 = 34 ∧
          data.getD (stringLength - 1) 0 ≠ 92
      · have hquote : (data.getD stringLength 0 == 34 &&
            data.getD (stringLength - 1) 0 != 92) = true := by
          simpa using hq
        rw [if_pos hquote, if_pos hq]
        apply ComesBack.bind (sizeAdd_returns (by omega))
        apply ComesBack.pure
        omega
      · have hquote : ¬(data.getD stringLength 0 == 34 &&
            data.getD (stringLength - 1) 0 != 92) = true := by
          simpa using hq
        rw [if_neg hquote, if_neg hq]
        apply ComesBack.ite
        · intro hend
          apply ComesBack.pure
          omega
        · intro hend
          apply ComesBack.pure
          omega

theorem jsonLengthLiteral_le (data : Bytes) (length : Nat) :
    jsonLengthLiteral data length ≤ length := by
  unfold jsonLengthLiteral
  split_ifs <;> omega

theorem jsonLengthValue_comesBack (buffer : Bytes) {start : Nat} (hstop : start + length = stop) :
    ComesBack stop length (Recorded.jsonLengthValue buffer start length)
      (jsonLengthValue (buffer.drop start) length) := by
  unfold Recorded.jsonLengthValue jsonLengthValue
  generalize buffer.drop start = data
  have hliteral : ComesBack stop length (Pure.pure (jsonLengthLiteral data length))
      (jsonLengthLiteral data length) := by
    apply ComesBack.pure
    have := jsonLengthLiteral_le data length
    omega
  apply ComesBack.step
  · exact hstop
  apply ComesBack.ite
  · intro hzero
    apply ComesBack.pure
    omega
  · intro hzero
    apply ComesBack.ite
    · intro hnumber
      dsimp only
      generalize hv : advance _ (length - 1) 1 = valueLength
      have hge : 1 ≤ valueLength := hv ▸ le_advance _ _ _
      have hle : valueLength ≤ 1 + (length - 1) := hv ▸ advance_le _ _ _
      have hwhole : ComesBack stop length (Pure.pure (valueLength : Int)) valueLength := by
        apply ComesBack.pure
        omega
      apply ComesBack.ite
      · intro hend
        exact hwhole
      · intro hend
        apply ComesBack.ite
        · intro hlast
          apply ComesBack.bind (sizeSub_returns hge)
          apply ComesBack.ite
          · intro hpart
            apply ComesBack.pure
            omega
          · intro hpart
            exact hwhole
        · intro hlast
          exact hliteral
    · intro hnumber
      exact hliteral

/-- What the induction on the fuel carries: with more fuel than their measures, the scanners
of data that end at `stop` come back.  A loop starts behind the bracket, and inside the data. -/
structure Scanners (buffer : Bytes) (stop fuel : Nat) : Prop where
  value {start length : Nat} : start + length = stop → 3 * length + 2 < fuel →
    ComesBack stop length (Recorded.jsonLength buffer fuel start length)
      (jsonLength (buffer.drop start) length)
  array {start length : Nat} : start + length = stop → 3 * length + 1 < fuel →
    ComesBack stop length (Recorded.jsonLengthArray buffer fuel start length)
      (jsonLengthArray (buffer.drop start) length)
  object {start length : Nat} : start + length = stop → 3 * length + 1 < fuel →
    ComesBack stop length (Recorded.jsonLengthObject buffer fuel start length)
      (jsonLengthObject (buffer.drop start) length)
  arrayLoop {start length offset : Nat} {nextLength : Int} : start + length = stop →
    0 < offset → offset ≤ length → 3 * (length - offset) + 3 < fuel →
    ComesBack stop length (Recorded.jsonArrayLoop buffer fuel start length offset nextLength)
      (jsonArrayLoop (buffer.drop start) length offset nextLength)
  objectLoop {start length offset : Nat} {nextLength : Int} : start + length = stop →
    0 < offset → offset ≤ length → 3 * (length - offset) + 3 < fuel →
    ComesBack stop length (Recorded.jsonObjectLoop buffer fuel start length offset nextLength)
      (jsonObjectLoop (buffer.drop start) length offset nextLength)

section

variable {buffer : Bytes} {fuel start offset : Nat} {nextLength : Int}

/-- `json_length` for what is left from `offset` on. -/
theorem Scanners.rest (h : Scanners buffer stop fuel) (hstop : start + length = stop)
    (hle : offset ≤ length) (hfuel : 3 * (length - offset) + 2 < fuel) :
    ComesBack stop (length - offset)
      (Recorded.jsonLength buffer fuel (start + offset) (length - offset))
      (jsonLength ((buffer.drop start).drop offset) (length - offset)) := by
  rw [List.drop_drop]
  apply h.value
  · omega
  · exact hfuel

/-- An iteration leaves the loop unless an inner call finds something. -/
theorem found_comesBack {inner before after : Nat} {m : Traced ScanStep Int} {value onward : Int}
    {again : Int → Traced ScanStep Int} (hm : ComesBack stop inner m value)
    (hbefore : before ≤ after)
    (hfound : 0 < value → ComesBack stop length (again value) onward) :
    ComesBack stop length
      (do
        let found ← m
        if found ≤ 0 then
          Traced.step (.leave before after)
          return found
        else again found)
      (if value ≤ 0 then value else onward) := by
  apply ComesBack.bind hm.returns
  apply ComesBack.ite
  · intro hnone
    apply ComesBack.leave hbefore
    apply ComesBack.pure
    omega
  · intro hsome
    apply hfound
    omega

/-- What stands behind an element ends the loop, or a comma takes it on. -/
theorem behind_comesBack {closer : UInt8} {data : Bytes} {behind : Nat}
    {again : Nat → Traced ScanStep Int} {onward : Int} (hstop : length ≤ stop)
    (hbehind : behind + 1 ≤ 2 * length)
    (hnext : behind + 1 < length → ComesBack stop length (again (behind + 1)) onward) :
    ComesBack stop length
      (if data.getD behind 0 = closer then Recorded.jsonClose closer data behind
        else if length ≤ behind then Pure.pure 0
        else if data.getD behind 0 ≠ 44 then Recorded.jsonClose closer data behind
        else do
          let next ← Recorded.sizeAdd behind 1
          if next < length then again next else Recorded.jsonClose closer data next)
      (if data.getD behind 0 = closer then jsonClose closer data behind
        else if length ≤ behind then 0
        else if data.getD behind 0 ≠ 44 then jsonClose closer data behind
        else if behind + 1 < length then onward
        else jsonClose closer data (behind + 1)) := by
  apply ComesBack.ite
  · intro hclose
    exact jsonClose_comesBack closer data hbehind hstop
  · intro hclose
    apply ComesBack.ite
    · intro hend
      apply ComesBack.pure
      omega
    · intro hend
      apply ComesBack.ite
      · intro hcomma
        exact jsonClose_comesBack closer data hbehind hstop
      · intro hcomma
        apply ComesBack.bind (sizeAdd_returns (by omega))
        apply ComesBack.ite
        · intro hlt
          exact hnext hlt
        · intro hlt
          exact jsonClose_comesBack closer data (by omega) hstop

theorem jsonArrayLoop_comesBack (ih : Scanners buffer stop fuel) (hstop : start + length = stop)
    (hoffset : 0 < offset) (hle : offset ≤ length) (hfuel : 3 * (length - offset) + 3 < fuel + 1) :
    ComesBack stop length (Recorded.jsonArrayLoop buffer (fuel + 1) start length offset nextLength)
      (jsonArrayLoop (buffer.drop start) length offset nextLength) := by
  rw [Recorded.jsonArrayLoop, jsonArrayLoop]
  dsimp only
  have hfrom := le_skipSpace (buffer.drop start) length offset
  have hto := skipSpace_le (buffer.drop start) length offset
  generalize skipSpace (buffer.drop start) length offset = element at hfrom hto ⊢
  apply ComesBack.ite
  · intro hempty
    apply ComesBack.leave hfrom
    exact jsonClose_comesBack 93 _ (by omega) (by omega)
  · intro hempty
    apply ComesBack.bind (sizeSub_returns (by omega))
    have hinner := ih.rest hstop (show element ≤ length by omega) (by omega)
    have hvalue := hinner.le
    generalize jsonLength ((buffer.drop start).drop element) (length - element) = elementLength
      at hinner hvalue ⊢
    apply found_comesBack hinner
    · exact hfrom
    · intro hsome
      apply ComesBack.bind (sizeAdd_returns (by omega))
      have hafter := le_skipSpace (buffer.drop start) length (element + elementLength.toNat)
      have hbound := skipSpace_le (buffer.drop start) length (element + elementLength.toNat)
      generalize skipSpace (buffer.drop start) length (element + elementLength.toNat) = behind
        at hafter hbound ⊢
      apply ComesBack.step
      · show offset < behind
        omega
      · apply behind_comesBack
        · omega
        · omega
        · intro hlt
          exact ih.arrayLoop hstop (by omega) (by omega) (by omega)

theorem jsonObjectLoop_comesBack (ih : Scanners buffer stop fuel) (hstop : start + length = stop)
    (hoffset : 0 < offset) (hle : offset ≤ length) (hfuel : 3 * (length - offset) + 3 < fuel + 1) :
    ComesBack stop length (Recorded.jsonObjectLoop buffer (fuel + 1) start length offset nextLength)
      (jsonObjectLoop (buffer.drop start) length offset nextLength) := by
  rw [Recorded.jsonObjectLoop, jsonObjectLoop]
  dsimp only
  have hfrom := le_skipSpace (buffer.drop start) length offset
  have hto := skipSpace_le (buffer.drop start) length offset
  generalize skipSpace (buffer.drop start) length offset = key at hfrom hto ⊢
  apply ComesBack.ite
  · intro hempty
    apply ComesBack.leave hfrom
    exact jsonClose_comesBack 125 _ (by omega) (by omega)
  · intro hempty
    apply ComesBack.bind (sizeSub_returns (by omega))
    have hstring : ComesBack stop (length - key)
        (Recorded.jsonLengthString buffer fuel (start + key) (length - key))
        (jsonLengthString ((buffer.drop start).drop key) (length - key)) := by
      rw [List.drop_drop]
      exact jsonLengthString_comesBack buffer (by omega) (by omega)
    have hvalue := hstring.le
    generalize jsonLengthString ((buffer.drop start).drop key) (length - key) = keyLength
      at hstring hvalue ⊢
    apply found_comesBack hstring
    · exact hfrom
    · intro hsome
      apply ComesBack.bind (sizeAdd_returns (by omega))
      have hcolon := le_skipSpace (buffer.drop start) length (key + keyLength.toNat)
      generalize skipSpace (buffer.drop start) length (key + keyLength.toNat) = colon at hcolon ⊢
      apply ComesBack.bind (sizeSub_returns (by omega))
      apply ComesBack.ite
      · intro hmore
        apply ComesBack.leave (by omega)
        apply ComesBack.pure
        omega
      · intro hmore
        apply ComesBack.ite
        · intro hc
          apply ComesBack.leave (by omega)
          apply ComesBack.pure
          omega
        · intro hc
          apply ComesBack.bind (sizeAdd_returns (by omega))
          apply ComesBack.bind (sizeSub_returns (by omega))
          have hinner := ih.rest hstop (show colon + 1 ≤ length by omega) (by omega)
          have hvalue := hinner.le
          generalize jsonLength ((buffer.drop start).drop (colon + 1)) (length - (colon + 1)) =
            valueLength at hinner hvalue ⊢
          apply found_comesBack hinner
          · omega
          · intro hsome
            apply ComesBack.bind (sizeAdd_returns (by omega))
            have hafter := le_skipSpace (buffer.drop start) length (colon + 1 + valueLength.toNat)
            have hbound := skipSpace_le (buffer.drop start) length (colon + 1 + valueLength.toNat)
            generalize skipSpace (buffer.drop start) length (colon + 1 + valueLength.toNat) = behind
              at hafter hbound ⊢
            apply ComesBack.step
            · show offset < behind
              omega
            · apply behind_comesBack
              · omega
              · omega
              · intro hlt
                exact ih.objectLoop hstop (by omega) (by omega) (by omega)

theorem jsonLengthArray_comesBack (ih : Scanners buffer stop fuel) (hstop : start + length = stop)
    (hfuel : 3 * length + 1 < fuel + 1) :
    ComesBack stop length (Recorded.jsonLengthArray buffer (fuel + 1) start length)
      (jsonLengthArray (buffer.drop start) length) := by
  rw [Recorded.jsonLengthArray, jsonLengthArray]
  apply ComesBack.step
  · exact hstop
  apply ComesBack.ite
  · intro hzero
    apply ComesBack.pure
    omega
  · intro hzero
    apply ComesBack.ite
    · intro hopen
      apply ComesBack.pure
      omega
    · intro hopen
      exact ih.arrayLoop hstop Nat.one_pos (by omega) (by omega)

theorem jsonLengthObject_comesBack (ih : Scanners buffer stop fuel) (hstop : start + length = stop)
    (hfuel : 3 * length + 1 < fuel + 1) :
    ComesBack stop length (Recorded.jsonLengthObject buffer (fuel + 1) start length)
      (jsonLengthObject (buffer.drop start) length) := by
  rw [Recorded.jsonLengthObject, jsonLengthObject]
  apply ComesBack.step
  · exact hstop
  apply ComesBack.ite
  · intro hzero
    apply ComesBack.pure
    omega
  · intro hzero
    apply ComesBack.ite
    · intro hopen
      apply ComesBack.pure
      omega
    · intro hopen
      exact ih.objectLoop hstop Nat.one_pos (by omega) (by omega)

/-- Whatever `json_length` calls gets all that is left behind the whitespace. -/
theorem shifted_comesBack {scanner : Traced ScanStep Int} {rv : Int}
    (hscanner : ComesBack stop (length - offset) scanner rv) (hle : offset ≤ length)
    (hstop : length ≤ stop) :
    ComesBack stop length
      (do
        let rv ← scanner
        if rv ≤ 0 then return rv else return (← Recorded.sizeAdd offset rv.toNat : Nat))
      (if rv ≤ 0 then rv else offset + rv) := by
  have hvalue := hscanner.le
  apply ComesBack.bind hscanner.returns
  apply ComesBack.ite
  · intro hnone
    apply ComesBack.pure
    omega
  · intro hsome
    apply ComesBack.bind (sizeAdd_returns (by omega))
    have hrv : ((offset + rv.toNat : Nat) : Int) = offset + rv := by omega
    rw [hrv]
    apply ComesBack.pure
    omega

theorem jsonLength_comesBack (ih : Scanners buffer stop fuel) (hstop : start + length = stop)
    (hfuel : 3 * length + 2 < fuel + 1) :
    ComesBack stop length (Recorded.jsonLength buffer (fuel + 1) start length)
      (jsonLength (buffer.drop start) length) := by
  rw [Recorded.jsonLength, jsonLength]
  apply ComesBack.step
  · exact hstop
  apply ComesBack.ite
  · intro hzero
    apply ComesBack.pure
    omega
  · intro hzero
    dsimp only
    have hto := skipSpace_le (buffer.drop start) length 0
    generalize skipSpace (buffer.drop start) length 0 = offset at hto ⊢
    have hle : offset ≤ length := by omega
    have hlen : length ≤ stop := by omega
    have hstop' : start + offset + (length - offset) = stop := by omega
    apply ComesBack.bind (sizeSub_returns hle)
    rw [List.drop_drop]
    by_cases harray : (buffer.drop start).getD offset 0 = 91
    · simp only [if_pos harray]
      exact shifted_comesBack (ih.array hstop' (by omega)) hle hlen
    · by_cases hobject : (buffer.drop start).getD offset 0 = 123
      · simp only [if_neg harray, if_pos hobject]
        exact shifted_comesBack (ih.object hstop' (by omega)) hle hlen
      · by_cases hstring : (buffer.drop start).getD offset 0 = 34
        · simp only [if_neg harray, if_neg hobject, if_pos hstring]
          have hscanner := jsonLengthString_comesBack buffer hstop' (show _ < fuel by omega)
          exact shifted_comesBack hscanner hle hlen
        · simp only [if_neg harray, if_neg hobject, if_neg hstring]
          exact shifted_comesBack (jsonLengthValue_comesBack buffer hstop') hle hlen

end

theorem scanners (buffer : Bytes) (stop fuel : Nat) : Scanners buffer stop fuel := by
  induction fuel with
  | zero =>
      constructor <;> intros <;> omega
  | succ fuel ih =>
      exact {
        value := fun hstop hfuel => jsonLength_comesBack ih hstop hfuel
        array := fun hstop hfuel => jsonLengthArray_comesBack ih hstop hfuel
        object := fun hstop hfuel => jsonLengthObject_comesBack ih hstop hfuel
        arrayLoop := fun hstop hoffset hle hfuel =>
          jsonArrayLoop_comesBack ih hstop hoffset hle hfuel
        objectLoop := fun hstop hoffset hle hfuel =>
          jsonObjectLoop_comesBack ih hstop hoffset hle hfuel }

end

/-- **The scanners come back**, for data that end at `start + length` and whatever stands there
and behind, with the lengths of the other model.  Each call gets what is left of the data, no
difference wraps, and an iteration moves `current_offset` unless it leaves the loop. -/
theorem json_scanners_return (buffer : Bytes) (start length spare : Nat) :
    let fuel := 3 * length + 3 + spare
    let data := buffer.drop start
    let stop := start + length
    ComesBack stop length (Recorded.jsonLength buffer fuel start length)
      (jsonLength data length) ∧
    ComesBack stop length (Recorded.jsonLengthArray buffer fuel start length)
      (jsonLengthArray data length) ∧
    ComesBack stop length (Recorded.jsonLengthObject buffer fuel start length)
      (jsonLengthObject data length) ∧
    ComesBack stop length (Recorded.jsonLengthString buffer fuel start length)
      (jsonLengthString data length) ∧
    ComesBack stop length (Recorded.jsonLengthValue buffer start length)
      (jsonLengthValue data length) := by
  intro fuel data stop
  have hall := scanners buffer stop fuel
  have hfuel : 3 * length + 2 < fuel := by
    show 3 * length + 2 < 3 * length + 3 + spare
    omega
  refine ⟨?_, ?_, ?_, ?_, ?_⟩
  · exact hall.value rfl hfuel
  · exact hall.array rfl (by omega)
  · exact hall.object rfl (by omega)
  · exact jsonLengthString_comesBack buffer rfl (by omega)
  · exact jsonLengthValue_comesBack buffer rfl

/-- In an empty array nothing is moved. -/
theorem json_iteration_stays :
    ¬∀ (buffer : Bytes) (start length fuel : Nat) (value : Int) (steps : List ScanStep),
      (Recorded.jsonLength buffer fuel start length).run = some (value, steps) →
        ∀ s ∈ steps, s.Advances := by
  intro h
  have hrun : (Recorded.jsonLength (ascii "[]") 9 0 2).run =
      some (2, [.call 0 2, .difference 2 0, .call 0 2, .leave 1 1, .sum 1 1, .sum 0 2]) := by
    decide +kernel
  have hmoved : (ScanStep.leave 1 1).Advances := h _ _ _ _ _ _ hrun _ (by decide)
  exact absurd hmoved (Nat.lt_irrefl 1)

end Websocksy

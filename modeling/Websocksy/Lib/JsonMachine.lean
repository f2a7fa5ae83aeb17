import Websocksy.Lib.CString

/-!
# A one-pass machine for JSON

A pushdown machine that reads one JSON value byte by byte.  Its stack holds the containers
that are open; where it stands between two bytes is a `Position`.  The structure of JSON is
built in; what a string is made of, when a quotation mark ends it and which bytes end a
number is left to a `Lexis`.

The machine does not stop: behind the value it counts bytes (`finished`), so that a run over
`xs ++ ys` is a run over `ys` from the state after `xs`.
-/

namespace JsonMachine

open Buffer CString

inductive Container
  | array | object
  deriving DecidableEq, Repr

def Container.closer : Container → UInt8
  | .array => 93
  | .object => 125

inductive Position
  | first -- behind the opening bracket
  | comma -- right behind a comma
  | next -- behind a comma and whitespace
  | value -- before a value
  | string (key escaped : Bool)
  | colon -- behind a key
  | noColon -- where the colon should be there was something else
  | literal (rest : Bytes)
  | number (whole : Bool)
  | after -- behind a value in a container
  deriving DecidableEq, Repr

inductive State
  | live (p : Position) (open_ : List Container)
  /-- `n` bytes behind the value -/
  | finished (n : Nat)
  | failed
  deriving DecidableEq, Repr

structure Lexis where
  inString : UInt8 → Bool
  /-- Is what follows this byte of a string escaped, given whether the byte itself is. -/
  escapes : Bool → UInt8 → Bool
  /-- Does the byte end a number, given whether the number is whole. -/
  endsNumber : Bool → UInt8 → Bool

/-- A byte of a number. -/
def numberByte (b : UInt8) : Bool :=
  isdigit b || b == 43 || b == 45 || b == 46 || tolower b == 101

/-- The first byte of a value. -/
def opened (σ : List Container) (b : UInt8) : State :=
  if b = 91 then .live .first (.array :: σ)
  else if b = 123 then .live .first (.object :: σ)
  else if b = 34 then .live (.string false false) σ
  else if isdigit b || b == 45 then .live (.number (isdigit b)) σ
  else if b = 110 then .live (.literal (ascii "ull")) σ
  else if b = 116 then .live (.literal (ascii "rue")) σ
  else if b = 102 then .live (.literal (ascii "alse")) σ
  else .failed

/-- The first byte of an element or of a key. -/
def member (c : Container) (σ : List Container) (b : UInt8) : State :=
  match c with
  | .array => opened (.array :: σ) b
  | .object => if b = 34 then .live (.string true false) (.object :: σ) else .failed

/-- A value ends. -/
def closed : List Container → State
  | [] => .finished 0
  | c :: σ => .live .after (c :: σ)

/-- A string ends, which is a key or a value. -/
def ended (key : Bool) (σ : List Container) : State :=
  if key then .live .colon σ else closed σ

/-- A byte behind a value in the container `c`. -/
def behind (c : Container) (σ : List Container) (b : UInt8) : State :=
  if isspace b then .live .after (c :: σ)
  else if b = 44 then .live .comma (c :: σ)
  else if b = c.closer then closed σ
  else .failed

/-- A byte right behind a number; outside of all containers it is behind the value. -/
def behindNumber : List Container → UInt8 → State
  | [], _ => .finished 1
  | c :: σ, b => behind c σ b

namespace Lexis

variable (L : Lexis)

def stepString (key escaped : Bool) (σ : List Container) (b : UInt8) : State :=
  if b = 34 ∧ escaped = false then ended key σ
  else if L.inString b then .live (.string key (L.escapes escaped b)) σ
  else .failed

def stepNumber (whole : Bool) (σ : List Container) (b : UInt8) : State :=
  if numberByte b then .live (.number (isdigit b)) σ
  else if L.endsNumber whole b then behindNumber σ b
  else .failed

def stepLive : Position → List Container → UInt8 → State
  | .value, σ, b => if isspace b then .live .value σ else opened σ b
  | .first, c :: σ, b =>
    if isspace b then .live .first (c :: σ) else if b = c.closer then closed σ else member c σ b
  | .comma, c :: σ, b => if isspace b then .live .next (c :: σ) else member c σ b
  | .next, c :: σ, b => if isspace b then .live .next (c :: σ) else member c σ b
  | .string key escaped, σ, b => L.stepString key escaped σ b
  | .colon, σ, b =>
    if isspace b then .live .colon σ else if b = 58 then .live .value σ else .live .noColon σ
  | .literal (a :: as), σ, b =>
    if b = a then if as = [] then closed σ else .live (.literal as) σ else .failed
  | .number whole, σ, b => L.stepNumber whole σ b
  | .after, c :: σ, b => behind c σ b
  | _, _, _ => .failed

def step : State → UInt8 → State
  | .live p σ, b => L.stepLive p σ b
  | .finished n, _ => .finished (n + 1)
  | .failed, _ => .failed

def run (s : State) (bs : Bytes) : State := bs.foldl L.step s

/-- The state before the first byte. -/
def start : State := .live .value []

variable {L}

@[simp] theorem run_nil (s : State) : L.run s [] = s := rfl

@[simp] theorem run_cons (s : State) (b : UInt8) (bs : Bytes) :
    L.run s (b :: bs) = L.run (L.step s b) bs := rfl

variable (L) in
theorem step_value (σ : List Container) (b : UInt8) :
    L.step (.live .value σ) b = if isspace b then .live .value σ else opened σ b := rfl

variable (L) in
theorem step_first (c : Container) (σ : List Container) (b : UInt8) :
    L.step (.live .first (c :: σ)) b =
      if isspace b then .live .first (c :: σ) else if b = c.closer then closed σ
      else member c σ b := rfl

variable (L) in
theorem step_next (c : Container) (σ : List Container) (b : UInt8) :
    L.step (.live .next (c :: σ)) b =
      if isspace b then .live .next (c :: σ) else member c σ b := rfl

variable (L) in
theorem step_comma (c : Container) (σ : List Container) (b : UInt8) :
    L.step (.live .comma (c :: σ)) b =
      if isspace b then .live .next (c :: σ) else member c σ b := rfl

variable (L) in
theorem step_colon (σ : List Container) (b : UInt8) :
    L.step (.live .colon σ) b =
      if isspace b then .live .colon σ else if b = 58 then .live .value σ
      else .live .noColon σ := rfl

variable (L) in
theorem step_after (c : Container) (σ : List Container) (b : UInt8) :
    L.step (.live .after (c :: σ)) b = behind c σ b := rfl

variable (L) in
theorem step_string (key escaped : Bool) (σ : List Container) (b : UInt8) :
    L.step (.live (.string key escaped) σ) b = L.stepString key escaped σ b := rfl

variable (L) in
theorem step_number (whole : Bool) (σ : List Container) (b : UInt8) :
    L.step (.live (.number whole) σ) b = L.stepNumber whole σ b := rfl

variable (L) in
theorem step_literal (a : UInt8) (as : Bytes) (σ : List Container) (b : UInt8) :
    L.step (.live (.literal (a :: as)) σ) b =
      if b = a then if as = [] then closed σ else .live (.literal as) σ else .failed := rfl

theorem run_append (s : State) (xs ys : Bytes) : L.run s (xs ++ ys) = L.run (L.run s xs) ys :=
  List.foldl_append

@[simp] theorem run_failed (bs : Bytes) : L.run .failed bs = .failed := by
  induction bs with
  | nil => rfl
  | cons b bs ih => exact ih

@[simp] theorem run_finished (n : Nat) (bs : Bytes) :
    L.run (.finished n) bs = .finished (n + bs.length) := by
  induction bs generalizing n with
  | nil => rfl
  | cons b bs ih =>
      rw [run_cons, step, ih, List.length_cons]
      congr 1
      omega

/-! ## Outside of strings -/

/-- A byte that ends a number is no quotation mark and no backslash. -/
def Apart (L : Lexis) : Prop := ∀ whole b, L.endsNumber whole b → b ≠ 34 ∧ b ≠ 92

end Lexis

/-- A byte of a word, which is no comma and no digit and means nothing in a string. -/
def Letter (b : UInt8) : Prop := b ≠ 34 ∧ b ≠ 92 ∧ b ≠ 44 ∧ isdigit b = false

instance (b : UInt8) : Decidable (Letter b) := inferInstanceAs (Decidable (_ ∧ _))

/-- Not inside a string. -/
def Position.Outside : Position → Prop
  | .string _ _ => False
  | .literal as => ∀ a ∈ as, Letter a
  | _ => True

/-- What the last byte says of the position behind it: where a comma and where a digit lead. -/
def Position.Led (b : UInt8) : Position → Prop
  | .string _ _ => False
  | .comma => b = 44
  | .number whole => whole = isdigit b ∧ b ≠ 44
  | .literal as => (∀ a ∈ as, Letter a) ∧ b ≠ 44 ∧ isdigit b = false
  | _ => b ≠ 44 ∧ isdigit b = false

theorem Position.Led.outside {b : UInt8} {p : Position} (h : p.Led b) : p.Outside := by
  cases p with
  | string key escaped => exact h
  | literal as => exact h.1
  | _ => trivial

/-- What a byte leads to that is read outside of a string: a quotation mark starts a string, and
neither it nor a backslash is anything else. -/
inductive Moved : UInt8 → State → Prop
  | failed (b : UInt8) : Moved b .failed
  | noColon (b : UInt8) (σ : List Container) : Moved b (.live .noColon σ)
  | string (key : Bool) (σ : List Container) : Moved 34 (.live (.string key false) σ)
  | outside (b : UInt8) (p : Position) (σ : List Container) (hp : p.Led b) (hb : b ≠ 34 ∧ b ≠ 92) :
      Moved b (.live p σ)
  | finished (b : UInt8) (n : Nat) (hn : n ≤ 1) (hb : b ≠ 34 ∧ b ≠ 92) : Moved b (.finished n)

theorem isspace_letter {b : UInt8} (h : isspace b) : Letter b := by
  revert h
  exact forall_byte (fun b => isspace b → Letter b) (by decide +kernel) b

theorem Letter.apart {b : UInt8} (h : Letter b) : b ≠ 34 ∧ b ≠ 92 := ⟨h.1, h.2.1⟩

theorem closer_letter {c : Container} {b : UInt8} (h : b = c.closer) : Letter b := by
  subst h
  cases c <;> decide

theorem closed_moved (σ : List Container) {b : UInt8} (hb : Letter b) : Moved b (closed σ) := by
  cases σ with
  | nil => exact .finished b 0 (by decide) hb.apart
  | cons c σ => exact .outside b .after _ hb.2.2 hb.apart

theorem opened_moved (σ : List Container) (b : UInt8) : Moved b (opened σ b) := by
  unfold opened
  by_cases h1 : b = 91
  · subst h1
    exact .outside 91 .first _ ⟨by decide, rfl⟩ (by decide)
  by_cases h2 : b = 123
  · subst h2
    exact .outside 123 .first _ ⟨by decide, rfl⟩ (by decide)
  by_cases h3 : b = 34
  · subst h3
    exact .string false σ
  rw [if_neg h1, if_neg h2, if_neg h3]
  by_cases hnum : (isdigit b || b == 45) = true
  · rw [if_pos hnum]
    have hb := forall_byte (fun b => (isdigit b || b == 45) = true → b ≠ 34 ∧ b ≠ 92 ∧ b ≠ 44)
      (by decide +kernel) b hnum
    exact .outside b (.number (isdigit b)) σ ⟨rfl, hb.2.2⟩ ⟨hb.1, hb.2.1⟩
  rw [if_neg hnum]
  have hword : ∀ a as, b = a → Letter a → (∀ c ∈ as, Letter c) → Moved b (.live (.literal as) σ) :=
    fun a as hb ha has => .outside b _ σ ⟨has, hb ▸ ha.2.2⟩ (hb ▸ ha.apart)
  split
  · next h => exact hword _ _ h (by decide) (forall_mem_of_all (by decide))
  · split
    · next h => exact hword _ _ h (by decide) (forall_mem_of_all (by decide))
    · split
      · next h => exact hword _ _ h (by decide) (forall_mem_of_all (by decide))
      · exact .failed b

theorem member_moved (c : Container) (σ : List Container) (b : UInt8) : Moved b (member c σ b) := by
  cases c with
  | array => exact opened_moved _ b
  | object =>
      rw [member]
      split
      · next h =>
        subst h
        exact .string true _
      · exact .failed b

theorem behind_moved (c : Container) (σ : List Container) (b : UInt8) : Moved b (behind c σ b) := by
  unfold behind
  split
  · next h => exact .outside b .after _ (isspace_letter h).2.2 (isspace_letter h).apart
  · split
    · next h =>
      subst h
      exact .outside 44 .comma _ rfl (by decide)
    · split
      · next h => exact closed_moved σ (closer_letter h)
      · exact .failed b

/-- **Outside of strings** a byte has one of the results of `Moved`. -/
theorem Lexis.outside_moved {L : Lexis} (hL : L.Apart) {p : Position} (hp : p.Outside)
    (σ : List Container) (b : UInt8) : Moved b (L.step (.live p σ) b) := by
  cases p with
  | value =>
      rw [step_value]
      split
      · next h => exact .outside b _ _ (isspace_letter h).2.2 (isspace_letter h).apart
      · exact opened_moved σ b
  | first =>
      cases σ with
      | nil => exact .failed b
      | cons c σ =>
          rw [step_first]
          split
          · next h => exact .outside b _ _ (isspace_letter h).2.2 (isspace_letter h).apart
          · split
            · next h => exact closed_moved σ (closer_letter h)
            · exact member_moved c σ b
  | comma =>
      cases σ with
      | nil => exact .failed b
      | cons c σ =>
          rw [step_comma]
          split
          · next h => exact .outside b _ _ (isspace_letter h).2.2 (isspace_letter h).apart
          · exact member_moved c σ b
  | next =>
      cases σ with
      | nil => exact .failed b
      | cons c σ =>
          rw [step_next]
          split
          · next h => exact .outside b _ _ (isspace_letter h).2.2 (isspace_letter h).apart
          · exact member_moved c σ b
  | string key escaped => exact hp.elim
  | colon =>
      rw [step_colon]
      split
      · next h => exact .outside b _ _ (isspace_letter h).2.2 (isspace_letter h).apart
      · split
        · next h =>
          subst h
          exact .outside 58 .value σ ⟨by decide, rfl⟩ (by decide)
        · exact .noColon b σ
  | noColon => exact .failed b
  | literal as =>
      cases as with
      | nil => exact .failed b
      | cons a as =>
          have ha := hp a List.mem_cons_self
          rw [step_literal]
          split
          · next h =>
            subst h
            split
            · exact closed_moved σ ha
            · exact .outside b (.literal as) σ ⟨fun a h => hp a (List.mem_cons_of_mem _ h), ha.2.2⟩
                ha.apart
          · exact .failed b
  | number whole =>
      rw [step_number, stepNumber]
      split
      · next h =>
        have hb := forall_byte (fun b => numberByte b → b ≠ 34 ∧ b ≠ 92 ∧ b ≠ 44)
          (by decide +kernel) b h
        exact .outside b (.number (isdigit b)) σ ⟨rfl, hb.2.2⟩ ⟨hb.1, hb.2.1⟩
      · split
        · next h =>
          cases σ with
          | nil => exact .finished b 1 (by decide) (hL whole b h)
          | cons c σ => exact behind_moved c σ b
        · exact .failed b
  | after =>
      cases σ with
      | nil => exact .failed b
      | cons c σ => exact behind_moved c σ b

/-! ## Values that end with themselves -/

/-- The value is a string or in a container: no byte behind it is needed to end it. -/
inductive Rooted : State → Prop
  | failed : Rooted .failed
  | finished (n : Nat) : Rooted (.finished n)
  | inside (p : Position) (c : Container) (σ : List Container) : Rooted (.live p (c :: σ))
  | string (escaped : Bool) : Rooted (.live (.string false escaped) [])

/-- What a byte of such a value leads to. -/
inductive Rooted.Next : State → Prop
  | failed : Next .failed
  | finished : Next (.finished 0)
  | live (p : Position) (σ : List Container) (h : Rooted (.live p σ)) : Next (.live p σ)

theorem Rooted.Next.rooted {s : State} (h : Rooted.Next s) : Rooted s := by
  cases h with
  | failed => exact .failed
  | finished => exact .finished 0
  | live p σ h => exact h

theorem closed_next (σ : List Container) : Rooted.Next (closed σ) := by
  cases σ with
  | nil => exact .finished
  | cons c σ => exact .live _ _ (.inside _ c σ)

theorem opened_next (c : Container) (σ : List Container) (b : UInt8) :
    Rooted.Next (opened (c :: σ) b) := by
  unfold opened
  repeat' split
  all_goals first | exact .live _ _ (.inside _ _ _) | exact .failed

theorem member_next (c : Container) (σ : List Container) (b : UInt8) :
    Rooted.Next (member c σ b) := by
  cases c with
  | array => exact opened_next _ σ b
  | object =>
      rw [member]
      split
      · exact .live _ _ (.inside _ _ σ)
      · exact .failed

theorem behind_next (c : Container) (σ : List Container) (b : UInt8) :
    Rooted.Next (behind c σ b) := by
  unfold behind
  split
  · exact .live _ _ (.inside _ c σ)
  · split
    · exact .live _ _ (.inside _ c σ)
    · split
      · exact closed_next σ
      · exact .failed

theorem Rooted.next {L : Lexis} {p : Position} {σ : List Container} (h : Rooted (.live p σ))
    (b : UInt8) : Rooted.Next (L.step (.live p σ) b) := by
  cases h with
  | string escaped =>
      rw [Lexis.step_string, Lexis.stepString]
      split
      · exact closed_next []
      · split
        · exact .live _ _ (.string _)
        · exact .failed
  | inside p c σ =>
      cases p with
      | value =>
          rw [Lexis.step_value]
          split
          · exact .live _ _ (.inside _ c σ)
          · exact opened_next c σ b
      | first =>
          rw [Lexis.step_first]
          split
          · exact .live _ _ (.inside _ c σ)
          · split
            · exact closed_next σ
            · exact member_next c σ b
      | comma =>
          rw [Lexis.step_comma]
          split
          · exact .live _ _ (.inside _ c σ)
          · exact member_next c σ b
      | next =>
          rw [Lexis.step_next]
          split
          · exact .live _ _ (.inside _ c σ)
          · exact member_next c σ b
      | string key escaped =>
          rw [Lexis.step_string, Lexis.stepString]
          split
          · cases key with
            | true => exact .live _ _ (.inside _ c σ)
            | false => exact closed_next (c :: σ)
          · split
            · exact .live _ _ (.inside _ c σ)
            · exact .failed
      | colon =>
          rw [Lexis.step_colon]
          repeat' split
          all_goals exact .live _ _ (.inside _ c σ)
      | noColon => exact .failed
      | literal as =>
          cases as with
          | nil => exact .failed
          | cons a as =>
              rw [Lexis.step_literal]
              split
              · split
                · exact closed_next (c :: σ)
                · exact .live _ _ (.inside _ c σ)
              · exact .failed
      | number whole =>
          rw [Lexis.step_number, Lexis.stepNumber]
          split
          · exact .live _ _ (.inside _ c σ)
          · split
            · exact behind_next c σ b
            · exact .failed
      | after => exact behind_next c σ b

theorem Rooted.step {L : Lexis} {s : State} (h : Rooted s) (b : UInt8) : Rooted (L.step s b) := by
  cases s with
  | live p σ => exact (h.next b).rooted
  | finished n => exact .finished (n + 1)
  | failed => exact .failed

theorem Rooted.run {L : Lexis} {s : State} (h : Rooted s) (bs : Bytes) : Rooted (L.run s bs) := by
  induction bs generalizing s with
  | nil => exact h
  | cons b bs ih => exact ih (h.step b)

end JsonMachine

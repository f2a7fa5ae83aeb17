import Websocksy.Builtins

/-!
# The options of `framing_dynamic32`

The configuration string is a comma-separated list of options.  The loop goes on at the comma
behind an option, does not step over it, and so never ends: it reads one option at most.
-/

namespace Websocksy

open Buffer CString

inductive Dynamic32Key
  | offset | static | endian
  deriving DecidableEq

/-- An option, with the text of its value. -/
structure Dynamic32Item where
  key : Dynamic32Key
  text : Bytes

def Dynamic32Key.name : Dynamic32Key → Bytes
  | .offset => ascii "offset="
  | .static => ascii "static="
  | .endian => ascii "endian="

namespace Dynamic32Item

/-- The text is that of one option. -/
def Single (i : Dynamic32Item) : Prop := 44 ∉ i.text ∧ 0 ∉ i.text

def toText (i : Dynamic32Item) : Bytes := i.key.name ++ i.text

/-- The list, as it stands in a configuration string. -/
def listText (items : List Dynamic32Item) : Bytes := [44].intercalate (items.map toText)

/-- The value of the last option with the key. -/
def last (items : List Dynamic32Item) (key : Dynamic32Key) : Option Bytes :=
  ((items.filter (·.key = key)).getLast?).map (·.text)

/-- What the options say; the offset and the static amount are 0 and the size field is in little
endian where they say nothing.  A number stands for what `strtoul` makes of it, cut to the 32 bits
of the field it is kept in. -/
def stored (items : List Dynamic32Item) : Dynamic32Config where
  offset := ((last items .offset).map fun t => (strtoul0 t).toUInt32).getD 0
  fixed := ((last items .static).map fun t => (strtoul0 t).toUInt32.toInt32).getD 0
  endian := ((last items .endian).map fun t => strncmp t (ascii "big")).getD false

end Dynamic32Item

/-- The option loop ends, and if the string is a list of options then the first call frames by what
they say and stores it. -/
def OptionsParsed (config : Bytes) : Prop :=
  (∃ fuel c, dynamic32Options fuel (cstr config) {} = some c) ∧
  ∀ items, (∀ i ∈ items, Dynamic32Item.Single i) → cstr config = Dynamic32Item.listText items →
    dynamic32Parse config = some (Dynamic32Item.stored items) ∧
    ∀ data length lastRead opcode,
      framingDynamic32 (some data) length lastRead opcode none (some config) =
        (dynamic32Frame (Dynamic32Item.stored items) (some data) length).map
          (·, opcode, some (Dynamic32Item.stored items))

/-- At a comma the loop stays. -/
theorem dynamic32Options_comma (fuel : Nat) (s : Bytes) (c : Dynamic32Config) :
    dynamic32Options fuel (44 :: s) c = none := by
  induction fuel generalizing c with
  | zero => rfl
  | succ fuel ih =>
      rw [dynamic32Options, List.dropWhile_cons_of_neg (by simp)]
      exact ih _

/-- With a comma in the string, the loop comes to it. -/
theorem dynamic32Options_of_mem (fuel : Nat) {s : Bytes} (h : 44 ∈ s) (c : Dynamic32Config) :
    dynamic32Options fuel s c = none := by
  cases fuel with
  | zero =>
      cases s with
      | nil => cases h
      | cons x s => rfl
  | succ fuel =>
      cases s with
      | nil => cases h
      | cons x s =>
          obtain ⟨rest, hrest⟩ : ∃ rest, (x :: s).dropWhile (· != 44) = 44 :: rest := by
            have hne : (x :: s).dropWhile (· != 44) ≠ [] := by
              rw [Ne, List.dropWhile_eq_nil_iff]
              intro hall
              simpa using hall 44 h
            obtain ⟨y, rest, hy⟩ := List.exists_cons_of_ne_nil hne
            have hhead := List.head?_dropWhile_not (· != 44) (x :: s)
            rw [hy] at hhead
            have hy44 : y = 44 := by simpa using hhead
            exact ⟨rest, by rw [hy, hy44]⟩
          rw [dynamic32Options, hrest]
          exact dynamic32Options_comma fuel rest _

/-- Without a comma, the whole string is one option. -/
theorem dynamic32Options_single {s : Bytes} (h : 44 ∉ s) (fuel : Nat) (c : Dynamic32Config) (hs : s ≠ []) :
    dynamic32Options (fuel + 1) s c = some (dynamic32Option s c) := by
  have hend : s.dropWhile (· != 44) = [] := by
    rw [List.dropWhile_eq_nil_iff]
    intro x hx
    have hne : x ≠ 44 := fun e => h (e ▸ hx)
    simpa using hne
  cases s with
  | nil => exact absurd rfl hs
  | cons x s =>
      rw [dynamic32Options, hend]
      cases fuel <;> rfl

theorem dynamic32Parse_of_notMem {config : Bytes} (h : 44 ∉ cstr config) :
    dynamic32Parse config =
      some (if cstr config = [] then {} else dynamic32Option (cstr config) {}) := by
  unfold dynamic32Parse
  by_cases hs : cstr config = []
  · rw [if_pos hs, hs]
    rfl
  · rw [if_neg hs]
    obtain ⟨k, hk⟩ := Nat.exists_eq_succ_of_ne_zero (fun e => hs (List.length_eq_zero_iff.mp e))
    rw [hk]
    exact dynamic32Options_single h k {} hs

/-- The only option of a string is stored. -/
theorem dynamic32Option_toText (i : Dynamic32Item) :
    dynamic32Option i.toText {} = Dynamic32Item.stored [i] := by
  obtain ⟨key, text⟩ := i
  have hname : ∀ key : Dynamic32Key, key.name.length = 7 := by
    intro key
    cases key <;> rfl
  have hdrop : (Dynamic32Item.toText ⟨key, text⟩).drop 7 = text := by
    unfold Dynamic32Item.toText
    rw [List.drop_append_of_le_length (hname key).ge, List.drop_of_length_le (hname key).le]
    rfl
  unfold dynamic32Option
  rw [hdrop]
  have hprefix : ∀ other : Dynamic32Key,
      strncmp (Dynamic32Item.toText ⟨key, text⟩) other.name = decide (other = key) := by
    intro other
    unfold strncmp Dynamic32Item.toText
    cases key <;> cases other <;> simp [Dynamic32Key.name, ascii, List.isPrefixOf]
  rw [show ascii "offset=" = Dynamic32Key.name .offset from rfl,
    show ascii "static=" = Dynamic32Key.name .static from rfl,
    show ascii "endian=" = Dynamic32Key.name .endian from rfl, hprefix, hprefix, hprefix]
  cases key <;> rfl

/-- **The options are parsed** exactly if the configuration string has no comma. -/
theorem options_parsed_iff (config : Bytes) : OptionsParsed config ↔ 44 ∉ cstr config := by
  constructor
  · rintro ⟨⟨fuel, c, hc⟩, -⟩ hmem
    rw [dynamic32Options_of_mem fuel hmem] at hc
    cases hc
  · intro hcomma
    have hparse := dynamic32Parse_of_notMem hcomma
    refine ⟨⟨_, _, hparse⟩, ?_⟩
    intro items hitems htext
    have hstored : (if cstr config = [] then {} else dynamic32Option (cstr config) {}) =
        Dynamic32Item.stored items := by
      rw [htext]
      cases items with
      | nil => rfl
      | cons i items =>
          cases items with
          | nil =>
              have hsingle : Dynamic32Item.listText [i] = i.toText := by
                simp [Dynamic32Item.listText, List.intercalate]
              rw [hsingle, if_neg, dynamic32Option_toText]
              intro hnil
              have hlen := congrArg List.length hnil
              unfold Dynamic32Item.toText at hlen
              cases hkey : i.key <;> simp [hkey, Dynamic32Key.name, ascii] at hlen
          | cons j items =>
              -- there is a comma between two options
              refine absurd ?_ hcomma
              rw [htext]
              simp [Dynamic32Item.listText, List.intercalate]
    rw [hstored] at hparse
    refine ⟨hparse, fun data length lastRead opcode => ?_⟩
    unfold framingDynamic32
    dsimp only
    rw [Option.bind_some, hparse]
    rfl

/-- Two options. -/
theorem options_parsed_fails : ¬OptionsParsed (ascii "offset=4,static=2") := by
  rintro ⟨⟨fuel, c, hc⟩, -⟩
  rw [dynamic32Options_of_mem fuel (by decide)] at hc
  cases hc

end Websocksy

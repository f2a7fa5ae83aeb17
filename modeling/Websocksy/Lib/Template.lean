import Mathlib.Data.List.Basic
import Mathlib.Tactic.Common

/-!
# Templates

A template is cut into pieces from left to right: characters that stay, and occurrences of
variables, which are replaced.  `source` is the template again and `result` is what the
replacements make of it.  The replacements are done in place, one after the other, so between
two of them the first pieces are replaced and the others not yet (`Fits`).
-/

namespace Template

variable {α : Type*}

inductive Piece (α : Type*)
  | char (a : α)
  | inserted (text value : List α)
  deriving DecidableEq

def Piece.before : Piece α → List α
  | .char a => [a]
  | .inserted text _ => text

def Piece.after : Piece α → List α
  | .char a => [a]
  | .inserted _ value => value

def source (ps : List (Piece α)) : List α := ps.flatMap Piece.before

def result (ps : List (Piece α)) : List α := ps.flatMap Piece.after

/-- The pieces of a template, of which each occurrence of a variable that is met from left to
right is one. -/
inductive Cut (isVariable : List α → Prop) : List α → List (Piece α) → Prop
  | nil : Cut isVariable [] []
  | char (a : α) (l : List α) (ps : List (Piece α)) (ha : ∀ t, isVariable t → ¬t <+: a :: l)
      (h : Cut isVariable l ps) : Cut isVariable (a :: l) (.char a :: ps)
  | inserted (t value l : List α) (ps : List (Piece α)) (ht : isVariable t)
      (h : Cut isVariable l ps) : Cut isVariable (t ++ l) (.inserted t value :: ps)

/-- With `done` characters in front, the replacements that make the text longer leave it shorter
than `length`. -/
def Fits (length : Nat) : Nat → List (Piece α) → Prop
  | _, [] => True
  | done, .char _ :: ps => Fits length (done + 1) ps
  | done, .inserted text value :: ps =>
      (text.length < value.length → done + value.length + (source ps).length < length) ∧
        Fits length (done + value.length) ps

theorem source_cons (p : Piece α) (ps : List (Piece α)) : source (p :: ps) = p.before ++ source ps :=
  List.flatMap_cons

theorem result_cons (p : Piece α) (ps : List (Piece α)) : result (p :: ps) = p.after ++ result ps :=
  List.flatMap_cons

theorem Cut.source {isVariable : List α → Prop} {l : List α} {ps : List (Piece α)}
    (h : Cut isVariable l ps) : source ps = l := by
  induction h with
  | nil => rfl
  | char a l ps _ _ ih => rw [source_cons, ih]; rfl
  | inserted t value l ps _ _ ih => rw [source_cons, ih]; rfl

/-! ## Components -/

/-- The parts that a text of two characters can have. -/
theorem flatten_pair {a b : α} (l : List (List α)) :
    l.flatten = [a, b] ↔ l.filter (fun x => !x.isEmpty) = [[a, b]] ∨
      l.filter (fun x => !x.isEmpty) = [[a], [b]] := by
  have hflat : ∀ l : List (List α), (l.filter fun x => !x.isEmpty).flatten = l.flatten := by
    intro l
    induction l with
    | nil => rfl
    | cons x l ih =>
        cases x with
        | nil => simpa using ih
        | cons c x => simp [ih]
  rw [← hflat l]
  have hne : ∀ x ∈ l.filter (fun x => !x.isEmpty), x ≠ [] := fun x hx => by
    simpa using (List.mem_filter.mp hx).2
  generalize l.filter (fun x => !x.isEmpty) = m at hne
  constructor
  · intro h
    match m, hne, h with
    | x :: m, hne, h =>
        match x, hne x List.mem_cons_self, h with
        | [c], _, h =>
            obtain ⟨rfl, htail⟩ := List.cons.inj h
            cases m with
            | nil => cases htail
            | cons y m =>
                cases y with
                | nil => exact absurd rfl (hne [] (by simp))
                | cons d y =>
                    obtain ⟨rfl, hy⟩ := List.cons.inj htail
                    obtain ⟨rfl, hm⟩ := List.append_eq_nil_iff.mp hy
                    cases m with
                    | nil => exact .inr rfl
                    | cons z m =>
                        have hz := (List.append_eq_nil_iff.mp hm).1
                        exact absurd hz (hne z (by simp))
        | c :: d :: x, _, h =>
            obtain ⟨rfl, htail⟩ := List.cons.inj h
            obtain ⟨rfl, hx⟩ := List.cons.inj htail
            obtain ⟨rfl, hm⟩ := List.append_eq_nil_iff.mp hx
            cases m with
            | nil => exact .inl rfl
            | cons z m =>
                have hz := (List.append_eq_nil_iff.mp hm).1
                exact absurd hz (hne z (by simp))
  · rintro (rfl | rfl) <;> rfl

section

variable [DecidableEq α] (sep : α)

/-- A separator of the template itself. -/
def isSeparator (p : Piece α) : Bool := p = .char sep

/-- What stands between the template's own separators. -/
def groups (ps : List (Piece α)) : List (List (Piece α)) := ps.splitOnP (isSeparator sep)

theorem splitOn_append {l : List α} (hl : sep ∉ l) (m : List α) :
    (l ++ m).splitOn sep = (m.splitOn sep).modifyHead (l ++ ·) := by
  induction l with
  | nil =>
      show m.splitOn sep = (m.splitOn sep).modifyHead id
      rw [List.modifyHead_id]
      rfl
  | cons a l ih =>
      have ha : ¬(a == sep) = true := fun h => hl (by rw [beq_iff_eq.mp h]; exact List.mem_cons_self)
      have hrest := ih fun h => hl (List.mem_cons_of_mem a h)
      rw [List.cons_append, List.splitOn, List.splitOnP_cons_eq_if_modifyHead, if_neg ha]
      rw [List.splitOn] at hrest
      rw [hrest, List.modifyHead_modifyHead]
      rfl

/-- If no value holds a separator, those of the result are the template's own. -/
theorem count_result {ps : List (Piece α)} (h : ∀ t value, .inserted t value ∈ ps → sep ∉ value) :
    (result ps).count sep = ps.countP (isSeparator sep) := by
  induction ps with
  | nil => rfl
  | cons p ps ih =>
      rw [result_cons, List.count_append, ih fun t value hm => h t value (List.mem_cons_of_mem _ hm),
        List.countP_cons, Nat.add_comm]
      cases p with
      | char a => simp [Piece.after, isSeparator, List.count_singleton]
      | inserted t value =>
          have hnone := List.count_eq_zero.mpr (h t value List.mem_cons_self)
          simpa [Piece.after, isSeparator] using hnone

/-- **The components of the result** are the groups of the template, each replaced by itself, if
no value holds a separator. -/
theorem splitOn_result {ps : List (Piece α)}
    (h : ∀ t value, .inserted t value ∈ ps → sep ∉ value) :
    (result ps).splitOn sep = (groups sep ps).map result := by
  induction ps with
  | nil => simp [result, groups]
  | cons p ps ih =>
      have hrest := ih fun t value hm => h t value (List.mem_cons_of_mem _ hm)
      rw [result_cons, groups, List.splitOnP_cons_eq_if_modifyHead]
      by_cases hp : isSeparator sep p
      · obtain rfl : p = .char sep := by simpa [isSeparator] using hp
        rw [if_pos hp, List.map_cons, ← groups, ← hrest]
        show (sep :: result ps).splitOn sep = _
        rw [List.splitOn, List.splitOnP_cons_eq_if_modifyHead, if_pos (beq_self_eq_true sep)]
        rfl
      · have hnone : sep ∉ p.after := by
          cases p with
          | char a =>
              have ha : ¬a = sep := by simpa [isSeparator] using hp
              simpa [Piece.after, eq_comm] using ha
          | inserted t value => exact h t value List.mem_cons_self
        rw [if_neg hp, splitOn_append sep hnone, hrest, ← groups]
        cases groups sep ps with
        | nil => rfl
        | cons g gs => simp [result_cons]

end

end Template

import Mathlib.Data.List.Induction
import Mathlib.Data.List.Nodup
import Mathlib.Tactic.Common

/-!
# Tables of named values

Two lists of the same length, names that are pairwise different and their values, as a program
keeps them in two arrays.  `set` replaces the value of a name in place, or adds the name at the end;
`get?` searches from the front.  So of many values set in turn the last one of a name counts
(`get?_setAll`).
-/

structure NamedTable (κ α : Type) where
  names : List κ
  values : List α
  same : names.length = values.length
  distinct : names.Nodup

namespace NamedTable

variable {κ α : Type}

def empty : NamedTable κ α := ⟨[], [], rfl, List.nodup_nil⟩

variable [BEq κ] [LawfulBEq κ]

/-- The value at the first place where the name is. -/
def get? (t : NamedTable κ α) (name : κ) : Option α := t.values[t.names.idxOf name]?

/-- Search the name; if it is not there, add it. -/
def set (t : NamedTable κ α) (name : κ) (value : α) : NamedTable κ α :=
  let u := t.names.idxOf name
  if h : u = t.names.length then
    { names := t.names ++ [name]
      values := t.values ++ [value]
      same := by rw [List.length_append, List.length_append, t.same]; rfl
      distinct := by
        rw [List.nodup_append]
        refine ⟨t.distinct, List.nodup_singleton _, ?_⟩
        intro a ha b hb hab
        rw [List.mem_singleton.mp hb] at hab
        exact List.idxOf_eq_length_iff.mp h (hab ▸ ha) }
  else
    { t with
      values := t.values.set u value
      same := by rw [List.length_set, t.same] }

/-- Set the values in turn. -/
def setAll (t : NamedTable κ α) (l : List (κ × α)) : NamedTable κ α :=
  l.foldl (fun t p => t.set p.1 p.2) t

variable {t : NamedTable κ α} {l m : List (κ × α)} {name : κ} {value : α}

omit [LawfulBEq κ] in
@[simp] theorem get?_empty : (empty : NamedTable κ α).get? name = none := rfl

theorem get?_set (other : κ) :
    (t.set name value).get? other = if other == name then some value else t.get? other := by
  unfold set get?
  by_cases h : t.names.idxOf name = t.names.length
  · rw [dif_pos h]
    dsimp only
    have hno : name ∉ t.names := List.idxOf_eq_length_iff.mp h
    by_cases ho : other = name
    · subst ho
      rw [if_pos (beq_self_eq_true _), List.idxOf_append_of_notMem hno, List.idxOf_cons_self, t.same]
      simp
    · rw [if_neg (by simpa using ho)]
      by_cases hm : other ∈ t.names
      · have hlt : t.names.idxOf other < t.values.length := by
          rw [← t.same]
          exact List.idxOf_lt_length_iff.mpr hm
        rw [List.idxOf_append_of_mem hm, List.getElem?_append_left hlt]
      · have hend : t.names.idxOf other = t.values.length := by
          rw [List.idxOf_eq_length hm, t.same]
        rw [List.idxOf_append_of_notMem hm, hend, List.idxOf_cons_ne _ (Ne.symm ho),
          List.getElem?_eq_none (Nat.le_refl _), List.getElem?_eq_none]
        simp [t.same]
  · rw [dif_neg h]
    dsimp only
    have hm : name ∈ t.names := by
      by_contra hno
      exact h (List.idxOf_eq_length hno)
    have hlt : t.names.idxOf name < t.values.length := by
      rw [← t.same]
      exact List.idxOf_lt_length_iff.mpr hm
    by_cases ho : other = name
    · subst ho
      rw [if_pos (beq_self_eq_true _), List.getElem?_set_self hlt]
    · rw [if_neg (by simpa using ho)]
      apply List.getElem?_set_ne
      intro he
      exact ho ((List.idxOf_inj hm).mp he).symm

theorem setAll_append : t.setAll (l ++ m) = (t.setAll l).setAll m := List.foldl_append

/-- The last value that was set counts. -/
theorem get?_setAll : (t.setAll l).get? name = (l.reverse.lookup name).or (t.get? name) := by
  induction l using List.reverseRecOn with
  | nil => rfl
  | append_singleton l p ih =>
      rw [setAll_append]
      show ((t.setAll l).set p.1 p.2).get? name = _
      rw [get?_set, List.reverse_append, List.reverse_singleton, List.singleton_append]
      rw [List.lookup_cons]
      cases name == p.1 with
      | true => rfl
      | false => exact ih

/-- The two lists as one. -/
theorem lookup_zip (t : NamedTable κ α) (name : κ) :
    (t.names.zip t.values).lookup name = t.get? name := by
  obtain ⟨names, values, same, distinct⟩ := t
  unfold get?
  dsimp only
  clear distinct
  induction names generalizing values with
  | nil =>
      cases values with
      | nil => rfl
      | cons v values => cases same
  | cons n names ih =>
      cases values with
      | nil => cases same
      | cons v values =>
          rw [List.zip_cons_cons, List.lookup_cons]
          by_cases he : name = n
          · subst he
            rw [beq_self_eq_true, List.idxOf_cons_self]
            rfl
          · rw [beq_eq_false_iff_ne.mpr he, List.idxOf_cons_ne _ (Ne.symm he)]
            exact ih values (Nat.succ.inj same)

end NamedTable

import Mathlib.Logic.Basic

/-!
# Runs of a state machine

`Reach ok` is every state reached by steps that each meet the condition `ok`,
which may look at the state before the step and at its input.  An invariant of
all such runs is shown once for the start and once for a step (`invariant`).
-/

/-- A machine whose steps take an input; `none` when the input does not fit or
the step does not come back. -/
structure Machine (σ ι : Type) where
  init : σ → Prop
  step : ι → σ → Option σ

namespace Machine

variable {σ ι : Type} (M : Machine σ ι)

inductive Reach (ok : σ → ι → Prop) : σ → Prop
  | init {s : σ} : M.init s → Reach ok s
  | step {s t : σ} (i : ι) : Reach ok s → ok s i → M.step i s = some t → Reach ok t

/-- One step, whatever its input. -/
def Next (s t : σ) : Prop := ∃ i, M.step i s = some t

/-- Run on a list of inputs. -/
def exec : List ι → σ → Option σ
  | [], s => some s
  | i :: is, s => (M.step i s).bind (exec is)

/-- The steps of a run on a list of inputs meet the condition. -/
def Meets (ok : σ → ι → Prop) : List ι → σ → Prop
  | [], _ => True
  | i :: is, s => ok s i ∧ (M.step i s).elim True (Meets ok is)

instance decidableMeets (ok : σ → ι → Prop) [∀ s i, Decidable (ok s i)] :
    (is : List ι) → (s : σ) → Decidable (M.Meets ok is s)
  | [], _ => isTrue trivial
  | i :: is, s =>
    have : Decidable ((M.step i s).elim True (M.Meets ok is)) :=
      match M.step i s with
      | none => isTrue trivial
      | some t => decidableMeets ok is t
    inferInstanceAs (Decidable (_ ∧ _))

variable {M}

theorem exec_append (is js : List ι) (s : σ) :
    M.exec (is ++ js) s = (M.exec is s).bind (M.exec js) := by
  induction is generalizing s with
  | nil => rfl
  | cons i is ih =>
      show (M.step i s).bind (M.exec (is ++ js)) = ((M.step i s).bind (M.exec is)).bind (M.exec js)
      cases M.step i s with
      | none => rfl
      | some t => exact ih t

theorem Reach.exec {ok : σ → ι → Prop} {s t : σ} (hr : M.Reach ok s) (is : List ι)
    (hm : M.Meets ok is s) (h : M.exec is s = some t) : M.Reach ok t := by
  induction is generalizing s with
  | nil =>
      cases h
      exact hr
  | cons i is ih =>
      obtain ⟨u, hu, ht⟩ := Option.bind_eq_some_iff.mp h
      obtain ⟨ho, hm⟩ := hm
      rw [hu] at hm
      exact ih (.step i hr ho hu) hm ht

theorem meets_true (is : List ι) (s : σ) : M.Meets (fun _ _ => True) is s := by
  induction is generalizing s with
  | nil => trivial
  | cons i is ih =>
      refine ⟨trivial, ?_⟩
      cases M.step i s with
      | none => trivial
      | some t => exact ih t

theorem Reach.mono {ok ok' : σ → ι → Prop} (h : ∀ s i, ok s i → ok' s i) {s : σ}
    (hr : M.Reach ok s) : M.Reach ok' s := by
  induction hr with
  | init hi => exact .init hi
  | step i _ ho hs ih => exact .step i ih (h _ _ ho) hs

/-- What holds at the start and is kept by every step holds in every state reached. -/
theorem Reach.invariant {ok : σ → ι → Prop} {P : σ → Prop} (hinit : ∀ s, M.init s → P s)
    (hstep : ∀ s i t, M.Reach ok s → P s → ok s i → M.step i s = some t → P t) {s : σ}
    (hr : M.Reach ok s) : P s := by
  induction hr with
  | init hi => exact hinit _ hi
  | step i hr ho hs ih => exact hstep _ i _ hr ih ho hs

/-- What holds of a state that was reached, and is kept by every step, holds after a run from it. -/
theorem Reach.exec_invariant {ok : σ → ι → Prop} {P : σ → Prop}
    (hstep : ∀ s i t, M.Reach ok s → P s → ok s i → M.step i s = some t → P t) (is : List ι)
    {s t : σ} (hr : M.Reach ok s) (hP : P s) (hm : M.Meets ok is s) (h : M.exec is s = some t) :
    P t := by
  induction is generalizing s with
  | nil =>
      cases h
      exact hP
  | cons i is ih =>
      obtain ⟨u, hu, hrest⟩ := Option.bind_eq_some_iff.mp h
      obtain ⟨ho, hm⟩ := hm
      rw [hu] at hm
      exact ih (hr.step i ho hu) (hstep s i u hr hP ho hu) hm hrest

/-! ## What holds all along a run -/

/-- `P` holds of every state of a run on a list of inputs. -/
def Along (M : Machine σ ι) (P : σ → Prop) : List ι → σ → Prop
  | [], s => P s
  | i :: is, s => P s ∧ (M.step i s).elim True (Along M P is)

theorem Along.start {P : σ → Prop} {is : List ι} {s : σ} (h : M.Along P is s) : P s := by
  cases is with
  | nil => exact h
  | cons i is => exact h.1

/-- If a step meets the condition just if it does what it should and keeps `P`, then `P` holds along
a run whose steps do what they should just if they meet the condition.  `I` is kept by all steps. -/
theorem along_meets_iff {ok does : σ → ι → Prop} {I P : σ → Prop}
    (hI : ∀ s i t, I s → M.step i s = some t → I t)
    (hok : ∀ s i, I s → P s → (ok s i ↔ does s i ∧ ∀ t, M.step i s = some t → P t)) (is : List ι)
    {s : σ} (hi : I s) (hp : P s) : M.Along P is s ∧ M.Meets does is s ↔ M.Meets ok is s := by
  induction is generalizing s with
  | nil => exact ⟨fun _ => trivial, fun _ => ⟨hp, trivial⟩⟩
  | cons i is ih =>
      unfold Along Meets
      rw [hok s i hi hp]
      cases hs : M.step i s with
      | none =>
          constructor
          · rintro ⟨-, hdoes, -⟩
            exact ⟨⟨hdoes, fun t h => by cases h⟩, trivial⟩
          · rintro ⟨⟨hdoes, -⟩, -⟩
            exact ⟨⟨hp, trivial⟩, hdoes, trivial⟩
      | some t =>
          simp only [Option.elim_some, Option.some.injEq, forall_eq']
          have hrest (ht : P t) := ih (hI s i t hi hs) ht
          constructor
          · rintro ⟨⟨-, halong⟩, hdoes, hmeets⟩
            have ht := halong.start
            exact ⟨⟨hdoes, ht⟩, (hrest ht).mp ⟨halong, hmeets⟩⟩
          · rintro ⟨⟨hdoes, ht⟩, hmeets⟩
            obtain ⟨halong, hdoes'⟩ := (hrest ht).mpr hmeets
            exact ⟨⟨hp, halong⟩, hdoes, hdoes'⟩

/-! ## Loops -/

/-- `P` holds at the top of each of the first `n` passes of a loop. -/
def Passes {σ : Type} (next : σ → Option σ) (P : σ → Prop) : Nat → σ → Prop
  | 0, _ => True
  | n + 1, s => P s ∧ (next s).elim True (Passes next P n)

instance decidablePasses {σ : Type} (next : σ → Option σ) (P : σ → Prop) [DecidablePred P] :
    (n : Nat) → (s : σ) → Decidable (Passes next P n s)
  | 0, _ => isTrue trivial
  | n + 1, s =>
    have : Decidable ((next s).elim True (Passes next P n)) :=
      match next s with
      | none => isTrue trivial
      | some t => decidablePasses next P n t
    inferInstanceAs (Decidable (_ ∧ _))

/-- What holds of every state holds at the top of each pass. -/
theorem Passes.of_forall {σ : Type} {next : σ → Option σ} {P : σ → Prop} (h : ∀ s, P s) (n : Nat)
    (s : σ) : Passes next P n s := by
  induction n generalizing s with
  | zero => trivial
  | succ n ih =>
      refine ⟨h s, ?_⟩
      cases next s with
      | none => trivial
      | some t => exact ih t

theorem Passes.mono {σ : Type} {next : σ → Option σ} {P : σ → Prop} {m n : Nat} {s : σ}
    (h : Passes next P n s) (hm : m ≤ n) : Passes next P m s := by
  induction m generalizing n s with
  | zero => trivial
  | succ m ih =>
      obtain ⟨k, rfl⟩ : ∃ k, n = k + 1 := ⟨n - 1, by omega⟩
      obtain ⟨hp, hrest⟩ := h
      refine ⟨hp, ?_⟩
      cases hn : next s with
      | none => trivial
      | some t =>
          rw [hn] at hrest
          exact ih hrest (by omega)

end Machine

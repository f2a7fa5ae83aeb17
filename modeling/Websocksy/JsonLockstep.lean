import Websocksy.JsonScan
import Websocksy.Lib.Rfc8259

/-!
# The scanners beside the grammar

Two machines read a JSON text in lockstep: one reads strings and numbers as RFC 8259 has
them, the other as `framing_json.c` does.  As long as they agree the scanners are right;
once they do not, they never agree again (`Derailed`): one of them is inside a string where
the other is outside, or the scanners gave up or stopped at another place.
-/

namespace Websocksy

open Buffer CString JsonMachine Rfc8259

/-- Strings and numbers of RFC 8259. -/
def spelled : Lexis where
  inString b := 32 ≤ b
  escapes escaped b := b == 92 && !escaped
  endsNumber whole b := whole && (isspace b || b == 44 || b == 93 || b == 125)

theorem spelled_apart : spelled.Apart := by
  intro whole b h
  constructor <;> rintro rfl <;> cases whole <;> exact absurd h (by decide)

theorem scanned_apart : scanned.Apart := by
  intro whole b h
  constructor <;> rintro rfl <;> cases h

/-- The scanners are in another place than the grammar, or have given up. -/
inductive Derailed : State → State → Prop
  | failed (s : State) : Derailed s .failed
  | noColon (s : State) (τ : List Container) : Derailed s (.live .noColon τ)
  | doomed (σ : List Container) (t : State) : Derailed (.live .noColon σ) t
  | inside (key : Bool) (σ : List Container) (p : Position) (τ : List Container) (hp : p.Outside) :
      Derailed (.live (.string key false) σ) (.live p τ)
  | outside (p : Position) (σ : List Container) (hp : p.Outside) (key : Bool) (τ : List Container) :
      Derailed (.live p σ) (.live (.string key false) τ)
  | done (p : Position) (σ : List Container) (n : Nat) : Derailed (.live p σ) (.finished n)
  | ended (n : Nat) (p : Position) (τ : List Container)
      (h : n = 0 → ∃ key escaped, p = .string key escaped) : Derailed (.finished n) (.live p τ)
  | apart (n m : Nat) (h : n ≠ m) : Derailed (.finished n) (.finished m)

section

variable {s t : State} {b : UInt8}

/-- In a string, a byte that is no quotation mark leaves the machine there. -/
theorem stepString_other (L : Lexis) (key escaped : Bool) (σ : List Container) (hb : b ≠ 34) :
    L.step (.live (.string key escaped) σ) b =
      if L.inString b then .live (.string key (L.escapes escaped b)) σ else .failed := by
  rw [Lexis.step_string, Lexis.stepString, if_neg fun h => hb h.1]

theorem stepString_quote (L : Lexis) (key : Bool) (σ : List Container) :
    L.step (.live (.string key false) σ) 34 = ended key σ := by
  rw [Lexis.step_string, Lexis.stepString, if_pos ⟨rfl, rfl⟩]

/-- The grammar is inside a string, the scanners are not. -/
theorem Derailed.inside_step (key : Bool) (σ : List Container) {p : Position}
    (τ : List Container) (hp : p.Outside)
    (hs : spelled.step (.live (.string key false) σ) b ≠ .failed) :
    Derailed (spelled.step (.live (.string key false) σ) b) (scanned.step (.live p τ) b) := by
  have hmoved := scanned.outside_moved scanned_apart hp τ b
  generalize scanned.step (.live p τ) b = t at hmoved
  have hother : b ≠ 34 ∧ b ≠ 92 →
      spelled.step (.live (.string key false) σ) b = .live (.string key false) σ := by
    intro hb
    have hstep := stepString_other spelled key false σ hb.1
    rw [hstep] at hs ⊢
    split
    · rw [show spelled.escapes false b = (b == 92 && true) from rfl, beq_eq_false_iff_ne.mpr hb.2,
        Bool.false_and]
    · next h => exact absurd (if_neg h) hs
  cases hmoved with
  | failed => exact .failed _
  | noColon => exact .noColon _ _
  | string key' τ' =>
      rw [stepString_quote]
      cases key with
      | true => exact .outside .colon σ trivial key' τ'
      | false =>
          cases σ with
          | nil => exact .ended 0 _ _ fun _ => ⟨key', false, rfl⟩
          | cons c σ => exact .outside .after (c :: σ) trivial key' τ'
  | outside b p' τ' hp' hb =>
      rw [hother hb]
      exact .inside key σ p' τ' hp'.outside
  | finished b n hn hb =>
      rw [hother hb]
      exact .done _ _ n

/-- The scanners are inside a string, the grammar is not. -/
theorem Derailed.outside_step {p : Position} {σ : List Container} (hp : p.Outside)
    (hroot : Rooted (.live p σ)) (key : Bool) (τ : List Container)
    (hs : spelled.step (.live p σ) b ≠ .failed) :
    Derailed (spelled.step (.live p σ) b) (scanned.step (.live (.string key false) τ) b) := by
  have hmoved := spelled.outside_moved spelled_apart hp σ b
  have hnext := hroot.next (L := spelled) b
  generalize spelled.step (.live p σ) b = s at hmoved hnext hs
  have hother : b ≠ 34 ∧ b ≠ 92 → scanned.step (.live (.string key false) τ) b = .failed ∨
      scanned.step (.live (.string key false) τ) b = .live (.string key false) τ := by
    intro hb
    rw [stepString_other scanned key false τ hb.1]
    split
    · rw [show scanned.escapes false b = (b == 92) from rfl, beq_eq_false_iff_ne.mpr hb.2]
      exact .inr rfl
    · exact .inl rfl
  cases hmoved with
  | failed => exact absurd rfl hs
  | noColon => exact .doomed _ _
  | string key' σ' =>
      rw [stepString_quote]
      cases key with
      | true => exact .inside key' σ' .colon τ trivial
      | false =>
          cases τ with
          | nil => exact .done _ _ 0
          | cons c τ => exact .inside key' σ' .after (c :: τ) trivial
  | outside b p' σ' hp' hb =>
      rcases hother hb with h | h <;> rw [h]
      · exact .failed _
      · exact .outside p' σ' hp'.outside key τ
  | finished b n hn hb =>
      cases hnext with
      | finished =>
          rcases hother hb with h | h <;> rw [h]
          · exact .failed _
          · exact .ended 0 _ τ fun _ => ⟨key, false, rfl⟩

theorem closed_finished {σ : List Container} {n : Nat} (h : closed σ = .finished n) : n = 0 := by
  cases σ with
  | nil => exact (State.finished.inj h).symm
  | cons c σ => cases h

/-- A value ends with its last byte, or, if it is no string, one byte later. -/
theorem step_finished {p : Position} {σ : List Container} {n : Nat}
    (h : scanned.step (.live p σ) b = .finished n) :
    n = 0 ∨ n = 1 ∧ ∀ key escaped, p ≠ .string key escaped := by
  have hmoved : p.Outside → n = 0 ∨ n = 1 := by
    intro hp
    have hm := scanned.outside_moved scanned_apart hp σ b
    rw [h] at hm
    cases hm with
    | finished b n hn hb => omega
  cases p with
  | string key escaped =>
      rw [Lexis.step_string, Lexis.stepString] at h
      split at h
      · cases key with
        | true => cases h
        | false => exact .inl (closed_finished h)
      · split at h <;> cases h
  | literal as =>
      cases as with
      | nil => cases h
      | cons a as =>
          rw [Lexis.step_literal] at h
          split at h
          · split at h
            · exact .inl (closed_finished h)
            · cases h
          · cases h
  | _ => exact (hmoved trivial).imp id fun h => ⟨h, by simp⟩

/-- **Once derailed, always derailed**, as long as the text goes on as the grammar says. -/
theorem Derailed.step (h : Derailed s t) (hroot : Rooted s) (hs : spelled.step s b ≠ .failed) :
    Derailed (spelled.step s b) (scanned.step t b) := by
  cases h with
  | failed => exact .failed _
  | noColon s τ => exact .failed _
  | doomed σ t => exact absurd rfl hs
  | inside key σ p τ hp => exact Derailed.inside_step key σ τ hp hs
  | outside p σ hp key τ => exact Derailed.outside_step hp hroot key τ hs
  | done p σ n =>
      have hnext := hroot.next (L := spelled) b
      generalize spelled.step (.live p σ) b = s at hnext hs
      cases hnext with
      | failed => exact absurd rfl hs
      | finished => exact .apart 0 (n + 1) (Nat.succ_ne_zero n).symm
      | live p' σ' h => exact .done p' σ' (n + 1)
  | ended n p τ hp =>
      show Derailed (.finished (n + 1)) _
      cases ht : scanned.step (.live p τ) b with
      | live p' τ' => exact .ended (n + 1) p' τ' fun h => absurd h (Nat.succ_ne_zero n)
      | failed => exact .failed _
      | finished m =>
          refine .apart (n + 1) m fun h => ?_
          rcases step_finished ht with rfl | ⟨rfl, hno⟩
          · exact Nat.succ_ne_zero n h
          · obtain ⟨key, escaped, hstring⟩ := hp (Nat.succ.inj h)
            exact hno key escaped hstring
  | apart n m h => exact .apart (n + 1) (m + 1) fun he => h (Nat.succ.inj he)

end

end Websocksy

import Mathlib.Control.Monad.Writer

/-!
# Computations that record their steps

A computation may run out of fuel; one that comes back has a result and the steps it took.
`Returns ok m P` is total correctness of `m`: it comes back, each of its steps meets `ok`, and
the result meets `P`.
-/

/-- `none` is out of fuel. -/
abbrev Traced (ε : Type) := WriterT (List ε) Option

namespace Traced

variable {ε α β : Type}

def outOfFuel : Traced ε α := WriterT.mk none

def step (e : ε) : Traced ε PUnit := tell [e]

def Returns (ok : ε → Prop) (m : Traced ε α) (P : α → Prop) : Prop :=
  ∃ a steps, m.run = some (a, steps) ∧ P a ∧ ∀ e ∈ steps, ok e

section

variable {ok : ε → Prop} {P : α → Prop}

theorem Returns.pure {a : α} (h : P a) : Returns ok (Pure.pure a) P := by
  refine ⟨a, [], rfl, h, ?_⟩
  intro e he
  cases he

theorem Returns.step {e : ε} (h : ok e) : Returns ok (Traced.step e) fun _ => True := by
  refine ⟨⟨⟩, [e], rfl, trivial, ?_⟩
  intro e' he
  rw [List.mem_singleton] at he
  rw [he]
  exact h

theorem Returns.bind {m : Traced ε α} {f : α → Traced ε β} {R : β → Prop} (hm : Returns ok m P)
    (hf : ∀ a, P a → Returns ok (f a) R) : Returns ok (m >>= f) R := by
  obtain ⟨a, steps, hrun, ha, hsteps⟩ := hm
  obtain ⟨b, more, hrun', hb, hmore⟩ := hf a ha
  have hbind : (m >>= f).run = some (b, steps ++ more) := by
    change (m.run >>= fun (a, w₁) => (fun (b, w₂) => (b, w₁ ++ w₂)) <$> (f a).run) = _
    rw [hrun]
    change (fun (b, w₂) => (b, steps ++ w₂)) <$> (f a).run = _
    rw [hrun']
    rfl
  refine ⟨b, steps ++ more, hbind, hb, ?_⟩
  intro e he
  rcases List.mem_append.mp he with h | h
  · exact hsteps e h
  · exact hmore e h

theorem Returns.bind_eq {m : Traced ε α} {f : α → Traced ε β} {a : α} {R : β → Prop}
    (hm : Returns ok m (· = a)) (hf : Returns ok (f a) R) : Returns ok (m >>= f) R := by
  apply hm.bind
  intro b hb
  rw [hb]
  exact hf

theorem Returns.step_bind {e : ε} {m : Traced ε α} (he : ok e) (hm : Returns ok m P) :
    Returns ok (do Traced.step e; m) P :=
  (Returns.step he).bind fun _ _ => hm

end

end Traced

import Mathlib.Data.List.Basic

/-!
# The greedy segmentation of an unbounded stream

A stream is a function from positions.  Where each position has a size, the stream is cut
at 0, behind the piece that starts there, behind the piece that starts there, and so on;
the bytes before a position are the pieces complete by then and the start of one more.
-/

namespace Greedy

variable {α : Type}

/-- The `n` elements from the position `i` on. -/
def window (stream : Nat → α) (i n : Nat) : List α := (List.range n).map fun j => stream (i + j)

/-- Where the piece `m` starts, if a piece that starts at `i` has the size `size i`. -/
def cut (size : Nat → Nat) : Nat → Nat
  | 0 => 0
  | m + 1 => cut size m + size (cut size m)

/-- The piece `m`. -/
def piece (stream : Nat → α) (size : Nat → Nat) (m : Nat) : List α :=
  window stream (cut size m) (size (cut size m))

/-- The pieces before the piece `m`. -/
def pieces (stream : Nat → α) (size : Nat → Nat) (m : Nat) : List (List α) :=
  (List.range m).map (piece stream size)

section

variable (stream : Nat → α) (size : Nat → Nat) (i m n : Nat)

@[simp] theorem length_window : (window stream i n).length = n := by simp [window]

theorem window_add : window stream i (m + n) = window stream i m ++ window stream (i + m) n := by
  simp [window, List.range_add, Nat.add_assoc]

theorem pieces_succ : pieces stream size (m + 1) = pieces stream size m ++ [piece stream size m] := by
  simp [pieces, List.range_succ]

end

section

variable {stream : Nat → α} {size : Nat → Nat} {i m n : Nat}

/-- What starts like the stream does so on each of its parts. -/
theorem window_append {a b : List α} (h : a ++ b = window stream i n) :
    a = window stream i a.length ∧ b = window stream (i + a.length) b.length ∧
      n = a.length + b.length := by
  have hn : n = a.length + b.length := by
    rw [← List.length_append, h, length_window]
  rw [hn, window_add] at h
  obtain ⟨ha, hb⟩ := List.append_inj h (by simp)
  exact ⟨ha, hb, hn⟩

end

end Greedy

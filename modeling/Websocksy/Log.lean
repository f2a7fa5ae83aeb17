import Websocksy.Effects
import Mathlib.Data.List.Induction

/-!
# Reading the log of a run

What was received from a socket, what was written to one, and what the handlers
were given and took, in the order in which it happened.  Each of these is a
homomorphism from the log to lists, so that what a step adds to the log is what
it adds to them.
-/

namespace Websocksy

open Buffer CString

variable {φ : Type}

/-- The results of `recv` on the socket. -/
def recvs (x : Nat) (log : List Event) : List Bytes :=
  log.flatMap fun
    | .received y data => if y = x then [data] else []
    | _ => []

/-- All bytes received from the socket. -/
def received (x : Nat) (log : List Event) : Bytes := (recvs x log).flatten

/-- All bytes written to the socket. -/
def written (x : Nat) (log : List Event) : Bytes :=
  log.flatMap fun
    | .wrote y data => if y = x then data else []
    | _ => []

/-- The lines of the connection handed to `ws_handle_new` and `ws_handle_http`. -/
def handledLines (conn : Nat) (log : List Event) : List Bytes :=
  log.flatMap fun
    | .line c _ data => if c = conn then [data] else []
    | _ => []

/-- The segments taken from the peer buffer of the connection, with their opcodes. -/
def segments (conn : Nat) (log : List Event) : List (WsOperation × Bytes) :=
  log.flatMap fun
    | .segment c op data => if c = conn then [(op, data)] else []
    | _ => []

section

variable (x conn : Nat) (l m : List Event)

@[simp] theorem recvs_append : recvs x (l ++ m) = recvs x l ++ recvs x m := List.flatMap_append

@[simp] theorem received_append : received x (l ++ m) = received x l ++ received x m := by
  simp [received]

@[simp] theorem written_append : written x (l ++ m) = written x l ++ written x m :=
  List.flatMap_append

@[simp] theorem handledLines_append :
    handledLines conn (l ++ m) = handledLines conn l ++ handledLines conn m := List.flatMap_append

@[simp] theorem segments_append : segments conn (l ++ m) = segments conn l ++ segments conn m :=
  List.flatMap_append

/-- Pieces written to a socket are what it was written. -/
theorem written_wrote (ds : List Bytes) : written x (ds.map (.wrote x)) = ds.flatten := by
  induction ds with
  | nil => rfl
  | cons d ds ih =>
      rw [List.flatten_cons, ← ih]
      simp [written]

theorem written_wrote_ne {y : Nat} (h : y ≠ x) (ds : List Bytes) :
    written x (ds.map (.wrote y)) = [] := by
  induction ds with
  | nil => rfl
  | cons d ds ih => simp [written, h]

end

/-- An event that is not in the later part of a log is in the earlier one, at the same place. -/
theorem prefix_of_notMem {e : Event} {l l₁ es : List Event} (h : l₁ ++ [e] <+: l ++ es)
    (hn : e ∉ es) : l₁ ++ [e] <+: l := by
  induction es using List.reverseRecOn with
  | nil => simpa using h
  | append_singleton es a ih =>
      rw [List.mem_append, List.mem_singleton, not_or] at hn
      rw [← List.append_assoc] at h
      rcases List.prefix_concat_iff.mp h with he | hp
      · have := (List.append_inj' he rfl).2
        rw [List.cons.injEq] at this
        exact absurd this.1 hn.2
      · exact ih hp hn.1

section

variable {env : Env φ} {x : Nat} {w w' : World} {data : Bytes} {b : Bool}

/-- Where no send fails, everything is sent. -/
theorem Sent.whole_of (hs : ∀ k, env.send x k ≠ none) (h : Sent env x w data b w') :
    b = false ∧ ∃ ds : List Bytes, ds.flatten = data ∧ w' = w.wrote x ds := by
  cases h with
  | whole ds _ hd => exact ⟨rfl, ds, hd, rfl⟩
  | cut ds _ _ hf => exact absurd hf (hs _)

end

end Websocksy

import Websocksy.Lib.Buffer

/-!
# Cutting a stream into items, chunk by chunk

A `Splitter` finds the first item of a stream; its two properties are that an
item takes up at least one element and that more input does not change an item
already complete.  From these, `drain_append`: what is found in a stream does
not depend on how it arrives, if the incomplete tail is kept between arrivals
(`feed_eq_drain`).

The instance `lines` cuts at CRLF.
-/

/-- The first item of a stream and what follows it, or `none` while it is incomplete. -/
structure Splitter (α β : Type) where
  next : List α → Option (β × List α)
  shorter : ∀ {xs b ys}, next xs = some (b, ys) → ys.length < xs.length
  extend : ∀ {xs b ys} (zs : List α), next xs = some (b, ys) → next (xs ++ zs) = some (b, ys ++ zs)

namespace Splitter

variable {α β : Type} (S : Splitter α β)

/-- All complete items, and the incomplete tail. -/
def drain (xs : List α) : List β × List α :=
  match h : S.next xs with
  | none => ([], xs)
  | some (b, ys) =>
    have : ys.length < xs.length := S.shorter h
    let r := drain ys
    (b :: r.1, r.2)
termination_by xs.length

theorem drain_none {xs : List α} (h : S.next xs = none) : S.drain xs = ([], xs) := by
  rw [drain]
  split
  · rfl
  · next h2 => rw [h] at h2; cases h2

theorem drain_some {xs ys : List α} {b : β} (h : S.next xs = some (b, ys)) :
    S.drain xs = (b :: (S.drain ys).1, (S.drain ys).2) := by
  rw [drain]
  split
  · next h2 => rw [h] at h2; cases h2
  · next h2 =>
    rw [h] at h2
    cases h2
    rfl

/-- Where no item is found, everything is the tail. -/
theorem drain_eq_nil {xs : List α} (h : (S.drain xs).1 = []) : S.next xs = none := by
  cases hn : S.next xs with
  | none => rfl
  | some p => rw [S.drain_some hn] at h; cases h

/-- The tail `drain` leaves holds no complete item. -/
theorem next_drain (xs : List α) : S.next (S.drain xs).2 = none := by
  induction hn : xs.length using Nat.strongRecOn generalizing xs with
  | ind n ih =>
      cases h : S.next xs with
      | none => rw [S.drain_none h]; exact h
      | some p =>
          rw [S.drain_some h]
          exact ih _ (hn ▸ S.shorter h) _ rfl

/-- **Arrival order does not matter**: drain, keep the tail, drain again. -/
theorem drain_append (xs zs : List α) :
    S.drain (xs ++ zs) =
      ((S.drain xs).1 ++ (S.drain ((S.drain xs).2 ++ zs)).1,
        (S.drain ((S.drain xs).2 ++ zs)).2) := by
  induction hn : xs.length using Nat.strongRecOn generalizing xs with
  | ind n ih =>
      cases h : S.next xs with
      | none => rw [S.drain_none h]; simp
      | some p =>
          rw [S.drain_some h, S.drain_some (S.extend zs h), ih _ (hn ▸ S.shorter h) _ rfl]
          rfl

/-- Items and tail after the chunks `cs`, starting from the tail `xs`. -/
def feed (xs : List α) : List (List α) → List β × List α
  | [] => ([], xs)
  | c :: cs =>
    let r := S.drain (xs ++ c)
    let t := feed r.2 cs
    (r.1 ++ t.1, t.2)

/-- A stream that begins with items written one after the other. -/
theorem drain_items (enc : β → List α) (tail : List α) (bs : List β)
    (h : ∀ b ∈ bs, ∀ zs, S.next (enc b ++ zs) = some (b, zs)) :
    S.drain ((bs.map enc).flatten ++ tail) = (bs ++ (S.drain tail).1, (S.drain tail).2) := by
  induction bs with
  | nil => rfl
  | cons b bs ih =>
      have hb := h b List.mem_cons_self ((bs.map enc).flatten ++ tail)
      rw [List.map_cons, List.flatten_cons, List.append_assoc, S.drain_some hb,
        ih fun c hc => h c (List.mem_cons_of_mem _ hc)]
      rfl

end Splitter

/-! ## Lines that end in CRLF -/

namespace Lines

open Buffer

def crlf : Bytes := [13, 10]

/-- The first line and what follows its CRLF. -/
def cutLine : Bytes → Option (Bytes × Bytes)
  | x :: y :: r =>
    if x = 13 ∧ y = 10 then some ([], r) else (cutLine (y :: r)).map fun p => (x :: p.1, p.2)
  | _ => none

theorem cutLine_append (l r : Bytes) (h : cutLine l = none) :
    cutLine (l ++ 13 :: 10 :: r) = some (l, r) := by
  induction l with
  | nil => simp [cutLine]
  | cons x xs ih =>
      cases xs with
      | nil => simp [cutLine]
      | cons y ys =>
          simp only [List.cons_append, cutLine] at h ih ⊢
          split at h
          · cases h
          · next hxy =>
            rw [if_neg hxy, ih (by simpa using h)]
            rfl

theorem cutLine_eq_some {b l r : Bytes} (h : cutLine b = some (l, r)) :
    b = l ++ 13 :: 10 :: r ∧ cutLine l = none := by
  induction b generalizing l r with
  | nil => simp [cutLine] at h
  | cons x xs ih =>
      cases xs with
      | nil => simp [cutLine] at h
      | cons y ys =>
          simp only [cutLine] at h
          split at h
          · next hxy =>
            cases h
            exact ⟨by rw [hxy.1, hxy.2]; rfl, rfl⟩
          · next hxy =>
            obtain ⟨p, hp, hq⟩ := Option.map_eq_some_iff.mp h
            cases hq
            obtain ⟨h1, h2⟩ := ih hp
            refine ⟨by rw [h1]; rfl, ?_⟩
            rcases hl : p.1 with _ | ⟨z, zs⟩
            · rfl
            · rw [hl, List.cons_append, List.cons.injEq] at h1
              rw [hl] at h2
              simp only [cutLine]
              rw [if_neg (by rw [← h1.1]; exact hxy), h2]
              rfl

theorem cutLine_eq_some_iff (b l r : Bytes) :
    cutLine b = some (l, r) ↔ b = l ++ 13 :: 10 :: r ∧ cutLine l = none :=
  ⟨cutLine_eq_some, fun ⟨h1, h2⟩ => h1 ▸ cutLine_append l r h2⟩

/-- No CRLF stands in the bytes. -/
theorem cutLine_eq_none_iff (b : Bytes) : cutLine b = none ↔ ¬crlf <:+: b := by
  constructor
  · rintro h ⟨x, y, rfl⟩
    cases hx : cutLine x with
    | none =>
        rw [List.append_assoc] at h
        rw [show crlf ++ y = 13 :: 10 :: y from rfl, cutLine_append x y hx] at h
        cases h
    | some p =>
        obtain ⟨h1, h2⟩ := cutLine_eq_some hx
        rw [h1, List.append_assoc, List.append_assoc,
          show (13 :: 10 :: p.2 : Bytes) ++ (crlf ++ y) = 13 :: 10 :: (p.2 ++ (crlf ++ y)) from rfl,
          cutLine_append _ _ h2] at h
        cases h
  · intro h
    cases hb : cutLine b with
    | none => rfl
    | some p => exact absurd ⟨p.1, p.2, by rw [(cutLine_eq_some hb).1]; simp [crlf]⟩ h

theorem cutLine_none_of_infix {b c : Bytes} (h : cutLine b = none) (hc : c <:+: b) :
    cutLine c = none := by
  rw [cutLine_eq_none_iff] at h ⊢
  exact fun hi => h (hi.trans hc)

/-- An incomplete line and a chunk that does not start with the LF of its CRLF:
the line ends where the first CRLF of the chunk is. -/
theorem cutLine_chunk (p b : Bytes) (hp : cutLine p = none)
    (hs : ¬(p.getLast? = some 13 ∧ b.head? = some 10)) :
    cutLine (p ++ b) = (cutLine b).map fun q => (p ++ q.1, q.2) := by
  induction p with
  | nil => simp
  | cons x xs ih =>
      cases xs with
      | nil =>
          cases b with
          | nil => simp [cutLine]
          | cons y ys =>
              simp only [List.getLast?_singleton, Option.some.injEq, List.head?_cons] at hs
              simp only [List.cons_append, List.nil_append, cutLine]
              rw [if_neg hs]
      | cons y ys =>
          simp only [cutLine] at hp
          split at hp
          · cases hp
          · next hxy =>
            have hs' : ¬((y :: ys).getLast? = some 13 ∧ b.head? = some 10) := by
              rwa [List.getLast?_cons_cons] at hs
            have := ih (by simpa using hp) hs'
            simp only [List.cons_append, cutLine] at this ⊢
            rw [if_neg hxy, this, Option.map_map]
            rfl

/-- CRLF-terminated lines. -/
def lines : Splitter UInt8 Bytes where
  next := cutLine
  shorter := by
    intro xs b ys h
    rw [(cutLine_eq_some h).1]
    simp
    omega
  extend := by
    intro xs b ys zs h
    obtain ⟨h1, h2⟩ := cutLine_eq_some h
    rw [cutLine_eq_some_iff]
    exact ⟨by rw [h1]; simp, h2⟩

/-- Whole lines are cut into themselves. -/
theorem drain_lines (ls : List Bytes) (tail : Bytes) (h : ∀ l ∈ ls, cutLine l = none)
    (ht : cutLine tail = none) :
    lines.drain ((ls.map (· ++ crlf)).flatten ++ tail) = (ls, tail) := by
  rw [lines.drain_items (· ++ crlf) tail ls, lines.drain_none ht, List.append_nil]
  intro l hl zs
  rw [List.append_assoc]
  exact cutLine_append l zs (h l hl)

/-- The lines, each with its CRLF, and the tail are the whole stream. -/
theorem drain_lines_eq (xs : Bytes) :
    ((lines.drain xs).1.map (· ++ crlf)).flatten ++ (lines.drain xs).2 = xs := by
  induction hn : xs.length using Nat.strongRecOn generalizing xs with
  | ind n ih =>
      cases h : lines.next xs with
      | none => rw [lines.drain_none h]; rfl
      | some p =>
          rw [lines.drain_some h, List.map_cons, List.flatten_cons, List.append_assoc,
            ih _ (hn ▸ lines.shorter h) _ rfl, (cutLine_eq_some h).1, crlf]
          simp

end Lines

import Websocksy.FramingJson
import Websocksy.Lib.JsonMachine

/-!
# The scanners of `framing_json` as one pass

What the scanners of `framing_json.c` return is what a one-pass machine says: the machine
reads the bytes of the data, and where it stops inside a value the bytes that stand behind
the data are looked at (`Outcome.rest`).  `jsonLength_scan` is the statement; it holds for
every array and every length.
-/

namespace Websocksy

open Buffer CString JsonMachine

/-- The words and strings of `framing_json.c`: a backslash escapes what follows even where it
is escaped itself. -/
def scanned : Lexis where
  inString := isprint
  escapes := fun _ b => b == 92
  endsNumber := fun _ b => jsonNumberEnd b

/-- The length of the value, or what a scanner returns where there is none. -/
inductive Outcome
  | total (n : Nat)
  | refused (r : Int)
  deriving DecidableEq, Repr

namespace Outcome

/-- More data are needed. -/
abbrev more : Outcome := refused 0

/-- This is no value. -/
abbrev bad : Outcome := refused (-1)

def value : Outcome → Int
  | total n => n
  | refused r => r

/-- The containers are closed by what stands behind the data. -/
def unwind (data : Bytes) : List Container → Nat → Outcome
  | [], i => total i
  | c :: σ, i => if data.getD i 0 = c.closer then unwind data σ (i + 1) else more

/-- The data end in the middle of a value. -/
def rest (data : Bytes) (i : Nat) : Position → List Container → Outcome
  | .first, σ => unwind data σ i
  | .after, σ => unwind data σ i
  | .comma, c :: σ => if data.getD i 0 = c.closer then unwind data σ (i + 1) else bad
  | .string false false, σ => if data.getD i 0 = 34 then unwind data σ (i + 1) else more
  | .number whole, σ => if jsonNumberEnd (data.getD i 0) ∨ whole then unwind data σ i else more
  | _, _ => more

def ofState (data : Bytes) (i : Nat) : State → Outcome
  | .live p σ => rest data i p σ
  | .finished n => total (i - n)
  | .failed => bad

end Outcome

/-- What becomes of the data from the offset `i` on, in a state of the machine. -/
def scanFrom (data : Bytes) (length i : Nat) (s : State) : Outcome :=
  .ofState data (max length i) (scanned.run s (slice data i (length - i)))

/-- A scanner returned `r`, and what follows what it scanned is `k`. -/
def Outcome.follows (r : Int) (k : Nat → Outcome) : Outcome :=
  if 0 < r then k r.toNat else .refused r

variable {data : Bytes} {length i : Nat} {s : State} {p : Position} {σ : List Container}

theorem scanFrom_step (h : i < length) :
    scanFrom data length i s = scanFrom data length (i + 1) (scanned.step s (data.getD i 0)) := by
  unfold scanFrom
  rw [show length - i = (length - (i + 1)) + 1 by omega, slice_succ, Lexis.run_cons,
    Nat.max_eq_left (by omega), Nat.max_eq_left (by omega)]

theorem scanFrom_end (h : length ≤ i) : scanFrom data length i s = .ofState data i s := by
  unfold scanFrom
  rw [Nat.sub_eq_zero_of_le h, slice_zero, Lexis.run_nil, Nat.max_eq_right h]

theorem scanFrom_failed (data : Bytes) (length i : Nat) :
    scanFrom data length i .failed = .bad := by
  unfold scanFrom
  rw [Lexis.run_failed, Outcome.ofState]

theorem scanFrom_finished (data : Bytes) (length i n : Nat) (h : n ≤ i) :
    scanFrom data length i (.finished n) = .total (i - n) := by
  unfold scanFrom
  rw [Lexis.run_finished, Outcome.ofState, length_slice]
  congr 1
  omega

theorem scanFrom_closed (h : length ≤ i) :
    scanFrom data length i (closed σ) = .unwind data σ i := by
  rw [scanFrom_end h]
  cases σ <;> rfl

theorem Outcome.follows_pos {r : Int} {k : Nat → Outcome} (h : 0 < r) :
    Outcome.follows r k = k r.toNat := if_pos h

theorem Outcome.follows_nonpos {r : Int} {k k' : Nat → Outcome} (h : r ≤ 0) :
    Outcome.follows r k = Outcome.follows r k' := by
  have h : ¬0 < r := by omega
  rw [Outcome.follows, Outcome.follows, if_neg h, if_neg h]

/-! ## The loops -/

theorem advance_shift {p q : Nat → Bool} (o : Nat) (left i : Nat)
    (h : ∀ k, i ≤ k → p k = q (o + k)) : o + advance p left i = advance q left (o + i) := by
  induction left generalizing i with
  | zero => rfl
  | succ left ih =>
      rw [advance, advance, h i (Nat.le_refl _)]
      split
      · exact ih (i + 1) fun k hk => h k (by omega)
      · rfl

theorem advance_stop (p : Nat → Bool) (left i : Nat) :
    i + left ≤ advance p left i ∨ p (advance p left i) = false := by
  induction left generalizing i with
  | zero => exact .inl (Nat.le_refl _)
  | succ left ih =>
      rw [advance]
      split
      · refine (ih (i + 1)).imp (fun h => ?_) id
        omega
      · next h => exact .inr (by simpa using h)

theorem getD_drop (data : Bytes) (o k : Nat) : (data.drop o).getD k 0 = data.getD (o + k) 0 := by
  rw [List.getD_eq_getElem?_getD, List.getElem?_drop, List.getD_eq_getElem?_getD]

theorem skipSpace_drop (data : Bytes) (length o k : Nat) :
    o + skipSpace (data.drop o) (length - o) k = skipSpace data length (o + k) := by
  unfold skipSpace
  rw [Nat.sub_sub]
  exact advance_shift o _ k fun k _ => by rw [getD_drop]

theorem skipSpace_stop (data : Bytes) (length i : Nat) (h : skipSpace data length i < length) :
    isspace (data.getD (skipSpace data length i) 0) = false := by
  have hle := le_skipSpace data length i
  rcases advance_stop (fun i => isspace (data.getD i 0)) (length - i) i with hstop | hstop
  · have : i + (length - i) ≤ skipSpace data length i := hstop
    omega
  · exact hstop

/-- Whitespace is skipped where it changes nothing. -/
theorem scanFrom_space (data : Bytes) (length i : Nat) (s : State)
    (hs : ∀ b, isspace b → scanned.step s b = s) :
    scanFrom data length i s = scanFrom data length (skipSpace data length i) s := by
  unfold skipSpace
  induction hn : length - i generalizing i with
  | zero => rfl
  | succ n ih =>
      rw [advance]
      split
      · next h =>
        rw [scanFrom_step (by omega), hs _ h]
        exact ih (i + 1) (by omega)
      · rfl

/-- A string from its second byte on, or from a byte inside it. -/
theorem scanFrom_string (key : Bool) (σ : List Container) (h : i ≤ length) :
    let q := fun i => isprint (data.getD i 0) &&
      (data.getD i 0 != 34 || data.getD (i - 1) 0 == 92)
    let m := advance q (length - i) i
    scanFrom data length i (.live (.string key (data.getD (i - 1) 0 == 92)) σ) =
      if data.getD m 0 = 34 ∧ data.getD (m - 1) 0 ≠ 92 then
        scanFrom data length (m + 1) (ended key σ)
      else if length ≤ m then .more
      else .bad := by
  intro q
  induction hn : length - i generalizing i with
  | zero =>
      intro m
      have hm : m = i := rfl
      rw [hm, scanFrom_end (by omega), Outcome.ofState, if_pos (show length ≤ i by omega)]
      cases key with
      | true =>
          rw [ended, if_pos rfl, scanFrom_end (by omega)]
          exact (ite_self _).symm
      | false =>
          rw [show ended false σ = closed σ from rfl, scanFrom_closed (by omega)]
          by_cases hb : data.getD (i - 1) 0 = 92
          · rw [beq_iff_eq.mpr hb, if_neg (fun h => h.2 hb)]
            rfl
          · rw [beq_eq_false_iff_ne.mpr hb, Outcome.rest]
            simp only [ne_eq, hb, not_false_eq_true, and_true]
  | succ n ih =>
      intro m
      have hm : m = if q i then advance q n (i + 1) else i := rfl
      rw [scanFrom_step (by omega), Lexis.step_string, Lexis.stepString]
      by_cases hq : q i = true
      · rw [hm, if_pos hq]
        simp only [q, Bool.and_eq_true, Bool.or_eq_true, bne_iff_ne, beq_iff_eq] at hq
        rw [if_neg (fun h => by rcases hq.2 with h' | h' <;> simp_all)]
        rw [show scanned.inString (data.getD i 0) = true from hq.1, if_pos rfl]
        exact ih (by omega) (by omega)
      · rw [hm, if_neg hq]
        simp only [q, Bool.and_eq_true, Bool.or_eq_true, bne_iff_ne, beq_iff_eq, not_and_or,
          not_or, ne_eq, not_not] at hq
        by_cases hclose : data.getD i 0 = 34 ∧ data.getD (i - 1) 0 ≠ 92
        · rw [if_pos hclose, if_pos ⟨hclose.1, by simpa using hclose.2⟩]
        · have hprint : isprint (data.getD i 0) = false := by
            rcases hq with hq | hq
            · simpa using hq
            · exact absurd hq hclose
          have hquote : data.getD i 0 ≠ 34 := fun h => by rw [h] at hprint; exact absurd hprint (by decide)
          rw [if_neg hclose, if_neg (show ¬length ≤ i by omega), if_neg (fun h => hquote h.1),
            show scanned.inString (data.getD i 0) = false from hprint]
          exact scanFrom_failed _ _ _

theorem jsonLengthString_scan (key : Bool) (σ : List Container) (h : i < length)
    (hq : data.getD i 0 = 34) :
    scanFrom data length (i + 1) (.live (.string key false) σ) =
      .follows (jsonLengthString (data.drop i) (length - i))
        fun r => scanFrom data length (i + r) (ended key σ) := by
  have hprev : (data.getD (i + 1 - 1) 0 == 92) = false := by
    rw [Nat.add_sub_cancel, hq]
    rfl
  have hhead : (data.drop i).getD 0 0 = 34 := by rw [getD_drop, Nat.add_zero, hq]
  rw [← hprev, scanFrom_string key σ (show i + 1 ≤ length from h)]
  unfold jsonLengthString
  rw [if_neg (show length - i ≠ 0 by omega), if_neg (not_not.mpr hhead), Nat.sub_sub]
  have hshift := advance_shift i (length - (i + 1)) 1
    (p := fun k => isprint ((data.drop i).getD k 0) &&
      ((data.drop i).getD k 0 != 34 || (data.drop i).getD (k - 1) 0 == 92))
    (q := fun k => isprint (data.getD k 0) && (data.getD k 0 != 34 || data.getD (k - 1) 0 == 92))
    fun k hk => by rw [getD_drop, getD_drop, Nat.add_sub_assoc hk]
  have hle := le_advance (fun k => isprint ((data.drop i).getD k 0) &&
      ((data.drop i).getD k 0 != 34 || (data.drop i).getD (k - 1) 0 == 92)) (length - (i + 1)) 1
  dsimp only at hshift hle ⊢
  rw [← hshift]
  generalize advance _ (length - (i + 1)) 1 = n at hle
  rw [getD_drop, getD_drop, ← Nat.add_sub_assoc hle]
  by_cases hclose : data.getD (i + n) 0 = 34 ∧ data.getD (i + n - 1) 0 ≠ 92
  · rw [if_pos hclose, if_pos hclose, Outcome.follows_pos (by omega)]
    rfl
  · rw [if_neg hclose, if_neg hclose]
    by_cases hend : length ≤ i + n
    · rw [if_pos hend, if_pos (by omega)]
      rfl
    · rw [if_neg hend, if_neg (by omega)]
      rfl

/-! ## Numbers and words -/

/-- A byte that a number does not end with is no digit. -/
theorem jsonNumberPart_eq (b : UInt8) (h : numberByte b) : jsonNumberPart b = !isdigit b := by
  revert h
  exact forall_byte (fun b => numberByte b → jsonNumberPart b = !isdigit b) (by decide +kernel) b

theorem jsonNumberEnd_apart (b : UInt8) (h : jsonNumberEnd b) : numberByte b = false := by
  revert h
  exact forall_byte (fun b => jsonNumberEnd b → numberByte b = false) (by decide +kernel) b

theorem jsonNumberEnd_closer (c : Container) : jsonNumberEnd c.closer = true := by
  cases c <;> rfl

/-- Behind a number its end decides the same as behind any other value. -/
theorem scanFrom_numberEnd (whole : Bool) (σ : List Container) (h : i < length)
    (hend : jsonNumberEnd (data.getD i 0)) :
    scanFrom data length i (.live (.number whole) σ) = scanFrom data length i (closed σ) := by
  have hstep : scanned.step (.live (.number whole) σ) (data.getD i 0) =
      behindNumber σ (data.getD i 0) := by
    rw [Lexis.step_number, Lexis.stepNumber, jsonNumberEnd_apart _ hend,
      show scanned.endsNumber whole (data.getD i 0) = true from hend]
    rfl
  rw [scanFrom_step h, hstep]
  cases σ with
  | nil =>
      rw [behindNumber, scanFrom_finished _ _ _ _ (by omega), Nat.add_sub_cancel]
      exact (scanFrom_finished _ _ _ _ (Nat.zero_le _)).symm
  | cons c σ =>
      rw [scanFrom_step h]
      rfl

/-- A number from its second byte on. -/
theorem scanFrom_number (σ : List Container) (h : i ≤ length)
    (hprev : numberByte (data.getD (i - 1) 0)) :
    let m := advance (fun i => jsonNumberByte (data.getD i 0)) (length - i) i
    scanFrom data length i (.live (.number (isdigit (data.getD (i - 1) 0))) σ) =
      if jsonNumberEnd (data.getD m 0) then scanFrom data length m (closed σ)
      else if length ≤ m then
        if jsonNumberPart (data.getD (m - 1) 0) then .more else scanFrom data length m (closed σ)
      else .bad := by
  induction hn : length - i generalizing i with
  | zero =>
      intro m
      have hm : m = i := rfl
      rw [hm, scanFrom_end (by omega), if_pos (show length ≤ i by omega), scanFrom_closed (by omega),
        jsonNumberPart_eq _ hprev, Outcome.ofState, Outcome.rest]
      by_cases hend : jsonNumberEnd (data.getD i 0) = true
      · rw [if_pos (.inl hend), if_pos hend]
      · rw [if_neg hend]
        cases isdigit (data.getD (i - 1) 0) <;> simp only [hend] <;> rfl
  | succ n ih =>
      intro m
      have hm : m = if numberByte (data.getD i 0) then
          advance (fun i => jsonNumberByte (data.getD i 0)) n (i + 1) else i := rfl
      by_cases hbyte : numberByte (data.getD i 0) = true
      · rw [hm, if_pos hbyte, scanFrom_step (by omega)]
        have hstep : scanned.step (.live (.number (isdigit (data.getD (i - 1) 0))) σ) (data.getD i 0) =
            .live (.number (isdigit (data.getD (i + 1 - 1) 0))) σ := by
          rw [Lexis.step_number, Lexis.stepNumber, if_pos hbyte]
          rfl
        rw [hstep]
        exact ih (by omega) hbyte (by omega)
      · rw [hm, if_neg hbyte, if_neg (show ¬length ≤ i by omega)]
        by_cases hend : jsonNumberEnd (data.getD i 0) = true
        · rw [if_pos hend, scanFrom_numberEnd _ _ (by omega) hend]
        · rw [if_neg hend, scanFrom_step (by omega), Lexis.step_number, Lexis.stepNumber, if_neg hbyte,
            if_neg (show ¬scanned.endsNumber _ (data.getD i 0) = true from hend), scanFrom_failed]

theorem strncmp_cons (data : Bytes) (i : Nat) (a : UInt8) (as : Bytes) (ha : a ≠ 0) :
    strncmp (data.drop i) (a :: as) = (data.getD i 0 == a && strncmp (data.drop (i + 1)) as) := by
  unfold strncmp
  rcases Nat.lt_or_ge i data.length with h | h
  · rw [List.drop_eq_getElem_cons h, List.isPrefixOf, List.getD_eq_getElem?_getD,
      List.getElem?_eq_getElem h, Option.getD_some, Bool.beq_comm]
  · rw [List.drop_of_length_le h, List.getD_eq_getElem?_getD, List.getElem?_eq_none h,
      Option.getD_none, beq_eq_false_iff_ne.mpr ha.symm]
    rfl

/-- A word is read. -/
theorem scanFrom_literal (as : Bytes) (σ : List Container) (hne : as ≠ [])
    (has : ∀ a ∈ as, a ≠ 0) :
    scanFrom data length i (.live (.literal as) σ) =
      if i + as.length ≤ length then
        if strncmp (data.drop i) as then scanFrom data length (i + as.length) (closed σ) else .bad
      else if strncmp (data.drop i) (as.take (length - i)) then .more
      else .bad := by
  induction as generalizing i with
  | nil => exact absurd rfl hne
  | cons a as ih =>
      have ha := has a List.mem_cons_self
      rcases Nat.lt_or_ge i length with h | h
      · have hstep : scanned.step (.live (.literal (a :: as)) σ) (data.getD i 0) =
            if data.getD i 0 = a then if as = [] then closed σ else .live (.literal as) σ
            else .failed := rfl
        rw [scanFrom_step h, hstep, strncmp_cons _ _ _ _ ha,
          show length - i = length - (i + 1) + 1 by omega, List.take_succ_cons,
          strncmp_cons _ _ _ _ ha, List.length_cons]
        by_cases hb : data.getD i 0 = a
        · rw [if_pos hb, beq_iff_eq.mpr hb, Bool.true_and, Bool.true_and]
          by_cases hlast : as = []
          · subst hlast
            rw [if_pos rfl, List.length_nil, Nat.zero_add, if_pos (show i + 1 ≤ length from h)]
            rfl
          · rw [if_neg hlast, ih hlast (fun b hb => has b (List.mem_cons_of_mem _ hb)),
              show i + (as.length + 1) = i + 1 + as.length by omega]
        · rw [if_neg hb, beq_eq_false_iff_ne.mpr hb, Bool.false_and, Bool.false_and, scanFrom_failed]
          split <;> rfl
      · rw [scanFrom_end h, if_neg (by rw [List.length_cons]; omega), Nat.sub_eq_zero_of_le h]
        rfl

/-- The rest of a word is read, or the beginning of it. -/
theorem word_scan (a : UInt8) (as : Bytes) (σ : List Container) (h : i < length)
    (ha : data.getD i 0 = a) (hne : as ≠ []) (has : ∀ b ∈ a :: as, b ≠ 0) :
    scanFrom data length (i + 1) (.live (.literal as) σ) =
      .follows (if (a :: as).length ≤ length - i ∧ strncmp (data.drop i) (a :: as) then
          ((a :: as).length : Int)
        else if length - i < (a :: as).length ∧
          strncmp (data.drop i) ((a :: as).take (length - i)) then 0 else -1)
        fun r => scanFrom data length (i + r) (closed σ) := by
  have ha0 := has a List.mem_cons_self
  rw [scanFrom_literal as σ hne (fun b hb => has b (List.mem_cons_of_mem _ hb)),
    strncmp_cons _ _ _ _ ha0, show length - i = length - (i + 1) + 1 by omega, List.take_succ_cons,
    strncmp_cons _ _ _ _ ha0, beq_iff_eq.mpr ha, Bool.true_and, Bool.true_and, List.length_cons]
  by_cases hfits : i + 1 + as.length ≤ length
  · have hn : as.length + 1 ≤ length - (i + 1) + 1 := by omega
    have hn' : ¬length - (i + 1) + 1 < as.length + 1 := by omega
    simp only [hfits, hn, hn', true_and, false_and, if_true, if_false]
    split
    · rw [Outcome.follows_pos (by omega), Int.toNat_natCast,
        show i + (as.length + 1) = i + 1 + as.length by omega]
    · rfl
  · have hn : ¬as.length + 1 ≤ length - (i + 1) + 1 := by omega
    have hn' : length - (i + 1) + 1 < as.length + 1 := by omega
    simp only [hfits, hn, hn', true_and, false_and, if_false]
    split <;> rfl

/-- A word that starts with another letter does not match. -/
theorem word_none (a : UInt8) (as : Bytes) (n : Nat) (ha : a ≠ 0) (hne : data.getD i 0 ≠ a)
    (hn : n ≠ 0) :
    strncmp (data.drop i) (a :: as) = false ∧ strncmp (data.drop i) ((a :: as).take n) = false := by
  obtain ⟨n, rfl⟩ : ∃ m, n = m + 1 := ⟨n - 1, by omega⟩
  rw [List.take_succ_cons, strncmp_cons _ _ _ _ ha, strncmp_cons _ _ _ _ ha,
    beq_eq_false_iff_ne.mpr hne]
  exact ⟨rfl, rfl⟩

theorem jsonLengthLiteral_scan (σ : List Container) (h : i < length)
    (hc : ∀ b, data.getD i 0 = b → b ≠ 91 ∧ b ≠ 123 ∧ b ≠ 34 ∧ (isdigit b || b == 45) = false) :
    scanFrom data length (i + 1) (opened σ (data.getD i 0)) =
      .follows (jsonLengthLiteral (data.drop i) (length - i))
        fun r => scanFrom data length (i + r) (closed σ) := by
  have hlen : length - i ≠ 0 := by omega
  obtain ⟨h1, h2, h3, h4⟩ := hc _ rfl
  have hnull : ascii "null" = 110 :: ascii "ull" := rfl
  have htrue : ascii "true" = 116 :: ascii "rue" := rfl
  have hfalse : ascii "false" = 102 :: ascii "alse" := rfl
  unfold opened jsonLengthLiteral
  rw [if_neg h1, if_neg h2, if_neg h3, h4, if_neg Bool.false_ne_true, hnull, htrue, hfalse]
  by_cases hn : data.getD i 0 = 110
  · have ht := word_none 116 (ascii "rue") (length - i) (by decide) (by rw [hn]; decide) hlen
    have hf := word_none 102 (ascii "alse") (length - i) (by decide) (by rw [hn]; decide) hlen
    rw [if_pos hn, word_scan 110 (ascii "ull") σ h hn (by decide) (forall_mem_of_all (by decide)), ht.1, ht.2, hf.1, hf.2]
    simp only [Bool.false_eq_true, and_false, if_false]
    rfl
  have hn' := word_none 110 (ascii "ull") (length - i) (by decide) hn hlen
  rw [if_neg hn, hn'.1, hn'.2]
  by_cases ht : data.getD i 0 = 116
  · have hf := word_none 102 (ascii "alse") (length - i) (by decide) (by rw [ht]; decide) hlen
    rw [if_pos ht, word_scan 116 (ascii "rue") σ h ht (by decide) (forall_mem_of_all (by decide)), hf.1, hf.2]
    simp only [Bool.false_eq_true, and_false, if_false]
    rfl
  have ht' := word_none 116 (ascii "rue") (length - i) (by decide) ht hlen
  rw [if_neg ht, ht'.1, ht'.2]
  by_cases hf : data.getD i 0 = 102
  · rw [if_pos hf, word_scan 102 (ascii "alse") σ h hf (by decide) (forall_mem_of_all (by decide))]
    simp only [Bool.false_eq_true, and_false, if_false]
    rfl
  have hf' := word_none 102 (ascii "alse") (length - i) (by decide) hf hlen
  rw [if_neg hf, hf'.1, hf'.2, scanFrom_failed]
  simp only [Bool.false_eq_true, and_false, if_false]
  rfl

theorem jsonLengthValue_scan (σ : List Container) (h : i < length)
    (hc : ∀ b, data.getD i 0 = b → b ≠ 91 ∧ b ≠ 123 ∧ b ≠ 34) :
    scanFrom data length (i + 1) (opened σ (data.getD i 0)) =
      .follows (jsonLengthValue (data.drop i) (length - i))
        fun r => scanFrom data length (i + r) (closed σ) := by
  have hhead : (data.drop i).getD 0 0 = data.getD i 0 := by rw [getD_drop, Nat.add_zero]
  unfold jsonLengthValue
  rw [if_neg (show length - i ≠ 0 by omega), hhead]
  obtain ⟨h1, h2, h3⟩ := hc _ rfl
  by_cases hnum : data.getD i 0 = 45 ∨ isdigit (data.getD i 0)
  · have hopened : opened σ (data.getD i 0) = .live (.number (isdigit (data.getD (i + 1 - 1) 0))) σ := by
      unfold opened
      rw [if_neg h1, if_neg h2, if_neg h3, if_pos (by simpa [or_comm] using hnum), Nat.add_sub_cancel]
    have hbyte : numberByte (data.getD (i + 1 - 1) 0) := by
      rw [Nat.add_sub_cancel]
      rcases hnum with hnum | hnum
      · rw [hnum]
        decide
      · rw [numberByte, hnum]
        rfl
    have hlit : jsonLengthLiteral (data.drop i) (length - i) = -1 := by
      have hne : ∀ a, isdigit a = false → a ≠ 45 → data.getD i 0 ≠ a := by
        rintro a ha ha' rfl
        rcases hnum with hnum | hnum
        · exact ha' hnum
        · rw [ha] at hnum
          exact absurd hnum (by decide)
      have hw := fun a as (ha : a ≠ 0) h h' => word_none a as (length - i) ha (hne a h h') (by omega)
      have hn := hw 110 (ascii "ull") (by decide) (by decide) (by decide)
      have ht := hw 116 (ascii "rue") (by decide) (by decide) (by decide)
      have hf := hw 102 (ascii "alse") (by decide) (by decide) (by decide)
      unfold jsonLengthLiteral
      rw [show ascii "null" = 110 :: ascii "ull" from rfl,
        show ascii "true" = 116 :: ascii "rue" from rfl,
        show ascii "false" = 102 :: ascii "alse" from rfl, hn.1, hn.2, ht.1, ht.2, hf.1, hf.2]
      simp only [Bool.false_eq_true, and_false, if_false]
    rw [hopened, if_pos hnum, hlit, scanFrom_number σ (show i + 1 ≤ length from h) hbyte, Nat.sub_sub]
    have hshift := advance_shift i (length - (i + 1)) 1
      (p := fun k => jsonNumberByte ((data.drop i).getD k 0))
      (q := fun k => jsonNumberByte (data.getD k 0)) fun k _ => by rw [getD_drop]
    have hle := le_advance (fun k => jsonNumberByte ((data.drop i).getD k 0)) (length - (i + 1)) 1
    dsimp only at hshift hle ⊢
    rw [← hshift]
    generalize advance _ (length - (i + 1)) 1 = n at hle
    rw [getD_drop, getD_drop, ← Nat.add_sub_assoc hle]
    by_cases hend : jsonNumberEnd (data.getD (i + n) 0) = true
    · rw [if_pos hend, if_pos hend, Outcome.follows_pos (by omega), Int.toNat_natCast]
    · rw [if_neg hend, if_neg hend]
      by_cases hlast : length ≤ i + n
      · rw [if_pos hlast, if_pos (show length - i ≤ n by omega)]
        split
        · rfl
        · rw [Outcome.follows_pos (by omega), Int.toNat_natCast]
      · rw [if_neg hlast, if_neg (show ¬length - i ≤ n by omega)]
        rfl
  · rw [if_neg hnum]
    refine jsonLengthLiteral_scan σ h ?_
    rintro b rfl
    exact ⟨h1, h2, h3, by simpa [and_comm] using hnum⟩

/-! ## Arrays and objects -/

/-- The closing bracket stands at `k`, and the scanner returns. -/
theorem jsonClose_scan (c : Container) (o k : Nat) (q : Nat → Outcome)
    (h : (data.drop o).getD k 0 = c.closer) :
    Outcome.follows (jsonClose c.closer (data.drop o) k) q = q (k + 1) := by
  rw [jsonClose, if_pos h, Outcome.follows_pos (by omega)]
  rfl

theorem jsonClose_bad (c : Container) (o k : Nat) (q : Nat → Outcome)
    (h : (data.drop o).getD k 0 ≠ c.closer) :
    Outcome.follows (jsonClose c.closer (data.drop o) k) q = .bad := by
  rw [jsonClose, if_neg h]
  rfl

/-- Behind an element or a member: the end of a pass of either loop. -/
theorem behind_scan (c : Container) (σ : List Container) (o k : Nat) (go : Nat → Int)
    (hgo : ∀ j, k < j → o + j < length → scanFrom data length (o + j) (.live .comma (c :: σ)) =
      .follows (go j) fun r => scanFrom data length (o + r) (closed σ)) :
    let m := skipSpace (data.drop o) (length - o) k
    scanFrom data length (o + k) (.live .after (c :: σ)) =
      .follows (if (data.drop o).getD m 0 = c.closer then jsonClose c.closer (data.drop o) m
        else if length - o ≤ m then 0
        else if (data.drop o).getD m 0 ≠ 44 then jsonClose c.closer (data.drop o) m
        else if m + 1 < length - o then go (m + 1)
        else jsonClose c.closer (data.drop o) (m + 1))
        fun r => scanFrom data length (o + r) (closed σ) := by
  intro m
  have hskip : o + m = skipSpace data length (o + k) := skipSpace_drop _ _ _ _
  have hle : k ≤ m := le_skipSpace _ _ _
  rw [scanFrom_space data length (o + k) _ (fun b hb => by rw [Lexis.step_after, behind, if_pos hb]),
    ← hskip]
  have hstop := skipSpace_stop data length (o + k)
  rw [← hskip] at hstop
  generalize m = n at hle hstop
  by_cases hclose : (data.drop o).getD n 0 = c.closer
  · rw [if_pos hclose, jsonClose_scan c o n _ hclose]
    rw [getD_drop] at hclose
    by_cases hlt : o + n < length
    · rw [scanFrom_step hlt, hclose, Nat.add_assoc]
      cases c <;> rfl
    · rw [scanFrom_end (by omega), ← Nat.add_assoc, scanFrom_closed (by omega)]
      exact if_pos hclose
  · rw [if_neg hclose]
    by_cases hlt : o + n < length
    · rw [if_neg (show ¬length - o ≤ n by omega), scanFrom_step hlt]
      rw [getD_drop] at hclose
      have hstep : scanned.step (.live .after (c :: σ)) (data.getD (o + n) 0) =
          if data.getD (o + n) 0 = 44 then .live .comma (c :: σ) else .failed := by
        rw [Lexis.step_after, behind, hstop hlt, if_neg Bool.false_ne_true, if_neg hclose]
      rw [hstep, getD_drop]
      by_cases hcomma : data.getD (o + n) 0 = 44
      · rw [if_pos hcomma, if_neg (not_not.mpr hcomma), Nat.add_assoc]
        by_cases hgoes : n + 1 < length - o
        · rw [if_pos hgoes, hgo (n + 1) (by omega) (by omega)]
        · rw [if_neg hgoes, scanFrom_end (by omega)]
          by_cases hnext : (data.drop o).getD (n + 1) 0 = c.closer
          · rw [jsonClose_scan c o (n + 1) _ hnext, scanFrom_closed (by omega)]
            rw [getD_drop] at hnext
            exact if_pos hnext
          · rw [jsonClose_bad c o (n + 1) _ hnext]
            rw [getD_drop] at hnext
            exact if_neg hnext
      · rw [if_neg hcomma, if_pos hcomma, scanFrom_failed, jsonClose_bad c o n _ (by rwa [getD_drop])]
    · rw [if_pos (show length - o ≤ n by omega), scanFrom_end (by omega)]
      rw [getD_drop] at hclose
      exact if_neg hclose

/-- A comma is like what follows it. -/
theorem scanFrom_comma (c : Container) (σ : List Container) (h : i < length) :
    scanFrom data length i (.live .comma (c :: σ)) =
      scanFrom data length i (.live .next (c :: σ)) := by
  rw [scanFrom_step h, scanFrom_step h]
  rfl

/-- Where a pass of a loop starts: behind the bracket, or behind a comma. -/
inductive PassStart (length i : Nat) : Int → Position → Position → Prop
  | first : PassStart length i 0 .first .first
  | comma (n : Int) (hn : 0 < n) (h : i < length) : PassStart length i n .comma .next

/-- A pass skips whitespace and stops at the end of an empty container. -/
theorem pass_scan (c : Container) (σ : List Container) (o k : Nat) (n : Int) {q : Position}
    (hp : PassStart length (o + k) n p q) :
    let m := skipSpace (data.drop o) (length - o) k
    scanFrom data length (o + k) (.live p (c :: σ)) =
      if n = 0 ∧ (data.drop o).getD m 0 = c.closer then
        .follows (jsonClose c.closer (data.drop o) m) fun r => scanFrom data length (o + r) (closed σ)
      else if o + m < length then
        scanFrom data length (o + m + 1) (member c σ (data.getD (o + m) 0))
      else .more := by
  intro m
  have hskip : o + m = skipSpace data length (o + k) := skipSpace_drop _ _ _ _
  have hstop := skipSpace_stop data length (o + k)
  rw [← hskip] at hstop
  have hstart : scanFrom data length (o + k) (.live p (c :: σ)) =
      scanFrom data length (o + m) (.live q (c :: σ)) := by
    rw [hskip]
    cases hp with
    | first => exact scanFrom_space data length (o + k) _ fun b hb => by rw [Lexis.step_first, if_pos hb]
    | comma n hn h =>
        rw [scanFrom_comma c σ h]
        exact scanFrom_space data length (o + k) _ fun b hb => by rw [Lexis.step_next, if_pos hb]
  rw [hstart]
  generalize m = j at hstop
  by_cases hclose : n = 0 ∧ (data.drop o).getD j 0 = c.closer
  · obtain ⟨hn, hb⟩ := hclose
    rw [if_pos ⟨hn, hb⟩, jsonClose_scan c o j _ hb]
    rw [getD_drop] at hb
    cases hp with
    | comma n hn' h => omega
    | first =>
        by_cases hlt : o + j < length
        · rw [scanFrom_step hlt, hb, Nat.add_assoc]
          cases c <;> rfl
        · rw [scanFrom_end (by omega), ← Nat.add_assoc, scanFrom_closed (by omega)]
          exact if_pos hb
  · rw [if_neg hclose, getD_drop] at *
    by_cases hlt : o + j < length
    · rw [if_pos hlt, scanFrom_step hlt]
      cases hp with
      | comma n hn h =>
          rw [Lexis.step_next, hstop hlt, if_neg Bool.false_ne_true]
      | first =>
          rw [Lexis.step_first, hstop hlt, if_neg Bool.false_ne_true, if_neg fun h => hclose ⟨rfl, h⟩]
    · rw [if_neg hlt, scanFrom_end (by omega)]
      cases hp with
      | comma n hn h => rfl
      | first => exact if_neg fun h => hclose ⟨rfl, h⟩

/-- `json_length` on what starts at `i` says what the machine says. -/
def Scans (data : Bytes) (length i : Nat) : Prop :=
  ∀ σ, scanFrom data length i (.live .value σ) =
    .follows (jsonLength (data.drop i) (length - i))
      fun r => scanFrom data length (i + r) (closed σ)

theorem jsonArrayLoop_scan (σ : List Container) (o k : Nat) (n : Int) {q : Position}
    (ih : ∀ j, o < j → Scans data length j) (hk : 0 < k) (hp : PassStart length (o + k) n p q) :
    scanFrom data length (o + k) (.live p (.array :: σ)) =
      .follows (jsonArrayLoop (data.drop o) (length - o) k n)
        fun r => scanFrom data length (o + r) (closed σ) := by
  induction hleft : length - (o + k) using Nat.strongRecOn generalizing k n p q with
  | ind left ihk =>
      have hmk := le_skipSpace (data.drop o) (length - o) k
      have hskip := skipSpace_drop data length o k
      have hstop := skipSpace_stop data length (o + k)
      rw [← hskip] at hstop
      rw [pass_scan .array σ o k n hp, jsonArrayLoop]
      dsimp only
      generalize skipSpace (data.drop o) (length - o) k = m at hmk hstop
      by_cases hclose : n = 0 ∧ (data.drop o).getD m 0 = 93
      · rw [if_pos hclose]
        exact if_pos hclose
      rw [if_neg hclose, if_neg (show ¬(n = 0 ∧ (data.drop o).getD m 0 = Container.array.closer)
        from hclose)]
      have hvalue : (if o + m < length then
          scanFrom data length (o + m + 1) (member .array σ (data.getD (o + m) 0)) else .more) =
          scanFrom data length (o + m) (.live .value (.array :: σ)) := by
        by_cases hlt : o + m < length
        · rw [if_pos hlt, scanFrom_step hlt, Lexis.step_value, hstop hlt, if_neg Bool.false_ne_true]
          rfl
        · rw [if_neg hlt, scanFrom_end (by omega)]
          rfl
      rw [hvalue, ih (o + m) (by omega), List.drop_drop, Nat.sub_sub]
      generalize hr : jsonLength (data.drop (o + m)) (length - (o + m)) = r
      by_cases hpos : r ≤ 0
      · rw [if_pos hpos]
        exact Outcome.follows_nonpos hpos
      rw [if_neg hpos, Outcome.follows_pos (by omega), Nat.add_assoc]
      refine (behind_scan .array σ o (m + r.toNat) (fun j => jsonArrayLoop (data.drop o) (length - o) j r)
        fun j hkj hj => ?_)
      exact ihk (length - (o + j)) (by omega) j r (by omega) (.comma r (by omega) hj) rfl

theorem jsonObjectLoop_scan (σ : List Container) (o k : Nat) (n : Int) {q : Position}
    (ih : ∀ j, o < j → Scans data length j) (hk : 0 < k) (hp : PassStart length (o + k) n p q) :
    scanFrom data length (o + k) (.live p (.object :: σ)) =
      .follows (jsonObjectLoop (data.drop o) (length - o) k n)
        fun r => scanFrom data length (o + r) (closed σ) := by
  induction hleft : length - (o + k) using Nat.strongRecOn generalizing k n p q with
  | ind left ihk =>
      have hmk := le_skipSpace (data.drop o) (length - o) k
      rw [pass_scan .object σ o k n hp, jsonObjectLoop]
      dsimp only
      generalize skipSpace (data.drop o) (length - o) k = m at hmk
      by_cases hclose : n = 0 ∧ (data.drop o).getD m 0 = 125
      · rw [if_pos hclose]
        exact if_pos hclose
      rw [if_neg hclose, if_neg (show ¬(n = 0 ∧ (data.drop o).getD m 0 = Container.object.closer)
        from hclose), List.drop_drop, Nat.sub_sub]
      -- the key
      have hkey : (if o + m < length then
          scanFrom data length (o + m + 1) (member .object σ (data.getD (o + m) 0)) else .more) =
          .follows (jsonLengthString (data.drop (o + m)) (length - (o + m)))
            fun r => scanFrom data length (o + m + r) (.live .colon (.object :: σ)) := by
        by_cases hlt : o + m < length
        · rw [if_pos hlt, member]
          by_cases hquote : data.getD (o + m) 0 = 34
          · rw [if_pos hquote]
            exact jsonLengthString_scan true _ hlt hquote
          · rw [if_neg hquote, scanFrom_failed, jsonLengthString,
              if_neg (show length - (o + m) ≠ 0 by omega), getD_drop, Nat.add_zero, if_pos hquote]
            rfl
        · rw [if_neg hlt, jsonLengthString, if_pos (by omega)]
          rfl
      rw [hkey]
      generalize jsonLengthString (data.drop (o + m)) (length - (o + m)) = r
      by_cases hpos : r ≤ 0
      · rw [if_pos hpos]
        exact Outcome.follows_nonpos hpos
      rw [if_neg hpos, Outcome.follows_pos (by omega), Nat.add_assoc]
      -- the colon
      have hmc := le_skipSpace (data.drop o) (length - o) (m + r.toNat)
      have hskip := skipSpace_drop data length o (m + r.toNat)
      have hstop := skipSpace_stop data length (o + (m + r.toNat))
      rw [scanFrom_space data length (o + (m + r.toNat)) _
        (fun b hb => by rw [Lexis.step_colon, if_pos hb]), ← hskip]
      rw [← hskip] at hstop
      generalize skipSpace (data.drop o) (length - o) (m + r.toNat) = j at hmc hstop
      by_cases hlast : length - o - 1 ≤ j
      · rw [if_pos hlast]
        by_cases hlt : o + j < length
        · rw [scanFrom_step hlt, Lexis.step_colon, hstop hlt, if_neg Bool.false_ne_true,
            scanFrom_end (by omega)]
          split <;> rfl
        · rw [scanFrom_end (by omega)]
          rfl
      rw [if_neg hlast, scanFrom_step (by omega), Lexis.step_colon, hstop (by omega),
        if_neg Bool.false_ne_true, getD_drop]
      by_cases hcolon : data.getD (o + j) 0 = 58
      case neg =>
        rw [if_neg hcolon, if_pos hcolon, scanFrom_step (by omega)]
        exact scanFrom_failed _ _ _
      -- the value
      rw [if_pos hcolon, if_neg (not_not.mpr hcolon), List.drop_drop, Nat.sub_sub, Nat.add_assoc,
        ih (o + (j + 1)) (by omega)]
      generalize jsonLength (data.drop (o + (j + 1))) (length - (o + (j + 1))) = v
      by_cases hv : v ≤ 0
      · rw [if_pos hv]
        exact Outcome.follows_nonpos hv
      rw [if_neg hv, Outcome.follows_pos (by omega), Nat.add_assoc]
      refine behind_scan .object σ o (j + 1 + v.toNat)
        (fun j => jsonObjectLoop (data.drop o) (length - o) j v) fun i hki hi => ?_
      exact ihk (length - (o + i)) (by omega) i v (by omega) (.comma v (by omega) hi) rfl

/-- **What `json_length` returns is what the machine says.** -/
theorem jsonLength_scans (data : Bytes) (length i : Nat) : Scans data length i := by
  induction hleft : length - i using Nat.strongRecOn generalizing i with
  | ind left ih =>
      intro σ
      rw [jsonLength]
      by_cases hlt : i < length
      case neg =>
        rw [if_pos (by omega), scanFrom_end (by omega)]
        rfl
      rw [if_neg (show length - i ≠ 0 by omega),
        scanFrom_space data length i _ (fun b hb => by rw [Lexis.step_value, if_pos hb])]
      have hskip := skipSpace_drop data length i 0
      have hstop := skipSpace_stop data length i
      rw [Nat.add_zero] at hskip
      rw [← hskip] at hstop ⊢
      dsimp only
      generalize skipSpace (data.drop i) (length - i) 0 = m at hstop
      rw [List.drop_drop, Nat.sub_sub, getD_drop]
      have hadd : ∀ rv : Int, scanFrom data length (i + m) (.live .value σ) =
          .follows rv (fun r => scanFrom data length (i + m + r) (closed σ)) →
          scanFrom data length (i + m) (.live .value σ) =
          .follows (if rv ≤ 0 then rv else m + rv) fun r => scanFrom data length (i + r) (closed σ) := by
        intro rv h
        rw [h]
        by_cases hrv : rv ≤ 0
        · rw [if_pos hrv]
          exact Outcome.follows_nonpos hrv
        · rw [if_neg hrv, Outcome.follows_pos (by omega), Outcome.follows_pos (by omega)]
          congr 1
          omega
      apply hadd
      by_cases hin : i + m < length
      case neg =>
        have hzero : length - (i + m) = 0 := by omega
        rw [scanFrom_end (by omega), hzero]
        split
        · rw [jsonLengthArray]
          rfl
        · split
          · rw [jsonLengthObject]
            rfl
          · split <;> rfl
      have hihk : ∀ j, i + m < j → Scans data length j := fun j hj => ih (length - j) (by omega) j rfl
      have hne : length - (i + m) ≠ 0 := by omega
      rw [scanFrom_step hin, Lexis.step_value, hstop hin, if_neg Bool.false_ne_true]
      have hhead : (data.drop (i + m)).getD 0 0 = data.getD (i + m) 0 := by rw [getD_drop, Nat.add_zero]
      by_cases hc : data.getD (i + m) 0 = 91
      · rw [if_pos hc, opened, if_pos hc, jsonLengthArray, if_neg hne, hhead,
          if_neg (not_not.mpr hc)]
        exact jsonArrayLoop_scan σ (i + m) 1 0 hihk (by decide) .first
      by_cases hc' : data.getD (i + m) 0 = 123
      · rw [if_neg hc, if_pos hc', opened, if_neg hc, if_pos hc', jsonLengthObject, if_neg hne, hhead,
          if_neg (not_not.mpr hc')]
        exact jsonObjectLoop_scan σ (i + m) 1 0 hihk (by decide) .first
      by_cases hc'' : data.getD (i + m) 0 = 34
      · rw [if_neg hc, if_neg hc', if_pos hc'', opened, if_neg hc, if_neg hc', if_pos hc'']
        exact jsonLengthString_scan false σ hin hc''
      · rw [if_neg hc, if_neg hc', if_neg hc'']
        refine jsonLengthValue_scan σ hin ?_
        rintro b rfl
        exact ⟨hc, hc', hc''⟩

/-- **`json_length` as one pass.** -/
theorem jsonLength_scan (data : Bytes) (length : Nat) :
    jsonLength data length = (scanFrom data length 0 Lexis.start).value := by
  have h := jsonLength_scans data length 0 []
  have hend : ∀ r, scanFrom data length (0 + r) (closed []) = .total r := fun r => by
    rw [closed, scanFrom_finished _ _ _ _ (Nat.zero_le _), Nat.zero_add, Nat.sub_zero]
  simp only [hend, List.drop_zero, Nat.sub_zero] at h
  rw [Lexis.start, h, Outcome.follows]
  split
  · rw [Outcome.value, Int.toNat_of_nonneg (by omega)]
  · rfl

end Websocksy

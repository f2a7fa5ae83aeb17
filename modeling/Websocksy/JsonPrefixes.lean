import Websocksy.JsonEntities

/-!
# What `json` makes of the beginning of a JSON text

The read boundary can fall anywhere in an array or an object.  Where the strings in it are
plain, `framing_json` waits for the rest, unless the data end in a comma between elements or
members, or a number was followed by a byte that it does not know (`json_incomplete_iff`).
-/

namespace Websocksy

open Buffer CString JsonMachine Rfc8259

variable {φ : Type}

/-- Printable ASCII without escapes. -/
def simpleString (s : List Character) : Bool :=
  s.all fun
    | .unescaped c _ => c.val ≤ 126
    | _ => false

mutual

/-- All strings in the value are simple. -/
def valueSimple : Value → Bool
  | .string s => simpleString s
  | .array es => elementsSimple es
  | .object ms => membersSimple ms
  | _ => true

def elementsSimple : Elements → Bool
  | .last _ v _ => valueSimple v
  | .cons _ v _ es => valueSimple v && elementsSimple es

def membersSimple : Members → Bool
  | .last key v _ => simpleString key.name && valueSimple v
  | .cons key v _ ms => simpleString key.name && valueSimple v && membersSimple ms

end

/-- The data end in a comma outside of strings: quotation marks come in pairs before it. -/
def EndsInComma (p : Bytes) : Prop := p.getLast? = some 44 ∧ p.count 34 % 2 = 0

/-- A digit is directly followed by a tab, a line feed or a carriage return. -/
def BreaksNumber (p : Bytes) : Prop :=
  ∃ as b c bs, p = as ++ b :: c :: bs ∧ isdigit b ∧ (c = 9 ∨ c = 10 ∨ c = 13)

/-- A byte of a text with simple strings. -/
def SimpleByte (b : UInt8) : Prop := b ≠ 92 ∧ (isprint b ∨ isWs b)

instance (b : UInt8) : Decidable (SimpleByte b) := inferInstanceAs (Decidable (_ ∧ _))

/-! ## Bytes -/

theorem forall_append {P : UInt8 → Prop} {l m : Bytes} (hl : ∀ b ∈ l, P b) (hm : ∀ b ∈ m, P b) :
    ∀ b ∈ l ++ m, P b := fun b hb => (List.mem_append.mp hb).elim (hl b) (hm b)

theorem byte_simple {b : UInt8} (h : SimpleByte b) : ∀ a ∈ [b], SimpleByte a := fun a ha => by
  rwa [List.mem_singleton.mp ha]

theorem ws_simple (w : Ws) : ∀ b ∈ w.val, SimpleByte b := fun b hb =>
  forall_byte (fun b => isWs b → SimpleByte b) (by decide +kernel) b (w.property b hb)

theorem content_simple {s : List Character} (hs : simpleString s) : ∀ b ∈ content s, SimpleByte b := by
  intro b hb
  obtain ⟨c, hc, hb⟩ := List.mem_flatMap.mp hb
  have hsimple := List.all_eq_true.mp hs c hc
  cases c with
  | unescaped c h =>
      have hplain := unescaped_bytes h b hb
      have hle : c.val ≤ 126 := by simpa using hsimple
      rcases utf8EncodeChar_cases c with ⟨hone, hn⟩ | hhigh
      · have hb' : b = UInt8.ofNat c.val.toNat := by
          rw [Character.bytes, hone] at hb
          exact List.mem_singleton.mp hb
        refine ⟨hplain.2.2, .inl ?_⟩
        have hn' : b.toNat = c.val.toNat := by
          rw [hb', UInt8.toNat_ofNat_of_lt' (Nat.lt_of_le_of_lt hn (by decide))]
        have h126 : b ≤ 126 := by
          rw [UInt8.le_iff_toNat_le, hn']
          exact UInt32.le_iff_toNat_le.mp hle
        rw [isprint, decide_eq_true hplain.1, decide_eq_true h126]
        rfl
      · -- a byte above 127 belongs to a character above 127
        exfalso
        unfold String.utf8EncodeChar at hhigh
        have hv : c.val.toNat ≤ 127 := Nat.le_trans (UInt32.le_iff_toNat_le.mp hle) (by decide)
        rw [if_pos hv] at hhigh
        have := hhigh _ List.mem_cons_self
        rw [UInt8.le_iff_toNat_le, UInt8.toNat_ofNat_of_lt' (Nat.lt_of_le_of_lt hv (by decide))] at this
        have h128 : (128 : UInt8).toNat = 128 := rfl
        omega
  | escaped b h => exact absurd hsimple (by simp)
  | unicode x y z u h => exact absurd hsimple (by simp)

theorem string_simple {s : List Character} (hs : simpleString s) :
    ∀ b ∈ stringBytes s, SimpleByte b :=
  forall_append (byte_simple (b := 34) (by decide))
    (forall_append (content_simple hs) (byte_simple (by decide)))

theorem number_simple (n : Number) : ∀ b ∈ n.bytes, SimpleByte b := fun b hb =>
  forall_byte (fun b => numberByte b → SimpleByte b) (by decide +kernel) b ((number_part n).1 b hb)

theorem key_simple {k : Key} (hk : simpleString k.name) : ∀ b ∈ k.bytes, SimpleByte b :=
  forall_append (ws_simple _) (forall_append (string_simple hk) (forall_append (ws_simple _)
    (forall_append (byte_simple (b := 58) (by decide)) (ws_simple _))))

mutual

theorem value_simple : (v : Value) → valueSimple v → ∀ b ∈ v.bytes, SimpleByte b
  | .null, _ => by rw [Value.bytes]; exact forall_mem_of_all (by decide)
  | .true, _ => by rw [Value.bytes]; exact forall_mem_of_all (by decide)
  | .false, _ => by rw [Value.bytes]; exact forall_mem_of_all (by decide)
  | .number n, _ => number_simple n
  | .string s, h => string_simple (by rwa [valueSimple] at h)
  | .emptyArray w, _ => forall_append (byte_simple (b := 91) (by decide))
      (forall_append (ws_simple w) (byte_simple (by decide)))
  | .array es, h => forall_append (byte_simple (b := 91) (by decide))
      (forall_append (elements_simple es (by rwa [valueSimple] at h)) (byte_simple (by decide)))
  | .emptyObject w, _ => forall_append (byte_simple (b := 123) (by decide))
      (forall_append (ws_simple w) (byte_simple (by decide)))
  | .object ms, h => forall_append (byte_simple (b := 123) (by decide))
      (forall_append (members_simple ms (by rwa [valueSimple] at h)) (byte_simple (by decide)))

theorem elements_simple : (es : Elements) → elementsSimple es → ∀ b ∈ es.bytes, SimpleByte b
  | .last w v w', h => forall_append (ws_simple w) (forall_append
      (value_simple v (by rwa [elementsSimple] at h)) (ws_simple w'))
  | .cons w v w' es, h => by
      rw [elementsSimple, Bool.and_eq_true] at h
      exact forall_append (ws_simple w) (forall_append (value_simple v h.1) (forall_append
        (ws_simple w') (forall_append (byte_simple (b := 44) (by decide)) (elements_simple es h.2))))

theorem members_simple : (ms : Members) → membersSimple ms → ∀ b ∈ ms.bytes, SimpleByte b
  | .last k v w, h => by
      rw [membersSimple, Bool.and_eq_true] at h
      exact forall_append (key_simple h.1) (forall_append (value_simple v h.2) (ws_simple w))
  | .cons k v w ms, h => by
      rw [membersSimple, Bool.and_eq_true, Bool.and_eq_true] at h
      exact forall_append (key_simple h.1.1) (forall_append (value_simple v h.1.2) (forall_append
        (ws_simple w) (forall_append (byte_simple (b := 44) (by decide)) (members_simple ms h.2))))

end

/-! ## What the bytes read so far say of the state -/

/-- In a string an odd number of quotation marks was read, elsewhere an even one; and the last
byte led to the position. -/
def Seen (p : Bytes) : State → Prop
  | .live (.string _ escaped) _ => escaped = false ∧ p.count 34 % 2 = 1
  | .live .noColon _ => True
  | .live q _ => p.count 34 % 2 = 0 ∧ q.Outside ∧ ∀ b, p.getLast? = some b → q.Led b
  | _ => True

theorem seen_outside {p : Bytes} {q : Position} {σ : List Container} (hq : q.Outside)
    (hcount : p.count 34 % 2 = 0) (hled : ∀ b, p.getLast? = some b → q.Led b) :
    Seen p (.live q σ) := by
  cases q with
  | string key escaped => exact hq.elim
  | noColon => trivial
  | _ => exact ⟨hcount, hq, hled⟩

theorem seen_step {p : Bytes} {s : State} {b : UInt8} (hb : b ≠ 92) (h : Seen p s) :
    Seen (p ++ [b]) (spelled.step s b) := by
  have hlast : ∀ a, (p ++ [b]).getLast? = some a → a = b := fun a ha => by
    rw [List.getLast?_concat] at ha
    exact (Option.some.inj ha).symm
  have hcount : (p ++ [b]).count 34 = p.count 34 + if b = 34 then 1 else 0 := by
    rw [List.count_append, List.count_singleton]
    congr 1
    by_cases h34 : b = 34
    · rw [if_pos h34, if_pos (beq_iff_eq.mpr h34)]
    · rw [if_neg h34, if_neg (fun he => h34 (beq_iff_eq.mp he))]
  have hplain : ∀ {q : Position} {σ : List Container}, p.count 34 % 2 = 0 → q.Outside →
      Seen (p ++ [b]) (spelled.step (.live q σ) b) := by
    intro q σ heven hq
    have hmoved := spelled.outside_moved spelled_apart hq σ b
    generalize spelled.step (.live q σ) b = t at hmoved
    cases hmoved with
    | failed => trivial
    | noColon => trivial
    | string key τ =>
        refine ⟨rfl, ?_⟩
        rw [hcount, if_pos rfl]
        omega
    | outside b q' τ hled hne =>
        refine seen_outside hled.outside ?_ fun a ha => hlast a ha ▸ hled
        rw [hcount, if_neg hne.1]
        exact heven
    | finished b n hn hne => trivial
  cases s with
  | finished n => trivial
  | failed => trivial
  | live q σ =>
      cases q with
      | string key escaped =>
          obtain ⟨rfl, hodd⟩ := h
          by_cases h34 : b = 34
          · subst h34
            rw [stepString_quote]
            rw [if_pos rfl] at hcount
            have hled : ∀ q : Position, (q = .colon ∨ q = .after) →
                ∀ a, (p ++ [34]).getLast? = some a → q.Led a := by
              rintro q hq a ha
              rw [hlast a ha]
              rcases hq with rfl | rfl <;> exact ⟨by decide, rfl⟩
            cases key with
            | true => exact seen_outside (q := .colon) trivial (by omega) (hled _ (.inl rfl))
            | false =>
                cases σ with
                | nil => trivial
                | cons c σ => exact seen_outside (q := .after) trivial (by omega) (hled _ (.inr rfl))
          · rw [stepString_other _ _ _ _ h34]
            split
            · refine ⟨?_, ?_⟩
              · rw [show spelled.escapes false b = (b == 92 && true) from rfl,
                  beq_eq_false_iff_ne.mpr hb, Bool.false_and]
              · rw [hcount, if_neg h34]
                exact hodd
            · trivial
      | noColon => trivial
      | _ => exact hplain h.1 h.2.1

theorem seen_run {p : Bytes} (hp : ∀ b ∈ p, b ≠ 92) : Seen p (spelled.run Lexis.start p) := by
  induction p using List.reverseRecOn with
  | nil => exact ⟨rfl, trivial, fun b hb => nomatch hb⟩
  | append_singleton p b ih =>
      rw [Lexis.run_append]
      exact seen_step (hp b (by simp)) (ih fun a ha => hp a (List.mem_append_left _ ha))

/-- A comma outside of strings leads to the position behind it, and nothing else does. -/
theorem seen_comma {p : Bytes} {q : Position} {σ : List Container} (h : Seen p (.live q σ))
    (hne : p ≠ []) (hq : q ≠ .noColon) : q = .comma ↔ EndsInComma p := by
  constructor
  · rintro rfl
    obtain ⟨heven, -, hled⟩ := h
    refine ⟨?_, heven⟩
    rw [List.getLast?_eq_some_getLast hne]
    exact congrArg some (hled _ (List.getLast?_eq_some_getLast hne))
  · rintro ⟨hlast, heven⟩
    cases q with
    | string key escaped =>
        have := h.2
        omega
    | comma => rfl
    | noColon => exact absurd rfl hq
    | number whole => exact absurd rfl (h.2.2 44 hlast).2
    | literal as => exact absurd rfl (h.2.2 44 hlast).2.1
    | _ => exact absurd rfl (h.2.2 44 hlast).1

/-- A digit outside of strings belongs to a number. -/
theorem seen_digit {p : Bytes} {q : Position} {σ : List Container} {d : UInt8}
    (h : Seen (p ++ [d]) (.live q σ)) (hd : isdigit d) :
    q = .number true ∨ q = .noColon ∨ ∃ key, q = .string key false := by
  have hlast : (p ++ [d]).getLast? = some d := List.getLast?_concat
  cases q with
  | string key escaped =>
      obtain ⟨rfl, -⟩ := h
      exact .inr (.inr ⟨key, rfl⟩)
  | noColon => exact .inr (.inl rfl)
  | number whole =>
      have := (h.2.2 d hlast).1
      rw [this, hd]
      exact .inl rfl
  | comma =>
      have hcomma : d = 44 := h.2.2 d hlast
      subst hcomma
      exact absurd hd (by decide)
  | literal as => exact absurd (h.2.2 d hlast).2.2 (by rw [hd]; decide)
  | _ => exact absurd (h.2.2 d hlast).2 (by rw [hd]; decide)

/-! ## The scanners beside the grammar -/

/-- Without escapes the scanners do what the grammar says, but for a byte behind a number. -/
theorem simple_step {p : Bytes} {s : State} {b : UInt8} (hb : SimpleByte b) (hseen : Seen p s)
    (hs : spelled.step s b ≠ .failed) : scanned.step s b = spelled.step s b ∨
      scanned.step s b = .failed ∧ (b = 9 ∨ b = 10 ∨ b = 13) ∧ ∃ σ, s = .live (.number true) σ := by
  cases s with
  | finished n => exact .inl rfl
  | failed => exact .inl rfl
  | live q σ =>
      cases q with
      | string key escaped =>
          refine .inl ?_
          obtain ⟨rfl, -⟩ := hseen
          by_cases h34 : b = 34
          · subst h34
            rw [stepString_quote, stepString_quote]
          · rw [stepString_other _ _ _ _ h34] at hs ⊢
            rw [stepString_other _ _ _ _ h34]
            have h32 : spelled.inString b = true := by
              by_contra hno
              exact hs (if_neg hno)
            have hprint : scanned.inString b = true :=
              forall_byte (fun b => SimpleByte b → (32 ≤ b) → isprint b = true) (by decide +kernel) b hb
                (of_decide_eq_true h32)
            rw [if_pos h32, if_pos hprint, show scanned.escapes false b = (b == 92) from rfl,
              show spelled.escapes false b = (b == 92 && true) from rfl, Bool.and_true]
      | number whole =>
          rw [Lexis.step_number, Lexis.stepNumber] at hs ⊢
          rw [Lexis.step_number, Lexis.stepNumber]
          by_cases hbyte : numberByte b = true
          · rw [if_pos hbyte, if_pos hbyte]
            exact .inl rfl
          rw [if_neg hbyte] at hs ⊢
          rw [if_neg hbyte]
          have hend : spelled.endsNumber whole b = true := by
            by_contra hno
            exact hs (if_neg hno)
          rw [if_pos hend]
          by_cases hknown : scanned.endsNumber whole b = true
          · rw [if_pos hknown]
            exact .inl rfl
          · rw [if_neg hknown]
            obtain ⟨rfl, hend⟩ := Bool.and_eq_true_iff.mp hend
            refine .inr ⟨rfl, ?_, σ, rfl⟩
            exact forall_byte (fun b => SimpleByte b →
              (isspace b || b == 44 || b == 93 || b == 125) = true → ¬jsonNumberEnd b = true →
              b = 9 ∨ b = 10 ∨ b = 13) (by decide +kernel) b hb hend hknown
      | literal as => cases as <;> exact .inl rfl
      | _ => cases σ <;> exact .inl rfl

theorem run_concat (L : Lexis) (s : State) (p : Bytes) (b : UInt8) :
    L.run s (p ++ [b]) = L.step (L.run s p) b := by
  rw [Lexis.run_append]
  rfl

/-- The scanners are where the grammar is, or they gave up on a number. -/
theorem simple_run {p : Bytes} (hp : ∀ b ∈ p, SimpleByte b)
    (hs : spelled.run Lexis.start p ≠ .failed) :
    scanned.run Lexis.start p = spelled.run Lexis.start p ∨
      scanned.run Lexis.start p = .failed ∧ BreaksNumber p := by
  induction p using List.reverseRecOn with
  | nil => exact .inl rfl
  | append_singleton p b ih =>
      have hp' : ∀ a ∈ p, SimpleByte a := fun a ha => hp a (List.mem_append_left _ ha)
      have hseen := seen_run fun a ha => (hp' a ha).1
      rw [run_concat] at hs ⊢
      rw [run_concat]
      rcases ih hp' (fun he => hs (by rw [he]; rfl)) with heq | ⟨hfail, as, x, y, bs, rfl, hdigit, hy⟩
      · rw [heq]
        rcases simple_step (hp b (by simp)) hseen hs with h | ⟨hfail, hb, σ, hnumber⟩
        · exact .inl h
        · refine .inr ⟨hfail, ?_⟩
          rw [hnumber] at hseen
          -- the number was not there from the start
          have hne : p ≠ [] := by
            rintro rfl
            cases hnumber
          obtain ⟨as, d, rfl⟩ : ∃ as d, p = as ++ [d] :=
            ⟨p.dropLast, p.getLast hne, (List.dropLast_append_getLast hne).symm⟩
          have hled := (hseen.2.2 d List.getLast?_concat).1
          exact ⟨as, d, b, [], by simp, hled.symm, hb⟩
      · rw [hfail]
        exact .inr ⟨rfl, as, x, y, bs ++ [b], by simp, hdigit, hy⟩

/-- A number that is followed by a tab, a line feed or a carriage return makes the scanners
give up. -/
theorem simple_breaks {p : Bytes} (hp : ∀ b ∈ p, SimpleByte b) {q : Position} {σ : List Container}
    (hs : spelled.run Lexis.start p = .live q σ) (h : BreaksNumber p) :
    scanned.run Lexis.start p = .failed := by
  obtain ⟨as, d, c, bs, rfl, hd, hc⟩ := h
  have hsplit : as ++ d :: c :: bs = as ++ [d] ++ [c] ++ bs := by simp
  rw [hsplit] at hp hs ⊢
  have hp' : ∀ b ∈ as ++ [d], SimpleByte b := fun b hb =>
    hp b (List.mem_append_left _ (List.mem_append_left _ hb))
  have hseen := seen_run fun b hb => (hp' b hb).1
  have hrun := simple_run hp'
  rw [Lexis.run_append, run_concat] at hs ⊢
  generalize spelled.run Lexis.start (as ++ [d]) = t at hs hseen hrun
  -- the text goes on behind the byte
  have hgoes : spelled.step t c ≠ .failed := fun he => by
    rw [he, Lexis.run_failed] at hs
    cases hs
  have hfail : scanned.step (scanned.run Lexis.start (as ++ [d])) c = .failed := by
    cases t with
    | failed => exact absurd rfl hgoes
    | finished n =>
        rw [show spelled.step (.finished n) c = .finished (n + 1) from rfl, Lexis.run_finished] at hs
        cases hs
    | live q' τ =>
        rcases seen_digit hseen hd with rfl | rfl | ⟨key, rfl⟩
        · rcases hrun State.noConfusion with heq | ⟨hfail, -⟩
          · rw [heq, Lexis.step_number, Lexis.stepNumber]
            rcases hc with rfl | rfl | rfl <;> rfl
          · rw [hfail]
            rfl
        · exact absurd rfl hgoes
        · refine absurd ?_ hgoes
          rcases hc with rfl | rfl | rfl <;> rfl
  rw [hfail, Lexis.run_failed]

/-! ## Prefixes -/

/-- In an array or an object, where nothing but zeros stands behind the data, only a comma at
the end of the data is an error. -/
theorem rest_rooted {data : Bytes} {i : Nat} (h : data.getD i 0 = 0) {q : Position}
    {σ : List Container} (hroot : Rooted (.live q σ)) :
    (Outcome.rest data i q σ).value = if q = .comma then -1 else 0 := by
  have hcloser : ∀ c : Container, data.getD i 0 ≠ c.closer := fun c => by
    rw [h]
    cases c <;> decide
  cases hroot with
  | string escaped =>
      cases escaped with
      | true => rfl
      | false =>
          rw [Outcome.rest, h, if_neg (by decide)]
          rfl
  | inside q c σ =>
      have hunwind : Outcome.unwind data (c :: σ) i = .more := if_neg (hcloser c)
      cases q with
      | first => exact congrArg Outcome.value hunwind
      | after => exact congrArg Outcome.value hunwind
      | comma =>
          rw [Outcome.rest, if_neg (hcloser c)]
          rfl
      | string key escaped =>
          cases key <;> cases escaped <;> try rfl
          rw [Outcome.rest, h, if_neg (by decide)]
          rfl
      | number whole =>
          rw [Outcome.rest]
          split
          · exact congrArg Outcome.value hunwind
          · rfl
      | _ => rfl

/-- A proper beginning of a text leads into it. -/
theorem prefix_live {s : State} {p q : Bytes} (hq : q ≠ []) (h : spelled.run s (p ++ q) = .finished 0) :
    ∃ pos σ, spelled.run s p = .live pos σ ∧ pos ≠ .noColon := by
  rw [Lexis.run_append] at h
  cases q with
  | nil => exact absurd rfl hq
  | cons b q =>
      cases hp : spelled.run s p with
      | failed =>
          rw [hp, Lexis.run_failed] at h
          cases h
      | finished n =>
          rw [hp, Lexis.run_finished, State.finished.injEq, List.length_cons] at h
          omega
      | live pos σ =>
          refine ⟨pos, σ, rfl, ?_⟩
          rintro rfl
          rw [hp, Lexis.run_cons, show spelled.step (.live .noColon σ) b = .failed from rfl,
            Lexis.run_failed] at h
          cases h

theorem container_head {e : Value} (he : e.isContainer) : ∃ b bs, e.bytes = b :: bs ∧
    Rooted (spelled.step Lexis.start b) := by
  cases e with
  | emptyArray w => exact ⟨91, _, rfl, .inside _ _ _⟩
  | array es => exact ⟨91, _, rfl, .inside _ _ _⟩
  | emptyObject w => exact ⟨123, _, rfl, .inside _ _ _⟩
  | object ms => exact ⟨123, _, rfl, .inside _ _ _⟩
  | _ => cases he

/-- **`json` waits for the rest of a text** exactly if the data do not end in a comma outside of
strings and no number was directly followed by a tab, a line feed or a carriage return. -/
theorem json_incomplete_iff (e : Value) (he : e.isContainer) (hsimple : valueSimple e) (p q : Bytes)
    (hp : p ≠ []) (hq : q ≠ []) (hsplit : p ++ q = e.bytes) (lastRead : Nat)
    (opcode : Option WsOperation) (framingData : Option φ) (config : Option Bytes) :
    (framingJson (some (p ++ [0])) p.length lastRead opcode framingData config).1 = 0 ↔
      ¬EndsInComma p ∧ ¬BreaksNumber p := by
  have hbytes : ∀ b ∈ p, SimpleByte b := fun b hb =>
    value_simple e hsimple b (hsplit ▸ List.mem_append_left _ hb)
  have hlen : 0 < p.length := List.length_pos_iff.mpr hp
  -- the grammar is inside the text
  have haccept := (value_follows [] e (.inr (by cases e <;> first | rfl | cases he))).spelled
  rw [entity_end (by cases e <;> first | rfl | cases he), ← hsplit] at haccept
  obtain ⟨pos, σ, hlive, hcolon⟩ := prefix_live hq haccept
  have hseen := seen_run fun b hb => (hbytes b hb).1
  have hrun := simple_run hbytes (by rw [Lexis.start, hlive]; exact State.noConfusion)
  rw [Lexis.start, hlive] at hseen hrun
  have hroot : Rooted (.live pos σ) := by
    obtain ⟨b, bs, hb, hstep⟩ := container_head he
    cases p with
    | nil => exact absurd rfl hp
    | cons a p =>
        rw [hb, List.cons_append] at hsplit
        obtain ⟨rfl, -⟩ := List.cons.inj hsplit
        rw [← hlive]
        exact Rooted.run hstep p
  have hvalue : jsonLength (p ++ [0]) p.length =
      (Outcome.ofState (p ++ [0]) p.length (scanned.run (.live .value []) p)).value := by
    rw [jsonLength_run, slice_end]
    rfl
  rw [framingJson_value, hvalue]
  by_cases hbreaks : BreaksNumber p
  · have hfail := simple_breaks hbytes hlive hbreaks
    rw [Lexis.start] at hfail
    rw [hfail, Outcome.ofState, Outcome.value, if_neg (by decide)]
    exact iff_of_false (by omega) fun h => h.2 hbreaks
  · have heq := hrun.resolve_right fun h => hbreaks h.2
    rw [heq, Outcome.ofState, rest_rooted (getD_end p (Nat.le_refl _)) hroot]
    have hcomma := seen_comma hseen hp hcolon
    by_cases hpos : pos = .comma
    · rw [if_pos hpos, if_neg (by decide)]
      exact iff_of_false (by omega) fun h => h.1 (hcomma.mp hpos)
    · rw [if_neg hpos, if_pos (by decide)]
      exact iff_of_true rfl ⟨fun h => hpos (hcomma.mpr h), hbreaks⟩

/-- `[1, 2]` -/
def samplePair : Value :=
  .array (.cons noWs sampleOne noWs (.last blank sampleTwo noWs))

theorem json_incomplete_iff_sample :
    (framingJson (some (ascii "[1, " ++ [0])) 4 4 (some .binary) (none : Option Unit) none).1 = 0 ↔
      ¬EndsInComma (ascii "[1, ") ∧ ¬BreaksNumber (ascii "[1, ") :=
  json_incomplete_iff samplePair rfl (by decide) (ascii "[1, ") (ascii "2]") (by decide) (by decide)
    (by decide) 4 (some .binary) none none

/-- Data that end in a comma are given away as they are. -/
theorem json_incomplete_fails :
    ascii "[1," ++ ascii " 2]" = samplePair.bytes ∧ valueSimple samplePair ∧
    framingJson (some (ascii "[1," ++ [0])) 3 3 (some .binary) (none : Option Unit) none =
      (3, some .binary, none) := by
  decide +kernel

end Websocksy

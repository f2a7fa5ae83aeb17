import Websocksy.JsonLockstep
import Websocksy.JsonBounds

/-!
# What `json` makes of JSON texts

A text that the grammar derives is read by the scanners of `framing_json.c` up to the first
string or number they get wrong (`valueScans`): a string with a byte that is not printable
or that ends in a backslash, which must be an escaped one, or a number with a tab, a line
feed or a carriage return right behind it.  So they find the end of an object, an array or a
string exactly if there is none of these (`json_complete_iff`).
-/

namespace Websocksy

open Buffer CString JsonMachine Rfc8259

variable {φ : Type}

/-- A string the scanners read: printable, and not with a backslash at its end. -/
def plainString (s : List Character) : Bool :=
  (content s).all isprint && (content s).getLast? != some 92

/-- A number is followed by a space, a comma or the end of its container. -/
def spaced (v : Value) (behind : Ws) : Bool := !v.isNumber || behind.val.head?.all (· == 32)

mutual

/-- The scanners read the value to its end. -/
def valueScans : Value → Bool
  | .string s => plainString s
  | .array es => elementsScan es
  | .object ms => membersScan ms
  | _ => true

def elementsScan : Elements → Bool
  | .last _ v behind => valueScans v && spaced v behind
  | .cons _ v behind es => valueScans v && spaced v behind && elementsScan es

def membersScan : Members → Bool
  | .last key v behind => plainString key.name && (valueScans v && spaced v behind)
  | .cons key v behind ms => plainString key.name && (valueScans v && spaced v behind) && membersScan ms

end

/-! ## Two machines on a part of a text -/

/-- On `bs` the grammar leads from `s` to `t`, and so do the scanners, or they derail. -/
structure Follows (s : State) (bs : Bytes) (ok : Bool) (t : State) : Prop where
  spelled : spelled.run s bs = t
  live : t ≠ .failed
  rooted : Rooted t
  scanned : if ok then scanned.run s bs = t else Derailed t (scanned.run s bs)

section

variable {s t u : State} {bs cs : Bytes} {ok ok' : Bool} {σ : List Container}

theorem Derailed.run (h : Derailed s t) (hroot : Rooted s) (hs : Websocksy.spelled.run s bs ≠ .failed) :
    Derailed (Websocksy.spelled.run s bs) (Websocksy.scanned.run t bs) := by
  induction bs generalizing s t with
  | nil => exact h
  | cons b bs ih =>
      have hstep : Websocksy.spelled.step s b ≠ .failed := fun he => hs (by
        rw [Lexis.run_cons, he, Lexis.run_failed])
      exact ih (h.step hroot hstep) (hroot.step b) hs

theorem Follows.trans (h : Follows s bs ok t) (h' : Follows t cs ok' u) :
    Follows s (bs ++ cs) (ok && ok') u := by
  have hspelled : Websocksy.spelled.run s (bs ++ cs) = u := by
    rw [Lexis.run_append, h.spelled, h'.spelled]
  refine ⟨hspelled, h'.live, h'.rooted, ?_⟩
  have hscanned := h.scanned
  have hscanned' := h'.scanned
  rw [Lexis.run_append]
  cases ok with
  | true =>
      rw [if_pos rfl] at hscanned
      rw [hscanned]
      exact hscanned'
  | false =>
      have hlive : Websocksy.spelled.run t cs ≠ .failed := by
        rw [h'.spelled]
        exact h'.live
      have hderailed := Derailed.run hscanned h.rooted hlive
      rw [h'.spelled] at hderailed
      exact hderailed

theorem Follows.of_eq {s' : State} (h : Follows s' bs ok t)
    (heq : ∀ L : Lexis, L.run s cs = L.run s' bs) : Follows s cs ok t := by
  refine ⟨(heq _).trans h.spelled, h.live, h.rooted, ?_⟩
  rw [heq]
  exact h.scanned

/-- Both machines do the same. -/
theorem Follows.same (hspelled : Websocksy.spelled.run s bs = t)
    (hscanned : Websocksy.scanned.run s bs = t) (hlive : t ≠ .failed) (hroot : Rooted t) :
    Follows s bs true t := ⟨hspelled, hlive, hroot, hscanned⟩

/-! ## Whitespace -/

theorem isWs_isspace {b : UInt8} (h : isWs b) : isspace b := by
  revert h
  exact forall_byte (fun b => isWs b → isspace b) (by decide +kernel) b

theorem run_space {L : Lexis} (w : Ws) (hs : ∀ b, isspace b → L.step s b = s) : L.run s w.val = s := by
  obtain ⟨w, hw⟩ := w
  induction w with
  | nil => rfl
  | cons b w ih =>
      rw [Lexis.run_cons, hs b (isWs_isspace (hw b List.mem_cons_self))]
      exact ih fun b hb => hw b (List.mem_cons_of_mem _ hb)

theorem closed_live (σ : List Container) : closed σ ≠ .failed := by
  cases σ <;> exact State.noConfusion

theorem closed_rooted (σ : List Container) : Rooted (closed σ) := (closed_next σ).rooted

/-! ## Strings -/

theorem isxdigit_plain {b : UInt8} (h : isxdigit b) : 32 ≤ b ∧ b ≠ 34 ∧ b ≠ 92 := by
  revert h
  exact forall_byte (fun b => isxdigit b → 32 ≤ b ∧ b ≠ 34 ∧ b ≠ 92) (by decide +kernel) b

theorem run_plain_spelled (key : Bool) (σ : List Container) (bs : Bytes)
    (hbs : ∀ b ∈ bs, 32 ≤ b ∧ b ≠ 34 ∧ b ≠ 92) :
    Websocksy.spelled.run (.live (.string key false) σ) bs = .live (.string key false) σ := by
  induction bs with
  | nil => rfl
  | cons b bs ih =>
      obtain ⟨h32, hquote, hslash⟩ := hbs b List.mem_cons_self
      have hesc : Websocksy.spelled.escapes false b = false := by
        rw [show Websocksy.spelled.escapes false b = (b == 92 && true) from rfl,
          beq_eq_false_iff_ne.mpr hslash, Bool.false_and]
      rw [Lexis.run_cons, stepString_other _ key false σ hquote,
        if_pos (show Websocksy.spelled.inString b = true from decide_eq_true h32), hesc]
      exact ih fun b hb => hbs b (List.mem_cons_of_mem _ hb)

/-- A byte behind a backslash, whatever it is. -/
theorem step_escaped (L : Lexis) (key : Bool) (σ : List Container) (b : UInt8) :
    L.step (.live (.string key true) σ) b =
      if L.inString b then .live (.string key (L.escapes true b)) σ else .failed := by
  rw [Lexis.step_string, Lexis.stepString, if_neg (by simp)]

theorem escapes_printable : ∀ b ∈ ascii "\"\\/bfnrt", isprint b ∧ 32 ≤ b :=
  forall_mem_of_all (by decide)

/-- The grammar reads the characters of a string. -/
theorem run_content_spelled (key : Bool) (σ : List Container) (cs : List Character) :
    Websocksy.spelled.run (.live (.string key false) σ) (content cs) = .live (.string key false) σ := by
  have hslash : Websocksy.spelled.step (.live (.string key false) σ) 92 = .live (.string key true) σ := rfl
  induction cs with
  | nil => rfl
  | cons c cs ih =>
      have hc : Websocksy.spelled.run (.live (.string key false) σ) c.bytes = .live (.string key false) σ := by
        cases c with
        | unescaped c h => exact run_plain_spelled key σ _ (unescaped_bytes h)
        | escaped b h =>
            rw [Character.bytes, Lexis.run_cons, hslash, Lexis.run_cons, step_escaped,
              if_pos (show Websocksy.spelled.inString b = true from
                decide_eq_true (escapes_printable b h).2)]
            show State.live (.string key (b == 92 && false)) σ = _
            rw [Bool.and_false]
        | unicode x y z u h =>
            rw [Character.bytes, Lexis.run_cons, hslash, Lexis.run_cons]
            exact run_plain_spelled key σ [x, y, z, u] fun b hb => isxdigit_plain (h b hb)
      rw [content, List.flatMap_cons, Lexis.run_append, hc]
      exact ih

/-- The scanners read bytes of a string if they are printable, and remember a backslash. -/
def StringRead (bs : Bytes) : Prop :=
  ∀ (key escaped : Bool) (σ : List Container),
    Websocksy.scanned.run (.live (.string key escaped) σ) bs =
      if bs.all isprint then .live (.string key (bs.getLast?.elim escaped (· == 92))) σ else .failed

theorem StringRead.append (h : StringRead bs) (h' : StringRead cs) : StringRead (bs ++ cs) := by
  intro key escaped σ
  rw [Lexis.run_append, h, List.all_append, List.getLast?_append]
  cases bs.all isprint with
  | true =>
      rw [if_pos rfl, h', Bool.true_and]
      cases cs.getLast? <;> rfl
  | false =>
      rw [if_neg Bool.false_ne_true, Lexis.run_failed, Bool.false_and]
      rfl

theorem scanned_nil : StringRead [] := fun _ _ _ => rfl

theorem scanned_byte {b : UInt8} (hb : b ≠ 34) : StringRead [b] := by
  intro key escaped σ
  rw [Lexis.run_cons, Lexis.run_nil, stepString_other _ key escaped σ hb, List.all_cons, List.all_nil,
    Bool.and_true]
  rfl

theorem scanned_plain (bs : Bytes) (hbs : ∀ b ∈ bs, b ≠ 34) : StringRead bs := by
  induction bs with
  | nil => exact scanned_nil
  | cons b bs ih =>
      have hfirst : StringRead [b] := scanned_byte (hbs b List.mem_cons_self)
      exact hfirst.append (ih fun b hb => hbs b (List.mem_cons_of_mem _ hb))

theorem content_scanned (cs : List Character) : StringRead (content cs) := by
  induction cs with
  | nil => exact scanned_nil
  | cons c cs ih =>
      refine StringRead.append ?_ ih
      cases c with
      | unescaped c h => exact scanned_plain _ fun b hb => (unescaped_bytes h b hb).2.1
      | escaped b h =>
          intro key escaped σ
          have hslash : Websocksy.scanned.step (.live (.string key escaped) σ) 92 =
              .live (.string key true) σ := stepString_other _ key escaped σ (by decide)
          have hb : isprint b = true := (escapes_printable b h).1
          rw [Character.bytes, Lexis.run_cons, hslash, Lexis.run_cons, Lexis.run_nil, step_escaped,
            if_pos (show Websocksy.scanned.inString b = true from hb), List.all_cons, List.all_cons, hb]
          rfl
      | unicode x y z u h =>
          refine scanned_plain _ fun b hb => ?_
          simp only [Character.bytes, List.mem_cons] at hb
          rcases hb with rfl | rfl | hb
          · decide
          · decide
          · exact (isxdigit_plain (h b (by simpa using hb))).2.1

/-- A string, from behind its first quotation mark on. -/
theorem string_follows (key : Bool) (σ : List Container) (s : List Character)
    (hσ : Rooted (ended key σ)) :
    Follows (.live (.string key false) σ) (content s ++ [34]) (plainString s) (ended key σ) := by
  have hlive : ended key σ ≠ .failed := by
    cases key with
    | true => exact State.noConfusion
    | false => exact closed_live σ
  refine ⟨?_, hlive, hσ, ?_⟩
  · rw [Lexis.run_append, run_content_spelled, Lexis.run_cons, stepString_quote, Lexis.run_nil]
  · rw [Lexis.run_append, content_scanned s key false σ, plainString]
    cases (content s).all isprint with
    | false =>
        rw [if_neg Bool.false_ne_true, Lexis.run_failed]
        exact .failed _
    | true =>
        rw [if_pos rfl, Bool.true_and, Lexis.run_cons, Lexis.run_nil]
        by_cases hlast : (content s).getLast? = some 92
        · -- the quotation mark is taken for an escaped one
          rw [hlast, bne_self_eq_false, if_neg Bool.false_ne_true]
          show Derailed (ended key σ) (.live (.string key false) σ)
          cases key with
          | true => exact .outside .colon σ trivial true σ
          | false =>
              cases σ with
              | nil => exact .ended 0 _ _ fun _ => ⟨false, false, rfl⟩
              | cons c σ => exact .outside .after (c :: σ) trivial false (c :: σ)
        · have hesc : (content s).getLast?.elim false (· == 92) = false := by
            cases hl : (content s).getLast? with
            | none => rfl
            | some b => exact beq_eq_false_iff_ne.mpr fun h => hlast (by rw [hl, h])
          rw [hesc, stepString_quote, if_pos (bne_iff_ne.mpr hlast)]

/-! ## Numbers -/

/-- A part of a number that ends in a digit. -/
def NumberPart (bs : Bytes) : Prop :=
  (∀ b ∈ bs, numberByte b) ∧ ∃ as d, bs = as ++ [d] ∧ isdigit d

theorem isdigit_numberByte {b : UInt8} (h : isdigit b) : numberByte b := by
  rw [numberByte, h]
  rfl

theorem digits_part (d : Digits) : NumberPart d.val := by
  obtain ⟨d, hne, hd⟩ := d
  refine ⟨fun b hb => isdigit_numberByte (hd b hb), d.dropLast, d.getLast hne,
    (List.dropLast_append_getLast hne).symm, hd _ (List.getLast_mem hne)⟩

theorem NumberPart.append {l : Bytes} (hl : ∀ a ∈ l, numberByte a) (h : NumberPart bs) :
    NumberPart (l ++ bs) := by
  obtain ⟨hbs, cs, d, rfl, hd⟩ := h
  refine ⟨fun b hb => ?_, l ++ cs, d, (List.append_assoc _ _ _).symm, hd⟩
  rcases List.mem_append.mp hb with hb | hb
  · exact hl b hb
  · exact hbs b hb

theorem number_part (n : Number) : NumberPart n.bytes := by
  have hint : NumberPart ((if n.minus then [45] else []) ++ n.int.val) := by
    refine .append ?_ (digits_part n.int)
    cases n.minus <;> exact forall_mem_of_all (by decide)
  have hfrac : NumberPart ((if n.minus then [45] else []) ++ n.int.val ++
      n.frac.elim [] (46 :: ·.val)) := by
    cases n.frac with
    | none => rwa [Option.elim_none, List.append_nil]
    | some d =>
        refine .append hint.1 (.append (l := [46]) (forall_mem_of_all (by decide)) (digits_part d))
  unfold Number.bytes
  cases n.exp with
  | none => rwa [Option.elim_none, List.append_nil]
  | some e =>
      refine .append hfrac.1 ?_
      obtain ⟨upper, sign, digits⟩ := e
      refine .append (l := [if upper then 69 else 101]) ?_ (.append (l := sign.elim [] _) ?_
        (digits_part digits))
      · cases upper <;> exact forall_mem_of_all (by decide)
      · cases sign with
        | none => exact fun a ha => (List.not_mem_nil ha).elim
        | some plus => cases plus <;> exact forall_mem_of_all (by decide)

theorem number_head (n : Number) : ∃ b bs, n.bytes = b :: bs ∧ (isdigit b || b == 45) = true := by
  obtain ⟨minus, ⟨int, hne, hint⟩, leading, frac, exp⟩ := n
  cases minus with
  | true => exact ⟨45, _, rfl, rfl⟩
  | false =>
      cases int with
      | nil => exact absurd rfl hne
      | cons b bs => exact ⟨b, _, rfl, by rw [hint b List.mem_cons_self]; rfl⟩

theorem run_numberBytes (L : Lexis) (whole : Bool) (σ : List Container) (bs : Bytes)
    (h : NumberPart bs) : L.run (.live (.number whole) σ) bs = .live (.number true) σ := by
  obtain ⟨hbs, as, d, rfl, hd⟩ := h
  have hstep : ∀ whole b, numberByte b →
      L.step (.live (.number whole) σ) b = .live (.number (isdigit b)) σ := by
    intro whole b hb
    rw [Lexis.step_number, Lexis.stepNumber, if_pos hb]
  have hrun : ∃ whole', L.run (.live (.number whole) σ) as = .live (.number whole') σ := by
    replace hbs : ∀ a ∈ as, numberByte a := fun a ha => hbs a (List.mem_append_left _ ha)
    induction as generalizing whole with
    | nil => exact ⟨whole, rfl⟩
    | cons a as ih =>
        rw [Lexis.run_cons, hstep _ _ (hbs a List.mem_cons_self)]
        exact ih _ fun a ha => hbs a (List.mem_cons_of_mem _ ha)
  obtain ⟨whole', hrun⟩ := hrun
  rw [Lexis.run_append, hrun, Lexis.run_cons, hstep _ _ (isdigit_numberByte hd), hd, Lexis.run_nil]

theorem run_number (L : Lexis) (σ : List Container) (n : Number) :
    L.run (.live .value σ) n.bytes = .live (.number true) σ := by
  obtain ⟨b, bs, hb, hhead⟩ := number_head n
  have hpart := number_part n
  have hne := forall_byte (fun b => (isdigit b || b == 45) = true →
    isspace b = false ∧ b ≠ 91 ∧ b ≠ 123 ∧ b ≠ 34) (by decide +kernel) b hhead
  have hopened : L.step (.live .value σ) b = .live (.number (isdigit b)) σ := by
    rw [Lexis.step_value, hne.1, if_neg Bool.false_ne_true, opened, if_neg hne.2.1, if_neg hne.2.2.1,
      if_neg hne.2.2.2, if_pos hhead]
  rw [hb] at hpart ⊢
  rw [← run_numberBytes L true σ _ hpart, Lexis.run_cons, Lexis.run_cons, hopened, Lexis.step_number,
    Lexis.stepNumber, if_pos (hpart.1 b List.mem_cons_self)]

/-! ## Values -/

/-- The state behind a value. -/
def valueEnd (v : Value) (σ : List Container) : State :=
  if v.isNumber then .live (.number true) σ else closed σ

theorem value_head (v : Value) : ∃ b bs, v.bytes = b :: bs ∧ isspace b = false ∧ b ≠ 93 := by
  cases v with
  | number n =>
      obtain ⟨b, bs, hb, hhead⟩ := number_head n
      exact ⟨b, bs, by rw [Value.bytes, hb], forall_byte (fun b => (isdigit b || b == 45) = true →
        isspace b = false ∧ b ≠ 93) (by decide +kernel) b hhead⟩
  | _ => exact ⟨_, _, rfl, by decide, by decide⟩

/-- Where an element starts. -/
def ElementStart : Position → Prop
  | .first | .comma => True
  | _ => False

/-- Whitespace behind a comma. -/
theorem run_comma (L : Lexis) (c : Container) (σ : List Container) (w : Ws) :
    L.run (.live .comma (c :: σ)) w.val = .live .comma (c :: σ) ∨
    L.run (.live .comma (c :: σ)) w.val = .live .next (c :: σ) := by
  obtain ⟨w, hw⟩ := w
  cases w with
  | nil => exact .inl rfl
  | cons a w =>
      refine .inr ?_
      show L.run (L.step (.live .comma (c :: σ)) a) w = _
      rw [Lexis.step_comma, if_pos (isWs_isspace (hw a List.mem_cons_self))]
      exact run_space ⟨w, fun b hb => hw b (List.mem_cons_of_mem _ hb)⟩ fun b hb => by
        rw [Lexis.step_next, if_pos hb]

/-- The first byte of an element or a member. -/
theorem step_member (L : Lexis) {q : Position} (hq : ElementStart q) (c : Container)
    (σ : List Container) (w : Ws) {b : UInt8} (hspace : isspace b = false) (hclose : b ≠ c.closer) :
    L.run (.live q (c :: σ)) (w.val ++ [b]) = member c σ b := by
  rw [Lexis.run_append]
  cases q with
  | first =>
      rw [run_space w fun b hb => by rw [Lexis.step_first, if_pos hb], Lexis.run_cons, Lexis.step_first,
        hspace, if_neg Bool.false_ne_true, if_neg hclose, Lexis.run_nil]
  | comma =>
      rcases run_comma L c σ w with h | h
      · rw [h, Lexis.run_cons, Lexis.step_comma, hspace, if_neg Bool.false_ne_true, Lexis.run_nil]
      · rw [h, Lexis.run_cons, Lexis.step_next, hspace, if_neg Bool.false_ne_true, Lexis.run_nil]
  | _ => exact hq.elim

/-- Before an element as before any value. -/
theorem run_element (L : Lexis) {q : Position} (hq : ElementStart q) (σ : List Container) (w : Ws)
    (v : Value) : L.run (.live q (.array :: σ)) (w.val ++ v.bytes) =
      L.run (.live .value (.array :: σ)) v.bytes := by
  obtain ⟨b, bs, hb, hspace, hclose⟩ := value_head v
  rw [hb, Lexis.run_cons, Lexis.step_value, hspace, if_neg Bool.false_ne_true,
    show w.val ++ b :: bs = w.val ++ [b] ++ bs by rw [List.append_assoc]; rfl, Lexis.run_append,
    step_member L hq .array σ w hspace hclose]
  rfl

theorem key_follows {q : Position} (hq : ElementStart q) (σ : List Container) (k : Key) :
    Follows (.live q (.object :: σ)) k.bytes (plainString k.name) (.live .value (.object :: σ)) := by
  have hquote : Follows (.live q (.object :: σ)) (k.before.val ++ [34]) true
      (.live (.string true false) (.object :: σ)) :=
    .same (step_member _ hq .object σ k.before rfl (by decide))
      (step_member _ hq .object σ k.before rfl (by decide)) State.noConfusion (.inside _ _ _)
  have hcolon : Follows (.live .colon (.object :: σ)) (k.behind.val ++ 58 :: k.after.val) true
      (.live .value (.object :: σ)) := by
    have hrun : ∀ L : Lexis, L.run (.live .colon (.object :: σ)) (k.behind.val ++ 58 :: k.after.val) =
        .live .value (.object :: σ) := by
      intro L
      rw [Lexis.run_append, run_space k.behind fun b hb => by rw [Lexis.step_colon, if_pos hb],
        Lexis.run_cons]
      exact run_space (s := .live .value (.object :: σ)) k.after fun b hb => by
        rw [Lexis.step_value, if_pos hb]
    exact .same (hrun _) (hrun _) State.noConfusion (.inside _ _ _)
  have h := (hquote.trans (string_follows true (.object :: σ) k.name (.inside _ _ _))).trans hcolon
  rw [Bool.true_and, Bool.and_true] at h
  have hbytes : k.bytes =
      k.before.val ++ [34] ++ (content k.name ++ [34]) ++ (k.behind.val ++ 58 :: k.after.val) := by
    rw [Key.bytes, stringBytes]
    simp only [List.append_assoc, List.cons_append, List.nil_append]
  rw [hbytes]
  exact h

/-- Behind a value in a container: whitespace, and a comma or a closing bracket. -/
theorem behind_follows (v : Value) (c : Container) (σ : List Container) (w : Ws) {b : UInt8}
    (hb : b = 44 ∨ b = c.closer) :
    Follows (valueEnd v (c :: σ)) (w.val ++ [b]) (spaced v w) (behind c σ b) := by
  have hafter : ∀ (L : Lexis) (w : Ws), L.run (.live .after (c :: σ)) (w.val ++ [b]) = behind c σ b := by
    intro L w
    rw [Lexis.run_append, run_space w fun b hb => by rw [Lexis.step_after, behind, if_pos hb]]
    rfl
  have hlive : behind c σ b ≠ .failed := by
    rcases hb with rfl | rfl
    · exact State.noConfusion
    · cases c <;> exact closed_live σ
  have hroot : Rooted (behind c σ b) := (behind_next c σ b).rooted
  unfold valueEnd spaced
  cases hnumber : v.isNumber with
  | false => exact .same (hafter _ w) (hafter _ w) hlive hroot
  | true =>
      rw [if_pos rfl, Bool.not_true, Bool.false_or]
      obtain ⟨w, hw⟩ := w
      -- a byte that ends the number for the grammar
      have hspelled : ∀ a, isspace a ∨ a = 44 ∨ a = c.closer →
          spelled.step (.live (.number true) (c :: σ)) a = behind c σ a := by
        intro a ha
        rw [Lexis.step_number, Lexis.stepNumber]
        rcases ha with ha | rfl | rfl
        · rw [forall_byte (fun a => isspace a → numberByte a = false) (by decide +kernel) a ha,
            if_neg Bool.false_ne_true, if_pos]
          · rfl
          · show (true && (isspace a || _ || _ || _)) = true
            rw [ha]
            rfl
        · rfl
        · cases c <;> rfl
      cases w with
      | nil =>
          refine .same ?_ ?_ hlive hroot
          · exact hspelled b (.inr hb)
          · show scanned.stepNumber true (c :: σ) b = _
            have hend : jsonNumberEnd b = true := by
              rcases hb with rfl | rfl
              · rfl
              · exact jsonNumberEnd_closer c
            rw [Lexis.stepNumber, jsonNumberEnd_apart b hend, if_neg Bool.false_ne_true,
              if_pos (show scanned.endsNumber true b = true from hend)]
            rfl
      | cons a w =>
          have ha := hw a List.mem_cons_self
          have hspace := isWs_isspace ha
          have hw' : ∀ b ∈ w, isWs b := fun b hb => hw b (List.mem_cons_of_mem _ hb)
          have hrun : spelled.run (.live (.number true) (c :: σ)) (a :: w ++ [b]) = behind c σ b := by
            rw [List.cons_append, Lexis.run_cons, hspelled a (.inl hspace), behind, if_pos hspace]
            exact hafter _ ⟨w, hw'⟩
          by_cases h32 : a = 32
          · subst h32
            exact .same hrun (hafter scanned ⟨w, hw'⟩) hlive hroot
          · refine ⟨hrun, hlive, hroot, ?_⟩
            have hno : (List.head? (a :: w)).all (· == 32) = false := beq_eq_false_iff_ne.mpr h32
            show if (List.head? (a :: w)).all (· == 32) = true then _ else _
            rw [hno, if_neg Bool.false_ne_true, List.cons_append, Lexis.run_cons]
            have hfail : scanned.step (.live (.number true) (c :: σ)) a = .failed := by
              rw [Lexis.step_number, Lexis.stepNumber]
              have hnum := forall_byte (fun a => isWs a → a ≠ 32 →
                numberByte a = false ∧ jsonNumberEnd a = false) (by decide +kernel) a ha h32
              rw [hnum.1, if_neg Bool.false_ne_true,
                show scanned.endsNumber true a = false from hnum.2, if_neg Bool.false_ne_true]
            rw [hfail, Lexis.run_failed]
            exact .failed _

mutual

/-- **A value is followed** by both machines, as long as the scanners read it. -/
theorem value_follows (σ : List Container) : (v : Value) → (σ ≠ [] ∨ v.isNumber = false) →
    Follows (.live .value σ) v.bytes (valueScans v) (valueEnd v σ)
  | .null, _ => .same rfl rfl (closed_live σ) (closed_rooted σ)
  | .true, _ => .same rfl rfl (closed_live σ) (closed_rooted σ)
  | .false, _ => .same rfl rfl (closed_live σ) (closed_rooted σ)
  | .number n, hσ => by
      cases σ with
      | nil => exact absurd hσ (by simp [Value.isNumber])
      | cons c σ => exact .same (run_number _ _ n) (run_number _ _ n) State.noConfusion (.inside _ _ _)
  | .string s, _ => by
      rw [Value.bytes, valueScans]
      exact (string_follows false σ s (closed_rooted σ)).of_eq fun L => rfl
  | .emptyArray w, _ => by
      have hrun : ∀ L : Lexis, L.run (.live .value σ) (91 :: (w.val ++ [93])) = closed σ := by
        intro L
        rw [Lexis.run_cons, Lexis.run_append]
        show L.run (L.run (.live .first (.array :: σ)) w.val) [93] = _
        rw [run_space w fun b hb => by rw [Lexis.step_first, if_pos hb]]
        rfl
      rw [Value.bytes]
      exact .same (hrun _) (hrun _) (closed_live σ) (closed_rooted σ)
  | .array es, _ => by
      rw [Value.bytes, valueScans]
      exact (elements_follow σ es (q := .first) trivial).of_eq fun L => rfl
  | .emptyObject w, _ => by
      have hrun : ∀ L : Lexis, L.run (.live .value σ) (123 :: (w.val ++ [125])) = closed σ := by
        intro L
        rw [Lexis.run_cons, Lexis.run_append]
        show L.run (L.run (.live .first (.object :: σ)) w.val) [125] = _
        rw [run_space w fun b hb => by rw [Lexis.step_first, if_pos hb]]
        rfl
      rw [Value.bytes]
      exact .same (hrun _) (hrun _) (closed_live σ) (closed_rooted σ)
  | .object ms, _ => by
      rw [Value.bytes, valueScans]
      exact (members_follow σ ms (q := .first) trivial).of_eq fun L => rfl

theorem elements_follow (σ : List Container) : (es : Elements) → {q : Position} → ElementStart q →
    Follows (.live q (.array :: σ)) (es.bytes ++ [93]) (elementsScan es) (closed σ)
  | .last w v w', q, hq => by
      have hv := (value_follows (.array :: σ) v (.inl (List.cons_ne_nil _ _))).of_eq
        fun L => run_element L hq σ w v
      have h := hv.trans (behind_follows v .array σ w' (.inr rfl))
      rw [elementsScan, Elements.bytes, ← List.append_assoc, List.append_assoc]
      exact h
  | .cons w v w' es, q, hq => by
      have hv := (value_follows (.array :: σ) v (.inl (List.cons_ne_nil _ _))).of_eq
        fun L => run_element L hq σ w v
      have h := (hv.trans (behind_follows v .array σ w' (.inl rfl))).trans
        (elements_follow σ es (q := .comma) trivial)
      have hbytes : (Elements.cons w v w' es).bytes ++ [93] =
          w.val ++ v.bytes ++ (w'.val ++ [44]) ++ (es.bytes ++ [93]) := by
        rw [Elements.bytes]
        simp only [List.append_assoc, List.cons_append, List.nil_append]
      rw [elementsScan, hbytes]
      exact h

theorem members_follow (σ : List Container) : (ms : Members) → {q : Position} → ElementStart q →
    Follows (.live q (.object :: σ)) (ms.bytes ++ [125]) (membersScan ms) (closed σ)
  | .last k v w, q, hq => by
      have h := (key_follows hq σ k).trans ((value_follows (.object :: σ) v
        (.inl (List.cons_ne_nil _ _))).trans (behind_follows v .object σ w (.inr rfl)))
      have hbytes : (Members.last k v w).bytes ++ [125] =
          k.bytes ++ (v.bytes ++ (w.val ++ [125])) := by
        rw [Members.bytes]
        simp only [List.append_assoc]
      rw [membersScan, hbytes]
      exact h
  | .cons k v w ms, q, hq => by
      have h := ((key_follows hq σ k).trans ((value_follows (.object :: σ) v
        (.inl (List.cons_ne_nil _ _))).trans (behind_follows v .object σ w (.inl rfl)))).trans
        (members_follow σ ms (q := .comma) trivial)
      have hbytes : (Members.cons k v w ms).bytes ++ [125] =
          k.bytes ++ (v.bytes ++ (w.val ++ [44])) ++ (ms.bytes ++ [125]) := by
        rw [Members.bytes]
        simp only [List.append_assoc, List.cons_append, List.nil_append]
      rw [membersScan, hbytes]
      exact h

end

/-! ## Complete values -/

theorem entity_end {e : Value} (he : e.isEntity) : valueEnd e [] = .finished 0 := by
  cases e <;> first | rfl | cases he

/-- Whitespace in front of a value. -/
theorem run_value (L : Lexis) (w : Ws) (bs : Bytes) :
    L.run Lexis.start (w.val ++ bs) = L.run Lexis.start bs := by
  rw [Lexis.run_append, Lexis.start, run_space w fun b hb => by rw [Lexis.step_value, if_pos hb]]

/-- The grammar and the scanners on a text with something behind it. -/
theorem entity_follows (w : Ws) {e : Value} (he : e.isEntity) (r : Bytes) :
    Follows Lexis.start (w.val ++ e.bytes ++ r) (valueScans e) (.finished r.length) := by
  have hvalue := value_follows [] e (.inr (by cases e <;> first | rfl | cases he))
  rw [entity_end he] at hvalue
  have hrun : ∀ L : Lexis, L.run (.finished 0) r = .finished r.length := fun L => by
    rw [Lexis.run_finished, Nat.zero_add]
  have hrest : Follows (.finished 0) r true (.finished r.length) :=
    .same (hrun _) (hrun _) State.noConfusion (.finished _)
  have h := hvalue.trans hrest
  rw [Bool.and_true] at h
  exact h.of_eq fun L => by rw [List.append_assoc, run_value]; rfl

theorem slice_end (d : Bytes) : slice (d ++ [0]) 0 d.length = d := slice_data d [0]

theorem getD_end (d : Bytes) {i : Nat} (hi : d.length ≤ i) : (d ++ [0]).getD i 0 = 0 := by
  obtain ⟨j, rfl⟩ := Nat.exists_eq_add_of_le hi
  rw [getD_behind]
  cases j <;> rfl

/-- Where nothing but zeros stands behind the data, nothing there completes a value. -/
theorem rest_zero {data : Bytes} {i : Nat} (h : ∀ j, i ≤ j → data.getD j 0 = 0) (p : Position)
    (τ : List Container) : (Outcome.rest data i p τ).value ≤ 0 ∨
      (Outcome.rest data i p τ).value = i ∧ ∀ key escaped, p ≠ .string key escaped := by
  have hunwind : ∀ τ, (Outcome.unwind data τ i).value ≤ 0 ∨ (Outcome.unwind data τ i).value = i := by
    intro τ
    cases τ with
    | nil => exact .inr rfl
    | cons c τ =>
        rw [Outcome.unwind, h i (Nat.le_refl i), if_neg (by cases c <;> decide)]
        exact .inl (Int.le_refl 0)
  cases p with
  | string key escaped =>
      refine .inl ?_
      cases key <;> cases escaped <;> try exact Int.le_refl 0
      rw [Outcome.rest, h i (Nat.le_refl i), if_neg (by decide)]
      exact Int.le_refl 0
  | comma =>
      cases τ with
      | nil => exact .inl (Int.le_refl 0)
      | cons c τ =>
          rw [Outcome.rest, h i (Nat.le_refl i), if_neg (by cases c <;> decide)]
          exact .inl (by decide)
  | number whole =>
      rw [Outcome.rest]
      split
      · exact (hunwind τ).imp id fun he => ⟨he, by simp⟩
      · exact .inl (Int.le_refl 0)
  | first => exact (hunwind τ).imp id fun he => ⟨he, by simp⟩
  | after => exact (hunwind τ).imp id fun he => ⟨he, by simp⟩
  | _ => exact .inl (Int.le_refl 0)

/-- **JSON texts are found complete**: behind whitespace, an object, an array or a string is
framed as text, whatever follows it, exactly if its strings are printable and do not end in a
backslash and no number in it is directly followed by a tab, a line feed or a carriage
return. -/
theorem json_complete_iff (w : Ws) (e : Value) (he : e.isEntity) (r : Bytes) :
    (∀ lastRead opcode framingData config, (framingJson : WsFraming φ)
      (some (w.val ++ e.bytes ++ r ++ [0])) (w.val ++ e.bytes ++ r).length lastRead (some opcode)
      framingData config = (((w.val.length + e.bytes.length : Nat) : Int), some .text, framingData)) ↔
      valueScans e := by
  have h := entity_follows w he r
  generalize hd : w.val ++ e.bytes ++ r = d at h
  have hlen : d.length = w.val.length + e.bytes.length + r.length := by
    rw [← hd, List.length_append, List.length_append]
  have hvalue : jsonLength (d ++ [0]) d.length =
      (Outcome.ofState (d ++ [0]) d.length (scanned.run Lexis.start d)).value := by
    rw [jsonLength_run, slice_end]
  have hpos : 0 < e.bytes.length := by
    obtain ⟨b, bs, hb, -⟩ := value_head e
    rw [hb]
    exact Nat.succ_pos _
  have hscanned := h.scanned
  constructor
  · intro hall
    have hbinary := hall 0 .binary none none
    unfold framingJson at hbinary
    dsimp only [Option.getD_some] at hbinary
    by_cases hj : 0 < jsonLength (d ++ [0]) d.length
    case neg =>
      rw [if_neg hj] at hbinary
      split at hbinary <;> exact nomatch (Prod.mk.inj (Prod.mk.inj hbinary).2).1
    rw [if_pos hj, Prod.mk.injEq] at hbinary
    obtain ⟨hj', -⟩ := hbinary
    rw [hvalue] at hj hj'
    cases hok : valueScans e with
    | true => rfl
    | false =>
        rw [hok, if_neg Bool.false_ne_true] at hscanned
        generalize scanned.run Lexis.start d = t at hscanned hj hj'
        cases hscanned with
        | failed => exact absurd hj (show ¬(0 : Int) < -1 by decide)
        | noColon => exact absurd hj (Int.lt_irrefl 0)
        | ended n p τ hp =>
            rcases rest_zero (fun j => getD_end d) p τ with hle | ⟨heq, hno⟩
            · exact absurd hj (Int.not_lt.mpr hle)
            · have hr : r.length = 0 := by
                have : ((d.length : Nat) : Int) = (w.val.length + e.bytes.length : Nat) := heq ▸ hj'
                omega
              obtain ⟨key, escaped, hstring⟩ := hp hr
              exact absurd hstring (hno key escaped)
        | apart n m hne =>
            rw [Outcome.ofState, Outcome.value] at hj'
            omega
  · intro hok lastRead opcode framingData config
    rw [if_pos hok] at hscanned
    have hj : jsonLength (d ++ [0]) d.length = ((w.val.length + e.bytes.length : Nat) : Int) := by
      rw [hvalue, hscanned, Outcome.ofState, Outcome.value]
      congr 1
      omega
    unfold framingJson
    dsimp only [Option.getD_some]
    rw [hj, if_pos (by omega)]
    rfl

end

def noWs : Ws := ⟨[], List.forall_mem_nil _⟩

/-- One blank. -/
def blank : Ws := ⟨[32], forall_mem_of_all (by decide)⟩

/-- The number of one digit. -/
def sampleDigit (b : UInt8) (h : isdigit b := by decide) : Value :=
  .number ⟨false, ⟨[b], List.cons_ne_nil _ _, fun _ hc => List.mem_singleton.mp hc ▸ h⟩,
    (Classical.em (b = 48)).imp (by simp) (by simp), none, none⟩

def sampleOne : Value := sampleDigit 49

def sampleTwo : Value := sampleDigit 50

/-- `"é"` -/
def sampleAccent : Value := .string [.unescaped 'é' (by decide)]

/-- `"\\"`, one backslash. -/
def sampleSlash : Value := .string [.escaped 92 (by decide)]

/-- The number 1, and a line feed behind it. -/
def sampleBreak : Value :=
  .array (.last noWs sampleOne ⟨[10], forall_mem_of_all (by decide)⟩)

/-- `{"a": [1 ]}` -/
def sampleObject : Value :=
  .object (.last ⟨noWs, [.unescaped 'a' (by decide)], noWs, blank⟩
    (.array (.last noWs sampleOne blank)) noWs)

theorem json_complete_iff_sample :
    valueScans sampleObject ∧ sampleObject.bytes = ascii "\x7b\"a\": [1 ]\x7d" ∧
    ∀ lastRead opcode framingData config, (framingJson : WsFraming Unit)
      (some ([32] ++ sampleObject.bytes ++ ascii "]" ++ [0]))
      ([32] ++ sampleObject.bytes ++ ascii "]").length lastRead (some opcode) framingData config =
        (((1 + sampleObject.bytes.length : Nat) : Int), some .text, framingData) :=
  ⟨by decide, by decide, (json_complete_iff blank sampleObject rfl (ascii "]")).mpr
    (by decide)⟩

/-- An accent, a backslash at the end of a string, and a line feed behind a number: each time
`framing_json` takes the text for something else than JSON, or for the beginning of it. -/
theorem json_complete_fails :
    sampleAccent.bytes = [34, 195, 169, 34] ∧
    framingJson (some (sampleAccent.bytes ++ [0])) 4 4 (some .binary) (none : Option Unit) none =
      (4, some .binary, none) ∧
    sampleSlash.bytes = [34, 92, 92, 34] ∧
    framingJson (some (sampleSlash.bytes ++ [0])) 4 4 (some .binary) (none : Option Unit) none =
      (0, some .binary, none) ∧
    sampleBreak.bytes = [91, 49, 10, 93] ∧
    framingJson (some (sampleBreak.bytes ++ [0])) 4 4 (some .binary) (none : Option Unit) none =
      (4, some .binary, none) := by
  decide +kernel

end Websocksy

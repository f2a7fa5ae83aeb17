import Websocksy.ConfigAgreement

/-!
# Configuration files as they are written

A configuration file is a list of sections with pairs of a key and a value.  It can be laid out
with blanks around keys and values, blank lines, and no newline at its end.  Parsing it passes
the pairs to `config_file_line` and to the `configure` function of the backend, in their order.
-/

namespace Websocksy

open Buffer CString

variable {β : Type}

/-! ## Layouts -/

/-- Spaces and tabs. -/
abbrev Blanks := {w : Bytes // ∀ c ∈ w, c = 32 ∨ c = 9}

/-- A key: one line, with no blanks around it, no `=`, and no `[` at its start. -/
abbrev SettingKey := {k : Bytes // k ≠ [] ∧ OnLine k ∧ 61 ∉ k ∧ k.head? ≠ some 91}

/-- A pair, with the blanks around its parts. -/
structure PrintedPair where
  key : SettingKey
  value : OptionValue
  beforeKey : Blanks
  afterKey : Blanks
  beforeValue : Blanks
  afterValue : Blanks

inductive ConfigLine
  | header (configSection : ConfigFileSection) (after : Blanks)
  | blank (blanks : Blanks)
  | pair (p : PrintedPair)

structure PrintedSection where
  configSection : ConfigFileSection
  afterHeader : Blanks
  body : List (Blanks ⊕ PrintedPair)

structure PrintedConfig where
  leading : List Blanks
  sections : List PrintedSection
  finalNewline : Bool

def ConfigFileSection.header : ConfigFileSection → Bytes
  | .cfgMain => ascii "[core]"
  | .cfgBackend => ascii "[backend]"

def ConfigLine.text : ConfigLine → Bytes
  | .header configSection after => configSection.header ++ after.val
  | .blank blanks => blanks.val
  | .pair p => p.beforeKey.val ++ (p.key.val ++ (p.afterKey.val ++
      61 :: (p.beforeValue.val ++ (p.value.val ++ p.afterValue.val))))

def PrintedSection.lines (sec : PrintedSection) : List ConfigLine :=
  .header sec.configSection sec.afterHeader :: sec.body.map (Sum.elim .blank .pair)

def PrintedConfig.lines (f : PrintedConfig) : List ConfigLine :=
  f.leading.map .blank ++ f.sections.flatMap PrintedSection.lines

/-- The lines, the last of them with a newline or without. -/
def joinLines (finalNewline : Bool) : List ConfigLine → Bytes
  | [] => []
  | [l] => l.text ++ if finalNewline then [10] else []
  | l :: lines => l.text ++ 10 :: joinLines finalNewline lines

def PrintedConfig.text (f : PrintedConfig) : Bytes := joinLines f.finalNewline f.lines

/-- The pairs of a file, each with its section. -/
def PrintedConfig.pairs (f : PrintedConfig) : List (ConfigFileSection × Bytes × Bytes) :=
  f.sections.flatMap fun sec => sec.body.filterMap <| Sum.elim (fun _ => none) fun p =>
    some (sec.configSection, p.key.val, p.value.val)

/-- Each pair in turn is passed to the function of its section, up to a call that fails.  A
backend with no `configure` function cannot be called. -/
def passPairs (plugins : Plugins β) :
    List (ConfigFileSection × Bytes × Bytes) → ConfigRun β → Option (Bool × ConfigRun β)
  | [], s => some (false, s)
  | (configSection, key, value) :: pairs, s =>
    match configSectionLine plugins key value s configSection with
    | none => none
    | some (true, s) => some (true, s)
    | some (false, s) => passPairs plugins pairs s

section

variable {plugins : Plugins β} {s : ConfigRun β} {w x : Bytes}

/-! ## Trimming -/

theorem Blanks.isspace (w : Blanks) : ∀ c ∈ w.val, isspace c = true := by
  intro c hc
  rcases w.property c hc with rfl | rfl
  · decide
  · decide

theorem Blanks.notMem (w : Blanks) {c : UInt8} (h32 : c ≠ 32) (h9 : c ≠ 9) : c ∉ w.val := by
  intro hc
  rcases w.property c hc with h | h
  · exact h32 h
  · exact h9 h

theorem rdropWhile_blank (hw : ∀ c ∈ w, isspace c = true) (x : Bytes) :
    (x ++ w).rdropWhile isspace = x.rdropWhile isspace := by
  unfold List.rdropWhile
  rw [List.reverse_append, List.dropWhile_append_of_pos]
  intro c hc
  exact hw c (List.mem_reverse.mp hc)

/-- Blanks behind a text go. -/
theorem rtrimTail_append (hx : x ≠ []) (hlast : x.getLast?.any isspace = false)
    (hw : ∀ c ∈ w, isspace c = true) : rtrimTail (x ++ w) = x := by
  cases x with
  | nil => exact absurd rfl hx
  | cons c x =>
      rw [List.cons_append, rtrimTail, rdropWhile_blank hw]
      exact rtrimTail_trimmed hlast

theorem rtrimTail_blank (hw : ∀ c ∈ w, isspace c = true) : (rtrimTail w).length ≤ 1 := by
  cases w with
  | nil => exact Nat.zero_le 1
  | cons c w =>
      have hnil := rdropWhile_blank (fun d hd => hw d (List.mem_cons_of_mem c hd)) []
      rw [List.nil_append] at hnil
      rw [rtrimTail, hnil]
      exact Nat.le_refl 1

/-- Blanks in front of a text go. -/
theorem ltrim_append (hw : ∀ c ∈ w, isspace c = true) (hx : x.head?.any isspace = false) :
    ltrim (w ++ x) = x := by
  show (w ++ x).dropWhile isspace = x
  rw [List.dropWhile_append_of_pos hw]
  exact ltrim_trimmed hx

/-! ## One line -/

/-- What follows a line. -/
def LineEnd (e : Bytes) : Prop := e = [10] ∨ e = []

theorem LineEnd.isspace {e : Bytes} (he : LineEnd e) : ∀ c ∈ e, isspace c = true := by
  intro c hc
  rcases he with rfl | rfl
  · rw [List.mem_singleton.mp hc]
    decide
  · cases hc

theorem configParseLine_header (configSection' : ConfigFileSection) (rest : Bytes)
    (configSection : ConfigFileSection) :
    configParseLine plugins (configSection'.header ++ rest) configSection s =
      some (false, configSection', s) := by
  have hstart (lit : Bytes) : strncmp (lit ++ rest) lit = true :=
    List.isPrefixOf_iff_prefix.mpr (List.prefix_append lit rest)
  unfold configParseLine ConfigFileSection.header
  cases configSection' with
  | cfgMain => rw [if_pos (hstart _)]
  | cfgBackend =>
      have hcore : strncmp (ascii "[backend]" ++ rest) (ascii "[core]") = false := rfl
      dsimp only
      rw [hcore, if_neg Bool.false_ne_true, if_pos (hstart _)]

/-- A line that starts with no `[` is none of the headers. -/
theorem strncmp_header {line : Bytes} (h : line.head? ≠ some 91) :
    strncmp line (ascii "[core]") = false ∧ strncmp line (ascii "[backend]") = false := by
  cases line with
  | nil => exact ⟨rfl, rfl⟩
  | cons c line =>
      have hc : (91 == c) = false := beq_false_of_ne fun e => h (by rw [← e]; rfl)
      have hcore : strncmp (c :: line) (ascii "[core]") =
        (91 == c && (ascii "core]").isPrefixOf line) := rfl
      have hbackend : strncmp (c :: line) (ascii "[backend]") =
        (91 == c && (ascii "backend]").isPrefixOf line) := rfl
      rw [hcore, hbackend, hc, Bool.false_and, Bool.false_and]
      exact ⟨rfl, rfl⟩

theorem configParseLine_blank (hw : ∀ c ∈ w, isspace c = true) (configSection : ConfigFileSection) :
    configParseLine plugins w configSection s = some (false, configSection, s) := by
  have hhead : w.head? ≠ some 91 := by
    intro h
    have := hw 91 (List.mem_of_mem_head? h)
    exact absurd this (by decide)
  unfold configParseLine
  rw [(strncmp_header hhead).1, (strncmp_header hhead).2, if_neg Bool.false_ne_true,
    if_neg Bool.false_ne_true]
  exact if_pos (rtrimTail_blank hw)

/-- What stays behind the `=` when the line is trimmed: the value, if there is one, with the
blanks in front of it. -/
theorem exists_trimmed (value : OptionValue) (beforeValue afterValue : Blanks) {e : Bytes}
    (he : LineEnd e) :
    ∃ kept cut, beforeValue.val ++ (value.val ++ (afterValue.val ++ e)) = kept ++ cut ∧
      (∀ c ∈ cut, isspace c = true) ∧ kept.getLast?.any isspace = false ∧ 0 ∉ kept ∧
      ltrim kept = value.val := by
  obtain ⟨value, hnul, -, hfirst, hlast⟩ := value
  have hend : ∀ c ∈ afterValue.val ++ e, isspace c = true := by
    intro c hc
    rcases List.mem_append.mp hc with hc | hc
    · exact afterValue.isspace c hc
    · exact he.isspace c hc
  cases value with
  | nil =>
      refine ⟨[], beforeValue.val ++ (afterValue.val ++ e), rfl, ?_, rfl, List.not_mem_nil, rfl⟩
      intro c hc
      rcases List.mem_append.mp hc with hc | hc
      · exact beforeValue.isspace c hc
      · exact hend c hc
  | cons c v =>
      refine ⟨beforeValue.val ++ c :: v, afterValue.val ++ e, by simp, hend, ?_, ?_, ?_⟩
      · rwa [List.getLast?_append_of_ne_nil _ (List.cons_ne_nil c v)]
      · rw [List.mem_append, not_or]
        exact ⟨beforeValue.notMem (by decide) (by decide), hnul⟩
      · exact ltrim_append beforeValue.isspace hfirst

/-- **The line of a pair** is taken for its key and its value, however it is laid out. -/
theorem configParseLine_pair (p : PrintedPair) {e : Bytes} (he : LineEnd e)
    (configSection : ConfigFileSection) :
    configParseLine plugins ((ConfigLine.pair p).text ++ e) configSection s =
      (configSectionLine plugins p.key.val p.value.val s configSection).map fun r =>
        (r.1, configSection, r.2) := by
  obtain ⟨⟨key, hne, ⟨hnul, -, hfirst, hlast⟩, heq, hbracket⟩, value, beforeKey, afterKey,
    beforeValue, afterValue⟩ := p
  obtain ⟨kept, cut, hvalue, hcut, hkept, hnulkept, hltrim⟩ :=
    exists_trimmed value beforeValue afterValue he
  have hline : (ConfigLine.pair ⟨⟨key, hne, ⟨hnul, ‹_›, hfirst, hlast⟩, heq, hbracket⟩, value,
      beforeKey, afterKey, beforeValue, afterValue⟩).text ++ e =
      (beforeKey.val ++ (key ++ (afterKey.val ++ 61 :: kept))) ++ cut := by
    simp only [ConfigLine.text, List.append_assoc, List.cons_append, hvalue]
  rw [hline]
  generalize hx : beforeKey.val ++ (key ++ (afterKey.val ++ 61 :: kept)) = x
  have hhead : (x ++ cut).head? ≠ some 91 := by
    rw [← hx]
    obtain ⟨c, k, rfl⟩ := List.exists_cons_of_ne_nil hne
    rcases hw : beforeKey.val with - | ⟨d, w⟩
    · exact hbracket
    · rintro h
      have hd : d = 91 := Option.some.inj h
      exact beforeKey.notMem (c := 91) (by decide) (by decide)
        (by rw [hw, hd]; exact List.mem_cons_self)
  have hrtrim : rtrimTail (x ++ cut) = x := by
    refine rtrimTail_append (by rw [← hx]; simp) ?_ hcut
    rw [← hx, ← List.append_assoc, ← List.append_assoc,
      List.getLast?_append_of_ne_nil _ (List.cons_ne_nil 61 kept)]
    cases kept with
    | nil => rfl
    | cons c v => rwa [List.getLast?_cons_of_ne_nil (List.cons_ne_nil c v)]
  have hlong : ¬x.length ≤ 1 := by
    have hkey := List.length_pos_iff.mpr hne
    rw [← hx]
    simp only [List.length_append, List.length_cons]
    omega
  have hcstr : cstr x = x := by
    refine cstr_eq_self x ?_
    rw [← hx]
    simp [hnul, hnulkept, beforeKey.notMem (c := 0) (by decide) (by decide),
      afterKey.notMem (c := 0) (by decide) (by decide)]
  have hsplit : strchr 61 (ltrim x) = some (key ++ afterKey.val, kept) := by
    have hkeyfirst : (key ++ (afterKey.val ++ 61 :: kept)).head?.any isspace = false := by
      obtain ⟨c, k, rfl⟩ := List.exists_cons_of_ne_nil hne
      exact hfirst
    rw [← hx, ltrim_append beforeKey.isspace hkeyfirst, ← List.append_assoc]
    refine strchr_append ?_ kept
    rw [List.mem_append, not_or]
    exact ⟨heq, afterKey.notMem (by decide) (by decide)⟩
  have hkey : rtrimTail (key ++ afterKey.val) = key := rtrimTail_append hne hlast afterKey.isspace
  unfold configParseLine
  rw [(strncmp_header hhead).1, (strncmp_header hhead).2, if_neg Bool.false_ne_true,
    if_neg Bool.false_ne_true]
  simp only [hrtrim, if_neg hlong, hcstr, hsplit, hkey, hltrim]

/-! ## Files -/

/-- What a line does in a section. -/
def ConfigLine.pass (plugins : Plugins β) (configSection : ConfigFileSection) (s : ConfigRun β) :
    ConfigLine → Option (Bool × ConfigFileSection × ConfigRun β)
  | .header configSection' _ => some (false, configSection', s)
  | .blank _ => some (false, configSection, s)
  | .pair p => (configSectionLine plugins p.key.val p.value.val s configSection).map fun r =>
      (r.1, configSection, r.2)

theorem configParseLine_text (l : ConfigLine) {e : Bytes} (he : LineEnd e)
    (configSection : ConfigFileSection) :
    configParseLine plugins (l.text ++ e) configSection s = l.pass plugins configSection s := by
  cases l with
  | header configSection' after =>
      rw [ConfigLine.text, List.append_assoc]
      exact configParseLine_header configSection' _ configSection
  | blank blanks =>
      refine configParseLine_blank ?_ configSection
      intro c hc
      rcases List.mem_append.mp hc with hc | hc
      · exact blanks.isspace c hc
      · exact he.isspace c hc
  | pair p => exact configParseLine_pair p he configSection

theorem ConfigLine.text_notMem (l : ConfigLine) : 10 ∉ l.text := by
  have hblanks (w : Blanks) : 10 ∉ w.val := w.notMem (by decide) (by decide)
  cases l with
  | header configSection after =>
      have hheader : 10 ∉ configSection.header := by cases configSection <;> decide
      simp [ConfigLine.text, hheader, hblanks]
  | blank blanks => exact hblanks blanks
  | pair p => simp [ConfigLine.text, hblanks, p.key.property.2.1.2.1, p.value.property.2.1]

/-- The pairs of lines that follow in a section. -/
def linePairs : ConfigFileSection → List ConfigLine → List (ConfigFileSection × Bytes × Bytes)
  | _, [] => []
  | _, .header configSection _ :: lines => linePairs configSection lines
  | configSection, .blank _ :: lines => linePairs configSection lines
  | configSection, .pair p :: lines =>
    (configSection, p.key.val, p.value.val) :: linePairs configSection lines

/-- A last line with no newline. -/
theorem getLines_last {line : Bytes} (h : 10 ∉ line) :
    getLines line = if line = [] then [] else [line] := by
  induction line with
  | nil => rfl
  | cons c line ih =>
      rw [List.mem_cons, not_or] at h
      rw [getLines, if_neg fun e => h.1 e.symm, ih h.2, if_neg (List.cons_ne_nil c line)]
      cases line with
      | nil => rfl
      | cons d line => rfl

/-- One line in front of the others. -/
theorem configParseLines_cons (l : ConfigLine) (lines : List ConfigLine) {rest : List Bytes} {e : Bytes}
    (he : LineEnd e) (configSection : ConfigFileSection)
    (hrest : ∀ configSection s, configParseLines plugins rest configSection s =
      passPairs plugins (linePairs configSection lines) s) :
    configParseLines plugins ((l.text ++ e) :: rest) configSection s =
      passPairs plugins (linePairs configSection (l :: lines)) s := by
  rw [configParseLines, configParseLine_text l he]
  cases l with
  | header configSection' after => exact hrest configSection' s
  | blank blanks => exact hrest configSection s
  | pair p =>
      rw [ConfigLine.pass, linePairs, passPairs]
      cases configSectionLine plugins p.key.val p.value.val s configSection with
      | none => rfl
      | some r =>
          obtain ⟨failed, s'⟩ := r
          cases failed with
          | true => rfl
          | false => exact hrest configSection s'

/-- **The lines of a file** pass on their pairs. -/
theorem configParseLines_joined (finalNewline : Bool) (lines : List ConfigLine)
    (configSection : ConfigFileSection) (s : ConfigRun β) :
    configParseLines plugins (getLines (joinLines finalNewline lines)) configSection s =
      passPairs plugins (linePairs configSection lines) s := by
  induction lines generalizing configSection s with
  | nil => rfl
  | cons l lines ih =>
      cases lines with
      | nil =>
          have hnone : ∀ configSection s, configParseLines plugins [] configSection s =
            passPairs plugins (linePairs configSection []) s := fun _ _ => rfl
          cases finalNewline with
          | true =>
              have hgetLines := getLines_line l.text_notMem []
              show configParseLines plugins (getLines (l.text ++ [10])) _ _ = _
              rw [hgetLines]
              exact configParseLines_cons l [] (.inl rfl) configSection hnone
          | false =>
              show configParseLines plugins (getLines (l.text ++ [])) _ _ = _
              rw [List.append_nil, getLines_last l.text_notMem]
              have hlast := configParseLines_cons (s := s) l [] (.inr rfl) configSection hnone
              rw [List.append_nil] at hlast
              split
              · next hempty =>
                -- nothing is read, and an empty line would be passed over
                rw [← hlast, hempty]
                rfl
              · exact hlast
      | cons l' lines =>
          show configParseLines plugins (getLines (l.text ++ 10 :: joinLines finalNewline (l' :: lines)))
            _ _ = _
          rw [getLines_line l.text_notMem]
          exact configParseLines_cons l (l' :: lines) (.inl rfl) configSection ih

theorem linePairs_body (configSection : ConfigFileSection) (body : List (Blanks ⊕ PrintedPair))
    (lines : List ConfigLine) :
    linePairs configSection (body.map (Sum.elim .blank .pair) ++ lines) =
      body.filterMap (Sum.elim (fun _ => none) fun p =>
        some (configSection, p.key.val, p.value.val)) ++ linePairs configSection lines := by
  induction body with
  | nil => rfl
  | cons item body ih =>
      cases item with
      | inl blanks => exact ih
      | inr p => exact congrArg ((configSection, p.key.val, p.value.val) :: ·) ih

/-- The pairs of the lines of a file are those of its sections. -/
theorem linePairs_lines (f : PrintedConfig) (configSection : ConfigFileSection) :
    linePairs configSection f.lines = f.pairs := by
  obtain ⟨leading, sections, finalNewline⟩ := f
  unfold PrintedConfig.lines PrintedConfig.pairs
  induction leading with
  | cons blanks leading ih => exact ih
  | nil =>
      dsimp only
      rw [List.map_nil, List.nil_append]
      induction sections generalizing configSection with
      | nil => rfl
      | cons sec sections ih =>
          rw [List.flatMap_cons, List.flatMap_cons, PrintedSection.lines, List.cons_append, linePairs,
            linePairs_body, ih]

end

end Websocksy

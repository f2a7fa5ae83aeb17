import Websocksy.Subprotocols
import Websocksy.ConfigLayout
import Mathlib.Data.List.Infix

/-!
# The spelling of header fields

`ws_handle_http` compares the names of fields with `strcmp`, and takes off the blanks behind a
value only where the value is a key or a subprotocol.  What the handshake makes of a field then
depends on how it is spelled: on the case of its name, and on the blanks around its value.
-/

namespace Websocksy

open Buffer CString

variable {φ : Type}

/-! ## Spellings and outcomes -/

/-- A value, with no NUL in it and no blanks around it. -/
abbrev FieldValue :=
  {v : Bytes // 0 ∉ v ∧ (∀ c ∈ v.head?, c ≠ 32 ∧ c ≠ 9) ∧ ∀ c ∈ v.getLast?, c ≠ 32 ∧ c ≠ 9}

structure SpelledField where
  name : FieldName
  before : Blanks
  value : FieldValue
  after : Blanks

theorem nul_notMem_blanks (w : Blanks) : 0 ∉ w.val := by
  intro h
  rcases w.property 0 h with h0 | h0 <;> cases h0

def SpelledField.field (f : SpelledField) : HeaderField where
  name := f.name
  text := f.before.val ++ (f.value.val ++ f.after.val)
  nul_notMem := by
    rw [List.mem_append, List.mem_append, not_or, not_or]
    exact ⟨nul_notMem_blanks f.before, f.value.property.1, nul_notMem_blanks f.after⟩

/-- The same field, with another case of the name or other blanks. -/
def SpelledField.Varies (f f' : SpelledField) : Prop :=
  f.name.val.map tolower = f'.name.val.map tolower ∧ f.value = f'.value

/-- What the handshake keeps of the header fields. -/
structure Negotiated where
  websocketVersion : Nat := 0
  socketKey : Option Bytes := none
  wantUpgrade : Nat := 0
  protocol : List Bytes := []
  deriving DecidableEq

def Websocket.negotiated (ws : Websocket φ) : Negotiated where
  websocketVersion := ws.websocketVersion
  socketKey := ws.socketKey
  wantUpgrade := ws.wantUpgrade
  protocol := ws.protocol

/-- What `ws_upgrade_http` does at the end of the header. -/
inductive Decision
  | upgrade
  | unsupportedVersion
  | nothing
  deriving DecidableEq

/-- `ws_upgrade_http` on this connection does so. -/
def Decision.Made (env : Env φ) (s : Conn φ) (d : Decision) : Prop :=
  wsUpgradeHttp env s = match d with
    | .upgrade => upgradeWith env (upgradeResponse env (clientConnect env s).2.ws) s
    | .unsupportedVersion =>
      (false, wsClose env .http (some (ascii "426 Unsupported protocol version")) s)
    | .nothing => (true, s)

/-- After either list of fields, a connection behind its request line has the same outcome, and
the same decision is made. -/
def SameOutcome (φ : Type) (fields fields' : List HeaderField) : Prop :=
  ∀ (env : Env φ) (s : Conn φ), s.ws.state = .wsHttp → s.ws.negotiated = {} →
    let t := handleFields env fields s
    let t' := handleFields env fields' s
    t.ws.negotiated = t'.ws.negotiated ∧ ∃ d : Decision, d.Made env t ∧ d.Made env t'

/-- The value as it is handled, without characters of white space in front. -/
def SpelledField.core (f : SpelledField) : Bytes := ltrim f.value.val

/-- No protocol in the field. -/
def SpelledField.ListsNothing (f : SpelledField) : Prop :=
  strtok 44 f.core = [] ∧ (f.core.getLast? = some 44 → f.after.val = [])

/-- The value ends with a comma, and none of its tokens consists of blanks. -/
def SpelledField.EndsList (f : SpelledField) : Prop :=
  f.core.getLast? = some 44 ∧ ∀ t ∈ strtok 44 f.core, trim t ≠ []

/-- A difference in spelling that never shows. -/
structure SpelledField.Harmless (f f' : SpelledField) : Prop where
  version : f.name.val = ascii "Sec-WebSocket-Version" ↔ f'.name.val = ascii "Sec-WebSocket-Version"
  key : f.name.val = ascii "Sec-WebSocket-Key" ↔ f'.name.val = ascii "Sec-WebSocket-Key"
  upgrade : strcasecmp f.core (ascii "websocket") →
    (f.name.val = ascii "Upgrade" ∧ f.after.val = [] ↔
      f'.name.val = ascii "Upgrade" ∧ f'.after.val = [])
  connection : strstr (f.core.map tolower) (ascii "upgrade") →
    (f.name.val = ascii "Connection" ↔ f'.name.val = ascii "Connection")
  protocol : f.name.val = ascii "Sec-WebSocket-Protocol" ∧ ¬f.ListsNothing ↔
    f'.name.val = ascii "Sec-WebSocket-Protocol" ∧ ¬f'.ListsNothing
  lastToken : f.name.val = ascii "Sec-WebSocket-Protocol" →
    f'.name.val = ascii "Sec-WebSocket-Protocol" → f.EndsList →
    (f.after.val = [] ↔ f'.after.val = [])

section

/-! ## Blanks behind a value -/

variable {v w : Bytes}

theorem ltrim_blanks (hw : ∀ c ∈ w, isspace c = true) (v : Bytes) :
    ltrim (v ++ w) = if ltrim v = [] then [] else ltrim v ++ w := by
  show (v ++ w).dropWhile isspace = _
  rw [List.dropWhile_append]
  by_cases hv : ltrim v = []
  · have hnil : v.dropWhile isspace = [] := hv
    rw [if_pos hv, hnil, List.isEmpty_nil, if_pos rfl]
    exact List.dropWhile_eq_nil_iff.mpr hw
  · have hne : (v.dropWhile isspace).isEmpty = false := List.isEmpty_eq_false_iff.mpr hv
    rw [if_neg hv, hne]
    rfl

theorem rtrim_blanks (hw : ∀ c ∈ w, isspace c = true) (v : Bytes) : rtrim (v ++ w) = rtrim v :=
  rdropWhile_blank hw v

theorem trim_blanks (hw : ∀ c ∈ w, isspace c = true) (v : Bytes) : trim (v ++ w) = trim v := by
  unfold trim
  rw [ltrim_blanks hw]
  by_cases hv : ltrim v = []
  · rw [if_pos hv, hv]
  · rw [if_neg hv, rtrim_blanks hw]

theorem not_isdigit {c : UInt8} (hc : isspace c = true) : isdigit c = false := by
  unfold isspace at hc
  unfold isdigit
  grind

theorem takeWhile_blanks (hw : ∀ c ∈ w, isspace c = true) (v : Bytes) :
    (v ++ w).takeWhile isdigit = v.takeWhile isdigit := by
  induction v with
  | nil =>
      cases w with
      | nil => rfl
      | cons c w =>
          rw [List.nil_append, List.takeWhile_cons, not_isdigit (hw c List.mem_cons_self)]
          rfl
  | cons c v ih => rw [List.cons_append, List.takeWhile_cons, List.takeWhile_cons, ih]

/-- A number ends before the blanks. -/
theorem strtoul10_blanks (hw : ∀ c ∈ w, isspace c = true) (v : Bytes) :
    strtoul10 (v ++ w) = strtoul10 v := by
  have hdigits (u : Bytes) : digitsValue (u ++ w) = digitsValue u := by
    unfold digitsValue
    rw [takeWhile_blanks hw]
  unfold strtoul10
  rw [ltrim_blanks hw]
  cases hv : ltrim v with
  | nil => rfl
  | cons c u =>
      rw [if_neg (List.cons_ne_nil c u), List.cons_append]
      dsimp only
      rw [List.head?_cons, List.head?_cons, List.tail_cons, List.tail_cons]
      split
      · rw [hdigits]
      · rw [← List.cons_append, hdigits]

theorem strcasecmp_blanks (w : Blanks) (v : Bytes) :
    strcasecmp (v ++ w.val) (ascii "websocket") = true ↔
      strcasecmp v (ascii "websocket") = true ∧ w.val = [] := by
  constructor
  · intro h
    have heq : v.map tolower ++ w.val.map tolower = (ascii "websocket").map tolower := by
      rw [← List.map_append]
      exact eq_of_beq h
    -- no letter of `websocket` is a blank
    have hnil : w.val = [] := by
      rw [List.eq_nil_iff_forall_not_mem]
      intro c hc
      have hmem : tolower c ∈ (ascii "websocket").map tolower := by
        rw [← heq]
        exact List.mem_append_right _ (List.mem_map_of_mem hc)
      rcases w.property c hc with rfl | rfl
      · exact absurd hmem (by decide +kernel)
      · exact absurd hmem (by decide +kernel)
    rw [hnil, List.append_nil] at h
    exact ⟨h, hnil⟩
  · rintro ⟨h, hnil⟩
    rw [hnil, List.append_nil]
    exact h

/-- What has no blank in it stands before the blanks. -/
theorem infix_blanks {t : Bytes} (hw : ∀ c ∈ w, c ∉ t) (ht : t ≠ []) :
    t <:+: v ++ w ↔ t <:+: v := by
  constructor
  · intro h
    induction w using List.reverseRecOn with
    | nil => rwa [List.append_nil] at h
    | append_singleton w c ih =>
        refine ih (fun d hd => hw d (List.mem_append_left _ hd)) ?_
        rw [← List.append_assoc, List.infix_concat_iff] at h
        rcases h with hsuffix | h
        · have hc := hw c (List.mem_append_right _ List.mem_cons_self)
          rcases List.suffix_concat_iff.mp hsuffix with hnil | ⟨u, rfl, -⟩
          · exact absurd hnil ht
          · exact absurd (List.mem_append_right u List.mem_cons_self) hc
        · exact h
  · intro h
    exact h.trans (List.prefix_append v w).isInfix

theorem strstr_infix (s t : Bytes) : strstr s t = true ↔ t <:+: s := by
  unfold strstr
  rw [List.any_eq_true, List.infix_iff_prefix_suffix]
  constructor
  · rintro ⟨u, hu, hp⟩
    exact ⟨u, List.isPrefixOf_iff_prefix.mp hp, (List.mem_tails _ _).mp hu⟩
  · rintro ⟨u, hp, hu⟩
    exact ⟨u, (List.mem_tails _ _).mpr hu, List.isPrefixOf_iff_prefix.mpr hp⟩

/-- The last token is the one with the blanks behind it. -/
theorem splitOn_blanks (hw : 44 ∉ w) (v : Bytes) : ∃ front last,
    v.splitOn 44 = front ++ [last] ∧ (v ++ w).splitOn 44 = front ++ [last ++ w] ∧
      (last = [] ↔ v = [] ∨ v.getLast? = some 44) := by
  by_cases hv : 44 ∈ v
  · -- the last comma of the value
    obtain ⟨as, bs, hrev, has⟩ := List.eq_append_cons_of_mem (List.mem_reverse.mpr hv)
    have heq : v = bs.reverse ++ 44 :: as.reverse := by
      rw [← List.reverse_reverse v, hrev]
      simp
    have hlast : 44 ∉ as.reverse := by simpa using has
    subst heq
    refine ⟨bs.reverse.splitOn 44, as.reverse, ?_, ?_, ?_⟩
    · rw [List.splitOn_append_cons_self, List.splitOn_eq_singleton hlast]
    · have hlast' : 44 ∉ as.reverse ++ w := by
        rw [List.mem_append, not_or]
        exact ⟨hlast, hw⟩
      rw [List.append_assoc, List.cons_append, List.splitOn_append_cons_self,
        List.splitOn_eq_singleton hlast']
    · constructor
      · intro hnil
        rw [hnil]
        exact .inr List.getLast?_concat
      · rintro (hnil | hcomma)
        · exact absurd hnil (by simp)
        · cases hu : as.reverse using List.reverseRecOn with
          | nil => rfl
          | append_singleton u c =>
              rw [hu] at hcomma hlast
              rw [← List.cons_append, ← List.append_assoc, List.getLast?_concat] at hcomma
              rw [Option.some.inj hcomma] at hlast
              exact absurd (List.mem_append_right u List.mem_cons_self) hlast
  · refine ⟨[], v, List.splitOn_eq_singleton hv, List.splitOn_eq_singleton ?_, ?_⟩
    · rw [List.mem_append, not_or]
      exact ⟨hv, hw⟩
    · constructor
      · intro hnil
        exact .inl hnil
      · rintro (hnil | hcomma)
        · exact hnil
        · exact absurd (List.mem_of_getLast? hcomma) hv

/-- Blanks behind a value are a token of their own after a comma. -/
theorem strtok_blanks (hw : ∀ c ∈ w, isspace c = true) (hv : v ≠ []) :
    (strtok 44 (v ++ w)).map trim =
      (strtok 44 v).map trim ++ if v.getLast? = some 44 ∧ w ≠ [] then [[]] else [] := by
  have hcomma : 44 ∉ w := fun h => absurd (hw 44 h) (by decide)
  obtain ⟨front, last, hsplit, hsplit', hlast⟩ := splitOn_blanks hcomma v
  unfold strtok
  rw [hsplit, hsplit', List.filter_append, List.filter_append, List.map_append, List.map_append,
    List.append_assoc]
  congr 1
  by_cases hnil : last = []
  · have hend : v.getLast? = some 44 := (hlast.mp hnil).resolve_left hv
    subst hnil
    cases w with
    | nil => simp
    | cons c w =>
        have htrim : trim (c :: w) = [] := by
          have h := trim_blanks hw []
          rwa [List.nil_append] at h
        simp [hend, htrim]
  · have hend : ¬v.getLast? = some 44 := fun h => hnil (hlast.mpr (.inr h))
    obtain ⟨c, u, rfl⟩ := List.exists_cons_of_ne_nil hnil
    rw [if_neg fun h => hend h.1, List.append_nil]
    show [trim (c :: u ++ w)] = [trim (c :: u)]
    rw [trim_blanks hw]

/-! ## A field as it is handled -/

namespace SpelledField

variable (f f' : SpelledField)

theorem apply_field (ws : Websocket φ) :
    f.field.apply ws = wsHeader f.name.val (ltrim f.field.text) ws := rfl

theorem ltrim_text :
    ltrim f.field.text = if f.core = [] then [] else f.core ++ f.after.val := by
  show (f.before.val ++ (f.value.val ++ f.after.val)).dropWhile isspace = _
  rw [List.dropWhile_append_of_pos f.before.isspace]
  exact ltrim_blanks f.after.isspace f.value.val

theorem text_version : strtoul10 (ltrim f.field.text) = strtoul10 f.core := by
  rw [ltrim_text]
  by_cases hc : f.core = []
  · rw [if_pos hc, hc]
  · rw [if_neg hc, strtoul10_blanks f.after.isspace]

theorem text_key : rtrim (ltrim f.field.text) = rtrim f.core := by
  rw [ltrim_text]
  by_cases hc : f.core = []
  · rw [if_pos hc, hc]
  · rw [if_neg hc, rtrim_blanks f.after.isspace]

theorem text_upgrade : strcasecmp (ltrim f.field.text) (ascii "websocket") = true ↔
    strcasecmp f.core (ascii "websocket") = true ∧ f.after.val = [] := by
  rw [ltrim_text]
  by_cases hc : f.core = []
  · rw [if_pos hc, hc]
    have hno : ¬strcasecmp [] (ascii "websocket") = true := by decide +kernel
    exact ⟨fun h => absurd h hno, fun h => absurd h.1 hno⟩
  · rw [if_neg hc]
    exact strcasecmp_blanks f.after f.core

theorem text_connection :
    strstr ((ltrim f.field.text).map tolower) (ascii "upgrade") = true ↔
      strstr (f.core.map tolower) (ascii "upgrade") = true := by
  rw [ltrim_text]
  by_cases hc : f.core = []
  · rw [if_pos hc, hc]
  · rw [if_neg hc, List.map_append, strstr_infix, strstr_infix]
    refine infix_blanks ?_ (by decide +kernel)
    intro c hc
    obtain ⟨d, hd, rfl⟩ := List.mem_map.mp hc
    rcases f.after.property d hd with rfl | rfl <;> decide +kernel

/-- The protocols in the field. -/
def listed : List Bytes := (strtok 44 (ltrim f.field.text)).map trim

theorem listed_eq : f.listed = (strtok 44 f.core).map trim ++
    if f.core.getLast? = some 44 ∧ f.after.val ≠ [] then [[]] else [] := by
  unfold listed
  rw [ltrim_text]
  by_cases hc : f.core = []
  · rw [if_pos hc, hc]
    rfl
  · rw [if_neg hc]
    exact strtok_blanks f.after.isspace hc

theorem listed_nil : f.listed = [] ↔ f.ListsNothing := by
  rw [listed_eq, List.append_eq_nil_iff, List.map_eq_nil_iff]
  unfold ListsNothing
  refine and_congr_right fun _ => ?_
  by_cases hend : f.core.getLast? = some 44 ∧ f.after.val ≠ []
  · rw [if_pos hend]
    exact ⟨fun h => absurd h (List.cons_ne_nil _ _), fun h => absurd (h hend.1) hend.2⟩
  · rw [if_neg hend]
    exact ⟨fun _ hcomma => Classical.byContradiction fun hne => hend ⟨hcomma, hne⟩, fun _ => rfl⟩

end SpelledField

/-! ## Protocols that are added -/

def addTrimmed (protocol : List Bytes) (value : Bytes) : List Bytes :=
  if protocol.contains value then protocol else protocol ++ [value]

theorem addProtocol_eq (protocol : List Bytes) (token : Bytes) :
    addProtocol protocol token = addTrimmed protocol (trim token) :=
  if_congr List.contains_iff_mem.symm rfl rfl

theorem foldl_addTrimmed (tokens known : List Bytes) :
    tokens.foldl addProtocol known = (tokens.map trim).foldl addTrimmed known := by
  rw [List.foldl_map]
  congr 1
  funext protocol token
  exact addProtocol_eq protocol token

theorem mem_addTrimmed (values known : List Bytes) (t : Bytes) :
    t ∈ values.foldl addTrimmed known ↔ t ∈ known ∨ t ∈ values := by
  induction values generalizing known with
  | nil => simp
  | cons value values ih =>
      rw [List.foldl_cons, ih]
      unfold addTrimmed
      by_cases hv : value ∈ known
      · rw [if_pos (List.contains_iff_mem.mpr hv), List.mem_cons]
        constructor
        · rintro (h | h)
          · exact .inl h
          · exact .inr (.inr h)
        · rintro (h | rfl | h)
          · exact .inl h
          · exact .inl hv
          · exact .inr h
      · rw [if_neg fun h => hv (List.contains_iff_mem.mp h), List.mem_append,
          List.mem_singleton, List.mem_cons, or_assoc]

/-- What is there already is not added again. -/
theorem addTrimmed_known {values : List Bytes} {t : Bytes} (ht : t ∈ values)
    (known : List Bytes) :
    (values ++ [t]).foldl addTrimmed known = values.foldl addTrimmed known := by
  rw [List.foldl_append]
  exact if_pos (List.contains_iff_mem.mpr ((mem_addTrimmed values known t).mpr (.inr ht)))

/-! ## Equal outcomes -/

variable {ws ws' : Websocket φ} {f f' : SpelledField}

theorem negotiated_ext (hversion : ws.websocketVersion = ws'.websocketVersion)
    (hkey : ws.socketKey = ws'.socketKey) (hwant : ws.wantUpgrade = ws'.wantUpgrade)
    (hprotocol : ws.protocol = ws'.protocol) : ws.negotiated = ws'.negotiated := by
  unfold Websocket.negotiated
  rw [hversion, hkey, hwant, hprotocol]

/-- The decision, from what the handshake keeps. -/
def Negotiated.decision (n : Negotiated) : Decision :=
  if n.websocketVersion = 13 ∧ n.socketKey ≠ none ∧ n.wantUpgrade = 3 then .upgrade
  else if n.websocketVersion ≠ 13 then .unsupportedVersion
  else .nothing

theorem decision_made (env : Env φ) (s : Conn φ) : s.ws.negotiated.decision.Made env s := by
  have hready : s.ws.ready = true ↔ s.ws.negotiated.websocketVersion = 13 ∧
      s.ws.negotiated.socketKey ≠ none ∧ s.ws.negotiated.wantUpgrade = 3 := by
    simp [Websocket.ready, Websocket.negotiated, Option.isSome_iff_ne_none, and_assoc]
  unfold Negotiated.decision
  by_cases hr : s.ws.ready = true
  · rw [if_pos (hready.mp hr)]
    exact wsUpgradeHttp_ready env hr
  · rw [if_neg (mt hready.mpr hr)]
    unfold Decision.Made wsUpgradeHttp
    rw [if_neg hr]
    by_cases hversion : s.ws.websocketVersion ≠ 13
    · rw [if_pos hversion, if_pos (show s.ws.negotiated.websocketVersion ≠ 13 from hversion)]
    · rw [if_neg hversion, if_neg (show ¬s.ws.negotiated.websocketVersion ≠ 13 from hversion)]

theorem SpelledField.Varies.core (h : f.Varies f') : f.core = f'.core := by
  unfold SpelledField.core
  rw [h.2]

/-- Whether a list of protocols ends in blanks shows only behind its last comma. -/
theorem listed_harmless (hvar : f.Varies f') (hh : f.Harmless f')
    (hf : f.name.val = ascii "Sec-WebSocket-Protocol")
    (hf' : f'.name.val = ascii "Sec-WebSocket-Protocol") (known : List Bytes) :
    f.listed.foldl addTrimmed known = f'.listed.foldl addTrimmed known := by
  rw [f.listed_eq, f'.listed_eq, ← hvar.core]
  by_cases hcomma : f.core.getLast? = some 44
  · by_cases hblank : [] ∈ (strtok 44 f.core).map trim
    · -- the empty protocol is there already
      have hsame (p : Prop) [Decidable p] :
          ((strtok 44 f.core).map trim ++ if p then [[]] else []).foldl addTrimmed known =
            ((strtok 44 f.core).map trim).foldl addTrimmed known := by
        split
        · exact addTrimmed_known hblank known
        · rw [List.append_nil]
      rw [hsame, hsame]
    · have hends : f.EndsList := by
        refine ⟨hcomma, fun t ht hnil => hblank ?_⟩
        exact List.mem_map.mpr ⟨t, ht, hnil⟩
      have hafter := hh.lastToken hf hf' hends
      simp only [hafter, ne_eq]
  · rw [if_neg fun h => hcomma h.1, if_neg fun h => hcomma h.1]

/-- **One field**: a harmless difference leaves equal outcomes equal. -/
theorem apply_harmless (hvar : f.Varies f') (hh : f.Harmless f')
    (h : ws.negotiated = ws'.negotiated) :
    (f.field.apply ws).negotiated = (f'.field.apply ws').negotiated := by
  obtain ⟨hversion, hkey, hwant, hprotocol⟩ := Negotiated.mk.inj h
  unfold HeaderField.apply
  refine negotiated_ext ?_ ?_ ?_ ?_
  · rw [wsHeader_version, wsHeader_version, f.text_version, f'.text_version, hvar.core, hversion]
    exact if_congr hh.version rfl rfl
  · rw [wsHeader_key, wsHeader_key, f.text_key, f'.text_key, hvar.core, hkey]
    exact if_congr hh.key rfl rfl
  · rw [wsHeader_wantUpgrade, wsHeader_wantUpgrade, hwant]
    refine if_congr ?_ rfl (if_congr ?_ rfl rfl)
    · rw [f.text_upgrade, f'.text_upgrade, ← hvar.core]
      constructor
      · rintro ⟨hname, hvalue, hafter⟩
        obtain ⟨hname', hafter'⟩ := (hh.upgrade hvalue).mp ⟨hname, hafter⟩
        exact ⟨hname', hvalue, hafter'⟩
      · rintro ⟨hname', hvalue, hafter'⟩
        obtain ⟨hname, hafter⟩ := (hh.upgrade hvalue).mpr ⟨hname', hafter'⟩
        exact ⟨hname, hvalue, hafter⟩
    · rw [f.text_connection, f'.text_connection, ← hvar.core]
      exact and_congr_left hh.connection
  · rw [wsHeader_protocol, wsHeader_protocol, foldl_addTrimmed, foldl_addTrimmed, hprotocol]
    show (if _ then f.listed.foldl _ _ else _) = if _ then f'.listed.foldl _ _ else _
    by_cases hf : f.field.name.val = ascii "Sec-WebSocket-Protocol"
    · rw [if_pos hf]
      by_cases hf' : f'.field.name.val = ascii "Sec-WebSocket-Protocol"
      · rw [if_pos hf']
        exact listed_harmless hvar hh hf hf' ws'.protocol
      · rw [if_neg hf']
        have hnothing : f.ListsNothing :=
          Classical.byContradiction fun hn => hf' (hh.protocol.mp ⟨hf, hn⟩).1
        rw [f.listed_nil.mpr hnothing]
        rfl
    · rw [if_neg hf]
      by_cases hf' : f'.field.name.val = ascii "Sec-WebSocket-Protocol"
      · rw [if_pos hf']
        have hnothing : f'.ListsNothing :=
          Classical.byContradiction fun hn => hf (hh.protocol.mpr ⟨hf', hn⟩).1
        rw [f'.listed_nil.mpr hnothing]
        rfl
      · rw [if_neg hf']

theorem SpelledField.Harmless.refl (f : SpelledField) : f.Harmless f where
  version := Iff.rfl
  key := Iff.rfl
  upgrade _ := Iff.rfl
  connection _ := Iff.rfl
  protocol := Iff.rfl
  lastToken _ _ _ := Iff.rfl

/-- **All fields**, by induction on them. -/
theorem foldl_harmless {fields fields' : List SpelledField}
    (hall : List.Forall₂ (fun f f' => f.Varies f' ∧ f.Harmless f') fields fields')
    (h : ws.negotiated = ws'.negotiated) :
    ((fields.map SpelledField.field).foldl HeaderField.apply ws).negotiated =
      ((fields'.map SpelledField.field).foldl HeaderField.apply ws').negotiated := by
  induction hall generalizing ws ws' with
  | nil => exact h
  | cons hf _ ih => exact ih (apply_harmless hf.1 hf.2 h)

/-! ## A difference that shows -/

/-- `Sec-WebSocket-Version: 1` -/
def versionOne : SpelledField where
  name := ⟨ascii "Sec-WebSocket-Version", by decide +kernel⟩
  before := ⟨[32], by simp⟩
  value := ⟨ascii "1", by decide +kernel⟩
  after := ⟨[], by simp⟩

/-- The connection after the lines of `fields`. -/
abbrev afterFields (φ : Type) (fields : List SpelledField) : Websocket φ :=
  (fields.map SpelledField.field).foldl HeaderField.apply requestConn.ws

/-- The two fields do the same behind any other ones. -/
def Undistinguished (φ : Type) (f f' : SpelledField) : Prop :=
  ∀ fields, (f.field.apply (afterFields φ fields)).negotiated =
    (f'.field.apply (afterFields φ fields)).negotiated

theorem SameOutcome.undistinguished (h : ∀ fields : List SpelledField,
      SameOutcome φ ((fields ++ [f]).map SpelledField.field)
        ((fields ++ [f']).map SpelledField.field)) : Undistinguished φ f f' := by
  intro fields
  obtain ⟨heq, -⟩ := h fields (defaultEnv {}) requestConn rfl rfl
  rw [handleFields_ws _ _ rfl, handleFields_ws _ _ rfl, List.map_append, List.map_append] at heq
  rw [List.foldl_append, List.foldl_append] at heq
  exact heq

theorem Undistinguished.symm (h : Undistinguished φ f f') : Undistinguished φ f' f :=
  fun fields => (h fields).symm

/-- A version is read where a field names it so. -/
theorem Undistinguished.version (h : Undistinguished φ f f')
    (hf : f.name.val = ascii "Sec-WebSocket-Version") :
    f'.name.val = ascii "Sec-WebSocket-Version" := by
  by_contra hf'
  have hversion (fields : List SpelledField) :
      strtoul10 (ltrim f.field.text) % 2 ^ 32 = (afterFields φ fields).websocketVersion := by
    have heq := (Negotiated.mk.inj (h fields)).1
    rw [SpelledField.apply_field, SpelledField.apply_field, wsHeader_version, wsHeader_version,
      if_pos hf, if_neg hf'] at heq
    exact heq
  -- behind no other line the version is 0, and behind another version it is that one
  have hzero : (afterFields φ []).websocketVersion = 0 := rfl
  have hone : (afterFields φ [versionOne]).websocketVersion = 1 := by
    show (versionOne.field.apply _).websocketVersion = 1
    have hname : versionOne.name.val = ascii "Sec-WebSocket-Version" := rfl
    rw [SpelledField.apply_field, wsHeader_version, if_pos hname]
    decide +kernel
  have := hversion []
  have := hversion [versionOne]
  omega

theorem Undistinguished.key (h : Undistinguished φ f f')
    (hf : f.name.val = ascii "Sec-WebSocket-Key") : f'.name.val = ascii "Sec-WebSocket-Key" := by
  by_contra hf'
  have heq := (Negotiated.mk.inj (h [])).2.1
  rw [SpelledField.apply_field, SpelledField.apply_field, wsHeader_key, wsHeader_key,
    if_pos hf, if_neg hf'] at heq
  cases heq

theorem upgrade_connection : ¬ascii "Upgrade" = ascii "Connection" := by decide +kernel

/-- Whether the client wants an upgrade. -/
theorem Undistinguished.wantUpgrade (h : Undistinguished φ f f') :
    (if f.name.val = ascii "Upgrade" ∧ strcasecmp (ltrim f.field.text) (ascii "websocket") then 1
      else if f.name.val = ascii "Connection" ∧
        strstr ((ltrim f.field.text).map tolower) (ascii "upgrade") then 2 else 0) =
    if f'.name.val = ascii "Upgrade" ∧ strcasecmp (ltrim f'.field.text) (ascii "websocket") then 1
      else if f'.name.val = ascii "Connection" ∧
        strstr ((ltrim f'.field.text).map tolower) (ascii "upgrade") then 2 else 0 := by
  have heq := (Negotiated.mk.inj (h [])).2.2.1
  rw [SpelledField.apply_field, SpelledField.apply_field, wsHeader_wantUpgrade,
    wsHeader_wantUpgrade] at heq
  have hzero : (afterFields φ []).wantUpgrade = 0 := rfl
  rw [hzero] at heq
  exact heq

theorem Undistinguished.upgrade (h : Undistinguished φ f f')
    (hvalue : strcasecmp f.core (ascii "websocket") = true)
    (hf : f.name.val = ascii "Upgrade" ∧ f.after.val = []) :
    f'.name.val = ascii "Upgrade" ∧ f'.after.val = [] := by
  have heq := h.wantUpgrade
  rw [if_pos ⟨hf.1, f.text_upgrade.mpr ⟨hvalue, hf.2⟩⟩] at heq
  split at heq
  · next hup => exact ⟨hup.1, (f'.text_upgrade.mp hup.2).2⟩
  · split at heq <;> cases heq

theorem Undistinguished.connection (h : Undistinguished φ f f')
    (hvalue : strstr (f.core.map tolower) (ascii "upgrade") = true)
    (hf : f.name.val = ascii "Connection") : f'.name.val = ascii "Connection" := by
  have heq := h.wantUpgrade
  have hno : ¬(f.name.val = ascii "Upgrade" ∧
      strcasecmp (ltrim f.field.text) (ascii "websocket") = true) := by
    rintro ⟨hup, -⟩
    rw [hf] at hup
    exact upgrade_connection hup.symm
  rw [if_neg hno, if_pos ⟨hf, f.text_connection.mpr hvalue⟩] at heq
  split at heq
  · cases heq
  · split at heq
    · next hcon => exact hcon.1
    · cases heq

/-- The protocols that a field adds when it is the first one. -/
theorem Undistinguished.listed (h : Undistinguished φ f f') :
    (if f.name.val = ascii "Sec-WebSocket-Protocol" then f.listed.foldl addTrimmed [] else []) =
      if f'.name.val = ascii "Sec-WebSocket-Protocol" then f'.listed.foldl addTrimmed []
      else [] := by
  have heq := (Negotiated.mk.inj (h [])).2.2.2
  rw [SpelledField.apply_field, SpelledField.apply_field, wsHeader_protocol, wsHeader_protocol,
    foldl_addTrimmed, foldl_addTrimmed] at heq
  exact heq

theorem Undistinguished.protocol (h : Undistinguished φ f f')
    (hf : f.name.val = ascii "Sec-WebSocket-Protocol" ∧ ¬f.ListsNothing) :
    f'.name.val = ascii "Sec-WebSocket-Protocol" ∧ ¬f'.ListsNothing := by
  obtain ⟨t, ht⟩ := List.exists_mem_of_ne_nil _ (fun hn => hf.2 (f.listed_nil.mp hn))
  have hmem : t ∈ f.listed.foldl addTrimmed [] := (mem_addTrimmed f.listed [] t).mpr (.inr ht)
  have heq := h.listed
  rw [if_pos hf.1] at heq
  rw [heq] at hmem
  split at hmem
  · next hname =>
    refine ⟨hname, fun hn => ?_⟩
    rw [f'.listed_nil.mpr hn] at hmem
    cases hmem
  · cases hmem

theorem Undistinguished.lastToken (h : Undistinguished φ f f') (hvar : f.Varies f')
    (hf : f.name.val = ascii "Sec-WebSocket-Protocol")
    (hf' : f'.name.val = ascii "Sec-WebSocket-Protocol") (hends : f.EndsList)
    (hafter : f.after.val = []) : f'.after.val = [] := by
  by_contra hne
  have heq := h.listed
  rw [if_pos hf, if_pos hf'] at heq
  -- the blanks behind the last comma are an empty protocol
  have hmem : [] ∈ f'.listed.foldl addTrimmed [] := by
    rw [mem_addTrimmed, f'.listed_eq, ← hvar.core, if_pos ⟨hends.1, hne⟩]
    exact .inr (List.mem_append_right _ List.mem_cons_self)
  rw [← heq, mem_addTrimmed, f.listed_eq, if_neg fun hb => hb.2 hafter, List.append_nil] at hmem
  rcases hmem with hmem | hmem
  · cases hmem
  · obtain ⟨t, ht, hnil⟩ := List.mem_map.mp hmem
    exact hends.2 t ht hnil

theorem SpelledField.Varies.symm (h : f.Varies f') : f'.Varies f := ⟨h.1.symm, h.2.symm⟩

theorem SpelledField.Varies.endsList (h : f.Varies f') (hends : f.EndsList) : f'.EndsList := by
  unfold SpelledField.EndsList at hends ⊢
  rwa [← h.core]

/-- Fields that are never distinguished differ harmlessly. -/
theorem Undistinguished.harmless (h : Undistinguished φ f f') (hvar : f.Varies f') :
    f.Harmless f' where
  version := ⟨h.version, h.symm.version⟩
  key := ⟨h.key, h.symm.key⟩
  upgrade hvalue := by
    refine ⟨h.upgrade hvalue, h.symm.upgrade ?_⟩
    rwa [← hvar.core]
  connection hvalue := by
    refine ⟨h.connection hvalue, h.symm.connection ?_⟩
    rwa [← hvar.core]
  protocol := ⟨h.protocol, h.symm.protocol⟩
  lastToken hf hf' hends :=
    ⟨h.lastToken hvar hf hf' hends, h.symm.lastToken hvar.symm hf' hf (hvar.endsList hends)⟩

end

/-- **Spelling does not matter** for blocks of header fields whose fields differ in the ways `V`
exactly if all of these differences are harmless. -/
theorem sameOutcome_iff (φ : Type) (V : SpelledField → SpelledField → Prop) :
    (∀ fields fields' : List SpelledField,
        List.Forall₂ (fun f f' => f = f' ∨ f.Varies f' ∧ V f f') fields fields' →
        SameOutcome φ (fields.map SpelledField.field) (fields'.map SpelledField.field)) ↔
      ∀ f f', f.Varies f' → V f f' → f.Harmless f' := by
  constructor
  · intro h f f' hvar hV
    have hsame : Undistinguished φ f f' := by
      refine SameOutcome.undistinguished fun fields => ?_
      refine h _ _ (List.rel_append ?_ (.cons (.inr ⟨hvar, hV⟩) .nil))
      exact List.forall₂_same.mpr fun _ _ => .inl rfl
    exact hsame.harmless hvar
  · intro h fields fields' hall env s hhttp _
    have hboth : List.Forall₂ (fun f f' => f.Varies f' ∧ f.Harmless f') fields fields' := by
      refine hall.imp ?_
      rintro f f' (rfl | ⟨hvar, hV⟩)
      · exact ⟨⟨rfl, rfl⟩, SpelledField.Harmless.refl f⟩
      · exact ⟨hvar, h f f' hvar hV⟩
    have hsame : (handleFields env (fields.map SpelledField.field) s).ws.negotiated =
        (handleFields env (fields'.map SpelledField.field) s).ws.negotiated := by
      rw [handleFields_ws env _ hhttp, handleFields_ws env _ hhttp]
      exact foldl_harmless hboth rfl
    refine ⟨hsame, _, decision_made env _, ?_⟩
    rw [hsame]
    exact decision_made env _

/-- A space behind `websocket` takes a complete handshake away. -/
theorem sameOutcome_fails :
    ¬∀ fields fields' : List SpelledField, List.Forall₂ SpelledField.Varies fields fields' →
      SameOutcome Unit (fields.map SpelledField.field) (fields'.map SpelledField.field) := by
  intro h
  let space : Blanks := ⟨[32], by simp⟩
  let none : Blanks := ⟨[], by simp⟩
  let upgrade : SpelledField :=
    { name := ⟨ascii "Upgrade", by decide +kernel⟩, before := space
      value := ⟨ascii "websocket", by decide +kernel⟩, after := none }
  let rest : List SpelledField := [
    { name := ⟨ascii "Connection", by decide +kernel⟩, before := space
      value := ⟨ascii "Upgrade", by decide +kernel⟩, after := none },
    { name := ⟨ascii "Sec-WebSocket-Key", by decide +kernel⟩, before := space
      value := ⟨ascii "dGhlIHNhbXBsZSBub25jZQ==", by decide +kernel⟩, after := none },
    { name := ⟨ascii "Sec-WebSocket-Version", by decide +kernel⟩, before := space
      value := ⟨ascii "13", by decide +kernel⟩, after := none }]
  have hrest : List.Forall₂ SpelledField.Varies rest rest :=
    List.forall₂_same.mpr fun _ _ => ⟨rfl, rfl⟩
  obtain ⟨hsame, -⟩ := h (upgrade :: rest) ({ upgrade with after := space } :: rest)
    (.cons ⟨rfl, rfl⟩ hrest) (defaultEnv {}) requestConn rfl rfl
  exact absurd hsame (by decide +kernel)

end Websocksy

import Websocksy.BackendFile
import Mathlib.Data.List.DropRight

/-!
# The peer that the file backend selects

The lines of the files that the expressions come to, in order, are read as lines of fields, and
the first that fits the protocols the client indicated describes the peer.  `query` does that,
but for a client without protocols it takes any line apart, and a line without a space has no
second field.  It also drops what is not printable at the end of a line, text that is not ASCII
included, so it can find another line, or the same line with other fields, than the file has.
-/

namespace Websocksy

open Buffer CString

variable {φ : Type}

/-! ## Lines of fields -/

structure LineFields where
  host : Bytes
  subprotocol : Bytes
  framing : Option Bytes := none
  config : Option Bytes := none
deriving DecidableEq

/-- `<network peer> <subprotocol> [<framing>] [<framing-config>]`, with single spaces; the
configuration is the rest of the line. -/
inductive PeerLine : Bytes → LineFields → Prop
  | two (host subprotocol : Bytes) (hh : 32 ∉ host) (hs : 32 ∉ subprotocol) :
      PeerLine (host ++ 32 :: subprotocol) ⟨host, subprotocol, none, none⟩
  | three (host subprotocol framing : Bytes) (hh : 32 ∉ host) (hs : 32 ∉ subprotocol)
      (hf : 32 ∉ framing) :
      PeerLine (host ++ 32 :: (subprotocol ++ 32 :: framing)) ⟨host, subprotocol, some framing, none⟩
  | four (host subprotocol framing config : Bytes) (hh : 32 ∉ host) (hs : 32 ∉ subprotocol)
      (hf : 32 ∉ framing) :
      PeerLine (host ++ 32 :: (subprotocol ++ 32 :: (framing ++ 32 :: config)))
        ⟨host, subprotocol, some framing, some config⟩

/-- The text of a line: all but the line feed at its end, or the carriage return and line feed. -/
def lineText (line : Bytes) : Bytes :=
  if [13, 10] <:+ line then line.dropLast.dropLast
  else if [10] <:+ line then line.dropLast
  else line

/-- The line as it is read: up to the first NUL, without what is not printable at the end. -/
def trimmedText (line : Bytes) : Bytes := (cstr line).rdropWhile fun c => !isprint c

/-- The index of the protocol that a line is for: the first for `*`, and for a client that
indicated none. -/
def Indicates (protocol : List Bytes) (subprotocol : Bytes) (p : Nat) : Prop :=
  if protocol = [] ∨ subprotocol = ascii "*" then p = 0
  else protocol[p]? = some subprotocol ∧ subprotocol ∉ protocol.take p

instance (protocol : List Bytes) (subprotocol : Bytes) (p : Nat) :
    Decidable (Indicates protocol subprotocol p) :=
  inferInstanceAs (Decidable (if protocol = [] ∨ subprotocol = ascii "*" then p = 0
    else protocol[p]? = some subprotocol ∧ subprotocol ∉ protocol.take p))

/-- The function a name stands for: `auto` if it is absent or unknown. -/
def FramingLibrary.Names (l : FramingLibrary φ) (name : Option Bytes) (f : Option (WsFraming φ)) :
    Prop :=
  (∃ n, name = some n ∧ (l.functions.lookup n).isSome ∧ f = l.functions.lookup n) ∨
    ((∀ n, name = some n → l.functions.lookup n = none) ∧ f = l.functions.lookup (ascii "auto"))

def Qualifies (protocol : List Bytes) (text : Bytes) : Prop :=
  ∃ f p, PeerLine text f ∧ Indicates protocol f.subprotocol p

/-- The fields of the first of the lines that qualifies. -/
inductive FirstOf (protocol : List Bytes) : List Bytes → LineFields → Prop
  | here {text : Bytes} {texts : List Bytes} {f : LineFields} {p : Nat} (h : PeerLine text f)
      (hp : Indicates protocol f.subprotocol p) : FirstOf protocol (text :: texts) f
  | later {text : Bytes} {texts : List Bytes} {f : LineFields} (h : ¬Qualifies protocol text)
      (hrest : FirstOf protocol texts f) : FirstOf protocol (text :: texts) f

/-- The peer record has what is in the line. -/
structure LineFields.Describes (l : FramingLibrary φ) (protocol : List Bytes) (f : LineFields)
    (peer : WsPeerInfo φ) : Prop where
  protocol : Indicates protocol f.subprotocol peer.protocol
  host : peer.host = some f.host
  framing : l.Names f.framing peer.framing
  config : peer.framingConfig = f.config

/-- The first line that qualifies describes the peer; there is no host if there is none. -/
def Selected (l : FramingLibrary φ) (protocol : List Bytes) (texts : List Bytes)
    (peer : WsPeerInfo φ) : Prop :=
  (∃ f, FirstOf protocol texts f ∧ f.Describes l protocol peer) ∨
    ((∀ text ∈ texts, ¬Qualifies protocol text) ∧ peer.host = none)

/-- The fields of two lines stand for the same. -/
structure LineFields.Same (l : FramingLibrary φ) (protocol : List Bytes) (f g : LineFields) :
    Prop where
  host : f.host = g.host
  protocol : ∃ p, Indicates protocol f.subprotocol p ∧ Indicates protocol g.subprotocol p
  framing : ∃ h, l.Names f.framing h ∧ l.Names g.framing h
  config : f.config = g.config

/-- What is dropped at the ends of the lines does not matter: the first line that qualifies without
it and the first that qualifies with it stand for the same, or there is none in both cases. -/
def TrimHarmless (l : FramingLibrary φ) (protocol : List Bytes) (lines : List Bytes) : Prop :=
  (∃ f g, FirstOf protocol (lines.map trimmedText) f ∧ FirstOf protocol (lines.map lineText) g ∧
      f.Same l protocol g) ∨
    ∀ line ∈ lines, ¬Qualifies protocol (trimmedText line) ∧ ¬Qualifies protocol (lineText line)

/-- The contents of the files that the expressions come to, in order. -/
def fileContents (file : Bytes → Option Bytes) (backendPath : Bytes) (header : List WsHttpHeader) :
    List Bytes → Bytes → List Bytes
  | [], _ => []
  | expression :: expressions, endpoint =>
    match expressionPath backendPath expression endpoint header with
    | none => []
    | some (path, endpoint) =>
      (path.bind file).toList ++ fileContents file backendPath header expressions endpoint

/-- The lines of the files, in the order of the expressions. -/
def BackendFile.lines (b : BackendFile) (file : Bytes → Option Bytes) (endpoint : Bytes)
    (header : List WsHttpHeader) : List Bytes :=
  (fileContents file b.backendPath header b.expression endpoint).flatMap getLines

section

variable {l : FramingLibrary φ} {protocol lines : List Bytes} {line t : Bytes}
  {peer : WsPeerInfo φ}

/-! ## Fields -/

theorem PeerLine.space {f : LineFields} (h : PeerLine t f) : 32 ∈ t := by
  cases h <;> simp

/-- The fields that the calls of `strchr` find. -/
def strchrFields (t : Bytes) : Option LineFields :=
  match strchr 32 t with
  | none => none
  | some (host, rest) =>
    match strchr 32 rest with
    | none => some ⟨host, rest, none, none⟩
    | some (subprotocol, rest) =>
      match strchr 32 rest with
      | none => some ⟨host, subprotocol, some rest, none⟩
      | some (framing, config) => some ⟨host, subprotocol, some framing, some config⟩

theorem peerLine_iff (f : LineFields) : PeerLine t f ↔ strchrFields t = some f := by
  constructor
  · intro h
    cases h with
    | two host subprotocol hh hs =>
        simp only [strchrFields, strchr_append hh, (strchr_eq_none 32 subprotocol).mpr hs]
    | three host subprotocol framing hh hs hf =>
        simp only [strchrFields, strchr_append hh, strchr_append hs,
          (strchr_eq_none 32 framing).mpr hf]
    | four host subprotocol framing config hh hs hf =>
        simp only [strchrFields, strchr_append hh, strchr_append hs, strchr_append hf]
  · unfold strchrFields
    intro h
    split at h
    · cases h
    next host rest h1 =>
    obtain rfl := strchr_eq_some 32 _ _ h1
    split at h
    · next h2 =>
      cases h
      exact .two host rest (strchr_notMem h1) ((strchr_eq_none 32 rest).mp h2)
    next subprotocol rest h2 =>
    obtain rfl := strchr_eq_some 32 _ _ h2
    split at h
    · next h3 =>
      cases h
      exact .three host subprotocol rest (strchr_notMem h1) (strchr_notMem h2)
        ((strchr_eq_none 32 rest).mp h3)
    · next framing config h3 =>
      obtain rfl := strchr_eq_some 32 _ _ h3
      cases h
      exact .four host subprotocol framing config (strchr_notMem h1) (strchr_notMem h2)
        (strchr_notMem h3)

theorem PeerLine.unique {f g : LineFields} (hf : PeerLine t f) (hg : PeerLine t g) : f = g :=
  Option.some.inj (((peerLine_iff f).mp hf).symm.trans ((peerLine_iff g).mp hg))

/-- Cutting off the end of a line leaves its text, or a character that is not printable. -/
theorem rtrimLine_text (line : Bytes) :
    rtrimLine (cstr line) = trimmedText line ∨
      32 ∉ rtrimLine (cstr line) ∧ 32 ∉ trimmedText line := by
  unfold trimmedText
  cases cstr line with
  | nil => exact .inl rfl
  | cons c s =>
      rw [List.rdropWhile, List.reverse_cons, List.dropWhile_append, rtrimLine]
      split
      · next hs =>
        rw [List.isEmpty_iff.mp hs]
        by_cases hc : isprint c
        · exact .inl (by simp [hc])
        · have hspace : 32 ≠ c := fun e => hc (by rw [← e]; decide)
          exact .inr ⟨by simpa using hspace, by simp [hc]⟩
      · exact .inl (by simp)

/-! ## One line -/

/-- The loop over the protocols finds the index that the line is for, or leaves the number of
protocols. -/
theorem matchProtocol_cases (protocol : List Bytes) (subprotocol : Bytes) :
    (Indicates protocol subprotocol (matchProtocol protocol subprotocol protocol.length) ∧
        ¬(protocol.length ≠ 0 ∧
          matchProtocol protocol subprotocol protocol.length = protocol.length)) ∨
      ((∀ p, ¬Indicates protocol subprotocol p) ∧ protocol.length ≠ 0 ∧
        matchProtocol protocol subprotocol protocol.length = protocol.length) := by
  unfold Indicates matchProtocol
  by_cases hnil : protocol = []
  · left
    rw [hnil]
    simp
  have hlen : protocol.length ≠ 0 := fun e => hnil (List.length_eq_zero_iff.mp e)
  by_cases hstar : subprotocol = ascii "*"
  · left
    rw [if_pos (.inr hstar), if_pos hstar]
    exact ⟨rfl, fun h => hlen h.2.symm⟩
  have hnot : ¬(protocol = [] ∨ subprotocol = ascii "*") := by simp [hnil, hstar]
  simp only [if_neg hnot, if_neg hstar]
  cases hfind : protocol.findIdx? (· = subprotocol) with
  | none =>
      right
      refine ⟨?_, hlen, rfl⟩
      intro p hp
      have hmem := List.mem_of_getElem? hp.1
      have hno := List.findIdx?_eq_none_iff.mp hfind subprotocol hmem
      simp at hno
  | some p =>
      left
      obtain ⟨hp, heq, hbefore⟩ := List.findIdx?_eq_some_iff_getElem.mp hfind
      refine ⟨⟨?_, ?_⟩, ?_⟩
      · rw [Option.getD_some, List.getElem?_eq_getElem hp]
        simpa using heq
      · intro hmem
        obtain ⟨j, hj, hget⟩ := List.mem_take_iff_getElem.mp hmem
        have hlt : j < p := by
          rw [Option.getD_some] at hj
          omega
        have hne := hbefore j hlt
        simp [hget] at hne
      · rw [Option.getD_some]
        omega

theorem framing_names (l : FramingLibrary φ) (name : Option Bytes) (f : Option (WsFraming φ)) :
    l.Names name f ↔ f = l.framing name := by
  unfold FramingLibrary.Names FramingLibrary.framing
  cases name with
  | none => simp
  | some n =>
      rw [Option.bind_some]
      constructor
      · rintro (⟨m, hm, hsome, rfl⟩ | ⟨hnone, rfl⟩)
        · obtain rfl := Option.some.inj hm
          obtain ⟨g, hg⟩ := Option.isSome_iff_exists.mp hsome
          rw [hg]
        · rw [hnone n rfl]
      · rintro rfl
        cases hn : l.functions.lookup n with
        | none => exact .inr ⟨fun m h => (by cases h; exact hn), rfl⟩
        | some g => exact .inl ⟨n, rfl, by rw [hn]; rfl, hn.symm⟩

theorem Indicates.unique {subprotocol : Bytes} {p q : Nat} (hp : Indicates protocol subprotocol p)
    (hq : Indicates protocol subprotocol q) : p = q := by
  unfold Indicates at hp hq
  split at hp
  · next h =>
    rw [if_pos h] at hq
    rw [hp, hq]
  · next h =>
    rw [if_neg h] at hq
    -- the later of two places has the earlier one before it
    have hbefore {a b : Nat} (ha : protocol[a]? = some subprotocol)
        (hb : subprotocol ∉ protocol.take b) : b ≤ a := by
      by_contra hlt
      refine hb (List.mem_iff_getElem?.mpr ⟨a, ?_⟩)
      rw [List.getElem?_take_of_lt (by omega)]
      exact ha
    exact Nat.le_antisymm (hbefore hq.1 hp.2) (hbefore hp.1 hq.2)

/-- A line with fields, as `queryLine` has them. -/
theorem queryLine_eq {f : LineFields} (hf : strchrFields (rtrimLine (cstr line)) = some f) :
    queryLine l protocol line peer =
      let peer := { peer with protocol := matchProtocol protocol f.subprotocol peer.protocol }
      if protocol.length ≠ 0 ∧ peer.protocol = protocol.length then some peer
      else some { peer with
        host := some f.host, framing := l.framing f.framing, framingConfig := f.config } := by
  unfold strchrFields at hf
  unfold queryLine
  split at hf
  · cases hf
  next host rest h1 =>
  split at hf
  · next h2 =>
    cases hf
    simp only [h1, h2]
  next subprotocol rest h2 =>
  split at hf
  · next h3 =>
    cases hf
    simp only [h1, h2, h3]
  · next h3 =>
    cases hf
    simp only [h1, h2, h3]

theorem strchrFields_none : strchrFields t = none ↔ 32 ∉ t := by
  rw [← strchr_eq_none, strchrFields]
  cases strchr 32 t with
  | none => exact ⟨fun _ => rfl, fun _ => rfl⟩
  | some host =>
      constructor
      · intro h
        dsimp only at h
        split at h
        · cases h
        split at h <;> cases h
      · intro h
        cases h

/-- **A line** without a space is left out, or is the end of a query without protocols; one that
does not qualify leaves the record, and one that does is taken. -/
theorem queryLine_cases (hp : peer.protocol = protocol.length) :
    (32 ∉ trimmedText line ∧
      queryLine l protocol line peer = if protocol.length ≠ 0 then some peer else none) ∨
    (¬Qualifies protocol (trimmedText line) ∧ protocol.length ≠ 0 ∧
      queryLine l protocol line peer = some peer) ∨
    (32 ∈ trimmedText line ∧ ∃ (f : LineFields) (taken : WsPeerInfo φ),
      PeerLine (trimmedText line) f ∧ f.Describes l protocol taken ∧
      queryLine l protocol line peer = some taken) := by
  cases hfields : strchrFields (rtrimLine (cstr line)) with
  | none =>
      have hnone := strchrFields_none.mp hfields
      left
      refine ⟨?_, ?_⟩
      · rcases rtrimLine_text line with htext | ⟨-, htext⟩
        · rwa [← htext]
        · exact htext
      · unfold queryLine
        simp only [(strchr_eq_none 32 _).mpr hnone]
  | some f =>
      have hspace : 32 ∈ rtrimLine (cstr line) := ((peerLine_iff f).mpr hfields).space
      have hf : PeerLine (trimmedText line) f := by
        rcases rtrimLine_text line with htext | ⟨hno, -⟩
        · rw [← htext]
          exact (peerLine_iff f).mpr hfields
        · exact absurd hspace hno
      right
      rw [queryLine_eq hfields, hp]
      rcases matchProtocol_cases protocol f.subprotocol with ⟨hind, hmatch⟩ | ⟨hnone, hlen, hmatch⟩
      · right
        refine ⟨hf.space, f, _, hf, ?_, if_neg hmatch⟩
        exact ⟨hind, rfl, (framing_names l f.framing _).mpr rfl, rfl⟩
      · left
        refine ⟨?_, hlen, ?_⟩
        · rintro ⟨g, p, hg, hind⟩
          rw [← hf.unique hg] at hind
          exact hnone p hind
        · refine (if_pos ⟨hlen, hmatch⟩).trans ?_
          rw [hmatch, ← hp]

/-! ## All lines -/

theorem FirstOf.qualifies {texts : List Bytes} {f : LineFields} (h : FirstOf protocol texts f) :
    ∃ text ∈ texts, Qualifies protocol text := by
  induction h with
  | here h hp => exact ⟨_, List.mem_cons_self, _, _, h, hp⟩
  | later _ _ ih =>
      obtain ⟨text, hmem, hq⟩ := ih
      exact ⟨text, List.mem_cons_of_mem _ hmem, hq⟩

theorem FirstOf.unique {texts : List Bytes} {f g : LineFields} (hf : FirstOf protocol texts f)
    (hg : FirstOf protocol texts g) : f = g := by
  induction hf with
  | here h hp =>
      cases hg with
      | here h' _ => exact h.unique h'
      | later hnot _ => exact absurd ⟨_, _, h, hp⟩ hnot
  | later hnot _ ih =>
      cases hg with
      | here h hp => exact absurd ⟨_, _, h, hp⟩ hnot
      | later _ hrest => exact ih hrest

theorem LineFields.Describes.hosted {f : LineFields} (h : f.Describes l protocol peer) :
    peer.host.isSome = true := by
  rw [h.host]
  rfl

theorem LineFields.same_iff {f g : LineFields} (hf : f.Describes l protocol peer) :
    f.Same l protocol g ↔ g.Describes l protocol peer := by
  constructor
  · rintro ⟨hhost, ⟨p, hp, hp'⟩, ⟨h, hh, hh'⟩, hconfig⟩
    refine ⟨?_, hhost ▸ hf.host, ?_, hconfig ▸ hf.config⟩
    · rwa [hf.protocol.unique hp]
    · rwa [(framing_names l f.framing _).mp hf.framing, ← (framing_names l f.framing _).mp hh]
  · intro hg
    exact ⟨Option.some.inj (hf.host.symm.trans hg.host), ⟨_, hf.protocol, hg.protocol⟩,
      ⟨_, hf.framing, hg.framing⟩, hf.config.symm.trans hg.config⟩

theorem Selected.cons {text : Bytes} {texts : List Bytes} (hq : ¬Qualifies protocol text)
    (h : Selected l protocol texts peer) : Selected l protocol (text :: texts) peer := by
  rcases h with ⟨f, hf, hpeer⟩ | ⟨hnone, hhost⟩
  · exact .inl ⟨f, .later hq hf, hpeer⟩
  · refine .inr ⟨?_, hhost⟩
    intro x hx
    rcases List.mem_cons.mp hx with rfl | hx
    · exact hq
    · exact hnone x hx

/-- **What is dropped at the ends** does not matter to a peer just if it makes no difference. -/
theorem trimHarmless_iff (h : Selected l protocol (lines.map trimmedText) peer) :
    Selected l protocol (lines.map lineText) peer ↔ TrimHarmless l protocol lines := by
  rcases h with ⟨f, hf, hpeer⟩ | ⟨hnone, hhost⟩
  · constructor
    · rintro (⟨g, hg, hpeer'⟩ | ⟨-, hhost⟩)
      · exact .inl ⟨f, g, hf, hg, (LineFields.same_iff hpeer).mpr hpeer'⟩
      · rw [hpeer.host] at hhost
        cases hhost
    · rintro (⟨f', g, hf', hg, hsame⟩ | hnone)
      · obtain rfl := hf.unique hf'
        exact .inl ⟨g, hg, (LineFields.same_iff hpeer).mp hsame⟩
      · obtain ⟨text, hmem, hq⟩ := hf.qualifies
        obtain ⟨line, hline, rfl⟩ := List.mem_map.mp hmem
        exact absurd hq (hnone line hline).1
  · constructor
    · rintro (⟨g, hg, hpeer⟩ | ⟨hnone', -⟩)
      · rw [hpeer.host] at hhost
        cases hhost
      · exact .inr fun line hline => ⟨hnone _ (List.mem_map_of_mem hline),
          hnone' _ (List.mem_map_of_mem hline)⟩
    · rintro (⟨f, g, hf, -⟩ | hnone')
      · obtain ⟨text, hmem, hq⟩ := hf.qualifies
        exact absurd hq (hnone text hmem)
      · refine .inr ⟨fun text hmem => ?_, hhost⟩
        obtain ⟨line, hline, rfl⟩ := List.mem_map.mp hmem
        exact (hnone' line hline).2

/-- The first line, if there is one, has a second field. -/
def FirstHasSpace (lines : List Bytes) : Prop := ∀ line ∈ lines.head?, 32 ∈ trimmedText line

/-- **The lines** come to the selected peer, unless the client has no protocols and the first of
them has no space. -/
theorem queryLines_selected (hp : peer.protocol = protocol.length) (hhost : peer.host = none) :
    (queryLines l protocol lines peer = none ∧ protocol = [] ∧ ¬FirstHasSpace lines) ∨
    ((protocol = [] → FirstHasSpace lines) ∧
      ∃ peer', queryLines l protocol lines peer = some peer' ∧
        Selected l protocol (lines.map trimmedText) peer' ∧
        (peer'.host.isSome = true ∨ peer' = peer)) := by
  induction lines with
  | nil =>
      right
      refine ⟨fun _ line h => (by cases h), peer, rfl, ?_, .inr rfl⟩
      exact .inr ⟨fun x h => (by cases h), hhost⟩
  | cons line lines ih =>
      -- a line that leaves the record leaves the choice to the others
      have hleft (hq : ¬Qualifies protocol (trimmedText line)) (hlen : protocol.length ≠ 0)
          (hline : queryLine l protocol line peer = some peer) :
          (protocol = [] → FirstHasSpace (line :: lines)) ∧
          ∃ peer', queryLines l protocol (line :: lines) peer = some peer' ∧
            Selected l protocol ((line :: lines).map trimmedText) peer' ∧
            (peer'.host.isSome = true ∨ peer' = peer) := by
        have hne : protocol ≠ [] := fun e => hlen (by rw [e]; rfl)
        refine ⟨fun e => absurd e hne, ?_⟩
        unfold queryLines
        simp only [hline, hhost, Option.isSome_none, Bool.false_eq_true, if_false]
        rcases ih with ⟨-, hnil, -⟩ | ⟨-, peer', hrest, hsel, hor⟩
        · exact absurd hnil hne
        · exact ⟨peer', hrest, hsel.cons hq, hor⟩
      rcases queryLine_cases hp with
        ⟨hspace, hline⟩ | ⟨hq, hlen, hline⟩ | ⟨hspace, f, taken, hf, hdesc, hline⟩
      · by_cases hlen : protocol.length ≠ 0
        · rw [if_pos hlen] at hline
          exact .inr (hleft (fun ⟨f, p, hf, _⟩ => hspace hf.space) hlen hline)
        · left
          rw [if_neg hlen] at hline
          refine ⟨?_, List.length_eq_zero_iff.mp (not_not.mp hlen), fun h => hspace (h line rfl)⟩
          unfold queryLines
          simp only [hline]
      · exact .inr (hleft hq hlen hline)
      · right
        refine ⟨fun _ x hx => ?_, taken, ?_, ?_, .inl hdesc.hosted⟩
        · obtain rfl := Option.some.inj hx
          exact hspace
        · unfold queryLines
          simp only [hline, hdesc.hosted, if_true]
        · exact .inl ⟨f, .here hf hdesc.protocol, hdesc⟩

/-- What the lines do to the peer that a query starts with. -/
theorem queryLines_start (l : FramingLibrary φ) (protocol lines : List Bytes) :
    (queryLines l protocol lines { transport := .detect, protocol := protocol.length } = none ∧
      protocol = [] ∧ ¬FirstHasSpace lines) ∨
    ((protocol = [] → FirstHasSpace lines) ∧
      ∃ peer, queryLines l protocol lines { transport := .detect, protocol := protocol.length } =
          some peer ∧ Selected l protocol (lines.map trimmedText) peer) := by
  have hstart : ({ transport := .detect, protocol := protocol.length } : WsPeerInfo φ).protocol =
      protocol.length := rfl
  rcases queryLines_selected hstart rfl with h | ⟨hfirst, peer, hpeer, hsel, -⟩
  · exact .inl h
  · exact .inr ⟨hfirst, peer, hpeer, hsel⟩

theorem queryLines_append (first : List Bytes) (hhost : peer.host = none) :
    queryLines l protocol (first ++ lines) peer =
      match queryLines l protocol first peer with
      | none => none
      | some peer => if peer.host.isSome then some peer else queryLines l protocol lines peer := by
  induction first generalizing peer with
  | nil => simp [queryLines, hhost]
  | cons line first ih =>
      rw [List.cons_append, queryLines, queryLines]
      cases queryLine l protocol line peer with
      | none => rfl
      | some p =>
          by_cases h : p.host.isSome
          · simp only [h, if_true]
          · have hnone : p.host = none := by simpa using h
            simp only [h, if_false, Bool.false_eq_true]
            exact ih hnone

/-! ## `query` -/

/-- The loop over the expressions reads the lines of all the files. -/
theorem queryExpressions_lines {file : Bytes → Option Bytes} {base : Bytes}
    {header : List WsHttpHeader} (hroom : base.length + 1 < backendFileMaxPath)
    (expressions : List Bytes) (endpoint : Bytes) (hhost : peer.host = none) :
    queryExpressions l file base protocol header expressions endpoint peer =
      queryLines l protocol ((fileContents file base header expressions endpoint).flatMap getLines)
        peer := by
  induction expressions generalizing endpoint peer with
  | nil => rfl
  | cons expression expressions ih =>
      unfold queryExpressions fileContents
      cases hpath : expressionPath base expression endpoint header with
      | none =>
          rw [expressionPath, if_neg (by omega)] at hpath
          cases hpath
      | some r =>
          cases hfile : r.1.bind file with
          | none =>
              simp only [hfile, Option.toList_none, List.nil_append]
              exact ih r.2 hhost
          | some content =>
              simp only [hfile, Option.toList_some, List.singleton_append, List.flatMap_cons]
              rw [queryLines_append _ hhost]
              cases queryLines l protocol (getLines content) peer with
              | none => rfl
              | some p =>
                  by_cases h : p.host.isSome
                  · simp only [h, if_true]
                  · have hnone : p.host = none := by simpa using h
                    simp only [h, if_false, Bool.false_eq_true]
                    exact ih r.2 hnone

end

/-- **The selection** comes to its end with the first line that qualifies just if the base leaves
room for an expression, a client without protocols finds a space in the first line, and what is
dropped at the ends of the lines does not matter. -/
theorem query_selects_iff (b : BackendFile) (l : FramingLibrary φ) (file : Bytes → Option Bytes)
    (endpoint : Bytes) (protocol : List Bytes) (header : List WsHttpHeader) :
    (∃ peer, b.query l file endpoint protocol header = some peer ∧
      Selected l protocol ((b.lines file endpoint header).map lineText) peer) ↔
    (b.expression = [] ∨ b.backendPath.length + 1 < backendFileMaxPath) ∧
      (protocol = [] → FirstHasSpace (b.lines file endpoint header)) ∧
      TrimHarmless l protocol (b.lines file endpoint header) := by
  have hquery : b.expression = [] ∨ b.backendPath.length + 1 < backendFileMaxPath →
      b.query l file endpoint protocol header =
        queryLines l protocol (b.lines file endpoint header)
          { transport := .detect, protocol := protocol.length } := by
    rintro (hnil | hroom)
    · rw [BackendFile.query, BackendFile.lines, hnil]
      rfl
    · exact queryExpressions_lines hroom b.expression endpoint rfl
  constructor
  · rintro ⟨peer, hpeer, hselected⟩
    have hroom : b.expression = [] ∨ b.backendPath.length + 1 < backendFileMaxPath := by
      cases hexp : b.expression with
      | nil => exact .inl rfl
      | cons e es =>
          right
          rw [BackendFile.query, hexp, queryExpressions, expressionPath] at hpeer
          split at hpeer
          · cases hpeer
          · next hsome =>
            split at hsome
            · cases hsome
            · omega
    refine ⟨hroom, ?_⟩
    rw [hquery hroom] at hpeer
    rcases queryLines_start l protocol (b.lines file endpoint header) with
      ⟨hnone, -, -⟩ | ⟨hfirst, peer', hpeer', htrimmed⟩
    · rw [hnone] at hpeer
      cases hpeer
    · obtain rfl := Option.some.inj (hpeer.symm.trans hpeer')
      exact ⟨hfirst, (trimHarmless_iff htrimmed).mp hselected⟩
  · rintro ⟨hroom, hfirst, htrim⟩
    rw [hquery hroom]
    rcases queryLines_start l protocol (b.lines file endpoint header) with
      ⟨-, hnil, hno⟩ | ⟨-, peer, hpeer, hsel⟩
    · exact absurd (hfirst hnil) hno
    · exact ⟨peer, hpeer, (trimHarmless_iff hsel).mpr htrim⟩

/-- The library with the default function alone. -/
def sampleLibrary : FramingLibrary Unit where
  functions := [(ascii "auto", framingAuto)]
  auto := ⟨framingAuto, rfl⟩

/-- A blank line ahead of a peer stops the query of a client without protocols; and a line for
another protocol is taken for `chat`, since what is not ASCII at its end is dropped. -/
theorem query_selects_fails :
    ((BackendFile.query ⟨[], [ascii "peers"]⟩ sampleLibrary
      (fun _ => some (ascii "\nlocalhost:5900 binary\n")) (ascii "/") [] []).isNone = true ∧
    ¬∃ peer, BackendFile.query ⟨[], [ascii "peers"]⟩ sampleLibrary
        (fun _ => some (ascii "\nlocalhost:5900 binary\n")) (ascii "/") [] [] = some peer ∧
      Selected sampleLibrary [] ((BackendFile.lines ⟨[], [ascii "peers"]⟩
        (fun _ => some (ascii "\nlocalhost:5900 binary\n")) (ascii "/") []).map lineText) peer) ∧
    ¬∃ peer, BackendFile.query ⟨[], [ascii "peers"]⟩ sampleLibrary
        (fun _ => some (ascii "h chat" ++ [0xC3, 0xA9, 10])) (ascii "/") [ascii "chat"] [] =
          some peer ∧
      Selected sampleLibrary [ascii "chat"] ((BackendFile.lines ⟨[], [ascii "peers"]⟩
        (fun _ => some (ascii "h chat" ++ [0xC3, 0xA9, 10])) (ascii "/") []).map lineText) peer := by
  refine ⟨⟨by decide +kernel, ?_⟩, ?_⟩
  · rw [query_selects_iff]
    rintro ⟨-, hfirst, -⟩
    have hlines : BackendFile.lines ⟨[], [ascii "peers"]⟩
        (fun _ => some (ascii "\nlocalhost:5900 binary\n")) (ascii "/") [] =
          [[10], ascii "localhost:5900 binary\n"] := by
      decide +kernel
    rw [hlines] at hfirst
    exact absurd (hfirst rfl [10] rfl) (by decide)
  · rw [query_selects_iff]
    rintro ⟨-, -, htrim⟩
    have hlines : BackendFile.lines ⟨[], [ascii "peers"]⟩
        (fun _ => some (ascii "h chat" ++ [0xC3, 0xA9, 10])) (ascii "/") [] =
          [ascii "h chat" ++ [0xC3, 0xA9, 10]] := by
      decide +kernel
    rw [hlines] at htrim
    have htrimmed : Qualifies [ascii "chat"]
        (trimmedText (ascii "h chat" ++ [0xC3, 0xA9, 10])) :=
      ⟨⟨ascii "h", ascii "chat", none, none⟩, 0, (peerLine_iff _).mpr (by decide), by decide⟩
    have hline : ¬Qualifies [ascii "chat"] (lineText (ascii "h chat" ++ [0xC3, 0xA9, 10])) := by
      rintro ⟨f, p, hf, hp⟩
      have hfields : f = ⟨ascii "h", ascii "chat" ++ [0xC3, 0xA9], none, none⟩ :=
        hf.unique ((peerLine_iff _).mpr (by decide))
      rw [hfields, Indicates, if_neg (by decide)] at hp
      have hmem := List.mem_of_getElem? hp.1
      exact absurd hmem (by decide)
    rcases htrim with ⟨f, g, -, hg, -⟩ | hnone
    · obtain ⟨text, hmem, hq⟩ := hg.qualifies
      obtain rfl := List.mem_singleton.mp hmem
      exact hline hq
    · exact (hnone _ (List.mem_singleton_self _)).1 htrimmed

end Websocksy

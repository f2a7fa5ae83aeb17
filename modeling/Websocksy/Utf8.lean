import Websocksy.Lib.Rfc3629
import Websocksy.Separators

/-!
# Text frames and UTF-8

The loop of `framing_auto` looks at the bit patterns of the bytes only, so it takes every
string of sequences with these patterns for UTF-8.  It is right about a string unless the
string is cut completely into such sequences and one of them is one that the RFC forbids.
A text frame can moreover hold a string without the patterns, where a segment with them
came before it in the same read (`typed_by_utf8_iff`).
-/

namespace Websocksy

open Buffer CString Rfc3629

variable {φ : Type}

/-! ## The loop of `framing_auto` -/

theorem utf8Byte_iff (a : UInt8) : utf8Byte a = true ↔ Tail a :=
  forall_byte (fun a => utf8Byte a = true ↔ Tail a) (by decide +kernel) a

/-- The masks of the loop, from the longest sequence to the shortest. -/
theorem leads (a : UInt8) :
    ((a &&& 0xF8 == 0xF0) = true ↔ 0xF0 ≤ a ∧ a ≤ 0xF7) ∧
    ((a &&& 0xF0 == 0xE0) = true ↔ 0xE0 ≤ a ∧ a ≤ 0xEF) ∧
    ((a &&& 0xE0 == 0xC0) = true ↔ 0xC0 ≤ a ∧ a ≤ 0xDF) ∧
    ((a &&& 0x80 != 0) = true ↔ ¬a ≤ 0x7F) :=
  forall_byte (fun a => ((a &&& 0xF8 == 0xF0) = true ↔ 0xF0 ≤ a ∧ a ≤ 0xF7) ∧
    ((a &&& 0xF0 == 0xE0) = true ↔ 0xE0 ≤ a ∧ a ≤ 0xEF) ∧
    ((a &&& 0xE0 == 0xC0) = true ↔ 0xC0 ≤ a ∧ a ≤ 0xDF) ∧
    ((a &&& 0x80 != 0) = true ↔ ¬a ≤ 0x7F)) (by decide +kernel) a

theorem sequenceLength_of (a : UInt8) :
    (0xF0 ≤ a ∧ a ≤ 0xF7 → sequenceLength a = 4) ∧ (0xE0 ≤ a ∧ a ≤ 0xEF → sequenceLength a = 3) ∧
    (0xC0 ≤ a ∧ a ≤ 0xDF → sequenceLength a = 2) ∧ (a ≤ 0x7F → sequenceLength a = 1) :=
  forall_byte (fun a =>
    (0xF0 ≤ a ∧ a ≤ 0xF7 → sequenceLength a = 4) ∧ (0xE0 ≤ a ∧ a ≤ 0xEF → sequenceLength a = 3) ∧
    (0xC0 ≤ a ∧ a ≤ 0xDF → sequenceLength a = 2) ∧ (a ≤ 0x7F → sequenceLength a = 1))
    (by decide +kernel) a

/-- No sequence starts with a byte that none of the masks fits. -/
theorem lead_of_bitPattern {a : UInt8} {r : Bytes} (h : bitPattern (a :: r)) :
    0xF0 ≤ a ∧ a ≤ 0xF7 ∨ 0xE0 ≤ a ∧ a ≤ 0xEF ∨ 0xC0 ≤ a ∧ a ≤ 0xDF ∨ a ≤ 0x7F := by
  match r, h with
  | [], h => exact .inr (.inr (.inr h))
  | [_], h => exact .inr (.inr (.inl h.1))
  | [_, _], h => exact .inr (.inl h.1)
  | [_, _, _], h => exact .inl h.1

section

variable (data : Bytes) (length p : Nat)

/-- The bytes from `p` on are a string of sequences if the first sequence is there and those
behind it are. -/
theorem slice_mem_bitPatterns (h : p < length) :
    slice data p (length - p) ∈ bitPatterns ↔
      p + sequenceLength (data.getD p 0) ≤ length ∧
      bitPattern (slice data p (sequenceLength (data.getD p 0))) ∧
      slice data (p + sequenceLength (data.getD p 0))
        (length - (p + sequenceLength (data.getD p 0))) ∈ bitPatterns := by
  have hcons : slice data p (length - p) = data.getD p 0 :: slice data (p + 1) (length - p - 1) := by
    rw [show length - p = length - p - 1 + 1 by omega, slice_succ]
    rfl
  have hmem := cons_mem_bitPatterns (data.getD p 0) (slice data (p + 1) (length - p - 1))
  rw [← hcons, length_slice, take_slice, drop_slice] at hmem
  rw [hmem, Nat.sub_sub]
  generalize sequenceLength (data.getD p 0) = k
  constructor
  · rintro ⟨hk, hfirst, hrest⟩
    rw [Nat.min_eq_left hk] at hfirst
    exact ⟨by omega, hfirst, hrest⟩
  · rintro ⟨hk, hfirst, hrest⟩
    rw [Nat.min_eq_left (by omega)]
    exact ⟨by omega, hfirst, hrest⟩

/-- **The loop checks the bit patterns.** -/
theorem framingAutoLoop_iff (fuel : Nat) (h : length ≤ p + fuel) :
    framingAutoLoop data length fuel p = true ↔ slice data p (length - p) ∈ bitPatterns := by
  induction fuel generalizing p with
  | zero =>
      rw [show length - p = 0 by omega]
      exact iff_of_true rfl nil_mem_bitPatterns
  | succ fuel ih =>
      unfold framingAutoLoop
      dsimp only
      by_cases hend : length ≤ p
      · rw [if_pos hend, show length - p = 0 by omega]
        exact iff_of_true rfl nil_mem_bitPatterns
      rw [if_neg hend, slice_mem_bitPatterns data length p (by omega)]
      obtain ⟨h4, h3, h2, h1⟩ := leads (data.getD (p + 0) 0)
      obtain ⟨k4, k3, k2, k1⟩ := sequenceLength_of (data.getD p 0)
      have hpast : ∀ k, length ≤ p + k ↔ ¬p + (k + 1) ≤ length := fun k => by omega
      by_cases hfour : 0xF0 ≤ data.getD p 0 ∧ data.getD p 0 ≤ 0xF7
      · have hfirst : bitPattern (slice data p 4) ↔ Tail (data.getD (p + 1) 0) ∧
            Tail (data.getD (p + 2) 0) ∧ Tail (data.getD (p + 3) 0) := and_iff_right hfour
        rw [if_pos (h4.mpr hfour), k4 hfour, hfirst, ← ih (p + 4) (by omega)]
        simp only [← utf8Byte_iff, hpast]
        simp [and_assoc]
      rw [if_neg fun h => hfour (h4.mp h)]
      by_cases hthree : 0xE0 ≤ data.getD p 0 ∧ data.getD p 0 ≤ 0xEF
      · have hfirst : bitPattern (slice data p 3) ↔ Tail (data.getD (p + 1) 0) ∧
            Tail (data.getD (p + 2) 0) := and_iff_right hthree
        rw [if_pos (h3.mpr hthree), k3 hthree, hfirst, ← ih (p + 3) (by omega)]
        simp only [← utf8Byte_iff, hpast]
        simp [and_assoc]
      rw [if_neg fun h => hthree (h3.mp h)]
      by_cases htwo : 0xC0 ≤ data.getD p 0 ∧ data.getD p 0 ≤ 0xDF
      · have hfirst : bitPattern (slice data p 2) ↔ Tail (data.getD (p + 1) 0) := and_iff_right htwo
        rw [if_pos (h2.mpr htwo), k2 htwo, hfirst, ← ih (p + 2) (by omega)]
        simp only [← utf8Byte_iff, hpast]
        simp [and_assoc]
      rw [if_neg fun h => htwo (h2.mp h)]
      by_cases hone : data.getD p 0 ≤ 0x7F
      · have hfirst : bitPattern (slice data p 1) := hone
        rw [if_neg fun h => h1.mp h hone, k1 hone, ← ih (p + 1) (by omega)]
        exact ⟨fun h => ⟨by omega, hfirst, h⟩, fun h => h.2.2⟩
      · rw [if_pos (h1.mpr hone)]
        refine iff_of_false Bool.false_ne_true fun ⟨_, hfirst, _⟩ => ?_
        obtain ⟨k, hk⟩ : ∃ k, sequenceLength (data.getD p 0) = k + 1 := by
          unfold sequenceLength
          split
          · exact ⟨0, rfl⟩
          · split
            · exact ⟨1, rfl⟩
            · split
              · exact ⟨2, rfl⟩
              · exact ⟨3, rfl⟩
        rw [hk, slice_succ] at hfirst
        rcases lead_of_bitPattern hfirst with h | h | h | h
        · exact hfour h
        · exact hthree h
        · exact htwo h
        · exact hone h

end

/-! ## The framing functions -/

/-- `framing_auto` sets the opcode to text exactly for a string of sequences. -/
theorem framingAuto_text (data : Bytes) (length lastRead : Nat) (op : WsOperation)
    (framingData : Option φ) (config : Option Bytes) :
    (framingAuto (some data) length lastRead (some op) framingData config).2.1 =
      if framingAutoLoop data length length 0 then some .text else some op := by
  unfold framingAuto
  rw [Option.getD_some]
  split <;> rfl

theorem framingAutoLoop_mem (data : Bytes) (length : Nat) :
    framingAutoLoop data length length 0 = true ↔ slice data 0 length ∈ bitPatterns :=
  framingAutoLoop_iff data length 0 length (by omega)

/-- The framing function makes text of every segment that is a string of sequences, and leaves the
opcode alone otherwise. -/
def Framing.TypesText (f : WsFraming φ) : Prop :=
  ∀ data length lastRead opcode framingData config,
    let r := f (some data) length lastRead (some opcode) framingData config
    (r.1 < 0 → r.2.1 = some opcode) ∧
      (0 < r.1 → slice data 0 r.1.toNat ∈ bitPatterns ∧ r.2.1 = some .text ∨
        slice data 0 r.1.toNat ∉ bitPatterns ∧ r.2.1 = some opcode)

theorem framingAuto_typesText : Framing.TypesText (framingAuto : WsFraming φ) := by
  intro data length lastRead opcode framingData config
  have hcount : (framingAuto (some data) length lastRead (some opcode) framingData config).1 =
      length := rfl
  dsimp only
  rw [hcount, framingAuto_text, Int.toNat_natCast, ← framingAutoLoop_mem]
  refine ⟨fun h => absurd h (by omega), fun _ => ?_⟩
  by_cases hloop : framingAutoLoop data length length 0
  · exact .inl ⟨hloop, if_pos hloop⟩
  · exact .inr ⟨hloop, if_neg hloop⟩

/-- `framing_newline` hands the bytes up to the newline to `framing_auto`. -/
theorem framingNewline_auto (data : Bytes) (length lastRead : Nat) (framingData : Option Bytes)
    (config : Option Bytes) :
    (∀ opcode, framingNewline (some data) length lastRead opcode framingData config = none) ∨
    ∃ (k : Nat) (separator : Option Bytes), ∀ opcode,
      framingNewline (some data) length lastRead opcode framingData config =
        let framed := framingAuto (φ := Bytes) (some data) k 0 opcode none none
        some (framed.1, framed.2.1, separator) := by
  have hcount (separator : Bytes) : ∃ k : Nat, separatorFrame separator data length lastRead = k := by
    unfold separatorFrame
    split
    · exact ⟨_, rfl⟩
    · exact ⟨_, rfl⟩
  unfold framingNewline
  cases framingData with
  | some separator =>
      obtain ⟨k, hk⟩ := hcount separator
      refine .inr ⟨k, some separator, fun opcode => ?_⟩
      simp only [framingSeparator, hk]
      simp
  | none =>
      cases config with
      | none => exact .inl fun opcode => rfl
      | some config =>
          obtain ⟨k, hk⟩ := hcount (newlineBytes config)
          refine .inr ⟨k, some (newlineBytes config), fun opcode => ?_⟩
          simp only [Option.bind_some,
            framingSeparator_call (separatorParse_newline config) _ _ _ _ (.inl rfl), hk]
          simp

theorem framingNewline_typesText : Framing.TypesText framingNewline.total := by
  intro data length lastRead opcode framingData config
  unfold WsFraming?.total
  obtain hnone | ⟨k, separator, hcall⟩ := framingNewline_auto data length lastRead framingData config
  · rw [hnone]
    exact ⟨fun _ => rfl, fun h => absurd h (by simp)⟩
  · rw [hcall]
    exact framingAuto_typesText data k 0 opcode (none : Option Bytes) none

/-! ## The frames of a read -/

section

variable {f : WsFraming φ} {config : Option Bytes}

/-- What a call comes to: no segment and the opcode as it was, or a segment and its type. -/
theorem Framing.TypesText.call (hf : Framing.TypesText f) (config : Option Bytes)
    (c : FramingCall φ) :
    (c.segment? f config = none ∧ ∀ d, c.next f config = some d → d.opcode = c.opcode) ∨
    ∃ op seg, c.segment? f config = some (op, seg) ∧
      (seg ∈ bitPatterns ∧ op = .text ∨ seg ∉ bitPatterns ∧ op = c.opcode) ∧
      ∀ d, c.next f config = some d → d.opcode = op := by
  obtain ⟨hneg, hpos⟩ := hf c.buffer c.length c.bytesRead c.opcode c.framingData config
  have hleft {op : WsOperation} (h : (f (some c.buffer) c.length c.bytesRead (some c.opcode)
      c.framingData config).2.1 = some op) : (c.answer f config).2.1 = op := by
    show Option.getD _ _ = _
    rw [h]
    rfl
  cases htake : c.take f config with
  | segment op seg rest again =>
      obtain ⟨k, hk⟩ := FramingCall.take_segment htake
      have hvalue : (f (some c.buffer) c.length c.bytesRead (some c.opcode) c.framingData config).1 =
          k := hk.value
      have := hk.pos
      rw [hvalue, Int.toNat_natCast, ← hk.data] at hpos
      refine .inr ⟨op, seg, hk.segment?, ?_, fun d hd => (next_opcode hd).trans hk.opcode.symm⟩
      rcases hpos (by omega) with ⟨hmem, hset⟩ | ⟨hmem, hset⟩
      · exact .inl ⟨hmem, hk.opcode.trans (hleft hset)⟩
      · exact .inr ⟨hmem, hk.opcode.trans (hleft hset)⟩
  | failed rest =>
      obtain ⟨hvalue, -, -⟩ := FramingCall.take_failed htake
      exact .inl ⟨segment?_declined (by omega),
        fun d hd => (next_opcode hd).trans (hleft (hneg hvalue))⟩
  | overrun =>
      refine .inl ⟨by unfold FramingCall.segment?; rw [htake], fun d hd => ?_⟩
      unfold FramingCall.next at hd
      rw [htake] at hd
      cases hd
  | declined rest =>
      refine .inl ⟨by unfold FramingCall.segment?; rw [htake], fun d hd => ?_⟩
      unfold FramingCall.next at hd
      rw [htake] at hd
      cases hd

/-- Everything behind a text segment is text. -/
theorem Framing.TypesText.text (hf : Framing.TypesText f) (n : Nat) (c : FramingCall φ)
    (hop : c.opcode = .text) {made : List (FramingCall φ)} (hm : made <+: c.calls f config n) :
    ∀ p ∈ made.filterMap (·.segment? f config), p.1 = .text := by
  induction made generalizing n c with
  | nil => exact fun p hp => nomatch hp
  | cons b made ih =>
      obtain ⟨rfl, hmade⟩ := cons_prefix_calls hm
      have hrest (hd : ∀ d, b.next f config = some d → d.opcode = .text) :
          ∀ p ∈ made.filterMap (·.segment? f config), p.1 = .text := by
        obtain rfl | ⟨m, d, hnext, hm⟩ := hmade
        · exact fun p hp => nomatch hp
        · exact ih m d (hd d hnext) hm
      obtain ⟨hnone, hkeep⟩ | ⟨op, seg, hseg, htype, hkeep⟩ := hf.call config b
      · rw [List.filterMap_cons, hnone]
        exact hrest fun d hd => (hkeep d hd).trans hop
      · have htext : op = .text := by
          rcases htype with ⟨-, h⟩ | ⟨-, h⟩
          · exact h
          · exact h.trans hop
        rw [List.filterMap_cons, hseg]
        intro p hp
        rcases List.mem_cons.mp hp with rfl | hp
        · exact htext
        · exact hrest (fun d hd => (hkeep d hd).trans htext) p hp

end

/-- No way to cut the string completely into sequences with the bit patterns of UTF-8 gives an
overlong one, a surrogate, or one above U+10FFFF. -/
def NothingForbidden (b : Bytes) : Prop :=
  ∀ l : List Bytes, (∀ c ∈ l, bitPattern c) → l.flatten = b → ∀ c ∈ l, ¬Forbidden c

theorem mem_utf8Octets (b : Bytes) : b ∈ utf8Octets ↔ b ∈ bitPatterns ∧ NothingForbidden b := by
  unfold NothingForbidden
  rw [← mem_utf8Octets_iff]
  constructor
  · intro h
    have hpatterns : b ∈ bitPatterns := by
      obtain ⟨l, rfl, hl⟩ := h
      exact ⟨l, rfl, fun c hc => utf8Char_bitPattern (hl c hc)⟩
    exact ⟨hpatterns, iff_of_true hpatterns h⟩
  · rintro ⟨h, hiff⟩
    exact hiff.mp h

/-- A string without the patterns is not cut into them, so nothing forbidden is in it. -/
theorem nothingForbidden_of_notMem {b : Bytes} (h : b ∉ bitPatterns) : NothingForbidden b := by
  rintro l hl rfl
  exact absurd ⟨l, rfl, hl⟩ h

/-- **The text frames of the calls made** hold UTF-8 exactly if nothing forbidden is in a segment,
and none that has not the patterns comes behind one that has. -/
theorem Framing.TypesText.utf8 {f : WsFraming φ} {config : Option Bytes} (hf : Framing.TypesText f)
    (n : Nat) (c : FramingCall φ) (hop : c.opcode = .binary) {made : List (FramingCall φ)}
    (hm : made <+: c.calls f config n) :
    (∀ p ∈ made.filterMap (·.segment? f config), p.1 = .text → p.2 ∈ utf8Octets) ↔
      (∀ p ∈ made.filterMap (·.segment? f config), NothingForbidden p.2) ∧
      (made.filterMap (·.segment? f config)).Pairwise
        fun p q => p.2 ∈ bitPatterns → q.2 ∈ bitPatterns := by
  induction made generalizing n c with
  | nil => simp
  | cons b made ih =>
      obtain ⟨rfl, hmade⟩ := cons_prefix_calls hm
      -- where the next call is given binary again
      have hrest (hd : ∀ d, b.next f config = some d → d.opcode = .binary) :
          (∀ p ∈ made.filterMap (·.segment? f config), p.1 = .text → p.2 ∈ utf8Octets) ↔
            (∀ p ∈ made.filterMap (·.segment? f config), NothingForbidden p.2) ∧
            (made.filterMap (·.segment? f config)).Pairwise
              fun p q => p.2 ∈ bitPatterns → q.2 ∈ bitPatterns := by
        obtain rfl | ⟨m, d, hnext, hm⟩ := hmade
        · simp
        · exact ih m d (hd d hnext) hm
      obtain ⟨hnone, hkeep⟩ | ⟨op, seg, hseg, htype, hkeep⟩ := hf.call config b
      · rw [List.filterMap_cons, hnone]
        exact hrest fun d hd => (hkeep d hd).trans hop
      rw [List.filterMap_cons, hseg]
      simp only [List.forall_mem_cons, List.pairwise_cons]
      rcases htype with ⟨hmem, rfl⟩ | ⟨hmem, rfl⟩
      · -- a text segment: all that follow are text as well
        have htext : ∀ p ∈ made.filterMap (·.segment? f config), p.1 = .text := by
          obtain rfl | ⟨m, d, hnext, hm⟩ := hmade
          · exact fun p hp => nomatch hp
          · exact hf.text m d (hkeep d hnext) hm
        generalize made.filterMap (·.segment? f config) = segs at htext
        constructor
        · rintro ⟨hfirst, hbehind⟩
          have hall : ∀ p ∈ segs, p.2 ∈ bitPatterns ∧ NothingForbidden p.2 := fun p hp =>
            (mem_utf8Octets p.2).mp (hbehind p hp (htext p hp))
          refine ⟨⟨((mem_utf8Octets seg).mp (hfirst rfl)).2, fun p hp => (hall p hp).2⟩,
            fun p hp _ => (hall p hp).1, ?_⟩
          exact List.pairwise_of_forall_mem_list fun p _ q hq _ => (hall q hq).1
        · rintro ⟨⟨hfirst, hallowed⟩, hbehind, -⟩
          exact ⟨fun _ => (mem_utf8Octets seg).mpr ⟨hmem, hfirst⟩,
            fun p hp _ => (mem_utf8Octets p.2).mpr ⟨hbehind p hp hmem, hallowed p hp⟩⟩
      · rw [hrest fun d hd => (hkeep d hd).trans hop]
        constructor
        · rintro ⟨-, hallowed, hpairs⟩
          exact ⟨⟨nothingForbidden_of_notMem hmem, hallowed⟩, fun p _ h => absurd h hmem, hpairs⟩
        · rintro ⟨⟨-, hallowed⟩, -, hpairs⟩
          exact ⟨fun h => absurd (hop.symm.trans h) (by decide), hallowed, hpairs⟩

/-- `framing_auto` is right about the byte string `b`: it sets the opcode to text exactly if `b` is
UTF-8, and leaves it alone otherwise. -/
def DetectsUtf8 (φ : Type) (b : Bytes) : Prop :=
  ∀ data length, slice data 0 length = b → ∀ lastRead op (framingData : Option φ) config,
    (framingAuto (some data) length lastRead (some op) framingData config).2.1 = some .text ↔
      op = .text ∨ b ∈ utf8Octets

/-- The segments that a read of `ws_peer_data` comes to, and which text frames are right: all of
them exactly if nothing forbidden is in a segment, and none that has not the bit patterns comes
behind one that has. -/
def TextFrames (f : WsFraming φ) : Prop :=
  ∀ (env : Env φ) (fuel : Nat) (s t : Conn φ) (answer : Option Bytes) (first : FramingCall φ)
    (rv : Bool), s.ws.peer.framing = some f → s.firstCall? answer = some first →
    wsPeerData env fuel answer s = some (rv, t) →
    ∃ made sent unsent,
      made <+: first.calls f s.ws.peer.framingConfig fuel ∧
      made.filterMap (·.segment? f s.ws.peer.framingConfig) = sent ++ unsent ∧
      segments s.ws.conn t.world.log = segments s.ws.conn s.world.log ++ sent ∧
      Unsent env t rv unsent ∧
      ((∀ p ∈ sent ++ unsent, p.1 = .text → p.2 ∈ utf8Octets) ↔
        (∀ p ∈ sent ++ unsent, NothingForbidden p.2) ∧
        (sent ++ unsent).Pairwise fun p q => p.2 ∈ bitPatterns → q.2 ∈ bitPatterns)

theorem Framing.TypesText.textFrames {f : WsFraming φ} (hf : Framing.TypesText f) :
    TextFrames f := by
  intro env fuel s t answer first rv hframing hfirst h
  obtain ⟨hop, made, sent, unsent, hmade, hsegs, hsent, hu⟩ := wsPeerData_made fuel hframing hfirst h
  exact ⟨made, sent, unsent, hmade, hsegs, hsent, hu, hsegs ▸ hf.utf8 fuel first hop hmade⟩

/-- **The type of a frame**: `framing_auto` is right about a byte string exactly if nothing
forbidden is in it, and so are the text frames of a read with the framings auto and newline if
moreover no segment takes the type of the one before it. -/
theorem typed_by_utf8_iff :
    (∀ b : Bytes, DetectsUtf8 φ b ↔ NothingForbidden b) ∧
    TextFrames (framingAuto : WsFraming φ) ∧ TextFrames framingNewline.total := by
  refine ⟨fun b => ?_, framingAuto_typesText.textFrames, framingNewline_typesText.textFrames⟩
  have hcall (data : Bytes) (length lastRead : Nat) (op : WsOperation) (framingData : Option φ)
      (config : Option Bytes) :
      (framingAuto (some data) length lastRead (some op) framingData config).2.1 = some .text ↔
        op = .text ∨ slice data 0 length ∈ bitPatterns := by
    rw [framingAuto_text, ← framingAutoLoop_mem]
    by_cases hloop : framingAutoLoop data length length 0
    · simp [hloop]
    · simp [hloop]
  constructor
  · intro h
    have hauto := h b b.length (slice_self b) 0 .binary none none
    rw [hcall, slice_self, or_iff_right (by decide), or_iff_right (by decide)] at hauto
    exact (mem_utf8Octets_iff b).mp hauto
  · rintro h data length rfl lastRead op framingData config
    rw [hcall, (mem_utf8Octets_iff _).mpr h]

/-- The two bytes C0 80 and the surrogate ED A0 80 are sent as text. -/
theorem typed_by_utf8_fails :
    ((framingAuto (some [0xC0, 0x80]) 2 2 (some .binary) (none : Option Unit) none).2.1 = some .text ∧
      [0xC0, 0x80] ∉ utf8Octets) ∧
    (framingAuto (some [0xED, 0xA0, 0x80]) 3 3 (some .binary) (none : Option Unit) none).2.1 =
        some .text ∧
      [0xED, 0xA0, 0x80] ∉ utf8Octets := by
  refine ⟨⟨by decide, fun h => ?_⟩, by decide, fun h => ?_⟩
  · have hchar : utf8Char [0xC0, 0x80] := utf8Char_of_mem ⟨by decide, by decide⟩ h
    exact absurd hchar.1 (by decide)
  · have hchar : utf8Char [0xED, 0xA0, 0x80] := utf8Char_of_mem ⟨by decide, by decide, by decide⟩ h
    exact absurd hchar.1 (by decide)

end Websocksy

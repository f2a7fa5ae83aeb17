import Websocksy.FramingCalls

/-!
# The opcode of a frame

`opcode` is set to binary once, before the framing loop, and not before each call of the
framing function.  A function that only ever sets it to text, as `framing_auto` does and
the functions that are built from it, so sends everything as text that follows a text
segment in the same read (`opcode_independent_iff`).
-/

namespace Websocksy

open Buffer CString Relation

variable {φ : Type}

/-- What is passed to `ws_send_frame` after the call, if it comes to a segment. -/
def FramingCall.segment? (f : WsFraming φ) (config : Option Bytes) (c : FramingCall φ) :
    Option (WsOperation × Bytes) :=
  match c.take f config with
  | .segment op data _ _ => some (op, data)
  | _ => none

/-- The opcode that the framing function chooses if it starts out as binary. -/
def FramingCall.chosen (f : WsFraming φ) (config : Option Bytes) (c : FramingCall φ) :
    WsOperation :=
  (FramingCall.answer f config { c with opcode := .binary }).2.1

/-- The segments of the calls `cs` have the opcodes that the framing function chooses for them. -/
def OpcodesChosen (f : WsFraming φ) (config : Option Bytes) (cs : List (FramingCall φ)) : Prop :=
  ∀ c ∈ cs, ∀ p, c.segment? f config = some p → p.1 = c.chosen f config

/-- The framing function only writes the opcode: a call sets it or leaves it as it is, and nothing
else depends on it. -/
def Framing.SetsOpcode (f : WsFraming φ) : Prop :=
  ∀ data length lastRead framingData config, ∃ n framingData', ∃ set : Option WsOperation,
    ∀ opcode, f data length lastRead (some opcode) framingData config =
      (n, some (set.getD opcode), framingData')

/-- The framing function sets the opcode to text or leaves it as it is, and it does not look
at it. -/
def Framing.SetsText (f : WsFraming φ) : Prop :=
  ∀ data length lastRead opcode framingData config,
    let r := f data length lastRead (some .binary) framingData config
    (r.2.1 = some .text ∨ r.2.1 = some .binary) ∧
      f data length lastRead (some opcode) framingData config =
        (r.1, if r.2.1 = some .text then some .text else some opcode, r.2.2)

/-- The opcode that a call sets, if it does not leave it as it is. -/
def FramingCall.sets (f : WsFraming φ) (config : Option Bytes) (c : FramingCall φ) :
    Option WsOperation :=
  if (FramingCall.answer f config { c with opcode := .text }).2.1 = c.chosen f config then
    some (c.chosen f config)
  else none

/-- Where a segment comes with the opcode left as it is, the last opcode set before, if there is
one, is binary. -/
def LeftBinary (f : WsFraming φ) (config : Option Bytes) (cs : List (FramingCall φ)) : Prop :=
  ∀ before c after, cs = before ++ c :: after → (c.segment? f config).isSome →
    c.sets f config = none → ∀ op ∈ (before.filterMap (·.sets f config)).getLast?, op = .binary

/-- The opcode that the call makes of `op`. -/
def FramingCall.makes (f : WsFraming φ) (config : Option Bytes) (op : WsOperation)
    (c : FramingCall φ) : WsOperation :=
  (FramingCall.answer f config { c with opcode := op }).2.1

/-- What the next call is handed if this one is handed `op`: the opcode chosen for its segment, or,
where it comes to none, what it makes of `op`. -/
def FramingCall.handsOn (f : WsFraming φ) (config : Option Bytes) (op : WsOperation)
    (c : FramingCall φ) : WsOperation :=
  if (c.segment? f config).isSome then c.chosen f config else c.makes f config op

/-- For each segment, the framing function chooses the same opcode whether it is handed binary or
the opcode that it chose for the segment before. -/
def NeighboursAgree (f : WsFraming φ) (config : Option Bytes) (cs : List (FramingCall φ)) : Prop :=
  ∀ before c after, cs = before ++ c :: after → (c.segment? f config).isSome →
    c.makes f config (before.foldl (FramingCall.handsOn f config) .binary) = c.chosen f config

/-- What became of the last segment: it was sent like the others, or a send failed. -/
inductive Unsent (env : Env φ) (t : Conn φ) : Bool → List (WsOperation × Bytes) → Prop
  | none : Unsent env t false []
  | failed (op : WsOperation) (data : Bytes) (u : Conn φ)
      (h : wsForward env op data u = (true, t)) : Unsent env t true [(op, data)]

section

variable {env : Env φ} {f : WsFraming φ} {config : Option Bytes} {c d : FramingCall φ}
  {s t : Conn φ}

theorem FramingCall.Takes.segment? {op : WsOperation} {seg : Bytes} {rest : FramingCall φ}
    {again : Bool} {k : Nat} (h : c.Takes f config op seg rest again k) :
    c.segment? f config = some (op, seg) := by
  unfold FramingCall.segment?
  rw [h.taken]

theorem segment?_declined (h : (c.answer f config).1 ≤ 0) : c.segment? f config = none := by
  unfold FramingCall.segment?
  cases htake : c.take f config with
  | segment op seg rest again =>
      obtain ⟨k, hk⟩ := FramingCall.take_segment htake
      have := hk.value
      have := hk.pos
      omega
  | _ => rfl

theorem segment?_overrun (h : (c.length : Int) < (c.answer f config).1) :
    c.segment? f config = none := by
  unfold FramingCall.segment?
  cases htake : c.take f config with
  | segment op seg rest again =>
      obtain ⟨k, hk⟩ := FramingCall.take_segment htake
      have := hk.value
      have := hk.length
      omega
  | _ => rfl

theorem next_opcode (h : c.next f config = some d) : d.opcode = (c.answer f config).2.1 := by
  unfold FramingCall.next at h
  cases htake : c.take f config with
  | segment op seg rest again =>
      rw [htake] at h
      obtain ⟨k, hk⟩ := FramingCall.take_segment htake
      cases again with
      | false => cases h
      | true =>
          cases h
          exact hk.keep.trans hk.opcode
  | failed rest =>
      rw [htake] at h
      cases h
      rw [(FramingCall.take_failed htake).2.2]
  | overrun =>
      rw [htake] at h
      cases h
  | declined rest =>
      rw [htake] at h
      cases h

theorem segments_called (f : WsFraming φ) (c : FramingCall φ) (s : Conn φ) :
    segments s.ws.conn (c.called f s).world.log = segments s.ws.conn s.world.log := by
  unfold FramingCall.called framingCalled
  rw [World.record_log, segments_append]
  simp [segments]

theorem segments_wsClose (env : Env φ) (code : WsCloseReason) (reason : Option Bytes) (s : Conn φ)
    (conn : Nat) : segments conn (wsClose env code reason s).world.log = segments conn s.world.log := by
  obtain ⟨es, he, hes⟩ := wsClose_log env code reason s
  have hnil : segments conn (.wsClose s.ws.conn reason :: (es ++ s.closing.map .closed)) = [] := by
    unfold segments
    rw [List.flatMap_eq_nil_iff]
    intro e hm
    rcases List.mem_cons.mp hm with rfl | hm
    · rfl
    rcases List.mem_append.mp hm with hm | hm
    · obtain ⟨x, -, rfl | ⟨d, rfl⟩⟩ := hes e hm <;> rfl
    · obtain ⟨x, -, rfl⟩ := List.mem_map.mp hm
      rfl
  rw [he, segments_append, hnil, List.append_nil]

theorem cons_prefix_calls {n : Nat} {made : List (FramingCall φ)}
    (h : d :: made <+: c.calls f config n) :
    d = c ∧ (made = [] ∨ ∃ m e, c.next f config = some e ∧ made <+: e.calls f config m) := by
  cases n with
  | zero => exact absurd (List.prefix_nil.mp h) (by simp)
  | succ n =>
      rw [FramingCall.calls, List.cons_prefix_cons] at h
      refine ⟨h.1, ?_⟩
      cases hnext : c.next f config with
      | none =>
          rw [hnext] at h
          exact .inl (List.prefix_nil.mp h.2)
      | some e =>
          rw [hnext] at h
          exact .inr ⟨n, e, rfl, h.2⟩

/-- The calls that the loop makes, and what it sends. -/
theorem wsFraming_made (fuel : Nat) (op : WsOperation) (bytesRead : Nat)
    (hf : s.ws.peer.framing = some f) {rv : Bool}
    (h : wsFraming env fuel op bytesRead s = some (rv, t)) :
    ∃ made sent unsent,
      made <+: (s.framingCall op bytesRead).calls f s.ws.peer.framingConfig fuel ∧
      made.filterMap (·.segment? f s.ws.peer.framingConfig) = sent ++ unsent ∧
      segments s.ws.conn t.world.log = segments s.ws.conn s.world.log ++ sent ∧
      Unsent env t rv unsent := by
  induction fuel generalizing s op bytesRead with
  | zero => cases h
  | succ fuel ih =>
      obtain ⟨p, hpass, hp⟩ := wsFraming_passed env op bytesRead hf
      rw [hp] at h
      generalize s.framingCall op bytesRead = c at hpass ⊢
      have hlog := segments_called f c s
      -- a segment that is sent is noted
      have hnoted : ∀ {o : WsOperation} {seg : Bytes} {w : World},
          OnlySends s.ws.wsFd (c.called f s).world w →
          segments s.ws.conn (w.record (.segment s.ws.conn o seg)).log =
            segments s.ws.conn s.world.log ++ [(o, seg)] := by
        intro o seg w hw
        rw [World.record_log, segments_append, hw.segments, hlog]
        simp [segments]
      have hone : [c] <+: c.calls f s.ws.peer.framingConfig (fuel + 1) := by
        rw [FramingCall.calls]
        exact List.prefix_append [c] _
      cases hpass with
      | overrun hover hn =>
          cases h
          refine ⟨[c], [], [], hone, by simp [segment?_overrun hover], ?_, .none⟩
          rw [List.append_nil, segments_wsClose]
          exact hlog
      | declined hz hd hn =>
          cases h
          refine ⟨[c], [], [], hone, by simp [segment?_declined hz], ?_, .none⟩
          rw [List.append_nil]
          exact hlog
      | unsent o seg rest again k hk w hw hs =>
          cases h
          refine ⟨[c], [], [(o, seg)], hone, by simp [hk.segment?], ?_, .failed o seg _ hs⟩
          rw [List.append_nil]
          exact (hw.segments _).trans hlog
      | last o seg rest k hk hn w hw =>
          cases h
          exact ⟨[c], [(o, seg)], [], hone, by simp [hk.segment?], hnoted hw, .none⟩
      | again o seg rest k hk hn w hw hc =>
          obtain ⟨made, sent, unsent, hmade, hsegs, hsent, hu⟩ := ih _ _ (by exact hf) h
          rw [hc] at hmade
          refine ⟨c :: made, (o, seg) :: sent, unsent, ?_, ?_, ?_, hu⟩
          · rw [FramingCall.calls, hn]
            exact List.cons_prefix_cons.mpr ⟨rfl, hmade⟩
          · rw [List.filterMap_cons, hk.segment?]
            exact congrArg _ hsegs
          · refine hsent.trans ?_
            show segments s.ws.conn (w.record _).log ++ sent = _
            rw [hnoted hw]
            simp
      | failed rest hz hl hn hc hr =>
          obtain ⟨made, sent, unsent, hmade, hsegs, hsent, hu⟩ := ih _ _ (by exact hf) h
          rw [hc] at hmade
          refine ⟨c :: made, sent, unsent, ?_, ?_, ?_, hu⟩
          · rw [FramingCall.calls, hn]
            exact List.cons_prefix_cons.mpr ⟨rfl, hmade⟩
          · rw [List.filterMap_cons, segment?_declined (by omega)]
            exact hsegs
          · refine hsent.trans ?_
            rw [← hlog]
            rfl

theorem FramingCall.segment?_opcode {p : WsOperation × Bytes} (h : c.segment? f config = some p) :
    p.1 = (c.answer f config).2.1 := by
  unfold FramingCall.segment? at h
  cases htake : c.take f config with
  | segment op seg rest again =>
      rw [htake] at h
      cases h
      obtain ⟨k, hk⟩ := FramingCall.take_segment htake
      exact hk.opcode
  | overrun =>
      rw [htake] at h
      cases h
  | declined rest =>
      rw [htake] at h
      cases h
  | failed rest =>
      rw [htake] at h
      cases h

/-- What the opcode is after a call of a function that only writes it. -/
theorem Framing.SetsOpcode.answer (hf : Framing.SetsOpcode f) (config : Option Bytes)
    (c : FramingCall φ) : (c.answer f config).2.1 = (c.sets f config).getD c.opcode ∧
      c.chosen f config = (c.sets f config).getD .binary := by
  obtain ⟨n, d, set, hcall⟩ := hf (some c.buffer) c.length c.bytesRead c.framingData config
  have hout (op : WsOperation) :
      (FramingCall.answer f config { c with opcode := op }).2.1 = set.getD op :=
    congrArg (fun r => r.2.1.getD op) (hcall op)
  have hsets : c.sets f config = set := by
    have hchosen : c.chosen f config = set.getD .binary := hout .binary
    unfold FramingCall.sets
    rw [hout .text, hchosen]
    cases set with
    | none => rfl
    | some op => exact if_pos rfl
  rw [hsets]
  exact ⟨hout c.opcode, hout .binary⟩

theorem Framing.SetsText.setsOpcode (hf : Framing.SetsText f) : Framing.SetsOpcode f := by
  intro data length lastRead framingData config
  refine ⟨(f data length lastRead (some .binary) framingData config).1,
    (f data length lastRead (some .binary) framingData config).2.2,
    if (f data length lastRead (some .binary) framingData config).2.1 = some .text then some .text
      else none, fun opcode => ?_⟩
  rw [(hf data length lastRead opcode framingData config).2]
  split
  · rfl
  · rfl

/-- The opcode that a call is given: the last one set by the calls before it. -/
theorem Framing.SetsOpcode.given (hf : Framing.SetsOpcode f) (n : Nat) (c : FramingCall φ)
    {before after : List (FramingCall φ)} {d : FramingCall φ}
    (h : before ++ d :: after <+: c.calls f config n) :
    d.opcode = ((before.filterMap (·.sets f config)).getLast?).getD c.opcode := by
  induction before generalizing n c with
  | nil =>
      rw [(cons_prefix_calls h).1]
      rfl
  | cons b before ih =>
      obtain ⟨rfl, hnil | ⟨m, e, hnext, h⟩⟩ := cons_prefix_calls h
      · exact absurd hnil (by simp)
      · rw [ih m e h, next_opcode hnext, (hf.answer config b).1, List.filterMap_cons]
        cases b.sets f config with
        | none => rfl
        | some op => simp [List.getLast?_cons]

theorem opcodesChosen_iff (cs : List (FramingCall φ)) : OpcodesChosen f config cs ↔
    ∀ before c after, cs = before ++ c :: after → (c.segment? f config).isSome →
      (c.answer f config).2.1 = c.chosen f config := by
  constructor
  · rintro h before c after rfl hseg
    obtain ⟨p, hp⟩ := Option.isSome_iff_exists.mp hseg
    rw [← FramingCall.segment?_opcode hp]
    exact h c (List.mem_append_right _ List.mem_cons_self) p hp
  · intro h c hc p hp
    obtain ⟨before, after, rfl⟩ := List.append_of_mem hc
    rw [FramingCall.segment?_opcode hp]
    exact h before c after rfl (by rw [hp]; rfl)

/-- **A function that only writes the opcode**: each segment has the opcode chosen for it just if
none for which it is left as it is comes with another one than binary. -/
theorem Framing.SetsOpcode.opcodesChosen (hf : Framing.SetsOpcode f) (n : Nat) (c : FramingCall φ)
    (hop : c.opcode = .binary) {made : List (FramingCall φ)} (hm : made <+: c.calls f config n) :
    OpcodesChosen f config made ↔ LeftBinary f config made := by
  rw [opcodesChosen_iff]
  unfold LeftBinary
  refine forall₄_congr fun before d after hmade => forall_congr' fun hseg => ?_
  have hgiven := hf.given n c (hmade ▸ hm)
  obtain ⟨hanswer, hchosen⟩ := hf.answer config d
  rw [hanswer, hchosen, hgiven, hop]
  cases d.sets f config with
  | some op => simp
  | none =>
      cases (before.filterMap (·.sets f config)).getLast? <;> simp

theorem forall_split_cons {α : Type} {P : List α → α → Prop} (x : α) (xs : List α) :
    (∀ before y after, x :: xs = before ++ y :: after → P before y) ↔
      P [] x ∧ ∀ before y after, xs = before ++ y :: after → P (x :: before) y := by
  constructor
  · intro h
    refine ⟨h [] x xs rfl, ?_⟩
    rintro before y after rfl
    exact h (x :: before) y after rfl
  · rintro ⟨hhead, htail⟩ before y after heq
    cases before with
    | nil =>
        cases heq
        exact hhead
    | cons z before =>
        rw [List.cons_append, List.cons.injEq] at heq
        obtain ⟨rfl, heq⟩ := heq
        exact htail before y after heq

/-- As long as each segment has the opcode chosen for it, a call is given what the calls before hand
on. -/
theorem answers_iff_handed (n : Nat) (c : FramingCall φ) {made : List (FramingCall φ)}
    (hm : made <+: c.calls f config n) :
    (∀ before d after, made = before ++ d :: after → (d.segment? f config).isSome →
      (d.answer f config).2.1 = d.chosen f config) ↔
    ∀ before d after, made = before ++ d :: after → (d.segment? f config).isSome →
      d.makes f config (before.foldl (FramingCall.handsOn f config) c.opcode) =
        d.chosen f config := by
  induction made generalizing n c with
  | nil => simp
  | cons b made ih =>
      obtain ⟨rfl, hmade⟩ := cons_prefix_calls hm
      rw [forall_split_cons, forall_split_cons]
      refine and_congr_right fun hhead => ?_
      -- the first call hands on the opcode that the second is given
      have hgives : FramingCall.handsOn f config b.opcode b = (b.answer f config).2.1 := by
        unfold FramingCall.handsOn
        split
        · next hseg => exact (hhead hseg).symm
        · rfl
      obtain rfl | ⟨m, e, hnext, htail⟩ := hmade
      · simp
      · have hrest := ih m e htail
        rw [next_opcode hnext, ← hgives] at hrest
        exact hrest

/-- **Any function**: each segment has the opcode chosen for it just if those that follow each other
agree. -/
theorem opcodesChosen_iff_neighbours (n : Nat) (c : FramingCall φ) (hop : c.opcode = .binary)
    {made : List (FramingCall φ)} (hm : made <+: c.calls f config n) :
    OpcodesChosen f config made ↔ NeighboursAgree f config made := by
  rw [opcodesChosen_iff, answers_iff_handed n c hm, hop]
  rfl

/-- What a call of `ws_peer_data` makes of the calls of the framing function, and sends. -/
theorem wsPeerData_made (fuel : Nat) (hf : s.ws.peer.framing = some f) {answer : Option Bytes}
    {first : FramingCall φ} (hfirst : s.firstCall? answer = some first) {rv : Bool}
    (h : wsPeerData env fuel answer s = some (rv, t)) : first.opcode = .binary ∧
    ∃ made sent unsent,
      made <+: first.calls f s.ws.peer.framingConfig fuel ∧
      made.filterMap (·.segment? f s.ws.peer.framingConfig) = sent ++ unsent ∧
      segments s.ws.conn t.world.log = segments s.ws.conn s.world.log ++ sent ∧
      Unsent env t rv unsent := by
  obtain ⟨hnone, -⟩ | ⟨x, b, data, hx, -, -, -, hcall, hloop⟩ := wsPeerData_firstCall env answer s
  · rw [hfirst] at hnone
    cases hnone
  rw [hfirst] at hcall
  cases hcall
  rw [hloop] at h
  obtain ⟨made, sent, unsent, hmade, hsegs, hsent, hu⟩ :=
    wsFraming_made (s := s.peerReceived x data) fuel .binary data.length hf h
  refine ⟨rfl, made, sent, unsent, hmade, hsegs, ?_, hu⟩
  refine hsent.trans ?_
  unfold Conn.peerReceived
  rw [World.record_log, segments_append]
  simp [segments]

/-- **The opcode of each segment is the framing function's choice for it** exactly if, for each one,
the function chooses the same whether it is handed binary or what it chose for the segment before.
For a function that only writes the opcode this is so exactly if no segment for which it is left as
it is comes after a call that set another one than binary, with none in between that set it back. -/
theorem opcode_independent_iff (env : Env φ) (fuel : Nat) (f : WsFraming φ) (s t : Conn φ)
    (hf : s.ws.peer.framing = some f) (answer : Option Bytes) (first : FramingCall φ)
    (hfirst : s.firstCall? answer = some first) (rv : Bool)
    (h : wsPeerData env fuel answer s = some (rv, t)) :
    ∃ made sent unsent,
      made <+: first.calls f s.ws.peer.framingConfig fuel ∧
      made.filterMap (·.segment? f s.ws.peer.framingConfig) = sent ++ unsent ∧
      segments s.ws.conn t.world.log = segments s.ws.conn s.world.log ++ sent ∧
      Unsent env t rv unsent ∧
      (OpcodesChosen f s.ws.peer.framingConfig made ↔
        NeighboursAgree f s.ws.peer.framingConfig made) ∧
      (Framing.SetsOpcode f → (OpcodesChosen f s.ws.peer.framingConfig made ↔
        LeftBinary f s.ws.peer.framingConfig made)) := by
  obtain ⟨hop, made, sent, unsent, hmade, hsegs, hsent, hu⟩ := wsPeerData_made fuel hf hfirst h
  exact ⟨made, sent, unsent, hmade, hsegs, hsent, hu,
    opcodesChosen_iff_neighbours fuel first hop hmade,
    fun hset => hset.opcodesChosen fuel first hop hmade⟩

end

/-! ## The functions that look for UTF-8 -/

theorem framingAuto_setsText : Framing.SetsText (framingAuto : WsFraming φ) := by
  intro data length lastRead opcode framingData config
  unfold framingAuto
  dsimp only
  by_cases htext : framingAutoLoop (data.getD []) length length 0
  · simp [htext]
  · simp [htext]

/-- `framing_separator` does not touch the opcode. -/
theorem framingSeparator_opcode (data : Option Bytes) (length lastRead : Nat)
    (opcode : Option WsOperation) (framingData : Option Bytes) (config : Option Bytes) :
    framingSeparator data length lastRead opcode framingData config =
      (framingSeparator data length lastRead none framingData config).map
        fun r => (r.1, opcode, r.2.2) := by
  unfold framingSeparator
  cases data with
  | none => cases framingData <;> rfl
  | some data =>
      cases framingData with
      | some separator => rfl
      | none =>
          cases config with
          | none => rfl
          | some config =>
              dsimp only [Option.map_some]
              cases separatorParse (cstr config) <;> rfl

/-- `framing_newline` looks at the bytes up to the newline alone. -/
theorem framingNewline_eq (data : Option Bytes) (length lastRead : Nat)
    (framingData : Option Bytes) (config : Option Bytes) :
    ∃ separated : Option (Int × Option Bytes), ∀ opcode,
      framingNewline data length lastRead opcode framingData config = separated.map fun r =>
        if r.1 < 0 then ((length : Int), opcode, r.2)
        else
          let framed := framingAuto (φ := Bytes) data r.1.toNat 0 opcode none none
          (framed.1, framed.2.1, r.2) := by
  unfold framingNewline
  by_cases hfirst : data.isSome ∧ framingData.isNone
  · simp only [if_pos hfirst]
    cases config with
    | none => exact ⟨none, fun opcode => rfl⟩
    | some config =>
        refine ⟨(framingSeparator data length lastRead none framingData
          (some (newlineExpression config))).map fun r => (r.1, r.2.2), fun opcode => ?_⟩
        rw [Option.bind_some, framingSeparator_opcode]
        simp only [Option.map_map]
        rfl
  · simp only [if_neg hfirst]
    refine ⟨(framingSeparator data length lastRead none framingData none).map
      fun r => (r.1, r.2.2), fun opcode => ?_⟩
    rw [framingSeparator_opcode]
    simp only [Option.map_map]
    rfl

theorem framingNewline_setsText : Framing.SetsText framingNewline.total := by
  intro data length lastRead opcode framingData config
  obtain ⟨separated, heq⟩ := framingNewline_eq data length lastRead framingData config
  unfold WsFraming?.total
  rw [heq, heq]
  cases separated with
  | none => simp
  | some r =>
      dsimp only [Option.map_some, Option.getD_some]
      by_cases hneg : r.1 < 0
      · simp [hneg]
      · simp only [if_neg hneg]
        obtain ⟨hset, hauto⟩ :=
          framingAuto_setsText (φ := Bytes) data r.1.toNat 0 opcode none none
        rw [hauto]
        exact ⟨hset, rfl⟩

/-- Lines that end in a line feed. -/
def sampleNewline : Conn Bytes := framedOpen framingNewline.total (some (ascii "lf"))

/-- Two lines of one read, the second of them text: the first leaves the opcode as it is. -/
theorem opcode_independent_iff_sample :
    ∃ t made sent unsent,
      wsPeerData sendingEnv 3 (some [255, 10, 97, 10]) sampleNewline = some (false, t) ∧
      made <+: (sampleNewline.firstCall [255, 10, 97, 10]).calls framingNewline.total
        (some (ascii "lf")) 3 ∧
      made.filterMap (·.segment? framingNewline.total (some (ascii "lf"))) = sent ++ unsent ∧
      segments 0 t.world.log = sent ∧
      NeighboursAgree framingNewline.total (some (ascii "lf")) made ∧
      OpcodesChosen framingNewline.total (some (ascii "lf")) made ∧
      LeftBinary framingNewline.total (some (ascii "lf")) made := by
  have hsome : (wsPeerData sendingEnv 3 (some [255, 10, 97, 10]) sampleNewline).isSome := by decide
  have hrun : wsPeerData sendingEnv 3 (some [255, 10, 97, 10]) sampleNewline =
      some (false, ((wsPeerData sendingEnv 3 (some [255, 10, 97, 10]) sampleNewline).get hsome).2) := by
    rfl
  obtain ⟨made, sent, unsent, hmade, hsegs, hsent, -, hiff, hsets⟩ :=
    opcode_independent_iff sendingEnv 3 framingNewline.total sampleNewline _ rfl
      (some [255, 10, 97, 10]) _ rfl false hrun
  have hagree : NeighboursAgree framingNewline.total (some (ascii "lf")) made := by
    rintro before c after rfl -
    cases before with
    | nil => rfl
    | cons b before =>
        obtain ⟨rfl, hsecond⟩ := List.cons_prefix_cons.mp hmade
        cases before with
        | nil =>
            obtain ⟨rfl, -⟩ := List.cons_prefix_cons.mp hsecond
            decide
        | cons d before =>
            have hthird := (List.cons_prefix_cons.mp hsecond).2
            exact absurd (List.prefix_nil.mp hthird) (by simp)
  have hchosen := hiff.mpr hagree
  exact ⟨_, made, sent, unsent, hrun, hmade, hsegs, hsent, hagree, hchosen,
    (hsets framingNewline_setsText.setsOpcode).mp hchosen⟩

/-- Two lines come with one read.  The second is not UTF-8 and the function chooses binary for
it, but its frame is a text frame too. -/
theorem opcode_independent_fails :
    ∃ t, wsPeerData sendingEnv 3 (some [97, 10, 255, 10]) sampleNewline = some (false, t) ∧
      segments 0 t.world.log = [(.text, [97, 10]), (.text, [255, 10])] ∧
      written 4 t.world.log = [0x81, 2, 97, 10, 0x81, 2, 255, 10] ∧
      (framingNewline.total (some [255, 10]) 2 2 (some .binary) (some [10])
        (some (ascii "lf"))).2.1 = some .binary := by
  refine ⟨_, rfl, ?_, ?_, ?_⟩ <;> decide

end Websocksy

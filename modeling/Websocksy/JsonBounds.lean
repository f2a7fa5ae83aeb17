import Websocksy.JsonScan
import Websocksy.Overruns

/-!
# What `json` does with the bytes behind its data

`framing_json` looks at the byte at index `length`.  `Exposed` says where the data end so
that what stands there counts, and `ClosedBehind` when it completes a value that the data
do not.  Everywhere else the result is one of the data alone, and not above their length.
-/

namespace Websocksy

open Buffer CString JsonMachine Relation

variable {φ : Type}

/-- A value ends here if the byte behind the data is a closing bracket or quotation mark, or
one that can follow a number. -/
def exposes : Position → List Container → Bool
  | .first, σ => σ ≠ []
  | .comma, σ => σ ≠ []
  | .after, σ => σ ≠ []
  | .string key escaped, _ => !key && !escaped
  | .number whole, σ => σ ≠ [] || !whole
  | _, _ => false

/-- The data end in an array or an object where it can be closed, in a string that is a value
where a quotation mark would end it, in a number in a container, or in an unfinished number. -/
def Exposed (d : Bytes) : Prop :=
  ∃ p σ, scanned.run Lexis.start d = .live p σ ∧ exposes p σ

/-- The brackets that close the containers, from `i` on. -/
def closersAt (data : Bytes) (σ : List Container) (i : Nat) : Bool :=
  slice data i σ.length == σ.map Container.closer

/-- What stands from `i` on completes the value. -/
def completes (data : Bytes) (i : Nat) : Position → List Container → Bool
  | .string key escaped, σ => !key && !escaped && data.getD i 0 == 34 && closersAt data σ (i + 1)
  | .first, σ => σ ≠ [] && closersAt data σ i
  | .comma, σ => σ ≠ [] && closersAt data σ i
  | .after, σ => σ ≠ [] && closersAt data σ i
  | .number _, σ => σ ≠ [] && closersAt data σ i
  | _, _ => false

/-- The data are a value only together with what stands behind them. -/
def ClosedBehind (data : Bytes) (length : Nat) : Prop :=
  ∃ p σ, scanned.run Lexis.start (slice data 0 length) = .live p σ ∧ completes data length p σ

/-! ## The results -/

section

variable {data : Bytes} {length i : Nat} {p : Position} {σ : List Container}

theorem jsonLength_run (data : Bytes) (length : Nat) : jsonLength data length =
    (Outcome.ofState data length (scanned.run Lexis.start (slice data 0 length))).value := by
  rw [jsonLength_scan]
  unfold scanFrom
  rw [Nat.sub_zero, Nat.max_eq_left (Nat.zero_le _)]

theorem unwind_eq (data : Bytes) (σ : List Container) (i : Nat) :
    Outcome.unwind data σ i = if closersAt data σ i then .total (i + σ.length) else .more := by
  induction σ generalizing i with
  | nil => rfl
  | cons c σ ih =>
      rw [Outcome.unwind, ih]
      unfold closersAt
      rw [List.length_cons, slice_succ, List.map_cons]
      by_cases hc : data.getD i 0 = c.closer
      · simp only [hc, if_true, List.cons_beq_cons, BEq.rfl, Bool.true_and,
          show i + (σ.length + 1) = i + 1 + σ.length by omega]
      · rw [if_neg hc, List.cons_beq_cons, beq_eq_false_iff_ne.mpr hc, Bool.false_and]
        rfl

theorem unwind_gt (data : Bytes) (σ : List Container) (i : Nat) :
    (i : Int) < (Outcome.unwind data σ i).value ↔ (σ ≠ [] && closersAt data σ i) = true := by
  rw [unwind_eq]
  cases σ with
  | nil =>
      show (i : Int) < (i + 0 : Nat) ↔ _
      simp
  | cons c σ =>
      rw [List.length_cons]
      by_cases hc : closersAt data (c :: σ) i = true
      · rw [if_pos hc, Outcome.value]
        simp only [ne_eq, reduceCtorEq, not_false_eq_true, decide_true, Bool.true_and, hc, iff_true]
        omega
      · rw [if_neg hc, Outcome.value]
        simp only [hc, Bool.and_false, Bool.false_eq_true, iff_false]
        omega

/-- The first of the closing brackets. -/
theorem closersAt_cons (data : Bytes) (c : Container) (σ : List Container) (i : Nat) :
    closersAt data (c :: σ) i = (data.getD i 0 == c.closer && closersAt data σ (i + 1)) := by
  unfold closersAt
  rw [List.length_cons, slice_succ, List.map_cons, List.cons_beq_cons]

/-- Where the machine stops inside a value, the length exceeds the data exactly if what stands
behind them completes the value. -/
theorem rest_gt (data : Bytes) (i : Nat) (p : Position) (σ : List Container) :
    (i : Int) < (Outcome.rest data i p σ).value ↔ completes data i p σ = true := by
  have hmore : ¬(i : Int) < Outcome.more.value := by
    rw [Outcome.value]
    omega
  cases p with
  | first => exact unwind_gt data σ i
  | after => exact unwind_gt data σ i
  | comma =>
      cases σ with
      | nil => exact iff_of_false hmore Bool.false_ne_true
      | cons c σ =>
          have h := unwind_gt data (c :: σ) i
          rw [Outcome.unwind] at h
          rw [Outcome.rest, completes, ← h]
          by_cases hc : data.getD i 0 = c.closer
          · rw [if_pos hc, if_pos hc]
          · rw [if_neg hc, if_neg hc]
            refine iff_of_false ?_ hmore
            rw [Outcome.value]
            omega
  | string key escaped =>
      cases key <;> cases escaped <;> try exact iff_of_false hmore Bool.false_ne_true
      rw [Outcome.rest, unwind_eq, completes]
      by_cases hq : data.getD i 0 = 34
      · by_cases hc : closersAt data σ (i + 1) = true
        · rw [if_pos hq, if_pos hc, Outcome.value]
          simp only [hq, hc, Bool.not_false, BEq.rfl, Bool.and_self, iff_true]
          omega
        · rw [if_pos hq, if_neg hc]
          exact iff_of_false hmore (by simp [hc])
      · rw [if_neg hq, beq_eq_false_iff_ne.mpr hq]
        exact iff_of_false hmore Bool.false_ne_true
  | number whole =>
      rw [Outcome.rest, completes, ← unwind_gt]
      by_cases hend : jsonNumberEnd (data.getD i 0) = true ∨ whole = true
      · rw [if_pos hend]
      · rw [if_neg hend, unwind_gt]
        refine iff_of_false hmore fun h => hend (.inl ?_)
        cases σ with
        | nil => exact absurd h Bool.false_ne_true
        | cons c σ =>
            rw [closersAt_cons] at h
            simp only [Bool.and_eq_true, beq_iff_eq] at h
            rw [h.2.1]
            exact jsonNumberEnd_closer c
  | _ => exact iff_of_false hmore Bool.false_ne_true

/-- **Too long a result** comes from bytes behind the data that complete a value. -/
theorem jsonLength_gt (data : Bytes) (length : Nat) :
    (length : Int) < jsonLength data length ↔ ClosedBehind data length := by
  rw [jsonLength_run]
  unfold ClosedBehind
  cases hrun : scanned.run Lexis.start (slice data 0 length) with
  | live p σ =>
      rw [Outcome.ofState, rest_gt]
      constructor
      · exact fun h => ⟨p, σ, rfl, h⟩
      · rintro ⟨p', σ', h, hc⟩
        cases h
        exact hc
  | finished n =>
      refine iff_of_false ?_ (by simp)
      rw [Outcome.ofState, Outcome.value]
      omega
  | failed =>
      refine iff_of_false ?_ (by simp)
      rw [Outcome.ofState, Outcome.value]
      omega

theorem exposes_of_completes (h : completes data i p σ = true) : exposes p σ = true := by
  cases p with
  | string key escaped =>
      rw [completes, Bool.and_assoc, Bool.and_eq_true] at h
      exact h.1
  | number whole =>
      rw [completes, Bool.and_eq_true] at h
      rw [exposes, h.1, Bool.true_or]
  | first | comma | after =>
      rw [completes, Bool.and_eq_true] at h
      exact h.1
  | _ => exact absurd h Bool.false_ne_true

/-- Elsewhere than where it exposes itself, the machine does not look behind the data. -/
theorem rest_congr {data data' : Bytes} (h : exposes p σ = false) :
    Outcome.rest data i p σ = Outcome.rest data' i p σ := by
  cases p with
  | first | after =>
      cases σ with
      | nil => rfl
      | cons c σ => exact absurd h (by simp [exposes])
  | comma =>
      cases σ with
      | nil => rfl
      | cons c σ => exact absurd h (by simp [exposes])
  | string key escaped =>
      cases key <;> cases escaped <;> first | rfl | exact absurd h Bool.noConfusion
  | number whole =>
      cases σ with
      | cons c σ => exact absurd h (by simp [exposes])
      | nil =>
          cases whole with
          | false => exact absurd h (by decide)
          | true => rw [Outcome.rest, Outcome.rest, if_pos (.inr rfl), if_pos (.inr rfl)]; rfl
  | _ => rfl

/-- The bytes that complete a value, or that end an unfinished number. -/
def completion : Position → List Container → Bytes
  | .string _ _, σ => 34 :: σ.map Container.closer
  | .number _, [] => [44]
  | _, σ => σ.map Container.closer

theorem getD_behind (d t : Bytes) (i : Nat) : (d ++ t).getD (d.length + i) 0 = t.getD i 0 := by
  rw [List.getD_eq_getElem?_getD, List.getElem?_append_right (Nat.le_add_right _ _),
    Nat.add_sub_cancel_left, List.getD_eq_getElem?_getD]

theorem slice_data (d t : Bytes) : slice (d ++ t) 0 d.length = d := by
  rw [slice_eq_take _ _ (by simp), List.take_left]

theorem slice_behind (d t : Bytes) (i len : Nat) :
    slice (d ++ t) (d.length + i) len = slice t i len :=
  slice_ext _ _ _ _ _ fun j _ => by rw [Nat.add_assoc, getD_behind]

theorem closersAt_behind (d pre : Bytes) (σ : List Container) :
    closersAt (d ++ (pre ++ σ.map Container.closer)) σ (d.length + pre.length) = true := by
  unfold closersAt
  rw [slice_behind, ← Nat.add_zero pre.length, slice_behind, beq_iff_eq]
  have h := slice_self (σ.map Container.closer)
  rwa [List.length_map] at h

/-- Where the machine exposes itself, the completion changes the result. -/
theorem rest_completion (d : Bytes) (h : exposes p σ = true) :
    completes (d ++ completion p σ) d.length p σ = true ∨ p = .number false ∧ σ = [] := by
  have hclosers : σ ≠ [] → (σ ≠ [] && closersAt (d ++ σ.map Container.closer) σ d.length) = true := by
    intro hne
    rw [Bool.and_eq_true, decide_eq_true_eq]
    exact ⟨hne, closersAt_behind d [] σ⟩
  cases p with
  | first => exact .inl (hclosers (by simpa [exposes] using h))
  | comma => exact .inl (hclosers (by simpa [exposes] using h))
  | after => exact .inl (hclosers (by simpa [exposes] using h))
  | string key escaped =>
      rw [exposes, Bool.and_eq_true] at h
      refine .inl ?_
      rw [completes, h.1, h.2, completion]
      have hquote : (d ++ 34 :: σ.map Container.closer).getD d.length 0 = 34 := getD_behind d _ 0
      rw [hquote]
      exact closersAt_behind d [34] σ
  | number whole =>
      cases σ with
      | cons c σ => exact .inl (hclosers (by simp))
      | nil =>
          refine .inr ⟨?_, rfl⟩
          cases whole with
          | false => rfl
          | true => exact absurd h (by simp [exposes])
  | _ => exact absurd h Bool.false_ne_true

end

/-! ## Data alone -/

/-- What stands behind the data `d` does not change the results, and `framing_json` stays
inside the data. -/
def StaysInside (φ : Type) (d : Bytes) : Prop :=
  ∀ t t' : Bytes, jsonLength (d ++ t) d.length = jsonLength (d ++ t') d.length ∧
    ∀ lastRead opcode framingData config,
      let r := (framingJson : WsFraming φ) (some (d ++ t)) d.length lastRead opcode framingData config
      r = framingJson (some (d ++ t')) d.length lastRead opcode framingData config ∧
      0 ≤ r.1 ∧ r.1 ≤ d.length

theorem framingJson_value (data : Bytes) (length lastRead : Nat) (opcode : Option WsOperation)
    (framingData : Option φ) (config : Option Bytes) :
    (framingJson (some data) length lastRead opcode framingData config).1 =
      if 0 ≤ jsonLength data length then jsonLength data length else length := by
  unfold framingJson
  dsimp only [Option.getD_some]
  split
  · next h => rw [if_pos (by omega)]
  · split
    · next h => rw [h, if_pos (Int.le_refl 0)]
    · rw [if_neg (by omega)]

/-- **Data are read as they are** exactly if they are not exposed. -/
theorem staysInside_iff (d : Bytes) : StaysInside φ d ↔ ¬Exposed d := by
  constructor
  · rintro hall ⟨p, σ, hrun, hp⟩
    rcases rest_completion d hp with hc | ⟨rfl, rfl⟩
    · obtain ⟨-, hframing⟩ := hall (completion p σ) []
      obtain ⟨-, -, hle⟩ := hframing 0 none none none
      have hgt := (jsonLength_gt (d ++ completion p σ) d.length).mpr
        ⟨p, σ, by rw [slice_data, hrun], hc⟩
      rw [framingJson_value, if_pos (by omega)] at hle
      omega
    · obtain ⟨hsame, -⟩ := hall [44] []
      have hlen : 0 < d.length := by
        cases d with
        | nil => cases hrun
        | cons b d => exact Nat.succ_pos _
      rw [jsonLength_run, jsonLength_run, slice_data, slice_data, hrun, Outcome.ofState,
        Outcome.ofState, Outcome.rest, Outcome.rest] at hsame
      have h44 : (d ++ [44]).getD d.length 0 = 44 := getD_behind d [44] 0
      have h0 : (d ++ []).getD d.length 0 = 0 := getD_behind d [] 0
      rw [h44, h0, if_pos (.inl (by decide)), if_neg (by decide)] at hsame
      have : (d.length : Int) = 0 := hsame
      omega
  · intro hno t t'
    have hsame : ∀ t, jsonLength (d ++ t) d.length =
        (Outcome.ofState d d.length (scanned.run Lexis.start d)).value := by
      intro t
      rw [jsonLength_run, slice_data]
      cases hrun : scanned.run Lexis.start d with
      | live p σ =>
          have hp : exposes p σ = false := Bool.eq_false_iff.mpr fun h => hno ⟨p, σ, hrun, h⟩
          rw [Outcome.ofState, Outcome.ofState, rest_congr hp]
      | finished n => rfl
      | failed => rfl
    have hle : jsonLength (d ++ t) d.length ≤ d.length := by
      refine Int.not_lt.mp fun hgt => hno ?_
      obtain ⟨p, σ, hrun, hc⟩ := (jsonLength_gt _ _).mp hgt
      rw [slice_data] at hrun
      exact ⟨p, σ, hrun, exposes_of_completes hc⟩
    refine ⟨by rw [hsame, hsame], fun lastRead opcode framingData config => ⟨?_, ?_, ?_⟩⟩
    · simp only [framingJson, Option.getD_some, hsame]
    · rw [framingJson_value]
      split <;> omega
    · rw [framingJson_value]
      split <;> omega

/-! ## Calls of `ws_peer_data` -/

theorem framingJson_overruns (config : Option Bytes) (c : FramingCall φ) :
    c.Overruns framingJson config ↔ ClosedBehind c.buffer c.length := by
  rw [← jsonLength_gt]
  unfold FramingCall.Overruns FramingCall.answer
  dsimp only
  rw [framingJson_value]
  split <;> omega

theorem framingJson_spins (config : Option Bytes) (c : FramingCall φ) :
    ¬c.Spins framingJson config := by
  intro h
  have hneg := h.2 0
  unfold FramingCall.afterErrors FramingCall.answer at hneg
  dsimp only at hneg
  rw [framingJson_value] at hneg
  split at hneg <;> omega

/-- Calls of `ws_peer_data` on one connection, each with what the socket has for `recv`. -/
def peerAnswers (env : Env φ) (fuel : Nat) (start : Conn φ) : Machine (Conn φ) (Option Bytes) where
  init s := s = start
  step answer s := (wsPeerData env fuel answer s).map (·.2)

/-- No call of the framing function is made where what stands behind the data completes a
value that starts in them. -/
def OpenBehind (s : Conn φ) (answer : Option Bytes) : Prop :=
  ∀ first, s.firstCall? answer = some first →
    ∀ c, first.Leads framingJson s.ws.peer.framingConfig c → ¬ClosedBehind c.buffer c.length

/-- **`json` stays inside its data** exactly if they are not exposed; and `ws_peer_data` does
not end a connection with `Internal error`, whatever the sends do, exactly if no value is
completed behind the data. -/
theorem json_inside_data_iff (s : Conn φ) (hf : s.ws.peer.framing = some framingJson) (y : Nat)
    (hy : s.world.sockAt s.ws.wsFd = some y) :
    (∀ d, StaysInside φ d ↔ ¬Exposed d) ∧
    (∀ answer, (∀ env fuel rv t, wsPeerData env fuel answer s = some (rv, t) → ¬InternalError s t) ↔
      OpenBehind s answer) ∧
    ∀ env fuel t, (peerAnswers env fuel s).Reach OpenBehind t → ¬InternalError s t := by
  refine ⟨staysInside_iff, fun answer => ⟨fun hall first hfirst c hc hclosed => ?_,
    fun hopen env fuel rv t ht => ?_⟩, fun env fuel t ht => ?_⟩
  · obtain ⟨hnone, -⟩ | ⟨x, b, data, hx, -, -, -, hcall, hloop⟩ :=
      wsPeerData_firstCall sendingEnv answer s
    · rw [hfirst] at hnone
      cases hnone
    obtain ⟨fuel, hreturns⟩ := wsFraming_returns (s := s.peerReceived x data) sendingEnv .binary
      data.length hf fun c _ => framingJson_spins _ c
    rw [← hloop] at hreturns
    obtain ⟨⟨rv, t⟩, ht⟩ := Option.isSome_iff_exists.mp hreturns
    obtain ⟨new, hnew, -, hdoes⟩ := wsPeerData_reasons fuel answer (.inl hf) ht
    refine hall sendingEnv fuel rv t ht (hnew.internalError.mpr ?_)
    exact hdoes y hy (fun _ => by simp [sendingEnv]) first hfirst c hc
      ((framingJson_overruns _ c).mpr hclosed)
  · obtain ⟨new, hnew, honly, -⟩ := wsPeerData_reasons fuel answer (.inl hf) ht
    rw [hnew.internalError]
    intro hm
    obtain ⟨first, hfirst, c, hc, hover⟩ := honly hm
    exact hopen first hfirst c hc ((framingJson_overruns _ c).mp hover)
  · have hinv : (t.ws.peer.framing = some framingJson ∨ t.ws.peerFd = none) ∧ t.ws.conn = s.ws.conn ∧
        ∃ new, closeReasons s.ws.conn t.world.log = closeReasons s.ws.conn s.world.log ++ new ∧
          some (ascii "Internal error") ∉ new := by
      refine ht.invariant (P := fun t => (t.ws.peer.framing = some framingJson ∨ t.ws.peerFd = none) ∧
        t.ws.conn = s.ws.conn ∧ ∃ new, closeReasons s.ws.conn t.world.log =
          closeReasons s.ws.conn s.world.log ++ new ∧ some (ascii "Internal error") ∉ new) ?_ ?_
      · rintro t rfl
        exact ⟨.inl hf, rfl, [], (List.append_nil _).symm, List.not_mem_nil⟩
      · rintro t answer u - ⟨hframing, hconn, new, hlog, hno⟩ hopen hstep
        obtain ⟨⟨rv, v⟩, hv, rfl⟩ := Option.map_eq_some_iff.mp hstep
        obtain ⟨more, hmore, honly, -⟩ := wsPeerData_reasons fuel answer hframing hv
        refine ⟨?_, hmore.conn.trans hconn, new ++ more, ?_, ?_⟩
        · rcases hmore.peer with ⟨hpeer, hfd⟩ | hgone
          · exact hframing.imp (fun h => by rw [hpeer, h]) hfd.trans
          · exact .inr hgone
        · rw [← hconn, hmore.reasons, hconn, hlog, List.append_assoc]
        · rw [List.mem_append, not_or]
          refine ⟨hno, fun hm => ?_⟩
          obtain ⟨first, hfirst, c, hc, hover⟩ := honly hm
          exact hopen first hfirst c hc ((framingJson_overruns _ c).mp hover)
    obtain ⟨-, -, new, hlog, hno⟩ := hinv
    unfold InternalError
    rw [hlog, List.drop_left]
    exact hno

/-- An open connection with the framing `json`. -/
def sampleJson : Conn Unit := framedOpen framingJson none

theorem json_inside_data_iff_sample :
    (∀ d, StaysInside Unit d ↔ ¬Exposed d) ∧
    (∀ answer, (∀ env fuel rv t, wsPeerData env fuel answer sampleJson = some (rv, t) →
      ¬InternalError sampleJson t) ↔ OpenBehind sampleJson answer) ∧
    ∀ env fuel t, (peerAnswers env fuel sampleJson).Reach OpenBehind t → ¬InternalError sampleJson t :=
  json_inside_data_iff sampleJson rfl 4 rfl

/-- A bracket that stands behind `[1` closes it.  In one read, `1 [[]` ends the connection: the
frame `1` is taken, and behind the rest of the data its last byte still stands. -/
theorem json_inside_data_fails :
    jsonLength (ascii "[1" ++ [93]) 2 = 3 ∧ jsonLength (ascii "[1" ++ [0]) 2 = 0 ∧
    (framingJson (some (ascii "[1" ++ [93])) 2 2 (some .binary) (none : Option Unit) none).1 = 3 ∧
    ((wsPeerData sendingEnv 20 (some (ascii "1 [[]")) sampleJson).map
      fun r => decide (InternalError sampleJson r.2)) = some true := by
  decide +kernel

end Websocksy

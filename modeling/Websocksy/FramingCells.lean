import Websocksy.Unconfigured
import Websocksy.Separators

/-!
# The life of the framing data

The framing data of a connection is a cell that the framing function allocates at the first call
with data, and releases at the teardown call.  Each function notes what it does to the cell, in
the order of its statements.  `separator` and `newline` return right after they released it;
`fixedlength` and `dynamic32` go on to the comparison with the length, which reads it.
-/

namespace Websocksy

open Buffer CString

variable {φ : Type}

/-! ## Cells -/

inductive CellEvent
  | alloc
  | access
  | release
  deriving DecidableEq

inductive CellState
  | absent
  | live
  | released
  deriving DecidableEq

/-- What may be done to a cell. -/
def CellState.next : CellState → CellEvent → Option CellState
  | .absent, .alloc => some .live
  | .live, .access => some .live
  | .live, .release => some .released
  | _, _ => none

def CellState.after (events : List CellEvent) (c : CellState) : Option CellState :=
  events.foldlM CellState.next c

/-- The cell is allocated once at most, used only while it is live, and released once if it was
allocated. -/
def LifeCycle (events : List CellEvent) : Prop :=
  CellState.absent.after events = some .absent ∨ CellState.absent.after events = some .released

instance (events : List CellEvent) : Decidable (LifeCycle events) :=
  inferInstanceAs (Decidable (_ ∨ _))

/-! ## What the functions do to their cell -/

/-- `framing_separator`: the separator belongs to the cell. -/
def separatorEvents (data framingData config : Option Bytes) : List CellEvent :=
  match data, framingData with
  | some _, none =>
    [.alloc, .access] ++
      match config.bind fun config => separatorParse (cstr config) with
      | none => [.release]
      | some _ => [.access]
  | some _, some _ => [.access]
  | none, some _ => [.access, .release]
  | none, none => []

/-- `framing_newline` -/
def newlineEvents (data framingData config : Option Bytes) : List CellEvent :=
  if data.isSome ∧ framingData.isNone then
    separatorEvents data framingData (config.map newlineExpression)
  else separatorEvents data framingData none

/-- `framing_fixedlen` -/
def fixedlenEvents (data : Option Bytes) (framingData : Option Nat) : List CellEvent :=
  (match data, framingData with
    | some _, none => [.alloc, .access]
    | none, some _ => [.release]
    | _, _ => []) ++ [.access] -- `*frame_size`

/-- `framing_dynamic32` -/
def dynamic32Events (data : Option Bytes) (framingData : Option Dynamic32Config) : List CellEvent :=
  (match data, framingData with
    | some _, none => [.alloc, .access]
    | none, some _ => [.release]
    | _, _ => []) ++ [.access] -- `conncfg->offset`

/-! ## Runs -/

/-- Calls with data, and the teardown call of `ws_close` if there is framing data: what is done
to the cell, if all of them come back. -/
def cellRun (f : WsFraming? φ) (events : Option Bytes → Option φ → List CellEvent) (config : Bytes) :
    List DataCall → Option φ → Option (List CellEvent)
  | [], none => some []
  | [], some framingData =>
    (f none 0 0 none (some framingData) (some config)).map fun _ => events none (some framingData)
  | call :: calls, framingData =>
    (f (some call.data) call.length call.lastRead (some call.opcode) framingData (some config)).bind
      fun r => (cellRun f events config calls r.2.2).map (events (some call.data) framingData ++ ·)

/-- The framing functions that keep framing data. -/
inductive CellFraming
  | separator
  | newline
  | fixedlength
  | dynamic32
  deriving DecidableEq

def CellFraming.Valid : CellFraming → Bytes → Prop
  | .separator, config => (separatorParse (cstr config)).isSome
  | .newline, config => cstr config ∈ [ascii "crlf", ascii "lfcr", ascii "lf", ascii "cr"]
  | .fixedlength, _ => True
  | .dynamic32, _ => True

def CellFraming.run : CellFraming → Bytes → List DataCall → Option (List CellEvent)
  | .separator, config, calls =>
    cellRun framingSeparator (separatorEvents · · (some config)) config calls none
  | .newline, config, calls =>
    cellRun framingNewline (newlineEvents · · (some config)) config calls none
  | .fixedlength, config, calls => cellRun framingFixedlen fixedlenEvents config calls none
  | .dynamic32, config, calls => cellRun framingDynamic32 dynamic32Events config calls none

/-- The run is over, and the cell with it. -/
def CellFraming.Kept (k : CellFraming) (config : Bytes) (calls : List DataCall) : Prop :=
  ∃ events ∈ k.run config calls, LifeCycle events

section

variable {f : WsFraming? φ} {events : Option Bytes → Option φ → List CellEvent} {config : Bytes}

theorem after_append (e e' : List CellEvent) (c : CellState) :
    c.after (e ++ e') = (c.after e).bind (·.after e') := List.foldlM_append

/-- The cell at the calls of a framing function: live between two calls, and as it is found
behind the teardown call. -/
structure CellSteps (f : WsFraming? φ) (events : Option Bytes → Option φ → List CellEvent)
    (config : Bytes) (last : Option CellState) : Prop where
  first : ∀ data length lastRead opcode r,
    f (some data) length lastRead opcode none (some config) = some r →
      r.2.2.isSome ∧ CellState.absent.after (events (some data) none) = some .live
  next : ∀ data length lastRead opcode framingData r,
    f (some data) length lastRead opcode (some framingData) (some config) = some r →
      r.2.2.isSome ∧ CellState.live.after (events (some data) (some framingData)) = some .live
  teardown : ∀ framingData, CellState.live.after (events none (some framingData)) = last

/-- From a live cell. -/
theorem CellSteps.live {last : Option CellState} (h : CellSteps f events config last)
    (calls : List DataCall) {framingData : Option φ} (hs : framingData.isSome) {e : List CellEvent}
    (he : cellRun f events config calls framingData = some e) : CellState.live.after e = last := by
  induction calls generalizing framingData e with
  | nil =>
      obtain ⟨d, rfl⟩ := Option.isSome_iff_exists.mp hs
      obtain ⟨r, -, rfl⟩ := Option.map_eq_some_iff.mp he
      exact h.teardown d
  | cons call calls ih =>
      obtain ⟨d, rfl⟩ := Option.isSome_iff_exists.mp hs
      obtain ⟨r, hr, he⟩ := Option.bind_eq_some_iff.mp he
      obtain ⟨e', he', rfl⟩ := Option.map_eq_some_iff.mp he
      obtain ⟨hsome, hlive⟩ := h.next _ _ _ _ _ _ hr
      rw [after_append, hlive]
      exact ih hsome he'

/-- **A run with data** leaves the cell as the teardown call does. -/
theorem CellSteps.run {last : Option CellState} (h : CellSteps f events config last)
    {calls : List DataCall} (hc : calls ≠ []) {e : List CellEvent}
    (he : cellRun f events config calls none = some e) : CellState.absent.after e = last := by
  cases calls with
  | nil => exact absurd rfl hc
  | cons call calls =>
      obtain ⟨r, hr, he⟩ := Option.bind_eq_some_iff.mp he
      obtain ⟨e', he', rfl⟩ := Option.map_eq_some_iff.mp he
      obtain ⟨hsome, hlive⟩ := h.first _ _ _ _ _ hr
      rw [after_append, hlive]
      exact h.live calls hsome he'

/-- A function of which all calls come back. -/
theorem cellRun_isSome
    (hd : ∀ data length lastRead opcode framingData,
      (f (some data) length lastRead opcode framingData (some config)).isSome)
    (ht : ∀ framingData, (f none 0 0 none (some framingData) (some config)).isSome)
    (calls : List DataCall) (framingData : Option φ) :
    (cellRun f events config calls framingData).isSome := by
  induction calls generalizing framingData with
  | nil =>
      cases framingData with
      | none => rfl
      | some d =>
          rw [cellRun, Option.isSome_map]
          exact ht d
  | cons call calls ih =>
      obtain ⟨r, hr⟩ := Option.isSome_iff_exists.mp
        (hd call.data call.length call.lastRead (some call.opcode) framingData)
      rw [cellRun, hr, Option.bind_some, Option.isSome_map]
      exact ih r.2.2

/-! ## The four functions -/

theorem separator_cells (hv : CellFraming.separator.Valid config) :
    CellSteps framingSeparator (separatorEvents · · (some config)) config (some .released) := by
  obtain ⟨separator, hparse⟩ := Option.isSome_iff_exists.mp hv
  refine ⟨?_, ?_, fun _ => rfl⟩
  · intro data length lastRead opcode r hr
    unfold framingSeparator at hr
    simp only [Option.map_some, hparse, Option.some.injEq] at hr
    subst hr
    refine ⟨rfl, ?_⟩
    simp only [separatorEvents, Option.bind_some, hparse]
    rfl
  · intro data length lastRead opcode framingData r hr
    cases hr
    exact ⟨rfl, rfl⟩

/-- `framing_newline` leaves the framing data as `framing_separator` does. -/
theorem framingNewline_data {data framingData config : Option Bytes} {length lastRead : Nat}
    {opcode : Option WsOperation} {r : Int × Option WsOperation × Option Bytes}
    (h : framingNewline data length lastRead opcode framingData config = some r) :
    ∃ q, (if data.isSome ∧ framingData.isNone then
        config.bind fun config =>
          framingSeparator data length lastRead opcode framingData (some (newlineExpression config))
      else framingSeparator data length lastRead opcode framingData none) = some q ∧ r.2.2 = q.2.2 := by
  unfold framingNewline at h
  obtain ⟨q, hq, rfl⟩ := Option.map_eq_some_iff.mp h
  refine ⟨q, hq, ?_⟩
  split <;> rfl

theorem newline_cells : CellSteps framingNewline (newlineEvents · · (some config)) config
    (some .released) := by
  have hsep : CellSteps framingSeparator (separatorEvents · · (some (newlineExpression config)))
      (newlineExpression config) (some .released) :=
    separator_cells (Option.isSome_iff_exists.mpr ⟨_, separatorParse_newline config⟩)
  refine ⟨?_, ?_, fun _ => rfl⟩
  · intro data length lastRead opcode r hr
    obtain ⟨q, hq, hdata⟩ := framingNewline_data hr
    rw [hdata]
    exact hsep.first data length lastRead opcode q hq
  · intro data length lastRead opcode framingData r hr
    obtain ⟨q, hq, hdata⟩ := framingNewline_data hr
    cases hq
    rw [hdata]
    exact ⟨rfl, rfl⟩

theorem fixedlen_cells : CellSteps framingFixedlen fixedlenEvents config none := by
  refine ⟨?_, ?_, fun _ => rfl⟩
  · intro data length lastRead opcode r hr
    cases hr
    exact ⟨rfl, rfl⟩
  · intro data length lastRead opcode framingData r hr
    cases hr
    exact ⟨rfl, rfl⟩

theorem dynamic32_cells : CellSteps framingDynamic32 dynamic32Events config none := by
  refine ⟨?_, ?_, fun _ => rfl⟩
  · intro data length lastRead opcode r hr
    obtain ⟨c, -, hr⟩ := Option.bind_eq_some_iff.mp hr
    obtain ⟨n, -, rfl⟩ := Option.map_eq_some_iff.mp hr
    exact ⟨rfl, rfl⟩
  · intro data length lastRead opcode framingData r hr
    obtain ⟨n, -, rfl⟩ := Option.map_eq_some_iff.mp hr
    exact ⟨rfl, rfl⟩

end

/-- **The cell is used properly** by `separator` and `newline`, and where there is no data. -/
theorem cell_kept_iff (k : CellFraming) (config : {c : Bytes // k.Valid c}) (calls : List DataCall) :
    k.Kept config.val calls ↔ k = .separator ∨ k = .newline ∨ calls = [] := by
  obtain ⟨config, hv⟩ := config
  by_cases hcalls : calls = []
  · subst hcalls
    refine ⟨fun _ => .inr (.inr rfl), fun _ => ⟨[], ?_, .inl rfl⟩⟩
    cases k <;> rfl
  -- a run of calls that come back ends as its teardown call does
  have hkept {φ : Type} {f : WsFraming? φ} {events : Option Bytes → Option φ → List CellEvent}
      (hr : k.run config calls = cellRun f events config calls none)
      (hs : CellSteps f events config (some .released))
      (hd : ∀ data length lastRead opcode framingData,
        (f (some data) length lastRead opcode framingData (some config)).isSome)
      (ht : ∀ framingData, (f none 0 0 none (some framingData) (some config)).isSome) :
      k.Kept config calls := by
    obtain ⟨e, he⟩ := Option.isSome_iff_exists.mp (cellRun_isSome hd ht calls none)
    exact ⟨e, hr.trans he, .inr (hs.run hcalls he)⟩
  have hlost {φ : Type} {f : WsFraming? φ} {events : Option Bytes → Option φ → List CellEvent}
      (hr : k.run config calls = cellRun f events config calls none)
      (hs : CellSteps f events config none) : ¬k.Kept config calls := by
    rintro ⟨e, he, hlife⟩
    have hnone := hs.run hcalls (hr.symm.trans he)
    rcases hlife with h | h <;> rw [hnone] at h <;> cases h
  cases k with
  | separator =>
      refine ⟨fun _ => .inl rfl, fun _ => hkept rfl (separator_cells hv) ?_ fun _ => rfl⟩
      intro data length lastRead opcode framingData
      cases framingData with
      | none => rfl
      | some d => rfl
  | newline =>
      refine ⟨fun _ => .inr (.inl rfl), fun _ => hkept rfl newline_cells ?_ fun _ => rfl⟩
      intro data length lastRead opcode framingData
      cases framingData with
      | none => rfl
      | some d => rfl
  | fixedlength =>
      refine ⟨fun h => absurd h (hlost rfl fixedlen_cells), ?_⟩
      rintro (h | h | h)
      · cases h
      · cases h
      · exact absurd h hcalls
  | dynamic32 =>
      refine ⟨fun h => absurd h (hlost rfl dynamic32_cells), ?_⟩
      rintro (h | h | h)
      · cases h
      · cases h
      · exact absurd h hcalls

/-- One byte for frames of one byte: the teardown call reads the size it has just released. -/
theorem cell_kept_fails : ¬∀ (k : CellFraming) (config : {c : Bytes // k.Valid c})
    (calls : List DataCall), k.Kept config.val calls := by
  intro h
  obtain ⟨events, hrun, hlife⟩ := h .fixedlength ⟨ascii "1", trivial⟩ [⟨[97], 1, 1, .binary⟩]
  have hevents : events = [.alloc, .access, .access, .release, .access] := by
    cases hrun
    rfl
  rw [hevents] at hlife
  exact absurd hlife (by decide)

end Websocksy

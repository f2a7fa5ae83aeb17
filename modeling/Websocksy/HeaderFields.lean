import Websocksy.HttpPhase

/-!
# Header fields

A header field is a line with a name and a text behind the colon.  `ws_handle_http` takes it for
its name and its text without the blanks in front.  No NUL stands in a field: the line of one is
the C string that the handler sees.
-/

namespace Websocksy

open Buffer CString

variable {φ : Type}

/-- The name of a field: not empty, no colon or NUL, and no blank at its start. -/
abbrev FieldName := {n : Bytes // n ≠ [] ∧ 58 ∉ n ∧ 0 ∉ n ∧ n.head?.any isspace = false}

structure HeaderField where
  name : FieldName
  text : Bytes
  nul_notMem : 0 ∉ text

namespace HeaderField

def line (f : HeaderField) : Bytes := f.name.val ++ 58 :: f.text

/-- What a field does to the connection. -/
def apply (ws : Websocket φ) (f : HeaderField) : Websocket φ :=
  wsHeader f.name.val (ltrim f.text) ws

variable (f : HeaderField)

/-- The handler sees the whole line. -/
theorem cstr_line : cstr f.line = f.line := by
  refine cstr_eq_self f.line fun h => ?_
  rcases List.mem_append.mp h with hname | htext
  · exact f.name.property.2.2.1 hname
  · rcases List.mem_cons.mp htext with h0 | htext
    · cases h0
    · exact f.nul_notMem htext

theorem strchr_line : strchr 58 f.line = some (f.name.val, f.text) :=
  strchr_append f.name.property.2.1 f.text

theorem lineEnds_line (ws : Websocket φ) : lineEnds ws f.line = false := by
  unfold lineEnds
  rw [f.cstr_line, f.strchr_line]
  obtain ⟨c, rest, hname⟩ := List.exists_cons_of_ne_nil f.name.property.1
  have hc : isspace c = false := by
    have hfirst := f.name.property.2.2.2
    rw [hname] at hfirst
    exact hfirst
  have hline : f.line = c :: (rest ++ 58 :: f.text) := by
    rw [line, hname]
    rfl
  rw [hline]
  simp [hc]

variable {ws : Websocket φ}

theorem lineQuiet_line (hs : ws.state = .wsHttp) : lineQuiet ws f.line = f.apply ws := by
  unfold lineQuiet
  rw [if_neg (by rw [hs]; decide), f.cstr_line, f.strchr_line]
  rfl

theorem apply_state : (f.apply ws).state = ws.state := by
  obtain ⟨hs, ver, key, up, ps, h⟩ := wsHeader_eq f.name.val (ltrim f.text) ws
  rw [apply, h]

end HeaderField

/-- The lines of fields, one after the other. -/
def handleFields (env : Env φ) (fields : List HeaderField) (s : Conn φ) : Conn φ :=
  wsTakeLines env (fields.map HeaderField.line) s

/-- Behind the request line, the fields are applied in turn. -/
theorem handleFields_ws (env : Env φ) (fields : List HeaderField) {s : Conn φ}
    (hs : s.ws.state = .wsHttp) :
    (handleFields env fields s).ws = fields.foldl HeaderField.apply s.ws := by
  unfold handleFields
  induction fields generalizing s with
  | nil => rfl
  | cons f fields ih =>
      have hline : wsTakeLine env f.line s =
          ⟨f.apply s.ws, s.world.record (.line s.ws.conn s.ws.state f.line)⟩ := by
        rw [wsTakeLine_quiet env (f.lineEnds_line s.ws), f.lineQuiet_line hs]
      show (wsTakeLines env (fields.map HeaderField.line) (wsTakeLine env f.line s)).ws = _
      rw [hline]
      exact ih (f.apply_state.trans hs)

/-! ## What a header line does to the handshake -/

theorem wsHeader_version (header value : Bytes) (ws : Websocket φ) :
    (wsHeader header value ws).websocketVersion =
      if header = ascii "Sec-WebSocket-Version" then strtoul10 value % 2 ^ 32
      else ws.websocketVersion := by
  unfold wsHeader
  by_cases hv : header = ascii "Sec-WebSocket-Version"
  · rw [if_pos hv, if_pos hv]
  · rw [if_neg hv, if_neg hv]
    dsimp only
    repeat' split
    all_goals rfl

theorem wsHeader_key (header value : Bytes) (ws : Websocket φ) :
    (wsHeader header value ws).socketKey =
      if header = ascii "Sec-WebSocket-Key" then some (rtrim value) else ws.socketKey := by
  by_cases hk : header = ascii "Sec-WebSocket-Key"
  · subst hk
    rfl
  · unfold wsHeader
    rw [if_neg hk, if_neg hk]
    dsimp only
    repeat' split
    all_goals rfl

theorem wsHeader_wantUpgrade (header value : Bytes) (ws : Websocket φ) :
    (wsHeader header value ws).wantUpgrade =
      if header = ascii "Upgrade" ∧ strcasecmp value (ascii "websocket") then ws.wantUpgrade ||| 1
      else if header = ascii "Connection" ∧ strstr (value.map tolower) (ascii "upgrade") then
        ws.wantUpgrade ||| 2
      else ws.wantUpgrade := by
  by_cases hv : header = ascii "Sec-WebSocket-Version"
  · subst hv
    rfl
  · by_cases hk : header = ascii "Sec-WebSocket-Key"
    · subst hk
      rfl
    · unfold wsHeader
      rw [if_neg hv, if_neg hk]
      by_cases hu : header = ascii "Upgrade" ∧ strcasecmp value (ascii "websocket") = true
      · rw [if_pos hu, if_pos hu]
      · rw [if_neg hu, if_neg hu]
        by_cases hc : header = ascii "Connection"
        · rw [if_pos hc]
          dsimp only
          repeat' split
          all_goals rfl
        · have hno : ¬(header = ascii "Connection" ∧
              strstr (value.map tolower) (ascii "upgrade") = true) := fun h => hc h.1
          rw [if_neg hc, if_neg hno]
          dsimp only
          rw [if_neg (fun h => hc h.1)]
          repeat' split
          all_goals rfl

theorem wsHeader_protocol (header value : Bytes) (ws : Websocket φ) :
    (wsHeader header value ws).protocol =
      if header = ascii "Sec-WebSocket-Protocol" then (strtok 44 value).foldl addProtocol ws.protocol
      else ws.protocol := by
  by_cases hp : header = ascii "Sec-WebSocket-Protocol"
  · subst hp
    rfl
  · unfold wsHeader
    rw [if_neg hp]
    dsimp only
    repeat' split
    all_goals rfl

end Websocksy

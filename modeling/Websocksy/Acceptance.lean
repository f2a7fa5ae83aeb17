import Websocksy.Segmentation
import Websocksy.HeaderFields

/-!
# The acceptance of a request

A client sends the lines of a request one by one.  `ws_handle_new` passes over lines before the
request line, and `ws_upgrade_http` leaves a request of version 13 as it is when something else
is missing, both with a return code that nobody looks at.  Where neither happens, the
connection is open after a valid request and closed after any other one.
-/

namespace Websocksy

open Buffer CString Lines

variable {φ : Type}

/-! ## Valid requests -/

/-- A line of a request that arrives in one `recv`, not the empty one. -/
abbrev SentLine := {l : Bytes // l ≠ [] ∧ 0 ∉ l ∧ cutLine l = none ∧ l.length ≤ wsMaxLine - 3}

/-- `GET <path> HTTP/...` -/
def IsRequestLine (l : Bytes) : Prop :=
  ∃ path sep proto, l = ascii "GET " ++ (path ++ sep :: (ascii "HTTP/" ++ proto)) ∧
    (∀ c ∈ path, isspace c = false) ∧ isspace sep = true

/-- A header line that starts with white space or has no colon. -/
def Malformed (l : Bytes) : Prop := l.head?.any isspace = true ∨ 58 ∉ l

instance (l : Bytes) : Decidable (Malformed l) := inferInstanceAs (Decidable (_ ∨ _))

/-- The name and the value of a header line. -/
def headerField (l : Bytes) : Option (Bytes × Bytes) :=
  (strchr 58 l).map fun p => (p.1, ltrim p.2)

/-- Some line has the name, and a value of the kind. -/
def HasField (name : Bytes) (kind : Bytes → Bool) (hs : List SentLine) : Prop :=
  ∃ l ∈ hs, ∃ value, headerField l.val = some (name, value) ∧ kind value = true

/-- The number in a `Sec-WebSocket-Version` line. -/
def versionIn (l : Bytes) : Option Nat :=
  (headerField l).bind fun f =>
    if f.1 = ascii "Sec-WebSocket-Version" then some (strtoul10 f.2) else none

def lastVersion (hs : List SentLine) : Option Nat :=
  (hs.filterMap fun l => versionIn l.val).getLast?

/-- A key is given, and an upgrade to a websocket is wanted. -/
structure Complete (hs : List SentLine) : Prop where
  key : HasField (ascii "Sec-WebSocket-Key") (fun _ => true) hs
  upgrade : HasField (ascii "Upgrade") (strcasecmp · (ascii "websocket")) hs
  connection : HasField (ascii "Connection") (fun v => strstr (v.map tolower) (ascii "upgrade")) hs

/-- The lines of a valid request, before the empty one. -/
def ValidRequest : List SentLine → Prop
  | [] => False
  | l :: hs => IsRequestLine l.val ∧ (∀ h ∈ hs, ¬Malformed h.val) ∧ lastVersion hs = some 13 ∧
      Complete hs

/-! ## What becomes of a request -/

/-- A connection as it is after `accept`. -/
structure Accepted (x : Nat) (s : Conn φ) : Prop where
  ws : s.ws = { conn := s.ws.conn, wsFd := s.ws.wsFd, lastEvent := s.ws.lastEvent }
  sock : s.world.sockAt s.ws.wsFd = some x

/-- The reads of the lines. -/
def lineReads (ls : List Bytes) : List Bytes := ls.map (· ++ crlf)

/-- The lines are handled, and then the peer can be connected. -/
def PeerConnects (env : Env φ) (ls : List SentLine) (s : Conn φ) : Prop :=
  ∃ t, (dataCalls env).exec (lineReads (ls.map Subtype.val)) s = some t ∧
    (clientConnect env t).1 = false

/-- After the lines and the empty line, the connection is open exactly for a valid request whose
peer can be connected, and closed otherwise. -/
def Settled (env : Env φ) (ls : List SentLine) (s : Conn φ) : Prop :=
  ∃ t, (dataCalls env).exec (lineReads (ls.map Subtype.val ++ [[]])) s = some t ∧
    (t.ws.state = .wsOpen ↔ ValidRequest ls ∧ PeerConnects env ls s) ∧
    (t.ws.state ≠ .wsOpen → t.ws.state = .wsClosed)

/-- Some line is a request line, and what follows the first of them is malformed, of another
version, or complete: then no line may stand before the request line, and its version is not 13
by truncation alone, unless the peer cannot be connected. -/
def Concludes (connects : Prop) (ls : List SentLine) : Prop :=
  ∃ before l hs, ls = before ++ l :: hs ∧ (∀ b ∈ before, ¬IsRequestLine b.val) ∧
    IsRequestLine l.val ∧
    ((∃ h ∈ hs, Malformed h.val) ∨ (lastVersion hs).getD 0 % 2 ^ 32 ≠ 13 ∨
      Complete hs ∧ (connects → before = [] ∧ lastVersion hs = some 13))

section

variable {env : Env φ} {x : Nat} {s t : Conn φ}

/-! ## One line in one read -/

/-- A call of `ws_data` with one line, from an empty buffer. -/
theorem wsData_line (env : Env φ) {l : Bytes} (hs : InHttp s.ws)
    (hx : s.world.sockAt s.ws.wsFd = some x) (ho : s.ws.readBufferOffset = 0)
    (hl : cutLine l = none) (hlen : l.length ≤ wsMaxLine - 3) :
    ∃ t, wsData env (some (l ++ crlf)) s = some t ∧ Alike outward t (wsTakeLine env l s) ∧
      t.ws.readBufferOffset = 0 := by
  have hmax : wsMaxLine = 16384 := rfl
  have hfits : (l ++ crlf).length ≤ wsMaxLine - s.ws.readBufferOffset - 1 := by
    rw [List.length_append, ho]
    show l.length + 2 ≤ _
    omega
  have hne : l ++ crlf ≠ [] := by simp [crlf]
  refine ⟨_, wsData_http hs hx (List.take_of_length_le hfits).symm hne, ?_⟩
  have hdrain : lines.drain (l ++ crlf) = ([l], []) := by
    have hcut : lines.next (l ++ crlf) = some (l, []) := cutLine_append l [] hl
    rw [lines.drain_some hcut, lines.drain_none rfl]
  have hlines : recvLines s.ws (l ++ crlf) = [l] := by
    rw [recvLines, ho, slice_zero, withPending_nil, hdrain]
  have hends : EndsLast s.ws (recvLines s.ws (l ++ crlf)) := by
    rw [hlines, EndsLast]
    split
    · exact ⟨rfl, hl⟩
    · trivial
  obtain ⟨hscan, -, htaken⟩ := received_scanned env x hends
  rw [hlines] at htaken
  have hleft := hscan.left
  rw [hdrain] at hleft
  dsimp only at hleft htaken ⊢
  rw [hleft]
  constructor
  · exact ⟨htaken.ws, htaken.world⟩
  · rfl

/-- **Reads of one line each** do what the lines do. -/
theorem lineReads_request (env : Env φ) (ls : List Bytes) (hs : InHttp s.ws)
    (hx : s.world.sockAt s.ws.wsFd = some x) (ho : s.ws.readBufferOffset = 0) (hls : LinesFit ls)
    (hup : UpgradesLast s.ws ls) :
    ∃ t, (dataCalls env).exec (lineReads ls) s = some t ∧
      Alike outward t (wsTakeRequest env ls s) := by
  induction ls generalizing s with
  | nil => exact ⟨s, rfl, .refl s⟩
  | cons l ls ih =>
      obtain ⟨hl, hlen⟩ := hls l List.mem_cons_self
      obtain ⟨t, ht, halike, hzero⟩ := wsData_line env hs hx ho hl hlen
      have hexec : (dataCalls env).exec (lineReads (l :: ls)) s =
          (dataCalls env).exec (lineReads ls) t := by
        show ((dataCalls env).step (l ++ crlf) s).bind _ = _
        rw [show (dataCalls env).step (l ++ crlf) s = some t from ht]
        rfl
      rw [hexec, wsTakeRequest]
      unfold UpgradesLast at hup
      cases hends : lineEnds s.ws l with
      | true =>
          rw [if_pos rfl]
          rw [if_pos hends] at hup
          cases hu : lineUpgrades s.ws l with
          | true =>
              rw [hup hu]
              exact ⟨t, rfl, halike⟩
          | false =>
              have hline : (wsTakeLine env l s).ws.Cleared := wsTakeLine_cleared hends hu
              have hcleared := Cleared_bare halike.ws.symm hline
              obtain ⟨u, hu, hsame⟩ := closed_calls env (lineReads ls) hcleared
              exact ⟨u, hu, hsame.trans halike⟩
      | false =>
          rw [if_neg (by simp)]
          rw [if_neg (by simp [hends])] at hup
          have hq := wsTakeLine_quiet env hends
          have hws : t.ws.bare = (lineQuiet s.ws l).bare := by
            rw [halike.ws, hq]
          have hfd : t.world.sockAt t.ws.wsFd = some x := by
            rw [bare_congr Websocket.wsFd hws fun _ => rfl, (lineQuiet_conn s.ws l).2,
              view_sockAt halike.world, hq]
            exact hx
          have hin : InHttp t.ws := by
            have hstate := bare_congr Websocket.state hws fun _ => rfl
            unfold InHttp at hs ⊢
            rw [hstate]
            rcases lineQuiet_state s.ws l with e | ⟨-, e⟩
            · rw [e]
              exact hs
            · exact .inr e
          have hup' : UpgradesLast t.ws ls := (UpgradesLast_bare hws ls).mpr hup
          have hls' : LinesFit ls := fun m hm => hls m (List.mem_cons_of_mem l hm)
          obtain ⟨u, hu, hsame⟩ := ih hin hfd hzero hls' hup'
          exact ⟨u, hu, hsame.trans (wsTakeRequest_alike env ls halike)⟩

/-! ## The end of a request -/

theorem Sent.succeeds {data : Bytes} {b : Bool} {w w' : World}
    (hsend : ∀ k, env.send x k ≠ none) (h : Sent env x w data b w') : b = false := by
  cases h with
  | whole => rfl
  | cut ds hds hd hf => exact absurd hf (hsend _)

/-- The client socket stays where it is when a peer socket is opened. -/
theorem clientConnect_sockAt (env : Env φ) (hx : s.world.sockAt s.ws.wsFd = some x) :
    (clientConnect env s).2.world.sockAt (clientConnect env s).2.ws.wsFd = some x := by
  have hcases := clientConnect_cases env s
  generalize clientConnect env s = c at hcases ⊢
  cases hcases with
  | refused => exact hx
  | failed => exact hx
  | peer p f hf ho =>
      cases hfd : s.ws.wsFd with
      | none =>
          rw [hfd] at hx
          cases hx
      | some fd =>
          rw [hfd] at hx
          exact FdTable.entry_install_of_some hx

/-- `ws_upgrade_http` opens the connection or closes it, or leaves it as it is. -/
theorem wsUpgradeHttp_state (hsend : ∀ k, env.send x k ≠ none)
    (hx : s.world.sockAt s.ws.wsFd = some x) :
    (wsUpgradeHttp env s).2.ws.state =
      if s.ws.ready then (if (clientConnect env s).1 then .wsClosed else .wsOpen)
      else if s.ws.websocketVersion ≠ 13 then .wsClosed else s.ws.state := by
  by_cases hready : s.ws.ready = true
  · rw [wsUpgradeHttp_ready env hready, if_pos hready]
    have hx' := clientConnect_sockAt env hx
    dsimp only
    cases hc : (clientConnect env s).1 with
    | true => exact (wsClose_cleared env _ _ _).state
    | false =>
        have hsent := (networkSendAll_sent env (upgradeResponse env (clientConnect env s).2.ws)
          hx').succeeds hsend
        rw [if_neg (by simp), if_neg (by simp [hsent])]
        rfl
  · have hnot : s.ws.ready = false := Bool.eq_false_iff.mpr hready
    rw [if_neg hready]
    by_cases hv : s.ws.websocketVersion = 13
    · rw [if_neg (not_not.mpr hv), wsUpgradeHttp_incomplete env hnot hv]
    · rw [if_pos hv, wsUpgradeHttp_version env hnot hv]
      exact (wsClose_cleared env _ _ _).state

/-! ## Lines -/

theorem requestPath_isSome {l : Bytes} (h0 : 0 ∉ l) :
    (requestPath l).isSome = true ↔ IsRequestLine l := by
  unfold requestPath IsRequestLine
  constructor
  · intro h
    by_cases hget : strncmp l (ascii "GET ") = true
    · obtain ⟨t, rfl⟩ := List.isPrefixOf_iff_prefix.mp hget
      have hdrop : (ascii "GET " ++ t).drop 4 = t := rfl
      rw [if_pos hget, hdrop] at h
      obtain ⟨path, hpath⟩ : ∃ path, t.takeWhile (fun c => c != 0 && !isspace c) = path := ⟨_, rfl⟩
      dsimp only at h
      rw [hpath] at h
      by_cases hproto : strncmp ((ascii "GET " ++ t).drop (4 + path.length + 1))
          (ascii "HTTP/") = true
      · obtain ⟨proto, hrest⟩ := List.isPrefixOf_iff_prefix.mp hproto
        rw [Nat.add_assoc, ← List.drop_drop, hdrop] at hrest
        have hsplit := List.takeWhile_append_dropWhile (p := fun c => c != 0 && !isspace c) (l := t)
        rw [hpath] at hsplit
        cases hback : t.dropWhile (fun c => c != 0 && !isspace c) with
        | nil =>
            rw [hback, List.append_nil] at hsplit
            rw [← hsplit, List.drop_of_length_le (Nat.le_succ _)] at hrest
            cases hrest
        | cons sep back =>
            have hstop := List.head?_dropWhile_not (fun c => c != 0 && !isspace c) t
            rw [hback] at hsplit hstop
            refine ⟨path, sep, proto, ?_, ?_, ?_⟩
            · have hback' : back = ascii "HTTP/" ++ proto := by
                rw [← hsplit, ← List.drop_drop, List.drop_left] at hrest
                exact hrest.symm
              rw [← hsplit, hback']
            · intro c hc
              rw [← hpath] at hc
              have := List.mem_takeWhile_imp hc
              simp only [Bool.and_eq_true, Bool.not_eq_true'] at this
              exact this.2
            · have hne : sep ≠ 0 := by
                rintro rfl
                refine h0 (List.mem_append_right _ ?_)
                rw [← hsplit]
                exact List.mem_append_right _ List.mem_cons_self
              have hne' : (sep != 0) = true := by simpa using hne
              simpa [hne'] using hstop
      · rw [if_neg hproto] at h
        cases h
    · rw [if_neg hget] at h
      cases h
  · rintro ⟨path, sep, proto, rfl, hpath, hsep⟩
    have hget : strncmp (ascii "GET " ++ (path ++ sep :: (ascii "HTTP/" ++ proto))) (ascii "GET ") =
        true := List.isPrefixOf_iff_prefix.mpr (List.prefix_append _ _)
    have hdrop : (ascii "GET " ++ (path ++ sep :: (ascii "HTTP/" ++ proto))).drop 4 =
        path ++ sep :: (ascii "HTTP/" ++ proto) := rfl
    have htake : (path ++ sep :: (ascii "HTTP/" ++ proto)).takeWhile
        (fun c => c != 0 && !isspace c) = path := by
      rw [List.takeWhile_append_of_pos, List.takeWhile_cons, hsep]
      · simp
      · intro c hc
        have hne : c ≠ 0 := by
          rintro rfl
          exact h0 (List.mem_append_right _ (List.mem_append_left _ hc))
        simp [hne, hpath c hc]
    have hproto : strncmp ((path ++ sep :: (ascii "HTTP/" ++ proto)).drop (path.length + 1))
        (ascii "HTTP/") = true := by
      rw [← List.drop_drop, List.drop_left]
      exact List.isPrefixOf_iff_prefix.mpr (List.prefix_append _ _)
    rw [if_pos hget]
    dsimp only
    rw [hdrop, htake, Nat.add_assoc, ← List.drop_drop, hdrop, if_pos hproto]
    rfl

variable {ws : Websocket φ}

/-- A line after the request line ends the request if it is malformed. -/
theorem lineEnds_sent (hs : ws.state = .wsHttp) (l : SentLine) :
    lineEnds ws l.val = true ↔ Malformed l.val := by
  obtain ⟨l, hne, h0, -⟩ := l
  obtain ⟨c, rest, rfl⟩ := List.exists_cons_of_ne_nil hne
  unfold lineEnds Malformed
  rw [if_neg (by rw [hs]; decide), cstr_eq_self _ h0]
  dsimp only
  rw [Bool.or_eq_true, Option.isNone_iff_eq_none, strchr_eq_none]
  rfl

/-- What a header line is for the connection. -/
theorem lineQuiet_header (hs : ws.state = .wsHttp) {l : SentLine} {f : Bytes × Bytes}
    (hf : headerField l.val = some f) : lineQuiet ws l.val = wsHeader f.1 f.2 ws := by
  obtain ⟨p, hp, rfl⟩ := Option.map_eq_some_iff.mp hf
  unfold lineQuiet
  rw [if_neg (by rw [hs]; decide), cstr_eq_self _ l.property.2.1, hp]

theorem headerField_isSome {l : Bytes} (h : ¬Malformed l) : ∃ f, headerField l = some f := by
  unfold Malformed at h
  rw [not_or, not_not] at h
  cases hc : strchr 58 l with
  | none => exact absurd h.2 ((strchr_eq_none 58 l).mp hc)
  | some p => exact ⟨(p.1, ltrim p.2), by rw [headerField, hc]; rfl⟩

/-- Header lines leave the connection where it is. -/
theorem lineQuiet_http (hs : ws.state = .wsHttp) (l : Bytes) :
    (lineQuiet ws l).state = .wsHttp := by
  rcases lineQuiet_state ws l with e | ⟨-, e⟩
  · rw [e, hs]
  · exact e

/-- What the connection knows after header lines. -/
def headed (ws : Websocket φ) (hs : List SentLine) : Websocket φ :=
  hs.foldl (fun ws h => lineQuiet ws h.val) ws

theorem headed_http {hs : List SentLine} (h : ws.state = .wsHttp) :
    (headed ws hs).state = .wsHttp := by
  induction hs generalizing ws with
  | nil => exact h
  | cons l hs ih => exact ih (lineQuiet_http h l.val)

theorem headed_wsFd (ws : Websocket φ) (hs : List SentLine) : (headed ws hs).wsFd = ws.wsFd := by
  induction hs generalizing ws with
  | nil => rfl
  | cons l hs ih => exact (ih (lineQuiet ws l.val)).trans (lineQuiet_conn ws l.val).2

/-- A flag is set by the first field of its kind. -/
theorem headed_flag (flag : Websocket φ → Prop) {name : Bytes} {kind : Bytes → Bool}
    (hflag : ∀ (n v : Bytes) (ws : Websocket φ),
      flag (wsHeader n v ws) ↔ flag ws ∨ n = name ∧ kind v = true)
    {hs : List SentLine} (h : ws.state = .wsHttp) (hfine : ∀ l ∈ hs, ¬Malformed l.val) :
    flag (headed ws hs) ↔ flag ws ∨ HasField name kind hs := by
  induction hs generalizing ws with
  | nil => simp [headed, HasField]
  | cons l hs ih =>
      obtain ⟨f, hf⟩ := headerField_isSome (hfine l List.mem_cons_self)
      have hrest := ih (lineQuiet_http h l.val) fun m hm => hfine m (List.mem_cons_of_mem l hm)
      have hstep : headed ws (l :: hs) = headed (lineQuiet ws l.val) hs := rfl
      have hhere : (∃ value, headerField l.val = some (name, value) ∧ kind value = true) ↔
          f.1 = name ∧ kind f.2 = true := by
        rw [hf]
        constructor
        · rintro ⟨value, hvalue, hkind⟩
          rw [Option.some.inj hvalue]
          exact ⟨rfl, hkind⟩
        · rintro ⟨rfl, hkind⟩
          exact ⟨f.2, rfl, hkind⟩
      rw [hstep, hrest, lineQuiet_header h hf, hflag, or_assoc]
      unfold HasField
      rw [List.exists_mem_cons_iff, hhere]

theorem headed_version {hs : List SentLine} (h : ws.state = .wsHttp)
    (hfine : ∀ l ∈ hs, ¬Malformed l.val) :
    (headed ws hs).websocketVersion =
      ((lastVersion hs).map (· % 2 ^ 32)).getD ws.websocketVersion := by
  induction hs generalizing ws with
  | nil => rfl
  | cons l hs ih =>
      obtain ⟨f, hf⟩ := headerField_isSome (hfine l List.mem_cons_self)
      have hrest := ih (lineQuiet_http h l.val) fun m hm => hfine m (List.mem_cons_of_mem l hm)
      have hstep : headed ws (l :: hs) = headed (lineQuiet ws l.val) hs := rfl
      rw [hstep, hrest, lineQuiet_header h hf, wsHeader_version]
      unfold lastVersion
      rw [List.filterMap_cons]
      unfold versionIn
      rw [hf, Option.bind_some]
      by_cases hv : f.1 = ascii "Sec-WebSocket-Version"
      · rw [if_pos hv, if_pos hv]
        dsimp only
        rw [List.getLast?_cons]
        cases (hs.filterMap _).getLast? <;> rfl
      · rw [if_neg hv, if_neg hv]

/-! ## The three flags -/

theorem key_flag (n v : Bytes) (ws : Websocket φ) :
    (wsHeader n v ws).socketKey.isSome = true ↔
      ws.socketKey.isSome = true ∨ n = ascii "Sec-WebSocket-Key" ∧ true = true := by
  rw [wsHeader_key]
  by_cases hn : n = ascii "Sec-WebSocket-Key"
  · simp [hn]
  · simp [hn]

theorem upgrade_flag (n v : Bytes) (ws : Websocket φ) :
    (wsHeader n v ws).wantUpgrade.testBit 0 = true ↔
      ws.wantUpgrade.testBit 0 = true ∨
        n = ascii "Upgrade" ∧ strcasecmp v (ascii "websocket") = true := by
  rw [wsHeader_wantUpgrade]
  by_cases hu : n = ascii "Upgrade" ∧ strcasecmp v (ascii "websocket") = true
  · rw [if_pos hu, Nat.testBit_or]
    simp [hu]
  · rw [if_neg hu, or_iff_left hu]
    split
    · rw [Nat.testBit_or]
      simp
    · rfl

theorem connection_flag (n v : Bytes) (ws : Websocket φ) :
    (wsHeader n v ws).wantUpgrade.testBit 1 = true ↔
      ws.wantUpgrade.testBit 1 = true ∨
        n = ascii "Connection" ∧ strstr (v.map tolower) (ascii "upgrade") = true := by
  rw [wsHeader_wantUpgrade]
  by_cases hu : n = ascii "Upgrade" ∧ strcasecmp v (ascii "websocket") = true
  · have hno : ¬(n = ascii "Connection" ∧ strstr (v.map tolower) (ascii "upgrade") = true) := by
      rintro ⟨hn, -⟩
      rw [hu.1] at hn
      exact absurd hn (by decide +kernel)
    have hbit : Nat.testBit 1 1 = false := by decide
    rw [if_pos hu, or_iff_left hno, Nat.testBit_or, hbit, Bool.or_false]
  · rw [if_neg hu]
    by_cases hc : n = ascii "Connection" ∧ strstr (v.map tolower) (ascii "upgrade") = true
    · have hbit : Nat.testBit 2 1 = true := by decide
      rw [if_pos hc, Nat.testBit_or, hbit, Bool.or_true]
      exact ⟨fun _ => .inr hc, fun _ => rfl⟩
    · rw [if_neg hc, or_iff_left hc]

theorem wsHeader_want_lt (n v : Bytes) {ws : Websocket φ} (h : ws.wantUpgrade < 4) :
    (wsHeader n v ws).wantUpgrade < 4 := by
  rw [wsHeader_wantUpgrade]
  split
  · exact Nat.or_lt_two_pow (n := 2) h (by decide)
  · split
    · exact Nat.or_lt_two_pow (n := 2) h (by decide)
    · exact h

theorem headed_want {hs : List SentLine} (h : ws.state = .wsHttp) (hw : ws.wantUpgrade < 4)
    (hfine : ∀ l ∈ hs, ¬Malformed l.val) : (headed ws hs).wantUpgrade < 4 := by
  induction hs generalizing ws with
  | nil => exact hw
  | cons l hs ih =>
      obtain ⟨f, hf⟩ := headerField_isSome (hfine l List.mem_cons_self)
      refine ih (lineQuiet_http h l.val) ?_ fun m hm => hfine m (List.mem_cons_of_mem l hm)
      show (lineQuiet ws l.val).wantUpgrade < 4
      rw [lineQuiet_header h hf]
      exact wsHeader_want_lt f.1 f.2 hw

theorem want_three : ∀ w < 4, w = 3 ↔ w.testBit 0 = true ∧ w.testBit 1 = true := by decide

/-- **When the handshake is complete**, after header lines on a fresh request. -/
theorem headed_ready {hs : List SentLine} (h : ws.state = .wsHttp) (hv : ws.websocketVersion = 0)
    (hk : ws.socketKey = none) (hw : ws.wantUpgrade = 0) (hfine : ∀ l ∈ hs, ¬Malformed l.val) :
    (headed ws hs).ready = true ↔ (lastVersion hs).getD 0 % 2 ^ 32 = 13 ∧ Complete hs := by
  have hversion : (headed ws hs).websocketVersion = (lastVersion hs).getD 0 % 2 ^ 32 := by
    rw [headed_version h hfine, hv]
    cases lastVersion hs <;> rfl
  have hlt : (headed ws hs).wantUpgrade < 4 := headed_want h (by rw [hw]; decide) hfine
  have hkey : (headed ws hs).socketKey.isSome = true ↔ ws.socketKey.isSome = true ∨
      HasField (ascii "Sec-WebSocket-Key") (fun _ => true) hs :=
    headed_flag (fun ws => ws.socketKey.isSome = true) key_flag h hfine
  have hup : (headed ws hs).wantUpgrade.testBit 0 = true ↔ ws.wantUpgrade.testBit 0 = true ∨
      HasField (ascii "Upgrade") (strcasecmp · (ascii "websocket")) hs :=
    headed_flag (fun ws => ws.wantUpgrade.testBit 0 = true) upgrade_flag h hfine
  have hcon : (headed ws hs).wantUpgrade.testBit 1 = true ↔ ws.wantUpgrade.testBit 1 = true ∨
      HasField (ascii "Connection") (fun v => strstr (v.map tolower) (ascii "upgrade")) hs :=
    headed_flag (fun ws => ws.wantUpgrade.testBit 1 = true) connection_flag h hfine
  rw [hk] at hkey
  rw [hw] at hup hcon
  unfold Websocket.ready
  rw [Bool.and_eq_true, Bool.and_eq_true, beq_iff_eq, beq_iff_eq, hversion, want_three _ hlt, hkey,
    hup, hcon]
  constructor
  · rintro ⟨⟨h13, h1⟩, h2, h3⟩
    refine ⟨h13, ?_, ?_, ?_⟩
    · exact h1.resolve_left (by decide)
    · exact h2.resolve_left (by decide)
    · exact h3.resolve_left (by decide)
  · rintro ⟨h13, h1, h2, h3⟩
    exact ⟨⟨h13, .inr h1⟩, .inr h2, .inr h3⟩

/-! ## The lines of a request in turn -/

theorem upgradesLast_sent (ws : Websocket φ) (ls : List SentLine) {rest : List Bytes}
    (hrest : ∀ ws : Websocket φ, UpgradesLast ws rest) :
    UpgradesLast ws (ls.map Subtype.val ++ rest) := by
  induction ls generalizing ws with
  | nil => exact hrest ws
  | cons l ls ih =>
      obtain ⟨l, hne, h0, hl⟩ := l
      show UpgradesLast ws (l :: (ls.map Subtype.val ++ rest))
      unfold UpgradesLast
      split
      · intro hup
        unfold lineUpgrades at hup
        rw [cstr_eq_self l h0] at hup
        obtain ⟨c, l, rfl⟩ := List.exists_cons_of_ne_nil hne
        simp at hup
      · exact ih (lineQuiet ws l)

theorem upgradesLast_empty (ws : Websocket φ) : UpgradesLast ws [[]] := by
  unfold UpgradesLast
  split
  · exact fun _ => rfl
  · trivial

theorem upgradesLast_nil (ws : Websocket φ) : UpgradesLast ws [] := trivial

theorem linesFit_sent (ls : List SentLine) : LinesFit (ls.map Subtype.val) := by
  intro l hl
  obtain ⟨m, -, rfl⟩ := List.mem_map.mp hl
  exact ⟨m.property.2.2.1, m.property.2.2.2⟩

theorem linesFit_empty (ls : List SentLine) : LinesFit (ls.map Subtype.val ++ [[]]) := by
  intro l hl
  rcases List.mem_append.mp hl with hl | hl
  · exact linesFit_sent ls l hl
  · rw [List.mem_singleton.mp hl]
    exact ⟨rfl, Nat.zero_le _⟩

/-- Before the request line, lines leave a new connection as it is. -/
theorem takeRequest_before (env : Env φ) (hs : s.ws.state = .wsNew) {before : List SentLine}
    (hb : ∀ b ∈ before, ¬IsRequestLine b.val) : ∃ w, w.fds = s.world.fds ∧ ∀ rest,
      wsTakeRequest env (before.map Subtype.val ++ rest) s = wsTakeRequest env rest ⟨s.ws, w⟩ := by
  induction before generalizing s with
  | nil => exact ⟨s.world, rfl, fun _ => rfl⟩
  | cons b before ih =>
      have hquiet : lineEnds s.ws b.val = false := by
        unfold lineEnds
        rw [if_pos hs]
      have hpath : requestPath b.val = none := by
        have := mt (requestPath_isSome b.property.2.1).mp (hb b List.mem_cons_self)
        simpa using this
      have hsame : lineQuiet s.ws b.val = s.ws := by
        unfold lineQuiet
        rw [if_pos hs, hpath]
      have htake := wsTakeLine_quiet env hquiet
      rw [hsame] at htake
      obtain ⟨w, hw, hrest⟩ := @ih (wsTakeLine env b.val s) (by rw [htake]; exact hs)
        fun c hc => hb c (List.mem_cons_of_mem b hc)
      refine ⟨w, ?_, fun rest => ?_⟩
      · rw [hw, htake]
        rfl
      · show wsTakeRequest env (b.val :: (before.map Subtype.val ++ rest)) s = _
        rw [wsTakeRequest, hquiet, if_neg (by decide), hrest, htake]

theorem takeRequest_requestLine (env : Env φ) (hs : s.ws.state = .wsNew) {l : SentLine}
    (hl : IsRequestLine l.val) : ∃ path w, w.fds = s.world.fds ∧ ∀ rest,
      wsTakeRequest env (l.val :: rest) s = wsTakeRequest env rest
        ⟨{ s.ws with state := .wsHttp, requestPath := some path }, w⟩ := by
  obtain ⟨path, hpath⟩ := Option.isSome_iff_exists.mp ((requestPath_isSome l.property.2.1).mpr hl)
  have hquiet : lineEnds s.ws l.val = false := by
    unfold lineEnds
    rw [if_pos hs]
  have htake := wsTakeLine_quiet env hquiet
  unfold lineQuiet at htake
  rw [if_pos hs, hpath] at htake
  refine ⟨path, s.world.record (.line s.ws.conn s.ws.state l.val), rfl, fun rest => ?_⟩
  rw [wsTakeRequest, hquiet, if_neg (by decide), htake]

/-- A malformed header line closes the connection. -/
theorem takeRequest_malformed (hs : s.ws.state = .wsHttp) {hs' : List SentLine}
    (hbad : ∃ h ∈ hs', Malformed h.val) (rest : List Bytes) :
    (wsTakeRequest env (hs'.map Subtype.val ++ rest) s).ws.state = .wsClosed := by
  induction hs' generalizing s with
  | nil =>
      obtain ⟨h, hh, -⟩ := hbad
      cases hh
  | cons l ls ih =>
      show (wsTakeRequest env (l.val :: (ls.map Subtype.val ++ rest)) s).ws.state = _
      rw [wsTakeRequest]
      by_cases hl : Malformed l.val
      · have hends := (lineEnds_sent hs l).mpr hl
        rw [if_pos hends]
        refine (wsTakeLine_cleared hends ?_).state
        unfold lineUpgrades
        rw [cstr_eq_self l.val l.property.2.1]
        obtain ⟨c, t, hct⟩ := List.exists_cons_of_ne_nil l.property.1
        rw [hct]
        simp
      · have hquiet : lineEnds s.ws l.val = false :=
          Bool.eq_false_iff.mpr (mt (lineEnds_sent hs l).mp hl)
        rw [hquiet, if_neg (by decide)]
        have htake := wsTakeLine_quiet env hquiet
        refine ih ?_ ?_
        · rw [htake]
          exact lineQuiet_http hs l.val
        · obtain ⟨h, hh, hmal⟩ := hbad
          rcases List.mem_cons.mp hh with rfl | hh
          · exact absurd hmal hl
          · exact ⟨h, hh, hmal⟩

/-- Other header lines are taken in. -/
theorem takeRequest_headed (env : Env φ) (hs : s.ws.state = .wsHttp) {hs' : List SentLine}
    (hfine : ∀ h ∈ hs', ¬Malformed h.val) : ∃ w, w.fds = s.world.fds ∧ ∀ rest,
      wsTakeRequest env (hs'.map Subtype.val ++ rest) s =
        wsTakeRequest env rest ⟨headed s.ws hs', w⟩ := by
  induction hs' generalizing s with
  | nil => exact ⟨s.world, rfl, fun _ => rfl⟩
  | cons l ls ih =>
      have hquiet : lineEnds s.ws l.val = false :=
        Bool.eq_false_iff.mpr (mt (lineEnds_sent hs l).mp (hfine l List.mem_cons_self))
      have htake := wsTakeLine_quiet env hquiet
      obtain ⟨w, hw, hrest⟩ := @ih (wsTakeLine env l.val s)
        (by rw [htake]; exact lineQuiet_http hs l.val)
        fun m hm => hfine m (List.mem_cons_of_mem l hm)
      refine ⟨w, ?_, fun rest => ?_⟩
      · rw [hw, htake]
        rfl
      · show wsTakeRequest env (l.val :: (ls.map Subtype.val ++ rest)) s = _
        rw [wsTakeRequest, hquiet, if_neg (by decide), hrest, htake]
        rfl

/-- The empty line at the end of a request. -/
theorem takeRequest_empty (hsend : ∀ k, env.send x k ≠ none)
    (hx : s.world.sockAt s.ws.wsFd = some x) (hs : s.ws.state = .wsHttp) :
    (wsTakeRequest env [[]] s).ws.state =
      if s.ws.ready then (if (clientConnect env s).1 then .wsClosed else .wsOpen)
      else if s.ws.websocketVersion ≠ 13 then .wsClosed else .wsHttp := by
  have hnew : s.ws.state ≠ .wsNew := by
    rw [hs]
    decide
  have hends : lineEnds s.ws [] = (s.ws.ready || s.ws.websocketVersion != 13) := by
    unfold lineEnds
    rw [if_neg hnew]
    rfl
  have htake : wsTakeLine env [] s =
      (wsUpgradeHttp env ⟨s.ws, s.world.record (.line s.ws.conn s.ws.state [])⟩).2 := by
    unfold wsTakeLine
    dsimp only
    rw [if_neg hnew]
    rfl
  have hsame : wsTakeRequest env [[]] s = wsTakeLine env [] s := by
    rw [wsTakeRequest, wsTakeRequest]
    split <;> rfl
  have hseen : Alike (fun _ => false)
      ⟨s.ws, s.world.record (.line s.ws.conn s.ws.state [])⟩ s := ⟨rfl, view_record_drop rfl _⟩
  have hconnect := (clientConnect_alike env hseen).1
  have hstate := wsUpgradeHttp_state hsend
    (s := ⟨s.ws, s.world.record (.line s.ws.conn s.ws.state [])⟩) hx
  rw [hconnect] at hstate
  rw [hsame, htake, hstate, hs]

/-! ## One request -/

theorem exists_first {P : SentLine → Prop} {ls : List SentLine} (h : ∃ l ∈ ls, P l) :
    ∃ before l after, ls = before ++ l :: after ∧ (∀ b ∈ before, ¬P b) ∧ P l := by
  induction ls with
  | nil =>
      obtain ⟨l, hl, -⟩ := h
      cases hl
  | cons a ls ih =>
      by_cases ha : P a
      · exact ⟨[], a, ls, rfl, by simp, ha⟩
      · have hrest : ∃ l ∈ ls, P l := by
          obtain ⟨l, hl, hp⟩ := h
          rcases List.mem_cons.mp hl with rfl | hl
          · exact absurd hp ha
          · exact ⟨l, hl, hp⟩
        obtain ⟨before, l, after, rfl, hb, hp⟩ := ih hrest
        refine ⟨a :: before, l, after, rfl, ?_, hp⟩
        intro b hmem
        rcases List.mem_cons.mp hmem with rfl | hmem
        · exact ha
        · exact hb b hmem

variable {ls before hs : List SentLine} {l : SentLine}

theorem validRequest_split (hb : ∀ b ∈ before, ¬IsRequestLine b.val) (hl : IsRequestLine l.val) :
    ValidRequest (before ++ l :: hs) ↔ before = [] ∧ (∀ h ∈ hs, ¬Malformed h.val) ∧
      lastVersion hs = some 13 ∧ Complete hs := by
  cases before with
  | nil => exact ⟨fun h => ⟨rfl, h.2⟩, fun h => ⟨hl, h.2⟩⟩
  | cons b before =>
      constructor
      · intro h
        exact absurd h.1 (hb b List.mem_cons_self)
      · rintro ⟨h, -⟩
        cases h

/-- Reads of the lines of a request, from a new connection. -/
theorem lineReads_sent (env : Env φ) (hs : Accepted x s) (ls : List SentLine) {rest : List Bytes}
    (hup : ∀ ws : Websocket φ, UpgradesLast ws rest)
    (hfit : LinesFit (ls.map Subtype.val ++ rest)) :
    ∃ t, (dataCalls env).exec (lineReads (ls.map Subtype.val ++ rest)) s = some t ∧
      Alike outward t (wsTakeRequest env (ls.map Subtype.val ++ rest) s) := by
  have hnew : s.ws.state = .wsNew := by rw [hs.ws]
  have hzero : s.ws.readBufferOffset = 0 := by rw [hs.ws]
  exact lineReads_request env _ (.inl hnew) hs.sock hzero hfit (upgradesLast_sent s.ws ls hup)

theorem peerConnects_iff (hs : Accepted x s) (ls : List SentLine) : PeerConnects env ls s ↔
    (clientConnect env (wsTakeRequest env (ls.map Subtype.val) s)).1 = false := by
  have hfit : LinesFit (ls.map Subtype.val ++ []) := by
    rw [List.append_nil]
    exact linesFit_sent ls
  obtain ⟨t, ht, halike⟩ := lineReads_sent env hs ls (upgradesLast_nil (φ := φ)) hfit
  rw [List.append_nil] at ht halike
  rw [← (clientConnect_alike env halike).1]
  constructor
  · rintro ⟨u, hu, hc⟩
    rw [ht] at hu
    cases hu
    exact hc
  · intro hc
    exact ⟨t, ht, hc⟩

theorem settled_state (hs : Accepted x s) (ls : List SentLine) : Settled env ls s ↔
    ((wsTakeRequest env (ls.map Subtype.val ++ [[]]) s).ws.state = .wsOpen ↔
      ValidRequest ls ∧ PeerConnects env ls s) ∧
    ((wsTakeRequest env (ls.map Subtype.val ++ [[]]) s).ws.state ≠ .wsOpen →
      (wsTakeRequest env (ls.map Subtype.val ++ [[]]) s).ws.state = .wsClosed) := by
  obtain ⟨t, ht, halike⟩ := lineReads_sent env hs ls upgradesLast_empty (linesFit_empty ls)
  rw [← bare_congr Websocket.state halike.ws fun _ => rfl]
  constructor
  · rintro ⟨u, hu, hopen, hclosed⟩
    rw [ht] at hu
    cases hu
    exact ⟨hopen, hclosed⟩
  · rintro ⟨hopen, hclosed⟩
    exact ⟨t, ht, hopen, hclosed⟩

/-- A request with a request line, as its header lines are read. -/
theorem takeRequest_split (env : Env φ) (hs : List SentLine) (hs' : Accepted x s)
    (hb : ∀ b ∈ before, ¬IsRequestLine b.val)
    (hl : IsRequestLine l.val) : ∃ t : Conn φ, t.ws.state = .wsHttp ∧ t.ws.websocketVersion = 0 ∧
      t.ws.socketKey = none ∧ t.ws.wantUpgrade = 0 ∧ t.world.sockAt t.ws.wsFd = some x ∧ ∀ rest,
      wsTakeRequest env ((before ++ l :: hs).map Subtype.val ++ rest) s =
        wsTakeRequest env (hs.map Subtype.val ++ rest) t := by
  have hnew : s.ws.state = .wsNew := by rw [hs'.ws]
  obtain ⟨w, hw, hbefore⟩ := takeRequest_before env hnew hb
  obtain ⟨path, w', hw', hline⟩ := takeRequest_requestLine env (s := ⟨s.ws, w⟩) hnew hl
  refine ⟨⟨{ s.ws with state := .wsHttp, requestPath := some path }, w'⟩, rfl, ?_, ?_, ?_, ?_,
    fun rest => ?_⟩
  · show s.ws.websocketVersion = 0
    rw [hs'.ws]
  · show s.ws.socketKey = none
    rw [hs'.ws]
  · show s.ws.wantUpgrade = 0
    rw [hs'.ws]
  · show World.sockAt w' s.ws.wsFd = some x
    have hx := hs'.sock
    rw [World.sockAt] at hx ⊢
    rw [hw', hw]
    exact hx
  · rw [List.map_append, List.append_assoc, hbefore]
    exact hline _

/-- The condition, for the lines behind a request line. -/
theorem settled_split (hsend : ∀ k, env.send x k ≠ none) (hs' : Accepted x s)
    (hb : ∀ b ∈ before, ¬IsRequestLine b.val) (hl : IsRequestLine l.val) :
    Settled env (before ++ l :: hs) s ↔
      (∃ h ∈ hs, Malformed h.val) ∨ (lastVersion hs).getD 0 % 2 ^ 32 ≠ 13 ∨
        Complete hs ∧ (PeerConnects env (before ++ l :: hs) s →
          before = [] ∧ lastVersion hs = some 13) := by
  obtain ⟨t, hhttp, hv, hk, hw, hx, hrest⟩ := takeRequest_split env hs hs' hb hl
  rw [settled_state hs', hrest, validRequest_split hb hl]
  by_cases hbad : ∃ h ∈ hs, Malformed h.val
  · rw [takeRequest_malformed hhttp hbad]
    obtain ⟨h, hh, hmal⟩ := hbad
    constructor
    · exact fun _ => .inl ⟨h, hh, hmal⟩
    · intro _
      refine ⟨⟨fun hopen => (by cases hopen), fun hvalid => ?_⟩, fun _ => rfl⟩
      exact absurd hmal (hvalid.1.2.1 h hh)
  · have hfine : ∀ h ∈ hs, ¬Malformed h.val := fun h hh hmal => hbad ⟨h, hh, hmal⟩
    obtain ⟨w, hfds, hheaded⟩ := takeRequest_headed env hhttp hfine
    have hpeer : PeerConnects env (before ++ l :: hs) s ↔
        (clientConnect env ⟨headed t.ws hs, w⟩).1 = false := by
      have hall := hrest []
      rw [List.append_nil, hheaded] at hall
      rw [peerConnects_iff hs', hall]
      rfl
    have hversion : (headed t.ws hs).websocketVersion = (lastVersion hs).getD 0 % 2 ^ 32 := by
      rw [headed_version hhttp hfine, hv]
      cases lastVersion hs <;> rfl
    have hready := headed_ready hhttp hv hk hw hfine
    have hsock : World.sockAt w (headed t.ws hs).wsFd = some x := by
      rw [headed_wsFd, World.sockAt, hfds]
      exact hx
    rw [hheaded, takeRequest_empty hsend hsock (headed_http hhttp), hversion]
    by_cases hcomplete : (lastVersion hs).getD 0 % 2 ^ 32 = 13 ∧ Complete hs
    · rw [if_pos (hready.mpr hcomplete)]
      by_cases hconnects : (clientConnect env ⟨headed t.ws hs, w⟩).1 = false
      · rw [if_neg (by rw [hconnects]; decide)]
        constructor
        · rintro ⟨hopen, -⟩
          obtain ⟨⟨hfirst, -, h13, -⟩, -⟩ := hopen.mp rfl
          exact .inr (.inr ⟨hcomplete.2, fun _ => ⟨hfirst, h13⟩⟩)
        · rintro (h | h | ⟨-, h⟩)
          · exact absurd h hbad
          · exact absurd hcomplete.1 h
          · obtain ⟨hfirst, h13⟩ := h (hpeer.mpr hconnects)
            refine ⟨⟨fun _ => ?_, fun _ => rfl⟩, fun hno => absurd rfl hno⟩
            exact ⟨⟨hfirst, hfine, h13, hcomplete.2⟩, hpeer.mpr hconnects⟩
      · rw [if_pos (by simpa using hconnects)]
        constructor
        · intro _
          exact .inr (.inr ⟨hcomplete.2, fun h => absurd (hpeer.mp h) hconnects⟩)
        · intro _
          refine ⟨⟨fun hopen => (by cases hopen), fun hvalid => ?_⟩, fun _ => rfl⟩
          exact absurd (hpeer.mp hvalid.2) hconnects
    · rw [if_neg (mt hready.mp hcomplete)]
      by_cases hv13 : (lastVersion hs).getD 0 % 2 ^ 32 = 13
      · -- the connection is left half-open
        rw [if_neg (not_not.mpr hv13)]
        constructor
        · rintro ⟨-, hclosed⟩
          cases hclosed (by decide)
        · rintro (h | h | ⟨h, -⟩)
          · exact absurd h hbad
          · exact absurd hv13 h
          · exact absurd ⟨hv13, h⟩ hcomplete
      · rw [if_pos hv13]
        constructor
        · exact fun _ => .inr (.inl hv13)
        · intro _
          refine ⟨⟨fun hopen => (by cases hopen), fun hvalid => ?_⟩, fun _ => rfl⟩
          rw [hvalid.1.2.2.1] at hv13
          exact absurd rfl hv13

/-- Without a request line the connection stays new. -/
theorem not_settled (hs' : Accepted x s) (hno : ∀ l ∈ ls, ¬IsRequestLine l.val) :
    ¬Settled env ls s := by
  have hnew : s.ws.state = .wsNew := by rw [hs'.ws]
  rw [settled_state hs']
  rintro ⟨-, hclosed⟩
  obtain ⟨w, -, hrest⟩ := takeRequest_before env hnew hno
  have hstate : (wsTakeRequest env (ls.map Subtype.val ++ [[]]) s).ws.state = .wsNew := by
    have hquiet : lineEnds s.ws [] = false := by
      unfold lineEnds
      rw [if_pos hnew]
    have hpath : requestPath [] = none := rfl
    rw [hrest, wsTakeRequest, hquiet, if_neg (by decide), wsTakeRequest,
      wsTakeLine_quiet env (s := ⟨s.ws, w⟩) hquiet]
    show (lineQuiet s.ws []).state = _
    unfold lineQuiet
    rw [if_pos hnew, hpath]
    exact hnew
  rw [hstate] at hclosed
  cases hclosed (by decide)

end

/-- **A request is accepted or refused** at its empty line exactly if some line is a request
line, and the lines behind the first one are malformed, not of version 13, or complete: in the
last case the peer cannot be connected, or no line stands before the request line and the
version is 13 itself. -/
theorem settled_iff (env : Env φ) {x : Nat} (hsend : ∀ k, env.send x k ≠ none) (s : Conn φ)
    (hs : Accepted x s) (ls : List SentLine) :
    Settled env ls s ↔ Concludes (PeerConnects env ls s) ls := by
  constructor
  · intro h
    by_cases hreq : ∃ l ∈ ls, IsRequestLine l.val
    · obtain ⟨before, l, after, rfl, hb, hl⟩ := exists_first hreq
      exact ⟨before, l, after, rfl, hb, hl, (settled_split hsend hs hb hl).mp h⟩
    · exact absurd h (not_settled hs fun l hl hr => hreq ⟨l, hl, hr⟩)
  · rintro ⟨before, l, after, rfl, hb, hl, h⟩
    exact (settled_split hsend hs hb hl).mpr h

/-- The lines of a complete request, each a line that is sent. -/
def sampleSent : List SentLine :=
  [⟨ascii "GET /a HTTP/1.1", by decide +kernel⟩,
    ⟨ascii "Sec-WebSocket-Version: 13", by decide +kernel⟩,
    ⟨ascii "Sec-WebSocket-Key: k", by decide +kernel⟩,
    ⟨ascii "Upgrade: websocket", by decide +kernel⟩,
    ⟨ascii "Connection: Upgrade", by decide +kernel⟩]

theorem sampleConn_accepted : Accepted 4 sampleConn := ⟨rfl, rfl⟩

theorem settled_sample : Settled sampleEnv sampleSent sampleConn := by
  refine (settled_iff sampleEnv (x := 4) (fun _ => by simp [sampleEnv]) sampleConn
    sampleConn_accepted sampleSent).mpr ?_
  refine ⟨[], _, _, rfl, by simp, ?_, .inr (.inr ⟨⟨?_, ?_, ?_⟩, fun _ => ⟨rfl, by decide +kernel⟩⟩)⟩
  · exact (requestPath_isSome (by decide +kernel)).mp (by decide +kernel)
  · exact ⟨⟨ascii "Sec-WebSocket-Key: k", by decide +kernel⟩, by simp, ascii "k",
      by decide +kernel, rfl⟩
  · exact ⟨⟨ascii "Upgrade: websocket", by decide +kernel⟩, by simp, ascii "websocket",
      by decide +kernel, by decide +kernel⟩
  · exact ⟨⟨ascii "Connection: Upgrade", by decide +kernel⟩, by simp, ascii "Upgrade",
      by decide +kernel, by decide +kernel⟩

/-- A line in front of the request line is no obstacle. -/
theorem settled_fails : ¬∀ (env : Env Unit) (x : Nat) (s : Conn Unit) (ls : List SentLine),
    (∀ k, env.send x k ≠ none) → Accepted x s → Settled env ls s := by
  intro h
  let hello : SentLine := ⟨ascii "HELLO", by decide +kernel⟩
  obtain ⟨t, ht, hopen, -⟩ := h sampleEnv 4 sampleConn (hello :: sampleSent)
    (fun _ => by simp [sampleEnv]) sampleConn_accepted
  have hstate : ((dataCalls sampleEnv).exec
      (lineReads ((hello :: sampleSent).map Subtype.val ++ [[]])) sampleConn).map (·.ws.state) =
        some .wsOpen := by decide +kernel
  rw [ht] at hstate
  have hvalid := (hopen.mp (Option.some.inj hstate)).1
  have hpath := (requestPath_isSome hello.property.2.1).mpr hvalid.1
  exact absurd hpath (by decide +kernel)

end Websocksy

import Websocksy.Acceptance
import Websocksy.ClientStream
import Websocksy.Readiness
import Websocksy.Subprotocols

/-!
# What a client asks for

A request is read off its lines as a whole (`Request.ofLines`): the path of the first request line,
and of the fields after it the last version, the last key, each protocol once and the first fields
for the backend.  The handlers get there line by line.  In every run the connection knows the
request of the lines that were handled, and an open one is connected to what the backend answered to
this request, and was told so (`open_as_requested`).
-/

namespace Websocksy

open Buffer CString Lines

variable {φ : Type}

/-! ## Requests -/

structure Request where
  path : Option Bytes
  version : Nat
  key : Option Bytes
  upgrade : Bool
  connection : Bool
  protocols : List Bytes
  headers : List WsHttpHeader
  deriving DecidableEq

/-- `Upgrade: websocket` -/
def wantsWebsocket (f : Bytes × Bytes) : Bool :=
  decide (f.1 = ascii "Upgrade") && strcasecmp f.2 (ascii "websocket")

/-- `Connection: Upgrade` -/
def wantsUpgrade (f : Bytes × Bytes) : Bool :=
  decide (f.1 = ascii "Connection") && strstr (f.2.map tolower) (ascii "upgrade")

/-- What the backend is told of a field; none of what the handshake is about.  `xstr_lower` lowers
the value of a `Connection` field that asks for something else. -/
def forBackend (f : Bytes × Bytes) : Option WsHttpHeader :=
  if f.1 = ascii "Sec-WebSocket-Version" ∨ f.1 = ascii "Sec-WebSocket-Key" ∨
      f.1 = ascii "Sec-WebSocket-Protocol" ∨ wantsWebsocket f ∨ wantsUpgrade f then none
  else some ⟨f.1, if f.1 = ascii "Connection" then f.2.map tolower else f.2⟩

/-- The values of the fields with the name. -/
def valuesOf (name : Bytes) (fields : List (Bytes × Bytes)) : List Bytes :=
  (fields.filter fun f => decide (f.1 = name)).map (·.2)

/-- The request with the fields. -/
def Request.ofFields (path : Option Bytes) (fields : List (Bytes × Bytes)) : Request where
  path := path
  version := ((valuesOf (ascii "Sec-WebSocket-Version") fields).getLast?.map
    fun v => strtoul10 v % 2 ^ 32).getD 0
  key := (valuesOf (ascii "Sec-WebSocket-Key") fields).getLast?.map rtrim
  upgrade := fields.any wantsWebsocket
  connection := fields.any wantsUpgrade
  protocols := ((valuesOf (ascii "Sec-WebSocket-Protocol") fields).flatMap
    fun v => (strtok 44 v).map trim).eraseDups
  headers := (fields.filterMap forBackend).take wsHeaderLimit

/-- The request of some lines. -/
def Request.ofLines (ls : List Bytes) : Request :=
  let request := ls.dropWhile fun l => (requestPath l).isNone
  .ofFields (request.head?.bind requestPath)
    (request.tail.filterMap fun l => headerField (cstr l))

/-- It is one for a websocket. -/
structure Request.ForWebsocket (q : Request) : Prop where
  path : q.path.isSome
  version : q.version = 13
  key : q.key.isSome
  upgrade : q.upgrade = true
  connection : q.connection = true

/-- What a connection knows of the request. -/
def Websocket.request (ws : Websocket φ) : Request where
  path := ws.requestPath
  version := ws.websocketVersion
  key := ws.socketKey
  upgrade := ws.wantUpgrade.testBit 0
  connection := ws.wantUpgrade.testBit 1
  protocols := ws.protocol
  headers := ws.header

/-- The 101 response of a connection. -/
def Websocket.response (env : Env φ) (ws : Websocket φ) : Bytes :=
  (response101 env (ws.request.key.getD []) ws.request.protocols[ws.peer.protocol]?).flatten

/-- After the lines `ls`, the last of them blank, the connection is open as it was asked for: the
request is one for a websocket, and the peer is one that the backend answered to this request and
that could be connected. -/
structure OpenedAs (env : Env φ) (ls : List Bytes) (ws : Websocket φ) : Prop where
  blank : ls.getLast?.map cstr = some []
  request : ws.request = .ofLines ls.dropLast
  complete : ws.request.ForWebsocket
  peer : ∃ n k address, clientResolve (env.query n ws.request.path ws.request.protocols
    ws.request.headers) = (ws.peer, some address) ∧ env.connect k address = true

/-- What a connection in the HTTP phase knows after the lines `ls`. -/
structure Knows (ls : List Bytes) (ws : Websocket φ) : Prop where
  request : ws.request = .ofLines ls
  phase : ws.state = .wsNew ↔ ∀ l ∈ ls, requestPath l = none
  want : ws.wantUpgrade < 4

section

variable {env : Env φ} {ws ws' : Websocket φ} {f : Bytes × Bytes} {fields : List (Bytes × Bytes)}
  {path : Option Bytes}

/-! ## Fields -/

theorem valuesOf_concat (name : Bytes) :
    valuesOf name (fields ++ [f]) =
      valuesOf name fields ++ if f.1 = name then [f.2] else [] := by
  unfold valuesOf
  rw [List.filter_append, List.map_append]
  by_cases h : f.1 = name <;> simp [h]

theorem valuesOf_last (name : Bytes) {α : Type} (g : Bytes → α) :
    (valuesOf name (fields ++ [f])).getLast?.map g =
      if f.1 = name then some (g f.2) else (valuesOf name fields).getLast?.map g := by
  rw [valuesOf_concat]
  by_cases h : f.1 = name
  · rw [if_pos h, if_pos h, List.getLast?_concat]
    rfl
  · rw [if_neg h, if_neg h, List.append_nil]

theorem wantsWebsocket_iff : wantsWebsocket f = true ↔
    f.1 = ascii "Upgrade" ∧ strcasecmp f.2 (ascii "websocket") = true := by
  unfold wantsWebsocket
  rw [Bool.and_eq_true, decide_eq_true_iff]

theorem wantsUpgrade_iff : wantsUpgrade f = true ↔
    f.1 = ascii "Connection" ∧ strstr (f.2.map tolower) (ascii "upgrade") = true := by
  unfold wantsUpgrade
  rw [Bool.and_eq_true, decide_eq_true_iff]

/-- Fields beyond the limit are not kept. -/
theorem wsHeader_header (f : Bytes × Bytes) (ws : Websocket φ) :
    (wsHeader f.1 f.2 ws).header =
      if ws.header.length < wsHeaderLimit then ws.header ++ (forBackend f).toList
      else ws.header := by
  have hnone (h : forBackend f = none) : ws.header =
      if ws.header.length < wsHeaderLimit then ws.header ++ (forBackend f).toList
      else ws.header := by
    rw [h, Option.toList_none, List.append_nil, ite_self]
  unfold wsHeader
  split
  · next hv => exact hnone (if_pos (.inl hv))
  split
  · next hk => exact hnone (if_pos (.inr (.inl hk)))
  split
  · next hu => exact hnone (if_pos (.inr (.inr (.inr (.inl (wantsWebsocket_iff.mpr hu))))))
  next hv hk hu =>
  dsimp only
  generalize hvalue : (if f.1 = ascii "Connection" then f.2.map tolower else f.2) = value
  split
  · next hc =>
    rw [if_pos hc.1] at hvalue
    subst hvalue
    exact hnone (if_pos (.inr (.inr (.inr (.inr (wantsUpgrade_iff.mpr hc))))))
  split
  · next hp => exact hnone (if_pos (.inr (.inr (.inl hp))))
  · next hc hp =>
    have hcon : ¬wantsUpgrade f = true := by
      rw [wantsUpgrade_iff]
      intro hc'
      rw [if_pos hc'.1] at hvalue
      subst hvalue
      exact hc hc'
    have hsome : forBackend f = some ⟨f.1, value⟩ := by
      rw [← hvalue]
      refine if_neg ?_
      rw [wantsWebsocket_iff]
      simp only [not_or]
      exact ⟨hv, hk, hp, hu, hcon⟩
    rw [hsome]
    split <;> rfl

/-- One more, as long as there is room. -/
theorem take_concat {α : Type} (l : List α) (o : Option α) (n : Nat) :
    (l ++ o.toList).take n =
      if (l.take n).length < n then l.take n ++ o.toList else l.take n := by
  rw [List.take_append, List.length_take]
  by_cases h : l.length < n
  · have hone : o.toList.length ≤ n - l.length := by
      have hle : o.toList.length ≤ 1 := by cases o <;> simp
      omega
    rw [if_pos (by omega), List.take_of_length_le hone]
  · have hzero : n - l.length = 0 := by omega
    rw [if_neg (by omega), hzero, List.take_zero, List.append_nil]

/-- What a field adds to the request. -/
theorem wsHeader_request (h : ws.request = .ofFields path fields) :
    (wsHeader f.1 f.2 ws).request = .ofFields path (fields ++ [f]) := by
  obtain ⟨hs, ver, key, up, ps, he⟩ := wsHeader_eq f.1 f.2 ws
  have hpath : (wsHeader f.1 f.2 ws).requestPath = ws.requestPath := by rw [he]
  have hknown : ∀ {α : Type} (g : Request → α), g ws.request = g (.ofFields path fields) :=
    fun g => congrArg g h
  have hversion := hknown Request.version
  have hkey := hknown Request.key
  have hupgrade := hknown Request.upgrade
  have hconnection := hknown Request.connection
  have hprotocols := hknown Request.protocols
  have hheaders := hknown Request.headers
  unfold Websocket.request Request.ofFields
  dsimp only [Websocket.request, Request.ofFields] at hversion hkey hupgrade hconnection
  dsimp only [Websocket.request, Request.ofFields] at hprotocols hheaders
  congr 1
  · rw [hpath]
    exact hknown Request.path
  · rw [wsHeader_version, valuesOf_last, hversion]
    split <;> rfl
  · rw [wsHeader_key, valuesOf_last, hkey]
  · rw [Bool.eq_iff_iff, upgrade_flag, List.any_append, hupgrade, Bool.or_eq_true,
      ← wantsWebsocket_iff (f := f)]
    simp
  · rw [Bool.eq_iff_iff, connection_flag, List.any_append, hconnection, Bool.or_eq_true,
      ← wantsUpgrade_iff (f := f)]
    simp
  · rw [wsHeader_protocol, valuesOf_concat, List.flatMap_append, hprotocols]
    split
    · rw [foldl_addProtocol]
      simp
    · simp
  · have hone : [f].filterMap forBackend = (forBackend f).toList := by
      rw [List.filterMap_cons, List.filterMap_nil]
      cases forBackend f <;> rfl
    rw [wsHeader_header, hheaders, List.filterMap_append, hone, take_concat]

/-! ## Lines -/

theorem InHttp.states (h : InHttp ws) : ws.state ≠ .wsOpen ∧ ws.state ≠ .wsClosed := by
  rcases h with h | h <;> simp [h]

theorem Request.ofLines_none {ls : List Bytes} (h : ∀ l ∈ ls, requestPath l = none) :
    Request.ofLines ls = .ofFields none [] := by
  have hdrop : (ls.dropWhile fun l => (requestPath l).isNone) = [] := by
    rw [List.dropWhile_eq_nil_iff]
    intro l hl
    simp [h l hl]
  unfold Request.ofLines
  rw [hdrop]
  rfl

/-- The request line. -/
theorem Request.ofLines_path {ls : List Bytes} (h : ∀ l ∈ ls, requestPath l = none) (l : Bytes) :
    Request.ofLines (ls ++ [l]) = .ofFields (requestPath l) [] := by
  have hdrop : ((ls ++ [l]).dropWhile fun l => (requestPath l).isNone) =
      [l].dropWhile fun l => (requestPath l).isNone := by
    refine List.dropWhile_append_of_pos ?_
    intro l hl
    simp [h l hl]
  unfold Request.ofLines
  rw [hdrop]
  cases hl : requestPath l with
  | none => simp [hl]
  | some path => simp [hl]

/-- A line behind the request line. -/
theorem Request.ofLines_field {ls : List Bytes} (h : ¬∀ l ∈ ls, requestPath l = none) (l : Bytes) :
    ∃ path fields, path.isSome ∧ Request.ofLines ls = .ofFields path fields ∧
      Request.ofLines (ls ++ [l]) = .ofFields path (fields ++ (headerField (cstr l)).toList) := by
  have hdrop : (ls.dropWhile fun l => (requestPath l).isNone) ≠ [] := by
    intro hnil
    rw [List.dropWhile_eq_nil_iff] at hnil
    refine h ?_
    intro l hl
    simpa using hnil l hl
  obtain ⟨first, rest, hrest⟩ := List.exists_cons_of_ne_nil hdrop
  have hfirst : (requestPath first).isNone = false := by
    have hhead := List.head_dropWhile_not (fun l => (requestPath l).isNone) hdrop
    simpa [hrest] using hhead
  refine ⟨requestPath first, rest.filterMap fun l => headerField (cstr l), ?_, ?_, ?_⟩
  · simpa using hfirst
  · unfold Request.ofLines
    rw [hrest]
    rfl
  · have hone : [l].filterMap (fun l => headerField (cstr l)) = (headerField (cstr l)).toList := by
      rw [List.filterMap_cons, List.filterMap_nil]
      cases headerField (cstr l) <;> rfl
    unfold Request.ofLines
    rw [List.dropWhile_append, hrest, ← hone, ← List.filterMap_append]
    rfl

/-- **A line** that does not end the HTTP phase. -/
theorem Knows.quiet {ls : List Bytes} (h : Knows ls ws) (l : Bytes) :
    Knows (ls ++ [l]) (lineQuiet ws l) := by
  unfold lineQuiet
  by_cases hn : ws.state = .wsNew
  · have hnone := h.phase.mp hn
    have hknown := h.request
    rw [Request.ofLines_none hnone] at hknown
    rw [if_pos hn]
    cases hpath : requestPath l with
    | none =>
        refine ⟨?_, ?_, h.want⟩
        · rw [Request.ofLines_path hnone, hpath]
          exact hknown
        · refine ⟨fun _ => ?_, fun _ => hn⟩
          intro m hm
          rcases List.mem_append.mp hm with hm | hm
          · exact hnone m hm
          · rw [List.mem_singleton.mp hm]
            exact hpath
    | some path =>
        refine ⟨?_, ?_, h.want⟩
        · rw [Request.ofLines_path hnone, hpath]
          exact congrArg (fun q : Request => { q with path := some path }) hknown
        · refine ⟨fun hs => (by cases hs), ?_⟩
          intro hall
          have hl := hall l (by simp)
          rw [hpath] at hl
          cases hl
  · have hsome : ¬∀ l ∈ ls, requestPath l = none := fun hall => hn (h.phase.mpr hall)
    have hsome' : ¬∀ m ∈ ls ++ [l], requestPath m = none := by
      intro hall
      refine hsome ?_
      intro m hm
      exact hall m (List.mem_append_left _ hm)
    obtain ⟨path, fields, -, hls, hnext⟩ := Request.ofLines_field hsome l
    have hknown := h.request
    rw [hls] at hknown
    rw [if_neg hn]
    unfold headerField at hnext
    cases hf : strchr 58 (cstr l) with
    | none =>
        rw [hf] at hnext
        refine ⟨?_, iff_of_false hn hsome', h.want⟩
        rw [hnext]
        simpa using hknown
    | some p =>
        rw [hf] at hnext
        have hstate : (wsHeader p.1 (ltrim p.2) ws).state = ws.state := by
          obtain ⟨hs, ver, key, up, ps, he⟩ := wsHeader_eq p.1 (ltrim p.2) ws
          rw [he]
        refine ⟨?_, iff_of_false ?_ hsome', wsHeader_want_lt _ _ h.want⟩
        · rw [hnext]
          exact wsHeader_request (f := (p.1, ltrim p.2)) hknown
        · rw [hstate]
          exact hn

/-- What is known when the connection is upgraded is a request for a websocket. -/
theorem Knows.complete {ls : List Bytes} (h : Knows ls ws) (hn : ws.state ≠ .wsNew)
    (hr : ws.ready = true) : ws.request.ForWebsocket := by
  have hsome : ¬∀ l ∈ ls, requestPath l = none := fun hall => hn (h.phase.mpr hall)
  obtain ⟨path, fields, hpath, hls, -⟩ := Request.ofLines_field hsome []
  unfold Websocket.ready at hr
  rw [Bool.and_eq_true, Bool.and_eq_true, beq_iff_eq, beq_iff_eq, want_three _ h.want] at hr
  refine ⟨?_, hr.1.1, hr.1.2, hr.2.1, hr.2.2⟩
  rw [h.request, hls]
  exact hpath

end

/-! ## The upgrade -/

section

variable {env : Env φ} {s : Conn φ} {l : Bytes} {before ls : List Bytes} {y : Nat}

theorem upgradeResponse_response (env : Env φ) (ws : Websocket φ) :
    (upgradeResponse env ws).flatten = ws.response env := by
  unfold upgradeResponse Websocket.response response101
  dsimp only [Websocket.request]
  by_cases h : ws.peer.protocol < ws.protocol.length
  · simp [h]
  · simp [h]

/-- A line that leaves the connection open is the blank line of a complete request. -/
theorem wsTakeLine_opens (hn : s.ws.state ≠ .wsNew) (he : lineEnds s.ws l = true)
    (ho : (wsTakeLine env l s).ws.state = .wsOpen) :
    cstr l = [] ∧ s.ws.ready = true ∧ wsTakeLine env l s =
      (wsUpgradeHttp env ⟨s.ws, s.world.record (.line s.ws.conn s.ws.state l)⟩).2 := by
  unfold wsTakeLine at ho ⊢
  unfold lineEnds at he
  dsimp only at ho ⊢
  rw [if_neg hn] at ho he ⊢
  unfold wsHandleLine at ho ⊢
  cases hl : cstr l with
  | nil =>
      refine ⟨rfl, ?_, rfl⟩
      rw [hl] at ho
      by_contra hr
      have hr : s.ws.ready = false := by simpa using hr
      rw [hl, hr] at he
      have hv : s.ws.websocketVersion ≠ 13 := by simpa using he
      dsimp only at ho
      rw [wsUpgradeHttp_version (s := ⟨s.ws, s.world.record (.line s.ws.conn s.ws.state l)⟩) env hr
        hv] at ho
      cases ho
  | cons c cs =>
      exfalso
      rw [hl] at ho he
      dsimp only at ho he
      split at ho
      · cases ho
      · next hc =>
        rw [Bool.or_eq_true] at he
        have hnone := he.resolve_left hc
        rw [Option.isNone_iff_eq_none] at hnone
        rw [hnone] at ho
        cases ho

theorem networkSendAll_written {fd : Option Nat} {ds : List Bytes} {w : World}
    (h : w.sockAt fd = some y) (hok : (networkSendAll env fd ds w).1 = false) :
    written y (networkSendAll env fd ds w).2.log = written y w.log ++ ds.flatten := by
  have hsent := networkSendAll_sent env ds h
  rw [hok] at hsent
  generalize (networkSendAll env fd ds w).2 = w' at hsent
  cases hsent with
  | whole ds' hs hd => rw [World.wrote_log, written_append, written_wrote, hd]

/-- **An upgrade** that leaves the connection open. -/
theorem wsUpgradeHttp_opens (hs : Sound env s) (hy : s.world.sockAt s.ws.wsFd = some y)
    (hr : s.ws.ready = true) (ho : (wsUpgradeHttp env s).2.ws.state = .wsOpen) :
    (wsUpgradeHttp env s).2.ws.request = s.ws.request ∧
    (∃ n k address, clientResolve (env.query n s.ws.requestPath s.ws.protocol s.ws.header) =
      ((wsUpgradeHttp env s).2.ws.peer, some address) ∧ env.connect k address = true) ∧
    (wsUpgradeHttp env s).2.ws.response env <:+: written y (wsUpgradeHttp env s).2.world.log := by
  rw [wsUpgradeHttp_ready env hr] at ho ⊢
  dsimp only at ho ⊢
  split at ho
  · cases ho
  next hconnect =>
  rw [if_neg hconnect]
  obtain ⟨hany, hfound⟩ := clientConnect_found (by simpa using hconnect)
  rw [hfound] at ho ⊢
  dsimp only at ho ⊢
  split at ho
  · cases ho
  next hsends =>
  rw [if_neg hsends]
  have hclient : s.peerWorld.sockAt s.ws.wsFd = some y := by
    rw [peerWorld_client hs]
    exact hy
  refine ⟨rfl, ?_, ?_⟩
  · obtain ⟨address, ha, hup⟩ := (Option.any_eq_true _ _).mp hany
    exact ⟨_, _, address, Prod.ext rfl ha, hup⟩
  · have hwritten := networkSendAll_written hclient (Bool.eq_false_iff.mpr hsends)
    rw [upgradeResponse_response] at hwritten
    refine List.IsSuffix.isInfix ⟨written y s.peerWorld.log, ?_⟩
    exact hwritten.symm

/-- **Lines** of which only the last ends the HTTP phase. -/
theorem wsTakeLines_knows (hs : Sound env s) (hin : InHttp s.ws)
    (hy : s.world.sockAt s.ws.wsFd = some y) (h : EndsLast s.ws ls) (hk : Knows before s.ws) :
    (InHttp (wsTakeLines env ls s).ws → Knows (before ++ ls) (wsTakeLines env ls s).ws) ∧
    ((wsTakeLines env ls s).ws.state = .wsOpen →
      OpenedAs env (before ++ ls) (wsTakeLines env ls s).ws ∧
      (wsTakeLines env ls s).ws.response env <:+: written y (wsTakeLines env ls s).world.log) := by
  induction ls generalizing s before with
  | nil =>
      rw [List.append_nil]
      exact ⟨fun _ => hk, fun ho => absurd ho hin.states.1⟩
  | cons l ls ih =>
      unfold EndsLast at h
      cases he : lineEnds s.ws l with
      | true =>
          rw [if_pos he] at h
          rw [h.1, show wsTakeLines env [l] s = wsTakeLine env l s from rfl]
          have hn : s.ws.state ≠ .wsNew := by
            intro hn
            simp [lineEnds, hn] at he
          constructor
          · intro hin'
            rcases (wsTakeLine_ends env he).buffer.2 with ⟨hend, -⟩ | ⟨hend, -⟩
            · exact absurd hend hin'.states.2
            · exact absurd hend hin'.states.1
          · intro ho
            obtain ⟨hblank, hready, hline⟩ := wsTakeLine_opens hn he ho
            rw [hline] at ho ⊢
            obtain ⟨hrequest, hpeer, htold⟩ := wsUpgradeHttp_opens (y := y)
              (s := ⟨s.ws, s.world.record (.line s.ws.conn s.ws.state l)⟩)
              ⟨hs.state, hs.numbered, hs.held⟩ hy hready ho
            refine ⟨⟨?_, ?_, ?_, ?_⟩, htold⟩
            · rw [List.getLast?_concat, Option.map_some, hblank]
            · rw [List.dropLast_concat, hrequest]
              exact hk.request
            · rw [hrequest]
              exact hk.complete hn hready
            · rw [hrequest]
              exact hpeer
      | false =>
          rw [if_neg (by simp [he])] at h
          have hquiet := wsTakeLine_quiet env he
          have hfold : wsTakeLines env (l :: ls) s = wsTakeLines env ls
              ⟨lineQuiet s.ws l, s.world.record (.line s.ws.conn s.ws.state l)⟩ := by
            rw [← hquiet]
            rfl
          have hacts : Acts env Scope.all s
              ⟨lineQuiet s.ws l, s.world.record (.line s.ws.conn s.ws.state l)⟩ := by
            rw [← hquiet]
            exact wsTakeLine_acts l trivial fun _ _ => trivial
          have hin' : InHttp (lineQuiet s.ws l) := by
            unfold InHttp at hin ⊢
            rcases lineQuiet_state s.ws l with e | ⟨-, e⟩
            · rw [e]
              exact hin
            · exact .inr e
          have hy' : (s.world.record (.line s.ws.conn s.ws.state l)).sockAt
              (lineQuiet s.ws l).wsFd = some y := by
            rw [(lineQuiet_conn s.ws l).2]
            exact hy
          rw [hfold, List.append_cons]
          exact ih (hacts.sound hs) hin' hy' h (hk.quiet l)

end

/-! ## What does not touch the request -/

/-- The events by which the request of a connection is seen. -/
def Event.Asks (conn : Nat) : Event → Prop
  | .accepted c _ | .line c _ _ => c = conn
  | _ => False

/-- The connection is closed, or as it was where the request is concerned. -/
structure Unasked (s t : Conn φ) : Prop where
  conn : t.ws.conn = s.ws.conn
  grows : Grows (fun e => ¬e.Asks s.ws.conn) s.world t.world
  kept : t.ws.state = .wsClosed ∨ t.ws.state = s.ws.state ∧ t.ws.request = s.ws.request ∧
    t.ws.wantUpgrade = s.ws.wantUpgrade ∧ t.ws.peer = s.ws.peer

/-- What the lines of a connection have left in it. -/
structure Requested (env : Env φ) (ws : Websocket φ) (w : World) : Prop where
  http : InHttp ws → Knows (handledLines ws.conn w.log) ws
  opened : ws.state = .wsOpen → OpenedAs env (handledLines ws.conn w.log) ws ∧
    ∀ y, .accepted ws.conn y ∈ w.log → ws.response env <:+: written y w.log

/-- Nothing but frames. -/
def Scope.noLines : Scope :=
  { Scope.all with line := fun _ => False, upgrade := fun _ => False }

section

variable {env : Env φ} {s t u : Conn φ} {ws : Websocket φ} {w : World} {y : Nat} {data : Bytes}

theorem Knows.of_bare {ws' : Websocket φ} {ls : List Bytes} (h : Knows ls ws)
    (hb : ws.bare = ws'.bare) : Knows ls ws' := by
  obtain ⟨rb, ro, le, rfl⟩ := bare_eq hb
  exact ⟨h.request, h.phase, h.want⟩

theorem OpenedAs.of_bare {ws' : Websocket φ} {ls : List Bytes} (h : OpenedAs env ls ws)
    (hb : ws.bare = ws'.bare) : OpenedAs env ls ws' := by
  obtain ⟨rb, ro, le, rfl⟩ := bare_eq hb
  exact ⟨h.blank, h.request, h.complete, h.peer⟩

theorem Requested.of_closed (h : ws.state = .wsClosed) : Requested env ws w := by
  constructor
  · intro hin
    exact absurd h hin.states.2
  · intro ho
    rw [h] at ho
    cases ho

theorem Requested.unasked (h : Requested env s.ws s.world) (hu : Unasked s t) :
    Requested env t.ws t.world := by
  rcases hu.kept with hclosed | ⟨hstate, hrequest, hwant, hpeer⟩
  · exact .of_closed hclosed
  have hlines : handledLines t.ws.conn t.world.log = handledLines s.ws.conn s.world.log := by
    rw [hu.conn]
    exact hu.grows.handledLines fun st d hn => hn rfl
  have hresponse : t.ws.response env = s.ws.response env := by
    unfold Websocket.response
    rw [hrequest, hpeer]
  constructor
  · intro hin
    unfold InHttp at hin
    rw [hstate] at hin
    have hk := h.http hin
    rw [hlines]
    refine ⟨?_, ?_, ?_⟩
    · rw [hrequest]
      exact hk.request
    · rw [hstate]
      exact hk.phase
    · rw [hwant]
      exact hk.want
  · intro ho
    rw [hstate] at ho
    obtain ⟨hopened, htold⟩ := h.opened ho
    rw [hlines, hresponse]
    refine ⟨⟨hopened.blank, ?_, ?_, ?_⟩, ?_⟩
    · rw [hrequest]
      exact hopened.request
    · rw [hrequest]
      exact hopened.complete
    · rw [hrequest, hpeer]
      exact hopened.peer
    · intro y hy
      rw [hu.conn] at hy
      have hy := (hu.grows.mem_iff (e := .accepted s.ws.conn y) fun hn => hn rfl).mp hy
      obtain ⟨es, he, -⟩ := hu.grows
      rw [he, written_append]
      exact (htold y hy).trans (List.prefix_append _ _).isInfix

theorem Unasked.of_ws (hw : Grows (fun e => ¬e.Asks s.ws.conn) s.world w) :
    Unasked s ⟨s.ws, w⟩ := ⟨rfl, hw, .inr ⟨rfl, rfl, rfl, rfl⟩⟩

theorem Unasked.trans (h : Unasked s t) (h' : Unasked t u) : Unasked s u := by
  have hgrows := h'.grows
  rw [h.conn] at hgrows
  refine ⟨h'.conn.trans h.conn, h.grows.trans hgrows, ?_⟩
  rcases h'.kept with hclosed | ⟨hstate, hrequest, hwant, hpeer⟩
  · exact .inl hclosed
  rcases h.kept with hclosed | ⟨hstate', hrequest', hwant', hpeer'⟩
  · exact .inl (hstate.trans hclosed)
  · exact .inr ⟨hstate.trans hstate', hrequest.trans hrequest', hwant.trans hwant',
      hpeer.trans hpeer'⟩

theorem wsClose_unasked (env : Env φ) (code : WsCloseReason) (reason : Option Bytes)
    (s : Conn φ) : Unasked s (wsClose env code reason s) :=
  ⟨rfl, .close code reason id (fun _ => id) fun _ _ => ⟨id, fun _ => id⟩, .inl rfl⟩

theorem OnlySends.unasked {fd : Option Nat} (h : OnlySends fd s.world w) : Unasked s ⟨s.ws, w⟩ :=
  .of_ws (.sends h fun _ _ => ⟨id, fun _ => id⟩)

/-- An act without lines, behind the request line. -/
theorem Act.unasked (h : Act env Scope.noLines s t) (hn : s.ws.state ≠ .wsNew) : Unasked s t := by
  cases h with
  | bare ws h hr =>
      refine ⟨bare_congr Websocket.conn h fun _ => rfl, .refl _ _, .inr ⟨?_, ?_, ?_, ?_⟩⟩
      · exact bare_congr Websocket.state h fun _ => rfl
      · exact bare_congr Websocket.request h fun _ => rfl
      · exact bare_congr Websocket.wantUpgrade h fun _ => rfl
      · exact bare_congr Websocket.peer h fun _ => rfl
  | peerBuffer b k fd h => exact ⟨rfl, .refl _ _, .inr ⟨rfl, rfl, rfl, rfl⟩⟩
  | note e h =>
      refine .of_ws (.record ?_ _)
      cases e with
      | framing c d k => exact id
      | segment c op d => exact id
      | _ => cases h
  | line data h => cases h
  | path p h => exact absurd h hn
  | header tag value h => cases h
  | upgrade h => cases h
  | close code reason h => exact wsClose_unasked env code reason s
  | forward data h => exact (networkSend_onlySends env s.ws.peerFd data s.world).unasked
  | frame op data h ho => exact (wsSendFrame_onlySends env s.ws op data s.world).unasked

theorem Acts.unasked (h : Acts env Scope.noLines s t) (hn : s.ws.state ≠ .wsNew) :
    Unasked s t := by
  have hboth : Unasked s t ∧ t.ws.state ≠ .wsNew := by
    refine h.invariant (P := fun t => Unasked s t ∧ t.ws.state ≠ .wsNew) ?_
      ⟨.of_ws (.refl _ _), hn⟩
    rintro u v hact ⟨hu, hnew⟩
    have hv := hact.unasked hnew
    refine ⟨hu.trans hv, ?_⟩
    rcases hv.kept with hstate | ⟨hstate, -⟩
    · rw [hstate]
      simp
    · rw [hstate]
      exact hnew
  exact hboth.1

theorem wsKeepAlive_unasked (env : Env φ) (now : Int) (s : Conn φ) :
    Unasked s (wsKeepAlive env now s) := by
  have hping : Unasked s ⟨s.ws, (wsSendFrame env s.ws .ping (ascii "PING") s.world).2⟩ :=
    (wsSendFrame_onlySends env s.ws .ping (ascii "PING") s.world).unasked
  unfold wsKeepAlive
  split
  · dsimp only
    split
    · exact hping.trans (wsClose_unasked env _ _ _)
    · exact hping
  · exact .of_ws (.refl _ _)

/-- What a handler reads does not touch the request. -/
theorem Recvd.unasked {fd : Option Nat} {len : Nat} {answer d : Option Bytes}
    (h : Recvd fd len answer s.world d w) : Unasked s ⟨s.ws, w⟩ := by
  cases h with
  | closed hnone => exact .of_ws (.refl _ _)
  | failed x hx ha => exact .of_ws (.record id _)
  | data x b hx ha => exact .of_ws (.record id _)

/-! ## Calls of `ws_data` -/

/-- A read in the HTTP phase: the line loop comes to what the lines come to. -/
theorem Requested.lines {r : Nat × Conn φ} (h : Requested env s.ws s.world) (hs : Sound env s)
    (hin : InHttp s.ws) (hclient : s.world.sockAt s.ws.wsFd = some y)
    (hone : ∀ z, .accepted s.ws.conn z ∈ s.world.log → z = y)
    (hends : EndsLast s.ws (recvLines s.ws data))
    (hr : wsScan env data.length 0 data.length
      ⟨s.ws.filled data, s.world.record (.received y data)⟩ = r) :
    Requested env { r.2.ws with readBufferOffset := r.1 } r.2.world := by
  have hy : ∀ z, s.world.sockAt s.ws.wsFd = some z → z = y := by
    intro z hz
    rw [hclient] at hz
    exact (Option.some.inj hz).symm
  obtain ⟨hscan, htaken⟩ := scanned_taken hs hin hy hends r.1 hr
  have hbare : s.ws.bare = (s.ws.filled data).bare := rfl
  obtain ⟨hhttp, hopened⟩ := wsTakeLines_knows (y := y)
    (s := ⟨s.ws.filled data, s.world.record (.received y data)⟩)
    ⟨hs.state.of_bare hbare, hs.numbered, hs.held⟩ hin hclient
    ((EndsLast_bare hbare _).mp hends) ((h.http hin).of_bare hbare)
  have halike := hscan.taken
  rw [show recvLines (Conn.ws ⟨s.ws.filled data, s.world.record (.received y data)⟩) data =
    recvLines s.ws data from recvLines_filled s.ws data] at halike
  have hworld := halike.world
  rw [view_all, view_all] at hworld
  rw [← hworld] at hopened
  have hws := halike.ws
  generalize (wsTakeLines env (recvLines s.ws data)
    ⟨s.ws.filled data, s.world.record (.received y data)⟩).ws = v at hws hhttp hopened
  have hv : v.bare = ({ r.2.ws with readBufferOffset := r.1 } : Websocket φ).bare := hws.symm
  have hstate := bare_congr Websocket.state hv fun _ => rfl
  have hresponse := bare_congr (Websocket.response env) hv fun _ => rfl
  have hconn : r.2.ws.conn = s.ws.conn := htaken.conn
  have hlines : handledLines r.2.ws.conn r.2.world.log =
      handledLines s.ws.conn s.world.log ++ recvLines s.ws data := by
    rw [hconn, htaken.handled, World.record_log, handledLines_append]
    simp [handledLines]
  constructor
  · intro hin'
    unfold InHttp at hin'
    rw [← hstate] at hin'
    rw [hlines]
    exact (hhttp hin').of_bare hv
  · intro ho
    rw [← hstate] at ho
    obtain ⟨hfine, htold⟩ := hopened ho
    rw [hlines, ← hresponse]
    refine ⟨hfine.of_bare hv, ?_⟩
    intro z hz
    rw [hconn] at hz
    have hz : z = y := by
      rcases htaken.grows.mem_or hz with hz | hz | ⟨c, st, d, hz⟩
      · exact hone z (by simpa using hz)
      · cases hz
      · cases hz
    rw [hz]
    exact htold

/-- A read in the open phase. -/
theorem Requested.frames {fuel : Nat} (h : Requested env s.ws s.world)
    (hopen : s.ws.state = .wsOpen) (hu : wsFrames env fuel ⟨{ s.ws.filled data with
      readBufferOffset := s.ws.readBufferOffset + data.length },
      s.world.record (.received y data)⟩ = some u) : Requested env u.ws u.world := by
  have hfilled : Unasked s ⟨{ s.ws.filled data with
      readBufferOffset := s.ws.readBufferOffset + data.length },
      s.world.record (.received y data)⟩ :=
    ⟨rfl, .record id _, .inr ⟨rfl, rfl, rfl, rfl⟩⟩
  have hn : (s.ws.filled data).state ≠ .wsNew := by
    rw [show (s.ws.filled data).state = _ from hopen]
    simp
  have hacts := wsFrames_acts (A := Scope.noLines) (s := ⟨{ s.ws.filled data with
    readBufferOffset := s.ws.readBufferOffset + data.length },
    s.world.record (.received y data)⟩) trivial fuel hopen hu
  exact h.unasked (hfilled.trans (hacts.unasked hn))

/-- **A read** leaves what its lines ask for. -/
theorem Requested.read {answer : Option Bytes} (h : Requested env s.ws s.world) (hs : Sound env s)
    (hclient : s.world.sockAt s.ws.wsFd = some y)
    (hone : ∀ z, .accepted s.ws.conn z ∈ s.world.log → z = y)
    (hok : ∀ b, answer = some b → InHttp s.ws →
      EndsLast s.ws (recvLines s.ws (b.take (wsMaxLine - s.ws.readBufferOffset - 1))))
    (ht : wsData env answer s = some t) : Requested env t.ws t.world := by
  cases wsData_cases ht with
  | nothing r w hrecv hnil => exact .of_closed rfl
  | data z b data u hz ha hb hne hu =>
      obtain rfl : z = y := by
        rw [hclient] at hz
        exact (Option.some.inj hz).symm
      have hlines (hin : InHttp s.ws) := h.lines hs hin hclient hone (hb ▸ hok b ha hin) rfl
      have hread : Requested env u.ws u.world := by
        unfold wsDataSwitch at hu
        cases hstate : s.ws.state with
        | wsNew =>
            rw [show (s.ws.filled data).state = _ from hstate] at hu
            cases hu
            exact hlines (.inl hstate)
        | wsHttp =>
            rw [show (s.ws.filled data).state = _ from hstate] at hu
            cases hu
            exact hlines (.inr hstate)
        | wsOpen =>
            rw [show (s.ws.filled data).state = _ from hstate] at hu
            exact h.frames hstate hu
        | wsClosed =>
            rw [(hs.state.closed hstate).1] at hclient
            cases hclient
      split
      · exact .of_closed rfl
      · exact hread

end

/-! ## Runs -/

section

variable {env : Env φ} {w : World}

theorem Event.Asks.of {conn : Nat} {given : Nat → Prop} {e : Event} (h : e.Asks conn) :
    e.Of conn given := by
  cases e with
  | accepted c x => exact h
  | line c st d => exact h
  | _ => cases h

/-- A new connection knows nothing yet. -/
theorem Requested.start (now : Int) (accepts : Bool)
    (hknown : ∀ e ∈ w.log, e.Known w.conns w.socks) :
    Requested env (acceptedConn now accepts w) (w.accept accepts) := by
  have hlines : handledLines w.conns (w.accept accepts).log = [] := by
    have hlog : (w.accept accepts).log =
        w.log ++ if accepts then [.accepted w.conns w.socks] else [] := by
      cases accepts with
      | true => rfl
      | false => exact (List.append_nil _).symm
    rw [hlog, handledLines_append, fresh_handledLines hknown]
    cases accepts <;> rfl
  constructor
  · intro hin
    rw [show (acceptedConn now accepts w : Websocket φ).conn = w.conns from rfl, hlines]
    refine ⟨?_, ?_, ?_⟩
    · simp [Websocket.request, acceptedConn, Request.ofLines, Request.ofFields, valuesOf]
    · exact ⟨fun _ l hl => (by cases hl), fun _ => rfl⟩
    · show 0 < 4
      decide
  · intro ho
    cases ho

/-- The requests of all connections. -/
theorem requestRule (env : Env φ) :
    ConnRule env LinesInOrder (Requested env) fun _ _ => True where
  init conn w hlog := trivial
  accept w now accepts hknown := .start now accepts hknown
  aside ws w w' h ha hsock := by
    refine h.unasked (s := ⟨ws, w⟩) (t := ⟨ws, w'⟩) (.of_ws ?_)
    exact Grows.mono (fun e hn hasks => hn hasks.of) ha
  ended ws w h _ := trivial
  gone conn w w' h ha := trivial
  close sock ws w hs hi hm h := .of_closed rfl
  serve c i n ws t ho hreg hi hn hserved h := by
    have hm := List.mem_of_getElem? hn
    have hslot := hreg.slots ws hm
    have hsound : Sound env ⟨ws, c.world⟩ := by
      obtain ⟨l₁, l₂, hs, -⟩ := put_split hn t .select
      rw [hs] at hreg hi
      exact hreg.sound hi.toHeldInv
    cases hserved with
    | data answer fuel fd t hinput hloc hfd hr ht =>
        have hheld : fd ∈ ws.held := by simp [Websocket.held, hfd]
        obtain ⟨y, hy⟩ := hi.toHeldInv.is_open hm hheld
        rw [← hfd] at hy
        have hacc := hi.client ws hm y hy
        have hbare : ws.bare = ({ ws with lastEvent := c.now } : Websocket φ).bare := rfl
        have hnow : Requested env { ws with lastEvent := c.now } c.world := by
          refine h.unasked (s := ⟨ws, c.world⟩) (t := ⟨{ ws with lastEvent := c.now }, c.world⟩) ?_
          exact ⟨rfl, .refl _ _, .inr ⟨rfl, rfl, rfl, rfl⟩⟩
        refine Requested.read (s := ⟨{ ws with lastEvent := c.now }, c.world⟩) hnow
          ⟨{ hsound.state with }, hsound.numbered, hsound.held⟩ hy ?_ ?_ ht
        · intro z hz
          exact hi.one ws.conn z y hz hacc
        · intro b hb hin
          have hcall : (ws, b.take (wsMaxLine - ws.readBufferOffset - 1)) ∈ c.dataCall i := by
            subst hinput
            unfold Core.dataCall
            simp [hloc, hn, hfd, hr, hb]
          exact (EndsLast_bare hbare _).mp (ho _ hcall hin)
    | peer answer fuel fd r hinput hloc hfd hr ht =>
        have hopen := hslot.open_of_peer hfd
        obtain ⟨d, w, hrecv, hacts⟩ := wsPeerData_acts (A := Scope.noLines) (s := ⟨ws, c.world⟩)
          hopen trivial (fun _ _ _ _ _ _ _ _ _ _ _ => trivial) hslot.peerBuffer ht
        have hn : ws.state ≠ .wsNew := by
          rw [hopen]
          simp
        exact h.unasked (s := ⟨ws, c.world⟩) (hrecv.unasked.trans (hacts.unasked hn))
    | ping answer fuel hinput hloc =>
        exact h.unasked (s := ⟨ws, c.world⟩) (wsKeepAlive_unasked env c.now ⟨ws, c.world⟩)

/-- **As asked for**: in every run in which no line follows one that ends the HTTP phase in the same
read, a connection in the HTTP phase knows the request of the lines that it handled.  An open one
was opened by a blank line behind a complete request, its peer is what the backend answered to this
request, and its client was written the 101 response in one piece. -/
theorem open_as_requested (env : Env φ) (c : Core φ) (h : (coreLoop env).Reach LinesInOrder c)
    (ws : Websocket φ) (hm : ws ∈ c.sock) :
    (InHttp ws → ws.request = .ofLines (handledLines ws.conn c.world.log)) ∧
    (ws.state = .wsOpen → OpenedAs env (handledLines ws.conn c.world.log) ws ∧
      ∀ y, .accepted ws.conn y ∈ c.world.log →
        ws.response env <:+: written y c.world.log) := by
  have hrequested := ((requestRule env).reach h).slots ws hm
  exact ⟨fun hin => (hrequested.http hin).request, hrequested.opened⟩

end

theorem sampleOpened_inOrder : (coreLoop sampleEnv).Meets LinesInOrder sampleOpened sampleCore := by
  decide +kernel

theorem sampleOpened_opens : ((coreLoop sampleEnv).exec sampleOpened sampleCore).isSome := by
  decide +kernel

theorem sampleOpened_slot :
    let c := ((coreLoop sampleEnv).exec sampleOpened sampleCore).get sampleOpened_opens
    c.sock[0]?.isSome := by
  decide +kernel

/-- The client that sent a request for `/a` has an open connection. -/
theorem open_as_requested_sample :
    let c := ((coreLoop sampleEnv).exec sampleOpened sampleCore).get sampleOpened_opens
    let ws := c.sock[0]?.get sampleOpened_slot
    ws.state = .wsOpen ∧ ws.request.path = some (ascii "/a") ∧
      (InHttp ws → ws.request = .ofLines (handledLines ws.conn c.world.log)) ∧
      (ws.state = .wsOpen → OpenedAs sampleEnv (handledLines ws.conn c.world.log) ws ∧
        ∀ y, .accepted ws.conn y ∈ c.world.log →
          ws.response sampleEnv <:+: written y c.world.log) :=
  ⟨by decide +kernel, by decide +kernel, open_as_requested sampleEnv _
    (.exec (.init sampleCore_init) sampleOpened sampleOpened_inOrder
      (Option.some_get sampleOpened_opens).symm) _
    (List.mem_of_getElem? (Option.some_get sampleOpened_slot).symm)⟩

end Websocksy

import Websocksy.HeaderFields
import Websocksy.DefaultPeer
import Mathlib.Data.List.DropRight

/-!
# Subprotocols

The client requests subprotocols in any number of `Sec-WebSocket-Protocol` fields, and the default
backend acknowledges one of them in the response.  `strtok` passes over empty tokens, but a token
of blanks is trimmed and added as an empty protocol.
-/

namespace Websocksy

open Buffer CString

variable {φ : Type}

/-! ## What is requested and acknowledged -/

def trim (s : Bytes) : Bytes := rtrim (ltrim s)

def HeaderField.IsProtocol (f : HeaderField) : Prop := f.name.val = ascii "Sec-WebSocket-Protocol"

instance : DecidablePred HeaderField.IsProtocol := fun _ => inferInstanceAs (Decidable (_ = _))

/-- The protocols in the text of a field. -/
def requestedIn (text : Bytes) : List Bytes :=
  ((text.splitOn 44).map trim).filter fun t => !t.isEmpty

/-- The protocols that the fields request, each where it is first named. -/
def requestedProtocols (fields : List HeaderField) : List Bytes :=
  ((fields.filter fun f => decide f.IsProtocol).flatMap fun f => requestedIn f.text).eraseDups

/-- The protocol that the default backend acknowledges. -/
def acknowledged (configured : Option Bytes) (protocols : List Bytes) : Option Bytes :=
  configured.bind fun name =>
    if name = ascii "*" then protocols.head? else protocols.find? (strcasecmp · name)

/-- The 101 response, with the protocol that is acknowledged. -/
def response101 (env : Env φ) (socketKey : Bytes) (protocol : Option Bytes) : List Bytes :=
  [ascii "HTTP/1.1 101 Upgrading\r\n", ascii "Upgrade: websocket\r\n",
    ascii "Connection: Upgrade\r\n", ascii "Sec-WebSocket-Accept: ",
    acceptKey env socketKey ++ ascii "\r\n"] ++
  (protocol.elim [] fun p => [ascii "Sec-WebSocket-Protocol: ", p, ascii "\r\n"]) ++ [ascii "\r\n"]

/-- `ws_upgrade_http` on a complete handshake, where the 101 response is `response`. -/
def upgradeWith (env : Env φ) (response : List Bytes) (s : Conn φ) : Bool × Conn φ :=
  let c := clientConnect env s
  if c.1 then (false, wsClose env .http (some (ascii "500 Peer connection failed")) c.2)
  else
    let r := networkSendAll env c.2.ws.wsFd response c.2.world
    if r.1 then (false, wsClose env .http none ⟨c.2.ws, r.2⟩)
    else (false, ⟨{ c.2.ws with state := .wsOpen }, r.2⟩)

/-- The default backend is the one that is asked for the peer. -/
def Env.AsksDefault (env : Env φ) (d : DefaultPeer φ) : Prop :=
  ∀ n path protocol header, env.query n path protocol header = d.query protocol

/-- After the fields a connection behind its request line has the protocols they request, and a complete handshake is
answered with the one that the default backend is to acknowledge. -/
def Negotiates (d : DefaultPeer φ) (fields : List HeaderField) : Prop :=
  ∀ (env : Env φ) (s : Conn φ), env.AsksDefault d → s.ws.state = .wsHttp → s.ws.protocol = [] →
    let t := handleFields env fields s
    t.ws.protocol = requestedProtocols fields ∧
      (t.ws.ready = true → wsUpgradeHttp env t = upgradeWith env (response101 env
        (t.ws.socketKey.getD []) (acknowledged d.defaultPeerProto (requestedProtocols fields))) t)

/-- No token of the field consists of blanks. -/
def HeaderField.NoBlankToken (f : HeaderField) : Prop :=
  ∀ t ∈ strtok 44 (ltrim f.text), trim t ≠ []

section

/-! ## Tokens -/

theorem ltrim_idem (s : Bytes) : ltrim (ltrim s) = ltrim s := List.dropWhile_idempotent isspace s

theorem ltrim_cons {c : UInt8} (hc : isspace c = true) (s : Bytes) : ltrim (c :: s) = ltrim s := by
  show (c :: s).dropWhile isspace = _
  rw [List.dropWhile_cons, if_pos hc]
  rfl

theorem ltrim_cons_of_not {c : UInt8} (hc : ¬isspace c = true) (s : Bytes) :
    ltrim (c :: s) = c :: s := by
  show (c :: s).dropWhile isspace = _
  rw [List.dropWhile_cons, if_neg hc]

/-- The blanks in front of a text are those in front of its first token. -/
theorem splitOn_ltrim (s : Bytes) : (ltrim s).splitOn 44 = (s.splitOn 44).modifyHead ltrim := by
  induction s with
  | nil => rfl
  | cons c s ih =>
      by_cases hc : isspace c = true
      · have h44 : ¬(c == (44 : UInt8)) = true := by
          intro h
          rw [eq_of_beq h] at hc
          exact absurd hc (by decide)
        rw [ltrim_cons hc, ih, List.splitOn, List.splitOn, List.splitOnP_cons_eq_if_modifyHead,
          if_neg h44]
        cases List.splitOnP (· == (44 : UInt8)) s with
        | nil => rfl
        | cons t ts =>
            show ltrim t :: ts = ltrim (c :: t) :: ts
            rw [ltrim_cons hc]
      · rw [ltrim_cons_of_not hc, List.splitOn, List.splitOnP_cons_eq_if_modifyHead]
        by_cases h44 : (c == (44 : UInt8)) = true
        · rw [if_pos h44]
          rfl
        · rw [if_neg h44]
          cases List.splitOnP (· == (44 : UInt8)) s with
          | nil => rfl
          | cons t ts =>
              show (c :: t) :: ts = ltrim (c :: t) :: ts
              rw [ltrim_cons_of_not hc]

theorem trim_ltrim (s : Bytes) : trim (ltrim s) = trim s := by
  unfold trim
  rw [ltrim_idem]

/-- Empty tokens come to nothing when they are trimmed. -/
theorem trimmed_tokens (ts : List Bytes) :
    (ts.map trim).filter (fun t => !t.isEmpty) =
      ((ts.filter fun t => !t.isEmpty).map trim).filter fun t => !t.isEmpty := by
  induction ts with
  | nil => rfl
  | cons t ts ih =>
      cases t with
      | nil => exact ih
      | cons c t =>
          show ((trim (c :: t)) :: ts.map trim).filter _ =
            (trim (c :: t) :: (ts.filter fun t => !t.isEmpty).map trim).filter _
          rw [List.filter_cons, List.filter_cons, ih]

/-- The tokens of a trimmed text are those of the text. -/
theorem requestedIn_eq (text : Bytes) :
    requestedIn text = ((strtok 44 (ltrim text)).map trim).filter fun t => !t.isEmpty := by
  unfold requestedIn strtok
  rw [← trimmed_tokens, splitOn_ltrim]
  cases text.splitOn 44 with
  | nil => rfl
  | cons t ts =>
      show ((trim t) :: ts.map trim).filter _ = (trim (ltrim t) :: ts.map trim).filter _
      rw [trim_ltrim]

theorem requestedIn_noBlank {f : HeaderField} (h : f.NoBlankToken) :
    requestedIn f.text = (strtok 44 (ltrim f.text)).map trim := by
  rw [requestedIn_eq, List.filter_eq_self]
  intro t ht
  obtain ⟨u, hu, rfl⟩ := List.mem_map.mp ht
  have hne := h u hu
  cases hc : trim u with
  | nil => exact absurd hc hne
  | cons c v => rfl

/-! ## The list of protocols -/

theorem addProtocol_eraseDups (known : List Bytes) (token : Bytes) :
    addProtocol known.eraseDups token = (known ++ [trim token]).eraseDups := by
  show (if trim token ∈ known.eraseDups then _ else known.eraseDups ++ [trim token]) = _
  rw [List.eraseDups_append]
  by_cases h : trim token ∈ known
  · rw [if_pos (List.mem_eraseDups.mpr h)]
    simp [List.removeAll, h]
  · rw [if_neg fun hm => h (List.mem_eraseDups.mp hm)]
    simp [List.removeAll, h, List.eraseDups_cons]

theorem foldl_addProtocol (tokens known : List Bytes) :
    tokens.foldl addProtocol known.eraseDups = (known ++ tokens.map trim).eraseDups := by
  induction tokens generalizing known with
  | nil => simp
  | cons token tokens ih =>
      rw [List.foldl_cons, addProtocol_eraseDups, ih, List.map_cons, List.append_assoc]
      rfl

/-- **The protocols** after a list of fields: all tokens, trimmed, where they first stand. -/
theorem protocol_fields (fields : List HeaderField) (known : List Bytes) (ws : Websocket φ)
    (h : ws.protocol = known.eraseDups) :
    (fields.foldl HeaderField.apply ws).protocol =
      (known ++ (fields.filter fun f => decide f.IsProtocol).flatMap fun f =>
        (strtok 44 (ltrim f.text)).map trim).eraseDups := by
  induction fields generalizing known ws with
  | nil =>
      show ws.protocol = (known ++ []).eraseDups
      rw [h, List.append_nil]
  | cons f fields ih =>
      have happly : (f.apply ws).protocol = _ := wsHeader_protocol f.name.val (ltrim f.text) ws
      rw [List.foldl_cons, List.filter_cons]
      by_cases hf : f.IsProtocol
      · rw [if_pos (show f.name.val = _ from hf), h, foldl_addProtocol] at happly
        rw [ih _ _ happly, if_pos (decide_eq_true hf), List.flatMap_cons, List.append_assoc]
      · rw [if_neg (show ¬f.name.val = _ from hf), h] at happly
        rw [ih _ _ happly, if_neg (by simpa using hf)]

/-! ## The response -/

theorem clientResolve_protocol (peer : WsPeerInfo φ) :
    (clientResolve peer).1.protocol = peer.protocol := by
  obtain ⟨transport, host, port, hp⟩ := clientResolve_fields peer
  rw [hp]

/-- The peer's protocol is the one of the answer to the query. -/
theorem clientConnect_protocol (env : Env φ) (s : Conn φ) :
    (clientConnect env s).2.ws.peer.protocol =
      (env.query s.world.queries s.ws.requestPath s.ws.protocol s.ws.header).protocol := by
  unfold clientConnect
  dsimp only
  split
  · exact clientResolve_protocol _
  · split <;> exact clientResolve_protocol _

theorem clientConnect_request (env : Env φ) (s : Conn φ) :
    (clientConnect env s).2.ws.protocol = s.ws.protocol ∧
      (clientConnect env s).2.ws.socketKey = s.ws.socketKey := by
  obtain ⟨c, hc⟩ : ∃ c, clientConnect env s = c := ⟨_, rfl⟩
  have hcases := clientConnect_cases env s
  rw [hc] at hcases ⊢
  cases hcases <;> exact ⟨rfl, rfl⟩

theorem query_protocol (d : DefaultPeer φ) (protocols : List Bytes) :
    (d.query protocols).protocol = d.defaultPeerProto.elim protocols.length fun name =>
      if name = ascii "*" then 0
      else (protocols.findIdx? (strcasecmp · name)).getD protocols.length := by
  unfold DefaultPeer.query
  cases d.defaultPeerProto <;> rfl

/-- The index of the default backend names the protocol it acknowledges. -/
theorem query_acknowledged (d : DefaultPeer φ) (protocols : List Bytes) :
    protocols[(d.query protocols).protocol]? = acknowledged d.defaultPeerProto protocols := by
  unfold acknowledged
  rw [query_protocol]
  cases d.defaultPeerProto with
  | none => exact List.getElem?_eq_none (Nat.le_refl _)
  | some name =>
      rw [Option.elim_some, Option.bind_some]
      by_cases hany : name = ascii "*"
      · rw [if_pos hany, if_pos hany]
        exact List.head?_eq_getElem?.symm
      · rw [if_neg hany, if_neg hany, List.find?_eq_bind_findIdx?_getElem?]
        cases protocols.findIdx? (strcasecmp · name) with
        | none => exact List.getElem?_eq_none (Nat.le_refl _)
        | some i => rfl

/-- The response on a connection that the default backend gave its peer. -/
theorem upgradeResponse_default {env : Env φ} {d : DefaultPeer φ} (hd : env.AsksDefault d)
    (s : Conn φ) : upgradeResponse env (clientConnect env s).2.ws =
      response101 env (s.ws.socketKey.getD []) (acknowledged d.defaultPeerProto s.ws.protocol) := by
  obtain ⟨hprot, hkey⟩ := clientConnect_request env s
  have hpeer := clientConnect_protocol env s
  rw [hd] at hpeer
  unfold upgradeResponse response101
  rw [hprot, hkey, hpeer, ← query_acknowledged]
  by_cases hlt : (d.query s.ws.protocol).protocol < s.ws.protocol.length
  · rw [if_pos hlt, List.getElem?_eq_getElem hlt, ← List.getElem_eq_getD []]
    rfl
  · rw [if_neg hlt, List.getElem?_eq_none (Nat.le_of_not_lt hlt)]
    rfl

/-- A complete handshake is answered with that response. -/
theorem wsUpgradeHttp_default {env : Env φ} {d : DefaultPeer φ} (hd : env.AsksDefault d)
    {s : Conn φ} (hready : s.ws.ready = true) : wsUpgradeHttp env s = upgradeWith env (response101
      env (s.ws.socketKey.getD []) (acknowledged d.defaultPeerProto s.ws.protocol)) s := by
  rw [wsUpgradeHttp_ready env hready, ← upgradeResponse_default hd]
  rfl

/-- An environment with the default backend. -/
def defaultEnv (d : DefaultPeer φ) : Env φ where
  query _ _ protocol _ := d.query protocol
  connect _ _ := true
  send _ n := some n
  sha1 := id
  base64 := id
  pingInterval := 30

/-- A connection after its request line. -/
def requestConn : Conn φ where
  ws := { conn := 0, wsFd := some 4, state := .wsHttp, requestPath := some (ascii "/") }
  world := { fds := [some 0, some 1, some 2, some 3, some 4], socks := 5, conns := 1 }

end

/-- **Subprotocols are negotiated** exactly if no token of a `Sec-WebSocket-Protocol` field
consists of blanks. -/
theorem negotiates_iff (d : DefaultPeer φ) (fields : List HeaderField) :
    Negotiates d fields ↔ ∀ f ∈ fields, f.IsProtocol → f.NoBlankToken := by
  have hlist (env : Env φ) {s : Conn φ} (hhttp : s.ws.state = .wsHttp) (hs : s.ws.protocol = []) :
      (handleFields env fields s).ws.protocol =
        ((fields.filter fun f => decide f.IsProtocol).flatMap fun f =>
          (strtok 44 (ltrim f.text)).map trim).eraseDups := by
    rw [handleFields_ws env fields hhttp]
    exact protocol_fields fields [] s.ws hs
  constructor
  · intro h f hf hprot t ht hnil
    obtain ⟨heq, -⟩ := h (defaultEnv d) requestConn (fun _ _ _ _ => rfl) rfl rfl
    rw [hlist (defaultEnv d) rfl rfl] at heq
    -- the blank token is one of the protocols, and no empty protocol is requested
    have hmem : ([] : Bytes) ∈ requestedProtocols fields := by
      rw [← heq, List.mem_eraseDups, List.mem_flatMap]
      refine ⟨f, List.mem_filter.mpr ⟨hf, decide_eq_true hprot⟩, ?_⟩
      exact List.mem_map.mpr ⟨t, ht, hnil⟩
    unfold requestedProtocols at hmem
    rw [List.mem_eraseDups, List.mem_flatMap] at hmem
    obtain ⟨g, -, hg⟩ := hmem
    exact absurd (List.mem_filter.mp hg).2 (by decide)
  · intro h env s hd hhttp hs
    have hprot : (handleFields env fields s).ws.protocol = requestedProtocols fields := by
      rw [hlist env hhttp hs]
      unfold requestedProtocols
      congr 1
      refine List.flatMap_congr ?_
      intro f hf
      obtain ⟨hmem, hf⟩ := List.mem_filter.mp hf
      exact (requestedIn_noBlank (h f hmem (of_decide_eq_true hf))).symm
    refine ⟨hprot, fun hready => ?_⟩
    rw [wsUpgradeHttp_default hd hready, hprot]

/-- The protocols `a, ,b` put an empty one between the two. -/
theorem negotiates_fails :
    ¬∀ (d : DefaultPeer Unit) (fields : List HeaderField), Negotiates d fields := by
  intro h
  let f : HeaderField :=
    ⟨⟨ascii "Sec-WebSocket-Protocol", by decide +kernel⟩, ascii " a, ,b", by decide +kernel⟩
  let d : DefaultPeer Unit := DefaultPeer.init {}
  obtain ⟨heq, -⟩ := h d [f] (defaultEnv d) requestConn (fun _ _ _ _ => rfl) rfl rfl
  exact absurd heq (by decide +kernel)

end Websocksy

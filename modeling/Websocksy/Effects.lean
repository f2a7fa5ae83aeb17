import Websocksy.Sending

/-!
# What the handlers do, case by case

One inversion lemma for each handler that other handlers call: `client_connect`,
`ws_close`, `ws_upgrade_http`.  Nothing later unfolds these three.
-/

namespace Websocksy

open Buffer CString

variable {φ : Type}

/-! ## Sends, when only their place in the log matters -/

/-- From `w` to `w'` there were only sends, to the socket at `fd`. -/
structure OnlySends (fd : Option Nat) (w w' : World) : Prop where
  fds : w'.fds = w.fds
  socks : w'.socks = w.socks
  conns : w'.conns = w.conns
  log : ∃ es, w'.log = w.log ++ es ∧
    ∀ e ∈ es, ∃ x, w.sockAt fd = some x ∧ (e = .sendFailed x ∨ ∃ d, e = .wrote x d)

section

variable {fd : Option Nat} {w w' w'' : World}

theorem OnlySends.sockAt (h : OnlySends fd w w') (gd : Option Nat) : w'.sockAt gd = w.sockAt gd := by
  rw [World.sockAt, World.sockAt, h.fds]

theorem OnlySends.refl (fd : Option Nat) (w : World) : OnlySends fd w w :=
  ⟨rfl, rfl, rfl, [], by simp⟩

theorem OnlySends.trans (h : OnlySends fd w w') (h' : OnlySends fd w' w'') :
    OnlySends fd w w'' := by
  obtain ⟨es, he, hes⟩ := h.log
  obtain ⟨fs, hf, hfs⟩ := h'.log
  refine ⟨h'.fds.trans h.fds, h'.socks.trans h.socks, h'.conns.trans h.conns, es ++ fs, ?_, ?_⟩
  · rw [hf, he, List.append_assoc]
  · intro e hm
    rcases List.mem_append.mp hm with hm | hm
    · exact hes e hm
    · rw [← h.sockAt fd]
      exact hfs e hm

theorem Sent.onlySends {env : Env φ} {x : Nat} {data : Bytes} {b : Bool}
    (h : Sent env x w data b w') (hx : w.sockAt fd = some x) : OnlySends fd w w' := by
  have hwrote : ∀ ds : List Bytes, ∀ e ∈ ds.map (Event.wrote x), ∃ y, w.sockAt fd = some y ∧
      (e = .sendFailed y ∨ ∃ d, e = .wrote y d) := by
    intro ds e he
    obtain ⟨d, -, rfl⟩ := List.mem_map.mp he
    exact ⟨x, hx, .inr ⟨d, rfl⟩⟩
  cases h with
  | whole ds hs hd => exact ⟨rfl, rfl, rfl, _, rfl, hwrote ds⟩
  | cut ds hs hd hf =>
      refine ⟨rfl, rfl, rfl, ds.map (.wrote x) ++ [.sendFailed x], by simp, fun e he => ?_⟩
      rcases List.mem_append.mp he with he | he
      · exact hwrote ds e he
      · exact ⟨x, hx, .inl (List.mem_singleton.mp he)⟩

theorem networkSend_onlySends (env : Env φ) (fd : Option Nat) (data : Bytes) (w : World) :
    OnlySends fd w (networkSend env fd data w).2 := by
  cases h : w.sockAt fd with
  | none => rw [networkSend_closed env data h]; exact .refl fd w
  | some x => exact (networkSend_sent env data h).onlySends h

theorem networkSendAll_onlySends (env : Env φ) (fd : Option Nat) (ds : List Bytes) (w : World) :
    OnlySends fd w (networkSendAll env fd ds w).2 := by
  cases h : w.sockAt fd with
  | none => rw [networkSendAll_closed env ds h]; exact .refl fd w
  | some x => exact (networkSendAll_sent env ds h).onlySends h

end

/-! ## Frames -/

/-- The bytes of a frame. -/
def wsEncode (opcode : WsOperation) (data : Bytes) : Bytes := wsFrameHeader opcode data.length ++ data

theorem wsSendFrame_sent (env : Env φ) {ws : Websocket φ} {x : Nat} (opcode : WsOperation)
    (data : Bytes) {w : World} (h : w.sockAt ws.wsFd = some x) :
    Sent env x w (wsEncode opcode data) (wsSendFrame env ws opcode data w).1
      (wsSendFrame env ws opcode data w).2 := by
  have := networkSendAll_sent env [wsFrameHeader opcode data.length, data] h
  rwa [show [wsFrameHeader opcode data.length, data].flatten = wsEncode opcode data by
    simp [wsEncode]] at this

theorem wsSendFrame_closed (env : Env φ) {ws : Websocket φ} (opcode : WsOperation) (data : Bytes)
    {w : World} (h : w.sockAt ws.wsFd = none) : wsSendFrame env ws opcode data w = (true, w) := by
  unfold wsSendFrame
  rw [networkSendAll_closed env _ h]
  simp [wsFrameHeader]

theorem wsSendFrame_onlySends (env : Env φ) (ws : Websocket φ) (opcode : WsOperation)
    (data : Bytes) (w : World) : OnlySends ws.wsFd w (wsSendFrame env ws opcode data w).2 :=
  networkSendAll_onlySends env ws.wsFd _ w

/-! ## `ws_close` -/

theorem wsCloseSend_onlySends (env : Env φ) (ws : Websocket φ) (code : WsCloseReason)
    (reason : Option Bytes) (w : World) :
    OnlySends ws.wsFd w (wsCloseSend env ws code reason w) := by
  unfold wsCloseSend
  split
  · exact .refl _ w
  · split
    · exact wsSendFrame_onlySends env ws _ _ w
    · split
      · exact ((networkSend_onlySends env _ _ w).trans (networkSend_onlySends env _ _ _)).trans
          (networkSend_onlySends env _ _ _)
      · exact .refl _ w

/-- `wsClose` gives back a closed connection, whatever it was given. -/
theorem wsClose_ws (env : Env φ) (code : WsCloseReason) (reason : Option Bytes) (s : Conn φ) :
    (wsClose env code reason s).ws =
      { conn := s.ws.conn, wsFd := none, state := .wsClosed, lastEvent := s.ws.lastEvent
        readBuffer := s.ws.readBuffer, peerBuffer := s.ws.peerBuffer
        peerFramingData := if s.ws.peerFd.isSome then none else s.ws.peerFramingData } := rfl

/-- Nothing is left of the request. -/
structure Websocket.NoRequest (ws : Websocket φ) : Prop where
  header : ws.header = []
  requestPath : ws.requestPath = none
  websocketVersion : ws.websocketVersion = 0
  socketKey : ws.socketKey = none
  wantUpgrade : ws.wantUpgrade = 0
  protocol : ws.protocol = []

/-- Nothing is left of the request and the peer. -/
structure Websocket.Cleared (ws : Websocket φ) : Prop extends ws.NoRequest where
  state : ws.state = .wsClosed
  wsFd : ws.wsFd = none
  peerFd : ws.peerFd = none
  peer : ws.peer = {}
  peerBufferOffset : ws.peerBufferOffset = 0

theorem wsClose_cleared (env : Env φ) (code : WsCloseReason) (reason : Option Bytes) (s : Conn φ) :
    (wsClose env code reason s).ws.Cleared :=
  ⟨⟨rfl, rfl, rfl, rfl, rfl, rfl⟩, rfl, rfl, rfl, rfl, rfl⟩

/-- The outside after `ws_close` sent what it had to. -/
def wsCloseWorld (env : Env φ) (code : WsCloseReason) (reason : Option Bytes) (s : Conn φ) : World :=
  wsCloseSend env s.ws code reason (s.world.record (.wsClose s.ws.conn reason))

theorem wsClose_world (env : Env φ) (code : WsCloseReason) (reason : Option Bytes) (s : Conn φ) :
    (wsClose env code reason s).world =
      ((wsCloseWorld env code reason s).closeFd s.ws.wsFd).closeFd s.ws.peerFd := rfl

theorem closeFd_none {w : World} {fd : Option Nat} (h : w.sockAt fd = none) : w.closeFd fd = w := by
  unfold World.closeFd
  split
  · next h2 => rw [h] at h2; cases h2
  · rfl

theorem closeFd_some {w : World} {fd x : Nat} (h : w.sockAt (some fd) = some x) :
    w.closeFd (some fd) = { w with fds := FdTable.release w.fds fd }.record (.closed x) := by
  unfold World.closeFd
  split
  · next h1 h2 =>
    rw [h] at h2
    cases h1
    cases h2
    rfl
  · next h1 => exact absurd h (h1 fd x rfl)

/-- The sockets that `ws_close` closes. -/
def Conn.closing (s : Conn φ) : List Nat :=
  (s.world.sockAt s.ws.wsFd).toList ++
    if s.ws.peerFd = s.ws.wsFd then [] else (s.world.sockAt s.ws.peerFd).toList

theorem closeFd_log (w : World) (fd : Option Nat) :
    (w.closeFd fd).log = w.log ++ (w.sockAt fd).toList.map .closed := by
  cases h : w.sockAt fd with
  | none => rw [closeFd_none h]; simp
  | some x =>
      cases fd with
      | none => cases h
      | some n => rw [closeFd_some h]; simp

theorem closeFd_sockAt (w : World) (fd gd : Option Nat) :
    (w.closeFd fd).sockAt gd = if gd = fd then none else w.sockAt gd := by
  cases h : w.sockAt fd with
  | none =>
      rw [closeFd_none h]
      split
      · next e => rw [e, h]
      · rfl
  | some x =>
      cases fd with
      | none => cases h
      | some n =>
          rw [closeFd_some h]
          cases gd with
          | none => rfl
          | some m =>
              have := FdTable.entry_release w.fds n m
              simpa [World.sockAt] using this

/-- What `ws_close` leaves in the log: its note, what it sent to the client, and the sockets
it closed. -/
theorem wsClose_log (env : Env φ) (code : WsCloseReason) (reason : Option Bytes) (s : Conn φ) :
    ∃ es, (wsClose env code reason s).world.log =
        s.world.log ++ .wsClose s.ws.conn reason :: (es ++ s.closing.map .closed) ∧
      ∀ e ∈ es, ∃ x, s.world.sockAt s.ws.wsFd = some x ∧ (e = .sendFailed x ∨ ∃ d, e = .wrote x d) := by
  have hsends := wsCloseSend_onlySends env s.ws code reason
    (s.world.record (.wsClose s.ws.conn reason))
  obtain ⟨es, he, hes⟩ := hsends.log
  refine ⟨es, ?_, hes⟩
  rw [wsClose_world, closeFd_log, closeFd_log, closeFd_sockAt, wsCloseWorld, hsends.sockAt,
    hsends.sockAt, he]
  unfold Conn.closing
  split <;> simp

/-- **A further `ws_close` does nothing**: on a closed connection it sends nothing
and closes nothing. -/
theorem wsClose_closed (env : Env φ) (code : WsCloseReason) (reason : Option Bytes) {s : Conn φ}
    (hs : s.ws.state = .wsClosed) (hw : s.ws.wsFd = none) (hp : s.ws.peerFd = none) :
    (wsClose env code reason s).world = s.world.record (.wsClose s.ws.conn reason) := by
  have hc : wsCloseWorld env code reason s = s.world.record (.wsClose s.ws.conn reason) := by
    unfold wsCloseWorld wsCloseSend
    rw [hs]
    cases reason <;> simp
  rw [wsClose_world, hc, hw, hp, closeFd_none rfl, closeFd_none rfl]

/-! ## `client_connect` -/

/-- The outside after the backend was asked about the connection. -/
def World.asked (w : World) (ws : Websocket φ) (connects : Nat) : World :=
  { w.record (.query ws.conn ws.state ws.requestPath) with
    queries := w.queries + 1, connects := connects }

/-- The outside after a peer socket was opened for the connection. -/
def World.opened (w : World) (conn : Nat) : World := w.openSock.record (.opened conn w.socks)

section

variable (w : World) (ws : Websocket φ) (n : Nat)

@[simp] theorem World.asked_fds : (w.asked ws n).fds = w.fds := rfl
@[simp] theorem World.asked_socks : (w.asked ws n).socks = w.socks := rfl
@[simp] theorem World.asked_log :
    (w.asked ws n).log = w.log ++ [.query ws.conn ws.state ws.requestPath] := rfl
@[simp] theorem World.opened_fds : (w.opened n).fds = FdTable.install w.fds w.socks := rfl
@[simp] theorem World.opened_socks : (w.opened n).socks = w.socks + 1 := rfl
@[simp] theorem World.opened_log : (w.opened n).log = w.log ++ [.opened n w.socks] := rfl

end

/-- A framing function that is the default one or comes from the backend. -/
def Env.Offers (env : Env φ) (f : WsFraming φ) : Prop :=
  f = framingAuto ∨ ∃ n path ps hs, (env.query n path ps hs).framing = some f

/-- The three ways `client_connect` ends: no attempt, an attempt that fails, a peer. -/
inductive Connected (env : Env φ) (s : Conn φ) : Bool × Conn φ → Prop
  | refused (p : WsPeerInfo φ) :
      Connected env s (true, ⟨{ s.ws with peer := p }, s.world.asked s.ws s.world.connects⟩)
  | failed (p : WsPeerInfo φ) :
      Connected env s
        (true, ⟨{ s.ws with peer := p, peerFd := none }, s.world.asked s.ws (s.world.connects + 1)⟩)
  | peer (p : WsPeerInfo φ) (f : WsFraming φ) (hf : p.framing = some f) (ho : env.Offers f) :
      Connected env s
        (false, ⟨{ s.ws with peer := p, peerFd := some (FdTable.lowest s.world.fds) },
          (s.world.asked s.ws (s.world.connects + 1)).opened s.ws.conn⟩)

/-- What resolving leaves of the query's answer: all but the address and the default framing. -/
theorem clientResolve_fields (peer : WsPeerInfo φ) :
    ∃ transport host port, (clientResolve peer).1 = { peer with
      transport := transport, host := host, port := port
      framing := if peer.host.isNone then peer.framing else some (peer.framing.getD framingAuto) } := by
  obtain ⟨transport, host, port, framing, config, protocol⟩ := peer
  cases host with
  | none => exact ⟨transport, none, port, rfl⟩
  | some host =>
      have hframing : (if framing.isNone then
            (⟨transport, some host, port, some framingAuto, config, protocol⟩ : WsPeerInfo φ)
          else ⟨transport, some host, port, framing, config, protocol⟩) =
          ⟨transport, some host, port, some (framing.getD framingAuto), config, protocol⟩ := by
        cases framing <;> rfl
      unfold clientResolve
      dsimp only
      rw [hframing]
      dsimp only
      generalize (if transport = PeerTransport.detect then clientDetectTransport host
        else (transport, host)) = t
      generalize (if (t.1 = PeerTransport.tcpClient ∨ t.1 = PeerTransport.udpClient) ∧
        port.isNone = true then clientDetectPort t.2 else none) = split
      cases split with
      | none =>
          dsimp only
          split <;> exact ⟨t.1, some t.2, _, rfl⟩
      | some hp =>
          dsimp only
          split <;> exact ⟨t.1, some hp.1, some hp.2, rfl⟩

theorem clientResolve_framing (peer : WsPeerInfo φ) (a : PeerAddress)
    (h : (clientResolve peer).2 = some a) :
    (clientResolve peer).1.framing = some (peer.framing.getD framingAuto) := by
  obtain ⟨transport, host, port, hp⟩ := clientResolve_fields peer
  cases hh : peer.host with
  | none =>
      unfold clientResolve at h
      rw [hh] at h
      cases h
  | some name =>
      rw [hp, hh]
      rfl

theorem clientConnect_cases (env : Env φ) (s : Conn φ) : Connected env s (clientConnect env s) := by
  unfold clientConnect
  dsimp only
  split
  · exact .refused _
  · next a ha =>
    split
    · refine .peer _ _ (clientResolve_framing _ a ha) ?_
      rw [World.record]
      cases hf : (env.query s.world.queries s.ws.requestPath s.ws.protocol s.ws.header).framing with
      | none => exact .inl (by simp)
      | some f => exact .inr ⟨s.world.queries, s.ws.requestPath, s.ws.protocol, s.ws.header, hf⟩
    · exact .failed _

/-! ## `ws_upgrade_http` -/

/-- The pieces of the 101 response. -/
def upgradeResponse (env : Env φ) (ws : Websocket φ) : List Bytes :=
  [ascii "HTTP/1.1 101 Upgrading\r\n", ascii "Upgrade: websocket\r\n",
    ascii "Connection: Upgrade\r\n"] ++
  [ascii "Sec-WebSocket-Accept: ", acceptKey env (ws.socketKey.getD []) ++ ascii "\r\n"] ++
  (if ws.peer.protocol < ws.protocol.length then
    [ascii "Sec-WebSocket-Protocol: ", ws.protocol.getD ws.peer.protocol [], ascii "\r\n"]
  else []) ++ [ascii "\r\n"]

/-- `ws_upgrade_http` on a complete handshake: connect, then send one response.
`ws_close` without a reason does not look at the state, so it does not matter
that the state is set before the last piece is sent. -/
theorem wsUpgradeHttp_ready (env : Env φ) {s : Conn φ} (h : s.ws.ready = true) :
    wsUpgradeHttp env s =
      let c := clientConnect env s
      if c.1 then (false, wsClose env .http (some (ascii "500 Peer connection failed")) c.2)
      else
        let r := networkSendAll env c.2.ws.wsFd (upgradeResponse env c.2.ws) c.2.world
        if r.1 then (false, wsClose env .http none ⟨c.2.ws, r.2⟩)
        else (false, ⟨{ c.2.ws with state := .wsOpen }, r.2⟩) := by
  unfold wsUpgradeHttp upgradeResponse
  rw [if_pos h]
  obtain ⟨up, c⟩ := clientConnect env s
  cases up
  case true => rfl
  simp only [networkSendAll_append, Bool.false_eq_true, if_false]
  obtain ⟨f1, w1⟩ := networkSendAll env c.ws.wsFd [ascii "HTTP/1.1 101 Upgrading\r\n",
    ascii "Upgrade: websocket\r\n", ascii "Connection: Upgrade\r\n"] c.world
  cases f1
  case true => rfl
  simp only [Bool.false_eq_true, if_false]
  obtain ⟨f2, w2⟩ := networkSendAll env c.ws.wsFd [ascii "Sec-WebSocket-Accept: ",
    acceptKey env (c.ws.socketKey.getD []) ++ ascii "\r\n"] w1
  cases f2
  case true => rfl
  simp only [Bool.false_eq_true, if_false]
  have hlast : ∀ w, networkSendAll env c.ws.wsFd [ascii "\r\n"] w =
      networkSend env c.ws.wsFd (ascii "\r\n") w := by
    intro w
    simp only [networkSendAll]
    split
    · rfl
    · next hf => rw [Bool.not_eq_true] at hf; rw [← hf]
  by_cases hp : c.ws.peer.protocol < c.ws.protocol.length
  · simp only [hp, if_true]
    obtain ⟨f3, w3⟩ := networkSendAll env c.ws.wsFd [ascii "Sec-WebSocket-Protocol: ",
      c.ws.protocol.getD c.ws.peer.protocol [], ascii "\r\n"] w2
    cases f3
    case true => rfl
    simp only [Bool.false_eq_true, if_false, hlast]
    rfl
  · have hnil : networkSendAll env c.ws.wsFd [] w2 = (false, w2) := rfl
    simp only [hp, if_false, hnil, Bool.false_eq_true, hlast]
    rfl

/-- The connection with the peer `client_connect` found for it. -/
def Websocket.connected (ws : Websocket φ) (p : WsPeerInfo φ) (fd : Option Nat) : Websocket φ :=
  { ws with peer := p, peerFd := fd }

/-- The outside once a peer was opened for the connection. -/
def Conn.peerWorld (s : Conn φ) : World :=
  (s.world.asked s.ws (s.world.connects + 1)).opened s.ws.conn

/-- The four ways an upgrade ends: no connection attempt, an attempt that fails, a send
that fails after the peer was opened, an open connection. -/
inductive Upgraded (env : Env φ) (s : Conn φ) : Conn φ → Prop
  | refused (p : WsPeerInfo φ) :
      Upgraded env s (wsClose env .http (some (ascii "500 Peer connection failed"))
        ⟨s.ws.connected p s.ws.peerFd, s.world.asked s.ws s.world.connects⟩)
  | failed (p : WsPeerInfo φ) :
      Upgraded env s (wsClose env .http (some (ascii "500 Peer connection failed"))
        ⟨s.ws.connected p none, s.world.asked s.ws (s.world.connects + 1)⟩)
  | dropped (p : WsPeerInfo φ) (w : World)
      (hs : networkSendAll env s.ws.wsFd
        (upgradeResponse env (s.ws.connected p (some (FdTable.lowest s.world.fds)))) s.peerWorld =
          (true, w)) :
      Upgraded env s
        (wsClose env .http none ⟨s.ws.connected p (some (FdTable.lowest s.world.fds)), w⟩)
  | opened (p : WsPeerInfo φ) (f : WsFraming φ) (hf : p.framing = some f) (ho : env.Offers f)
      (w : World)
      (hs : networkSendAll env s.ws.wsFd
        (upgradeResponse env (s.ws.connected p (some (FdTable.lowest s.world.fds)))) s.peerWorld =
          (false, w)) :
      Upgraded env s
        ⟨{ s.ws.connected p (some (FdTable.lowest s.world.fds)) with state := .wsOpen }, w⟩

theorem wsUpgradeHttp_cases (env : Env φ) {s : Conn φ} (h : s.ws.ready = true) :
    Upgraded env s (wsUpgradeHttp env s).2 := by
  rw [wsUpgradeHttp_ready env h]
  have hc := clientConnect_cases env s
  generalize clientConnect env s = c at hc ⊢
  cases hc with
  | refused p => exact .refused p
  | failed p => exact .failed p
  | peer p f hf ho =>
      simp only [Bool.false_eq_true, if_false]
      rcases hr : networkSendAll env s.ws.wsFd
        (upgradeResponse env (s.ws.connected p (some (FdTable.lowest s.world.fds))))
        s.peerWorld with ⟨sent, w⟩
      unfold Websocket.connected Conn.peerWorld at hr
      simp only [hr]
      cases sent with
      | true => exact .dropped p w hr
      | false => exact .opened p f hf ho w hr

/-- The 101 response is not empty. -/
theorem upgradeResponse_ne_nil (env : Env φ) (ws : Websocket φ) :
    (upgradeResponse env ws).flatten.isEmpty = false := by
  simp [upgradeResponse, ascii]

theorem wsUpgradeHttp_version (env : Env φ) {s : Conn φ} (h : s.ws.ready = false)
    (hv : s.ws.websocketVersion ≠ 13) :
    wsUpgradeHttp env s =
      (false, wsClose env .http (some (ascii "426 Unsupported protocol version")) s) := by
  unfold wsUpgradeHttp
  rw [if_neg (by simp [h]), if_pos hv]

/-- The request is neither answered nor refused. -/
theorem wsUpgradeHttp_incomplete (env : Env φ) {s : Conn φ} (h : s.ws.ready = false)
    (hv : s.ws.websocketVersion = 13) : wsUpgradeHttp env s = (true, s) := by
  unfold wsUpgradeHttp
  rw [if_neg (by simp [h]), if_neg (by simp [hv])]

end Websocksy

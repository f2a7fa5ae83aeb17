import Websocksy.Messages
import Websocksy.FrameBounds

/-!
# The control frames of the bridge

RFC 6455 allows 125 bytes in a control frame, and wants the reason in a close frame behind a
status code.  `ws_close` sends its reason without the code, and a ping that is longer than 125
bytes is answered by a pong of the same length.  `RepliesProper` says that a step does neither.
-/

namespace Websocksy

open Buffer CString Lines FdTable Machine

variable {φ : Type}

/-- The numbers of `enum ws_close_reason`. -/
def WsCloseReason.code : WsCloseReason → Nat
  | .http => 100
  | .normal => 1000
  | .shutdown => 1001
  | .proto => 1002
  | .data => 1003
  | .format => 1007
  | .policy => 1008
  | .limit => 1009
  | .unexpected => 1011

def wsCloseReasons : List WsCloseReason :=
  [.http, .normal, .shutdown, .proto, .data, .format, .policy, .limit, .unexpected]

/-- A payload that is empty, or the status code of a reason with a text behind it. -/
def ClosePayload (payload : Bytes) : Prop :=
  payload = [] ∨ ∃ code ∈ wsCloseReasons, bigEndian 2 code.code <+: payload

/-- A frame is no control frame, or one with a payload that is allowed. -/
def ProperFrame (op : WsOperation) (payload : Bytes) : Prop :=
  (op ∈ [WsOperation.close, .ping, .pong] → payload.length ≤ 125) ∧
  (op = .close → ClosePayload payload)

/-- What may be sent to a client. -/
def Message.Proper (env : Env φ) : Message → Prop
  | .text b => b ∈ [ascii "HTTP/1.1 ", ascii "\r\n\r\n"] ++ httpErrors ∨
    ∃ ws : Websocket φ, b = (upgradeResponse env ws).flatten
  | .frame op payload => ProperFrame op payload

instance (payload : Bytes) : Decidable (ClosePayload payload) := inferInstanceAs (Decidable (_ ∨ _))

instance (op : WsOperation) (payload : Bytes) : Decidable (ProperFrame op payload) :=
  inferInstanceAs (Decidable (_ ∧ _))

/-- All that was sent to a client since it was accepted is proper. -/
def ControlFramesProper (env : Env φ) (c : Core φ) : Prop :=
  ∀ l conn x l', c.world.log = l ++ .accepted conn x :: l' →
    ∃ ms, Spoken x (sends x l') ms ∧ ∀ m ∈ ms, m.Proper env

/-! ## The condition on a step -/

/-- The frame at the front of the read buffer is complete, but not masked. -/
def Websocket.frontUnmasked (ws : Websocket φ) : Bool :=
  match wsFrameLayout ws.readBuffer ws.readBufferOffset with
  | none => false
  | some (len, start) =>
    !(ws.readBufferOffset < (start + len) % 2 ^ 64) && !wsGetMask (ws.readBuffer.getD 1 0)

/-- The frame is data that can be forwarded, a short ping whose pong can be sent, or a pong. -/
def DispatchProper (env : Env φ) (op : Nat) (payload : Bytes) (s : Conn φ) : Prop :=
  if op = 1 ∨ op = 2 then
    s.ws.peerFd.isSome → (networkSend env s.ws.peerFd payload s.world).1 = false
  else if op = 9 then
    payload.length ≤ 125 ∧ (wsSendFrame env s.ws .pong payload s.world).1 = false
  else op = 10

/-- The frame at the front is such a frame; or it is not complete, and there is room for more
of it. -/
def FrontProper (env : Env φ) (s : Conn φ) : Prop :=
  (∀ p ∈ s.ws.frontFrame, DispatchProper env p.1 p.2 s) ∧
  (s.ws.frontFrame.isNone → s.ws.frontUnmasked = false ∧ s.ws.readBufferOffset ≤ wsMaxLine - 2)

/-- A line that comes when the connection is open already is not refused. -/
def LineProper (env : Env φ) (p : Nat × Conn φ) : Prop :=
  p.2.ws.state = .wsOpen → ∀ l ∈ nextLine p,
    wsRefusal env (slice p.2.ws.readBuffer 0 p.2.ws.readBufferOffset ++ l.1) p.2 = none

/-- The `bytesRead` bytes that came do not make `ws_data` close an open connection, and there is no
long ping among them. -/
def HandlesProper (env : Env φ) (bytesRead : Nat) (s : Conn φ) : Prop :=
  if s.ws.state = .wsOpen then
    Passes (nextFrame env) (FrontProper env) (s.ws.readBufferOffset + bytesRead + 1)
      { s with ws := { s.ws with readBufferOffset := s.ws.readBufferOffset + bytesRead } }
  else Passes (nextScan env) (LineProper env) bytesRead (bytesRead, s)

/-- The same for a call of `ws_data`, which is silent if nothing came. -/
def AnswersProper (env : Env φ) (answer : Option Bytes) (s : Conn φ) : Prop :=
  ∀ data ∈ (s.received answer).1, data ≠ [] →
    HandlesProper env data.length ⟨s.ws.filled data, (s.received answer).2⟩

/-- What the framing function answers is no overrun, and no control frame that is not allowed. -/
def FramingStep.Proper : FramingStep φ → Prop
  | .overrun => False
  | .segment op data _ _ => ProperFrame op data
  | .declined _ | .failed _ => True

instance : (r : FramingStep φ) → Decidable r.Proper
  | .overrun => inferInstanceAs (Decidable False)
  | .segment op data _ _ => inferInstanceAs (Decidable (ProperFrame op data))
  | .declined _ | .failed _ => inferInstanceAs (Decidable True)

/-- The opcode, the bytes read and the connection at the next pass of the framing loop. -/
def nextFraming (env : Env φ) (p : WsOperation × Nat × Conn φ) :
    Option (WsOperation × Nat × Conn φ) :=
  p.2.2.ws.peer.framing.bind fun f =>
    let c := p.2.2.framingCall p.1 p.2.1
    match c.take f p.2.2.ws.peer.framingConfig with
    | .segment op data rest true =>
      let sent := wsForward env op data (c.called f p.2.2)
      if sent.1 then none else some (rest.opcode, rest.bytesRead, rest.put rest.offset sent.2)
    | .failed rest => some (rest.opcode, rest.bytesRead, c.called f p.2.2)
    | _ => none

def CallProper (p : WsOperation × Nat × Conn φ) : Prop :=
  ∀ f ∈ p.2.2.ws.peer.framing,
    ((p.2.2.framingCall p.1 p.2.1).take f p.2.2.ws.peer.framingConfig).Proper

/-- The first pass of the framing loop, if the `recv` of `ws_peer_data` gives bytes. -/
def Conn.firstPass (s : Conn φ) (answer : Option Bytes) : Option (WsOperation × Nat × Conn φ) :=
  match recv s.ws.peerFd (peerBufferSize - s.ws.peerBufferOffset - 1) answer s.world with
  | (some (z :: data), w) =>
    some (.binary, (z :: data).length, ⟨{ s.ws with
      peerBuffer := write s.ws.peerBuffer s.ws.peerBufferOffset (z :: data ++ [0]) }, w⟩)
  | _ => none

/-- The peer sends something, and it is framed properly. -/
def ForwardsProper (env : Env φ) (fuel : Nat) (answer : Option Bytes) (s : Conn φ) : Prop :=
  (s.firstPass answer).isSome ∧
  ∀ p ∈ s.firstPass answer, Passes (nextFraming env) CallProper fuel p

/-- In the step, `ws_close` is not called with a reason on an open connection, no ping with more
than 125 bytes is answered, and the framing function does not choose an improper control frame. -/
def RepliesProper (env : Env φ) (c : Core φ) (i : Input) : Prop :=
  match c.loc, i with
  | .client n, .serve answer _ =>
    ∀ ws ∈ c.sock[n]?, ws.wsFd.any (· ∈ c.readFds) →
      AnswersProper env answer ⟨{ ws with lastEvent := c.now }, c.world⟩
  | .peer n, .serve answer fuel =>
    ∀ ws ∈ c.sock[n]?, ws.peerFd.any (· ∈ c.readFds) → ForwardsProper env fuel answer ⟨ws, c.world⟩
  | .select, .quit => ∀ ws ∈ c.sock, ws.state ≠ .wsOpen
  | _, _ => True

instance (env : Env φ) (op : Nat) (payload : Bytes) (s : Conn φ) :
    Decidable (DispatchProper env op payload s) :=
  inferInstanceAs (Decidable (if op = 1 ∨ op = 2 then
      s.ws.peerFd.isSome → (networkSend env s.ws.peerFd payload s.world).1 = false
    else if op = 9 then
      payload.length ≤ 125 ∧ (wsSendFrame env s.ws .pong payload s.world).1 = false
    else op = 10))

instance (env : Env φ) : DecidablePred (FrontProper env) := fun _ =>
  inferInstanceAs (Decidable (_ ∧ _))

instance (env : Env φ) : DecidablePred (LineProper env) := fun p =>
  inferInstanceAs (Decidable (p.2.ws.state = .wsOpen → ∀ l ∈ nextLine p,
    wsRefusal env (slice p.2.ws.readBuffer 0 p.2.ws.readBufferOffset ++ l.1) p.2 = none))

instance (env : Env φ) (bytesRead : Nat) (s : Conn φ) : Decidable (HandlesProper env bytesRead s) :=
  inferInstanceAs (Decidable (if s.ws.state = .wsOpen then
    Passes (nextFrame env) (FrontProper env) (s.ws.readBufferOffset + bytesRead + 1)
      { s with ws := { s.ws with readBufferOffset := s.ws.readBufferOffset + bytesRead } }
  else Passes (nextScan env) (LineProper env) bytesRead (bytesRead, s)))

instance (env : Env φ) (answer : Option Bytes) (s : Conn φ) : Decidable (AnswersProper env answer s) :=
  inferInstanceAs (Decidable (∀ data ∈ (s.received answer).1, data ≠ [] →
    HandlesProper env data.length ⟨s.ws.filled data, (s.received answer).2⟩))

instance : DecidablePred (CallProper (φ := φ)) := fun p =>
  inferInstanceAs (Decidable (∀ f ∈ p.2.2.ws.peer.framing,
    ((p.2.2.framingCall p.1 p.2.1).take f p.2.2.ws.peer.framingConfig).Proper))

instance (env : Env φ) (fuel : Nat) (answer : Option Bytes) (s : Conn φ) :
    Decidable (ForwardsProper env fuel answer s) := inferInstanceAs (Decidable (_ ∧ _))

instance (env : Env φ) (c : Core φ) (i : Input) : Decidable (RepliesProper env c i) :=
  match hl : c.loc, hi : i with
  | .client n, .serve answer fuel =>
    decidable_of_iff (∀ ws ∈ c.sock[n]?, ws.wsFd.any (· ∈ c.readFds) →
      AnswersProper env answer ⟨{ ws with lastEvent := c.now }, c.world⟩) (by simp [RepliesProper, hl])
  | .peer n, .serve answer fuel =>
    decidable_of_iff (∀ ws ∈ c.sock[n]?, ws.peerFd.any (· ∈ c.readFds) →
      ForwardsProper env fuel answer ⟨ws, c.world⟩) (by simp [RepliesProper, hl])
  | .select, .quit =>
    decidable_of_iff (∀ ws ∈ c.sock, ws.state ≠ .wsOpen) (by simp [RepliesProper, hl])
  | .select, .select .. | .select, .serve .. | .ping _, _ | .done, _ | .client _, .select ..
  | .client _, .quit | .peer _, .select .. | .peer _, .quit => isTrue (by simp [RepliesProper, hl])

/-! ## Lines -/

section

variable {env : Env φ} {s t : Conn φ} {x : Nat}

/-- Where no close frame is sent, `ws_close` sends a response that is proper. -/
theorem closeMessages_proper {ws : Websocket φ} {code : WsCloseReason} {reason : Option Bytes}
    (hopen : ws.state = .wsOpen → reason = none)
    (hhttp : code = .http → ∀ r, reason = some r → r ∈ httpErrors) :
    ∀ m ∈ closeMessages ws code reason, m.Proper env := by
  unfold closeMessages
  split
  · simp
  · next r =>
    split
    · next ho => cases hopen ho
    · split
      · next hc =>
        have herror := hhttp hc.2 r rfl
        simp only [List.forall_mem_cons, Message.Proper, List.mem_append]
        exact ⟨.inl (.inl List.mem_cons_self), .inl (.inr herror),
          .inl (.inl (List.mem_cons_of_mem _ List.mem_cons_self)), by simp⟩
      · simp

theorem wsClose_proper (code : WsCloseReason) (reason : Option Bytes)
    (hopen : s.ws.state = .wsOpen → reason = none)
    (hhttp : code = .http → ∀ r, reason = some r → r ∈ httpErrors) :
    Said (Message.Proper env) x s.world.log (wsClose env code reason s).world.log :=
  wsClose_said code reason (closeMessages_proper hopen hhttp)

/-- An upgrade sends the 101 response, or what `ws_close` says when there is no peer. -/
theorem wsUpgradeHttp_said {P : Message → Prop} (h : s.ws.ready = true)
    (hresponse : ∀ ws : Websocket φ, P (.text (upgradeResponse env ws).flatten))
    (herror : (clientConnect env s).1 = true →
      ∀ m ∈ closeMessages s.ws .http (some (ascii "500 Peer connection failed")), P m) :
    Said P x s.world.log (wsUpgradeHttp env s).2.world.log := by
  rw [wsUpgradeHttp_ready env h]
  have hcases := clientConnect_cases env s
  generalize clientConnect env s = c at herror hcases ⊢
  have hasked (n : Nat) : Said P x s.world.log (s.world.asked s.ws n).log :=
    .quiet (World.asked_log _ _ _) (by simp [Event.sendsTo])
  cases hcases with
  | refused p => exact (hasked _).trans (wsClose_said _ _ (herror rfl))
  | failed p => exact (hasked _).trans (wsClose_said _ _ (herror rfl))
  | peer p f hf ho =>
      simp only [Bool.false_eq_true, if_false]
      have hpeer : Said P x s.world.log
          ((s.world.asked s.ws (s.world.connects + 1)).opened s.ws.conn).log :=
        (hasked _).trans (.quiet (World.opened_log _ _) (by simp [Event.sendsTo]))
      generalize hws : ({ s.ws with peer := p, peerFd := some (lowest s.world.fds) } : Websocket φ) = ws
      generalize (s.world.asked s.ws (s.world.connects + 1)).opened s.ws.conn = w at hpeer ⊢
      have hsaid : Said P x w.log
          (networkSendAll env s.ws.wsFd (upgradeResponse env ws) w).2.log :=
        networkSendAll_said rfl (hresponse ws)
      rw [← hws] at hsaid ⊢
      generalize networkSendAll env s.ws.wsFd _ w = r at hsaid ⊢
      refine (hpeer.trans hsaid).trans ?_
      split
      · exact wsClose_said (s := ⟨_, r.2⟩) .http none (by simp [closeMessages])
      · exact .refl

/-- It sends the error response only if the connection is not open. -/
theorem wsUpgradeHttp_proper (h : s.ws.ready = true)
    (hopen : s.ws.state = .wsOpen → (clientConnect env s).1 = false) :
    Said (Message.Proper env) x s.world.log (wsUpgradeHttp env s).2.world.log := by
  refine wsUpgradeHttp_said h (fun ws => .inr ⟨ws, rfl⟩) ?_
  intro herror
  have herrors : ascii "500 Peer connection failed" ∈ httpErrors := List.mem_cons_self
  apply closeMessages_proper
  · intro ho
    rw [hopen ho] at herror
    cases herror
  · intro _ r hr
    rwa [← Option.some.inj hr]

/-- A line sends nothing improper, unless it is refused on an open connection. -/
theorem wsTakeLine_proper {line : Bytes}
    (hopen : s.ws.state = .wsOpen → wsRefusal env line s = none) :
    Said (Message.Proper env) x s.world.log (wsTakeLine env line s).world.log := by
  have hnote : Said (Message.Proper env) x s.world.log
      (s.world.record (.line s.ws.conn s.ws.state line)).log :=
    .quiet (World.record_log _ _) (by simp [Event.sendsTo])
  cases he : lineEnds s.ws line with
  | false =>
      rw [wsTakeLine_quiet env he]
      exact hnote
  | true =>
      by_cases ho : s.ws.state = .wsOpen
      · rcases wsTakeLine_refused env he with ⟨u, r, hu⟩ | ⟨hready, hc, htake⟩
        · have hstatus := hu.status
          rw [hopen ho] at hstatus
          cases hstatus
        · rw [htake]
          exact hnote.trans (wsUpgradeHttp_proper hready fun _ => hc)
      · have hclose (r : Bytes) (hr : r ∈ httpErrors) : Said (Message.Proper env) x
            (s.world.record (.line s.ws.conn s.ws.state line)).log
            (wsClose env .http (some r) ⟨s.ws, s.world.record (.line s.ws.conn s.ws.state line)⟩).world.log :=
          wsClose_proper (s := ⟨s.ws, _⟩) .http (some r) (fun h => absurd h ho)
            fun _ r' h => by rwa [← Option.some.inj h]
        refine hnote.trans ?_
        have hends := wsTakeLine_ends env he
        generalize wsTakeLine env line s = t at hends ⊢
        cases hends with
        | upgrade hready => exact wsUpgradeHttp_proper hready fun h => absurd h ho
        | version _ => exact hclose _ (by simp [httpErrors])
        | folding => exact hclose _ (by simp [httpErrors])
        | format => exact hclose _ (by simp [httpErrors])

/-- **The line loop**: it hands over a line, of which at least the CRLF is gone then, or nothing
changes. -/
theorem wsScan_proper (bytesRead : Nat)
    (hp : Passes (nextScan env) (LineProper env) bytesRead (bytesRead, s)) :
    Said (Message.Proper env) x s.world.log (wsScan env bytesRead 0 bytesRead s).2.world.log ∧
    ((wsScan env bytesRead 0 bytesRead s).1 + 2 ≤ bytesRead ∨
      wsScan env bytesRead 0 bytesRead s = (bytesRead, s)) := by
  induction hb : bytesRead using Nat.strongRecOn generalizing bytesRead s with
  | ind n ih =>
      subst hb
      rw [wsScan_line]
      cases hc : cutLine (slice s.ws.readBuffer s.ws.readBufferOffset bytesRead) with
      | none => exact ⟨.refl, .inr rfl⟩
      | some p =>
          obtain ⟨l, r⟩ := p
          have hlen : r.length + 2 ≤ bytesRead := by
            have h := congrArg List.length (cutLine_eq_some hc).1
            simp only [length_slice, List.length_append, List.length_cons] at h
            omega
          obtain ⟨k, rfl⟩ : ∃ k, bytesRead = k + 1 := ⟨bytesRead - 1, by omega⟩
          obtain ⟨hline, hrest⟩ := hp
          have hnext : nextLine (k + 1, s) = some (l, r) := hc
          rw [nextScan, hnext] at hrest
          obtain ⟨halike, -, -, -⟩ := wsDropLine_spec env hc
          have hworld := halike.world
          rw [view_all, view_all] at hworld
          have htaken : Said (Message.Proper env) x s.world.log
              (wsTakeLine env (slice s.ws.readBuffer 0 s.ws.readBufferOffset ++ l) s).world.log :=
            wsTakeLine_proper fun ho => hline ho (l, r) hnext
          rw [← hworld] at htaken
          obtain ⟨htail, hleft⟩ := ih r.length (by omega) r.length (Passes.mono hrest (by omega)) rfl
          refine ⟨htaken.trans htail, .inl ?_⟩
          rcases hleft with h | h
          · exact Nat.le_trans h (by omega)
          · dsimp only at h ⊢
            rw [h]
            exact hlen

/-! ## Frames -/

/-- The socket is there, and it is not the connection's peer. -/
def Conn.Apart (s : Conn φ) (x : Nat) : Prop :=
  x < s.world.socks ∧ s.world.sockAt s.ws.peerFd ≠ some x

theorem Act.apart {A : Scope} (h : Act env A s t) (hx : s.Apart x) : t.Apart x := by
  refine ⟨Nat.lt_of_lt_of_le hx.1 h.later.socks, ?_⟩
  have hclosed (w : World) : w.sockAt none ≠ some x := by
    intro he
    cases he
  cases h with
  | bare ws h hr =>
      obtain ⟨rb, ro, le, rfl⟩ := bare_eq h.symm
      exact hx.2
  | header tag value h hn =>
      obtain ⟨hs, ver, key, up, ps, he⟩ := wsHeader_eq tag value s.ws
      rw [he]
      exact hx.2
  | upgrade h hn hr =>
      have hu := wsUpgradeHttp_cases env hr
      generalize (wsUpgradeHttp env s).2 = t at hu ⊢
      cases hu with
      | refused p => exact hclosed _
      | failed p => exact hclosed _
      | dropped p w hs => exact hclosed _
      | opened p f hf ho w hs =>
          have hsends := networkSendAll_onlySends env s.ws.wsFd
            (upgradeResponse env (s.ws.connected p (some (lowest s.world.fds)))) s.peerWorld
          rw [hs] at hsends
          -- the peer has a socket that was not there
          have hpeer : w.sockAt (some (lowest s.world.fds)) = some s.world.socks := by
            rw [hsends.sockAt]
            exact (entry_install s.world.fds s.world.socks _).trans (if_pos rfl)
          intro he
          rw [show (s.ws.connected p (some (lowest s.world.fds))).peerFd =
            some (lowest s.world.fds) from rfl, hpeer] at he
          have := Option.some.inj he
          have := hx.1
          omega
  | close code reason h => exact hclosed _
  | forward data h =>
      rw [(networkSend_onlySends env s.ws.peerFd data s.world).sockAt]
      exact hx.2
  | frame op data h ho =>
      rw [(wsSendFrame_onlySends env s.ws op data s.world).sockAt]
      exact hx.2
  | _ => exact hx.2

theorem Acts.apart {A : Scope} (h : Acts env A s t) (hx : s.Apart x) : t.Apart x :=
  h.invariant (P := fun s => s.Apart x) (fun _ _ ha hx => ha.apart hx) hx

/-- A frame that is proper leaves the connection open, and sends at most a pong. -/
theorem wsDispatch_proper {op : Nat} {payload : Bytes} (hx : s.Apart x)
    (hp : DispatchProper env op payload s) :
    (wsDispatch env op payload s).ws = s.ws ∧
      Said (Message.Proper env) x s.world.log (wsDispatch env op payload s).world.log := by
  unfold DispatchProper at hp
  unfold wsDispatch
  by_cases hdata : op = 1 ∨ op = 2
  · rw [if_pos hdata] at hp ⊢
    split
    · next hpeer =>
      dsimp only
      rw [hp hpeer]
      exact ⟨rfl, ((networkSend_onlySends env s.ws.peerFd payload s.world).tells_apart hx.2).said (by simp)⟩
    · exact ⟨rfl, .refl⟩
  · rw [if_neg hdata] at hp ⊢
    by_cases hping : op = 9
    · rw [if_pos hping] at hp
      have hclose : ¬op = 8 := by omega
      rw [if_neg hclose, if_pos hping]
      dsimp only
      rw [hp.2]
      have hpong : (Message.frame .pong payload).Proper env :=
        ⟨fun _ => hp.1, fun h => by cases h⟩
      exact ⟨rfl, wsSendFrame_said hpong⟩
    · rw [if_neg hping] at hp
      have hclose : ¬op = 8 := by omega
      rw [if_neg hclose, if_neg hping, if_pos hp]
      exact ⟨rfl, .refl⟩

/-- `ws_frame` handles a proper frame, or waits for more of it. -/
theorem wsFrame_proper {n : Nat} (hx : s.Apart x) (hp : FrontProper env s)
    (h : wsFrame env s = some (n, t)) :
    Said (Message.Proper env) x s.world.log t.world.log ∧
    t.ws.readBufferOffset = s.ws.readBufferOffset ∧ t.ws.state = s.ws.state ∧
    (0 < n ∧ n ≤ s.ws.readBufferOffset ∨ n = 0 ∧ s.ws.readBufferOffset ≤ wsMaxLine - 2) := by
  obtain ⟨hfront, hnone⟩ := hp
  unfold Websocket.frontFrame Websocket.frontUnmasked at hnone
  unfold Websocket.frontFrame at hfront
  unfold wsFrame at h
  cases hl : wsFrameLayout s.ws.readBuffer s.ws.readBufferOffset with
  | none =>
      rw [hl] at h hnone
      cases h
      exact ⟨.refl, rfl, rfl, .inr ⟨rfl, (hnone rfl).2⟩⟩
  | some r =>
      obtain ⟨len, start⟩ := r
      rw [hl] at h hnone hfront
      dsimp only at h hnone hfront
      by_cases hpart : s.ws.readBufferOffset < (start + len) % 2 ^ 64
      · rw [if_pos hpart] at h
        rw [if_pos (.inl hpart)] at hnone
        cases h
        exact ⟨.refl, rfl, rfl, .inr ⟨rfl, (hnone rfl).2⟩⟩
      · rw [if_neg hpart] at h
        cases hmask : wsGetMask (s.ws.readBuffer.getD 1 0) with
        | false =>
            -- an unmasked frame is not proper
            rw [if_pos (.inr (by rw [hmask]; rfl))] at hnone
            have hunmasked := (hnone rfl).1
            rw [decide_eq_false hpart, hmask] at hunmasked
            cases hunmasked
        | true =>
            have hcomplete : ¬(s.ws.readBufferOffset < (start + len) % 2 ^ 64 ∨
                (!wsGetMask (s.ws.readBuffer.getD 1 0)) = true) := by
              rw [hmask]
              rintro (h | h)
              · exact hpart h
              · cases h
            rw [if_neg hcomplete] at hfront
            rw [hmask, if_neg (by decide)] at h
            split at h
            · cases h
            · next hinside =>
              cases h
              obtain ⟨hws, hsaid⟩ := wsDispatch_proper (s := ⟨{ s.ws with
                readBuffer := write s.ws.readBuffer start (maskBytes
                  (slice s.ws.readBuffer (start - 4) 4) (slice s.ws.readBuffer start len)) },
                s.world⟩) hx (hfront _ rfl)
              have hmax : wsMaxLine = 16384 := rfl
              have hsum : (start + len) % 2 ^ 64 = start + len := Nat.mod_eq_of_lt (by omega)
              obtain ⟨hstart, -⟩ := wsFrameLayout_header hl hmask
              refine ⟨hsaid, by rw [hws], by rw [hws], .inl ?_⟩
              omega

/-- **The frame loop**: it ends with an open connection, and with room in the buffer. -/
theorem wsFrames_proper (fuel : Nat) (hx : s.Apart x) (ho : s.ws.state = .wsOpen)
    (hfuel : s.ws.readBufferOffset < fuel) (hp : Passes (nextFrame env) (FrontProper env) fuel s)
    (h : wsFrames env fuel s = some t) :
    Said (Message.Proper env) x s.world.log t.world.log ∧
      t.ws.readBufferOffset ≤ wsMaxLine - 2 := by
  induction fuel generalizing s with
  | zero => omega
  | succ fuel ih =>
      obtain ⟨hfront, hrest⟩ := hp
      unfold wsFrames at h
      cases hf : wsFrame env s with
      | none =>
          rw [hf] at h
          cases h
      | some r =>
          obtain ⟨n, u⟩ := r
          obtain ⟨hsaid, hoff, hstate, hn⟩ := wsFrame_proper hx hfront hf
          rw [nextFrame, hf] at hrest
          rw [hf] at h
          dsimp only at h hrest
          rcases hn with ⟨hpos, hle⟩ | ⟨rfl, hroom⟩
          · have hmore : 0 < n ∧ 0 < u.ws.readBufferOffset := ⟨hpos, by omega⟩
            rw [if_pos hmore] at h hrest
            have hbare : Acts env Scope.all u ⟨{ u.ws with
                readBuffer := moveDown u.ws.readBuffer n (u.ws.readBufferOffset - n)
                readBufferOffset := u.ws.readBufferOffset - n }, u.world⟩ :=
              .single (.bare _ rfl trivial)
            have hu : u.Apart x := (wsFrame_acts (A := Scope.all) trivial ho hf).1.apart hx
            obtain ⟨htail, hroom⟩ := ih (hbare.apart hu) (hstate.trans ho)
              (by dsimp only; omega) hrest h
            exact ⟨hsaid.trans htail, hroom⟩
          · rw [if_neg (by omega)] at h
            cases h
            exact ⟨hsaid, by rw [hoff]; exact hroom⟩

/-! ## The handlers -/

/-- What the handlers do with the bytes in the buffer; if the connection is open then, there is room
for more. -/
theorem wsDataSwitch_proper {bytesRead : Nat} (hx : s.Apart x) (hp : HandlesProper env bytesRead s)
    (hroom : bytesRead ≤ wsMaxLine - s.ws.readBufferOffset - 1)
    (h : wsDataSwitch env bytesRead s = some t) :
    Said (Message.Proper env) x s.world.log t.world.log ∧
      (t.ws.state = .wsOpen → t.ws.readBufferOffset ≤ wsMaxLine - 2) := by
  unfold HandlesProper at hp
  have hmax : wsMaxLine = 16384 := rfl
  have hscan (ho : s.ws.state ≠ .wsOpen) : Said (Message.Proper env) x s.world.log
      (wsScan env bytesRead 0 bytesRead s).2.world.log ∧
      ((wsScan env bytesRead 0 bytesRead s).2.ws.state = .wsOpen →
        (wsScan env bytesRead 0 bytesRead s).1 ≤ wsMaxLine - 2) := by
    rw [if_neg ho] at hp
    obtain ⟨hsaid, hleft⟩ := wsScan_proper (x := x) bytesRead hp
    refine ⟨hsaid, ?_⟩
    rcases hleft with h | h
    · intro _
      omega
    · rw [h]
      exact fun h => absurd h ho
  unfold wsDataSwitch at h
  split at h
  · next hs =>
    cases h
    exact hscan (by rw [hs]; decide)
  · next hs =>
    cases h
    exact hscan (by rw [hs]; decide)
  · next hs =>
    rw [if_pos hs] at hp
    have hx' : Conn.Apart ⟨{ s.ws with
        readBufferOffset := s.ws.readBufferOffset + bytesRead }, s.world⟩ x := hx
    obtain ⟨hsaid, hlimit⟩ := wsFrames_proper _ hx' hs (Nat.lt_succ_self _) hp h
    exact ⟨hsaid, fun _ => hlimit⟩
  · next hs =>
    cases h
    refine ⟨.refl, ?_⟩
    intro ho
    rw [hs] at ho
    cases ho

/-- `ws_data` on an open connection leaves it open, and on another sends what a line asks for. -/
theorem wsData_proper {answer : Option Bytes} (hx : s.Apart x) (hp : AnswersProper env answer s)
    (h : wsData env answer s = some t) :
    Said (Message.Proper env) x s.world.log t.world.log := by
  cases wsData_cases h with
  | nothing r w hr h =>
      have hrecv : Said (Message.Proper env) x s.world.log w.log := by
        cases hr with
        | closed _ => exact .refl
        | failed y _ _ => exact .quiet (World.record_log _ _) (by simp [Event.sendsTo])
        | data y b _ _ => exact .quiet (World.record_log _ _) (by simp [Event.sendsTo])
      exact hrecv.trans (wsClose_proper (s := ⟨s.ws, w⟩) _ none (fun _ => rfl) fun h => by cases h)
  | data y b data u hy hb hd hne hu =>
      have hrecv : s.received answer = (some data, s.world.record (.received y data)) := by
        unfold Conn.received recv
        rw [hy, hb, hd]
      have hhandles := hp data (by rw [hrecv]; rfl) hne
      rw [hrecv] at hhandles
      have hlog : Said (Message.Proper env) x s.world.log
          (s.world.record (.received y data)).log :=
        .quiet (World.record_log _ _) (by simp [Event.sendsTo])
      refine hlog.trans ?_
      have hroom : data.length ≤ wsMaxLine - s.ws.readBufferOffset - 1 := by
        rw [hd, List.length_take]
        omega
      have hx' : Conn.Apart ⟨s.ws.filled data, s.world.record (.received y data)⟩ x := hx
      obtain ⟨hsaid, hlimit⟩ := wsDataSwitch_proper hx' hhandles hroom hu
      split
      · next hfull =>
        refine hsaid.trans (wsClose_proper _ _ ?_ fun h => by cases h)
        intro ho
        have := hlimit ho
        have hmax : wsMaxLine = 16384 := rfl
        omega
      · exact hsaid

/-- The keep-alive check sends a short ping. -/
theorem wsKeepAlive_proper (now : Int) :
    Said (Message.Proper env) x s.world.log (wsKeepAlive env now s).world.log := by
  unfold wsKeepAlive
  split
  · have hping : (Message.frame .ping (ascii "PING")).Proper env :=
      ⟨fun _ => by decide, fun h => by cases h⟩
    have hsaid : Said (Message.Proper env) x s.world.log
        (wsSendFrame env s.ws .ping (ascii "PING") s.world).2.log := wsSendFrame_said hping
    dsimp only
    split
    · exact hsaid.trans (wsClose_proper (s := ⟨s.ws, _⟩) _ none (fun _ => rfl) fun h => by cases h)
    · exact hsaid
  · exact .refl

/-! ## Data from the peer -/

theorem wsForward_proper {op : WsOperation} {data : Bytes} (hp : ProperFrame op data) :
    Said (Message.Proper env) x s.world.log (wsForward env op data s).2.world.log := by
  unfold wsForward
  have hsent : Said (Message.Proper env) x s.world.log
      (if op = .discard then (false, s.world) else wsSendFrame env s.ws op data s.world).2.log := by
    split
    · exact .refl
    · have hframe : (Message.frame op data).Proper env := hp
      exact wsSendFrame_said hframe
  generalize (if op = .discard then (false, s.world) else wsSendFrame env s.ws op data s.world) = sent
    at hsent ⊢
  dsimp only
  split
  · exact hsent
  · exact hsent.trans (.quiet (World.record_log _ _) (by simp [Event.sendsTo]))

/-- **The framing loop**, where no answer is an overrun or an improper control frame. -/
theorem wsFraming_proper {f : WsFraming φ} (fuel : Nat) (op : WsOperation) (bytesRead : Nat)
    {rv : Bool} (hf : s.ws.peer.framing = some f)
    (hp : Passes (nextFraming env) CallProper fuel (op, bytesRead, s))
    (h : wsFraming env fuel op bytesRead s = some (rv, t)) :
    Said (Message.Proper env) x s.world.log t.world.log := by
  induction fuel generalizing s op bytesRead with
  | zero => cases h
  | succ fuel ih =>
      obtain ⟨hcall, hrest⟩ := hp
      have hanswer := hcall f hf
      rw [nextFraming] at hrest
      rw [wsFraming_take env fuel op bytesRead hf] at h
      dsimp only at h hanswer hrest
      rw [hf, Option.bind_some] at hrest
      have hcalled : (s.framingCall op bytesRead).called f s = framingCalled bytesRead
          ((s.framingCall op bytesRead).answer f s.ws.peer.framingConfig).2.2 s := rfl
      rw [hcalled] at hrest
      have hnote : Said (Message.Proper env) x s.world.log (framingCalled bytesRead
          ((s.framingCall op bytesRead).answer f s.ws.peer.framingConfig).2.2 s).world.log :=
        .quiet (World.record_log _ _) (by simp [Event.sendsTo])
      have hframing : (framingCalled bytesRead
          ((s.framingCall op bytesRead).answer f s.ws.peer.framingConfig).2.2 s).ws.peer.framing =
            some f := hf
      generalize framingCalled bytesRead
        ((s.framingCall op bytesRead).answer f s.ws.peer.framingConfig).2.2 s = u
        at h hrest hnote hframing
      refine hnote.trans ?_
      cases htake : (s.framingCall op bytesRead).take f s.ws.peer.framingConfig with
      | overrun =>
          rw [htake] at hanswer
          exact absurd hanswer id
      | declined rest =>
          rw [htake] at h
          cases h
          exact .refl
      | failed rest =>
          rw [htake] at h hrest
          exact ih _ _ hframing hrest h
      | segment o seg rest again =>
          rw [htake] at h hanswer hrest
          dsimp only at h
          have hsaid : Said (Message.Proper env) x u.world.log (wsForward env o seg u).2.world.log :=
            wsForward_proper hanswer
          have hws := wsForward_ws env o seg u
          refine hsaid.trans ?_
          cases hsent : (wsForward env o seg u).1 with
          | true =>
              rw [hsent, if_pos rfl] at h
              cases h
              exact .refl
          | false =>
              rw [hsent, if_neg (by decide)] at h
              cases again with
              | false =>
                  rw [if_neg (by decide)] at h
                  cases h
                  exact .refl
              | true =>
                  rw [if_pos rfl] at h
                  dsimp only at hrest
                  rw [hsent, if_neg (by decide)] at hrest
                  have hput : (rest.put rest.offset (wsForward env o seg u).2).ws.peer.framing =
                      some f := by
                    rw [← hframing, ← hws]
                    rfl
                  exact ih (s := rest.put rest.offset (wsForward env o seg u).2) _ _ hput hrest h

/-- `ws_peer_data`, where the peer sends something that is framed properly. -/
theorem wsPeerData_proper {f : WsFraming φ} {fuel : Nat} {answer : Option Bytes} {r : Bool × Conn φ}
    (hf : s.ws.peer.framing = some f) (hp : ForwardsProper env fuel answer s)
    (h : wsPeerData env fuel answer s = some r) :
    Said (Message.Proper env) x s.world.log r.2.world.log := by
  obtain ⟨hsome, hpasses⟩ := hp
  unfold Conn.firstPass at hsome hpasses
  cases wsPeerData_cases h with
  | failed w hr =>
      have hnone : (recv s.ws.peerFd (peerBufferSize - s.ws.peerBufferOffset - 1) answer s.world).1 =
          none := by
        unfold recv
        cases hr with
        | closed hx => rw [hx]
        | failed y hx ha => rw [hx, ha]
      split at hsome
      · next z data w hrecv =>
        rw [hrecv] at hnone
        cases hnone
      · cases hsome
  | ended y b hy ha hb =>
      have hrecv : recv s.ws.peerFd (peerBufferSize - s.ws.peerBufferOffset - 1) answer s.world =
          (some [], s.world.record (.received y [])) := by
        unfold recv
        rw [hy, ha, hb]
      rw [hrecv] at hsome
      cases hsome
  | data y b data r hy ha hb hne hu =>
      have hrecv : recv s.ws.peerFd (peerBufferSize - s.ws.peerBufferOffset - 1) answer s.world =
          (some data, s.world.record (.received y data)) := by
        unfold recv
        rw [hy, ha, hb]
      rw [hrecv] at hpasses
      have hlog : Said (Message.Proper env) x s.world.log
          (s.world.record (.received y data)).log :=
        .quiet (World.record_log _ _) (by simp [Event.sendsTo])
      cases data with
      | nil => exact absurd rfl hne
      | cons z data =>
          obtain ⟨rv, t⟩ := r
          have hf' : (s.peerReceived y (z :: data)).ws.peer.framing = some f := hf
          exact hlog.trans (wsFraming_proper fuel .binary _ hf' (hpasses _ rfl) hu)

end

end Websocksy

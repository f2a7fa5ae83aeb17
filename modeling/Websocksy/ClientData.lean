import Websocksy.AcceptedFrames
import Websocksy.Attribution
import Websocksy.Delivery
import Websocksy.Segmentation

/-!
# What the handlers leave in the log

Data from the peer and the keep-alive check do not touch what the client sends (`Beside`).  Frames
of the client are taken from the front of the buffer, in turn, and their data is written to the peer
(`FramesTaken`); its lines are handled in turn, and open one peer at most (`LinesTaken`).
-/

namespace Websocksy

open Buffer CString Lines Machine

variable {φ : Type}

/-! ## What does not touch the stream -/

/-- The read buffer, the phase and the sockets are the same. -/
structure Kept (s t : Conn φ) : Prop where
  state : t.ws.state = s.ws.state
  live : t.ws.live = s.ws.live
  client : t.world.sockAt t.ws.wsFd = s.world.sockAt s.ws.wsFd
  peer : t.world.sockAt t.ws.peerFd = s.world.sockAt s.ws.peerFd

/-- The connection is closed, or as it was at the side of its client; the log grew by `K`. -/
structure Beside (K : Event → Prop) (s t : Conn φ) : Prop where
  conn : t.ws.conn = s.ws.conn
  grows : Grows K s.world t.world
  kept : t.ws.state = .wsClosed ∨ Kept s t

/-- What handling the data of the peer `x` for the client `y` leaves in the log. -/
def Event.Backward (x y : Nat) : Event → Prop
  | .received z _ => z = x
  | .wrote z _ => z = y
  | .recvFailed _ | .sendFailed _ | .wsClose _ _ | .closed _ | .framing _ _ _ | .segment _ _ _ => True
  | .accepted _ _ | .opened _ _ | .selected _ | .line _ _ _ | .query _ _ _ => False

section

variable {env : Env φ} {K : Event → Prop} {s t u : Conn φ} {x y : Nat}

theorem Kept.refl (s : Conn φ) : Kept s s := ⟨rfl, rfl, rfl, rfl⟩

theorem Kept.trans (h : Kept s t) (h' : Kept t u) : Kept s u := by
  constructor
  · exact h'.state.trans h.state
  · exact h'.live.trans h.live
  · exact h'.client.trans h.client
  · exact h'.peer.trans h.peer

theorem Beside.close (h : Beside (Event.Backward x y) s t) (hy : ∀ z, t.world.sockAt t.ws.wsFd = some z → z = y)
    (code : WsCloseReason) (reason : Option Bytes) :
    Beside (Event.Backward x y) s (wsClose env code reason t) := by
  have hclose : Grows (Event.Backward x y) t.world (wsClose env code reason t).world := by
    refine .close code reason trivial (fun _ => trivial) ?_
    intro z hz
    exact ⟨trivial, fun d => hy z hz⟩
  exact ⟨h.conn, h.grows.trans hclose, .inl rfl⟩

/-- The framing loop works on the other buffer. -/
theorem wsFraming_beside (fuel : Nat) (op : WsOperation) (bytesRead : Nat) {r : Bool × Conn φ}
    (hy : ∀ z, s.world.sockAt s.ws.wsFd = some z → z = y)
    (h : wsFraming env fuel op bytesRead s = some r) : Beside (Event.Backward x y) s r.2 := by
  induction fuel generalizing s op bytesRead with
  | zero => cases h
  | succ fuel ih =>
      obtain ⟨f, hf⟩ := wsFraming_some h
      obtain ⟨p, hpass, hp⟩ := wsFraming_passed env op bytesRead hf
      rw [hp] at h
      generalize s.framingCall op bytesRead = c at hpass
      have hcalled : Beside (Event.Backward x y) s (c.called f s) := by
        refine ⟨rfl, ?_, .inr ⟨rfl, rfl, rfl, rfl⟩⟩
        unfold FramingCall.called framingCalled
        exact .record trivial _
      have htaken (op : WsOperation) (seg : Bytes) (rest : FramingCall φ) (k : Nat) {w : World}
          (hw : OnlySends s.ws.wsFd (c.called f s).world w) :
          Kept s (c.taken f op seg rest k w s) ∧
            Beside (Event.Backward x y) s (c.taken f op seg rest k w s) := by
        have hkept : Kept s (c.taken f op seg rest k w s) :=
          ⟨rfl, rfl, hw.sockAt _, hw.sockAt _⟩
        have hsent : Grows (Event.Backward x y) (c.called f s).world w := by
          refine .sends hw ?_
          intro z hz
          exact ⟨trivial, fun d => hy z hz⟩
        refine ⟨hkept, rfl, (hcalled.grows.trans hsent).trans ?_, .inr hkept⟩
        exact .record trivial w
      have hagain {v : Conn φ} (hv : Kept s v) (hb : Beside (Event.Backward x y) s v)
          (hr : Beside (Event.Backward x y) v r.2) : Beside (Event.Backward x y) s r.2 := by
        exact ⟨hr.conn.trans hb.conn, hb.grows.trans hr.grows, hr.kept.imp id hv.trans⟩
      cases hpass with
      | overrun hover hn =>
          cases h
          exact hcalled.close hy _ _
      | unsent o seg rest again k hk w hw hs =>
          cases h
          refine ⟨rfl, hcalled.grows.trans (.sends hw ?_), .inr ⟨rfl, rfl, hw.sockAt _, hw.sockAt _⟩⟩
          intro z hz
          exact ⟨trivial, fun d => hy z hz⟩
      | last o seg rest k hk hn w hw =>
          cases h
          exact (htaken o seg rest _ hw).2
      | again o seg rest k hk hn w hw hc =>
          obtain ⟨hkept, hb⟩ := htaken o seg rest rest.offset hw
          refine hagain hkept hb (ih _ _ ?_ h)
          intro z hz
          apply hy z
          rw [← hz, hkept.client]
      | declined hz hd hn =>
          cases h
          exact ⟨rfl, hcalled.grows, .inr ⟨rfl, rfl, rfl, rfl⟩⟩
      | failed rest hz hl hn hc hr =>
          have hkept : Kept s (c.called f s) := ⟨rfl, rfl, rfl, rfl⟩
          exact hagain hkept hcalled (ih _ _ hy h)

theorem wsPeerData_beside {fuel : Nat} {answer : Option Bytes} {r : Bool × Conn φ}
    (hx : s.world.sockAt s.ws.peerFd = some x)
    (hy : ∀ z, s.world.sockAt s.ws.wsFd = some z → z = y)
    (h : wsPeerData env fuel answer s = some r) : Beside (Event.Backward x y) s r.2 := by
  have hnote {e : Event} (he : e.Backward x y) :
      Beside (Event.Backward x y) s ⟨s.ws, s.world.record e⟩ :=
    ⟨rfl, .record he _, .inr ⟨rfl, rfl, rfl, rfl⟩⟩
  cases wsPeerData_cases h with
  | failed w hr =>
      cases hr with
      | closed hnone =>
          rw [hx] at hnone
          cases hnone
      | failed z hz ha => exact (hnote (e := .recvFailed z) trivial).close hy _ _
  | ended z b hz ha hb =>
      rw [hx] at hz
      cases hz
      exact (hnote (e := .received x []) rfl).close hy _ _
  | data z b data r hz ha hb hne hu =>
      rw [hx] at hz
      cases hz
      have hframing := wsFraming_beside (x := x) (y := y) (s := ⟨{ s.ws with
        peerBuffer := write s.ws.peerBuffer s.ws.peerBufferOffset (data ++ [0]) },
        s.world.record (.received x data)⟩) fuel .binary data.length hy hu
      refine ⟨hframing.conn, (hnote (e := .received x data) rfl).grows.trans hframing.grows, ?_⟩
      refine hframing.kept.imp id ?_
      intro hk
      exact ⟨hk.state, hk.live, hk.client, hk.peer⟩

theorem wsKeepAlive_beside (now : Int) (hnote : K (.wsClose s.ws.conn none))
    (hclosed : ∀ x, K (.closed x))
    (hK : ∀ x, s.world.sockAt s.ws.wsFd = some x → K (.sendFailed x) ∧ ∀ d, K (.wrote x d)) :
    Beside K s (wsKeepAlive env now s) := by
  have hsends := wsSendFrame_onlySends env s.ws .ping (ascii "PING") s.world
  have hping : Grows K s.world (wsSendFrame env s.ws .ping (ascii "PING") s.world).2 :=
    .sends hsends hK
  unfold wsKeepAlive
  split
  · dsimp only
    split
    · refine ⟨rfl, hping.trans (.close (s := ⟨s.ws, _⟩) _ _ hnote hclosed ?_), .inl rfl⟩
      intro x hx
      rw [hsends.sockAt] at hx
      exact hK x hx
    · exact ⟨rfl, hping, .inr ⟨rfl, rfl, hsends.sockAt _, hsends.sockAt _⟩⟩
  · exact ⟨rfl, .refl _ _, .inr (.refl s)⟩

end

/-! ## Frames -/

/-- What handling frames of the client `y` for the peer `x` leaves in the log. -/
def Event.Forward (x y : Nat) : Event → Prop
  | .wrote z _ => z = x ∨ z = y
  | .sendFailed _ | .wsClose _ _ | .closed _ => True
  | _ => False

/-- The frames `fs` were taken from the buffer, and the peer `x` was written their data. -/
structure FramesTaken (x y : Nat) (s t : Conn φ) (fs : List ClientFrame) (rest : Bytes) : Prop where
  bytes : s.ws.live = fs.flatMap (·.encode) ++ rest
  conn : t.ws.conn = s.ws.conn
  grows : Grows (Event.Forward x y) s.world t.world
  client : ∀ z, t.world.sockAt t.ws.wsFd = some z → z = y
  sent : OpenConn x y t ∧ t.ws.live = rest ∧
      written x t.world.log = written x s.world.log ++ toPeer fs ∨
    t.ws.state = .wsClosed ∧
      ∃ d, d <+: toPeer fs ∧ written x t.world.log = written x s.world.log ++ d

section

variable {env : Env φ} {s t : Conn φ} {x y : Nat}

/-- `ws_close` writes to the client. -/
theorem close_forward (hy : s.world.sockAt s.ws.wsFd = some y) (code : WsCloseReason)
    (reason : Option Bytes) :
    Grows (Event.Forward y y) s.world (wsClose env code reason s).world := by
  refine .close code reason trivial (fun _ => trivial) ?_
  intro z hz
  rw [hy] at hz
  cases hz
  exact ⟨trivial, fun d => .inl rfl⟩

theorem OpenConn.client_eq (h : OpenConn x y s) (z : Nat) (hz : s.world.sockAt s.ws.wsFd = some z) :
    z = y := by
  rw [h.client] at hz
  exact (Option.some.inj hz).symm

theorem Forward.of_client {e : Event} (h : e.Forward y y) : e.Forward x y := by
  cases e with
  | wrote z d => exact .inr (h.elim id id)
  | _ => exact h

theorem written_client {w w' : World} (hne : x ≠ y) (h : Grows (Event.Forward y y) w w') :
    written x w'.log = written x w.log := by
  refine h.written ?_
  intro d hd
  exact hne (hd.elim id id)

/-- One frame. -/
theorem wsDispatch_forward (env : Env φ) (h : OpenConn x y s) (hne : x ≠ y) (f : ClientFrame) :
    Grows (Event.Forward x y) s.world (wsDispatch env f.opcode f.payload s).world ∧
    ((∃ w, wsDispatch env f.opcode f.payload s = ⟨s.ws, w⟩ ∧ OpenConn x y ⟨s.ws, w⟩ ∧
        written x w.log = written x s.world.log ++ toPeer [f]) ∨
      (wsDispatch env f.opcode f.payload s).ws.state = .wsClosed ∧
        (wsDispatch env f.opcode f.payload s).ws.readBufferOffset = 0 ∧
        (wsDispatch env f.opcode f.payload s).ws.wsFd = none ∧
        (wsDispatch env f.opcode f.payload s).ws.conn = s.ws.conn ∧
        ∃ d, d <+: toPeer [f] ∧ written x (wsDispatch env f.opcode f.payload s).world.log =
          written x s.world.log ++ d) := by
  obtain ⟨hstate, hpeer, hclient⟩ := h
  have hclose {w : World} (hw : ∀ fd, w.sockAt fd = s.world.sockAt fd) (code : WsCloseReason)
      (reason : Bytes) :
      Grows (Event.Forward y y) w (wsClose env code (some reason) ⟨s.ws, w⟩).world := by
    refine close_forward (s := ⟨s.ws, w⟩) ?_ code _
    rw [hw]
    exact hclient
  unfold wsDispatch
  by_cases hdata : f.opcode = 1 ∨ f.opcode = 2
  · have hfd : s.ws.peerFd.isSome := by
      cases hfd : s.ws.peerFd with
      | none => rw [hfd] at hpeer; cases hpeer
      | some fd => rfl
    have hpayload : toPeer [f] = f.payload := by simp [toPeer, hdata]
    rw [if_pos hdata, if_pos hfd, hpayload]
    have hsent := networkSend_sent env f.payload hpeer
    have honly := networkSend_onlySends env s.ws.peerFd f.payload s.world
    generalize networkSend env s.ws.peerFd f.payload s.world = r at hsent honly
    have hgrows : Grows (Event.Forward x y) s.world r.2 := by
      refine .sends honly ?_
      intro z hz
      rw [hpeer] at hz
      cases hz
      exact ⟨trivial, fun d => .inl rfl⟩
    obtain ⟨b, w⟩ := r
    dsimp only at hsent honly hgrows ⊢
    cases hsent with
    | whole ds hs hd =>
        refine ⟨hgrows, .inl ⟨_, rfl, ⟨hstate, hpeer, hclient⟩, ?_⟩⟩
        rw [World.wrote_log, written_append, written_wrote, hd]
    | cut ds hs hd hf =>
        have hc := hclose honly.sockAt .unexpected (ascii "Failed to forward")
        refine ⟨hgrows.trans (hc.mono fun _ => Forward.of_client),
          .inr ⟨rfl, rfl, rfl, rfl, _, hd, ?_⟩⟩
        rw [if_pos rfl, written_client hne hc, World.sendFails_log, World.wrote_log, written_append,
          written_append, written_wrote]
        simp [written]
  · have hnothing : toPeer [f] = [] := by simp [toPeer, hdata]
    rw [if_neg hdata, hnothing]
    -- nothing but the client is written to
    have hover (code : WsCloseReason) (reason : Bytes) {w : World}
        (hw : OnlySends s.ws.wsFd s.world w) :
        Grows (Event.Forward y y) s.world (wsClose env code (some reason) ⟨s.ws, w⟩).world := by
      refine Grows.trans (.sends hw ?_) (hclose hw.sockAt code reason)
      intro z hz
      rw [hclient] at hz
      cases hz
      exact ⟨trivial, fun d => .inl rfl⟩
    split
    · have hc := hover .normal (ascii "Client requested termination") (.refl _ s.world)
      refine ⟨hc.mono fun _ => Forward.of_client, .inr ⟨rfl, rfl, rfl, rfl, [], List.nil_prefix, ?_⟩⟩
      rw [written_client hne hc, List.append_nil]
    · split
      · have hsends := wsSendFrame_onlySends env s.ws .pong f.payload s.world
        have hpong : Grows (Event.Forward y y) s.world
            (wsSendFrame env s.ws .pong f.payload s.world).2 := by
          refine .sends hsends ?_
          intro z hz
          rw [hclient] at hz
          cases hz
          exact ⟨trivial, fun d => .inl rfl⟩
        dsimp only
        split
        · have hc := hover .unexpected (ascii "Failed to send pong") hsends
          refine ⟨hc.mono fun _ => Forward.of_client, .inr ⟨rfl, rfl, rfl, rfl, [], List.nil_prefix, ?_⟩⟩
          rw [written_client hne hc, List.append_nil]
        · refine ⟨hpong.mono fun _ => Forward.of_client, .inl ⟨_, rfl, ?_, ?_⟩⟩
          · exact ⟨hstate, (hsends.sockAt _).trans hpeer, (hsends.sockAt _).trans hclient⟩
          · rw [written_client hne hpong, List.append_nil]
      · split
        · exact ⟨.refl _ _, .inl ⟨s.world, rfl, ⟨hstate, hpeer, hclient⟩, by simp⟩⟩
        · have hc := hover .proto (ascii "Invalid opcode") (.refl _ s.world)
          refine ⟨hc.mono fun _ => Forward.of_client, .inr ⟨rfl, rfl, rfl, rfl, [], List.nil_prefix, ?_⟩⟩
          rw [written_client hne hc, List.append_nil]

theorem toPeer_cons (f : ClientFrame) (fs : List ClientFrame) :
    toPeer (f :: fs) = toPeer [f] ++ toPeer fs := by simp [toPeer]

/-- **The frame loop** takes the frames at the front of the buffer in turn. -/
theorem wsFrames_taken (fuel : Nat) (h : OpenConn x y s) (hne : x ≠ y)
    (hoff : s.ws.readBufferOffset ≤ wsMaxLine - 1) (ht : wsFrames env fuel s = some t) :
    ∃ fs rest, FramesTaken x y s t fs rest := by
  induction fuel generalizing s with
  | zero =>
      cases ht
      exact ⟨[], _, rfl, rfl, .refl _ _, h.client_eq, .inl ⟨h, rfl, by simp [toPeer]⟩⟩
  | succ fuel ih =>
      unfold wsFrames at ht
      cases hf : wsFrame env s with
      | none =>
          rw [hf] at ht
          cases ht
      | some r =>
          obtain ⟨n, u⟩ := r
          rw [hf] at ht
          dsimp only at ht
          have htaken := wsFrame_taken hoff hf
          generalize hr : (n, u) = r at htaken
          cases htaken with
          | waits hno =>
              cases hr
              rw [if_neg (by omega)] at ht
              cases ht
              exact ⟨[], _, rfl, rfl, .refl _ _, h.client_eq, .inl ⟨h, rfl, by simp [toPeer]⟩⟩
          | refused hno =>
              cases hr
              rw [if_neg (by omega)] at ht
              cases ht
              have hc : Grows (Event.Forward y y) s.world
                  (wsClose env .proto (some (ascii "Unmasked client frame")) s).world :=
                close_forward h.client _ _
              refine ⟨[], _, rfl, rfl, hc.mono fun _ => Forward.of_client, fun z hz => (by cases hz),
                .inr ⟨rfl, [], List.nil_prefix, ?_⟩⟩
              rw [written_client hne hc, List.append_nil]
          | taken f rest hlive =>
              cases hr
              obtain ⟨hgrows, hcase⟩ := wsDispatch_forward env
                (s := ⟨{ s.ws with
                  readBuffer := write s.ws.readBuffer (f.header.length + 4) f.payload }, s.world⟩)
                ⟨h.state, h.peer, h.client⟩ hne f
              rcases hcase with ⟨w, hw, hopen, hsent⟩ | ⟨hclosed, hzero, hfd, hconn, d, hd, hsent⟩
              · -- the loop goes on with the bytes behind the frame
                rw [hw] at ht hgrows
                dsimp only at ht hgrows hsent
                have hlen : s.ws.readBufferOffset = f.size + rest.length := by
                  have := congrArg List.length hlive
                  simpa [Websocket.live, ClientFrame.size] using this
                have hpos : 0 < f.size := by
                  rw [f.size_eq]
                  omega
                rw [if_pos ⟨hpos, by omega⟩] at ht
                have hnext := live_moveDown s.ws hlive (f.header.length + 4) f.payload
                  (by rw [← f.size_eq]; rfl)
                have hless : s.ws.readBufferOffset - f.size ≤ wsMaxLine - 1 := by omega
                obtain ⟨fs, last, hrest⟩ := ih (s := ⟨{ s.ws with
                  readBuffer := moveDown (write s.ws.readBuffer (f.header.length + 4) f.payload)
                    f.size (s.ws.readBufferOffset - f.size)
                  readBufferOffset := s.ws.readBufferOffset - f.size }, w⟩)
                  ⟨hopen.state, hopen.peer, hopen.client⟩ hless ht
                have hbytes : rest = fs.flatMap (·.encode) ++ last := by
                  rw [← hrest.bytes]
                  exact hnext.symm
                refine ⟨f :: fs, last, ?_, hrest.conn, hgrows.trans hrest.grows, hrest.client, ?_⟩
                · rw [hlive, hbytes, List.flatMap_cons, List.append_assoc]
                · rw [toPeer_cons]
                  rcases hrest.sent with ⟨ho, hl, hs⟩ | ⟨hc, d, hd, hs⟩
                  · refine .inl ⟨ho, hl, ?_⟩
                    rw [hs, hsent, List.append_assoc]
                  · refine .inr ⟨hc, toPeer [f] ++ d, List.prefix_append_right_inj _ |>.mpr hd, ?_⟩
                    rw [hs, hsent, List.append_assoc]
              · rw [hzero, if_neg (by omega)] at ht
                cases ht
                refine ⟨[f], rest, ?_, hconn, hgrows, ?_, .inr ⟨hclosed, d, hd, hsent⟩⟩
                · rw [List.flatMap_cons, List.flatMap_nil, List.append_nil]
                  exact hlive
                · intro z hz
                  rw [hfd] at hz
                  cases hz

end

/-! ## Lines -/

/-- What the answer to the client `y` leaves in the log, where `x` is the peer opened for it. -/
def Event.Answer (x y : Nat) : Event → Prop
  | .opened _ z => z = x
  | .wrote z _ => z = y
  | .query _ _ _ | .sendFailed _ | .wsClose _ _ | .closed _ => True
  | _ => False

/-- What lines of the client leave in the log. -/
def Event.Preface (x y : Nat) (e : Event) : Prop :=
  e.Answer x y ∨ ∃ conn st d, e = .line conn st d

/-- The connection handled the lines `ls`. -/
structure LinesTaken (y : Nat) (ls : List Bytes) (s t : Conn φ) : Prop where
  conn : t.ws.conn = s.ws.conn
  handled : handledLines s.ws.conn t.world.log = handledLines s.ws.conn s.world.log ++ ls
  grows : Grows (Event.Preface s.world.socks y) s.world t.world
  quiet : InHttp t.ws → ∀ c x, .opened c x ∈ t.world.log → .opened c x ∈ s.world.log
  peer : t.ws.state = .wsOpen → t.world.sockAt t.ws.peerFd = some s.world.socks
  client : ∀ z, t.world.sockAt t.ws.wsFd = some z → z = y

section

variable {env : Env φ} {s t : Conn φ} {x y : Nat}

/-- The new peer does not take the descriptor of the client. -/
theorem peerWorld_client (hs : Sound env s) :
    s.peerWorld.sockAt s.ws.wsFd = s.world.sockAt s.ws.wsFd := by
  cases hfd : s.ws.wsFd with
  | none => rfl
  | some fd =>
      have hopen := hs.client_open hfd
      have hne : fd ≠ FdTable.lowest s.world.fds := by
        rintro rfl
        exact hopen (FdTable.entry_lowest s.world.fds)
      exact (FdTable.entry_install s.world.fds s.world.socks fd).trans (if_neg hne)

theorem peerWorld_peer (s : Conn φ) :
    s.peerWorld.sockAt (some (FdTable.lowest s.world.fds)) = some s.world.socks :=
  (FdTable.entry_install s.world.fds s.world.socks _).trans (if_pos rfl)

theorem peerWorld_grows (s : Conn φ) :
    Grows (Event.Answer s.world.socks y) s.world s.peerWorld := by
  refine ⟨[.query s.ws.conn s.ws.state s.ws.requestPath, .opened s.ws.conn s.world.socks], ?_, ?_⟩
  · simp [Conn.peerWorld]
  · intro e hm
    simp only [List.mem_cons, List.not_mem_nil, or_false] at hm
    rcases hm with rfl | rfl
    · trivial
    · rfl

theorem answer_handled {w w' : World} {conn : Nat} (h : Grows (Event.Answer x y) w w') :
    handledLines conn w'.log = handledLines conn w.log ++ [] := by
  rw [List.append_nil]
  exact h.handledLines fun st d => id

/-- The answer is that the connection is closed. -/
theorem LinesTaken.of_close (ws : Websocket φ) (w : World) (hconn : ws.conn = s.ws.conn)
    (hw : Grows (Event.Answer s.world.socks y) s.world w)
    (hy : ∀ z, w.sockAt ws.wsFd = some z → z = y) (code : WsCloseReason) (reason : Option Bytes) :
    LinesTaken y [] s (wsClose env code reason ⟨ws, w⟩) := by
  have hall : Grows (Event.Answer s.world.socks y) s.world
      (wsClose env code reason ⟨ws, w⟩).world := by
    refine hw.trans (.close (s := ⟨ws, w⟩) code reason trivial (fun _ => trivial) ?_)
    intro z hz
    exact ⟨trivial, fun d => hy z hz⟩
  refine ⟨hconn, answer_handled hall, hall.mono fun _ => .inl, ?_, ?_, ?_⟩
  · rintro (h | h) <;> cases h
  · intro h
    cases h
  · intro z hz
    cases hz

/-- A line that ends the HTTP phase. -/
theorem Ended.taken (hs : Sound env s) (hy : ∀ z, s.world.sockAt s.ws.wsFd = some z → z = y)
    (h : Ended env s t) : LinesTaken y [] s t := by
  have hasked (n : Nat) : Grows (Event.Answer s.world.socks y) s.world (s.world.asked s.ws n) := by
    refine ⟨_, World.asked_log _ _ _, ?_⟩
    intro e hm
    rw [List.mem_singleton.mp hm]
    trivial
  have hclient (z : Nat) (hz : s.peerWorld.sockAt s.ws.wsFd = some z) : z = y := by
    rw [peerWorld_client hs] at hz
    exact hy z hz
  have hresponse {ds : List Bytes} {b : Bool} {w : World}
      (hw : networkSendAll env s.ws.wsFd ds s.peerWorld = (b, w)) :
      OnlySends s.ws.wsFd s.peerWorld w ∧ Grows (Event.Answer s.world.socks y) s.world w := by
    have honly := networkSendAll_onlySends env s.ws.wsFd ds s.peerWorld
    rw [hw] at honly
    refine ⟨honly, (peerWorld_grows s).trans (.sends honly ?_)⟩
    intro z hz
    exact ⟨trivial, fun d => hclient z hz⟩
  cases h with
  | upgrade hr =>
      have hcases := wsUpgradeHttp_cases env hr
      generalize (wsUpgradeHttp env s).2 = t at hcases
      cases hcases with
      | refused p => exact .of_close (s.ws.connected p s.ws.peerFd) _ rfl (hasked _) hy _ _
      | failed p => exact .of_close (s.ws.connected p none) _ rfl (hasked _) hy _ _
      | dropped p w hw =>
          obtain ⟨honly, hgrows⟩ := hresponse hw
          refine .of_close (s.ws.connected p (some (FdTable.lowest s.world.fds))) w rfl hgrows ?_ _ _
          intro z hz
          rw [honly.sockAt] at hz
          exact hclient z hz
      | opened p f hf ho w hw =>
          obtain ⟨honly, hgrows⟩ := hresponse hw
          refine ⟨rfl, answer_handled hgrows, hgrows.mono fun _ => .inl, ?_, ?_, ?_⟩
          · rintro (h | h) <;> cases h
          · intro _
            exact (honly.sockAt _).trans (peerWorld_peer s)
          · intro z hz
            dsimp only at hz
            rw [honly.sockAt] at hz
            exact hclient z hz
  | version hr => exact .of_close s.ws s.world rfl (.refl _ _) hy _ _
  | folding => exact .of_close s.ws s.world rfl (.refl _ _) hy _ _
  | format => exact .of_close s.ws s.world rfl (.refl _ _) hy _ _

/-- **Lines** of which only the last ends the HTTP phase. -/
theorem wsTakeLines_taken (ls : List Bytes) (hs : Sound env s) (hin : InHttp s.ws)
    (hy : ∀ z, s.world.sockAt s.ws.wsFd = some z → z = y) (h : EndsLast s.ws ls) :
    LinesTaken y ls s (wsTakeLines env ls s) := by
  induction ls generalizing s with
  | nil =>
      refine ⟨rfl, (List.append_nil _).symm, .refl _ _, fun _ _ _ hm => hm, ?_, hy⟩
      intro hopen
      rcases hin with h | h <;>
        · rw [show (wsTakeLines env [] s).ws.state = s.ws.state from rfl, h] at hopen
          cases hopen
  | cons l ls ih =>
      have hrecord : Sound env ⟨s.ws, s.world.record (.line s.ws.conn s.ws.state l)⟩ :=
        ⟨hs.state, hs.numbered, hs.held⟩
      have hline : handledLines s.ws.conn (s.world.record (.line s.ws.conn s.ws.state l)).log =
          handledLines s.ws.conn s.world.log ++ [l] := by
        simp [handledLines]
      unfold EndsLast at h
      cases he : lineEnds s.ws l with
      | true =>
          rw [if_pos he] at h
          rw [h.1]
          have htaken := (wsTakeLine_ends env he).taken hrecord hy
          refine ⟨htaken.conn, ?_, (Grows.record (.inr ⟨_, _, _, rfl⟩) _).trans htaken.grows, ?_, htaken.peer,
            htaken.client⟩
          · rw [show wsTakeLines env [l] s = wsTakeLine env l s from rfl, htaken.handled]
            rw [hline, List.append_nil]
          · intro hin c x hm
            have hm := htaken.quiet hin c x hm
            simpa using hm
      | false =>
          rw [if_neg (by simp [he])] at h
          have hquiet := wsTakeLine_quiet env he
          have hfold : wsTakeLines env (l :: ls) s = wsTakeLines env ls
              ⟨lineQuiet s.ws l, s.world.record (.line s.ws.conn s.ws.state l)⟩ := by
            rw [← hquiet]
            rfl
          obtain ⟨hconn, hfd⟩ := lineQuiet_conn s.ws l
          have hacts : Acts env Scope.all s
              ⟨lineQuiet s.ws l, s.world.record (.line s.ws.conn s.ws.state l)⟩ := by
            rw [← hquiet]
            exact wsTakeLine_acts l trivial fun _ _ => trivial
          have hin' : InHttp (lineQuiet s.ws l) := by
            unfold InHttp at hin ⊢
            rcases lineQuiet_state s.ws l with e | ⟨-, e⟩
            · rw [e]
              exact hin
            · exact .inr e
          have hrest := ih (s := ⟨lineQuiet s.ws l, s.world.record (.line s.ws.conn s.ws.state l)⟩)
            (hacts.sound hs) hin' (by rw [hfd]; exact hy) h
          rw [hfold]
          refine ⟨hrest.conn.trans hconn, ?_, (Grows.record (.inr ⟨_, _, _, rfl⟩) _).trans hrest.grows,
            ?_, hrest.peer, hrest.client⟩
          · have hhandled := hrest.handled
            dsimp only at hhandled
            rw [hconn] at hhandled
            rw [hhandled, hline, List.append_assoc, List.singleton_append]
          · intro hin c x hm
            have hm := hrest.quiet hin c x hm
            simpa using hm

end

end Websocksy

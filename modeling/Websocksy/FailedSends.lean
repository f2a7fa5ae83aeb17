import Websocksy.Descriptors
import Websocksy.FramingLoop

/-!
# Sends that fail

A handler that sees a send fail closes the connection, so that nothing is sent after the
gap.  Three places in the source do not: `ws_peer_data` returns when a frame cannot be
sent and leaves the connection as it is, a pong that cannot be sent is followed by a close
frame, and `ws_close` sends an error response in three parts without looking at the
results.  `SendsComplete` says that none of these three happens in a step.
-/

namespace Websocksy

open Buffer CString Lines FdTable Machine

variable {φ : Type}

/-- Data are written to the socket to which a send has failed. -/
def Event.resumedBy : Event → Event → Bool
  | .sendFailed x, .wrote y _ => x == y
  | _, _ => false

/-- After a send to a socket failed, nothing more is written to it. -/
def NoResume (log : List Event) : Prop := log.Pairwise fun e e' => e.resumedBy e' = false

instance (log : List Event) : Decidable (NoResume log) := inferInstanceAs (Decidable (List.Pairwise ..))

/-! ## The three places -/

/-- The frames that the framing function chooses in its next `n` calls, as `ws_send_frame`
sends them. -/
def FramingCall.frames (f : WsFraming φ) (config : Option Bytes) : Nat → FramingCall φ → List Bytes
  | 0, _ => []
  | n + 1, c =>
    match c.take f config with
    | .segment op data rest again =>
      (if op = .discard then [] else [wsFrameHeader op data.length, data]) ++
        if again then FramingCall.frames f config n rest else []
    | .failed rest => FramingCall.frames f config n rest
    | .overrun | .declined _ => []

/-- The frames that a call of `ws_peer_data` forwards can all be sent. -/
def ForwardsWhole (env : Env φ) (fuel : Nat) (answer : Option Bytes) (s : Conn φ) : Prop :=
  ∀ f ∈ s.ws.peer.framing, ∀ first ∈ s.firstCall? answer,
    (networkSendAll env s.ws.wsFd (first.frames f s.ws.peer.framingConfig fuel) s.world).1 = false

/-- The opcode and the payload of the frame at the front of the read buffer. -/
def Websocket.frontFrame (ws : Websocket φ) : Option (Nat × Bytes) :=
  match wsFrameLayout ws.readBuffer ws.readBufferOffset with
  | none => none
  | some (len, start) =>
    if ws.readBufferOffset < (start + len) % 2 ^ 64 ∨ !wsGetMask (ws.readBuffer.getD 1 0) then none
    else some (wsGetOp (ws.readBuffer.getD 0 0),
      maskBytes (slice ws.readBuffer (start - 4) 4) (slice ws.readBuffer start len))

/-- If the frame at the front is a ping, its pong can be sent. -/
def PongWhole (env : Env φ) (s : Conn φ) : Prop :=
  ∀ p ∈ s.ws.frontFrame, p.1 = 9 → (wsSendFrame env s.ws .pong p.2 s.world).1 = false

/-- The connection at the next pass of the frame loop. -/
def nextFrame (env : Env φ) (s : Conn φ) : Option (Conn φ) :=
  match wsFrame env s with
  | none => none
  | some (n, s) =>
    if 0 < n ∧ 0 < s.ws.readBufferOffset then
      let left := s.ws.readBufferOffset - n
      some { s with ws := { s.ws with
        readBuffer := moveDown s.ws.readBuffer n left, readBufferOffset := left } }
    else none

/-- The status of the error response with which `ws_handle_http` answers the line. -/
def wsRefusal (env : Env φ) (line : Bytes) (s : Conn φ) : Option Bytes :=
  match cstr line with
  | [] =>
    if s.ws.ready then
      if (clientConnect env s).1 then some (ascii "500 Peer connection failed") else none
    else if s.ws.websocketVersion ≠ 13 then some (ascii "426 Unsupported protocol version")
    else none
  | c :: cs =>
    if isspace c then some (ascii "500 Header folding")
    else if (strchr 58 (c :: cs)).isNone then some (ascii "500 Header format")
    else none

/-- If the line is answered by an error response, the parts before its last can be sent. -/
def ResponseWhole (env : Env φ) (line : Bytes) (s : Conn φ) : Prop :=
  s.ws.state = .wsHttp → ∀ r ∈ wsRefusal env line s,
    (networkSendAll env s.ws.wsFd [ascii "HTTP/1.1 ", r] s.world).1 = false

/-- The first of the bytes not looked at that end a line, in the line loop of `ws_data`. -/
def nextLine (p : Nat × Conn φ) : Option (Bytes × Bytes) :=
  cutLine (slice p.2.ws.readBuffer p.2.ws.readBufferOffset p.1)

/-- The state of the line loop after the next line. -/
def nextScan (env : Env φ) (p : Nat × Conn φ) : Option (Nat × Conn φ) :=
  (nextLine p).map fun l =>
    (l.2.length, wsDropLine l.1.length l.2.length (wsHandOver env l.1.length p.2))

/-- The next line of the line loop is not refused, or its error response can be sent. -/
def LineWhole (env : Env φ) (p : Nat × Conn φ) : Prop :=
  ∀ l ∈ nextLine p,
    ResponseWhole env (slice p.2.ws.readBuffer 0 p.2.ws.readBufferOffset ++ l.1) p.2

/-- What is sent for the `bytesRead` bytes that came can be sent. -/
def HandlesWhole (env : Env φ) (bytesRead : Nat) (s : Conn φ) : Prop :=
  if s.ws.state = .wsOpen then
    Passes (nextFrame env) (PongWhole env) (s.ws.readBufferOffset + bytesRead + 1)
      { s with ws := { s.ws with readBufferOffset := s.ws.readBufferOffset + bytesRead } }
  else Passes (nextScan env) (LineWhole env) bytesRead (bytesRead, s)

/-- What the `recv` of `ws_data` gives. -/
def Conn.received (s : Conn φ) (answer : Option Bytes) : Option Bytes × World :=
  recv s.ws.wsFd (wsMaxLine - s.ws.readBufferOffset - 1) answer s.world

/-- The pongs and the error response of a call of `ws_data` can be sent. -/
def AnswersWhole (env : Env φ) (answer : Option Bytes) (s : Conn φ) : Prop :=
  ∀ data ∈ (s.received answer).1,
    HandlesWhole env data.length ⟨s.ws.filled data, (s.received answer).2⟩

instance (env : Env φ) (fuel : Nat) (answer : Option Bytes) (s : Conn φ) :
    Decidable (ForwardsWhole env fuel answer s) :=
  inferInstanceAs (Decidable (∀ f ∈ s.ws.peer.framing, ∀ first ∈ s.firstCall? answer,
    (networkSendAll env s.ws.wsFd (first.frames f s.ws.peer.framingConfig fuel) s.world).1 = false))

instance (env : Env φ) : DecidablePred (PongWhole env) := fun s =>
  inferInstanceAs (Decidable (∀ p ∈ s.ws.frontFrame, p.1 = 9 →
    (wsSendFrame env s.ws .pong p.2 s.world).1 = false))

instance (env : Env φ) (line : Bytes) (s : Conn φ) : Decidable (ResponseWhole env line s) :=
  inferInstanceAs (Decidable (s.ws.state = .wsHttp → ∀ r ∈ wsRefusal env line s,
    (networkSendAll env s.ws.wsFd [ascii "HTTP/1.1 ", r] s.world).1 = false))

instance (env : Env φ) : DecidablePred (LineWhole env) := fun p =>
  inferInstanceAs (Decidable (∀ l ∈ nextLine p,
    ResponseWhole env (slice p.2.ws.readBuffer 0 p.2.ws.readBufferOffset ++ l.1) p.2))

instance (env : Env φ) (bytesRead : Nat) (s : Conn φ) : Decidable (HandlesWhole env bytesRead s) :=
  inferInstanceAs (Decidable (if s.ws.state = .wsOpen then
    Passes (nextFrame env) (PongWhole env) (s.ws.readBufferOffset + bytesRead + 1)
      { s with ws := { s.ws with readBufferOffset := s.ws.readBufferOffset + bytesRead } }
  else Passes (nextScan env) (LineWhole env) bytesRead (bytesRead, s)))

instance (env : Env φ) (answer : Option Bytes) (s : Conn φ) : Decidable (AnswersWhole env answer s) :=
  inferInstanceAs (Decidable (∀ data ∈ (s.received answer).1,
    HandlesWhole env data.length ⟨s.ws.filled data, (s.received answer).2⟩))

/-- No send fails in a step while a frame is forwarded to the client, while a pong is sent, or
in an error response before its last part. -/
def SendsComplete (env : Env φ) (c : Core φ) (i : Input) : Prop :=
  match c.loc, i with
  | .client n, .serve answer _ =>
    ∀ ws ∈ c.sock[n]?, ws.wsFd.any (· ∈ c.readFds) →
      AnswersWhole env answer ⟨{ ws with lastEvent := c.now }, c.world⟩
  | .peer n, .serve answer fuel =>
    ∀ ws ∈ c.sock[n]?, ws.peerFd.any (· ∈ c.readFds) → ForwardsWhole env fuel answer ⟨ws, c.world⟩
  | _, _ => True

instance (env : Env φ) (c : Core φ) (i : Input) : Decidable (SendsComplete env c i) :=
  match hl : c.loc, hi : i with
  | .client n, .serve answer fuel =>
    decidable_of_iff (∀ ws ∈ c.sock[n]?, ws.wsFd.any (· ∈ c.readFds) →
      AnswersWhole env answer ⟨{ ws with lastEvent := c.now }, c.world⟩) (by simp [SendsComplete, hl])
  | .peer n, .serve answer fuel =>
    decidable_of_iff (∀ ws ∈ c.sock[n]?, ws.peerFd.any (· ∈ c.readFds) →
      ForwardsWhole env fuel answer ⟨ws, c.world⟩) (by simp [SendsComplete, hl])
  | .select, _ | .ping _, _ | .done, _ | _, .select .. | _, .quit =>
    isTrue (by simp [SendsComplete, hl])

/-! ## Logs -/

theorem resumedBy_eq_false {e e' : Event} :
    e.resumedBy e' = false ↔ ∀ x d, e = .sendFailed x → e' ≠ .wrote x d := by
  constructor
  · rintro h x d rfl rfl
    simp [Event.resumedBy] at h
  · intro h
    cases e with
    | sendFailed x =>
        cases e' with
        | wrote y d =>
            have hne : x ≠ y := fun he => h x d rfl (he ▸ rfl)
            simpa [Event.resumedBy] using hne
        | _ => rfl
    | _ => rfl

theorem noResume_append {l m : List Event} :
    NoResume (l ++ m) ↔ NoResume l ∧ NoResume m ∧ ∀ x d, .sendFailed x ∈ l → .wrote x d ∉ m := by
  unfold NoResume
  rw [List.pairwise_append]
  refine and_congr_right fun _ => and_congr_right fun _ => ?_
  constructor
  · exact fun h x d hx hd => resumedBy_eq_false.mp (h _ hx _ hd) x d rfl rfl
  · intro h e he e' he'
    rw [resumedBy_eq_false]
    rintro x d rfl rfl
    exact h x d he he'

theorem noResume_of_unfailing {l : List Event} (h : ∀ x, .sendFailed x ∉ l) : NoResume l := by
  refine List.pairwise_of_forall_mem_list fun e he e' _ => resumedBy_eq_false.mpr ?_
  rintro x d rfl
  exact absurd he (h x)

/-- Nothing is written in the later part. -/
theorem NoResume.append_quiet {l m : List Event} (h : NoResume l) (hm : ∀ x, .sendFailed x ∉ m)
    (hw : ∀ x d, .wrote x d ∉ m) : NoResume (l ++ m) :=
  noResume_append.mpr ⟨h, noResume_of_unfailing hm, fun x d _ => hw x d⟩

section

variable {env : Env φ} {x : Nat} {w w' v : World} {data : Bytes} {b : Bool}

theorem Sent.events (h : Sent env x w data b w') :
    ∃ es, w'.log = w.log ++ es ∧ NoResume es ∧ (∀ e ∈ es, e = .sendFailed x ∨ ∃ d, e = .wrote x d) ∧
      (b = false → ∀ y, .sendFailed y ∉ es) := by
  have hwrote : ∀ (ds : List Bytes) (y : Nat), .sendFailed y ∉ ds.map (Event.wrote x) := by
    intro ds y hm
    obtain ⟨d, -, he⟩ := List.mem_map.mp hm
    cases he
  have hmem : ∀ ds : List Bytes, ∀ e ∈ ds.map (Event.wrote x), e = .sendFailed x ∨ ∃ d, e = .wrote x d := by
    intro ds e hm
    obtain ⟨d, -, rfl⟩ := List.mem_map.mp hm
    exact .inr ⟨d, rfl⟩
  cases h with
  | whole ds hs hd => exact ⟨_, rfl, noResume_of_unfailing (hwrote ds), hmem ds, fun _ => hwrote ds⟩
  | cut ds hs hd hf =>
      refine ⟨ds.map (.wrote x) ++ [.sendFailed x], by simp, ?_, fun e hm => ?_, fun h => by cases h⟩
      · refine noResume_append.mpr ⟨noResume_of_unfailing (hwrote ds), List.pairwise_singleton _ _, ?_⟩
        exact fun y d hy => absurd hy (hwrote ds y)
      · rcases List.mem_append.mp hm with hm | hm
        · exact hmem ds e hm
        · exact .inl (List.mem_singleton.mp hm)

/-- What a send comes to depends on the socket and on the number of sends before. -/
theorem networkSendLoop_congr (env : Env φ) (x fuel : Nat) (data : Bytes) (h : v.sends = w.sends) :
    (networkSendLoop env x fuel data v).1 = (networkSendLoop env x fuel data w).1 ∧
    (networkSendLoop env x fuel data v).2.sends = (networkSendLoop env x fuel data w).2.sends := by
  induction fuel generalizing data v w with
  | zero => exact ⟨rfl, h⟩
  | succ fuel ih =>
      unfold networkSendLoop
      by_cases hd : data.isEmpty = true
      · rw [if_pos hd, if_pos hd]
        exact ⟨rfl, h⟩
      · rw [if_neg hd, if_neg hd, h]
        cases env.send x w.sends with
        | none => exact ⟨rfl, rfl⟩
        | some k => exact ih _ rfl

theorem networkSend_congr (env : Env φ) {fd : Option Nat} (data : Bytes)
    (hx : v.sockAt fd = w.sockAt fd) (h : v.sends = w.sends) :
    (networkSend env fd data v).1 = (networkSend env fd data w).1 ∧
    (networkSend env fd data v).2.sends = (networkSend env fd data w).2.sends := by
  unfold networkSend
  rw [hx]
  by_cases hd : data.isEmpty = true
  · rw [if_pos hd, if_pos hd]
    exact ⟨rfl, h⟩
  · rw [if_neg hd, if_neg hd]
    cases w.sockAt fd with
    | none => exact ⟨rfl, h⟩
    | some x => exact networkSendLoop_congr env x _ data h

theorem networkSendAll_congr (env : Env φ) {fd : Option Nat} (ds : List Bytes)
    (hx : v.sockAt fd = w.sockAt fd) (h : v.sends = w.sends) :
    (networkSendAll env fd ds v).1 = (networkSendAll env fd ds w).1 ∧
    (networkSendAll env fd ds v).2.sends = (networkSendAll env fd ds w).2.sends := by
  induction ds generalizing v w with
  | nil => exact ⟨rfl, h⟩
  | cons d ds ih =>
      obtain ⟨h1, h2⟩ := networkSend_congr env d hx h
      have hv := (networkSend_onlySends env fd d v).sockAt fd
      have hw := (networkSend_onlySends env fd d w).sockAt fd
      unfold networkSendAll
      dsimp only
      rw [h1]
      split
      · exact ⟨h1, h2⟩
      · exact ih (by rw [hv, hw, hx]) h2

theorem networkSendAll_record (env : Env φ) (fd : Option Nat) (ds : List Bytes) (w : World) (e : Event) :
    (networkSendAll env fd ds (w.record e)).1 = (networkSendAll env fd ds w).1 := by
  refine (networkSendAll_congr env ds ?_ ?_).1 <;> rfl

/-! ## Closing -/

/-- Where the parts before the last can be sent, an error response is one send. -/
theorem wsCloseSend_sent (env : Env φ) (ws : Websocket φ) (code : WsCloseReason)
    (reason : Option Bytes) (w : World)
    (hr : ∀ r, reason = some r → ws.state = .wsHttp → code = .http →
      (networkSendAll env ws.wsFd [ascii "HTTP/1.1 ", r] w).1 = false) :
    wsCloseSend env ws code reason w = w ∨ reason ≠ none ∧ ∃ y data b, w.sockAt ws.wsFd = some y ∧
      Sent env y w data b (wsCloseSend env ws code reason w) := by
  cases reason with
  | none => exact .inl rfl
  | some r =>
      cases hy : w.sockAt ws.wsFd with
      | none =>
          left
          unfold wsCloseSend
          simp only [wsSendFrame_closed env _ _ hy, networkSend_closed env _ hy]
          repeat' split
          all_goals rfl
      | some y =>
          unfold wsCloseSend
          dsimp only
          split
          · exact .inr ⟨by simp, y, _, _, rfl, wsSendFrame_sent env .close r hy⟩
          · split
            · next hhttp =>
              right
              have hok := hr r rfl hhttp.1 hhttp.2
              have hsent := networkSendAll_sent env [ascii "HTTP/1.1 ", r] hy
              rw [hok] at hsent
              have hboth : (networkSendAll env ws.wsFd [ascii "HTTP/1.1 ", r] w).2 =
                  (networkSend env ws.wsFd r (networkSend env ws.wsFd (ascii "HTTP/1.1 ") w).2).2 := by
                unfold networkSendAll networkSendAll networkSendAll at hok ⊢
                dsimp only at hok ⊢
                split at hok
                · next h => rw [h] at hok; cases hok
                · next h =>
                  rw [if_neg h]
                  split <;> rfl
              have hopen : (networkSendAll env ws.wsFd [ascii "HTTP/1.1 ", r] w).2.sockAt ws.wsFd =
                  some y := by
                rw [(networkSendAll_onlySends env ws.wsFd _ w).sockAt, hy]
              have hlast := networkSend_sent env (ascii "\r\n\r\n") hopen
              rw [hboth] at hsent hlast
              exact ⟨by simp, y, _, _, rfl, hsent.append hlast⟩
            · exact .inl rfl

end

/-- After the log `l`, a send to a socket failed only if the connection was closed and the
socket with it, and nothing was written to it any more. -/
def FailsLast (l : List Event) (t : Conn φ) : Prop :=
  ∃ es, t.world.log = l ++ es ∧ NoResume es ∧
    ∀ x, .sendFailed x ∈ es → t.ws.state = .wsClosed ∧ t.world.Gone x

/-- What a handler did to a connection, with the sends that failed. -/
structure Deed (env : Env φ) (s t : Conn φ) : Prop where
  acts : Acts env Scope.all s t
  log : FailsLast s.world.log t

section

variable {env : Env φ} {s t u : Conn φ} {l es : List Event}

theorem FailsLast.unfailing (he : t.world.log = l ++ es) (h : ∀ x, .sendFailed x ∉ es) :
    FailsLast l t := ⟨es, he, noResume_of_unfailing h, fun x hx => absurd hx (h x)⟩

/-- What happened before, where no send failed. -/
theorem FailsLast.before {m : List Event} (hm : m = l ++ es) (h : ∀ x, .sendFailed x ∉ es)
    (ht : FailsLast m t) : FailsLast l t := by
  obtain ⟨fs, hf, hno, hfail⟩ := ht
  refine ⟨es ++ fs, by rw [hf, hm, List.append_assoc], ?_, fun x hx => ?_⟩
  · exact noResume_append.mpr ⟨noResume_of_unfailing h, hno, fun x d hx => absurd hx (h x)⟩
  · exact hfail x ((List.mem_append.mp hx).resolve_left (h x))

theorem FailsLast.congr (h : FailsLast l t) (hw : u.world = t.world) (hs : u.ws.state = t.ws.state) :
    FailsLast l u := by
  unfold FailsLast
  rw [hw, hs]
  exact h

theorem Deed.refl : Deed env s s := ⟨.refl, .unfailing (List.append_nil _).symm (by simp)⟩

/-- A socket that was closed is not the connection's. -/
theorem own_not_gone {x : Nat} (h : s.Own x) : ¬s.world.Gone x := by
  rintro ⟨hlt, hnone⟩
  rcases h with ⟨fd, -, hx⟩ | hle
  · exact hnone fd hx
  · omega

theorem Local.not_wrote {m : List Event} (h : Local s t) (hm : t.world.log = s.world.log ++ m)
    {x : Nat} (hx : s.world.Gone x) (d : Bytes) : .wrote x d ∉ m := by
  intro hd
  obtain ⟨es, he, hes⟩ := h.log
  rw [he, List.append_cancel_left_eq] at hm
  exact own_not_gone (hes (.wrote x d) (hm ▸ hd)) hx

theorem Deed.trans (hst : StateInv env s.ws) (h : Deed env s t) (h' : Deed env t u) :
    Deed env s u := by
  obtain ⟨es, he, hno, hfail⟩ := h.log
  obtain ⟨fs, hf, hno', hfail'⟩ := h'.log
  refine ⟨h.acts.trans h'.acts, es ++ fs, by rw [hf, he, List.append_assoc], ?_, fun x hx => ?_⟩
  · refine noResume_append.mpr ⟨hno, hno', fun x d hx => ?_⟩
    exact h'.acts.isLocal.not_wrote hf (hfail x hx).2 d
  · rcases List.mem_append.mp hx with hx | hx
    · obtain ⟨hclosed, hgone⟩ := hfail x hx
      refine ⟨?_, h'.acts.later.gone hgone⟩
      -- a closed connection stays closed
      have hrank := (h'.acts.stateInv (h.acts.stateInv hst).1).2
      rw [hclosed] at hrank
      cases hu : u.ws.state with
      | wsClosed => rfl
      | _ => rw [hu] at hrank; exact absurd hrank (by decide)
    · exact hfail' x hx

/-- **`ws_close` after sends**: one that failed was to the client, and nothing more is sent to
it, or to the peer. -/
theorem wsClose_failsLast (env : Env φ) (code : WsCloseReason) (reason : Option Bytes)
    (hn : Numbered s.world.fds s.world.socks) (he : s.world.log = l ++ es) (hno : NoResume es)
    (hfail : ∀ x, .sendFailed x ∈ es → reason = none ∧ s.world.sockAt s.ws.wsFd = some x ∨
      s.world.sockAt s.ws.peerFd = some x ∧ s.world.sockAt s.ws.wsFd ≠ some x)
    (hr : ∀ r, reason = some r → s.ws.state = .wsHttp → code = .http →
      (networkSendAll env s.ws.wsFd [ascii "HTTP/1.1 ", r] s.world).1 = false) :
    FailsLast l (wsClose env code reason s) := by
  have hsends := wsCloseSend_sent env s.ws code reason
    (s.world.record (.wsClose s.ws.conn reason)) fun r h1 h2 h3 =>
      (networkSendAll_record env _ _ _ _).trans (hr r h1 h2 h3)
  obtain ⟨fs, hf, hno', hcross, hfail'⟩ : ∃ fs, (wsCloseWorld env code reason s).log =
      s.world.log ++ .wsClose s.ws.conn reason :: fs ∧ NoResume fs ∧
      (∀ x d, .sendFailed x ∈ es → .wrote x d ∉ fs) ∧
      ∀ x, .sendFailed x ∈ fs → s.world.sockAt s.ws.wsFd = some x := by
    unfold wsCloseWorld
    rcases hsends with heq | ⟨hreason, y, data, b, hy, hsent⟩
    · exact ⟨[], by rw [heq]; simp, List.Pairwise.nil, by simp, by simp⟩
    · obtain ⟨fs, hf, hno', hall, -⟩ := hsent.events
      refine ⟨fs, by rw [hf]; simp, hno', fun x d hx hd => ?_, fun x hx => ?_⟩
      · rcases hall _ hd with h | ⟨d', h⟩
        · cases h
        · cases h
          rcases hfail _ hx with ⟨h, -⟩ | ⟨-, h⟩
          · exact hreason h
          · exact h hy
      · rcases hall _ hx with h | ⟨d', h⟩
        · cases h
          exact hy
        · cases h
  have hlog : (wsClose env code reason s).world.log =
      l ++ (es ++ (.wsClose s.ws.conn reason :: fs) ++
        ((wsCloseWorld env code reason s).sockAt s.ws.wsFd).toList.map .closed ++
        (((wsCloseWorld env code reason s).closeFd s.ws.wsFd).sockAt s.ws.peerFd).toList.map .closed) := by
    rw [wsClose_world, closeFd_log, closeFd_log, hf, he]
    simp
  have hnote : ∀ x, .sendFailed x ∉ [Event.wsClose s.ws.conn reason] := by simp
  have hclosed : ∀ o : Option Nat, (∀ x, .sendFailed x ∉ o.toList.map Event.closed) ∧
      ∀ x d, .wrote x d ∉ o.toList.map Event.closed := by
    intro o
    cases o <;> simp
  refine ⟨_, hlog, ?_, fun x hx => ⟨rfl, wsClose_gone env code reason hn ?_⟩⟩
  · refine NoResume.append_quiet (NoResume.append_quiet ?_ (hclosed _).1 (hclosed _).2) (hclosed _).1
      (hclosed _).2
    refine noResume_append.mpr ⟨hno, ?_, fun x d hx hd => ?_⟩
    · rw [← List.singleton_append]
      exact noResume_append.mpr ⟨noResume_of_unfailing hnote, hno', fun x d hx => absurd hx (hnote x)⟩
    · rcases List.mem_cons.mp hd with h | h
      · cases h
      · exact hcross x d hx h
  · rw [List.mem_append, List.mem_append, List.mem_append, List.mem_cons] at hx
    rcases hx with ((hx | hx | hx) | hx) | hx
    · exact (hfail x hx).imp And.right And.left
    · cases hx
    · exact .inl (hfail' x hx)
    · exact absurd hx ((hclosed _).1 x)
    · exact absurd hx ((hclosed _).1 x)

/-- `ws_close`, where no error response is cut short. -/
theorem wsClose_deed (code : WsCloseReason) (reason : Option Bytes)
    (hn : Numbered s.world.fds s.world.socks)
    (hc : code = .http → ∀ r, reason = some r → r ∈ httpErrors)
    (hr : ∀ r, reason = some r → s.ws.state = .wsHttp → code = .http →
      (networkSendAll env s.ws.wsFd [ascii "HTTP/1.1 ", r] s.world).1 = false) :
    Deed env s (wsClose env code reason s) :=
  ⟨.single (.close code reason hc), wsClose_failsLast env code reason hn (List.append_nil _).symm
    List.Pairwise.nil (by simp) hr⟩

end

end Websocksy

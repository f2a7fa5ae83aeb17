import Websocksy.ControlReplies

/-!
# What a client is sent

A client is sent nothing, or one error response, or one 101 response and then frames of which
only the last may close the connection (`Outbound`).  `Stage` says which messages go with which
state, and `Course` follows a connection that has the client's socket.
-/

namespace Websocksy

open Buffer CString Lines FdTable Machine

variable {φ : Type}

/-- The subprotocol that the 101 response names. -/
def Websocket.chosen (ws : Websocket φ) : Option Bytes := ws.protocol[ws.peer.protocol]?

/-- All that a client is sent. -/
inductive Outbound (env : Env φ) : Bytes → Prop
  | nothing : Outbound env []
  | refused (r : Bytes) (h : r ∈ httpErrors) :
      Outbound env (ascii "HTTP/1.1 " ++ r ++ ascii "\r\n\r\n")
  | upgraded (ws : Websocket φ) (hp : ∀ p ∈ ws.chosen, ¬crlf <:+: p)
      (fs : List (WsOperation × Bytes)) (hf : ∀ f ∈ fs.dropLast, f.1 ≠ .close) :
      Outbound env ((upgradeResponse env ws).flatten ++ fs.flatMap fun f => wsEncode f.1 f.2)

/-- What each client was sent since it was accepted, all of it or up to a failed send. -/
def OutboundProtocol (env : Env φ) (c : Core φ) : Prop :=
  ∀ l conn x l', c.world.log = l ++ .accepted conn x :: l' →
    ∃ b, Outbound env b ∧
      (written x l' = b ∨ .sendFailed x ∈ l' ∧ written x l' <+: b)

/-! ## The condition on a step -/

/-- If the line completes a handshake for which a peer is found, then it is the first to do so,
and the subprotocol for the response is a single line. -/
def HandshakeOnce (env : Env φ) (line : Bytes) (s : Conn φ) : Prop :=
  cstr line = [] → s.ws.ready = true → (clientConnect env s).1 = false →
    s.ws.state ≠ .wsOpen ∧
    (s.ws.state = .wsHttp → ∀ p ∈ (clientConnect env s).2.ws.chosen, ¬crlf <:+: p)

/-- The next line of the line loop. -/
def LineOnce (env : Env φ) (p : Nat × Conn φ) : Prop :=
  ∀ l ∈ nextLine p,
    HandshakeOnce env (slice p.2.ws.readBuffer 0 p.2.ws.readBufferOffset ++ l.1) p.2

/-- The lines of a call of `ws_data`. -/
def AnswersOnce (env : Env φ) (answer : Option Bytes) (s : Conn φ) : Prop :=
  ∀ data ∈ (s.received answer).1, s.ws.state ≠ .wsOpen →
    Passes (nextScan env) (LineOnce env) data.length
      (data.length, ⟨s.ws.filled data, (s.received answer).2⟩)

instance (env : Env φ) (line : Bytes) (s : Conn φ) : Decidable (HandshakeOnce env line s) :=
  inferInstanceAs (Decidable (cstr line = [] → s.ws.ready = true → (clientConnect env s).1 = false →
    s.ws.state ≠ .wsOpen ∧
    (s.ws.state = .wsHttp → ∀ p ∈ (clientConnect env s).2.ws.chosen, ¬crlf <:+: p)))

instance (env : Env φ) : DecidablePred (LineOnce env) := fun p =>
  inferInstanceAs (Decidable (∀ l ∈ nextLine p,
    HandshakeOnce env (slice p.2.ws.readBuffer 0 p.2.ws.readBufferOffset ++ l.1) p.2))

instance (env : Env φ) (answer : Option Bytes) (s : Conn φ) : Decidable (AnswersOnce env answer s) :=
  inferInstanceAs (Decidable (∀ data ∈ (s.received answer).1, s.ws.state ≠ .wsOpen →
    Passes (nextScan env) (LineOnce env) data.length
      (data.length, ⟨s.ws.filled data, (s.received answer).2⟩)))

/-- What a step must not do: go on after a failed send, answer a second handshake or one with a
line break in its subprotocol, or send a ping in the HTTP phase. -/
def OutboundKept (env : Env φ) (c : Core φ) (i : Input) : Prop :=
  SendsComplete env c i ∧
  (match c.loc, i with
  | .client n, .serve answer _ =>
    ∀ ws ∈ c.sock[n]?, ws.wsFd.any (· ∈ c.readFds) →
      AnswersOnce env answer ⟨{ ws with lastEvent := c.now }, c.world⟩
  | _, _ => True) ∧
  ∀ ws ∈ c.pingCall env i, ws.state = .wsOpen ∨ ws.state = .wsClosed

instance (env : Env φ) (c : Core φ) (i : Input) : Decidable (OutboundKept env c i) :=
  match hl : c.loc, hi : i with
  | .client n, .serve answer fuel =>
    decidable_of_iff (SendsComplete env c (.serve answer fuel) ∧
      (∀ ws ∈ c.sock[n]?, ws.wsFd.any (· ∈ c.readFds) →
        AnswersOnce env answer ⟨{ ws with lastEvent := c.now }, c.world⟩) ∧
      ∀ ws ∈ c.pingCall env (.serve answer fuel), ws.state = .wsOpen ∨ ws.state = .wsClosed)
      (by simp [OutboundKept, hl])
  | .select, _ | .peer _, _ | .ping _, _ | .done, _ | _, .select .. | _, .quit =>
    decidable_of_iff (SendsComplete env c i ∧
      ∀ ws ∈ c.pingCall env i, ws.state = .wsOpen ∨ ws.state = .wsClosed)
      (by simp [OutboundKept, hl, hi])

/-! ## Stages -/

/-- The messages that a connection in the state was sent. -/
inductive Stage (env : Env φ) : WsState → List Message → Prop
  | new : Stage env .wsNew []
  | http : Stage env .wsHttp []
  | opened (ws : Websocket φ) (hp : ∀ p ∈ ws.chosen, ¬crlf <:+: p)
      (fs : List (WsOperation × Bytes)) (hf : ∀ f ∈ fs, f.1 ≠ .close) :
      Stage env .wsOpen (.text (upgradeResponse env ws).flatten :: fs.map fun f => .frame f.1 f.2)
  | nothing : Stage env .wsClosed []
  | refused (r : Bytes) (h : r ∈ httpErrors) :
      Stage env .wsClosed [.text (ascii "HTTP/1.1 "), .text r, .text (ascii "\r\n\r\n")]
  | closed (ws : Websocket φ) (hp : ∀ p ∈ ws.chosen, ¬crlf <:+: p)
      (fs : List (WsOperation × Bytes)) (hf : ∀ f ∈ fs.dropLast, f.1 ≠ .close) :
      Stage env .wsClosed (.text (upgradeResponse env ws).flatten :: fs.map fun f => .frame f.1 f.2)

section

variable {env : Env φ} {st : WsState} {ms : List Message} {x : Nat} {es l : List Event}

/-- What a connection was sent it may have been sent when it is closed. -/
theorem Stage.toClosed (h : Stage env st ms) : Stage env .wsClosed ms := by
  cases h with
  | new => exact .nothing
  | http => exact .nothing
  | opened ws hp fs hf => exact .closed ws hp fs fun f hm => hf f ((List.dropLast_sublist fs).subset hm)
  | nothing => exact .nothing
  | refused r h => exact .refused r h
  | closed ws hp fs hf => exact .closed ws hp fs hf

theorem Stage.outbound (h : Stage env st ms) : Outbound env (ms.flatMap Message.bytes) := by
  cases h.toClosed with
  | nothing => exact .nothing
  | refused r hr =>
      have hout : Outbound env _ := .refused r hr
      simpa [Message.bytes] using hout
  | closed ws hp fs hf =>
      have hout : Outbound env _ := .upgraded ws hp fs hf
      simpa [Message.bytes, List.flatMap_map] using hout

/-- What `ws_close` sends is the last. -/
theorem Stage.close {ws : Websocket φ} {code : WsCloseReason} {reason : Option Bytes}
    (h : Stage env ws.state ms) (hr : code = .http → ∀ r, reason = some r → r ∈ httpErrors) :
    Stage env .wsClosed (ms ++ closeMessages ws code reason) := by
  unfold closeMessages
  cases reason with
  | none =>
      rw [List.append_nil]
      exact h.toClosed
  | some r =>
      dsimp only
      split
      · next ho =>
        rw [ho] at h
        cases h with
        | opened ws hp fs hf =>
            have hlast : Stage env .wsClosed _ := .closed ws hp (fs ++ [(.close, r)]) (by simpa using hf)
            simpa using hlast
      · split
        · next hc =>
          rw [hc.1] at h
          cases h with
          | http => exact .refused r (hr hc.2 r rfl)
        · rw [List.append_nil]
          exact h.toClosed

theorem Stage.frame {op : WsOperation} (h : Stage env .wsOpen ms) (data : Bytes) (ho : op ≠ .close) :
    Stage env .wsOpen (ms ++ [.frame op data]) := by
  cases h with
  | opened ws hp fs hf =>
      have hnext : Stage env .wsOpen _ := .opened ws hp (fs ++ [(op, data)]) (by
        intro f hm
        rcases List.mem_append.mp hm with hm | hm
        · exact hf f hm
        · rw [List.mem_singleton.mp hm]
          exact ho)
      simpa using hnext

/-- Where nothing is written after a failed send, what is written is all of the messages, or the
front of them. -/
theorem spoken_cutShort (h : Spoken x es ms) (hno : NoResume es) :
    written x es = ms.flatMap Message.bytes ∨
    .sendFailed x ∈ es ∧ written x es <+: ms.flatMap Message.bytes := by
  induction h with
  | nil => exact .inl rfl
  | whole m ds hd h ih =>
      rw [noResume_append] at hno
      rw [written_append, written_wrote, hd, List.flatMap_cons]
      rcases ih hno.2.1 with he | ⟨hf, hp⟩
      · exact .inl (by rw [he])
      · exact .inr ⟨List.mem_append_right _ hf, (List.prefix_append_right_inj _).mpr hp⟩
  | @cut m ds es ms hd h ih =>
      right
      refine ⟨by simp, ?_⟩
      have hafter : written x es = [] := by
        have hquiet : ∀ d, .wrote x d ∉ es := by
          intro d hm
          have hpair := (noResume_append.mp hno).2.1
          rw [NoResume, List.pairwise_cons] at hpair
          exact resumedBy_eq_false.mp (hpair.1 _ hm) x d rfl rfl
        unfold written
        rw [List.flatMap_eq_nil_iff]
        intro e he
        cases e with
        | wrote y d =>
            have hne : y ≠ x := by
              rintro rfl
              exact hquiet d he
            exact if_neg hne
        | _ => rfl
      have hfirst : written x (.sendFailed x :: es) = written x es := rfl
      rw [written_append, written_wrote, hfirst, hafter, List.append_nil, List.flatMap_cons]
      exact hd.trans (List.prefix_append _ _)

end

/-! ## A connection and the client's socket -/

/-- Since the log was `l`, the socket was sent what goes with the state of the connection that has
it as its client. -/
def Course (env : Env φ) (x : Nat) (l : List Event) (s : Conn φ) : Prop :=
  ∃ ms, Tells x l s.world.log ms ∧ Stage env .wsClosed ms ∧
    (s.world.sockAt s.ws.wsFd = some x → Stage env s.ws.state ms)

/-- Frames only after the HTTP phase, and none that closes the connection. -/
def Scope.outbound : Scope where
  reads := True
  line _ := False
  upgrade _ := False
  frame st := st = .wsOpen ∨ st = .wsClosed
  opcode op := op ≠ .close
  frame_open := .inl rfl
  opcode_own op hm := by
    rintro rfl
    simp at hm

section

variable {env : Env φ} {s t : Conn φ} {x : Nat} {l : List Event}

/-- A handler sends nothing to a socket that is not its connection's. -/
theorem Local.tells_apart (h : Local s t) (hx : s.Apart x) (hne : s.world.sockAt s.ws.wsFd ≠ some x) :
    Tells x s.world.log t.world.log [] ∧ t.world.sockAt t.ws.wsFd ≠ some x := by
  have hown : ¬s.Own x := by
    rintro (⟨fd, hfd, he⟩ | hle)
    · simp only [Websocket.held, List.mem_append, Option.mem_toList] at hfd
      rcases hfd with hfd | hfd
      · rw [← show s.ws.wsFd = some fd from hfd] at he
        exact hne he
      · rw [← show s.ws.peerFd = some fd from hfd] at he
        exact hx.2 he
    · exact absurd hx.1 (Nat.not_lt.mpr hle)
  obtain ⟨es, he, hes⟩ := h.log
  refine ⟨.quiet he fun e hm => ?_, fun hfd => hown (h.own x (own_of_fd (.inl rfl) hfd))⟩
  have hwithin := hes e hm
  cases e with
  | wrote y d =>
      have hy : y ≠ x := by
        rintro rfl
        exact hown hwithin
      simpa [Event.sendsTo] using hy
  | sendFailed y =>
      have hy : y ≠ x := by
        rintro rfl
        exact hown hwithin
      simpa [Event.sendsTo] using hy
  | _ => rfl

theorem Course.apart (h : Course env x l s) (hl : Local s t) (hx : s.Apart x)
    (hne : s.world.sockAt s.ws.wsFd ≠ some x) : Course env x l t := by
  obtain ⟨ms, hms, hclosed, -⟩ := h
  obtain ⟨htells, hne'⟩ := hl.tells_apart hx hne
  have hall := hms.trans htells
  rw [List.append_nil] at hall
  exact ⟨ms, hall, hclosed, fun h => absurd h hne'⟩

/-- Nothing is sent, and the state is the same. -/
theorem Course.quiet (h : Course env x l s) (ht : Tells x s.world.log t.world.log [])
    (hfd : t.world.sockAt t.ws.wsFd = some x → s.world.sockAt s.ws.wsFd = some x)
    (hst : t.ws.state = s.ws.state) : Course env x l t := by
  obtain ⟨ms, hms, hclosed, hstage⟩ := h
  have hall := hms.trans ht
  rw [List.append_nil] at hall
  exact ⟨ms, hall, hclosed, fun h => hst ▸ hstage (hfd h)⟩

theorem Course.record (h : Course env x l s) (e : Event) (he : e.sendsTo x = false) :
    Course env x l ⟨s.ws, s.world.record e⟩ :=
  h.quiet (.quiet (World.record_log _ _) (by simpa using he)) id rfl

theorem Course.close {code : WsCloseReason} {reason : Option Bytes} (h : Course env x l s)
    (hx : s.Apart x) (hr : code = .http → ∀ r, reason = some r → r ∈ httpErrors) :
    Course env x l (wsClose env code reason s) := by
  by_cases hfd : s.world.sockAt s.ws.wsFd = some x
  · obtain ⟨ms, hms, -, hstage⟩ := h
    refine ⟨_, hms.trans (wsClose_tells code reason hfd), (hstage hfd).close hr, fun he => ?_⟩
    cases he
  · exact h.apart (wsClose_local _ _ _) hx hfd

/-- The 101 response is the first that is sent. -/
theorem wsUpgradeHttp_course (hr : s.ws.ready = true) (hi : StateInv env s.ws) (hx : s.Apart x)
    (hn : s.ws.state ≠ .wsNew)
    (ho : (clientConnect env s).1 = false → s.ws.state ≠ .wsOpen ∧
      (s.ws.state = .wsHttp → ∀ p ∈ (clientConnect env s).2.ws.chosen, ¬crlf <:+: p))
    (h : Course env x l s) : Course env x l (wsUpgradeHttp env s).2 := by
  by_cases hfd : s.world.sockAt s.ws.wsFd = some x
  · rw [wsUpgradeHttp_ready env hr]
    have hcases := clientConnect_cases env s
    generalize clientConnect env s = c at hcases ho ⊢
    have herror : ascii "500 Peer connection failed" ∈ httpErrors := List.mem_cons_self
    have hasked (n : Nat) : Tells x s.world.log (s.world.asked s.ws n).log [] :=
      .quiet (World.asked_log _ _ _) (by simp [Event.sendsTo])
    have hlost (w : World) : w.sockAt none ≠ some x := by
      intro he
      cases he
    cases hcases with
    | refused p =>
        have hc : Course env x l ⟨{ s.ws with peer := p }, s.world.asked s.ws s.world.connects⟩ :=
          h.quiet (hasked _) id rfl
        exact hc.close hx fun _ r he => by rwa [← Option.some.inj he]
    | failed p =>
        have hc : Course env x l
            ⟨{ s.ws with peer := p, peerFd := none }, s.world.asked s.ws (s.world.connects + 1)⟩ :=
          h.quiet (hasked _) id rfl
        exact hc.close ⟨hx.1, hlost _⟩ fun _ r he => by rwa [← Option.some.inj he]
    | peer p f hf hoffers =>
        obtain ⟨hopen, hchosen⟩ := ho rfl
        have hhttp : s.ws.state = .wsHttp := by
          cases hst : s.ws.state with
          | wsNew => exact absurd hst hn
          | wsHttp => rfl
          | wsOpen => exact absurd hst hopen
          | wsClosed =>
              rw [(hi.closed hst).1] at hfd
              exact absurd hfd (hlost _)
        have hline := hchosen hhttp
        obtain ⟨ms, hms, -, hstage⟩ := h
        -- nothing was sent before
        have hnil : ms = [] := by
          have hst := hstage hfd
          rw [hhttp] at hst
          cases hst
          rfl
        subst hnil
        simp only [Bool.false_eq_true, if_false]
        generalize hws : ({ s.ws with peer := p, peerFd := some (lowest s.world.fds) } : Websocket φ) = ws
          at hline ⊢
        have hwsFd : s.ws.wsFd = ws.wsFd := by rw [← hws]
        have hpeer : Tells x s.world.log
            ((s.world.asked s.ws (s.world.connects + 1)).opened s.ws.conn).log [] :=
          (hasked _).trans (.quiet (World.opened_log _ _) (by simp [Event.sendsTo]))
        have hfd' : ((s.world.asked s.ws (s.world.connects + 1)).opened s.ws.conn).sockAt ws.wsFd =
            some x := by
          rw [hwsFd] at hfd
          cases hw : ws.wsFd with
          | none =>
              rw [hw] at hfd
              exact absurd hfd (hlost _)
          | some fd =>
              rw [hw] at hfd
              exact entry_install_of_some hfd
        rw [hwsFd]
        generalize (s.world.asked s.ws (s.world.connects + 1)).opened s.ws.conn = w at hpeer hfd' ⊢
        have hresponse : Tells x w.log (networkSendAll env ws.wsFd (upgradeResponse env ws) w).2.log
            [.text (upgradeResponse env ws).flatten] := networkSendAll_tells hfd' rfl
        have hstill : (networkSendAll env ws.wsFd (upgradeResponse env ws) w).2.sockAt ws.wsFd =
            some x := by rw [(networkSendAll_onlySends env ws.wsFd _ w).sockAt, hfd']
        generalize networkSendAll env ws.wsFd (upgradeResponse env ws) w = r at hresponse hstill ⊢
        have htold := (hms.trans hpeer).trans hresponse
        split
        · have hclosed : Tells x r.2.log (wsClose env .http none ⟨ws, r.2⟩).world.log
              (closeMessages ws .http none) := wsClose_tells .http none hstill
          refine ⟨_, htold.trans hclosed, ?_, fun he => absurd he (hlost _)⟩
          exact .closed ws hline [] (by simp)
        · refine ⟨_, htold, .closed ws hline [] (by simp), fun _ => ?_⟩
          exact .opened ws hline [] (by simp)
  · exact h.apart (wsUpgradeHttp_local hr) hx hfd

/-! ## Handlers -/

/-- What `client_connect` makes of the connection does not depend on the log. -/
theorem clientConnect_record_ws (env : Env φ) (s : Conn φ) (e : Event) :
    (clientConnect env ⟨s.ws, s.world.record e⟩).2.ws = (clientConnect env s).2.ws := by
  unfold clientConnect
  dsimp only [World.record]
  cases (clientResolve (env.query s.world.queries s.ws.requestPath s.ws.protocol s.ws.header)).2 with
  | none => rfl
  | some a =>
      dsimp only
      cases env.connect s.world.connects a <;> rfl

theorem wsTakeLine_course {line : Bytes} (hi : StateInv env s.ws) (hx : s.Apart x)
    (ho : HandshakeOnce env line s) (h : Course env x l s) :
    Course env x l (wsTakeLine env line s) := by
  have hnote : Course env x l ⟨s.ws, s.world.record (.line s.ws.conn s.ws.state line)⟩ :=
    h.record _ rfl
  have hclose (r : Bytes) (hr : r ∈ httpErrors) : Course env x l (wsClose env .http (some r)
      ⟨s.ws, s.world.record (.line s.ws.conn s.ws.state line)⟩) :=
    hnote.close hx fun _ r' he => by rwa [← Option.some.inj he]
  unfold wsTakeLine
  dsimp only
  split
  · next hn =>
    split
    · exact hnote
    · next path _ =>
      obtain ⟨ms, hms, hclosed, hstage⟩ := hnote
      refine ⟨ms, hms, hclosed, fun hfd => ?_⟩
      have hst := hstage hfd
      rw [show (⟨s.ws, s.world.record (.line s.ws.conn s.ws.state line)⟩ : Conn φ).ws.state = .wsNew
        from hn] at hst
      cases hst
      exact .http
  · next hn =>
    unfold wsHandleLine
    cases hl : cstr line with
    | nil =>
        dsimp only
        by_cases hready : s.ws.ready = true
        · refine wsUpgradeHttp_course (by exact hready) hi hx hn (fun hc => ?_) hnote
          rw [clientConnect_record] at hc
          obtain ⟨hopen, hchosen⟩ := ho hl hready hc
          exact ⟨hopen, fun hst => by rw [clientConnect_record_ws]; exact hchosen hst⟩
        · by_cases hv : s.ws.websocketVersion ≠ 13
          · rw [wsUpgradeHttp_version env (by simpa using hready) (by exact hv)]
            exact hclose _ (by simp [httpErrors])
          · unfold wsUpgradeHttp
            rw [if_neg (by exact hready), if_neg (by exact hv)]
            exact hnote
    | cons c cs =>
        dsimp only
        split
        · exact hclose _ (by simp [httpErrors])
        · split
          · exact hclose _ (by simp [httpErrors])
          · next tag value _ =>
            obtain ⟨hs, ver, key, up, ps, he⟩ := wsHeader_eq tag (ltrim value) s.ws
            rw [he]
            exact hnote.quiet .refl id rfl

/-- **The line loop** answers one handshake at most. -/
theorem wsScan_course (bytesRead : Nat) (hi : StateInv env s.ws) (hx : s.Apart x)
    (hp : Passes (nextScan env) (LineOnce env) bytesRead (bytesRead, s)) (h : Course env x l s) :
    Course env x l (wsScan env bytesRead 0 bytesRead s).2 := by
  induction hb : bytesRead using Nat.strongRecOn generalizing bytesRead s with
  | ind n ih =>
      subst hb
      rw [wsScan_line]
      cases hc : cutLine (slice s.ws.readBuffer s.ws.readBufferOffset bytesRead) with
      | none => exact h
      | some p =>
          obtain ⟨line, r⟩ := p
          have hlt : r.length < bytesRead := by
            have := lines.shorter hc
            rwa [length_slice] at this
          obtain ⟨k, rfl⟩ : ∃ k, bytesRead = k + 1 := ⟨bytesRead - 1, by omega⟩
          obtain ⟨hline, hrest⟩ := hp
          have hnext : nextLine (k + 1, s) = some (line, r) := hc
          rw [nextScan, hnext] at hrest
          obtain ⟨halike, -, -, -⟩ := wsDropLine_spec env hc
          have htaken := wsTakeLine_course hi hx (hline (line, r) hnext) h
          have hacts : Acts env Scope.all s
              (wsDropLine line.length r.length (wsHandOver env line.length s)) :=
            (wsTakeLine_acts _ trivial fun _ _ => trivial).trans (.of_alike trivial halike.symm)
          have hworld := halike.world
          rw [view_all, view_all] at hworld
          refine ih r.length hlt r.length (hacts.stateInv hi).1 (hacts.apart hx)
            (Passes.mono hrest (by omega)) (htaken.quiet ?_ ?_ ?_) rfl
          · rw [hworld]
            exact .refl
          · rw [hworld, bare_congr Websocket.wsFd halike.ws fun _ => rfl]
            exact id
          · exact bare_congr Websocket.state halike.ws fun _ => rfl

theorem Act.course (h : Act env Scope.outbound s t) (hi : StateInv env s.ws) (hx : s.Apart x)
    (hc : Course env x l s) : Course env x l t := by
  by_cases hfd : s.world.sockAt s.ws.wsFd = some x
  · cases h with
    | bare ws h hr =>
        obtain ⟨rb, ro, le, rfl⟩ := bare_eq h.symm
        exact hc.quiet .refl id rfl
    | peerBuffer b k fd h => exact hc.quiet .refl id rfl
    | note e h =>
        refine hc.record e ?_
        cases e <;> first | rfl | cases h
    | line data h => cases h
    | path p h =>
        obtain ⟨ms, hms, hclosed, hstage⟩ := hc
        refine ⟨ms, hms, hclosed, fun hfd => ?_⟩
        have hst := hstage hfd
        rw [h] at hst
        cases hst
        exact .http
    | header tag value h hn => cases h
    | upgrade h hn hr => cases h
    | close code reason h => exact hc.close hx h
    | forward data h =>
        have hsends := networkSend_onlySends env s.ws.peerFd data s.world
        exact hc.quiet (hsends.tells_apart hx.2) (fun he => by rwa [hsends.sockAt] at he) rfl
    | frame op data h ho =>
        have hopen : s.ws.state = .wsOpen := by
          rcases h with h | h
          · exact h
          · rw [(hi.closed h).1] at hfd
            cases hfd
        obtain ⟨ms, hms, -, hstage⟩ := hc
        have hst := hstage hfd
        rw [hopen] at hst
        have hnext := hst.frame data ho
        refine ⟨_, hms.trans (wsSendFrame_tells op data hfd), hnext.toClosed, fun _ => ?_⟩
        rwa [← hopen] at hnext
  · exact hc.apart h.isLocal hx hfd

theorem Acts.course (h : Acts env Scope.outbound s t) (hi : StateInv env s.ws) (hx : s.Apart x)
    (hc : Course env x l s) : Course env x l t :=
  (h.invariant (P := fun s => StateInv env s.ws ∧ s.Apart x ∧ Course env x l s)
    (fun _ _ ha hs => ⟨ha.stateInv hs.1, ha.apart hs.2.1, ha.course hs.1 hs.2.1 hs.2.2⟩)
    ⟨hi, hx, hc⟩).2.2

/-- `ws_data`, where its lines answer one handshake at most. -/
theorem wsData_course {answer : Option Bytes} (hi : StateInv env s.ws) (hx : s.Apart x)
    (ho : AnswersOnce env answer s) (ht : wsData env answer s = some t) (h : Course env x l s) :
    Course env x l t := by
  cases wsData_cases ht with
  | nothing r w hr hnone =>
      have hrecv : Course env x l ⟨s.ws, w⟩ := by
        cases hr with
        | closed hy => exact h
        | failed y hy ha => exact h.record _ rfl
        | data y b hy ha => exact h.record _ rfl
      have hx' : Conn.Apart ⟨s.ws, w⟩ x := by cases hr <;> exact hx
      exact hrecv.close hx' fun he => by cases he
  | data y b data u hy hb hd hne hu =>
      have hrecv : s.received answer = (some data, s.world.record (.received y data)) := by
        unfold Conn.received recv
        rw [hy, hb, hd]
      have hfilled : Course env x l ⟨s.ws.filled data, s.world.record (.received y data)⟩ :=
        (h.record (.received y data) rfl).quiet .refl id rfl
      have hacts : Acts env Scope.all ⟨s.ws, s.world.record (.received y data)⟩
          ⟨s.ws.filled data, s.world.record (.received y data)⟩ := .single (.bare _ rfl trivial)
      have hinv : StateInv env (s.ws.filled data) := (hacts.stateInv hi).1
      have hx' : Conn.Apart ⟨s.ws.filled data, s.world.record (.received y data)⟩ x := hx
      have honce := ho data (by rw [hrecv]; rfl)
      rw [hrecv] at honce
      have hswitch : Course env x l u ∧ u.Apart x := by
        have hall : Acts env Scope.all _ u := wsDataSwitch_acts trivial
          (fun _ => wsScan_acts_all env data.length _) hu
        refine ⟨?_, hall.apart hx'⟩
        have hscan (hne : s.ws.state ≠ .wsOpen) := wsScan_course data.length hinv hx' (honce hne) hfilled
        unfold wsDataSwitch at hu
        split at hu
        · next hst =>
          cases hu
          exact (hscan (by rw [show s.ws.state = .wsNew from hst]; decide)).quiet .refl id rfl
        · next hst =>
          cases hu
          exact (hscan (by rw [show s.ws.state = .wsHttp from hst]; decide)).quiet .refl id rfl
        · next hst =>
          have hframes : Acts env Scope.outbound ⟨{ s.ws.filled data with
              readBufferOffset := (s.ws.filled data).readBufferOffset + data.length },
              s.world.record (.received y data)⟩ u := wsFrames_acts trivial _ hst hu
          have hbare : Acts env Scope.outbound ⟨s.ws.filled data, s.world.record (.received y data)⟩
              ⟨{ s.ws.filled data with
                readBufferOffset := (s.ws.filled data).readBufferOffset + data.length },
                s.world.record (.received y data)⟩ := .single (.bare _ rfl trivial)
          exact (hbare.trans hframes).course hinv hx' hfilled
        · cases hu
          exact hfilled
      split
      · exact hswitch.1.close hswitch.2 fun he => by cases he
      · exact hswitch.1

end

end Websocksy

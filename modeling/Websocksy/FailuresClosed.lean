import Websocksy.FailedSends

/-!
# Handlers and failed sends

Each handler, where none of the three places goes wrong: a send that fails is the last on
its socket, and closes the connection (`FailsLast`).
-/

namespace Websocksy

open Buffer CString Lines FdTable Machine

variable {φ : Type}

section

variable {env : Env φ} {s t u : Conn φ}

/-! ## Lines -/

/-- Whether a peer is found does not depend on the log. -/
theorem clientConnect_record (env : Env φ) (s : Conn φ) (e : Event) :
    (clientConnect env ⟨s.ws, s.world.record e⟩).1 = (clientConnect env s).1 := by
  unfold clientConnect
  dsimp only [World.record]
  cases (clientResolve (env.query s.world.queries s.ws.requestPath s.ws.protocol s.ws.header)).2 with
  | none => rfl
  | some a =>
      dsimp only
      cases env.connect s.world.connects a <;> rfl

/-- A line is refused, with what `ws_close` is called on. -/
structure Refused (env : Env φ) (line : Bytes) (s u : Conn φ) (r : Bytes) : Prop where
  status : wsRefusal env line s = some r
  taken : wsTakeLine env line s = wsClose env .http (some r) u
  wsFd : u.ws.wsFd = s.ws.wsFd
  state : u.ws.state = s.ws.state
  fds : u.world.fds = s.world.fds
  socks : u.world.socks = s.world.socks
  sends : u.world.sends = s.world.sends
  log : ∃ es, u.world.log = s.world.log ++ es ∧ ∀ x, .sendFailed x ∉ es

/-- A line that ends the HTTP phase is refused, or a peer is found for the connection. -/
theorem wsTakeLine_refused (env : Env φ) {line : Bytes} (h : lineEnds s.ws line = true) :
    (∃ u r, Refused env line s u r) ∨
    s.ws.ready = true ∧
      (clientConnect env ⟨s.ws, s.world.record (.line s.ws.conn s.ws.state line)⟩).1 = false ∧
      wsTakeLine env line s =
        (wsUpgradeHttp env ⟨s.ws, s.world.record (.line s.ws.conn s.ws.state line)⟩).2 := by
  have hlog : ∃ es, (s.world.record (.line s.ws.conn s.ws.state line)).log = s.world.log ++ es ∧
      ∀ x, .sendFailed x ∉ es := ⟨[.line s.ws.conn s.ws.state line], rfl, by simp⟩
  unfold lineEnds at h
  by_cases hn : s.ws.state = .wsNew
  · simp [hn] at h
  · rw [if_neg hn] at h
    have htake : wsTakeLine env line s = (wsHandleLine env (cstr line)
        ⟨s.ws, s.world.record (.line s.ws.conn s.ws.state line)⟩).2 := by
      unfold wsTakeLine
      rw [if_neg hn]
    unfold wsHandleLine at htake
    cases hl : cstr line with
    | nil =>
        simp only [hl] at h htake
        cases hr : s.ws.ready with
        | true =>
            cases hc : (clientConnect env ⟨s.ws, s.world.record (.line s.ws.conn s.ws.state line)⟩).1 with
            | false => exact .inr ⟨rfl, rfl, htake⟩
            | true =>
                left
                rw [wsUpgradeHttp_ready env (by exact hr)] at htake
                have hcases := clientConnect_cases env
                  ⟨s.ws, s.world.record (.line s.ws.conn s.ws.state line)⟩
                have hstatus : wsRefusal env line s = some (ascii "500 Peer connection failed") := by
                  unfold wsRefusal
                  rw [hl]
                  dsimp only
                  rw [if_pos hr, if_pos]
                  rw [← hc, clientConnect_record]
                generalize clientConnect env ⟨s.ws, s.world.record (.line s.ws.conn s.ws.state line)⟩ = c
                  at hc hcases htake
                cases hcases with
                | refused p => exact ⟨_, _, hstatus, htake, rfl, rfl, rfl, rfl, rfl, _, by simp; rfl, by simp⟩
                | failed p => exact ⟨_, _, hstatus, htake, rfl, rfl, rfl, rfl, rfl, _, by simp; rfl, by simp⟩
                | peer p f hf ho => cases hc
        | false =>
            left
            have hv : s.ws.websocketVersion ≠ 13 := by simpa [hr] using h
            rw [wsUpgradeHttp_version env (by exact hr) (by exact hv)] at htake
            refine ⟨_, _, ?_, htake, rfl, rfl, rfl, rfl, rfl, hlog⟩
            unfold wsRefusal
            rw [hl]
            dsimp only
            rw [if_neg (by simp [hr]), if_pos hv]
    | cons c cs =>
        left
        simp only [hl] at h htake
        by_cases hs : isspace c = true
        · rw [if_pos hs] at htake
          refine ⟨_, _, ?_, htake, rfl, rfl, rfl, rfl, rfl, hlog⟩
          unfold wsRefusal
          rw [hl]
          exact if_pos hs
        · have hcolon : (strchr 58 (c :: cs)).isNone = true := by simpa [hs] using h
          rw [if_neg hs, Option.isNone_iff_eq_none.mp hcolon] at htake
          refine ⟨_, _, ?_, htake, rfl, rfl, rfl, rfl, rfl, hlog⟩
          unfold wsRefusal
          rw [hl]
          dsimp only
          rw [if_neg hs, if_pos hcolon]

theorem wsUpgradeHttp_failsLast (hn : Numbered s.world.fds s.world.socks) (h : s.ws.ready = true)
    (hc : (clientConnect env s).1 = false) : FailsLast s.world.log (wsUpgradeHttp env s).2 := by
  rw [wsUpgradeHttp_ready env h]
  have hcases := clientConnect_cases env s
  generalize clientConnect env s = c at hc hcases ⊢
  cases hcases with
  | refused p => cases hc
  | failed p => cases hc
  | peer p f hf ho =>
      simp only [Bool.false_eq_true, if_false]
      have hpeer : s.peerWorld.log = s.world.log ++
          [.query s.ws.conn s.ws.state s.ws.requestPath, .opened s.ws.conn s.world.socks] := by
        simp [Conn.peerWorld]
      have hquiet : ∀ x, .sendFailed x ∉ [Event.query s.ws.conn s.ws.state s.ws.requestPath,
          .opened s.ws.conn s.world.socks] := by simp
      have hnumbered : Numbered s.peerWorld.fds s.peerWorld.socks := (peerWorld_later s).numbered hn
      rw [show (s.world.asked s.ws (s.world.connects + 1)).opened s.ws.conn = s.peerWorld from rfl]
      refine FailsLast.before hpeer hquiet ?_
      generalize hws : ({ s.ws with peer := p, peerFd := some (lowest s.world.fds) } : Websocket φ) = ws
      have hfd : s.ws.wsFd = ws.wsFd := by rw [← hws]
      rw [hfd]
      cases hy : s.peerWorld.sockAt ws.wsFd with
      | none =>
          rw [networkSendAll_closed env _ hy, upgradeResponse_ne_nil]
          exact wsClose_failsLast env .http none hnumbered (List.append_nil _).symm List.Pairwise.nil
            (by simp) (by simp)
      | some y =>
          have hsent := networkSendAll_sent env (upgradeResponse env ws) hy
          have hsends := networkSendAll_onlySends env ws.wsFd (upgradeResponse env ws) s.peerWorld
          generalize networkSendAll env ws.wsFd (upgradeResponse env ws) s.peerWorld = r
            at hsent hsends ⊢
          obtain ⟨es, he, hno, hall, hok⟩ := hsent.events
          split
          · refine wsClose_failsLast env .http none (hsends.later.numbered hnumbered) he hno ?_ (by simp)
            intro x hx
            rcases hall _ hx with h | ⟨d, h⟩
            · cases h
              exact .inl ⟨rfl, (hsends.sockAt _).trans hy⟩
            · cases h
          · next hsuccess => exact .unfailing he (hok (by simpa using hsuccess))

/-- A line, where its error response is not cut short. -/
theorem wsTakeLine_deed {line : Bytes} (hn : Numbered s.world.fds s.world.socks)
    (hr : ResponseWhole env line s) : Deed env s (wsTakeLine env line s) := by
  refine ⟨wsTakeLine_acts line trivial fun _ _ => trivial, ?_⟩
  have hnote : ∀ x, .sendFailed x ∉ [Event.line s.ws.conn s.ws.state line] := by simp
  cases he : lineEnds s.ws line with
  | false =>
      rw [wsTakeLine_quiet env he]
      exact .unfailing (World.record_log _ _) hnote
  | true =>
      rcases wsTakeLine_refused env he with ⟨u, r, hu⟩ | ⟨hready, hc, htake⟩
      · obtain ⟨es, hlog, hes⟩ := hu.log
        rw [hu.taken]
        refine wsClose_failsLast env .http (some r) ?_ hlog (noResume_of_unfailing hes)
          (fun x hx => absurd hx (hes x)) fun r' hr' hstate _ => ?_
        · rw [hu.fds, hu.socks]
          exact hn
        · obtain rfl := Option.some.inj hr'
          rw [hu.state] at hstate
          rw [hu.wsFd, (networkSendAll_congr env _ ?_ hu.sends).1]
          · exact hr hstate r hu.status
          · rw [World.sockAt, World.sockAt, hu.fds]
      · rw [htake]
        exact .before (World.record_log _ _) hnote (wsUpgradeHttp_failsLast hn hready hc)

/-- **The line loop**, where no error response is cut short. -/
theorem wsScan_deed (bytesRead : Nat) (hn : Numbered s.world.fds s.world.socks)
    (hst : StateInv env s.ws)
    (hp : Passes (nextScan env) (LineWhole env) bytesRead (bytesRead, s)) :
    Deed env s (wsScan env bytesRead 0 bytesRead s).2 := by
  induction hb : bytesRead using Nat.strongRecOn generalizing bytesRead s with
  | ind n ih =>
      subst hb
      rw [wsScan_line]
      cases hc : cutLine (slice s.ws.readBuffer s.ws.readBufferOffset bytesRead) with
      | none => exact .refl
      | some p =>
          obtain ⟨l, r⟩ := p
          have hlt : r.length < bytesRead := by
            have := lines.shorter hc
            rwa [length_slice] at this
          obtain ⟨k, rfl⟩ : ∃ k, bytesRead = k + 1 := ⟨bytesRead - 1, by omega⟩
          obtain ⟨hline, hrest⟩ := hp
          have hnext : nextLine (k + 1, s) = some (l, r) := hc
          obtain ⟨halike, -, -, -⟩ := wsDropLine_spec env hc
          have htaken : Deed env s (wsTakeLine env (slice s.ws.readBuffer 0 s.ws.readBufferOffset ++ l) s) :=
            wsTakeLine_deed hn (hline (l, r) hnext)
          have hdropped : Deed env s (wsDropLine l.length r.length (wsHandOver env l.length s)) := by
            refine ⟨htaken.acts.trans (.of_alike trivial halike.symm), ?_⟩
            have hworld := halike.world
            rw [view_all, view_all] at hworld
            exact htaken.log.congr hworld (bare_congr Websocket.state halike.ws fun _ => rfl)
          rw [nextScan, hnext] at hrest
          exact hdropped.trans hst (ih r.length hlt r.length (hdropped.acts.later.numbered hn)
            (hdropped.acts.stateInv hst).1 (Passes.mono hrest (by omega)) rfl)

/-! ## Frames -/

/-- What is known of a connection in every run. -/
structure Sound (env : Env φ) (s : Conn φ) : Prop where
  state : StateInv env s.ws
  numbered : Numbered s.world.fds s.world.socks
  held : Held 0 s.world.fds s.ws.held

theorem Acts.sound {A : Scope} (h : Acts env A s t) (hs : Sound env s) : Sound env t := by
  refine ⟨(h.stateInv hs.state).1, h.later.numbered hs.numbered, ?_⟩
  have hheld : Held 0 t.world.fds (t.ws.held ++ []) := h.held (by rw [List.append_nil]; exact hs.held)
  rwa [List.append_nil] at hheld

/-- The client and the peer of a connection are two sockets. -/
theorem Sound.apart (hs : Sound env s) {x : Nat} (hx : s.world.sockAt s.ws.peerFd = some x) :
    s.world.sockAt s.ws.wsFd ≠ some x := by
  intro hy
  cases hp : s.ws.peerFd with
  | none => rw [hp] at hx; cases hx
  | some fd =>
      cases hw : s.ws.wsFd with
      | none => rw [hw] at hy; cases hy
      | some gd =>
          rw [hp] at hx
          rw [hw] at hy
          obtain rfl := hs.numbered.2 fd gd x hx hy
          have hnd := hs.held.1
          simp [Websocket.held, hp, hw] at hnd

theorem networkSendAll_unfailing {fd : Option Nat} {ds : List Bytes} {w : World}
    (h : (networkSendAll env fd ds w).1 = false) :
    ∃ es, (networkSendAll env fd ds w).2.log = w.log ++ es ∧ ∀ x, .sendFailed x ∉ es := by
  cases hy : w.sockAt fd with
  | none =>
      rw [networkSendAll_closed env ds hy]
      exact ⟨[], (List.append_nil _).symm, by simp⟩
  | some y =>
      obtain ⟨es, he, -, -, hok⟩ := (networkSendAll_sent env ds hy).events
      exact ⟨es, he, hok h⟩

theorem wsDispatch_deed (op : Nat) (payload : Bytes) (hs : Sound env s) (ho : s.ws.state = .wsOpen)
    (hp : op = 9 → (wsSendFrame env s.ws .pong payload s.world).1 = false) :
    Deed env s (wsDispatch env op payload s) := by
  refine ⟨(wsDispatch_acts env op payload ho).1, ?_⟩
  have hnew : ∀ (code : WsCloseReason) (reason : Bytes), code ≠ .http →
      FailsLast s.world.log (wsClose env code (some reason) s) := fun code reason hc =>
    (wsClose_deed code (some reason) hs.numbered (fun h => absurd h hc) fun _ _ _ h => absurd h hc).log
  unfold wsDispatch
  split
  · split
    · dsimp only
      cases hx : s.world.sockAt s.ws.peerFd with
      | none =>
          rw [networkSend_closed env payload hx]
          split
          · exact hnew _ _ (by decide)
          · exact (Deed.refl : Deed env s s).log
      | some x =>
          have hsent := networkSend_sent env payload hx
          have hsends := networkSend_onlySends env s.ws.peerFd payload s.world
          generalize networkSend env s.ws.peerFd payload s.world = r at hsent hsends ⊢
          obtain ⟨es, he, hno, hall, hok⟩ := hsent.events
          split
          · refine wsClose_failsLast env .unexpected _ (hsends.later.numbered hs.numbered) he hno
              (fun y hy => .inr ?_) fun _ _ _ h => by cases h
            rcases hall _ hy with h | ⟨d, h⟩
            · cases h
              exact ⟨(hsends.sockAt _).trans hx, fun h => hs.apart hx ((hsends.sockAt _).symm.trans h)⟩
            · cases h
          · next hsuccess => exact .unfailing he (hok (by simpa using hsuccess))
    · exact (Deed.refl : Deed env s s).log
  · split
    · exact hnew _ _ (by decide)
    · split
      · next hop =>
        have hsent := hp hop
        obtain ⟨es, he, hes⟩ := networkSendAll_unfailing hsent
        dsimp only
        rw [hsent]
        exact .unfailing he hes
      · split
        · exact (Deed.refl : Deed env s s).log
        · exact hnew _ _ (by decide)

/-- A call of `ws_frame`: no frame, one without a mask, or the one at the front. -/
theorem wsFrame_front {n : Nat} (h : wsFrame env s = some (n, t)) :
    t = s ∨ t = wsClose env .proto (some (ascii "Unmasked client frame")) s ∨
    ∃ op payload b, s.ws.frontFrame = some (op, payload) ∧
      t = wsDispatch env op payload ⟨{ s.ws with readBuffer := b }, s.world⟩ := by
  unfold wsFrame at h
  unfold Websocket.frontFrame
  cases hl : wsFrameLayout s.ws.readBuffer s.ws.readBufferOffset with
  | none =>
      rw [hl] at h
      cases h
      exact .inl rfl
  | some r =>
      rw [hl] at h
      dsimp only at h ⊢
      split at h
      · cases h
        exact .inl rfl
      · next hlen =>
        split at h
        · cases h
          exact .inr (.inl rfl)
        · next hmask =>
          split at h
          · cases h
          · cases h
            refine .inr (.inr ⟨_, _, _, if_neg ?_, rfl⟩)
            rintro (h | h)
            · exact hlen h
            · exact hmask h

theorem wsFrame_deed {n : Nat} (hs : Sound env s) (ho : s.ws.state = .wsOpen)
    (hp : PongWhole env s) (h : wsFrame env s = some (n, t)) : Deed env s t := by
  rcases wsFrame_front h with rfl | rfl | ⟨op, payload, b, hfront, rfl⟩
  · exact .refl
  · exact wsClose_deed _ _ hs.numbered (fun h => by cases h) fun _ _ _ h => by cases h
  · have hbare : Acts env Scope.all s ⟨{ s.ws with readBuffer := b }, s.world⟩ :=
      .single (.bare _ rfl trivial)
    have hdone := wsDispatch_deed op payload (hbare.sound hs) ho
      fun hop => hp (op, payload) hfront hop
    exact ⟨hbare.trans hdone.acts, hdone.log⟩

/-- **The frame loop**, where no pong fails. -/
theorem wsFrames_deed (fuel : Nat) (hs : Sound env s) (ho : s.ws.state = .wsOpen)
    (hp : Passes (nextFrame env) (PongWhole env) fuel s) (h : wsFrames env fuel s = some t) :
    Deed env s t := by
  induction fuel generalizing s with
  | zero =>
      cases h
      exact .refl
  | succ fuel ih =>
      obtain ⟨hpong, hrest⟩ := hp
      unfold wsFrames at h
      cases hf : wsFrame env s with
      | none =>
          rw [hf] at h
          cases h
      | some r =>
          obtain ⟨n, u⟩ := r
          have hframe := wsFrame_deed hs ho hpong hf
          rw [hf] at h
          dsimp only at h
          split at h
          · next hn =>
            have hopen : u.ws.state = .wsOpen :=
              (wsFrame_acts (A := Scope.all) trivial ho hf).2.resolve_right (by omega)
            have hbare : Acts env Scope.all u ⟨{ u.ws with
                readBuffer := moveDown u.ws.readBuffer n (u.ws.readBufferOffset - n)
                readBufferOffset := u.ws.readBufferOffset - n }, u.world⟩ :=
              .single (.bare _ rfl trivial)
            rw [nextFrame, hf] at hrest
            dsimp only at hrest
            rw [if_pos hn] at hrest
            have htail := ih (hbare.sound (hframe.acts.sound hs)) hopen hrest h
            exact hframe.trans hs.state ⟨hbare.trans htail.acts, htail.log⟩
          · cases h
            exact hframe

/-! ## The handlers -/

theorem wsDataSwitch_deed {bytesRead : Nat} (hs : Sound env s) (hp : HandlesWhole env bytesRead s)
    (h : wsDataSwitch env bytesRead s = some t) : Deed env s t := by
  have hscan : s.ws.state ≠ .wsOpen → Deed env s
      ⟨{ (wsScan env bytesRead 0 bytesRead s).2.ws with
        readBufferOffset := (wsScan env bytesRead 0 bytesRead s).1 },
        (wsScan env bytesRead 0 bytesRead s).2.world⟩ := by
    intro ho
    rw [HandlesWhole, if_neg ho] at hp
    have hdone := wsScan_deed bytesRead hs.numbered hs.state hp
    exact ⟨hdone.acts.trans (.single (.bare _ rfl trivial)), hdone.log.congr rfl rfl⟩
  unfold wsDataSwitch at h
  split at h
  · next ho =>
    cases h
    exact hscan (by rw [ho]; decide)
  · next ho =>
    cases h
    exact hscan (by rw [ho]; decide)
  · next ho =>
    rw [HandlesWhole, if_pos ho] at hp
    have hbare : Acts env Scope.all s ⟨{ s.ws with
        readBufferOffset := s.ws.readBufferOffset + bytesRead }, s.world⟩ :=
      .single (.bare _ rfl trivial)
    have hdone := wsFrames_deed _ (hbare.sound hs) ho hp h
    exact ⟨hbare.trans hdone.acts, hdone.log⟩
  · cases h
    exact .refl

/-- What `recv` leaves in the log is no failed send. -/
theorem Recvd.unfailing {fd : Option Nat} {len : Nat} {answer d : Option Bytes} {w w' : World}
    (h : Recvd fd len answer w d w') : ∃ es, w'.log = w.log ++ es ∧ ∀ x, .sendFailed x ∉ es := by
  cases h with
  | closed hx => exact ⟨[], (List.append_nil _).symm, by simp⟩
  | failed x hx ha => exact ⟨_, rfl, by simp⟩
  | data x b hx ha => exact ⟨_, rfl, by simp⟩

theorem Recvd.sound {fd : Option Nat} {len : Nat} {answer d : Option Bytes} {w : World}
    (h : Recvd fd len answer s.world d w) (hs : Sound env s) : Sound env ⟨s.ws, w⟩ := by
  cases h <;> exact ⟨hs.state, hs.numbered, hs.held⟩

/-- `ws_data`, where no pong fails and no error response is cut short. -/
theorem wsData_failsLast {answer : Option Bytes} (hs : Sound env s) (ha : AnswersWhole env answer s)
    (h : wsData env answer s = some t) : FailsLast s.world.log t := by
  cases wsData_cases h with
  | nothing r w hr h =>
      obtain ⟨es, he, hes⟩ := hr.unfailing
      have hclose : Deed env ⟨s.ws, w⟩ (wsClose env .unexpected none ⟨s.ws, w⟩) :=
        wsClose_deed _ _ (hr.sound hs).numbered (fun h => by cases h) fun _ h => by cases h
      exact hclose.log.before he hes
  | data x b data u hx hb hd hne hu =>
      have hrecv : s.received answer = (some data, s.world.record (.received x data)) := by
        unfold Conn.received recv
        rw [hx, hb, hd]
      have hfilled : Sound env ⟨s.ws.filled data, s.world.record (.received x data)⟩ := by
        have hbare : Acts env Scope.all ⟨s.ws, s.world.record (.received x data)⟩
            ⟨s.ws.filled data, s.world.record (.received x data)⟩ := .single (.bare _ rfl trivial)
        exact hbare.sound ⟨hs.state, hs.numbered, hs.held⟩
      have hwhole := ha data (by rw [hrecv]; rfl)
      rw [hrecv] at hwhole
      have hdone := wsDataSwitch_deed hfilled hwhole hu
      refine FailsLast.before (World.record_log _ (.received x data)) (by simp) ?_
      split
      · have hlimit : Deed env u (wsClose env .limit (some (ascii "Receive size limit exceeded")) u) :=
          wsClose_deed _ _ (hdone.acts.sound hfilled).numbered (fun h => by cases h)
            fun _ _ _ h => by cases h
        exact (hdone.trans hfilled.state hlimit).log
      · exact hdone.log

/-- The keep-alive check. -/
theorem wsKeepAlive_failsLast (env : Env φ) (now : Int) (hn : Numbered s.world.fds s.world.socks) :
    FailsLast s.world.log (wsKeepAlive env now s) := by
  unfold wsKeepAlive
  split
  · dsimp only
    cases hy : s.world.sockAt s.ws.wsFd with
    | none =>
        rw [wsSendFrame_closed env _ _ hy]
        exact wsClose_failsLast env .unexpected none hn (List.append_nil _).symm List.Pairwise.nil
          (by simp) (by simp)
    | some y =>
        have hsent := wsSendFrame_sent env .ping (ascii "PING") hy
        have hsends := wsSendFrame_onlySends env s.ws .ping (ascii "PING") s.world
        generalize wsSendFrame env s.ws .ping (ascii "PING") s.world = r at hsent hsends ⊢
        obtain ⟨es, he, hno, hall, hok⟩ := hsent.events
        split
        · refine wsClose_failsLast env .unexpected none (hsends.later.numbered hn) he hno
            (fun x hx => .inl ⟨rfl, ?_⟩) (by simp)
          rcases hall _ hx with h | ⟨d, h⟩
          · cases h
            exact (hsends.sockAt _).trans hy
          · cases h
        · next hsuccess => exact .unfailing he (hok (by simpa using hsuccess))
  · exact .unfailing (List.append_nil _).symm (by simp)

/-! ## Data from the peer -/

/-- A segment whose frame can be sent is forwarded; `w` has the same sockets and as many sends
before. -/
theorem wsForward_whole {op : WsOperation} {data : Bytes} {w : World}
    (hp : (networkSendAll env s.ws.wsFd
      (if op = .discard then [] else [wsFrameHeader op data.length, data]) w).1 = false)
    (hx : s.world.sockAt s.ws.wsFd = w.sockAt s.ws.wsFd) (hs : s.world.sends = w.sends) :
    ∃ v es, wsForward env op data s = (false, ⟨s.ws, v⟩) ∧ v.fds = s.world.fds ∧
      v.socks = s.world.socks ∧ v.log = s.world.log ++ es ∧ (∀ x, .sendFailed x ∉ es) ∧
      v.sends = (networkSendAll env s.ws.wsFd
        (if op = .discard then [] else [wsFrameHeader op data.length, data]) w).2.sends := by
  unfold wsForward
  by_cases hop : op = .discard
  · simp only [hop, if_true]
    exact ⟨_, _, rfl, rfl, rfl, rfl, by simp, hs⟩
  · simp only [hop, if_false] at hp ⊢
    obtain ⟨hsame, hsends⟩ := networkSendAll_congr env [wsFrameHeader op data.length, data] hx hs
    rw [hp] at hsame
    obtain ⟨es, he, hes⟩ := networkSendAll_unfailing hsame
    have honly := wsSendFrame_onlySends env s.ws op data s.world
    rw [show (wsSendFrame env s.ws op data s.world).1 = false from hsame]
    refine ⟨_, es ++ [.segment s.ws.conn op data], rfl, honly.fds, honly.socks, ?_, ?_, hsends⟩
    · rw [← List.append_assoc]
      exact congrArg (· ++ [Event.segment s.ws.conn op data]) he
    · simpa using hes

/-- **The framing loop**, where every frame can be sent. -/
theorem wsFraming_failsLast {f : WsFraming φ} (fuel : Nat) (op : WsOperation) (bytesRead : Nat)
    {rv : Bool} (hf : s.ws.peer.framing = some f) (hn : Numbered s.world.fds s.world.socks)
    (hp : (networkSendAll env s.ws.wsFd
      ((s.framingCall op bytesRead).frames f s.ws.peer.framingConfig fuel) s.world).1 = false)
    (h : wsFraming env fuel op bytesRead s = some (rv, t)) :
    rv = false ∧ FailsLast s.world.log t := by
  induction fuel generalizing s op bytesRead with
  | zero => cases h
  | succ fuel ih =>
      rw [wsFraming_take env fuel op bytesRead hf] at h
      dsimp only at h
      unfold FramingCall.frames at hp
      generalize hc : s.framingCall op bytesRead = c at h hp
      obtain ⟨u, hu, hws, hworld⟩ : ∃ u, framingCalled bytesRead
          (c.answer f s.ws.peer.framingConfig).2.2 s = u ∧ u.ws =
            { s.ws with peerFramingData := (c.answer f s.ws.peer.framingConfig).2.2 } ∧
          ∃ e : Event, (∀ x, e ≠ .sendFailed x) ∧ u.world = s.world.record e :=
        ⟨_, rfl, rfl, _, by simp, rfl⟩
      obtain ⟨e, hquiet, hworld⟩ := hworld
      have hlog : u.world.log = s.world.log ++ [e] := by rw [hworld]; rfl
      have hes : ∀ x, .sendFailed x ∉ [e] := fun x hx => hquiet x (List.mem_singleton.mp hx).symm
      have hun : Numbered u.world.fds u.world.socks := by rw [hworld]; exact hn
      rw [hu] at h
      cases htake : c.take f s.ws.peer.framingConfig with
      | overrun =>
          rw [htake] at h
          cases h
          have hclose : FailsLast u.world.log (wsClose env .unexpected (some (ascii "Internal error")) u) :=
            (wsClose_deed _ _ hun (fun h => by cases h) fun _ _ _ h => by cases h).log
          exact ⟨rfl, hclose.before hlog hes⟩
      | declined rest =>
          rw [htake] at h
          cases h
          exact ⟨rfl, .unfailing hlog hes⟩
      | failed rest =>
          rw [htake] at h hp
          dsimp only at h hp
          have hcall : u.framingCall rest.opcode rest.bytesRead = rest := by
            rw [(FramingCall.take_failed htake).2.2, ← hc]
            unfold Conn.framingCall
            rw [hws, ← hc]
            rfl
          have hconfig : u.ws.peer = s.ws.peer ∧ u.ws.wsFd = s.ws.wsFd := by rw [hws]; exact ⟨rfl, rfl⟩
          obtain ⟨hrv, ht⟩ := ih (s := u) rest.opcode rest.bytesRead (by rw [hconfig.1, hf]) hun (by
            rw [hcall, hconfig.1, hconfig.2, hworld, networkSendAll_record]
            exact hp) h
          exact ⟨hrv, ht.before hlog hes⟩
      | segment o seg rest again =>
          rw [htake] at h hp
          dsimp only at h hp
          have hpeer : u.ws.peer = s.ws.peer ∧ u.ws.wsFd = s.ws.wsFd := by rw [hws]; exact ⟨rfl, rfl⟩
          rw [networkSendAll_append] at hp
          generalize hpiece : (if o = .discard then [] else [wsFrameHeader o seg.length, seg]) = piece
            at hp
          cases hok : (networkSendAll env s.ws.wsFd piece s.world).1 with
          | true =>
            rw [hok, if_pos rfl, hok] at hp
            cases hp
          | false =>
            rw [hok, if_neg (by simp)] at hp
            rw [← hpiece] at hok hp
            obtain ⟨v, es, hforward, hfds, hsocks, hvlog, hves, hsends⟩ :=
              wsForward_whole (s := u) (w := s.world) (by rw [hpeer.2]; exact hok)
                (by rw [hworld]; rfl) (by rw [hworld]; rfl)
            rw [hforward] at h
            dsimp only at h
            rw [if_neg (by simp)] at h
            have hall : v.log = s.world.log ++ ([e] ++ es) := by
              rw [hvlog, hlog, List.append_assoc]
            have hunfailing : ∀ x, .sendFailed x ∉ [e] ++ es := fun x hx =>
              (List.mem_append.mp hx).elim (hes x) (hves x)
            cases again with
            | false =>
                rw [if_neg (by simp)] at h
                cases h
                exact ⟨rfl, .unfailing hall hunfailing⟩
            | true =>
                rw [if_pos rfl] at h hp
                obtain ⟨k, hk⟩ := FramingCall.take_segment htake
                have hcalled : (c.called f s).ws = u.ws := by
                  rw [← hu, FramingCall.called, ← hc]
                  rfl
                have hcall := hk.framingCall (s := s) v
                rw [hcalled] at hcall
                obtain ⟨hrv, ht⟩ := ih (s := rest.put rest.offset ⟨u.ws, v⟩) rest.opcode rest.bytesRead
                  (by rw [← hf, ← hpeer.1]; rfl) (by
                    rw [show (rest.put rest.offset ⟨u.ws, v⟩).world = v from rfl, hfds, hsocks]
                    exact hun) (by
                    rw [hcall]
                    rw [show (rest.put rest.offset ⟨u.ws, v⟩).ws.peer = u.ws.peer from rfl,
                      show (rest.put rest.offset ⟨u.ws, v⟩).ws.wsFd = u.ws.wsFd from rfl,
                      show (rest.put rest.offset ⟨u.ws, v⟩).world = v from rfl, hpeer.1, hpeer.2]
                    rw [hpeer.2] at hsends
                    refine (networkSendAll_congr env _ ?_ hsends).1.trans hp
                    rw [(networkSendAll_onlySends env s.ws.wsFd _ s.world).sockAt, World.sockAt,
                      World.sockAt, hfds, hworld]
                    rfl) h
                exact ⟨hrv, ht.before hall hunfailing⟩

/-- `ws_peer_data`, where every frame can be sent. -/
theorem wsPeerData_failsLast {fuel : Nat} {answer : Option Bytes} {r : Bool × Conn φ}
    (hn : Numbered s.world.fds s.world.socks) (hp : ForwardsWhole env fuel answer s)
    (h : wsPeerData env fuel answer s = some r) : r.1 = false ∧ FailsLast s.world.log r.2 := by
  have hclose : ∀ (code : WsCloseReason) (reason : Option Bytes) (w : World) (es : List Event),
      w.fds = s.world.fds → w.socks = s.world.socks → w.log = s.world.log ++ es →
      (∀ x, .sendFailed x ∉ es) → code ≠ .http →
      FailsLast s.world.log (wsClose env code reason ⟨s.ws, w⟩) := by
    intro code reason w es hfds hsocks hlog hes hc
    refine wsClose_failsLast env code reason (by rw [hfds, hsocks]; exact hn) hlog
      (noResume_of_unfailing hes) (fun x hx => absurd hx (hes x)) fun _ _ _ h => absurd h hc
  cases wsPeerData_cases h with
  | failed w hr =>
      obtain ⟨es, he, hes⟩ := hr.unfailing
      have hsame : w.fds = s.world.fds ∧ w.socks = s.world.socks := by cases hr <;> exact ⟨rfl, rfl⟩
      exact ⟨rfl, hclose _ _ w es hsame.1 hsame.2 he hes (by decide)⟩
  | ended x b hx ha hb => exact ⟨rfl, hclose _ _ _ [.received x []] rfl rfl rfl (by simp) (by decide)⟩
  | data x b data r hx ha hb hne hu =>
      obtain ⟨f, hf⟩ := wsFraming_some hu
      have hfirst : s.firstCall? answer = some (s.firstCall data) := by
        unfold Conn.firstCall? recv
        rw [hx, ha]
        dsimp only
        rw [← hb]
        cases data with
        | nil => exact absurd rfl hne
        | cons z zs => rfl
      have hwhole := hp f hf _ hfirst
      obtain ⟨rv, t⟩ := r
      obtain ⟨hrv, ht⟩ := wsFraming_failsLast fuel .binary data.length (by exact hf) (by exact hn) (by
        dsimp only
        rw [networkSendAll_record]
        exact hwhole) hu
      exact ⟨hrv, ht.before (World.record_log _ (.received x data)) (by simp)⟩

end

end Websocksy

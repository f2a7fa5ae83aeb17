import Websocksy.Acts

/-!
# A handler touches only its own connection

`Local s t` says what may differ after a handler worked on a connection: other
descriptors refer to what they referred to, a descriptor that is new to the
connection was free before, and the log grew by events of this connection and
its sockets.
-/

namespace Websocksy

open Buffer CString Lines Relation

variable {φ : Type}

/-- The descriptors a connection holds. -/
def Websocket.held (ws : Websocket φ) : List Nat := ws.wsFd.toList ++ ws.peerFd.toList

/-- A socket that is the connection's own, or will be if it is opened now. -/
def Conn.Own (s : Conn φ) (x : Nat) : Prop :=
  (∃ fd ∈ s.ws.held, s.world.sockAt (some fd) = some x) ∨ s.world.socks ≤ x

/-- The event is about the connection `conn` and sockets with the property `own`. -/
def Event.Within (conn : Nat) (own : Nat → Prop) : Event → Prop
  | .accepted _ _ | .selected _ => False
  | .opened c x => c = conn ∧ own x
  | .closed x | .wrote x _ | .sendFailed x | .received x _ | .recvFailed x => own x
  | .line c _ _ | .query c _ _ | .wsClose c _ | .framing c _ _ | .segment c _ _ => c = conn

structure Local (s t : Conn φ) : Prop where
  conn : t.ws.conn = s.ws.conn
  conns : t.world.conns = s.world.conns
  socks : s.world.socks ≤ t.world.socks
  entry : ∀ fd x, s.world.sockAt (some fd) = some x → fd ∉ s.ws.held →
    t.world.sockAt (some fd) = some x
  held : ∀ fd ∈ t.ws.held, fd ∈ s.ws.held ∨ s.world.sockAt (some fd) = none
  own : ∀ x, t.Own x → s.Own x
  log : ∃ es, t.world.log = s.world.log ++ es ∧ ∀ e ∈ es, e.Within s.ws.conn s.Own

theorem Event.Within.mono {conn : Nat} {own own' : Nat → Prop} {e : Event}
    (h : e.Within conn own) (ho : ∀ x, own x → own' x) : e.Within conn own' := by
  cases e with
  | opened c x => exact ⟨h.1, ho x h.2⟩
  | closed x => exact ho x h
  | wrote x d => exact ho x h
  | sendFailed x => exact ho x h
  | received x d => exact ho x h
  | recvFailed x => exact ho x h
  | _ => exact h

section

variable {env : Env φ} {A : Scope} {s t u : Conn φ}

theorem Local.refl (s : Conn φ) : Local s s :=
  ⟨rfl, rfl, Nat.le_refl _, fun _ _ h _ => h, fun _ h => .inl h, fun _ h => h, [], by simp⟩

theorem Local.trans (h : Local s t) (h' : Local t u) : Local s u := by
  obtain ⟨es, he, hes⟩ := h.log
  obtain ⟨fs, hf, hfs⟩ := h'.log
  refine ⟨h'.conn.trans h.conn, h'.conns.trans h.conns, h.socks.trans h'.socks, ?_, ?_,
    fun x hx => h.own x (h'.own x hx), es ++ fs, ?_, ?_⟩
  · intro fd x hx hn
    refine h'.entry fd x (h.entry fd x hx hn) fun hm => ?_
    rcases h.held fd hm with hh | hh
    · exact hn hh
    · rw [hh] at hx; cases hx
  · intro fd hm
    rcases h'.held fd hm with hh | hh
    · exact h.held fd hh
    · by_cases hin : fd ∈ s.ws.held
      · exact .inl hin
      · right
        cases hx : s.world.sockAt (some fd) with
        | none => rfl
        | some x => rw [h.entry fd x hx hin] at hh; cases hh
  · rw [hf, he, List.append_assoc]
  · intro e hm
    rcases List.mem_append.mp hm with hm | hm
    · exact hes e hm
    · have := (hfs e hm).mono h.own
      rwa [h.conn] at this

/-- Changes of the connection that leave its descriptors and its number alone. -/
theorem Local.of_ws {ws : Websocket φ} (hc : ws.conn = s.ws.conn) (hw : ws.wsFd = s.ws.wsFd)
    (hp : ws.peerFd = s.ws.peerFd) : Local s ⟨ws, s.world⟩ := by
  have hh : ws.held = s.ws.held := by rw [Websocket.held, Websocket.held, hw, hp]
  refine ⟨hc, rfl, Nat.le_refl _, fun _ _ h _ => h, fun fd h => .inl (hh ▸ h), fun x h => ?_,
    [], by simp⟩
  unfold Conn.Own at h ⊢
  dsimp only at h
  rwa [hh] at h

theorem Local.record {e : Event} (h : e.Within s.ws.conn s.Own) :
    Local s ⟨s.ws, s.world.record e⟩ :=
  ⟨rfl, rfl, Nat.le_refl _, fun _ _ h _ => h, fun _ h => .inl h, fun _ h => h, [e], rfl, by simpa⟩

theorem own_of_fd {fd : Option Nat} (hfd : fd = s.ws.wsFd ∨ fd = s.ws.peerFd) {x : Nat}
    (hx : s.world.sockAt fd = some x) : s.Own x := by
  left
  cases fd with
  | none => cases hx
  | some n =>
      refine ⟨n, ?_, hx⟩
      unfold Websocket.held
      rcases hfd with h | h <;> rw [← h] <;> simp

theorem Local.sends {fd : Option Nat} (hfd : fd = s.ws.wsFd ∨ fd = s.ws.peerFd) {w : World}
    (h : OnlySends fd s.world w) : Local s ⟨s.ws, w⟩ := by
  obtain ⟨es, he, hes⟩ := h.log
  refine ⟨rfl, h.conns, Nat.le_of_eq h.socks.symm, fun fd x hx _ => ?_, fun _ h => .inl h,
    fun x hx => ?_, es, he, fun e hm => ?_⟩
  · rw [← hx]
    exact h.sockAt (some fd)
  · unfold Conn.Own at hx ⊢
    simp only [h.sockAt, h.socks] at hx
    exact hx
  · obtain ⟨x, hx, rfl | ⟨d, rfl⟩⟩ := hes e hm
    · exact own_of_fd hfd hx
    · exact own_of_fd hfd hx

theorem sockAt_release (w : World) (fd gd : Nat) :
    ({ w with fds := FdTable.release w.fds fd } : World).sockAt (some gd) =
      if gd = fd then none else w.sockAt (some gd) :=
  FdTable.entry_release w.fds fd gd

theorem Local.closeFd {fd : Option Nat} {ws : Websocket φ} (hc : ws.conn = s.ws.conn)
    (hfd : fd = s.ws.wsFd ∨ fd = s.ws.peerFd) (hh : ∀ n ∈ ws.held, n ∈ s.ws.held) :
    Local s ⟨ws, s.world.closeFd fd⟩ := by
  cases hx : s.world.sockAt fd with
  | none =>
      rw [closeFd_none hx]
      refine ⟨hc, rfl, Nat.le_refl _, fun _ _ h _ => h, fun n h => .inl (hh n h), ?_, [], by simp⟩
      rintro x (⟨n, hn, h⟩ | h)
      · exact .inl ⟨n, hh n hn, h⟩
      · exact .inr h
  | some x =>
      cases fd with
      | none => cases hx
      | some n =>
          have hn : n ∈ s.ws.held := by
            unfold Websocket.held
            rcases hfd with h | h <;> rw [← h] <;> simp
          rw [closeFd_some hx]
          refine ⟨hc, rfl, Nat.le_refl _, ?_, fun m h => .inl (hh m h), ?_, [.closed x], rfl, ?_⟩
          · intro gd y hy hg
            rw [World.record_sockAt, sockAt_release, if_neg (fun (e : gd = n) => hg (e ▸ hn))]
            exact hy
          · rintro y (⟨m, hm, h⟩ | h)
            · rw [World.record_sockAt, sockAt_release] at h
              split at h
              · cases h
              · exact .inl ⟨m, hh m hm, h⟩
            · exact .inr h
          · intro e he
            rw [List.mem_singleton.mp he]
            exact own_of_fd hfd hx

/-- `ws_close` notes itself, and then works on its own connection. -/
theorem wsClose_local_noted (env : Env φ) (code : WsCloseReason) (reason : Option Bytes) (s : Conn φ) :
    Local ⟨s.ws, s.world.record (.wsClose s.ws.conn reason)⟩ (wsClose env code reason s) := by
  have h1 : Local ⟨s.ws, s.world.record (.wsClose s.ws.conn reason)⟩
      ⟨s.ws, wsCloseWorld env code reason s⟩ :=
    .sends (.inl rfl) (wsCloseSend_onlySends env s.ws code reason _)
  have h2 : Local ⟨s.ws, wsCloseWorld env code reason s⟩
      ⟨{ s.ws with wsFd := none }, (wsCloseWorld env code reason s).closeFd s.ws.wsFd⟩ :=
    .closeFd rfl (.inl rfl) fun n hn => by simp only [Websocket.held] at hn ⊢; simp_all
  have h3 : Local
      ⟨{ s.ws with wsFd := none }, (wsCloseWorld env code reason s).closeFd s.ws.wsFd⟩
      (wsClose env code reason s) :=
    .closeFd rfl (.inr rfl) fun n hn => by simp [Websocket.held] at hn
  exact (h1.trans h2).trans h3

theorem wsClose_local (code : WsCloseReason) (reason : Option Bytes) (s : Conn φ) :
    Local s (wsClose env code reason s) := by
  have h : Local s ⟨s.ws, s.world.record (.wsClose s.ws.conn reason)⟩ := .record rfl
  exact h.trans (wsClose_local_noted env code reason s)

theorem clientConnect_local (env : Env φ) (s : Conn φ) : Local s (clientConnect env s).2 := by
  have hc := clientConnect_cases env s
  generalize clientConnect env s = c at hc ⊢
  have hasked : ∀ (n : Nat) (p : WsPeerInfo φ),
      Local s ⟨{ s.ws with peer := p }, s.world.asked s.ws n⟩ := by
    intro n p
    refine ⟨rfl, rfl, Nat.le_refl _, fun _ _ h _ => h, fun _ h => .inl h, fun _ h => h,
      [.query s.ws.conn s.ws.state s.ws.requestPath], rfl, ?_⟩
    intro e he
    rw [List.mem_singleton.mp he]
    rfl
  cases hc with
  | refused p => exact hasked _ p
  | failed p =>
      refine ⟨rfl, rfl, Nat.le_refl _, fun _ _ h _ => h, fun fd h => .inl ?_, ?_,
        (hasked (s.world.connects + 1) p).log⟩
      · simp only [Websocket.held] at h ⊢
        simp_all
      · rintro x (⟨n, hn, h⟩ | h)
        · refine .inl ⟨n, ?_, h⟩
          simp only [Websocket.held] at hn ⊢
          simp_all
        · exact .inr h
  | peer p f hf ho =>
      have hsock : ∀ fd, ((s.world.asked s.ws (s.world.connects + 1)).opened s.ws.conn).sockAt
          (some fd) = if fd = FdTable.lowest s.world.fds then some s.world.socks
            else s.world.sockAt (some fd) :=
        fun fd => FdTable.entry_install s.world.fds s.world.socks fd
      have hfree : s.world.sockAt (some (FdTable.lowest s.world.fds)) = none :=
        FdTable.entry_lowest s.world.fds
      refine ⟨rfl, rfl, Nat.le_succ _, ?_, ?_, ?_, [.query s.ws.conn s.ws.state s.ws.requestPath,
        .opened s.ws.conn s.world.socks], ?_, ?_⟩
      · intro fd x hx _
        rw [hsock]
        split
        · next e => rw [e, hfree] at hx; cases hx
        · exact hx
      · intro fd hm
        simp only [Websocket.held, List.mem_append, Option.mem_toList] at hm ⊢
        rcases hm with hm | hm
        · exact .inl (.inl hm)
        · cases hm
          exact .inr hfree
      · rintro x (⟨fd, hm, hx⟩ | hx)
        · rw [hsock] at hx
          split at hx
          · cases hx
            exact .inr (Nat.le_refl _)
          · next hne =>
            simp only [Websocket.held, List.mem_append, Option.mem_toList] at hm
            rcases hm with hm | hm
            · exact .inl ⟨fd, by simp [Websocket.held, hm], hx⟩
            · cases hm
              exact absurd rfl hne
        · exact .inr (Nat.le_of_succ_le hx)
      · simp
      · intro e he
        simp only [List.mem_cons, List.not_mem_nil, or_false] at he
        rcases he with rfl | rfl
        · rfl
        · exact ⟨rfl, .inr (Nat.le_refl _)⟩

theorem wsUpgradeHttp_local (h : s.ws.ready = true) : Local s (wsUpgradeHttp env s).2 := by
  rw [wsUpgradeHttp_ready env h]
  have hc := clientConnect_local env s
  generalize clientConnect env s = c at hc ⊢
  dsimp only
  have hs : Local c.2 ⟨c.2.ws,
      (networkSendAll env c.2.ws.wsFd (upgradeResponse env c.2.ws) c.2.world).2⟩ :=
    .sends (.inl rfl) (networkSendAll_onlySends env _ _ _)
  split
  · exact hc.trans (wsClose_local _ _ _)
  · split
    · exact (hc.trans hs).trans (wsClose_local _ _ _)
    · exact (hc.trans hs).trans (.of_ws rfl rfl rfl)

theorem Act.isLocal (h : Act env A s t) : Local s t := by
  cases h with
  | bare ws h hr =>
      exact .of_ws (bare_congr Websocket.conn h fun _ => rfl)
        (bare_congr Websocket.wsFd h fun _ => rfl) (bare_congr Websocket.peerFd h fun _ => rfl)
  | peerBuffer b k fd h => exact .of_ws rfl rfl rfl
  | note e h =>
      refine .record ?_
      cases e <;> first | exact h | cases h
  | line data h => exact .record rfl
  | path p h => exact .of_ws rfl rfl rfl
  | header tag value h hn =>
      obtain ⟨hs, ver, key, up, ps, he⟩ := wsHeader_eq tag value s.ws
      rw [he]
      exact .of_ws rfl rfl rfl
  | upgrade h hn hr => exact wsUpgradeHttp_local hr
  | close code reason h => exact wsClose_local _ _ _
  | forward data h => exact .sends (.inr rfl) (networkSend_onlySends env _ _ _)
  | frame op data h ho => exact .sends (.inl rfl) (wsSendFrame_onlySends env _ _ _ _)

theorem Acts.isLocal (h : Acts env A s t) : Local s t := by
  induction h with
  | refl => exact .refl s
  | tail _ ha ih => exact ih.trans ha.isLocal

theorem Recvd.isLocal {fd : Option Nat} {len : Nat} {answer d : Option Bytes} {w : World}
    (hfd : fd = s.ws.wsFd ∨ fd = s.ws.peerFd) (h : Recvd fd len answer s.world d w) :
    Local s ⟨s.ws, w⟩ := by
  cases h with
  | closed _ => exact .refl s
  | failed x hx _ => exact .record (own_of_fd hfd hx)
  | data x b hx _ => exact .record (own_of_fd hfd hx)

end

end Websocksy

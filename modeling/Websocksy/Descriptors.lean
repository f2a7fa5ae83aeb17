import Websocksy.CoreRule

/-!
# Descriptors and sockets in all runs

Whatever the clients send, the slots hold open descriptors, each in one slot (`HeldInv`),
and a socket that is closed never comes back (`Later.gone`).
-/

namespace Websocksy

open Buffer CString FdTable

variable {φ : Type}

/-- From `w` to `w'` sockets go, and those that come have new numbers. -/
structure Later (w w' : World) : Prop where
  socks : w.socks ≤ w'.socks
  entry : ∀ fd x, w'.sockAt (some fd) = some x → w.sockAt (some fd) = some x ∨ w.socks ≤ x
  numbered : Numbered w.fds w.socks → Numbered w'.fds w'.socks

/-- The socket was closed. -/
def World.Gone (w : World) (x : Nat) : Prop := x < w.socks ∧ ∀ fd, w.sockAt (some fd) ≠ some x

section

variable {w w' w'' : World} {x : Nat}

theorem Later.refl (w : World) : Later w w := ⟨Nat.le_refl _, fun _ _ h => .inl h, id⟩

theorem Later.trans (h : Later w w') (h' : Later w' w'') : Later w w'' := by
  refine ⟨h.socks.trans h'.socks, fun fd x hx => ?_, h'.numbered ∘ h.numbered⟩
  rcases h'.entry fd x hx with hx | hx
  · exact h.entry fd x hx
  · exact .inr (h.socks.trans hx)

theorem Later.gone (h : Later w w') (hx : w.Gone x) : w'.Gone x := by
  refine ⟨Nat.lt_of_lt_of_le hx.1 h.socks, fun fd he => ?_⟩
  rcases h.entry fd x he with he | hle
  · exact hx.2 fd he
  · exact absurd hx.1 (Nat.not_lt.mpr hle)

/-- The table and the numbers stay. -/
theorem Later.of_eq (hf : w'.fds = w.fds) (hs : w'.socks = w.socks) : Later w w' := by
  refine ⟨Nat.le_of_eq hs.symm, fun fd x hx => .inl ?_, fun hn => ?_⟩
  · rwa [World.sockAt, hf] at hx
  · rwa [hf, hs]

theorem Later.record (w : World) (e : Event) : Later w (w.record e) := .of_eq rfl rfl

theorem Later.asked (w : World) (ws : Websocket φ) (n : Nat) : Later w (w.asked ws n) := .of_eq rfl rfl

theorem OnlySends.later {fd : Option Nat} (h : OnlySends fd w w') : Later w w' := .of_eq h.fds h.socks

theorem Later.closeFd (w : World) (fd : Option Nat) : Later w (w.closeFd fd) := by
  cases hx : w.sockAt fd with
  | none =>
      rw [closeFd_none hx]
      exact .refl w
  | some x =>
      cases fd with
      | none => cases hx
      | some n =>
          rw [closeFd_some hx]
          refine ⟨Nat.le_refl _, fun gd y hy => .inl ?_, fun hn => hn.release n⟩
          rw [World.record_sockAt, sockAt_release] at hy
          split at hy
          · cases hy
          · exact hy

theorem Later.openSock (w : World) : Later w w.openSock := by
  refine ⟨Nat.le_succ _, fun fd x hx => ?_, fun hn => hn.install⟩
  have hx : FdTable.entry (install w.fds w.socks) fd = some x := hx
  rw [entry_install] at hx
  split at hx
  · cases hx
    exact .inr (Nat.le_refl _)
  · exact .inl hx

theorem Later.opened (w : World) (conn : Nat) : Later w (w.opened conn) :=
  (Later.openSock w).trans (.record _ _)

theorem Later.accept (w : World) (accepts : Bool) : Later w (w.accept accepts) := by
  have hconns : Later w { w with conns := w.conns + 1 } := .of_eq rfl rfl
  cases accepts with
  | false => exact hconns
  | true => exact (hconns.trans (.openSock _)).trans (.record _ _)

theorem closeFd_held {fd : Option Nat} {fds : List Nat} (h : Held 0 w.fds (fd.toList ++ fds)) :
    Held 0 (w.closeFd fd).fds fds := by
  cases hx : w.sockAt fd with
  | none =>
      rw [closeFd_none hx]
      exact h.sublist (List.sublist_append_right _ _)
  | some x =>
      cases fd with
      | none => cases hx
      | some n =>
          rw [closeFd_some hx]
          exact h.release

end

/-! ## Acts -/

section

variable {env : Env φ} {A : Scope} {s t : Conn φ}

theorem wsClose_later (env : Env φ) (code : WsCloseReason) (reason : Option Bytes) (s : Conn φ) :
    Later s.world (wsClose env code reason s).world := by
  have hsends := wsCloseSend_onlySends env s.ws code reason
    (s.world.record (.wsClose s.ws.conn reason))
  rw [wsClose_world]
  exact (((Later.record _ _).trans hsends.later).trans (.closeFd _ _)).trans (.closeFd _ _)

theorem Later.close {w : World} (h : Later w s.world) (env : Env φ) (code : WsCloseReason)
    (reason : Option Bytes) : Later w (wsClose env code reason s).world :=
  h.trans (wsClose_later env code reason s)

/-- `ws_close` closes what the connection holds. -/
theorem wsClose_held (env : Env φ) (code : WsCloseReason) (reason : Option Bytes) {fds : List Nat}
    (h : Held 0 s.world.fds (s.ws.held ++ fds)) :
    Held 0 (wsClose env code reason s).world.fds ((wsClose env code reason s).ws.held ++ fds) := by
  have hsends := wsCloseSend_onlySends env s.ws code reason
    (s.world.record (.wsClose s.ws.conn reason))
  rw [wsClose_world]
  refine closeFd_held (closeFd_held ?_)
  rw [← List.append_assoc, wsCloseWorld, hsends.fds]
  exact h

theorem wsClose_gone (env : Env φ) (code : WsCloseReason) (reason : Option Bytes) {x : Nat}
    (hn : Numbered s.world.fds s.world.socks)
    (hx : s.world.sockAt s.ws.wsFd = some x ∨ s.world.sockAt s.ws.peerFd = some x) :
    (wsClose env code reason s).world.Gone x := by
  have hsends := wsCloseSend_onlySends env s.ws code reason
    (s.world.record (.wsClose s.ws.conn reason))
  have hat : ∃ fd, s.world.sockAt (some fd) = some x ∧
      (s.ws.wsFd = some fd ∨ s.ws.peerFd = some fd) := by
    rcases hx with hx | hx
    · cases hfd : s.ws.wsFd with
      | none => rw [hfd] at hx; cases hx
      | some fd => exact ⟨fd, hfd ▸ hx, .inl rfl⟩
    · cases hfd : s.ws.peerFd with
      | none => rw [hfd] at hx; cases hx
      | some fd => exact ⟨fd, hfd ▸ hx, .inr rfl⟩
  obtain ⟨fd, hfd, hown⟩ := hat
  refine ⟨Nat.lt_of_lt_of_le (hn.1 fd x hfd) (wsClose_later env code reason s).socks, fun gd hg => ?_⟩
  rw [wsClose_world, closeFd_sockAt] at hg
  split at hg
  · cases hg
  · next hpeer =>
    rw [closeFd_sockAt] at hg
    split at hg
    · cases hg
    · next hclient =>
      rw [wsCloseWorld, hsends.sockAt] at hg
      obtain rfl := hn.2 gd fd x hg hfd
      rcases hown with h | h
      · exact hclient h.symm
      · exact hpeer h.symm

theorem peerWorld_later (s : Conn φ) : Later s.world s.peerWorld := (Later.asked _ _ _).trans (.opened _ _)

theorem wsUpgradeHttp_later (h : s.ws.ready = true) :
    Later s.world (wsUpgradeHttp env s).2.world := by
  have hu := wsUpgradeHttp_cases env h
  generalize (wsUpgradeHttp env s).2 = t at hu ⊢
  cases hu with
  | refused p => exact Later.close (Later.asked _ _ _) env _ _
  | failed p => exact Later.close (Later.asked _ _ _) env _ _
  | dropped p w hs =>
      have hsends := networkSendAll_onlySends env s.ws.wsFd
        (upgradeResponse env (s.ws.connected p (some (lowest s.world.fds)))) s.peerWorld
      rw [hs] at hsends
      exact Later.close ((peerWorld_later s).trans hsends.later) env _ _
  | opened p f hf ho w hs =>
      have hsends := networkSendAll_onlySends env s.ws.wsFd
        (upgradeResponse env (s.ws.connected p (some (lowest s.world.fds)))) s.peerWorld
      rw [hs] at hsends
      exact (peerWorld_later s).trans hsends.later

theorem Act.later (h : Act env A s t) : Later s.world t.world := by
  cases h with
  | bare ws h hr => exact .refl _
  | peerBuffer b k fd h => exact .refl _
  | note e h => exact .record _ _
  | line data h => exact .record _ _
  | path p h => exact .refl _
  | header tag value h hn => exact .refl _
  | upgrade h hn hr => exact wsUpgradeHttp_later hr
  | close code reason h => exact wsClose_later env code reason s
  | forward data h => exact (networkSend_onlySends env s.ws.peerFd data s.world).later
  | frame op data h ho => exact (wsSendFrame_onlySends env s.ws op data s.world).later

theorem Acts.later (h : Acts env A s t) : Later s.world t.world := by
  induction h with
  | refl => exact .refl _
  | tail _ ha ih => exact ih.trans ha.later

/-- The peer that an upgrade opens is one more descriptor of the connection. -/
theorem wsUpgradeHttp_held {fds : List Nat} (h : s.ws.ready = true)
    (hh : Held 0 s.world.fds (s.ws.held ++ fds)) :
    Held 0 (wsUpgradeHttp env s).2.world.fds ((wsUpgradeHttp env s).2.ws.held ++ fds) := by
  have hclient : Held 0 s.world.fds (s.ws.wsFd.toList ++ fds) := by
    refine hh.sublist ?_
    rw [Websocket.held, List.append_assoc]
    exact (List.sublist_append_right _ _).append_left _
  have hopened : ∀ p, Held 0 s.peerWorld.fds
      ((s.ws.connected p (some (lowest s.world.fds))).held ++ fds) := by
    intro p
    refine Held.perm (hclient.install (Nat.zero_le s.world.socks)) ?_
    rw [Websocket.held, List.append_assoc]
    exact List.perm_middle.symm
  have hu := wsUpgradeHttp_cases env h
  generalize (wsUpgradeHttp env s).2 = t at hu ⊢
  cases hu with
  | refused p => exact wsClose_held env _ _ hh
  | failed p =>
      refine wsClose_held env _ _ (hh.sublist ?_)
      exact List.Sublist.append_right ((List.nil_sublist _).append_left _) _
  | dropped p w hs =>
      have hsends := networkSendAll_onlySends env s.ws.wsFd
        (upgradeResponse env (s.ws.connected p (some (lowest s.world.fds)))) s.peerWorld
      rw [hs] at hsends
      refine wsClose_held env _ _ ?_
      rw [hsends.fds]
      exact hopened p
  | opened p f hf ho w hs =>
      have hsends := networkSendAll_onlySends env s.ws.wsFd
        (upgradeResponse env (s.ws.connected p (some (lowest s.world.fds)))) s.peerWorld
      rw [hs] at hsends
      rw [hsends.fds]
      exact hopened p

theorem Act.held (h : Act env A s t) {fds : List Nat} (hh : Held 0 s.world.fds (s.ws.held ++ fds)) :
    Held 0 t.world.fds (t.ws.held ++ fds) := by
  cases h with
  | bare ws h hr =>
      obtain ⟨rb, ro, le, rfl⟩ := bare_eq h.symm
      exact hh
  | header tag value h hn =>
      obtain ⟨hs, ver, key, up, ps, he⟩ := wsHeader_eq tag value s.ws
      rw [he]
      exact hh
  | upgrade h hn hr => exact wsUpgradeHttp_held hr hh
  | close code reason h => exact wsClose_held env code reason hh
  | forward data h => exact (networkSend_onlySends env s.ws.peerFd data s.world).fds ▸ hh
  | frame op data h ho => exact (wsSendFrame_onlySends env s.ws op data s.world).fds ▸ hh
  | _ => exact hh

theorem Acts.held (h : Acts env A s t) {fds : List Nat} (hh : Held 0 s.world.fds (s.ws.held ++ fds)) :
    Held 0 t.world.fds (t.ws.held ++ fds) := by
  induction h with
  | refl => exact hh
  | tail _ ha ih => exact ha.held ih

end

/-! ## Runs -/

/-- The descriptors of the slots are open, and none is in two slots or twice in one. -/
structure HeldInv (sock : List (Websocket φ)) (w : World) : Prop where
  numbered : Numbered w.fds w.socks
  held : Held 0 w.fds (sock.flatMap (·.held))

/-- What a connection holds is open. -/
theorem HeldInv.is_open {sock : List (Websocket φ)} {w : World} {ws : Websocket φ} {fd : Nat}
    (h : HeldInv sock w) (hm : ws ∈ sock) (hfd : fd ∈ ws.held) :
    ∃ x, w.sockAt (some fd) = some x := by
  obtain ⟨x, -, hx⟩ := h.held.2 fd (List.mem_flatMap.mpr ⟨ws, hm, hfd⟩)
  exact ⟨x, hx⟩

/-- `accept` leaves what is open as it is. -/
theorem accept_sockAt {w : World} {fd x : Nat} (accepts : Bool)
    (h : w.sockAt (some fd) = some x) : (w.accept accepts).sockAt (some fd) = some x := by
  cases accepts with
  | false => exact h
  | true => exact entry_install_of_some h

/-- The sockets of the connections that are there stay what they are. -/
theorem HeldInv.accept_sockAt {sock : List (Websocket φ)} {w : World} {ws : Websocket φ}
    (h : HeldInv sock w) (hm : ws ∈ sock) (accepts : Bool) :
    (w.accept accepts).sockAt ws.wsFd = w.sockAt ws.wsFd ∧
      (w.accept accepts).sockAt ws.peerFd = w.sockAt ws.peerFd := by
  have hsame : ∀ fd ∈ ws.held, (w.accept accepts).sockAt (some fd) = w.sockAt (some fd) := by
    intro fd hfd
    obtain ⟨x, hx⟩ := h.is_open hm hfd
    rw [Websocksy.accept_sockAt accepts hx, hx]
  constructor
  · cases hfd : ws.wsFd with
    | none => rfl
    | some fd => exact hsame fd (by simp [Websocket.held, hfd])
  · cases hfd : ws.peerFd with
    | none => rfl
    | some fd => exact hsame fd (by simp [Websocket.held, hfd])

/-- A connection in front of the others. -/
theorem HeldInv.front {l₁ l₂ : List (Websocket φ)} {ws : Websocket φ} {w : World}
    (h : HeldInv (l₁ ++ ws :: l₂) w) : Held 0 w.fds (ws.held ++ (l₁ ++ l₂).flatMap (·.held)) := by
  have := h.held.perm (List.perm_middle.flatMap_right Websocket.held)
  rwa [List.flatMap_cons] at this

theorem HeldInv.of_front {l₁ l₂ : List (Websocket φ)} {ws : Websocket φ} {w : World}
    (hn : Numbered w.fds w.socks) (h : Held 0 w.fds (ws.held ++ (l₁ ++ l₂).flatMap (·.held))) :
    HeldInv (l₁ ++ ws :: l₂) w := by
  refine ⟨hn, Held.perm ?_ (List.perm_middle.flatMap_right Websocket.held).symm⟩
  rwa [List.flatMap_cons]

theorem heldRule (env : Env φ) : CoreRule env Scope.all (HeldInv (φ := φ)) where
  init c hc := by
    obtain ⟨-, -, -, hn, -⟩ := hc
    exact ⟨hn, List.nodup_nil, by simp⟩
  selected sock w xs hi := ⟨hi.numbered, hi.held⟩
  accept l₁ old l₂ w now accepts hold hreg hi := by
    have hrest : Held 0 w.fds ((l₁ ++ l₂).flatMap (·.held)) := by
      have hheld := hi.held
      rw [List.flatMap_append, List.flatMap_append] at hheld
      rw [List.flatMap_append]
      exact hheld.sublist ((List.sublist_append_right _ _).append_left _)
    cases accepts with
    | false => exact .of_front hi.numbered hrest
    | true => exact .of_front hi.numbered.install (hrest.install (Nat.zero_le _))
  serve l₁ l₂ ws w ready w' t hreg hi hw ht := by
    have hrecv : w'.fds = w.fds ∧ w'.socks = w.socks := by cases hw <;> exact ⟨rfl, rfl⟩
    refine .of_front (ht.later.numbered ?_) (ht.held ?_)
    · rw [hrecv.1, hrecv.2]
      exact hi.numbered
    · rw [hrecv.1]
      exact hi.front
  quit sock w fd hc hi := ⟨(Later.closeFd w fd).numbered hi.numbered, List.nodup_nil, by simp⟩

/-- The descriptors in every run. -/
theorem coreLoop_heldInv {env : Env φ} {ok : Core φ → Input → Prop} {c : Core φ}
    (h : (coreLoop env).Reach ok c) : HeldInv c.sock c.world := (heldRule env).reach_all h

end Websocksy

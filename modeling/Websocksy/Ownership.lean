import Websocksy.Closing
import Websocksy.Segmentation

/-!
# Who holds a peer socket

`OwnershipInv` ties the descriptor table, the registry and the log together.  The
descriptors in the slots are exactly those that the program has open beyond the ones
it started with; a socket was closed once if it is no longer open; and a peer socket
is open at the `peer_fd` of the connection it was opened for.  The order of the slots
does not matter to it, so that a handler can be followed with its slot in front.
-/

namespace Websocksy

open Buffer CString Lines FdTable

variable {φ : Type}

def Event.isOpened (conn : Nat) : Event → Bool
  | .opened c _ => c == conn
  | _ => false

/-- The event is about no descriptor that comes or goes. -/
def Event.Neutral : Event → Prop
  | .accepted _ _ | .opened _ _ | .closed _ => False
  | _ => True

/-- What `ws_close` does after its note. -/
def Event.OfClose : Event → Prop
  | .wrote _ _ | .sendFailed _ | .closed _ => True
  | _ => False

/-- At the end of the log, `ws_close` is at work on the connection. -/
def ClosingNow (conn : Nat) (log : List Event) : Prop :=
  ∃ pre reason mid, log = pre ++ .wsClose conn reason :: mid ∧ ∀ e ∈ mid, e.OfClose

/-- A call of `ws_close` on the connection closed the socket. -/
def ClosedBy (conn x : Nat) (log : List Event) : Prop :=
  ∃ pre post, log = pre ++ .closed x :: post ∧ ClosingNow conn pre

structure OwnershipInv (base : Nat) (sock : List (Websocket φ)) (w : World) : Prop where
  numbered : Numbered w.fds w.socks
  base_le : base ≤ w.socks
  held : Held base w.fds (sock.flatMap (·.held))
  noLeak : NoLeak base w.fds (sock.flatMap (·.held))
  ledger : ∀ x, base ≤ x → w.log.count (.closed x) = if x < w.socks ∧ some x ∉ w.fds then 1 else 0
  range : ∀ conn x, .opened conn x ∈ w.log ∨ .accepted conn x ∈ w.log → base ≤ x ∧ x < w.socks
  peer : ∀ conn x, .opened conn x ∈ w.log → ∀ fd, entry w.fds fd = some x →
    ∃ ws ∈ sock, ws.conn = conn ∧ ws.peerFd = some fd
  byClose : ∀ conn x, .opened conn x ∈ w.log → .closed x ∈ w.log → ClosedBy conn x w.log
  once : ∀ conn, w.log.countP (·.isOpened conn) ≤ 1
  fresh : ∀ ws ∈ sock, InHttp ws → ws.peerFd = none → ∀ x, .opened ws.conn x ∉ w.log
  later : ∀ conn x, .opened conn x ∈ w.log → conn < w.conns

/-! ## Tables and logs -/

theorem mem_iff_entry (t : Table) (x : Nat) : some x ∈ t ↔ ∃ fd, entry t fd = some x := by
  unfold entry
  rw [List.mem_iff_getElem?]
  refine exists_congr fun fd => ?_
  rw [List.getD_eq_getElem?_getD]
  cases t[fd]? with
  | none => simp
  | some y => simp

theorem ClosedBy.append {conn x : Nat} {log : List Event} (h : ClosedBy conn x log)
    (es : List Event) : ClosedBy conn x (log ++ es) := by
  obtain ⟨pre, post, rfl, hn⟩ := h
  exact ⟨pre, post ++ es, by simp, hn⟩

theorem ClosingNow.append {conn : Nat} {log es : List Event} (h : ClosingNow conn log)
    (hes : ∀ e ∈ es, e.OfClose) : ClosingNow conn (log ++ es) := by
  obtain ⟨pre, reason, mid, rfl, hmid⟩ := h
  refine ⟨pre, reason, mid ++ es, by simp, fun e he => ?_⟩
  exact (List.mem_append.mp he).elim (hmid e) (hes e)

theorem countP_isOpened_neutral {es : List Event} (h : ∀ e ∈ es, e.Neutral) (conn : Nat) :
    es.countP (·.isOpened conn) = 0 := by
  rw [List.countP_eq_zero]
  intro e he ho
  have := h e he
  cases e <;> first | exact this | cases ho

theorem count_closed_neutral {es : List Event} (h : ∀ e ∈ es, e.Neutral) (x : Nat) :
    es.count (.closed x) = 0 := by
  rw [List.count_eq_zero]
  exact fun he => h _ he

theorem OnlySends.neutral {fd : Option Nat} {w w' : World} (h : OnlySends fd w w') :
    ∃ es, w'.log = w.log ++ es ∧ (∀ e ∈ es, e.Neutral) ∧ ∀ e ∈ es, e.OfClose := by
  obtain ⟨es, he, hes⟩ := h.log
  refine ⟨es, he, fun e hm => ?_, fun e hm => ?_⟩
  all_goals obtain ⟨x, -, rfl | ⟨d, rfl⟩⟩ := hes e hm <;> trivial

/-! ## What keeps the invariant -/

section

variable {base : Nat} {sock rest : List (Websocket φ)} {ws ws' : Websocket φ} {w w' : World}

theorem OwnershipInv.perm (h : OwnershipInv base sock w) (hp : sock.Perm rest) :
    OwnershipInv base rest w := by
  have hheld := hp.flatMap_right (·.held)
  refine { h with held := h.held.perm hheld, noLeak := h.noLeak.perm hheld, peer := ?_, fresh := ?_ }
  · intro conn x ho fd hx
    obtain ⟨ws, hm, hws⟩ := h.peer conn x ho fd hx
    exact ⟨ws, hp.mem_iff.mp hm, hws⟩
  · exact fun ws hm => h.fresh ws (hp.mem_iff.mpr hm)

/-- Things happen, but no descriptor comes or goes. -/
theorem OwnershipInv.note (h : OwnershipInv base sock w) {es : List Event}
    (hfds : w'.fds = w.fds) (hsocks : w'.socks = w.socks) (hconns : w'.conns = w.conns)
    (hlog : w'.log = w.log ++ es) (hes : ∀ e ∈ es, e.Neutral) : OwnershipInv base sock w' := by
  have hold : ∀ e : Event, ¬e.Neutral → e ∈ w'.log → e ∈ w.log := by
    intro e hn he
    rw [hlog] at he
    exact (List.mem_append.mp he).resolve_right fun hm => hn (hes e hm)
  have hopened : ∀ conn x, .opened conn x ∈ w'.log → .opened conn x ∈ w.log :=
    fun conn x => hold _ id
  refine ⟨?_, ?_, ?_, ?_, fun x hx => ?_, fun conn x hm => ?_, fun conn x hm fd hx => ?_,
    fun conn x ho hc => ?_, fun conn => ?_, fun v hv hvh hvp x ho => ?_, fun conn x ho => ?_⟩
  · rw [hfds, hsocks]
    exact h.numbered
  · rw [hsocks]
    exact h.base_le
  · rw [hfds]
    exact h.held
  · rw [hfds]
    exact h.noLeak
  · rw [hlog, List.count_append, count_closed_neutral hes, hfds, hsocks, Nat.add_zero]
    exact h.ledger x hx
  · rw [hsocks]
    exact h.range conn x (hm.imp (hopened conn x) (hold _ id))
  · rw [hfds] at hx
    exact h.peer conn x (hopened conn x hm) fd hx
  · rw [hlog]
    exact (h.byClose conn x (hopened conn x ho) (hold _ id hc)).append es
  · rw [hlog, List.countP_append, countP_isOpened_neutral hes, Nat.add_zero]
    exact h.once conn
  · exact h.fresh v hv hvh hvp x (hopened _ x ho)
  · rw [hconns]
    exact h.later conn x (hopened conn x ho)

/-- The connection in front changes, but not what it holds. -/
theorem OwnershipInv.slot (h : OwnershipInv base (ws :: rest) w) (hconn : ws'.conn = ws.conn)
    (hw : ws'.wsFd = ws.wsFd) (hp : ws'.peerFd = ws.peerFd) (hh : InHttp ws' → InHttp ws) :
    OwnershipInv base (ws' :: rest) w := by
  have hheld : (ws' :: rest).flatMap (·.held) = (ws :: rest).flatMap (·.held) := by
    simp only [List.flatMap_cons, Websocket.held, hw, hp]
  refine { h with
    held := hheld ▸ h.held, noLeak := hheld ▸ h.noLeak, peer := fun conn x ho fd hx => ?_
    fresh := fun v hv hvh hvp x ho => ?_ }
  · obtain ⟨v, hv, hvc, hvp⟩ := h.peer conn x ho fd hx
    rcases List.mem_cons.mp hv with rfl | hv
    · exact ⟨ws', List.mem_cons_self, hconn.trans hvc, hp.trans hvp⟩
    · exact ⟨v, List.mem_cons_of_mem _ hv, hvc, hvp⟩
  · rcases List.mem_cons.mp hv with rfl | hv
    · rw [hconn] at ho
      exact h.fresh ws List.mem_cons_self (hh hvh) (hp ▸ hvp) x ho
    · exact h.fresh v (List.mem_cons_of_mem _ hv) hvh hvp x ho

theorem OwnershipInv.record (h : OwnershipInv base sock w) {e : Event} (he : e.Neutral) :
    OwnershipInv base sock (w.record e) :=
  h.note rfl rfl rfl (World.record_log _ e) (by simpa using he)

theorem OwnershipInv.sends (h : OwnershipInv base sock w) {fd : Option Nat}
    (hs : OnlySends fd w w') : OwnershipInv base sock w' := by
  obtain ⟨es, he, hes, -⟩ := hs.neutral
  exact h.note hs.fds hs.socks hs.conns he hes

/-- A slot that holds no descriptor may be left out. -/
theorem OwnershipInv.drop (h : OwnershipInv base (ws :: rest) w) (hh : ws.held = []) :
    OwnershipInv base rest w := by
  have hheld : (ws :: rest).flatMap (·.held) = rest.flatMap (·.held) := by
    rw [List.flatMap_cons, hh, List.nil_append]
  have hpeer : ws.peerFd = none := by
    unfold Websocket.held at hh
    simpa using (List.append_eq_nil_iff.mp hh).2
  refine { h with held := hheld ▸ h.held, noLeak := hheld ▸ h.noLeak, peer := ?_, fresh := ?_ }
  · intro conn x ho fd hx
    obtain ⟨v, hv, hvc, hvp⟩ := h.peer conn x ho fd hx
    rcases List.mem_cons.mp hv with rfl | hv
    · rw [hpeer] at hvp
      cases hvp
    · exact ⟨v, hv, hvc, hvp⟩
  · exact fun v hv => h.fresh v (List.mem_cons_of_mem _ hv)

theorem OwnershipInv.drop_all (h : OwnershipInv base sock w) (hh : ∀ ws ∈ sock, ws.held = []) :
    OwnershipInv base ([] : List (Websocket φ)) w := by
  induction sock with
  | nil => exact h
  | cons ws sock ih =>
      exact ih (h.drop (hh ws List.mem_cons_self)) fun v hv => hh v (List.mem_cons_of_mem _ hv)

theorem mem_release {t : Table} {n fd x : Nat} (ht : Numbered t n) (hx : entry t fd = some x)
    (y : Nat) : some y ∈ release t fd ↔ some y ∈ t ∧ y ≠ x := by
  rw [mem_iff_entry, mem_iff_entry]
  constructor
  · rintro ⟨gd, hg⟩
    rw [entry_release] at hg
    split at hg
    · cases hg
    · next hne =>
      refine ⟨⟨gd, hg⟩, ?_⟩
      rintro rfl
      exact hne (ht.2 gd fd _ hg hx)
  · rintro ⟨⟨gd, hg⟩, hne⟩
    refine ⟨gd, ?_⟩
    rw [entry_release, if_neg]
    · exact hg
    · rintro rfl
      rw [hx] at hg
      exact hne (Option.some.inj hg).symm

/-- `ws_close` closes a descriptor of the connection in front. -/
theorem OwnershipInv.closeFd (h : OwnershipInv base (ws :: rest) w) {fd : Option Nat}
    (hconn : ws'.conn = ws.conn) (hheld : ws.held.Perm (fd.toList ++ ws'.held))
    (hpeer : ws'.peerFd = ws.peerFd ∨ ws.peerFd = fd) (hnow : ClosingNow ws.conn w.log)
    (hstate : ¬InHttp ws') : OwnershipInv base (ws' :: rest) (w.closeFd fd) := by
  have hflat : ((ws :: rest).flatMap (·.held)).Perm
      (fd.toList ++ (ws' :: rest).flatMap (·.held)) := by
    rw [List.flatMap_cons, List.flatMap_cons, ← List.append_assoc]
    exact hheld.append_right _
  have hheld' := h.held.perm hflat
  have hleak' := h.noLeak.perm hflat
  have hpeers : ∀ conn x, .opened conn x ∈ w.log → ∀ gd, entry (w.closeFd fd).fds gd = some x →
      ∃ v ∈ ws' :: rest, v.conn = conn ∧ v.peerFd = some gd := by
    intro conn x ho gd hx
    have hsock : (w.closeFd fd).sockAt (some gd) = some x := hx
    rw [closeFd_sockAt] at hsock
    split at hsock
    · cases hsock
    · next hne =>
      obtain ⟨v, hv, hvc, hvp⟩ := h.peer conn x ho gd hsock
      rcases List.mem_cons.mp hv with rfl | hv
      · refine ⟨ws', List.mem_cons_self, hconn.trans hvc, ?_⟩
        rcases hpeer with he | he
        · exact he.trans hvp
        · exact absurd (hvp.symm.trans he) hne
      · exact ⟨v, List.mem_cons_of_mem _ hv, hvc, hvp⟩
  have hfresh : ∀ v ∈ ws' :: rest, InHttp v → v.peerFd = none →
      ∀ x, .opened v.conn x ∉ w.log := by
    intro v hv hvh
    rcases List.mem_cons.mp hv with rfl | hv
    · exact absurd hvh hstate
    · exact h.fresh v (List.mem_cons_of_mem _ hv) hvh
  cases fd with
  | none =>
      rw [closeFd_none rfl] at hpeers ⊢
      exact { h with held := hheld', noLeak := hleak', peer := hpeers, fresh := hfresh }
  | some n =>
      obtain ⟨x, hbase, hx⟩ := hheld'.2 n List.mem_cons_self
      have hsock : w.sockAt (some n) = some x := hx
      rw [closeFd_some hsock] at hpeers ⊢
      have hmem : ∀ e : Event, (∀ y, e ≠ .closed y) → e ∈ w.log ++ [.closed x] → e ∈ w.log := by
        intro e hne he
        exact (List.mem_append.mp he).resolve_right fun hm => hne x (List.mem_singleton.mp hm)
      have hopened : ∀ conn y, .opened conn y ∈ w.log ++ [Event.closed x] → .opened conn y ∈ w.log :=
        fun conn y => hmem _ (by simp)
      refine ⟨h.numbered.release n, h.base_le, hheld'.release, hleak'.release, fun y hy => ?_,
        fun conn y hm => ?_, fun conn y ho => hpeers conn y (hopened conn y ho),
        fun conn y ho hc => ?_, fun conn => ?_, fun v hv hvh hvp y ho => ?_, fun conn y ho => ?_⟩
      · have hold := h.ledger y hy
        have hlt := h.numbered.1 n x hx
        have hin : some x ∈ w.fds := (mem_iff_entry _ _).mpr ⟨n, hx⟩
        have hrel := mem_release h.numbered hx y
        rw [World.record_log, List.count_append, hold]
        by_cases he : y = x
        · subst he
          simp [hrel, hin, hlt]
        · simp [hrel, he, Ne.symm he]
      · exact h.range conn y (hm.imp (hopened conn y) (hmem _ (by simp)))
      · have hold := hopened conn y ho
        rcases List.mem_append.mp hc with hc | hc
        · exact (h.byClose conn y hold hc).append _
        · cases List.mem_singleton.mp hc
          obtain ⟨v, hv, hvc, hvp⟩ := h.peer conn x hold n hx
          -- the descriptor is in one slot only, the one in front
          rcases List.mem_cons.mp hv with rfl | hv
          · exact ⟨w.log, [], rfl, hvc ▸ hnow⟩
          · have hn : n ∉ (ws' :: rest).flatMap (·.held) := (List.nodup_cons.mp hheld'.1).1
            refine absurd (List.mem_flatMap.mpr ⟨v, List.mem_cons_of_mem _ hv, ?_⟩) hn
            simp [Websocket.held, hvp]
      · have hone := h.once conn
        simpa [List.countP_append, Event.isOpened] using hone
      · exact hfresh v hv hvh hvp y (hopened _ y ho)
      · exact h.later conn y (hopened conn y ho)

theorem OwnershipInv.wsClose (env : Env φ) (code : WsCloseReason) (reason : Option Bytes)
    (h : OwnershipInv base (ws :: rest) w) :
    OwnershipInv base ((wsClose env code reason ⟨ws, w⟩).ws :: rest)
      (wsClose env code reason ⟨ws, w⟩).world := by
  have hsends := wsCloseSend_onlySends env ws code reason (w.record (.wsClose ws.conn reason))
  have hnoted : OwnershipInv base (ws :: rest) (w.record (.wsClose ws.conn reason)) :=
    h.record trivial
  obtain ⟨es, he, -, hes⟩ := hsends.neutral
  have hnow : ClosingNow ws.conn (wsCloseWorld env code reason ⟨ws, w⟩).log :=
    ⟨w.log, reason, es, by rw [wsCloseWorld, he, World.record_log]; simp, hes⟩
  have hclient : OwnershipInv base ({ ws with state := .wsClosed, wsFd := none } :: rest)
      ((wsCloseWorld env code reason ⟨ws, w⟩).closeFd ws.wsFd) := by
    refine (hnoted.sends hsends).closeFd rfl ?_ (.inl rfl) hnow ?_
    · simp [Websocket.held]
    · rintro (hs | hs) <;> cases hs
  have hnow' : ClosingNow ws.conn ((wsCloseWorld env code reason ⟨ws, w⟩).closeFd ws.wsFd).log := by
    rw [closeFd_log]
    refine hnow.append fun e hm => ?_
    obtain ⟨x, -, rfl⟩ := List.mem_map.mp hm
    trivial
  show OwnershipInv base ((Websocksy.wsClose env code reason ⟨ws, w⟩).ws :: rest) _
  refine hclient.closeFd rfl ?_ (.inr rfl) hnow' ?_
  · simp [Websocket.held, wsClose_ws]
  · rintro (hs | hs) <;> cases hs

theorem mem_install (t : Table) (x y : Nat) : some y ∈ install t x ↔ y = x ∨ some y ∈ t := by
  rw [mem_iff_entry, mem_iff_entry]
  constructor
  · rintro ⟨fd, hfd⟩
    rw [entry_install] at hfd
    split at hfd
    · exact .inl (Option.some.inj hfd).symm
    · exact .inr ⟨fd, hfd⟩
  · rintro (rfl | ⟨fd, hfd⟩)
    · exact ⟨lowest t, by rw [entry_install, if_pos rfl]⟩
    · refine ⟨fd, ?_⟩
      rw [entry_install, if_neg]
      · exact hfd
      · rintro rfl
        rw [entry_lowest] at hfd
        cases hfd

/-- A new socket comes to the connection in front: its client's, or a peer's if it had none. -/
inductive Installed (ws ws' : Websocket φ) (w : World) : Event → Prop
  | client (hw : ws.wsFd = none) (hw' : ws'.wsFd = some (lowest w.fds)) (hp : ws'.peerFd = ws.peerFd)
      (hh : InHttp ws' → InHttp ws) : Installed ws ws' w (.accepted ws.conn w.socks)
  | peer (hp : ws.peerFd = none) (hp' : ws'.peerFd = some (lowest w.fds)) (hw : ws'.wsFd = ws.wsFd)
      (hh : InHttp ws) (hc : ws.conn < w.conns) : Installed ws ws' w (.opened ws.conn w.socks)

theorem Installed.held {e : Event} (h : Installed ws ws' w e) :
    (lowest w.fds :: ws.held).Perm ws'.held := by
  unfold Websocket.held
  cases h with
  | client hw hw' hp hh => simp [hw, hw', hp]
  | peer hp hp' hw hh hc =>
      simp only [hp, hp', hw, Option.toList_none, Option.toList_some, List.append_nil]
      exact (List.perm_append_singleton _ _).symm

/-- A socket that was opened was opened before, or is the peer's that comes. -/
theorem Installed.opened {e : Event} (he : Installed ws ws' w e) {conn x : Nat}
    (ho : .opened conn x ∈ w.log ++ [e]) :
    .opened conn x ∈ w.log ∨ conn = ws.conn ∧ x = w.socks ∧ ws'.peerFd = some (lowest w.fds) ∧
      ws.peerFd = none ∧ ws.conn < w.conns := by
  refine (List.mem_append.mp ho).imp id fun hm => ?_
  have hm := List.mem_singleton.mp hm
  cases he with
  | client hw hw' hp hh => cases hm
  | peer hp hp' hw hh hc =>
      cases hm
      exact ⟨rfl, rfl, hp', hp, hc⟩

theorem Installed.count_closed {e : Event} (he : Installed ws ws' w e) (x : Nat) :
    (w.log ++ [e]).count (.closed x) = w.log.count (.closed x) := by
  cases he <;> simp

/-- The socket that comes is a new one. -/
theorem OwnershipInv.not_opened (h : OwnershipInv base sock w) (conn : Nat) :
    .opened conn w.socks ∉ w.log := by
  intro ho
  exact Nat.lt_irrefl _ (h.range conn _ (.inl ho)).2

section

variable {e : Event}

theorem OwnershipInv.install_ledger (h : OwnershipInv base (ws :: rest) w)
    (he : Installed ws ws' w e) {x : Nat} (hx : base ≤ x) :
    (w.openSock.record e).log.count (.closed x) =
      if x < (w.openSock.record e).socks ∧ some x ∉ (w.openSock.record e).fds then 1 else 0 := by
  rw [World.record_log, show w.openSock.log = w.log from rfl, he.count_closed, h.ledger x hx]
  simp only [World.record_fds, World.record_socks, World.openSock, mem_install, not_or]
  refine if_congr ?_ rfl rfl
  constructor
  · rintro ⟨hlt, hn⟩
    exact ⟨Nat.lt_succ_of_lt hlt, Nat.ne_of_lt hlt, hn⟩
  · rintro ⟨hlt, hne, hn⟩
    exact ⟨by omega, hn⟩

theorem OwnershipInv.install_range (h : OwnershipInv base (ws :: rest) w)
    (he : Installed ws ws' w e) {conn x : Nat}
    (hm : .opened conn x ∈ w.log ++ [e] ∨ .accepted conn x ∈ w.log ++ [e]) :
    base ≤ x ∧ x < w.socks + 1 := by
  have hbase := h.base_le
  rw [List.mem_append, List.mem_append, or_or_or_comm] at hm
  rcases hm with hm | hm
  · have := h.range conn x hm
    omega
  · have hx : x = w.socks := by
      rw [List.mem_singleton, List.mem_singleton] at hm
      cases he <;> rcases hm with hm | hm <;> cases hm <;> rfl
    omega

theorem OwnershipInv.install_peer (h : OwnershipInv base (ws :: rest) w)
    (hconn : ws'.conn = ws.conn) (he : Installed ws ws' w e) {conn x fd : Nat}
    (ho : .opened conn x ∈ w.log ++ [e]) (hx : entry (FdTable.install w.fds w.socks) fd = some x) :
    ∃ v ∈ ws' :: rest, v.conn = conn ∧ v.peerFd = some fd := by
  rw [entry_install] at hx
  rcases he.opened ho with ho | ⟨rfl, rfl, hp', -⟩
  · split at hx
    · cases hx
      exact absurd ho (h.not_opened conn)
    · obtain ⟨v, hv, hvc, hvp⟩ := h.peer conn x ho fd hx
      rcases List.mem_cons.mp hv with rfl | hv
      · refine ⟨ws', List.mem_cons_self, hconn.trans hvc, ?_⟩
        cases he with
        | client hw hw' hp hh => exact hp.trans hvp
        | peer hp hp' hw hh hc =>
            rw [hp] at hvp
            cases hvp
      · exact ⟨v, List.mem_cons_of_mem _ hv, hvc, hvp⟩
  · split at hx
    · next hfd => exact ⟨ws', List.mem_cons_self, hconn, hfd ▸ hp'⟩
    · exact absurd (h.numbered.1 fd _ hx) (Nat.lt_irrefl _)

theorem OwnershipInv.install_byClose (h : OwnershipInv base (ws :: rest) w)
    (he : Installed ws ws' w e) {conn x : Nat} (ho : .opened conn x ∈ w.log ++ [e])
    (hc : .closed x ∈ w.log ++ [e]) : ClosedBy conn x (w.log ++ [e]) := by
  have hc : .closed x ∈ w.log := by
    rw [← List.count_pos_iff, he.count_closed, List.count_pos_iff] at hc
    exact hc
  rcases he.opened ho with ho | ⟨-, rfl, -⟩
  · exact (h.byClose conn x ho hc).append _
  · have hcount := h.ledger _ h.base_le
    rw [if_neg (fun hlt => Nat.lt_irrefl _ hlt.1), List.count_eq_zero] at hcount
    exact absurd hc hcount

theorem OwnershipInv.install_once (h : OwnershipInv base (ws :: rest) w)
    (he : Installed ws ws' w e) (conn : Nat) :
    (w.log ++ [e]).countP (·.isOpened conn) ≤ 1 := by
  have hone := h.once conn
  rw [List.countP_append]
  cases he with
  | client hw hw' hp hh => simpa [Event.isOpened] using hone
  | peer hp hp' hw hh hc =>
      by_cases hcc : ws.conn = conn
      · -- a connection without a peer in the HTTP phase has opened nothing
        have hzero : w.log.countP (·.isOpened conn) = 0 := by
          rw [List.countP_eq_zero]
          intro e hm ho
          cases e with
          | opened c x =>
              have hc : c = conn := by simpa [Event.isOpened] using ho
              rw [hc, ← hcc] at hm
              exact h.fresh ws List.mem_cons_self hh hp x hm
          | _ => cases ho
        rw [hzero]
        simp [Event.isOpened, hcc]
      · simpa [Event.isOpened, hcc] using hone

theorem OwnershipInv.install_fresh (h : OwnershipInv base (ws :: rest) w)
    (hconn : ws'.conn = ws.conn) (hd : ∀ v ∈ rest, v.conn ≠ ws.conn) (he : Installed ws ws' w e)
    {v : Websocket φ} (hv : v ∈ ws' :: rest) (hvh : InHttp v) (hvp : v.peerFd = none) (x : Nat) :
    .opened v.conn x ∉ w.log ++ [e] := by
  intro ho
  rcases List.mem_cons.mp hv with rfl | hv
  · rcases he.opened ho with hold | ⟨-, -, hp', -⟩
    · cases he with
      | client hw hw' hp hh =>
          rw [hconn] at hold
          exact h.fresh ws List.mem_cons_self (hh hvh) (hp ▸ hvp) x hold
      | peer hp hp' hw hh hc =>
          rw [hp'] at hvp
          cases hvp
    · rw [hp'] at hvp
      cases hvp
  · rcases he.opened ho with hold | ⟨hvc, -⟩
    · exact h.fresh v (List.mem_cons_of_mem _ hv) hvh hvp x hold
    · exact hd v hv hvc

theorem OwnershipInv.install (h : OwnershipInv base (ws :: rest) w)
    (hconn : ws'.conn = ws.conn) (hd : ∀ v ∈ rest, v.conn ≠ ws.conn) (he : Installed ws ws' w e) :
    OwnershipInv base (ws' :: rest) (w.openSock.record e) := by
  have hflat : (lowest w.fds :: (ws :: rest).flatMap (·.held)).Perm
      ((ws' :: rest).flatMap (·.held)) := by
    rw [List.flatMap_cons, List.flatMap_cons, ← List.cons_append]
    exact he.held.append_right _
  exact {
    numbered := h.numbered.install
    base_le := Nat.le_succ_of_le h.base_le
    held := (h.held.install h.base_le).perm hflat
    noLeak := h.noLeak.install.perm hflat
    ledger := fun x hx => h.install_ledger he hx
    range := fun conn x hm => h.install_range he hm
    peer := fun conn x ho fd hx => h.install_peer hconn he ho hx
    byClose := fun conn x ho hc => h.install_byClose he ho hc
    once := fun conn => h.install_once he conn
    fresh := fun v hv hvh hvp x => h.install_fresh hconn hd he hv hvh hvp x
    later := by
      intro conn x ho
      rcases he.opened ho with ho | ⟨rfl, -, -, -, hc⟩
      · exact h.later conn x ho
      · exact hc }

end

/-- A connection that holds nothing is new in the registry. -/
theorem OwnershipInv.push (h : OwnershipInv base rest w) (hconn : ws.conn = w.conns)
    (hw : ws.wsFd = none) (hp : ws.peerFd = none) :
    OwnershipInv base (ws :: rest) { w with conns := w.conns + 1 } := by
  have hheld : (ws :: rest).flatMap (·.held) = rest.flatMap (·.held) := by
    simp [Websocket.held, hw, hp]
  refine { h with
    held := hheld ▸ h.held, noLeak := hheld ▸ h.noLeak, peer := fun conn x ho fd hx => ?_
    fresh := fun v hv hvh hvp x ho => ?_, later := fun conn x ho => ?_ }
  · obtain ⟨v, hv, hvs⟩ := h.peer conn x ho fd hx
    exact ⟨v, List.mem_cons_of_mem _ hv, hvs⟩
  · rcases List.mem_cons.mp hv with rfl | hv
    · exact absurd (h.later _ x ho) (by omega)
    · exact h.fresh v hv hvh hvp x ho
  · exact Nat.lt_succ_of_lt (h.later conn x ho)

/-- The descriptors the program started with are not its own. -/
theorem OwnershipInv.quit (h : OwnershipInv base ([] : List (Websocket φ)) w) (fd : Option Nat) :
    OwnershipInv base ([] : List (Websocket φ)) (w.closeFd fd) := by
  cases hx : w.sockAt fd with
  | none => rwa [closeFd_none hx]
  | some x =>
      cases fd with
      | none => cases hx
      | some n =>
          have hlt : x < base := by
            by_contra hge
            exact List.not_mem_nil (h.noLeak n x hx (Nat.le_of_not_lt hge))
          have hne : ∀ y, base ≤ y → y ≠ x := fun y hy e => Nat.not_lt.mpr hy (e ▸ hlt)
          have hmem : ∀ e : Event, e ≠ .closed x → e ∈ w.log ++ [.closed x] → e ∈ w.log :=
            fun e he hm => (List.mem_append.mp hm).resolve_right fun h => he (List.mem_singleton.mp h)
          have hopened : ∀ conn y, .opened conn y ∈ w.log ++ [Event.closed x] →
              .opened conn y ∈ w.log := fun conn y => hmem _ (by simp)
          rw [closeFd_some hx]
          refine ⟨h.numbered.release n, h.base_le, ⟨List.nodup_nil, by simp⟩, fun gd y hy hb => ?_,
            fun y hy => ?_, fun conn y hm => ?_, fun conn y ho gd hy => ?_, fun conn y ho hc => ?_,
            fun conn => ?_, by simp, fun conn y ho => h.later conn y (hopened conn y ho)⟩
          · rw [World.record_fds, entry_release] at hy
            split at hy
            · cases hy
            · exact h.noLeak gd y hy hb
          · have hold := h.ledger y hy
            have hrel := mem_release h.numbered hx y
            rw [World.record_log, List.count_append, hold]
            simp [hrel, hne y hy, Ne.symm (hne y hy)]
          · exact h.range conn y (hm.imp (hopened conn y) (hmem _ (by simp)))
          · rw [World.record_fds, entry_release] at hy
            split at hy
            · cases hy
            · exact h.peer conn y (hopened conn y ho) gd hy
          · have hold := hopened conn y ho
            have hy := hne y (h.range conn y (.inl hold)).1
            exact (h.byClose conn y hold (hmem _ (by simpa using hy) hc)).append _
          · have hone := h.once conn
            simpa [List.countP_append, Event.isOpened] using hone

/-! ## Acts -/

variable {env : Env φ} {A : Scope} {s t : Conn φ}

theorem Act.ownershipInv (hA : A.Ordered) (h : Act env A s t) (hst : StateInv env s.ws)
    (hc : s.ws.conn < s.world.conns) (hd : ∀ v ∈ rest, v.conn ≠ s.ws.conn)
    (hi : OwnershipInv base (s.ws :: rest) s.world) :
    OwnershipInv base (t.ws :: rest) t.world := by
  have hsame : ∀ ws : Websocket φ, ws.conn = s.ws.conn → ws.wsFd = s.ws.wsFd →
      ws.peerFd = s.ws.peerFd → ws.state = s.ws.state → OwnershipInv base (ws :: rest) s.world := by
    intro ws h1 h2 h3 h4
    refine hi.slot h1 h2 h3 fun hh => ?_
    rwa [InHttp, h4] at hh
  cases h with
  | bare ws h hr =>
      obtain ⟨rb, ro, le, rfl⟩ := bare_eq h.symm
      exact hsame _ rfl rfl rfl rfl
  | peerBuffer b k fd h => exact hsame _ rfl rfl rfl rfl
  | note e h => exact hi.record (by cases e <;> trivial)
  | line data h => exact hi.record trivial
  | path p h =>
      exact hi.slot rfl rfl rfl fun _ => .inl h
  | header tag value h hn =>
      obtain ⟨hs, ver, key, up, ps, he⟩ := wsHeader_eq tag value s.ws
      rw [he]
      exact hsame _ rfl rfl rfl rfl
  | upgrade h hn hr =>
      have hhttp : InHttp s.ws := .inr (hA.upgrade _ h)
      have hpeer := hst.early hhttp
      have hasked : ∀ n, OwnershipInv base (s.ws :: rest) (s.world.asked s.ws n) := fun n =>
        hi.note rfl rfl rfl (World.record_log _ (.query s.ws.conn s.ws.state s.ws.requestPath))
          (by simp [Event.Neutral])
      have hopened : ∀ p, OwnershipInv base
          (s.ws.connected p (some (lowest s.world.fds)) :: rest) s.peerWorld := fun p =>
        (hasked _).install rfl hd (.peer hpeer rfl rfl hhttp hc)
      have hu := wsUpgradeHttp_cases env hr
      generalize (wsUpgradeHttp env s).2 = t at hu ⊢
      cases hu with
      | refused p =>
          have hfound : OwnershipInv base (s.ws.connected p s.ws.peerFd :: rest) _ :=
            (hasked s.world.connects).slot rfl rfl rfl id
          exact hfound.wsClose env _ _
      | failed p =>
          have hfound : OwnershipInv base (s.ws.connected p none :: rest) _ :=
            (hasked (s.world.connects + 1)).slot rfl rfl hpeer.symm id
          exact hfound.wsClose env _ _
      | dropped p w hs =>
          have hsends := networkSendAll_onlySends env s.ws.wsFd
            (upgradeResponse env (s.ws.connected p (some (lowest s.world.fds)))) s.peerWorld
          rw [hs] at hsends
          exact ((hopened p).sends hsends).wsClose env _ _
      | opened p f hf ho w hs =>
          have hsends := networkSendAll_onlySends env s.ws.wsFd
            (upgradeResponse env (s.ws.connected p (some (lowest s.world.fds)))) s.peerWorld
          rw [hs] at hsends
          refine ((hopened p).sends hsends).slot rfl rfl rfl ?_
          rintro (h | h) <;> cases h
  | close code reason h => exact hi.wsClose env code reason
  | forward data h => exact hi.sends (networkSend_onlySends env _ _ _)
  | frame op data h ho => exact hi.sends (wsSendFrame_onlySends env _ _ _ _)

theorem Acts.ownershipInv (hA : A.Ordered) (h : Acts env A s t) (hst : StateInv env s.ws)
    (hc : s.ws.conn < s.world.conns) (hd : ∀ v ∈ rest, v.conn ≠ s.ws.conn)
    (hi : OwnershipInv base (s.ws :: rest) s.world) :
    OwnershipInv base (t.ws :: rest) t.world := by
  have key : StateInv env t.ws ∧ Local s t ∧ OwnershipInv base (t.ws :: rest) t.world := by
    refine h.invariant (P := fun t => StateInv env t.ws ∧ Local s t ∧
      OwnershipInv base (t.ws :: rest) t.world) (fun u v ha hu => ?_) ⟨hst, .refl s, hi⟩
    obtain ⟨hu1, hu2, hu3⟩ := hu
    refine ⟨ha.stateInv hu1, hu2.trans ha.isLocal, ha.ownershipInv hA hu1 ?_ ?_ hu3⟩
    · rw [hu2.conn, hu2.conns]
      exact hc
    · rw [hu2.conn]
      exact hd
  exact key.2.2

/-! ## Runs -/

theorem OwnershipInv.init (h : Numbered w.fds w.socks) (hlog : w.log = []) :
    OwnershipInv w.socks ([] : List (Websocket φ)) w := by
  refine ⟨h, Nat.le_refl _, ⟨List.nodup_nil, by simp⟩, fun fd x hx hb => ?_, fun x hx => ?_, ?_, ?_,
    ?_, ?_, by simp, ?_⟩
  · exact absurd (h.1 fd x hx) (Nat.not_lt.mpr hb)
  · rw [hlog, if_neg (fun hlt => Nat.not_lt.mpr hx hlt.1)]
    rfl
  all_goals simp [hlog]

theorem ownershipRule (env : Env φ) (hA : A.Ordered) :
    CoreRule env A fun sock w => ∃ base, OwnershipInv base sock w where
  init c hc := by
    obtain ⟨-, -, hlog, hn, -⟩ := hc
    exact ⟨_, .init hn hlog⟩
  selected sock w xs hi := by
    obtain ⟨base, hi⟩ := hi
    exact ⟨base, hi.record trivial⟩
  accept l₁ old l₂ w now accepts hold hreg hi := by
    obtain ⟨base, hi⟩ := hi
    have hrest : OwnershipInv base (l₁ ++ l₂) w := by
      cases old with
      | none => exact hi
      | some old =>
          have hslot := hreg.slots old (by simp)
          have hw : old.wsFd = none := hold old rfl
          have hp : old.peerFd = none := by
            cases hfd : old.peerFd with
            | none => rfl
            | some fd =>
                have := (hslot.opened (hslot.open_of_peer hfd)).1
                rw [hw] at this
                cases this
          exact (hi.perm List.perm_middle).drop (by simp [Websocket.held, hw, hp])
    have hfresh : ∀ v ∈ l₁ ++ l₂, v.conn ≠ w.conns := by
      intro v hv
      have := hreg.numbers v (by
        rw [List.mem_append] at hv ⊢
        exact hv.imp id (List.mem_append_right _))
      omega
    have hpush : OwnershipInv base (acceptedConn now false w :: _) _ := hrest.push rfl rfl rfl
    refine ⟨base, OwnershipInv.perm ?_ List.perm_middle.symm⟩
    cases accepts with
    | false => exact hpush
    | true =>
        show OwnershipInv base (acceptedConn now true w :: (l₁ ++ l₂)) _
        exact hpush.install rfl hfresh (.client rfl rfl rfl id)
  serve l₁ l₂ ws w ready w' t hreg hi hw ht := by
    obtain ⟨base, hi⟩ := hi
    have hself : ws ∈ l₁ ++ ws :: l₂ := by simp
    have hfront : OwnershipInv base (ws :: (l₁ ++ l₂)) w := hi.perm List.perm_middle
    have hrecv : OwnershipInv base (ws :: (l₁ ++ l₂)) w' := by
      cases hw with
      | quiet => exact hfront
      | event fd x e hfd hr hx he =>
          refine hfront.record ?_
          rcases he with rfl | ⟨d, rfl⟩ <;> trivial
    have hconns : w'.conns = w.conns := hw.isLocal.conns
    have hdistinct := (List.perm_middle.map Websocket.conn).nodup_iff.mp hreg.distinct
    rw [List.map_cons, List.nodup_cons] at hdistinct
    refine ⟨base, OwnershipInv.perm ?_ List.perm_middle.symm⟩
    refine ht.ownershipInv hA (hreg.slots ws hself).toStateInv ?_ (fun v hv e => ?_) hrecv
    · rw [hconns]
      exact hreg.numbers ws hself
    · exact hdistinct.1 (e ▸ List.mem_map_of_mem hv)
  quit sock w fd hc hi := by
    obtain ⟨base, hi⟩ := hi
    refine ⟨base, (hi.drop_all fun ws hm => ?_).quit fd⟩
    simp [Websocket.held, (hc ws hm).wsFd, (hc ws hm).peerFd]

/-- A descriptor is in one slot only. -/
theorem held_slot {n m fd : Nat} {v u : Websocket φ} (h : (sock.flatMap (·.held)).Nodup)
    (hn : sock[n]? = some v) (hm : sock[m]? = some u) (hv : fd ∈ v.held) (hu : fd ∈ u.held) :
    m = n := by
  obtain ⟨hnl, rfl⟩ := List.getElem?_eq_some_iff.mp hn
  obtain ⟨hml, rfl⟩ := List.getElem?_eq_some_iff.mp hm
  have hdisjoint := List.pairwise_iff_getElem.mp (List.nodup_flatMap.mp h).2
  rcases Nat.lt_trichotomy m n with hlt | he | hlt
  · exact absurd hv (hdisjoint m n hml hnl hlt hu)
  · exact he
  · exact absurd hu (hdisjoint n m hnl hml hlt hv)

theorem coreLoop_done {ok : Core φ → Input → Prop} {c : Core φ} (h : (coreLoop env).Reach ok c) :
    c.loc = .done → c.sock = [] := by
  refine h.invariant (P := fun c : Core φ => c.loc = .done → c.sock = []) (fun c (hc : coreInit c) _ => hc.1)
    fun c i c' _ _ _ hs hdone => ?_
  cases coreStep_cases hs with
  | round ready now accepts hl h => cases hdone
  | accept ready now accepts hl h => cases hdone
  | quit hl => rfl
  | idle answer fuel l hl hl' => exact absurd hdone hl'
  | client answer fuel n fd ws t hl hn hfd hr h => cases hdone
  | peer answer fuel n fd ws r hl hn hfd hr h =>
      have hloc : (if r.1 then Loc.select else Loc.ping n) = .done := hdone
      split at hloc <;> cases hloc
  | ping answer fuel n ws hl hn => cases hdone

/-- What is promised about the peer sockets, and the sockets at the end. -/
structure PeersOwned (c : Core φ) : Prop where
  once : ∀ conn, c.world.log.countP (·.isOpened conn) ≤ 1
  held : ∀ conn x, .opened conn x ∈ c.world.log → .closed x ∉ c.world.log →
    ∃ (n : Nat) (ws : Websocket φ) (fd : Nat), c.sock[n]? = some ws ∧ ws.conn = conn ∧
      ws.peerFd = some fd ∧ c.world.sockAt (some fd) = some x ∧
      ∀ (m : Nat) (v : Websocket φ), c.sock[m]? = some v → v.wsFd ≠ some fd ∧ (v.peerFd = some fd → m = n)
  closed : ∀ conn x, .opened conn x ∈ c.world.log → .closed x ∈ c.world.log →
    c.world.log.count (.closed x) = 1 ∧ ClosedBy conn x c.world.log ∧
    ∀ fd, c.world.sockAt (some fd) ≠ some x
  done : c.loc = .done → ∀ conn x,
    .opened conn x ∈ c.world.log ∨ .accepted conn x ∈ c.world.log →
    c.world.log.count (.closed x) = 1 ∧ ∀ fd, c.world.sockAt (some fd) ≠ some x

/-- **A peer socket is owned by its connection** from `client_connect` to `ws_close`, in every
run in which no line follows one that ends the HTTP phase in the same read. -/
theorem peers_owned (env : Env φ) (c : Core φ) (h : (coreLoop env).Reach LinesInOrder c) :
    PeersOwned c := by
  obtain ⟨base, hi⟩ := (ownershipRule env Scope.inOrder_ordered).reach
    Scope.inOrder_handles (fun _ _ _ _ _ _ _ _ _ _ _ => trivial) (fun _ _ ho => ho)
    (fun _ _ _ _ _ => trivial) h
  -- the ledger says of each of these sockets whether it is open
  have hgone : ∀ conn x, .opened conn x ∈ c.world.log ∨ .accepted conn x ∈ c.world.log →
      some x ∉ c.world.fds → c.world.log.count (.closed x) = 1 ∧
        ∀ fd, c.world.sockAt (some fd) ≠ some x := by
    intro conn x hm hx
    obtain ⟨hb, hs⟩ := hi.range conn x hm
    refine ⟨by rw [hi.ledger x hb, if_pos ⟨hs, hx⟩], fun fd he => hx ?_⟩
    exact (mem_iff_entry _ _).mpr ⟨fd, he⟩
  have hopen : ∀ conn x, .opened conn x ∈ c.world.log → some x ∈ c.world.fds →
      c.world.log.count (.closed x) = 0 := by
    intro conn x hm hx
    rw [hi.ledger x (hi.range conn x (.inl hm)).1, if_neg (fun he => he.2 hx)]
  refine ⟨hi.once, fun conn x ho hc => ?_, fun conn x ho hc => ?_, fun hdone conn x hm => ?_⟩
  · have hin : some x ∈ c.world.fds := by
      by_contra hx
      have := (hgone conn x (.inl ho) hx).1
      rw [List.count_eq_zero.mpr hc] at this
      cases this
    obtain ⟨fd, hfd⟩ := (mem_iff_entry _ _).mp hin
    obtain ⟨ws, hws, hconn, hpeer⟩ := hi.peer conn x ho fd hfd
    obtain ⟨n, hn⟩ := List.mem_iff_getElem?.mp hws
    have hself : fd ∈ ws.held := by simp [Websocket.held, hpeer]
    refine ⟨n, ws, fd, hn, hconn, hpeer, hfd, fun m v hm => ⟨fun hw => ?_, fun hp => ?_⟩⟩
    · have hv : fd ∈ v.held := by simp [Websocket.held, hw]
      have := held_slot hi.held.1 hn hm hself hv
      subst this
      rw [hn] at hm
      cases hm
      have hnd := (List.nodup_flatMap.mp hi.held.1).1 ws hws
      simp [Websocket.held, hw, hpeer] at hnd
    · exact held_slot hi.held.1 hn hm hself (by simp [Websocket.held, hp])
  · have hx : some x ∉ c.world.fds := by
      intro hx
      have := hopen conn x ho hx
      exact List.count_eq_zero.mp this hc
    obtain ⟨h1, h2⟩ := hgone conn x (.inl ho) hx
    exact ⟨h1, hi.byClose conn x ho hc, h2⟩
  · refine hgone conn x hm fun hx => ?_
    obtain ⟨fd, hfd⟩ := (mem_iff_entry _ _).mp hx
    have hnone := hi.noLeak fd x hfd (hi.range conn x hm).1
    rw [coreLoop_done h hdone] at hnone
    cases hnone

end

/-- A whole request in one read, and after its round the program ends. -/
def sampleUpgrade : List Input :=
  sampleBytes (lineBytes sampleLines) ++ [.serve none 0, .serve none 0, .serve none 0, .quit]

theorem sampleUpgrade_runs : ((coreLoop sampleEnv).exec sampleUpgrade sampleCore).isSome := by
  decide +kernel

theorem peers_owned_sample :
    let c := ((coreLoop sampleEnv).exec sampleUpgrade sampleCore).get sampleUpgrade_runs
    (c.loc = .done ∧ .opened 0 5 ∈ c.world.log) ∧ PeersOwned c :=
  ⟨by decide +kernel, peers_owned sampleEnv _ (.exec (.init sampleCore_init) sampleUpgrade
    (by decide +kernel) (Option.some_get sampleUpgrade_runs).symm)⟩

/-- The request with a second empty line in the same read, which opens a second peer. -/
def sampleTwice : List Input := sampleBytes (lineBytes (sampleLines ++ [[]]))

theorem sampleTwice_runs : ((coreLoop sampleEnv).exec sampleTwice sampleCore).isSome := by
  decide +kernel

theorem peers_owned_fails :
    ¬∀ c, (coreLoop sampleEnv).Reach (fun _ _ => True) c → PeersOwned c := by
  intro h
  have hc := h _ (.exec (.init sampleCore_init) sampleTwice (Machine.meets_true _ _)
    (Option.some_get sampleTwice_runs).symm)
  have htwice : (((coreLoop sampleEnv).exec sampleTwice sampleCore).get
      sampleTwice_runs).world.log.countP (·.isOpened 0) = 2 := by decide +kernel
  have hone := hc.once 0
  rw [htwice] at hone
  omega

end Websocksy

import Websocksy.Attribution
import Websocksy.FramingLoop
import Websocksy.Capacity
import Websocksy.FailuresEnd

/-!
# A round of the core loop

Between two calls of `select` the loop goes over the slots once: each client, its peer and the
keep-alive check have their turn.  A round ends after three turns a slot at most.  No socket is
read twice in it, and unless a send to a client fails (which breaks out of the loop over the slots)
every client that `select` reported is read, and every peer that was reported, if its connection
was not closed before its turn (`round_reads`).
-/

namespace Websocksy

open Buffer CString Lines FdTable

variable {φ : Type}

/-- The socket that `recv` was called for. -/
def Event.reads : Event → Option Nat
  | .received x _ | .recvFailed x => some x
  | _ => none

/-- The sockets that were read, in their order. -/
def readSocks (log : List Event) : List Nat := log.filterMap Event.reads

/-- The event is no `recv`. -/
def Event.Unread (e : Event) : Prop := e.reads = none

/-- The steps between two calls of `select`. -/
def serves (is : List (Option Bytes × Nat)) : List Input := is.map fun i => .serve i.1 i.2

/-- How many turns of the round are past. -/
def Loc.turn : Loc → Nat
  | .client n => 3 * n
  | .peer n => 3 * n + 1
  | .ping n => 3 * n + 2
  | .select | .done => 0

section

variable {env : Env φ} {A : Scope} {s t : Conn φ} {c c₁ c' : Core φ} {w w' : World}
  {es fs : List Event} {answer : Option Bytes} {fuel n steps x fd : Nat} {ws : Websocket φ}
  {ready : List Nat} {now : Int} {accepts : Bool}

theorem readSocks_append (l m : List Event) : readSocks (l ++ m) = readSocks l ++ readSocks m :=
  List.filterMap_append

theorem readSocks_unread (h : ∀ e ∈ es, e.Unread) : readSocks es = [] :=
  List.filterMap_eq_nil_iff.mpr h

/-! ## Handlers -/

theorem wsClose_unread (env : Env φ) (code : WsCloseReason) (reason : Option Bytes) (s : Conn φ) :
    Grows Event.Unread s.world (wsClose env code reason s).world :=
  .close code reason rfl (fun _ => rfl) fun _ _ => ⟨rfl, fun _ => rfl⟩

theorem OnlySends.unread {fd : Option Nat} (h : OnlySends fd w w') : Grows Event.Unread w w' :=
  .sends h fun _ _ => ⟨rfl, fun _ => rfl⟩

theorem wsUpgradeHttp_unread (env : Env φ) (h : s.ws.ready = true) :
    Grows Event.Unread s.world (wsUpgradeHttp env s).2.world := by
  have hasked : ∀ k, Grows Event.Unread s.world (s.world.asked s.ws k) := fun k =>
    ⟨[.query s.ws.conn s.ws.state s.ws.requestPath], rfl, by simp [Event.Unread, Event.reads]⟩
  have hpeer : Grows Event.Unread s.world s.peerWorld :=
    (hasked (s.world.connects + 1)).trans
      ⟨[.opened s.ws.conn s.world.socks], rfl, by simp [Event.Unread, Event.reads]⟩
  have hu := wsUpgradeHttp_cases env h
  generalize (wsUpgradeHttp env s).2 = t at hu
  cases hu with
  | refused p => exact (hasked _).trans (wsClose_unread env _ _ _)
  | failed p => exact (hasked _).trans (wsClose_unread env _ _ _)
  | dropped p w hs =>
      have hsends := networkSendAll_onlySends env s.ws.wsFd
        (upgradeResponse env (s.ws.connected p (some (lowest s.world.fds)))) s.peerWorld
      rw [hs] at hsends
      exact (hpeer.trans hsends.unread).trans (wsClose_unread env _ _ _)
  | opened p f hf ho w hs =>
      have hsends := networkSendAll_onlySends env s.ws.wsFd
        (upgradeResponse env (s.ws.connected p (some (lowest s.world.fds)))) s.peerWorld
      rw [hs] at hsends
      exact hpeer.trans hsends.unread

theorem Act.unread (h : Act env A s t) : Grows Event.Unread s.world t.world := by
  cases h with
  | bare ws h hr => exact .refl _ _
  | peerBuffer b k fd h => exact .refl _ _
  | note e h =>
      refine .record ?_ _
      cases e <;> first | rfl | cases h
  | line data h =>
      refine .record ?_ _
      rfl
  | path p h => exact .refl _ _
  | header tag value h hn => exact .refl _ _
  | upgrade h hn hr => exact wsUpgradeHttp_unread env hr
  | close code reason h => exact wsClose_unread env code reason s
  | forward data h => exact (networkSend_onlySends env _ _ _).unread
  | frame op data h ho => exact (wsSendFrame_onlySends env _ _ _ _).unread

theorem Acts.unread (h : Acts env A s t) : Grows Event.Unread s.world t.world :=
  h.invariant (P := fun t => Grows Event.Unread s.world t.world)
    (fun _ _ ha hu => hu.trans ha.unread) (.refl _ _)

/-- A handler that calls `recv` reads its socket once. -/
theorem Recvd.reads {len : Nat} {d : Option Bytes} {o : Option Nat}
    (h : Recvd o len answer s.world d w) (hx : s.world.sockAt o = some x) (ht : Acts env A ⟨s.ws, w⟩ t) :
    ∃ es, t.world.log = s.world.log ++ es ∧ readSocks es = [x] := by
  obtain ⟨es, he, hes⟩ := ht.unread
  cases h with
  | closed hnone =>
      rw [hx] at hnone
      cases hnone
  | failed y hy ha =>
      obtain rfl : x = y := Option.some.inj (hx.symm.trans hy)
      refine ⟨.recvFailed x :: es, ?_, ?_⟩
      · rw [he, World.record_log, List.append_assoc]
        rfl
      · show x :: readSocks es = [x]
        rw [readSocks_unread hes]
  | data y b hy ha =>
      obtain rfl : x = y := Option.some.inj (hx.symm.trans hy)
      refine ⟨.received x (b.take len) :: es, ?_, ?_⟩
      · rw [he, World.record_log, List.append_assoc]
        rfl
      · show x :: readSocks es = [x]
        rw [readSocks_unread hes]

/-! ## The peer of an open connection -/

/-- Since the log was `log`, the peer's socket was closed, or it is where it was. -/
def PeerKept (log : List Event) (fd x : Nat) (s : Conn φ) : Prop :=
  ∃ es, s.world.log = log ++ es ∧
    (.closed x ∈ es ∨ s.ws.peerFd = some fd ∧ s.world.sockAt (some fd) = some x)

theorem PeerKept.grows {log : List Event} (h : PeerKept log fd x s) (hg : Grows Event.Unread s.world w)
    (hfd : w.sockAt (some fd) = s.world.sockAt (some fd)) : PeerKept log fd x ⟨s.ws, w⟩ := by
  obtain ⟨es, he, hkept⟩ := h
  obtain ⟨fs, hf, -⟩ := hg
  refine ⟨es ++ fs, by rw [hf, he, List.append_assoc], ?_⟩
  refine hkept.imp (List.mem_append_left _) ?_
  rintro ⟨hpeer, hx⟩
  exact ⟨hpeer, hfd.trans hx⟩

theorem wsClose_peerKept {log : List Event} (env : Env φ) (code : WsCloseReason)
    (reason : Option Bytes) (h : PeerKept log fd x s) :
    PeerKept log fd x (wsClose env code reason s) := by
  obtain ⟨es, he, hkept⟩ := h
  obtain ⟨fs, hf, -⟩ := wsClose_log env code reason s
  refine ⟨_, by rw [hf, he, List.append_assoc], .inl ?_⟩
  rcases hkept with hclosed | ⟨hpeer, hx⟩
  · exact List.mem_append_left _ hclosed
  · have hclosing : x ∈ s.closing := by
      unfold Conn.closing
      split
      · next hsame =>
        rw [← hsame, hpeer, hx]
        simp
      · rw [hpeer, hx]
        simp
    simp [hclosing]

/-- No line is handled and nothing is upgraded. -/
def Scope.opened : Scope := { Scope.all with line := fun _ => False, upgrade := fun _ => False }

theorem Act.peerKept {log : List Event} (h : Act env Scope.opened s t) (hp : PeerKept log fd x s) :
    PeerKept log fd x t := by
  have hgrows := h.unread
  cases h with
  | bare ws h hr =>
      obtain ⟨rb, ro, le, rfl⟩ := bare_eq h.symm
      exact hp
  | peerBuffer b k fd h => exact hp
  | note e h => exact hp.grows hgrows rfl
  | line data h => cases h
  | path p h => exact hp
  | header tag value h hn => cases h
  | upgrade h hn hr => cases h
  | close code reason h => exact wsClose_peerKept env code reason hp
  | forward data h => exact hp.grows hgrows ((networkSend_onlySends env _ _ _).sockAt _)
  | frame op data h ho => exact hp.grows hgrows ((wsSendFrame_onlySends env _ _ _ _).sockAt _)

/-- `ws_data` on an open connection. -/
theorem wsData_peerKept (hs : s.ws.state = .wsOpen) (hpeer : s.ws.peerFd = some fd)
    (hx : s.world.sockAt (some fd) = some x) (h : wsData env answer s = some t) :
    PeerKept s.world.log fd x t := by
  obtain ⟨d, w, hrecv, hacts⟩ := wsData_acts (A := Scope.opened) trivial (fun y data hd hst => by
    rw [hs] at hst
    rcases hst with hst | hst <;> cases hst) h
  refine hacts.invariant (P := PeerKept s.world.log fd x) (fun u v ha hu => ha.peerKept hu) ?_
  cases hrecv with
  | closed _ => exact ⟨[], (List.append_nil _).symm, .inr ⟨hpeer, hx⟩⟩
  | failed y _ _ => exact ⟨_, World.record_log _ _, .inr ⟨hpeer, hx⟩⟩
  | data y b _ _ => exact ⟨_, World.record_log _ _, .inr ⟨hpeer, hx⟩⟩

/-! ## A failed send to the client -/

theorem wsForward_fails {op : WsOperation} {seg : Bytes} {u : Conn φ}
    (hx : s.world.sockAt s.ws.wsFd = some x) (h : wsForward env op seg s = (true, u)) :
    u.world.log.getLast? = some (.sendFailed x) := by
  unfold wsForward at h
  dsimp only at h
  have hsent := wsSendFrame_sent env op seg hx
  split at h
  · cases h
  · generalize wsSendFrame env s.ws op seg s.world = r at h hsent
    obtain ⟨b, w⟩ := r
    cases h
    cases hsent with
    | cut ds hs hd hf => simp

theorem wsFraming_fails {opcode : WsOperation} {bytesRead : Nat} {t : Conn φ}
    (hx : s.world.sockAt s.ws.wsFd = some x)
    (h : wsFraming env fuel opcode bytesRead s = some (true, t)) :
    t.world.log.getLast? = some (.sendFailed x) := by
  induction fuel generalizing s opcode bytesRead with
  | zero => cases h
  | succ fuel ih =>
      obtain ⟨f, hf⟩ := wsFraming_some h
      obtain ⟨p, hpass, hp⟩ := wsFraming_passed env opcode bytesRead hf
      rw [hp] at h
      generalize s.framingCall opcode bytesRead = c at hpass
      cases hpass with
      | overrun hover hn => cases h
      | unsent o seg rest again k hk w hw hs =>
          cases h
          exact wsForward_fails (s := c.called f s) hx hs
      | last o seg rest k hk hn w hw => cases h
      | again o seg rest k hk hn w hw hc => exact ih ((hw.sockAt _).trans hx) h
      | declined hz hd hn => cases h
      | failed rest hz hl hn hc hr => exact ih (s := c.called f s) hx h

/-- `ws_peer_data` breaks out of the loop over the slots only where a send to the client failed. -/
theorem wsPeerData_fails (hx : s.world.sockAt s.ws.wsFd = some x)
    (h : wsPeerData env fuel answer s = some (true, t)) :
    t.world.log.getLast? = some (.sendFailed x) := by
  generalize hr : (true, t) = r at h
  cases wsPeerData_cases h with
  | failed w hrecv => cases hr
  | ended y b hy ha hb => cases hr
  | data y b data r hy ha hb hne hu =>
      subst hr
      exact wsFraming_fails (s := ⟨{ s.ws with
        peerBuffer := write s.ws.peerBuffer s.ws.peerBufferOffset (data ++ [0]) },
        s.world.record (.received y data)⟩) hx hu

/-! ## Turns -/

/-- What a step after `select` does: the turn of a slot, or the end of the round. -/
inductive Turn (env : Env φ) (c : Core φ) (answer : Option Bytes) (fuel : Nat) : Core φ → Prop
  | finish (n : Nat) (hl : c.loc = .client n) (hn : c.sock[n]? = none) :
      Turn env c answer fuel { c with loc := .select }
  | free (n : Nat) (ws : Websocket φ) (hl : c.loc = .client n) (hn : c.sock[n]? = some ws)
      (hw : ws.wsFd = none) : Turn env c answer fuel { c with loc := .client (n + 1) }
  | quiet (n : Nat) (ws : Websocket φ) (hl : c.loc = .client n) (hn : c.sock[n]? = some ws)
      (hq : ∀ fd, ws.wsFd = some fd → fd ∉ c.readFds) : Turn env c answer fuel { c with loc := .peer n }
  | client (n : Nat) (ws : Websocket φ) (fd : Nat) (t : Conn φ) (hl : c.loc = .client n)
      (hn : c.sock[n]? = some ws) (hw : ws.wsFd = some fd) (hr : fd ∈ c.readFds)
      (h : wsData env answer ⟨{ ws with lastEvent := c.now }, c.world⟩ = some t) :
      Turn env c answer fuel (c.put n t (.peer n))
  | peerQuiet (n : Nat) (ws : Websocket φ) (hl : c.loc = .peer n) (hn : c.sock[n]? = some ws)
      (hq : ∀ fd, ws.peerFd = some fd → fd ∉ c.readFds) : Turn env c answer fuel { c with loc := .ping n }
  | peer (n : Nat) (ws : Websocket φ) (fd : Nat) (r : Bool × Conn φ) (hl : c.loc = .peer n)
      (hn : c.sock[n]? = some ws) (hw : ws.peerFd = some fd) (hr : fd ∈ c.readFds)
      (h : wsPeerData env fuel answer ⟨ws, c.world⟩ = some r) :
      Turn env c answer fuel (c.put n r.2 (if r.1 then .select else .ping n))
  | ping (n : Nat) (ws : Websocket φ) (hl : c.loc = .ping n) (hn : c.sock[n]? = some ws) :
      Turn env c answer fuel (c.put n (wsKeepAlive env c.now ⟨ws, c.world⟩) (.client (n + 1)))

theorem coreStep_turn (h : coreStep env (.serve answer fuel) c = some c') :
    Turn env c answer fuel c' := by
  unfold coreStep at h
  split at h
  · next hi => cases hi
  · next hi => cases hi
  · next n answer fuel hl hi =>
    cases hi
    split at h
    · next hn =>
      cases h
      exact .finish n hl hn
    · next ws hn =>
      split at h
      · next hw =>
        cases h
        exact .free n ws hl hn hw
      · next fd hw =>
        split at h
        · next hr =>
          obtain ⟨t, ht, rfl⟩ := Option.map_eq_some_iff.mp h
          exact .client n ws fd t hl hn hw hr ht
        · next hr =>
          cases h
          refine .quiet n ws hl hn ?_
          intro gd hg
          rw [hw] at hg
          cases hg
          exact hr
  · next n answer fuel hl hi =>
    cases hi
    split at h
    · cases h
    · next ws hn =>
      split at h
      · next hr =>
        obtain ⟨r, hp, rfl⟩ := Option.map_eq_some_iff.mp h
        cases hw : ws.peerFd with
        | none =>
            rw [hw] at hr
            cases hr
        | some fd =>
            rw [hw] at hr
            exact .peer n ws fd r hl hn hw (by simpa using hr) hp
      · next hr =>
        cases h
        refine .peerQuiet n ws hl hn ?_
        intro fd hw hfd
        rw [hw] at hr
        exact hr (by simpa using hfd)
  · next n answer fuel hl hi =>
    split at h
    · cases h
    · next ws hn =>
      cases h
      exact .ping n ws hl hn
  · cases h

/-! ## What holds in a round -/

/-- In the round that began at `c₁` and takes the steps `js`, the socket `x` was closed before it was
the turn of the peer of slot `m`. -/
def ClosedBefore (env : Env φ) (c₁ : Core φ) (js : List (Option Bytes × Nat)) (m x : Nat) : Prop :=
  ∃ ks v es, ks <+: js ∧ (coreLoop env).exec (serves ks) c₁ = some v ∧ v.loc = .peer m ∧
    v.world.log = c₁.world.log ++ es ∧ .closed x ∈ es

/-- After the steps `js` of the round that began at `c₁`, with `es` in the log since. -/
structure RoundInv (env : Env φ) (c₁ c : Core φ) (es : List Event)
    (js : List (Option Bytes × Nat)) : Prop where
  log : c.world.log = c₁.world.log ++ es
  readFds : c.readFds = c₁.readFds
  steps : js.length ≤ c.loc.turn
  turn_le : c.loc.turn ≤ 3 * c.sock.length
  nodup : (readSocks es).Nodup
  /-- what was read had its turn -/
  past : ∀ x ∈ readSocks es, ∃ (m : Nat) (ws : Websocket φ), c.sock[m]? = some ws ∧
    (.accepted ws.conn x ∈ c.world.log ∧ 3 * m < c.loc.turn ∨
      .opened ws.conn x ∈ c.world.log ∧ 3 * m + 1 < c.loc.turn)
  /-- the slots ahead are as they were -/
  ahead : ∀ m, c.loc.turn ≤ 3 * m → c.sock[m]? = c₁.sock[m]? ∧ ∀ ws, c₁.sock[m]? = some ws →
    ∀ fd ∈ ws.held, c.world.sockAt (some fd) = c₁.world.sockAt (some fd)
  peer : ∀ (m : Nat) (ws : Websocket φ) fd x, c.loc.turn ≤ 3 * m + 1 → c₁.sock[m]? = some ws →
    ws.peerFd = some fd → c₁.world.sockAt (some fd) = some x →
    .closed x ∈ es ∨ ∃ v : Websocket φ, c.sock[m]? = some v ∧ v.peerFd = some fd ∧
      c.world.sockAt (some fd) = some x
  clients : ∀ (m : Nat) (ws : Websocket φ) fd x, 3 * m < c.loc.turn → c₁.sock[m]? = some ws →
    ws.wsFd = some fd → fd ∈ c₁.readFds → c₁.world.sockAt (some fd) = some x → x ∈ readSocks es
  peers : ∀ (m : Nat) (ws : Websocket φ) fd x, 3 * m + 1 < c.loc.turn → c₁.sock[m]? = some ws →
    ws.peerFd = some fd → fd ∈ c₁.readFds → c₁.world.sockAt (some fd) = some x →
    x ∈ readSocks es ∨ ClosedBefore env c₁ js m x

/-- What the turn of slot `n` does: to its connection, and to the log. -/
structure Turned (c : Core φ) (n : Nat) (ws : Websocket φ) (t : Conn φ) (es : List Event) (l : Loc) :
    Prop where
  slot : c.sock[n]? = some ws
  isLocal : Local ⟨ws, c.world⟩ t
  log : t.world.log = c.world.log ++ es
  turn : 3 * n ≤ c.loc.turn ∧ c.loc.turn < l.turn ∧ l.turn ≤ 3 * (n + 1)
  reads : readSocks es = [] ∨ ∃ x, readSocks es = [x] ∧
    (c.loc.turn = 3 * n ∧ .accepted ws.conn x ∈ c.world.log ∨
      c.loc.turn = 3 * n + 1 ∧ .opened ws.conn x ∈ c.world.log)
  client : c.loc.turn = 3 * n → ∀ fd x, ws.wsFd = some fd → fd ∈ c.readFds →
    c.world.sockAt (some fd) = some x → x ∈ readSocks es
  kept : c.loc.turn = 3 * n → ∀ fd x, ws.peerFd = some fd → c.world.sockAt (some fd) = some x →
    .closed x ∈ es ∨ t.ws.peerFd = some fd ∧ t.world.sockAt (some fd) = some x
  peer : c.loc.turn ≤ 3 * n + 1 → 3 * n + 1 < l.turn → ∀ fd x, ws.peerFd = some fd →
    fd ∈ c.readFds → c.world.sockAt (some fd) = some x → x ∈ readSocks es

section

variable {l : Loc} {js : List (Option Bytes × Nat)}

/-- A socket is read in its turn only. -/
theorem RoundInv.fresh (h : RoundInv env c₁ c es js) (hg : GivenInv c.sock c.world)
    (hreg : RegistryInv env c.sock c.world) (ht : Turned c n ws t fs l) :
    ∀ x ∈ readSocks fs, x ∉ readSocks es := by
  intro x hx hm
  obtain ⟨m, v, hv, hpast⟩ := h.past x hm
  have hwho : c.loc.turn = 3 * n ∧ .accepted ws.conn x ∈ c.world.log ∨
      c.loc.turn = 3 * n + 1 ∧ .opened ws.conn x ∈ c.world.log := by
    rcases ht.reads with hnil | ⟨y, hy, hwho⟩
    · rw [hnil] at hx
      cases hx
    · rw [hy] at hx
      rwa [List.mem_singleton.mp hx]
  have hsame (hconn : v.conn = ws.conn) : m = n := by
    obtain ⟨hlt, rfl⟩ := List.getElem?_eq_some_iff.mp hv
    obtain ⟨hlt', rfl⟩ := List.getElem?_eq_some_iff.mp ht.slot
    have hidx := List.nodup_iff_injective_get.mp hreg.distinct
    have hfin := @hidx ⟨m, by simpa using hlt⟩ ⟨n, by simpa using hlt'⟩ (by simpa using hconn)
    exact congrArg Fin.val hfin
  rcases hwho with ⟨hturn, hacc⟩ | ⟨hturn, hop⟩
  · rcases hpast with ⟨hacc', hlt⟩ | ⟨hop', -⟩
    · have hmn := hsame (hg.once _ _ x (.inl hacc') (.inl hacc))
      omega
    · exact hg.role _ _ x hacc hop'
  · rcases hpast with ⟨hacc', -⟩ | ⟨hop', hlt⟩
    · exact hg.role _ _ x hacc' hop
    · have hmn := hsame (hg.once _ _ x (.inr hop') (.inr hop))
      omega

theorem ClosedBefore.mono {m : Nat} {ks : List (Option Bytes × Nat)}
    (h : ClosedBefore env c₁ js m x) (hks : js <+: ks) : ClosedBefore env c₁ ks m x := by
  obtain ⟨is, v, es, his, hrest⟩ := h
  exact ⟨is, v, es, his.trans hks, hrest⟩

theorem Loc.eq_peer {l : Loc} {m : Nat} (h : l.turn = 3 * m + 1) : l = .peer m := by
  cases l with
  | peer k =>
      have : 3 * k + 1 = 3 * m + 1 := h
      rw [show k = m by omega]
  | client k =>
      have : 3 * k = 3 * m + 1 := h
      omega
  | ping k =>
      have : 3 * k + 2 = 3 * m + 1 := h
      omega
  | select =>
      have : 0 = 3 * m + 1 := h
      omega
  | done =>
      have : 0 = 3 * m + 1 := h
      omega

theorem Turned.self (ht : Turned c n ws t fs l) : (c.put n t l).sock[n]? = some t.ws := by
  rw [put_sock, List.getElem?_set_self (List.getElem?_eq_some_iff.mp ht.slot).1]

theorem put_other {m : Nat} (hm : m ≠ n) (t : Conn φ) (l : Loc) :
    (c.put n t l).sock[m]? = c.sock[m]? := by
  rw [put_sock, List.getElem?_set_ne (Ne.symm hm)]

/-- The sockets of the other slots stay. -/
theorem Turned.entry (ht : Turned c n ws t fs l) (hg : GivenInv c.sock c.world) {m fd : Nat}
    {v : Websocket φ} (hm : m ≠ n) (hv : c.sock[m]? = some v) (hfd : fd ∈ v.held) :
    (c.put n t l).world.sockAt (some fd) = c.world.sockAt (some fd) := by
  obtain ⟨x, hx⟩ := hg.toHeldInv.is_open (List.mem_of_getElem? hv) hfd
  have hno : fd ∉ ws.held := fun hws => hm (held_slot hg.held.1 ht.slot hv hws hfd)
  rw [put_world, ht.isLocal.entry fd x hx hno, hx]

/-- What was read had its turn, also after this one. -/
theorem RoundInv.turn_past (h : RoundInv env c₁ c es js) (ht : Turned c n ws t fs l) :
    ∀ x ∈ readSocks (es ++ fs), ∃ (m : Nat) (v : Websocket φ), (c.put n t l).sock[m]? = some v ∧
      (.accepted v.conn x ∈ t.world.log ∧ 3 * m < l.turn ∨
        .opened v.conn x ∈ t.world.log ∧ 3 * m + 1 < l.turn) := by
  obtain ⟨hlow, hlt, hhigh⟩ := ht.turn
  have hmem {e : Event} (he : e ∈ c.world.log) : e ∈ t.world.log := by
    rw [ht.log]
    exact List.mem_append_left _ he
  intro x hx
  rw [readSocks_append] at hx
  rcases List.mem_append.mp hx with hx | hx
  · obtain ⟨m, v, hv, hpast⟩ := h.past x hx
    have hpast' : .accepted v.conn x ∈ t.world.log ∧ 3 * m < l.turn ∨
        .opened v.conn x ∈ t.world.log ∧ 3 * m + 1 < l.turn :=
      hpast.imp (fun h => ⟨hmem h.1, by omega⟩) (fun h => ⟨hmem h.1, by omega⟩)
    by_cases hm : m = n
    · subst hm
      obtain rfl : v = ws := Option.some.inj (hv.symm.trans ht.slot)
      refine ⟨m, t.ws, ht.self, ?_⟩
      rw [ht.isLocal.conn]
      exact hpast'
    · exact ⟨m, v, (put_other hm t l).trans hv, hpast'⟩
  · rcases ht.reads with hnil | ⟨y, hy, hwho⟩
    · rw [hnil] at hx
      cases hx
    · rw [hy] at hx
      rw [List.mem_singleton.mp hx]
      refine ⟨n, t.ws, ht.self, ?_⟩
      rw [ht.isLocal.conn]
      exact hwho.imp (fun h => ⟨hmem h.2, by omega⟩) (fun h => ⟨hmem h.2, by omega⟩)

/-- The peers that had their turn were read, or closed before it. -/
theorem RoundInv.turn_peers (h : RoundInv env c₁ c es js)
    (hrun : (coreLoop env).exec (serves js) c₁ = some c) (ht : Turned c n ws t fs l)
    (i : Option Bytes × Nat) {m fd x : Nat} {v : Websocket φ} (hm : 3 * m + 1 < l.turn)
    (hv : c₁.sock[m]? = some v) (hpeer : v.peerFd = some fd) (hr : fd ∈ c₁.readFds)
    (hx : c₁.world.sockAt (some fd) = some x) :
    x ∈ readSocks (es ++ fs) ∨ ClosedBefore env c₁ (js ++ [i]) m x := by
  obtain ⟨hlow, hlt, hhigh⟩ := ht.turn
  rw [readSocks_append]
  by_cases hpast : 3 * m + 1 < c.loc.turn
  · exact (h.peers m v fd x hpast hv hpeer hr hx).imp (List.mem_append_left _)
      (·.mono (List.prefix_append js [i]))
  obtain rfl : m = n := by omega
  have hread {y : Nat} (hup : ws.peerFd = some fd) (hux : c.world.sockAt (some fd) = some y) :
      y ∈ readSocks fs :=
    ht.peer (by omega) hm fd y hup (by rw [h.readFds]; exact hr) hux
  by_cases hturn : c.loc.turn = 3 * m
  · -- a slot that is ahead is as it was
    obtain ⟨hslot, hsocks⟩ := h.ahead m (by omega)
    obtain rfl : v = ws := Option.some.inj ((hslot.trans hv).symm.trans ht.slot)
    have hfd : fd ∈ v.held := by simp [Websocket.held, hpeer]
    exact .inl (List.mem_append_right _ (hread hpeer ((hsocks v hv fd hfd).trans hx)))
  · rcases h.peer m v fd x (by omega) hv hpeer hx with hclosed | ⟨u, hu, hup, hux⟩
    · have hloc : c.loc = .peer m := Loc.eq_peer (by omega)
      exact .inr ⟨js, c, es, List.prefix_append js [i], hrun, hloc, h.log, hclosed⟩
    · obtain rfl : u = ws := Option.some.inj (hu.symm.trans ht.slot)
      exact .inl (List.mem_append_right _ (hread hup hux))

/-- **A turn** keeps the invariant of the round. -/
theorem RoundInv.turn (h : RoundInv env c₁ c es js) (hrun : (coreLoop env).exec (serves js) c₁ = some c)
    (hg : GivenInv c.sock c.world) (hreg : RegistryInv env c.sock c.world)
    (ht : Turned c n ws t fs l) (i : Option Bytes × Nat) :
    RoundInv env c₁ (c.put n t l) (es ++ fs) (js ++ [i]) := by
  obtain ⟨hlow, hlt, hhigh⟩ := ht.turn
  have hlen : n < c.sock.length := (List.getElem?_eq_some_iff.mp ht.slot).1
  refine ⟨?_, h.readFds, ?_, ?_, ?_, h.turn_past ht, ?_, ?_, ?_, ?_⟩
  · rw [put_world, ht.log, h.log, List.append_assoc]
  · have := h.steps
    rw [List.length_append]
    show js.length + 1 ≤ l.turn
    omega
  · rw [put_sock, List.length_set]
    show l.turn ≤ _
    omega
  · rw [readSocks_append]
    have hfresh := h.fresh hg hreg ht
    refine List.nodup_append.mpr ⟨h.nodup, ?_, ?_⟩
    · rcases ht.reads with hnil | ⟨x, hx, -⟩
      · rw [hnil]
        exact List.nodup_nil
      · rw [hx]
        exact List.nodup_singleton x
    · intro x hx y hy hxy
      exact hfresh y hy (hxy ▸ hx)
  · intro m hm
    have hm : l.turn ≤ 3 * m := hm
    have hne : m ≠ n := by
      rintro rfl
      omega
    obtain ⟨hslot, hsocks⟩ := h.ahead m (by omega)
    refine ⟨(put_other hne t l).trans hslot, ?_⟩
    intro v hv fd hfd
    exact (ht.entry hg hne (hslot.trans hv) hfd).trans (hsocks v hv fd hfd)
  · intro m v fd x hm hv hpeer hx
    have hm : l.turn ≤ 3 * m + 1 := hm
    rcases h.peer m v fd x (by omega) hv hpeer hx with hclosed | ⟨u, hu, hup, hux⟩
    · exact .inl (List.mem_append_left _ hclosed)
    · by_cases hne : m = n
      · subst hne
        obtain rfl : u = ws := Option.some.inj (hu.symm.trans ht.slot)
        rcases ht.kept (by omega) fd x hup hux with hclosed | ⟨htp, htx⟩
        · exact .inl (List.mem_append_right _ hclosed)
        · exact .inr ⟨t.ws, ht.self, htp, htx⟩
      · have hfd : fd ∈ u.held := by simp [Websocket.held, hup]
        exact .inr ⟨u, (put_other hne t l).trans hu, hup, (ht.entry hg hne hu hfd).trans hux⟩
  · intro m v fd x hm hv hclient hr hx
    have hm : 3 * m < l.turn := hm
    rw [readSocks_append]
    by_cases hpast : 3 * m < c.loc.turn
    · exact List.mem_append_left _ (h.clients m v fd x hpast hv hclient hr hx)
    · obtain rfl : m = n := by omega
      obtain ⟨hslot, hsocks⟩ := h.ahead m (by omega)
      obtain rfl : v = ws := Option.some.inj ((hslot.trans hv).symm.trans ht.slot)
      have hfd : fd ∈ v.held := by simp [Websocket.held, hclient]
      refine List.mem_append_right _ (ht.client (by omega) fd x hclient ?_ ?_)
      · rw [h.readFds]
        exact hr
      · rw [hsocks v hv fd hfd, hx]
  · intro m v fd x hm hv hpeer hr hx
    exact h.turn_peers hrun ht i hm hv hpeer hr hx

/-! ## Rounds -/

/-- Nothing happens in a turn. -/
theorem Turned.idle (hn : c.sock[n]? = some ws)
    (hturn : 3 * n ≤ c.loc.turn ∧ c.loc.turn < l.turn ∧ l.turn ≤ 3 * (n + 1))
    (hclient : c.loc.turn = 3 * n → ∀ fd, ws.wsFd = some fd → fd ∉ c.readFds)
    (hpeer : 3 * n + 1 < l.turn → ∀ fd, ws.peerFd = some fd → fd ∉ c.readFds) :
    Turned c n ws ⟨ws, c.world⟩ [] l := by
  refine ⟨hn, .refl _, (List.append_nil _).symm, hturn, .inl rfl, ?_, ?_, ?_⟩
  · intro hloc fd x hfd hr hx
    exact absurd hr (hclient hloc fd hfd)
  · intro hloc fd x hfd hx
    exact .inr ⟨hfd, hx⟩
  · intro _ hl fd x hfd hr hx
    exact absurd hr (hpeer hl fd hfd)

theorem put_self (hn : c.sock[n]? = some ws) : c.put n ⟨ws, c.world⟩ l = { c with loc := l } := by
  unfold Core.put
  congr 1
  obtain ⟨hlen, rfl⟩ := List.getElem?_eq_some_iff.mp hn
  exact List.set_getElem_self hlen

/-- The turn of a client that is ready. -/
theorem Turned.client_data (hg : GivenInv c.sock c.world) (hreg : RegistryInv env c.sock c.world)
    (hl : c.loc = .client n) (hn : c.sock[n]? = some ws) (hw : ws.wsFd = some fd)
    (h : wsData env answer ⟨{ ws with lastEvent := c.now }, c.world⟩ = some t) :
    ∃ fs, Turned c n ws t fs (.peer n) := by
  have hm := List.mem_of_getElem? hn
  have hslot := hreg.slots ws hm
  have hheld : fd ∈ ws.held := by simp [Websocket.held, hw]
  obtain ⟨x, hx⟩ := hg.toHeldInv.is_open hm hheld
  have hturn : c.loc.turn = 3 * n := by rw [hl]; rfl
  obtain ⟨d, w, hrecv, hacts⟩ := wsData_acts (A := Scope.all)
    (s := ⟨{ ws with lastEvent := c.now }, c.world⟩) trivial
    (fun y data hd hst => wsScan_acts_all env data.length _) h
  have hfd : c.world.sockAt ws.wsFd = some x := by rw [hw, hx]
  obtain ⟨fs, hlog, hreads⟩ := hrecv.reads hfd hacts
  obtain ⟨-, -, hlocal⟩ := wsData_slotInv
    (s := ⟨{ ws with lastEvent := c.now }, c.world⟩) { hslot with } h
  refine ⟨fs, hn, { hlocal with }, hlog, ?_, .inr ⟨x, hreads, .inl ⟨hturn, ?_⟩⟩, ?_, ?_, ?_⟩
  · show _ ∧ _ < 3 * n + 1 ∧ 3 * n + 1 ≤ _
    omega
  · exact hg.client ws hm x hfd
  · intro _ gd y hgd _ hy
    obtain rfl : fd = gd := Option.some.inj (hw.symm.trans hgd)
    obtain rfl : x = y := Option.some.inj (hx.symm.trans hy)
    simp [hreads]
  · intro _ gd y hgd hy
    obtain ⟨es, he, hkept⟩ := wsData_peerKept (s := ⟨{ ws with lastEvent := c.now }, c.world⟩)
      (hslot.open_of_peer hgd) hgd hy h
    obtain rfl : es = fs := List.append_cancel_left (he.symm.trans hlog)
    exact hkept
  · intro _ hl
    exact absurd hl (Nat.lt_irrefl _)

/-- The turn of a peer that is ready. -/
theorem Turned.peer_data {r : Bool × Conn φ} (hg : GivenInv c.sock c.world)
    (hreg : RegistryInv env c.sock c.world) (hl : c.loc = .peer n) (hn : c.sock[n]? = some ws)
    (hw : ws.peerFd = some fd) (h : wsPeerData env fuel answer ⟨ws, c.world⟩ = some r) :
    ∃ fs, Turned c n ws r.2 fs (.ping n) ∧ (r.1 = true →
      ∃ y, fs.getLast? = some (.sendFailed y) ∧ .accepted ws.conn y ∈ c.world.log) := by
  have hm := List.mem_of_getElem? hn
  have hslot := hreg.slots ws hm
  have hopen := hslot.open_of_peer hw
  have hheld : fd ∈ ws.held := by simp [Websocket.held, hw]
  obtain ⟨x, hx⟩ := hg.toHeldInv.is_open hm hheld
  have hturn : c.loc.turn = 3 * n + 1 := by rw [hl]; rfl
  obtain ⟨d, w, hrecv, hacts⟩ := wsPeerData_acts (A := Scope.all) (s := ⟨ws, c.world⟩) hopen
    trivial (fun _ _ _ _ _ _ _ _ _ _ _ => trivial) hslot.peerBuffer h
  have hfd : c.world.sockAt ws.peerFd = some x := by rw [hw, hx]
  obtain ⟨fs, hlog, hreads⟩ := hrecv.reads hfd hacts
  obtain ⟨-, -, hlocal⟩ := wsPeerData_slotInv (s := ⟨ws, c.world⟩) hslot hw h
  refine ⟨fs, ⟨hn, hlocal, hlog, ?_, .inr ⟨x, hreads, .inr ⟨hturn, ?_⟩⟩, ?_, ?_, ?_⟩, ?_⟩
  · show _ ∧ _ < 3 * n + 2 ∧ 3 * n + 2 ≤ _
    omega
  · exact hg.peer ws hm x hfd
  · intro hloc
    omega
  · intro hloc
    omega
  · intro _ _ gd y hgd _ hy
    obtain rfl : fd = gd := Option.some.inj (hw.symm.trans hgd)
    obtain rfl : x = y := Option.some.inj (hx.symm.trans hy)
    simp [hreads]
  · intro hr
    obtain ⟨b, u⟩ := r
    subst hr
    obtain ⟨gd, hgd, y, hy⟩ : ∃ gd, ws.wsFd = some gd ∧ ∃ y, c.world.sockAt (some gd) = some y := by
      obtain ⟨gd, hgd⟩ := Option.isSome_iff_exists.mp (hslot.opened hopen).1
      exact ⟨gd, hgd, hg.toHeldInv.is_open hm (by simp [Websocket.held, hgd])⟩
    have hlast := wsPeerData_fails (s := ⟨ws, c.world⟩) (x := y) (by rw [hgd]; exact hy) h
    have hne : fs ≠ [] := by
      rintro rfl
      cases hreads
    rw [hlog, List.getLast?_append_of_ne_nil _ hne] at hlast
    exact ⟨y, hlast, hg.client ws hm y (by rw [hgd]; exact hy)⟩

/-- The turn of the keep-alive check. -/
theorem Turned.keepAlive (hl : c.loc = .ping n) (hn : c.sock[n]? = some ws)
    (hreg : RegistryInv env c.sock c.world) :
    ∃ fs, Turned c n ws (wsKeepAlive env c.now ⟨ws, c.world⟩) fs (.client (n + 1)) := by
  have hslot := hreg.slots ws (List.mem_of_getElem? hn)
  have hturn : c.loc.turn = 3 * n + 2 := by rw [hl]; rfl
  have hacts := wsKeepAlive_acts (A := Scope.all) (s := ⟨ws, c.world⟩) env c.now fun _ => trivial
  obtain ⟨fs, hlog, hfs⟩ := hacts.unread
  refine ⟨fs, hn, hacts.isLocal, hlog, ?_, .inl (readSocks_unread hfs), ?_, ?_, ?_⟩
  · show _ ∧ _ < 3 * (n + 1) ∧ 3 * (n + 1) ≤ _
    omega
  · intro hloc
    omega
  · intro hloc
    omega
  · intro hloc
    omega

/-- Every client that was reported ready was read, and every peer, if its connection was not closed
before its turn. -/
def EachServed (env : Env φ) (c₁ : Core φ) (js : List (Option Bytes × Nat)) (es : List Event) : Prop :=
  ∀ (m : Nat) (ws : Websocket φ), c₁.sock[m]? = some ws → ∀ fd ∈ c₁.readFds, ∀ x,
    c₁.world.sockAt (some fd) = some x →
    (ws.wsFd = some fd → x ∈ readSocks es) ∧
    (ws.peerFd = some fd → x ∈ readSocks es ∨ ClosedBefore env c₁ js m x)

/-- The last thing that happened is that a send to a client failed. -/
def SendToClientFailed (log es : List Event) : Prop :=
  ∃ conn y, .accepted conn y ∈ log ∧ es.getLast? = some (.sendFailed y)

/-- After some steps of the round: it goes on, or it is at its end. -/
inductive InRound (env : Env φ) (c₁ c : Core φ) (es : List Event) (js : List (Option Bytes × Nat)) :
    Prop
  | on (hl : c.loc ≠ .select) (h : RoundInv env c₁ c es js)
  | finished (hl : c.loc = .select) (hlog : c.world.log = c₁.world.log ++ es)
      (hn : (readSocks es).Nodup) (hs : js.length ≤ 3 * c.sock.length + 1)
      (h : SendToClientFailed c.world.log es ∨ EachServed env c₁ js es)

/-- **A step** of the round. -/
theorem RoundInv.step (h : RoundInv env c₁ c es js)
    (hrun : (coreLoop env).exec (serves js) c₁ = some c) (hg : GivenInv c.sock c.world)
    (hreg : RegistryInv env c.sock c.world) (i : Option Bytes × Nat)
    (ht : Turn env c i.1 i.2 c') : ∃ fs, InRound env c₁ c' fs (js ++ [i]) := by
  have hon {n : Nat} {ws : Websocket φ} {t : Conn φ} {fs : List Event} {l : Loc} (hl : l ≠ .select)
      (ht : Turned c n ws t fs l) : ∃ fs, InRound env c₁ (c.put n t l) fs (js ++ [i]) :=
    ⟨_, .on hl (h.turn hrun hg hreg ht i)⟩
  cases ht with
  | finish n hl hn =>
      have hturn : c.loc.turn = 3 * n := by rw [hl]; rfl
      have hlen : c.sock.length ≤ n := List.getElem?_eq_none_iff.mp hn
      have hle := h.turn_le
      have hsteps := h.steps
      have hlength : (js ++ [i]).length ≤ 3 * c.sock.length + 1 := by
        rw [List.length_append, List.length_singleton]
        omega
      refine ⟨es, .finished rfl h.log h.nodup hlength (.inr ?_)⟩
      intro m ws hm fd hr x hx
      -- a slot that the round began with is one that it went over
      have hlt : m < n := by
        by_contra hge
        have hsame := (h.ahead m (by omega)).1
        rw [hm, List.getElem?_eq_none (by omega)] at hsame
        cases hsame
      exact ⟨fun hw => h.clients m ws fd x (by omega) hm hw hr hx,
        fun hw => (h.peers m ws fd x (by omega) hm hw hr hx).imp_right
          (·.mono (List.prefix_append js [i]))⟩
  | free n ws hl hn hw =>
      have hturn : c.loc.turn = 3 * n := by rw [hl]; rfl
      have hheld := hreg.free (List.mem_of_getElem? hn) hw
      rw [← put_self hn]
      refine hon (by simp) (.idle hn ⟨by omega, ?_, Nat.le_refl _⟩ ?_ ?_)
      · show _ < 3 * (n + 1)
        omega
      · intro _ fd hfd
        rw [hw] at hfd
        cases hfd
      · intro _ fd hfd
        unfold Websocket.held at hheld
        rw [hfd, hw] at hheld
        cases hheld
  | quiet n ws hl hn hq =>
      have hturn : c.loc.turn = 3 * n := by rw [hl]; rfl
      rw [← put_self hn]
      refine hon (by simp) (.idle hn ⟨by omega, ?_, ?_⟩ (fun _ => hq) ?_)
      · show _ < 3 * n + 1
        omega
      · show 3 * n + 1 ≤ _
        omega
      · intro hlt
        exact absurd hlt (Nat.lt_irrefl _)
  | client n ws fd t hl hn hw hr hd =>
      obtain ⟨fs, ht⟩ := Turned.client_data hg hreg hl hn hw hd
      exact hon (by simp) ht
  | peerQuiet n ws hl hn hq =>
      have hturn : c.loc.turn = 3 * n + 1 := by rw [hl]; rfl
      rw [← put_self hn]
      refine hon (by simp) (.idle hn ⟨by omega, ?_, ?_⟩ ?_ (fun _ => hq))
      · show _ < 3 * n + 2
        omega
      · show 3 * n + 2 ≤ _
        omega
      · intro hloc
        omega
  | peer n ws fd r hl hn hw hr hd =>
      obtain ⟨fs, ht, hfails⟩ := Turned.peer_data hg hreg hl hn hw hd
      cases hrv : r.1 with
      | false => exact hon (by simp) ht
      | true =>
          have hnext := h.turn hrun hg hreg ht i
          obtain ⟨y, hlast, hclient⟩ := hfails hrv
          have hsteps := hnext.steps
          have hle := hnext.turn_le
          have hne : fs ≠ [] := by
            rintro rfl
            cases hlast
          refine ⟨es ++ fs, .finished rfl hnext.log hnext.nodup ?_ (.inl ⟨ws.conn, y, ?_, ?_⟩)⟩
          · show (js ++ [i]).length ≤ 3 * (c.put n r.2 (.ping n)).sock.length + 1
            omega
          · rw [put_world, ht.log]
            exact List.mem_append_left _ hclient
          · rw [List.getLast?_append_of_ne_nil _ hne, hlast]
  | ping n ws hl hn =>
      obtain ⟨fs, ht⟩ : ∃ fs, Turned c n ws (wsKeepAlive env c.now ⟨ws, c.world⟩) fs
          (.client (n + 1)) := Turned.keepAlive hl hn hreg
      exact hon (by simp) ht

/-- **The steps** of a round. -/
theorem RoundInv.run (is : List (Option Bytes × Nat)) {u : Core φ} (h : RoundInv env c₁ c es js)
    (hrun : (coreLoop env).exec (serves js) c₁ = some c)
    (hreach : (coreLoop env).Reach (fun _ _ => True) c) (hl : c.loc ≠ .select)
    (hs : (coreLoop env).exec (serves is) c = some u) :
    ∃ fs, InRound env c₁ u fs (js ++ is) := by
  induction is generalizing c es js with
  | nil =>
      cases hs
      rw [List.append_nil]
      exact ⟨es, .on hl h⟩
  | cons i is ih =>
      obtain ⟨v, hv, hrest⟩ := Option.bind_eq_some_iff.mp hs
      obtain ⟨fs, hround⟩ := h.step hrun (coreLoop_givenInv hreach) (coreLoop_registryInv hreach) i
        (coreStep_turn hv)
      have hrun' : (coreLoop env).exec (serves (js ++ [i])) c₁ = some v := by
        rw [serves, List.map_append, Machine.exec_append, ← serves, hrun]
        exact Option.bind_eq_some_iff.mpr ⟨c, rfl, Option.bind_eq_some_iff.mpr ⟨v, hv, rfl⟩⟩
      rw [List.append_cons]
      cases hround with
      | on hl' hinv => exact ih hinv hrun' (hreach.step _ trivial hv) hl' hrest
      | finished hl' hlog hn hsteps hserved =>
          -- `select` is next, and no handler is called before it
          cases is with
          | nil =>
              cases hrest
              rw [List.append_nil]
              exact ⟨fs, .finished hl' hlog hn hsteps hserved⟩
          | cons j js =>
              obtain ⟨z, hz, -⟩ := Option.bind_eq_some_iff.mp hrest
              have hnone : coreStep env (.serve j.1 j.2) v = none := by
                unfold coreStep
                rw [hl']
              cases hnone.symm.trans hz

theorem RoundInv.start (h : coreStep env (.select ready now accepts) c = some c₁) :
    RoundInv env c₁ c₁ [] [] ∧ c₁.loc ≠ .select := by
  have hloc : c₁.loc = .client 0 := by
    cases coreStep_cases h with
    | round ready now accepts hl hlisten => rfl
    | accept ready now accepts hl hlisten => rfl
  refine ⟨⟨(List.append_nil _).symm, rfl, Nat.zero_le _, ?_, List.nodup_nil, by simp [readSocks], ?_, ?_,
    ?_, ?_⟩, by simp [hloc]⟩
  · rw [hloc]
    exact Nat.zero_le _
  · exact fun m _ => ⟨rfl, fun _ _ _ _ => rfl⟩
  · intro m ws fd x _ hm hpeer hx
    exact .inr ⟨ws, hm, hpeer, hx⟩
  · intro m ws fd x hlt
    rw [hloc] at hlt
    exact absurd hlt (Nat.not_lt_zero _)
  · intro m ws fd x hlt
    rw [hloc] at hlt
    exact absurd hlt (Nat.not_lt_zero _)

/-- **Rounds**: after `select` at most three steps a slot, and one, are made until it is called
again.  No socket is read twice in them.  When they are all made, the last thing that happened is
that a send to a client failed, or every client was read that `select` reported, and every peer,
unless its connection was closed before its turn. -/
theorem round_reads (env : Env φ) (c c₁ u : Core φ) (h : (coreLoop env).Reach (fun _ _ => True) c)
    (ready : List Nat) (now : Int) (accepts : Bool)
    (hsel : coreStep env (.select ready now accepts) c = some c₁) (is : List (Option Bytes × Nat))
    (hs : (coreLoop env).exec (serves is) c₁ = some u) :
    ∃ es, u.world.log = c₁.world.log ++ es ∧ (readSocks es).Nodup ∧
      is.length ≤ 3 * u.sock.length + 1 ∧
      (u.loc = .select → SendToClientFailed u.world.log es ∨ EachServed env c₁ is es) := by
  obtain ⟨hstart, hloc⟩ := RoundInv.start hsel
  obtain ⟨es, hround⟩ := hstart.run is rfl (h.step _ trivial hsel) hloc hs
  rw [List.nil_append] at hround
  cases hround with
  | on hl hinv =>
      have hsteps := hinv.steps
      have hle := hinv.turn_le
      exact ⟨es, hinv.log, hinv.nodup, by omega, fun hsel => absurd hsel hl⟩
  | finished hl hlog hn hsteps hserved => exact ⟨es, hlog, hn, hsteps, fun _ => hserved⟩

end

end

theorem sampleOpened_runs : ((coreLoop sampleEnv).exec sampleOpened sampleCore).isSome := by
  decide +kernel

/-- The core with an open connection. -/
def sampleServed : Core Unit := ((coreLoop sampleEnv).exec sampleOpened sampleCore).get sampleOpened_runs

theorem sampleServed_selects : (coreStep sampleEnv (.select [4, 5] 2 false) sampleServed).isSome := by
  decide +kernel

/-- The core after `select` reported the client and its peer. -/
def sampleReady : Core Unit :=
  (coreStep sampleEnv (.select [4, 5] 2 false) sampleServed).get sampleServed_selects

/-- The client sends a part of a frame, and its peer has data. -/
def sampleTurns : List (Option Bytes × Nat) :=
  [(some [129], 0), (some (ascii "ab"), 5), (none, 0), (none, 0)]

theorem sampleTurns_run :
    ((coreLoop sampleEnv).exec (serves sampleTurns) sampleReady).isSome := by
  decide +kernel

theorem round_reads_sample :
    let u := ((coreLoop sampleEnv).exec (serves sampleTurns) sampleReady).get
      sampleTurns_run
    u.loc = .select ∧ ∃ es, u.world.log = sampleReady.world.log ++ es ∧ (readSocks es).Nodup ∧
      sampleTurns.length ≤ 3 * u.sock.length + 1 ∧
      (SendToClientFailed u.world.log es ∨ EachServed sampleEnv sampleReady sampleTurns es) := by
  have hreach : (coreLoop sampleEnv).Reach (fun _ _ => True) sampleServed :=
    .exec (.init sampleCore_init) sampleOpened (Machine.meets_true _ _)
      (Option.some_get sampleOpened_runs).symm
  have hselect : coreStep sampleEnv (.select [4, 5] 2 false) sampleServed = some sampleReady :=
    (Option.some_get sampleServed_selects).symm
  have hround : (((coreLoop sampleEnv).exec (serves sampleTurns) sampleReady).get
      sampleTurns_run).loc = .select := by decide +kernel
  obtain ⟨es, hlog, hn, hsteps, hend⟩ := round_reads sampleEnv sampleServed sampleReady _ hreach
    [4, 5] 2 false hselect sampleTurns (Option.some_get sampleTurns_run).symm
  exact ⟨hround, es, hlog, hn, hsteps, hend hround⟩

end Websocksy

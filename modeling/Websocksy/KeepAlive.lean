import Websocksy.CoreRule

/-!
# Keep-alive pings

The core loop sends a client a ping in every round in which it has heard nothing from the client
for longer than the interval.  The history of a run notes with the clock when a client was
heard and when it was sent a ping.  Since a ping does not count as an event of the connection,
pings are kept apart only if a client that was sent one is heard before its slot is looked at
again within the interval.
-/

namespace Websocksy

open Buffer CString Lines FdTable Machine

variable {φ : Type}

/-! ## Histories -/

inductive StampKind
  | heard
  | ping
  deriving DecidableEq

/-- What happened with the client of a connection, and when. -/
structure Stamp where
  kind : StampKind
  now : Int
  conn : Nat
  deriving DecidableEq

/-- What a step adds to the history: data that is received from a client, and a ping for a client
whose socket is open. -/
def Core.stamps (env : Env φ) (c : Core φ) (i : Input) : List Stamp :=
  ((c.dataCall i).filter (!·.2.isEmpty)).toList.map (fun p => ⟨.heard, c.now, p.1.conn⟩) ++
    ((c.pingCall env i).filter (·.wsFd.isSome)).toList.map (⟨.ping, c.now, ·.conn⟩)

structure Timed (φ : Type) where
  core : Core φ
  stamps : List Stamp := []

/-- The core loop with its history. -/
def timedLoop (env : Env φ) : Machine (Timed φ) Input where
  init s := coreInit s.core ∧ s.stamps = []
  step i s := (coreStep env i s.core).map fun c => ⟨c, s.stamps ++ s.core.stamps env i⟩

/-- A client is sent a ping only when the interval is over since it was heard, and since it was
sent a ping. -/
def KeepAliveRate (interval : Int) (stamps : List Stamp) : Prop :=
  stamps.Pairwise fun a b => b.kind = .ping → b.conn = a.conn → interval < b.now - a.now

instance (interval : Int) (stamps : List Stamp) : Decidable (KeepAliveRate interval stamps) :=
  inferInstanceAs (Decidable (List.Pairwise _ _))

/-! ## Conditions on a step -/

/-- The clock does not go back. -/
def ClockForward (s : Timed φ) (i : Input) : Prop :=
  match i with
  | .select _ now _ => s.core.now ≤ now
  | _ => True

instance (s : Timed φ) (i : Input) : Decidable (ClockForward s i) := by
  unfold ClockForward
  split
  · infer_instance
  · infer_instance

/-- When the loop comes to the slot of a client that was sent a ping within the interval, the
client has been heard since, or its socket is ready. -/
def PingAnswered (env : Env φ) (s : Timed φ) (i : Input) : Prop :=
  match s.core.loc, i with
  | .client n, .serve _ _ =>
    ∀ ws ∈ (s.core.sock[n]?).toList, ∀ a ∈ s.stamps, a.kind = .ping → a.conn = ws.conn →
      s.core.now - a.now ≤ env.pingInterval →
        a.now ≤ ws.lastEvent ∨ ws.wsFd.all (· ∈ s.core.readFds)
  | _, _ => True

instance (env : Env φ) (s : Timed φ) (i : Input) : Decidable (PingAnswered env s i) := by
  unfold PingAnswered
  split
  · infer_instance
  · infer_instance

section

variable {env : Env φ} {s t : Conn φ}

/-! ## The time of the last event

`ws_accept` and the core loop set it, and no handler does. -/

theorem clientConnect_lastEvent (env : Env φ) (s : Conn φ) :
    (clientConnect env s).2.ws.lastEvent = s.ws.lastEvent := by
  unfold clientConnect
  dsimp only
  split
  · rfl
  · split <;> rfl

theorem wsUpgradeHttp_lastEvent (env : Env φ) (s : Conn φ) :
    (wsUpgradeHttp env s).2.ws.lastEvent = s.ws.lastEvent := by
  by_cases hr : s.ws.ready
  · have hconnect := clientConnect_lastEvent env s
    rw [wsUpgradeHttp_ready env hr]
    dsimp only
    split
    · exact hconnect
    · split <;> exact hconnect
  · unfold wsUpgradeHttp
    rw [if_neg hr]
    split <;> rfl

theorem wsHeader_lastEvent (header value : Bytes) (ws : Websocket φ) :
    (wsHeader header value ws).lastEvent = ws.lastEvent := by
  unfold wsHeader
  dsimp only
  repeat' split
  all_goals rfl

theorem wsHandOver_lastEvent (env : Env φ) (n : Nat) (s : Conn φ) :
    (wsHandOver env n s).ws.lastEvent = s.ws.lastEvent := by
  unfold wsHandOver
  dsimp only
  split
  · unfold wsHandleNew
    split <;> rfl
  · unfold wsHandleHttp wsHandleLine
    split
    · exact wsUpgradeHttp_lastEvent env _
    · split
      · rfl
      · split
        · rfl
        · exact wsHeader_lastEvent _ _ _

theorem wsScan_lastEvent (env : Env φ) (fuel n bytesRead : Nat) (s : Conn φ) :
    (wsScan env fuel n bytesRead s).2.ws.lastEvent = s.ws.lastEvent := by
  induction fuel generalizing n bytesRead s with
  | zero => rfl
  | succ fuel ih =>
      unfold wsScan
      split
      · split
        · rw [ih]
          exact wsHandOver_lastEvent env n s
        · exact ih _ _ s
      · rfl

theorem wsDispatch_lastEvent (env : Env φ) (op : Nat) (payload : Bytes) (s : Conn φ) :
    (wsDispatch env op payload s).ws.lastEvent = s.ws.lastEvent := by
  unfold wsDispatch
  dsimp only
  repeat' split
  all_goals rfl

theorem wsFrame_lastEvent {n : Nat} (h : wsFrame env s = some (n, t)) :
    t.ws.lastEvent = s.ws.lastEvent := by
  unfold wsFrame at h
  split at h
  · cases h
    rfl
  split at h
  · cases h
    rfl
  split at h
  · cases h
    rfl
  split at h
  · cases h
  cases h
  exact wsDispatch_lastEvent env _ _ _

theorem wsFrames_lastEvent (fuel : Nat) (h : wsFrames env fuel s = some t) :
    t.ws.lastEvent = s.ws.lastEvent := by
  induction fuel generalizing s with
  | zero =>
      cases h
      rfl
  | succ fuel ih =>
      unfold wsFrames at h
      split at h
      · cases h
      · next n u hu =>
        have hframe := wsFrame_lastEvent hu
        split at h
        · exact (ih h).trans hframe
        · cases h
          exact hframe

theorem wsDataSwitch_lastEvent {bytesRead : Nat} (h : wsDataSwitch env bytesRead s = some t) :
    t.ws.lastEvent = s.ws.lastEvent := by
  unfold wsDataSwitch at h
  split at h
  · cases h
    exact wsScan_lastEvent env _ _ _ s
  · cases h
    exact wsScan_lastEvent env _ _ _ s
  · dsimp only at h
    exact (wsFrames_lastEvent _ h).trans rfl
  · cases h
    rfl

theorem wsData_lastEvent {answer : Option Bytes} (h : wsData env answer s = some t) :
    t.ws.lastEvent = s.ws.lastEvent := by
  unfold wsData at h
  dsimp only at h
  split at h
  · cases h
    rfl
  · cases h
    rfl
  · obtain ⟨u, hu, rfl⟩ := Option.map_eq_some_iff.mp h
    have hswitch : u.ws.lastEvent = s.ws.lastEvent := (wsDataSwitch_lastEvent hu).trans rfl
    split <;> exact hswitch

/-- The connection after a pass of the framing loop. -/
def FramingPass.conn : FramingPass φ → Conn φ
  | .done _ s => s
  | .again _ _ s => s

theorem wsFramed_lastEvent (env : Env φ) (bytesFramed : Int) (opcode : WsOperation) (bytesRead : Nat)
    (s : Conn φ) :
    (wsFramed env bytesFramed opcode bytesRead s).conn.ws.lastEvent = s.ws.lastEvent := by
  unfold wsFramed wsForward
  dsimp only
  repeat' split
  all_goals rfl

theorem wsFraming_lastEvent (fuel : Nat) (opcode : WsOperation) (bytesRead : Nat) {r : Bool × Conn φ}
    (h : wsFraming env fuel opcode bytesRead s = some r) : r.2.ws.lastEvent = s.ws.lastEvent := by
  induction fuel generalizing opcode bytesRead s with
  | zero => cases h
  | succ fuel ih =>
      unfold wsFraming at h
      split at h
      · cases h
      · next framing hf =>
        dsimp only at h
        generalize framing _ _ _ _ _ _ = r' at h
        have hframed := wsFramed_lastEvent env r'.1 (r'.2.1.getD opcode) bytesRead
          (framingCalled bytesRead r'.2.2 s)
        generalize wsFramed env r'.1 (r'.2.1.getD opcode) bytesRead
          (framingCalled bytesRead r'.2.2 s) = p at h hframed
        cases p with
        | done rv u =>
            cases h
            exact hframed
        | again op u v => exact (ih op u h).trans hframed

theorem wsPeerData_lastEvent {fuel : Nat} {answer : Option Bytes} {r : Bool × Conn φ}
    (h : wsPeerData env fuel answer s = some r) : r.2.ws.lastEvent = s.ws.lastEvent := by
  unfold wsPeerData at h
  dsimp only at h
  split at h
  · cases h
    rfl
  · cases h
    rfl
  · exact (wsFraming_lastEvent _ _ _ h).trans rfl

theorem wsKeepAlive_lastEvent (env : Env φ) (now : Int) (s : Conn φ) :
    (wsKeepAlive env now s).ws.lastEvent = s.ws.lastEvent := by
  unfold wsKeepAlive
  dsimp only
  split
  · split <;> rfl
  · rfl

/-! ## What a step at a slot comes to -/

variable {c c' : Core φ} {answer : Option Bytes} {fuel n : Nat}

theorem coreStep_client (hl : c.loc = .client n) (h : coreStep env (.serve answer fuel) c = some c') :
    (∃ ws t, c.sock[n]? = some ws ∧
      wsData env answer ⟨{ ws with lastEvent := c.now }, c.world⟩ = some t ∧
        c' = c.put n t (.peer n)) ∨
      ∃ l, c' = { c with loc := l } ∧
        (∀ ws, c.sock[n]? = some ws → ¬ws.wsFd.any (· ∈ c.readFds)) ∧
          (l = .select ∨ l = .client (n + 1) ∨
            l = .peer n ∧ ∀ ws, c.sock[n]? = some ws → ¬ws.wsFd.all (· ∈ c.readFds)) := by
  unfold coreStep at h
  rw [hl] at h
  dsimp only at h
  split at h
  · next hn =>
    cases h
    refine .inr ⟨.select, rfl, fun ws hws => ?_, .inl rfl⟩
    rw [hn] at hws
    cases hws
  · next ws hn =>
    have hslot : ∀ ws', c.sock[n]? = some ws' → ws' = ws := fun ws' hws =>
      (Option.some.inj (hn.symm.trans hws)).symm
    split at h
    · next hfd =>
      cases h
      refine .inr ⟨.client (n + 1), rfl, fun ws' hws => ?_, .inr (.inl rfl)⟩
      rw [hslot ws' hws, hfd]
      exact Bool.false_ne_true
    · next fd hfd =>
      split at h
      · obtain ⟨t, ht, rfl⟩ := Option.map_eq_some_iff.mp h
        exact .inl ⟨ws, t, hn, ht, rfl⟩
      · next hready =>
        cases h
        refine .inr ⟨.peer n, rfl, fun ws' hws => ?_, .inr (.inr ⟨rfl, fun ws' hws => ?_⟩)⟩
        · rw [hslot ws' hws, hfd]
          simpa using hready
        · rw [hslot ws' hws, hfd]
          simpa using hready

theorem coreStep_peer (hl : c.loc = .peer n) (h : coreStep env (.serve answer fuel) c = some c') :
    ∃ ws, c.sock[n]? = some ws ∧ (c' = { c with loc := .ping n } ∨
      ∃ fd r, ws.peerFd = some fd ∧ wsPeerData env fuel answer ⟨ws, c.world⟩ = some r ∧
        c' = c.put n r.2 (if r.1 then .select else .ping n)) := by
  unfold coreStep at h
  rw [hl] at h
  dsimp only at h
  split at h
  · cases h
  · next ws hn =>
    refine ⟨ws, hn, ?_⟩
    split at h
    · next hready =>
      obtain ⟨r, hr, rfl⟩ := Option.map_eq_some_iff.mp h
      cases hfd : ws.peerFd with
      | none =>
          rw [hfd] at hready
          cases hready
      | some fd => exact .inr ⟨fd, r, rfl, hr, rfl⟩
    · cases h
      exact .inl rfl

theorem coreStep_ping (hl : c.loc = .ping n) (h : coreStep env (.serve answer fuel) c = some c') :
    ∃ ws, c.sock[n]? = some ws ∧
      c' = c.put n (wsKeepAlive env c.now ⟨ws, c.world⟩) (.client (n + 1)) := by
  unfold coreStep at h
  rw [hl] at h
  dsimp only at h
  split at h
  · cases h
  · next ws hn =>
    cases h
    exact ⟨ws, hn, rfl⟩

/-! ## The invariant -/

/-- What the history says about the connections. -/
structure KeepAliveInv (env : Env φ) (s : Timed φ) : Prop where
  past : ∀ a ∈ s.stamps, a.now ≤ s.core.now
  known : ∀ a ∈ s.stamps, a.conn < s.core.world.conns
  heard : ∀ ws ∈ s.core.sock, ∀ a ∈ s.stamps, a.kind = .heard → a.conn = ws.conn →
    a.now ≤ ws.lastEvent
  /-- no ping is too recent for another one at the slot that is served -/
  pinged : ∀ n, s.core.loc = .peer n ∨ s.core.loc = .ping n → ∀ ws, s.core.sock[n]? = some ws →
    ∀ a ∈ s.stamps, a.kind = .ping → a.conn = ws.conn →
      env.pingInterval < s.core.now - a.now ∨ a.now ≤ ws.lastEvent
  rate : KeepAliveRate env.pingInterval s.stamps

theorem KeepAliveRate.append_heard {interval : Int} {stamps new : List Stamp}
    (h : KeepAliveRate interval stamps) (hn : ∀ b ∈ new, b.kind = .heard) :
    KeepAliveRate interval (stamps ++ new) := by
  refine List.pairwise_append.mpr ⟨h, ?_, ?_⟩
  · refine List.pairwise_of_forall_mem_list ?_
    intro a ha b hb hping
    rw [hn b hb] at hping
    cases hping
  · intro a ha b hb hping
    rw [hn b hb] at hping
    cases hping

/-- What a step at the client of a slot notes. -/
theorem stamps_client (env : Env φ) (answer : Option Bytes) (fuel : Nat) (hl : c.loc = .client n) :
    ∀ a ∈ c.stamps env (.serve answer fuel),
    ∃ ws, c.sock[n]? = some ws ∧ ws.wsFd.any (· ∈ c.readFds) ∧ a = ⟨.heard, c.now, ws.conn⟩ := by
  intro a ha
  have hping : c.pingCall env (.serve answer fuel) = none := by
    unfold Core.pingCall
    rw [hl]
  unfold Core.stamps at ha
  rw [hping, Option.filter_none, Option.toList_none, List.map_nil, List.append_nil] at ha
  obtain ⟨p, hp, rfl⟩ := List.mem_map.mp ha
  have hcall := (Option.filter_eq_some_iff.mp (Option.mem_toList.mp hp)).1
  unfold Core.dataCall at hcall
  rw [hl] at hcall
  cases answer with
  | none => cases hcall
  | some b =>
      obtain ⟨ws, hn, hready⟩ := Option.bind_eq_some_iff.mp hcall
      split at hready
      · next h =>
        cases hready
        exact ⟨ws, hn, h, rfl⟩
      · cases hready

/-- What a step at the keep-alive check of a slot notes. -/
theorem stamps_ping (hl : c.loc = .ping n) {ws : Websocket φ} (hn : c.sock[n]? = some ws) :
    c.stamps env (.serve answer fuel) =
      if (env.pingInterval ≠ 0 ∧ env.pingInterval < c.now - ws.lastEvent) ∧ ws.wsFd.isSome then
        [⟨.ping, c.now, ws.conn⟩]
      else [] := by
  have hdata : c.dataCall (.serve answer fuel) = none := by
    unfold Core.dataCall
    rw [hl]
  unfold Core.stamps Core.pingCall
  rw [hdata, hl]
  dsimp only
  rw [hn, Option.filter_none, Option.toList_none, List.map_nil, List.nil_append, Option.filter_some]
  by_cases hdue : env.pingInterval ≠ 0 ∧ env.pingInterval < c.now - ws.lastEvent
  · rw [if_pos (decide_eq_true hdue), Option.filter_some]
    by_cases hopen : ws.wsFd.isSome
    · rw [if_pos hopen, if_pos ⟨hdue, hopen⟩]
      rfl
    · rw [if_neg hopen, if_neg fun h => hopen h.2]
      rfl
  · rw [if_neg (by simpa using hdue), if_neg fun h => hdue h.1]
    rfl

/-- Where no ping is noted, none is sent: the client is gone, or nothing is done. -/
theorem wsKeepAlive_unnoted (hl : c.loc = .ping n) {ws : Websocket φ} (hn : c.sock[n]? = some ws)
    (h : c.stamps env (.serve answer fuel) = []) :
    ws.wsFd = none ∨ wsKeepAlive env c.now ⟨ws, c.world⟩ = ⟨ws, c.world⟩ := by
  rw [stamps_ping hl hn] at h
  by_cases hdue : env.pingInterval ≠ 0 ∧ env.pingInterval < c.now - ws.lastEvent
  · left
    by_contra hopen
    rw [if_pos ⟨hdue, Option.isSome_iff_ne_none.mpr hopen⟩] at h
    cases h
  · exact .inr (if_neg hdue)

/-- Other steps note nothing. -/
theorem stamps_other {i : Input} (hc : ∀ n, c.loc ≠ .client n) (hp : ∀ n, c.loc ≠ .ping n) :
    c.stamps env i = [] := by
  have hdata : c.dataCall i = none := by
    unfold Core.dataCall
    split
    · next n _ _ hl => exact absurd hl (hc n)
    · rfl
  have hping : c.pingCall env i = none := by
    unfold Core.pingCall
    split
    · next n _ _ hl => exact absurd hl (hp n)
    · rfl
  rw [Core.stamps, hdata, hping]
  rfl

/-- A handler that works on a slot keeps the other slots' records, and its own if it does not
forget when the client was heard. -/
theorem heard_put {stamps : List Stamp} {ws : Websocket φ} {t : Conn φ} {l : Loc}
    (h : ∀ ws ∈ c.sock, ∀ a ∈ stamps, a.kind = .heard → a.conn = ws.conn → a.now ≤ ws.lastEvent)
    (hn : c.sock[n]? = some ws) (hconn : t.ws.conn = ws.conn) (hlast : ws.lastEvent = t.ws.lastEvent) :
    ∀ v ∈ (c.put n t l).sock, ∀ a ∈ stamps, a.kind = .heard → a.conn = v.conn →
      a.now ≤ v.lastEvent := by
  refine put_forall h ?_
  intro a ha hkind hc
  rw [← hlast]
  exact h ws (List.mem_of_getElem? hn) a ha hkind (hc.trans hconn)

theorem clientCleanup_conns (env : Env φ) (sock : List (Websocket φ)) (w : World) :
    (clientCleanup env sock w).conns = w.conns := by
  induction sock generalizing w with
  | nil => rfl
  | cons ws sock ih =>
      have hclose : Local ⟨ws, w⟩ (wsClose env .shutdown (some (ascii "Shutting down")) ⟨ws, w⟩) :=
        wsClose_local _ _ _
      exact (ih _).trans hclose.conns

/-- At the client of a slot. -/
theorem KeepAliveInv.client {s : Timed φ} (hi : KeepAliveInv env s)
    (hr : RegistryInv env s.core.sock s.core.world) (hp : PingAnswered env s (.serve answer fuel))
    (hl : s.core.loc = .client n) (h : coreStep env (.serve answer fuel) s.core = some c') :
    KeepAliveInv env ⟨c', s.stamps ++ s.core.stamps env (.serve answer fuel)⟩ := by
  have hnew := stamps_client env answer fuel hl
  generalize s.core.stamps env (.serve answer fuel) = new at hnew ⊢
  have hrate : KeepAliveRate env.pingInterval (s.stamps ++ new) := by
    refine hi.rate.append_heard ?_
    intro b hb
    obtain ⟨ws, -, -, rfl⟩ := hnew b hb
    rfl
  rcases coreStep_client hl h with ⟨ws, t, hn, ht, rfl⟩ | ⟨l, rfl, hnone, hnext⟩
  · have hslot := hr.slots ws (List.mem_of_getElem? hn)
    obtain ⟨-, -, hlocal⟩ := wsData_slotInv
      (s := ⟨{ ws with lastEvent := s.core.now }, s.core.world⟩) { hslot with } ht
    have hlast : t.ws.lastEvent = s.core.now := wsData_lastEvent ht
    have hconn : t.ws.conn = ws.conn := hlocal.conn
    have hstamps : ∀ a ∈ s.stamps ++ new, a.now ≤ s.core.now ∧ a.conn < s.core.world.conns := by
      intro a ha
      rcases List.mem_append.mp ha with ha | ha
      · exact ⟨hi.past a ha, hi.known a ha⟩
      · obtain ⟨v, hv, -, rfl⟩ := hnew a ha
        exact ⟨Int.le_refl _, hr.numbers v (List.mem_of_getElem? hv)⟩
    refine ⟨fun a ha => (hstamps a ha).1, fun a ha => ?_, ?_, ?_, hrate⟩
    · show a.conn < t.world.conns
      rw [hlocal.conns]
      exact (hstamps a ha).2
    · intro v hv a ha hkind hc
      obtain ⟨m, hm⟩ := List.mem_iff_getElem?.mp hv
      rcases put_get hm with ⟨rfl, rfl⟩ | ⟨hne, hold⟩
      · rw [hlast]
        exact (hstamps a ha).1
      · rcases List.mem_append.mp ha with ha | ha
        · exact hi.heard v (List.mem_of_getElem? hold) a ha hkind hc
        · -- what is noted now is about the slot that is served
          obtain ⟨u, hu, -, rfl⟩ := hnew a ha
          have hlen : m < (s.core.sock.map (·.conn)).length := by
            rw [List.length_map]
            exact (List.getElem?_eq_some_iff.mp hold).1
          refine absurd ((List.getElem?_inj hlen hr.distinct).mp ?_) hne
          rw [List.getElem?_map, List.getElem?_map, hold, hu]
          exact congrArg some hc.symm
    · intro m hm v hv a ha _ _
      obtain rfl : n = m := by
        rcases hm with hm | hm
        · cases hm
          rfl
        · cases hm
      right
      rcases put_get hv with ⟨-, rfl⟩ | ⟨hne, -⟩
      · rw [hlast]
        exact (hstamps a ha).1
      · exact absurd rfl hne
  · have hnil : new = [] := by
      rw [List.eq_nil_iff_forall_not_mem]
      intro a ha
      obtain ⟨ws, hn, hready, -⟩ := hnew a ha
      exact hnone ws hn hready
    subst hnil
    rw [List.append_nil] at hrate ⊢
    refine ⟨hi.past, hi.known, hi.heard, ?_, hrate⟩
    intro m hm v hv a ha hkind hc
    rcases hnext with rfl | rfl | ⟨rfl, hall⟩
    · rcases hm with hm | hm <;> cases hm
    · rcases hm with hm | hm <;> cases hm
    · obtain rfl : n = m := by
        rcases hm with hm | hm
        · cases hm
          rfl
        · cases hm
      by_cases hrecent : s.core.now - a.now ≤ env.pingInterval
      · right
        unfold PingAnswered at hp
        rw [hl] at hp
        refine (hp v ?_ a ha hkind hc hrecent).resolve_right (hall v hv)
        exact Option.mem_toList.mpr hv
      · exact .inl (Int.not_le.mp hrecent)

/-- At the peer of a slot. -/
theorem KeepAliveInv.peer {s : Timed φ} (hi : KeepAliveInv env s)
    (hr : RegistryInv env s.core.sock s.core.world)
    (hl : s.core.loc = .peer n) (h : coreStep env (.serve answer fuel) s.core = some c') :
    KeepAliveInv env ⟨c', s.stamps⟩ := by
  obtain ⟨ws, hn, hcase⟩ := coreStep_peer hl h
  rcases hcase with rfl | ⟨fd, r, hfd, hr', rfl⟩
  · refine ⟨hi.past, hi.known, hi.heard, ?_, hi.rate⟩
    intro m hm v hv
    obtain rfl : n = m := by
      rcases hm with hm | hm
      · cases hm
      · cases hm
        rfl
    exact hi.pinged n (.inl hl) v hv
  · have hslot := hr.slots ws (List.mem_of_getElem? hn)
    obtain ⟨-, -, hlocal⟩ := wsPeerData_slotInv (s := ⟨ws, s.core.world⟩) hslot hfd hr'
    have hlast : ws.lastEvent = r.2.ws.lastEvent := (wsPeerData_lastEvent hr').symm
    have hconn : r.2.ws.conn = ws.conn := hlocal.conn
    refine ⟨hi.past, fun a ha => ?_, heard_put hi.heard hn hconn hlast, ?_, hi.rate⟩
    · show a.conn < r.2.world.conns
      rw [hlocal.conns]
      exact hi.known a ha
    · intro m hm v hv a ha hkind hc
      obtain rfl : n = m := by
        revert hm
        show ((if r.1 then Loc.select else .ping n) = _ ∨ (if r.1 then Loc.select else .ping n) = _) → _
        split
        · rintro (hm | hm) <;> cases hm
        · rintro (hm | hm)
          · cases hm
          · cases hm
            rfl
      rcases put_get hv with ⟨-, rfl⟩ | ⟨hne, -⟩
      · rw [← hlast]
        exact hi.pinged n (.inl hl) ws hn a ha hkind (hc.trans hconn)
      · exact absurd rfl hne

/-- At the keep-alive check of a slot. -/
theorem KeepAliveInv.ping {s : Timed φ} (hi : KeepAliveInv env s)
    (hr : RegistryInv env s.core.sock s.core.world)
    (hl : s.core.loc = .ping n) (h : coreStep env (.serve answer fuel) s.core = some c') :
    KeepAliveInv env ⟨c', s.stamps ++ s.core.stamps env (.serve answer fuel)⟩ := by
  obtain ⟨ws, hn, rfl⟩ := coreStep_ping hl h
  have hslot := hr.slots ws (List.mem_of_getElem? hn)
  have hlocal : Local ⟨ws, s.core.world⟩ (wsKeepAlive env s.core.now ⟨ws, s.core.world⟩) :=
    (wsKeepAlive_slotInv s.core.now hslot).2.2
  have hlast := (wsKeepAlive_lastEvent env s.core.now ⟨ws, s.core.world⟩).symm
  have hheard := heard_put (l := .client (n + 1)) hi.heard hn hlocal.conn hlast
  have hknown : ∀ a ∈ s.stamps, a.conn < (wsKeepAlive env s.core.now ⟨ws, s.core.world⟩).world.conns := by
    intro a ha
    rw [hlocal.conns]
    exact hi.known a ha
  have hpinged (m : Nat) (hm : Loc.client (n + 1) = .peer m ∨ Loc.client (n + 1) = .ping m) : False := by
    rcases hm with hm | hm <;> cases hm
  rw [stamps_ping hl hn]
  split
  · next hnew =>
    have hdue := hnew.1.2
    refine ⟨?_, ?_, ?_, fun m hm => (hpinged m hm).elim, ?_⟩
    · intro a ha
      rcases List.mem_append.mp ha with ha | ha
      · exact hi.past a ha
      · rw [List.mem_singleton.mp ha]
        exact Int.le_refl _
    · intro a ha
      rcases List.mem_append.mp ha with ha | ha
      · exact hknown a ha
      · rw [List.mem_singleton.mp ha]
        show ws.conn < (wsKeepAlive env s.core.now ⟨ws, s.core.world⟩).world.conns
        rw [hlocal.conns]
        exact hr.numbers ws (List.mem_of_getElem? hn)
    · intro v hv a ha hkind hc
      rcases List.mem_append.mp ha with ha | ha
      · exact hheard v hv a ha hkind hc
      · rw [List.mem_singleton.mp ha] at hkind
        cases hkind
    · refine List.pairwise_append.mpr ⟨hi.rate, List.pairwise_singleton _ _, ?_⟩
      intro a ha b hb _ hc
      rw [List.mem_singleton.mp hb] at hc ⊢
      show env.pingInterval < s.core.now - a.now
      cases hkind : a.kind with
      | heard =>
          have := hi.heard ws (List.mem_of_getElem? hn) a ha hkind hc.symm
          omega
      | ping =>
          have := hi.pinged n (.inr hl) ws hn a ha hkind hc.symm
          omega
  · rw [List.append_nil]
    exact ⟨hi.past, hknown, hheard, fun m hm => (hpinged m hm).elim, hi.rate⟩

theorem KeepAliveInv.select {s : Timed φ} (hi : KeepAliveInv env s) {ready : List Nat} {now : Int}
    {accepts : Bool} (hc : s.core.now ≤ now)
    (h : coreStep env (.select ready now accepts) s.core = some c') :
    KeepAliveInv env ⟨c', s.stamps⟩ := by
  have hpast : ∀ a ∈ s.stamps, a.now ≤ now := fun a ha => Int.le_trans (hi.past a ha) hc
  have hpinged (m : Nat) (hm : Loc.client 0 = .peer m ∨ Loc.client 0 = .ping m) : False := by
    rcases hm with hm | hm <;> cases hm
  cases coreStep_cases h with
  | round _ _ _ hl hlisten =>
      exact ⟨hpast, hi.known, hi.heard, fun m hm => (hpinged m hm).elim, hi.rate⟩
  | accept _ _ _ hl hlisten =>
      rw [wsAccept_eq]
      refine ⟨hpast, ?_, ?_, fun m hm => (hpinged m hm).elim, hi.rate⟩
      · intro a ha
        have hconns : ((s.core.selected ready now).world.accept accepts).conns =
          s.core.world.conns + 1 := by cases accepts <;> rfl
        show a.conn < ((s.core.selected ready now).world.accept accepts).conns
        rw [hconns]
        exact Nat.lt_succ_of_lt (hi.known a ha)
      · intro v hv a ha hkind hconn
        rcases mem_clientRegister hv with rfl | hv
        · -- nothing was noted of a new connection
          exact absurd hconn (Nat.ne_of_lt (hi.known a ha))
        · exact hi.heard v hv a ha hkind hconn

/-- **A step** keeps the invariant, if the clock does not go back and pings are answered. -/
theorem KeepAliveInv.step {s : Timed φ} {i : Input} (hi : KeepAliveInv env s)
    (hr : RegistryInv env s.core.sock s.core.world) (hc : ClockForward s i)
    (hp : PingAnswered env s i) (h : coreStep env i s.core = some c') :
    KeepAliveInv env ⟨c', s.stamps ++ s.core.stamps env i⟩ := by
  have hother (hc : ∀ n, s.core.loc ≠ .client n) (hp : ∀ n, s.core.loc ≠ .ping n)
      (hquiet : KeepAliveInv env ⟨c', s.stamps⟩) :
      KeepAliveInv env ⟨c', s.stamps ++ s.core.stamps env i⟩ := by
    rwa [stamps_other hc hp, List.append_nil]
  cases i with
  | select ready now accepts =>
      have hl : s.core.loc = .select := by
        cases coreStep_cases h with
        | round _ _ _ hl hlisten => exact hl
        | accept _ _ _ hl hlisten => exact hl
      exact hother (by rw [hl]; simp) (by rw [hl]; simp) (hi.select hc h)
  | quit =>
      have hl : s.core.loc = .select := by
        cases coreStep_cases h with
        | quit hl => exact hl
      refine hother (by rw [hl]; simp) (by rw [hl]; simp) ?_
      cases coreStep_cases h with
      | quit _ =>
          refine ⟨hi.past, ?_, by simp, fun m hm => ?_, hi.rate⟩
          · intro a ha
            have hclose : ∀ (w : World) fd, (w.closeFd fd).conns = w.conns := by
              intro w fd
              unfold World.closeFd
              split <;> rfl
            show a.conn < ((clientCleanup env s.core.sock s.core.world).closeFd _).conns
            rw [hclose, clientCleanup_conns]
            exact hi.known a ha
          · rcases hm with hm | hm <;> cases hm
  | serve answer fuel =>
      cases hl : s.core.loc with
      | client n => exact hi.client hr hp hl h
      | peer n => exact hother (by rw [hl]; simp) (by rw [hl]; simp) (hi.peer hr hl h)
      | ping n => exact hi.ping hr hl h
      | select =>
          unfold coreStep at h
          rw [hl] at h
          cases h
      | done =>
          unfold coreStep at h
          rw [hl] at h
          cases h

/-! ## Runs -/

/-- A run with its history is a run. -/
theorem timedLoop_core {ok : Timed φ → Input → Prop} {s : Timed φ} (h : (timedLoop env).Reach ok s) :
    (coreLoop env).Reach (fun _ _ => True) s.core := by
  induction h with
  | init hi => exact .init hi.1
  | step i _ _ hs ih =>
      obtain ⟨c, hc, rfl⟩ := Option.map_eq_some_iff.mp hs
      exact .step i ih trivial hc

end

/-- **Pings are kept apart** in every run in which the clock does not go back, and each client
that was sent a ping is heard before its slot is looked at again within the interval. -/
theorem keepAlive_rate (env : Env φ) (s : Timed φ)
    (h : (timedLoop env).Reach (fun s i => ClockForward s i ∧ PingAnswered env s i) s) :
    KeepAliveRate env.pingInterval s.stamps := by
  have hinv : KeepAliveInv env s := by
    refine h.invariant ?_ ?_
    · rintro ⟨c, stamps⟩ ⟨-, hstamps⟩
      obtain rfl : stamps = [] := hstamps
      exact ⟨by simp, by simp, by simp, by simp, List.Pairwise.nil⟩
    · intro s i t hr hi ho hs
      obtain ⟨c, hc, rfl⟩ := Option.map_eq_some_iff.mp hs
      exact hi.step (coreLoop_registryInv (timedLoop_core hr)) ho.1 ho.2 hc
  exact hinv.rate

/-- A client that says nothing, and then something after the ping. -/
def sampleAnswered : List Input :=
  sampleAccept ++ [.select [] 40 false, .serve none 0, .serve none 0, .serve none 0, .serve none 0,
    .select [4] 41 false, .serve (some [71]) 0, .serve none 0, .serve none 0, .serve none 0,
    .select [] 80 false, .serve none 0, .serve none 0, .serve none 0]

def sampleTimed : Timed Unit := ⟨sampleCore, []⟩

theorem sampleTimed_init : (timedLoop sampleEnv).init sampleTimed := ⟨sampleCore_init, rfl⟩

theorem sampleAnswered_runs : ((timedLoop sampleEnv).exec sampleAnswered sampleTimed).isSome := by
  decide +kernel

theorem keepAlive_rate_sample :
    let s := ((timedLoop sampleEnv).exec sampleAnswered sampleTimed).get sampleAnswered_runs
    s.stamps = [⟨.ping, 40, 0⟩, ⟨.heard, 41, 0⟩, ⟨.ping, 80, 0⟩] ∧
      KeepAliveRate sampleEnv.pingInterval s.stamps :=
  ⟨by decide +kernel, keepAlive_rate sampleEnv _ (.exec (.init sampleTimed_init) sampleAnswered
    (by decide +kernel) (by simp))⟩

/-- A client that says nothing, and two rounds one second apart. -/
def sampleSilent : List Input :=
  sampleAccept ++ [.select [] 40 false, .serve none 0, .serve none 0, .serve none 0, .serve none 0,
    .select [] 41 false, .serve none 0, .serve none 0, .serve none 0]

theorem sampleSilent_runs : ((timedLoop sampleEnv).exec sampleSilent sampleTimed).isSome := by
  decide +kernel

/-- A client that says nothing is sent a ping whenever the loop wakes up. -/
theorem keepAlive_rate_fails : ¬∀ s, (timedLoop sampleEnv).Reach ClockForward s →
    KeepAliveRate sampleEnv.pingInterval s.stamps := by
  intro h
  have hrate := h (((timedLoop sampleEnv).exec sampleSilent sampleTimed).get sampleSilent_runs)
    (.exec (.init sampleTimed_init) sampleSilent (by decide +kernel) (by simp))
  exact absurd hrate (by decide +kernel)

end Websocksy

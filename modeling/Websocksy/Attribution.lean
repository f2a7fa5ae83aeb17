import Websocksy.ControlReplies

/-!
# Which connection a socket was given to

Every socket that a slot has was given to its connection, by `accept` or by `client_connect`, and
to no other (`GivenInv`).  So what a handler does is about its own connection, and stands aside of
all others (`Local.aside`).
-/

namespace Websocksy

open Buffer CString FdTable

variable {φ : Type}

/-- The socket was given to the connection, for its client or for its peer. -/
def GivenTo (conn x : Nat) (log : List Event) : Prop :=
  .accepted conn x ∈ log ∨ .opened conn x ∈ log

/-- The event is about the connection or the data of its sockets, of which `given` tells. -/
def Event.Of (conn : Nat) (given : Nat → Prop) : Event → Prop
  | .accepted c _ | .opened c _ | .line c _ _ | .query c _ _ | .wsClose c _ | .framing c _ _
  | .segment c _ _ => c = conn
  | .wrote x _ | .sendFailed x | .received x _ | .recvFailed x => given x
  | .closed _ | .selected _ => False

/-- The event is about connections below `conns` and sockets below `socks`. -/
def Event.Known (conns socks : Nat) : Event → Prop
  | .accepted c x | .opened c x => c < conns ∧ x < socks
  | .line c _ _ | .query c _ _ | .wsClose c _ | .framing c _ _ | .segment c _ _ => c < conns
  | .wrote x _ | .sendFailed x | .received x _ | .recvFailed x | .closed x => x < socks
  | .selected _ => True

theorem Event.Known.mono {m n m' n' : Nat} {e : Event} (h : e.Known m n) (hm : m ≤ m')
    (hn : n ≤ n') : e.Known m' n' := by
  cases e with
  | accepted c x => exact ⟨h.1.trans_le hm, h.2.trans_le hn⟩
  | opened c x => exact ⟨h.1.trans_le hm, h.2.trans_le hn⟩
  | line c st d => exact Nat.lt_of_lt_of_le h hm
  | query c st p => exact Nat.lt_of_lt_of_le h hm
  | wsClose c r => exact Nat.lt_of_lt_of_le h hm
  | framing c d k => exact Nat.lt_of_lt_of_le h hm
  | segment c op d => exact Nat.lt_of_lt_of_le h hm
  | wrote x d => exact Nat.lt_of_lt_of_le h hn
  | sendFailed x => exact Nat.lt_of_lt_of_le h hn
  | received x d => exact Nat.lt_of_lt_of_le h hn
  | recvFailed x => exact Nat.lt_of_lt_of_le h hn
  | closed x => exact Nat.lt_of_lt_of_le h hn
  | selected xs => trivial

theorem fresh_received {conns socks : Nat} {log : List Event}
    (h : ∀ e ∈ log, e.Known conns socks) : received socks log = [] := by
  unfold received recvs
  rw [List.flatten_eq_nil_iff]
  intro l hl
  obtain ⟨e, hm, hl⟩ := List.mem_flatMap.mp hl
  cases e with
  | received y d =>
      have hne : y ≠ socks := Nat.ne_of_lt (h _ hm)
      simp [hne] at hl
  | _ => cases hl

theorem fresh_written {conns socks : Nat} {log : List Event}
    (h : ∀ e ∈ log, e.Known conns socks) : written socks log = [] := by
  unfold written
  rw [List.flatMap_eq_nil_iff]
  intro e hm
  cases e with
  | wrote y d =>
      have hne : y ≠ socks := Nat.ne_of_lt (h _ hm)
      simp [hne]
  | _ => rfl

theorem fresh_handledLines {conns socks : Nat} {log : List Event}
    (h : ∀ e ∈ log, e.Known conns socks) : handledLines conns log = [] := by
  unfold handledLines
  rw [List.flatMap_eq_nil_iff]
  intro e hm
  cases e with
  | line c st d =>
      have hne : c ≠ conns := Nat.ne_of_lt (h _ hm)
      simp [hne]
  | _ => rfl

theorem fresh_segments {conns socks : Nat} {log : List Event}
    (h : ∀ e ∈ log, e.Known conns socks) : segments conns log = [] := by
  unfold segments
  rw [List.flatMap_eq_nil_iff]
  intro e hm
  cases e with
  | segment c op d =>
      have hne : c ≠ conns := Nat.ne_of_lt (h _ hm)
      simp [hne]
  | _ => rfl

theorem fresh_sends {conns socks : Nat} {log : List Event}
    (h : ∀ e ∈ log, e.Known conns socks) : sends socks log = [] := by
  apply sends_eq_nil
  intro e hm
  have hknown := h e hm
  cases e with
  | wrote y d => simpa [Event.sendsTo] using Nat.ne_of_lt hknown
  | sendFailed y => simpa [Event.sendsTo] using Nat.ne_of_lt hknown
  | _ => rfl

theorem accept_log (w : World) (accepts : Bool) :
    (w.accept accepts).log = w.log ++ if accepts then [.accepted w.conns w.socks] else [] := by
  cases accepts with
  | true => rfl
  | false => exact (List.append_nil _).symm

/-- The connection of an `accept` is new: its client is the socket that was given, and it has no
peer. -/
theorem accept_fresh {w : World} (h : ∀ e ∈ w.log, e.Known w.conns w.socks) (accepts : Bool)
    (x : Nat) :
    (.accepted w.conns x ∈ (w.accept accepts).log → accepts = true ∧ x = w.socks) ∧
      .opened w.conns x ∉ (w.accept accepts).log := by
  rw [accept_log]
  constructor
  · intro hm
    rcases List.mem_append.mp hm with hm | hm
    · exact absurd (h _ hm).1 (Nat.lt_irrefl _)
    · cases accepts with
      | true => exact ⟨rfl, (Event.accepted.inj (List.mem_singleton.mp hm)).2⟩
      | false => cases hm
  · intro hm
    rcases List.mem_append.mp hm with hm | hm
    · exact absurd (h _ hm).1 (Nat.lt_irrefl _)
    · cases accepts with
      | true => cases List.mem_singleton.mp hm
      | false => cases hm

/-! ## What a handler gives its connection -/

/-- From `s` to `t` the connection was given new sockets at most, and all that happened is about
it and sockets that are there. -/
structure Gives (s t : Conn φ) : Prop extends Local s t where
  events : ∃ es, t.world.log = s.world.log ++ es ∧
    (∀ e ∈ es, s.ws.conn < s.world.conns → e.Known t.world.conns t.world.socks) ∧
    (∀ c x, .accepted c x ∉ es) ∧
    ∀ c x, .opened c x ∈ es → c = s.ws.conn ∧ s.world.socks ≤ x
  client : ∀ x, t.world.sockAt t.ws.wsFd = some x → s.world.sockAt s.ws.wsFd = some x
  peer : ∀ x, t.world.sockAt t.ws.peerFd = some x →
    s.world.sockAt s.ws.peerFd = some x ∨ .opened s.ws.conn x ∈ t.world.log

section

variable {env : Env φ} {A : Scope} {s t u : Conn φ}

theorem Gives.refl (s : Conn φ) : Gives s s :=
  { Local.refl s with
    events := ⟨[], by simp⟩, client := fun _ h => h, peer := fun _ h => .inl h }

theorem Gives.trans (h : Gives s t) (h' : Gives t u) : Gives s u := by
  obtain ⟨es, he, hk, ha, ho⟩ := h.events
  obtain ⟨fs, hf, hk', ha', ho'⟩ := h'.events
  refine { h.toLocal.trans h'.toLocal with
    events := ⟨es ++ fs, by rw [hf, he, List.append_assoc], ?_, ?_, ?_⟩
    client := fun x hx => h.client x (h'.client x hx), peer := ?_ }
  · intro e hm hlt
    rcases List.mem_append.mp hm with hm | hm
    · exact (hk e hm hlt).mono (Nat.le_of_eq h'.conns.symm) h'.socks
    · apply hk' e hm
      rw [h.conn, h.conns]
      exact hlt
  · intro c x hm
    rcases List.mem_append.mp hm with hm | hm
    · exact ha c x hm
    · exact ha' c x hm
  · intro c x hm
    rcases List.mem_append.mp hm with hm | hm
    · exact ho c x hm
    · obtain ⟨hc, hx⟩ := ho' c x hm
      exact ⟨hc.trans h.conn, h.socks.trans hx⟩
  · intro x hx
    rcases h'.peer x hx with hx | hx
    · refine (h.peer x hx).imp id ?_
      intro hm
      rw [hf]
      exact List.mem_append_left _ hm
    · rw [h.conn] at hx
      exact .inr hx

/-- Changes of the connection that leave its descriptors alone. -/
theorem Gives.of_ws {ws : Websocket φ} (hc : ws.conn = s.ws.conn) (hw : ws.wsFd = s.ws.wsFd)
    (hp : ws.peerFd = s.ws.peerFd) : Gives s ⟨ws, s.world⟩ :=
  { Local.of_ws hc hw hp with
    events := ⟨[], by simp⟩
    client := fun x h => by rwa [hw] at h
    peer := fun x h => .inl (by rwa [hp] at h) }

theorem Gives.record {e : Event} (hw : e.Within s.ws.conn s.Own)
    (hk : s.ws.conn < s.world.conns → e.Known s.world.conns s.world.socks)
    (ho : ∀ c x, e ≠ .opened c x) : Gives s ⟨s.ws, s.world.record e⟩ := by
  refine { Local.record hw with
    events := ⟨[e], World.record_log _ _, ?_, ?_, ?_⟩
    client := fun x h => h, peer := fun x h => .inl h }
  · intro e' hm hlt
    rw [List.mem_singleton.mp hm]
    exact hk hlt
  · intro c x hm
    rw [← List.mem_singleton.mp hm] at hw
    exact hw
  · intro c x hm
    exact absurd (List.mem_singleton.mp hm).symm (ho c x)

/-- A socket that is open is there. -/
theorem sockAt_lt {w : World} (hn : Numbered w.fds w.socks) {fd : Option Nat} {x : Nat}
    (hx : w.sockAt fd = some x) : x < w.socks := by
  cases fd with
  | none => cases hx
  | some n => exact hn.1 n x hx

theorem closeFd_conns (w : World) (fd : Option Nat) : (w.closeFd fd).conns = w.conns := by
  cases hx : w.sockAt fd with
  | none => rw [closeFd_none hx]
  | some x =>
      cases fd with
      | none => cases hx
      | some n =>
          rw [closeFd_some hx]
          rfl

theorem Gives.sends {fd : Option Nat} (hfd : fd = s.ws.wsFd ∨ fd = s.ws.peerFd) {w : World}
    (hn : Numbered s.world.fds s.world.socks) (h : OnlySends fd s.world w) : Gives s ⟨s.ws, w⟩ := by
  obtain ⟨es, he, hes⟩ := h.log
  refine { Local.sends hfd h with
    events := ⟨es, he, ?_, ?_, ?_⟩
    client := fun x hx => by rwa [h.sockAt] at hx
    peer := fun x hx => .inl (by rwa [h.sockAt] at hx) }
  · intro e hm _
    obtain ⟨x, hx, hform⟩ := hes e hm
    have hlt : x < w.socks := by
      rw [h.socks]
      exact sockAt_lt hn hx
    rcases hform with rfl | ⟨d, rfl⟩ <;> exact hlt
  · intro c x hm
    obtain ⟨y, -, h | ⟨d, h⟩⟩ := hes _ hm <;> cases h
  · intro c x hm
    obtain ⟨y, -, h | ⟨d, h⟩⟩ := hes _ hm <;> cases h

/-- `ws_close` takes what the connection has, and says so. -/
theorem wsClose_gives (hn : Numbered s.world.fds s.world.socks) (code : WsCloseReason)
    (reason : Option Bytes) : Gives s (wsClose env code reason s) := by
  obtain ⟨es, he, hes⟩ := wsClose_log env code reason s
  have hlocal : Local s (wsClose env code reason s) := wsClose_local code reason s
  have hall : ∀ e ∈ Event.wsClose s.ws.conn reason :: (es ++ s.closing.map .closed),
      (s.ws.conn < s.world.conns → e.Known s.world.conns s.world.socks) ∧
        (∀ c x, e ≠ .accepted c x) ∧ ∀ c x, e ≠ .opened c x := by
    intro e hm
    rw [List.mem_cons, List.mem_append] at hm
    rcases hm with rfl | hm | hm
    · exact ⟨id, by simp, by simp⟩
    · obtain ⟨x, hx, rfl | ⟨d, rfl⟩⟩ := hes e hm <;>
        exact ⟨fun _ => sockAt_lt hn hx, by simp, by simp⟩
    · obtain ⟨x, hx, rfl⟩ := List.mem_map.mp hm
      refine ⟨fun _ => ?_, by simp, by simp⟩
      unfold Conn.closing at hx
      rcases List.mem_append.mp hx with hx | hx
      · exact sockAt_lt hn (Option.mem_toList.mp hx)
      · split at hx
        · cases hx
        · exact sockAt_lt hn (Option.mem_toList.mp hx)
  refine { hlocal with
    events := ⟨_, he, ?_, ?_, ?_⟩, client := fun x hx => (by cases hx)
    peer := fun x hx => by cases hx }
  · intro e hm hc
    exact ((hall e hm).1 hc).mono (Nat.le_of_eq hlocal.conns.symm) hlocal.socks
  · intro c x hm
    exact (hall _ hm).2.1 c x rfl
  · intro c x hm
    exact absurd rfl ((hall _ hm).2.2 c x)

/-- The client's descriptor is open, if there is one. -/
theorem Sound.client_open (hs : Sound env s) {fd : Nat} (hfd : s.ws.wsFd = some fd) :
    s.world.sockAt (some fd) ≠ none := by
  intro hnone
  obtain ⟨x, -, hx⟩ := hs.held.2 fd (by simp [Websocket.held, hfd])
  have hx : s.world.sockAt (some fd) = some x := hx
  rw [hnone] at hx
  cases hx

theorem clientConnect_gives (hs : Sound env s) : Gives s (clientConnect env s).2 := by
  have hlocal := clientConnect_local env s
  have hc := clientConnect_cases env s
  generalize clientConnect env s = c at hc hlocal ⊢
  have hasked : ∀ e ∈ [Event.query s.ws.conn s.ws.state s.ws.requestPath],
      s.ws.conn < s.world.conns → e.Known s.world.conns s.world.socks := by
    intro e hm hlt
    rw [List.mem_singleton.mp hm]
    exact hlt
  cases hc with
  | refused p =>
      exact { hlocal with
        events := ⟨_, World.asked_log _ _ _, hasked, by simp, by simp⟩
        client := fun x hx => hx, peer := fun x hx => .inl hx }
  | failed p =>
      exact { hlocal with
        events := ⟨_, World.asked_log _ _ _, hasked, by simp, by simp⟩
        client := fun x hx => hx, peer := fun x hx => by cases hx }
  | peer p f hf ho =>
      have hsock : ∀ fd, ((s.world.asked s.ws (s.world.connects + 1)).opened s.ws.conn).sockAt
          (some fd) = if fd = lowest s.world.fds then some s.world.socks
            else s.world.sockAt (some fd) :=
        fun fd => entry_install s.world.fds s.world.socks fd
      have hlog : ((s.world.asked s.ws (s.world.connects + 1)).opened s.ws.conn).log =
          s.world.log ++ [.query s.ws.conn s.ws.state s.ws.requestPath,
            .opened s.ws.conn s.world.socks] := by
        simp
      refine { hlocal with
        events := ⟨_, hlog, ?_, by simp, ?_⟩, client := ?_, peer := ?_ }
      · intro e hm hlt
        simp only [List.mem_cons, List.not_mem_nil, or_false] at hm
        rcases hm with rfl | rfl
        · exact hlt
        · exact ⟨hlt, Nat.lt_succ_self _⟩
      · intro c x hm
        simp only [List.mem_cons, reduceCtorEq, List.not_mem_nil, or_false, false_or] at hm
        obtain ⟨rfl, rfl⟩ := Event.opened.inj hm
        exact ⟨rfl, Nat.le_refl _⟩
      · intro x hx
        dsimp only at hx
        cases hg : s.ws.wsFd with
        | none => rw [hg] at hx; cases hx
        | some fd =>
            rw [hg, hsock] at hx
            split at hx
            · next e =>
              -- the client's descriptor is not the free one
              have hopen := hs.client_open hg
              rw [e] at hopen
              exact absurd (entry_lowest s.world.fds) hopen
            · exact hx
      · intro x hx
        dsimp only at hx ⊢
        rw [hsock, if_pos rfl] at hx
        cases hx
        rw [hlog]
        simp

theorem wsUpgradeHttp_gives (hs : Sound env s) (h : s.ws.ready = true) :
    Gives s (wsUpgradeHttp env s).2 := by
  rw [wsUpgradeHttp_ready env h]
  have hc := clientConnect_gives hs
  have hlater : Later s.world (clientConnect env s).2.world := by
    have hcases := clientConnect_cases env s
    generalize clientConnect env s = c at hcases ⊢
    cases hcases with
    | refused p => exact .asked _ _ _
    | failed p => exact .asked _ _ _
    | peer p f hf ho => exact (Later.asked _ _ _).trans (.opened _ _)
  have hn := hlater.numbered hs.numbered
  generalize clientConnect env s = c at hc hn ⊢
  dsimp only
  have hsends := networkSendAll_onlySends env c.2.ws.wsFd (upgradeResponse env c.2.ws) c.2.world
  have hs : Gives c.2 ⟨c.2.ws,
      (networkSendAll env c.2.ws.wsFd (upgradeResponse env c.2.ws) c.2.world).2⟩ :=
    .sends (.inl rfl) hn hsends
  split
  · exact hc.trans (wsClose_gives hn _ _)
  · split
    · exact (hc.trans hs).trans (wsClose_gives (hsends.later.numbered hn) _ _)
    · exact (hc.trans hs).trans (.of_ws rfl rfl rfl)

theorem Act.gives (hs : Sound env s) (h : Act env A s t) : Gives s t := by
  cases h with
  | bare ws h hr =>
      exact .of_ws (bare_congr Websocket.conn h fun _ => rfl)
        (bare_congr Websocket.wsFd h fun _ => rfl) (bare_congr Websocket.peerFd h fun _ => rfl)
  | peerBuffer b k fd h => exact .of_ws rfl rfl rfl
  | note e h =>
      cases e with
      | framing c d n => exact .record h (fun hlt => h ▸ hlt) fun _ _ h => by cases h
      | segment c op d => exact .record h (fun hlt => h ▸ hlt) fun _ _ h => by cases h
      | _ => cases h
  | line data h => exact .record rfl id fun _ _ h => by cases h
  | path p h => exact .of_ws rfl rfl rfl
  | header tag value h hn =>
      obtain ⟨hs, ver, key, up, ps, he⟩ := wsHeader_eq tag value s.ws
      rw [he]
      exact .of_ws rfl rfl rfl
  | upgrade h hn hr => exact wsUpgradeHttp_gives hs hr
  | close code reason h => exact wsClose_gives hs.numbered _ _
  | forward data h => exact .sends (.inr rfl) hs.numbered (networkSend_onlySends env _ _ _)
  | frame op data h ho => exact .sends (.inl rfl) hs.numbered (wsSendFrame_onlySends env _ _ _ _)

theorem Acts.gives (hs : Sound env s) (h : Acts env A s t) : Gives s t := by
  induction h with
  | refl => exact .refl s
  | tail hacts ha ih => exact ih.trans (ha.gives (Acts.sound hacts hs))

theorem Received.gives {ready : List Nat} {w : World} (hs : Sound env s)
    (h : Received ready s w) : Gives s ⟨s.ws, w⟩ := by
  cases h with
  | quiet => exact .refl s
  | event fd x e hfd hr hx he =>
      have hown : s.Own x := .inl ⟨fd, hfd, hx⟩
      have hlt : x < s.world.socks := sockAt_lt hs.numbered hx
      rcases he with rfl | ⟨d, rfl⟩
      · exact .record hown (fun _ => hlt) fun _ _ h => by cases h
      · exact .record hown (fun _ => hlt) fun _ _ h => by cases h

end

/-! ## Runs -/

/-- What slots have was given to their connections, and nothing was given twice. -/
structure GivenInv (sock : List (Websocket φ)) (w : World) : Prop extends HeldInv sock w where
  known : ∀ e ∈ w.log, e.Known w.conns w.socks
  once : ∀ conn conn' x, GivenTo conn x w.log → GivenTo conn' x w.log → conn = conn'
  role : ∀ conn conn' x, .accepted conn x ∈ w.log → .opened conn' x ∉ w.log
  one : ∀ conn x y, .accepted conn x ∈ w.log → .accepted conn y ∈ w.log → x = y
  client : ∀ ws ∈ sock, ∀ x, w.sockAt ws.wsFd = some x → .accepted ws.conn x ∈ w.log
  peer : ∀ ws ∈ sock, ∀ x, w.sockAt ws.peerFd = some x → .opened ws.conn x ∈ w.log

section

variable {env : Env φ} {sock sock' l₁ l₂ : List (Websocket φ)} {ws : Websocket φ} {w w' : World}
  {t : Conn φ}

theorem GivenInv.given_lt (hi : GivenInv sock w) {conn x : Nat} (h : GivenTo conn x w.log) :
    conn < w.conns ∧ x < w.socks := by
  rcases h with h | h
  · exact hi.known _ h
  · exact hi.known _ h

/-- Nothing is given, and slots have what they had. -/
theorem GivenInv.quiet (hi : GivenInv sock w) (hh : HeldInv sock' w') {es : List Event}
    (he : w'.log = w.log ++ es) (hk : ∀ e ∈ es, e.Known w'.conns w'.socks)
    (hno : ∀ c x, .accepted c x ∉ es ∧ .opened c x ∉ es) (hc : w.conns ≤ w'.conns)
    (hs : w.socks ≤ w'.socks)
    (hsock : ∀ v ∈ sock', (v.wsFd = none ∧ v.peerFd = none) ∨
      v ∈ sock ∧ ∀ fd ∈ v.held, w'.sockAt (some fd) = w.sockAt (some fd)) : GivenInv sock' w' := by
  have hacc : ∀ c x, .accepted c x ∈ w'.log → .accepted c x ∈ w.log := by
    intro c x hm
    rw [he] at hm
    exact (List.mem_append.mp hm).resolve_right (hno c x).1
  have hop : ∀ c x, .opened c x ∈ w'.log → .opened c x ∈ w.log := by
    intro c x hm
    rw [he] at hm
    exact (List.mem_append.mp hm).resolve_right (hno c x).2
  have hgiven : ∀ c x, GivenTo c x w'.log → GivenTo c x w.log :=
    fun c x h => h.imp (hacc c x) (hop c x)
  have hmem : ∀ {e : Event}, e ∈ w.log → e ∈ w'.log := by
    intro e hm
    rw [he]
    exact List.mem_append_left _ hm
  refine { hh with
    known := ?_
    once := fun c c' x h h' => hi.once c c' x (hgiven c x h) (hgiven c' x h')
    role := fun c c' x h h' => hi.role c c' x (hacc c x h) (hop c' x h')
    one := fun c x y h h' => hi.one c x y (hacc c x h) (hacc c y h')
    client := ?_, peer := ?_ }
  · intro e hm
    rw [he] at hm
    rcases List.mem_append.mp hm with hm | hm
    · exact (hi.known e hm).mono hc hs
    · exact hk e hm
  · intro v hv x hx
    rcases hsock v hv with ⟨hw, -⟩ | ⟨hv, hsame⟩
    · rw [hw] at hx
      cases hx
    · apply hmem
      apply hi.client v hv
      cases hfd : v.wsFd with
      | none => rw [hfd] at hx; cases hx
      | some fd =>
          rw [hfd, hsame fd (by simp [Websocket.held, hfd])] at hx
          exact hx
  · intro v hv x hx
    rcases hsock v hv with ⟨-, hp⟩ | ⟨hv, hsame⟩
    · rw [hp] at hx
      cases hx
    · apply hmem
      apply hi.peer v hv
      cases hfd : v.peerFd with
      | none => rw [hfd] at hx; cases hx
      | some fd =>
          rw [hfd, hsame fd (by simp [Websocket.held, hfd])] at hx
          exact hx

/-- A handler gives sockets to its own connection, and new ones only. -/
theorem GivenInv.serve (hi : GivenInv (l₁ ++ ws :: l₂) w) (hlt : ws.conn < w.conns)
    (hh : HeldInv (l₁ ++ t.ws :: l₂) t.world) (h : Gives ⟨ws, w⟩ t) :
    GivenInv (l₁ ++ t.ws :: l₂) t.world := by
  obtain ⟨es, he, hk, ha, ho⟩ := h.events
  have hself : ws ∈ l₁ ++ ws :: l₂ := List.mem_append_right _ List.mem_cons_self
  have hconns : t.world.conns = w.conns := h.conns
  have hacc : ∀ c x, .accepted c x ∈ t.world.log → .accepted c x ∈ w.log := by
    intro c x hm
    rw [he] at hm
    exact (List.mem_append.mp hm).resolve_right (ha c x)
  have hop : ∀ c x, .opened c x ∈ t.world.log →
      .opened c x ∈ w.log ∨ c = ws.conn ∧ w.socks ≤ x := by
    intro c x hm
    rw [he] at hm
    exact (List.mem_append.mp hm).imp id (ho c x)
  have hgiven : ∀ c x, GivenTo c x t.world.log → GivenTo c x w.log ∨ c = ws.conn ∧ w.socks ≤ x := by
    intro c x hg
    rcases hg with hg | hg
    · exact .inl (.inl (hacc c x hg))
    · exact (hop c x hg).imp .inr id
  have hmem : ∀ {e : Event}, e ∈ w.log → e ∈ t.world.log := by
    intro e hm
    rw [he]
    exact List.mem_append_left _ hm
  refine { hh with known := ?_, once := ?_, role := ?_, one := ?_, client := ?_, peer := ?_ }
  · intro e hm
    rw [he] at hm
    rcases List.mem_append.mp hm with hm | hm
    · exact (hi.known e hm).mono (Nat.le_of_eq hconns.symm) h.socks
    · exact hk e hm hlt
  · intro c c' x hg hg'
    rcases hgiven c x hg with hg | ⟨rfl, hle⟩ <;> rcases hgiven c' x hg' with hg' | ⟨rfl, hle'⟩
    · exact hi.once c c' x hg hg'
    · have := (hi.given_lt hg).2
      omega
    · have := (hi.given_lt hg').2
      omega
    · rfl
  · intro c c' x hm hm'
    have hlt := (hi.known _ (hacc c x hm)).2
    rcases hop c' x hm' with hm' | ⟨-, hle⟩
    · exact hi.role c c' x (hacc c x hm) hm'
    · omega
  · intro c x y hx hy
    exact hi.one c x y (hacc c x hx) (hacc c y hy)
  · intro v hv x hx
    apply hmem
    rcases mem_slots hv with rfl | hv
    · rw [h.conn]
      exact hi.client ws hself x (h.client x hx)
    · rw [(hi.sockAt_other h.toLocal hv).1] at hx
      exact hi.client v (mem_slots_of hv) x hx
  · intro v hv x hx
    rcases mem_slots hv with rfl | hv
    · rw [h.conn]
      rcases h.peer x hx with hx | hx
      · exact hmem (hi.peer ws hself x hx)
      · exact hx
    · rw [(hi.sockAt_other h.toLocal hv).2] at hx
      exact hmem (hi.peer v (mem_slots_of hv) x hx)

theorem RegistryInv.sound (hr : RegistryInv env (l₁ ++ ws :: l₂) w)
    (hi : HeldInv (l₁ ++ ws :: l₂) w) : Sound env ⟨ws, w⟩ := by
  have hself : ws ∈ l₁ ++ ws :: l₂ := List.mem_append_right _ List.mem_cons_self
  exact ⟨(hr.slots ws hself).toStateInv, hi.numbered,
    hi.front.sublist (List.sublist_append_left _ _)⟩

/-- A client is accepted. -/
theorem GivenInv.accept {old : Option (Websocket φ)} {now : Int}
    (hi : GivenInv (l₁ ++ (old.toList ++ l₂)) w)
    (hh : HeldInv (l₁ ++ acceptedConn now true w :: l₂) (w.accept true)) :
    GivenInv (l₁ ++ acceptedConn now true w :: l₂) (w.accept true) := by
  have hlog : (w.accept true).log = w.log ++ [.accepted w.conns w.socks] := rfl
  have hnew : (w.accept true).sockAt (some (lowest w.fds)) = some w.socks :=
    (entry_install w.fds w.socks _).trans (if_pos rfl)
  have hacc : ∀ c x, .accepted c x ∈ (w.accept true).log →
      .accepted c x ∈ w.log ∨ c = w.conns ∧ x = w.socks := by
    intro c x hm
    rw [hlog] at hm
    refine (List.mem_append.mp hm).imp id ?_
    intro hm
    exact Event.accepted.inj (List.mem_singleton.mp hm)
  have hop : ∀ c x, .opened c x ∈ (w.accept true).log → .opened c x ∈ w.log := by
    intro c x hm
    rw [hlog] at hm
    exact (List.mem_append.mp hm).resolve_right (by simp)
  have hgiven : ∀ c x, GivenTo c x (w.accept true).log →
      GivenTo c x w.log ∨ c = w.conns ∧ x = w.socks := by
    intro c x hg
    rcases hg with hg | hg
    · exact (hacc c x hg).imp .inl id
    · exact .inl (.inr (hop c x hg))
  have hmem : ∀ {e : Event}, e ∈ w.log → e ∈ (w.accept true).log := by
    intro e hm
    rw [hlog]
    exact List.mem_append_left _ hm
  refine { hh with known := ?_, once := ?_, role := ?_, one := ?_, client := ?_, peer := ?_ }
  · intro e hm
    rw [hlog] at hm
    rcases List.mem_append.mp hm with hm | hm
    · exact (hi.known e hm).mono (Nat.le_succ _) (Nat.le_succ _)
    · rw [List.mem_singleton.mp hm]
      exact ⟨Nat.lt_succ_self _, Nat.lt_succ_self _⟩
  · intro c c' x hg hg'
    rcases hgiven c x hg with hg | ⟨hc, hx⟩ <;> rcases hgiven c' x hg' with hg' | ⟨hc', hx'⟩
    · exact hi.once c c' x hg hg'
    · have := (hi.given_lt hg).2
      omega
    · have := (hi.given_lt hg').2
      omega
    · rw [hc, hc']
  · intro c c' x hm hm'
    rcases hacc c x hm with hm | ⟨rfl, rfl⟩
    · exact hi.role c c' x hm (hop c' x hm')
    · have := (hi.known _ (hop c' _ hm')).2
      omega
  · intro c x y hx hy
    rcases hacc c x hx with hx | ⟨hc, hx⟩ <;> rcases hacc c y hy with hy | ⟨hc', hy⟩
    · exact hi.one c x y hx hy
    · have := (hi.known _ hx).1
      omega
    · have := (hi.known _ hy).1
      omega
    · rw [hx, hy]
  · intro v hv x hx
    rcases mem_accepted old hv with rfl | hv
    · have hx : (w.accept true).sockAt (some (lowest w.fds)) = some x := hx
      rw [hnew] at hx
      cases hx
      rw [hlog]
      exact List.mem_append_right _ (List.mem_singleton_self _)
    · rw [(hi.toHeldInv.accept_sockAt hv true).1] at hx
      exact hmem (hi.client v hv x hx)
  · intro v hv x hx
    rcases mem_accepted old hv with rfl | hv
    · cases hx
    · rw [(hi.toHeldInv.accept_sockAt hv true).2] at hx
      exact hmem (hi.peer v hv x hx)

theorem givenRule (env : Env φ) : CoreRule env Scope.all (GivenInv (φ := φ)) where
  init c hc := by
    have hheld := (heldRule env).init c hc
    obtain ⟨-, -, hlog, -⟩ := hc
    refine { hheld with
      known := ?_, once := ?_, role := ?_, one := ?_, client := by simp, peer := by simp }
    all_goals simp [GivenTo, hlog]
  selected sock w xs hi := by
    refine hi.quiet ((heldRule env).selected sock w xs hi.toHeldInv) (World.record_log _ _) ?_
      (by simp) (Nat.le_refl _) (Nat.le_refl _) fun v hv => .inr ⟨hv, fun _ _ => rfl⟩
    intro e hm
    rw [List.mem_singleton.mp hm]
    trivial
  accept l₁ old l₂ w now accepts hold hreg hi := by
    have hheld := (heldRule env).accept l₁ old l₂ w now accepts hold hreg hi.toHeldInv
    cases accepts with
    | true => exact hi.accept hheld
    | false =>
        refine hi.quiet hheld (List.append_nil _).symm (by simp) (by simp) (Nat.le_succ _)
          (Nat.le_refl _) ?_
        intro v hv
        rcases mem_accepted old hv with rfl | hv
        · exact .inl ⟨rfl, rfl⟩
        · exact .inr ⟨hv, fun _ _ => rfl⟩
  serve l₁ l₂ ws w ready w' t hreg hi hw ht := by
    have hs := hreg.sound hi.toHeldInv
    have hgives := hw.gives hs
    have hs' : Sound env ⟨ws, w'⟩ := by
      have hrecv : w'.fds = w.fds ∧ w'.socks = w.socks := by cases hw <;> exact ⟨rfl, rfl⟩
      refine ⟨hs.state, ?_, ?_⟩
      · rw [hrecv.1, hrecv.2]
        exact hs.numbered
      · rw [hrecv.1]
        exact hs.held
    exact hi.serve (hreg.numbers ws (List.mem_append_right _ List.mem_cons_self))
      ((heldRule env).serve l₁ l₂ ws w ready w' t hreg hi.toHeldInv hw ht)
      (hgives.trans (ht.gives hs'))
  quit sock w fd hc hi := by
    refine hi.quiet ((heldRule env).quit sock w fd hc hi.toHeldInv) (closeFd_log w fd) ?_ (by simp)
      ?_ (Later.closeFd w fd).socks (by simp)
    · intro e hm
      obtain ⟨x, hx, rfl⟩ := List.mem_map.mp hm
      exact Nat.lt_of_lt_of_le (sockAt_lt hi.numbered (Option.mem_toList.mp hx))
        (Later.closeFd w fd).socks
    · exact Nat.le_of_eq (closeFd_conns w fd).symm

/-- Who has what, in every run. -/
theorem coreLoop_givenInv {ok : Core φ → Input → Prop} {c : Core φ}
    (h : (coreLoop env).Reach ok c) : GivenInv c.sock c.world := (givenRule env).reach_all h

end

/-! ## Growing logs -/

/-- From `w` to `w'` the log grew by events of the kind `K`. -/
def Grows (K : Event → Prop) (w w' : World) : Prop := ∃ es, w'.log = w.log ++ es ∧ ∀ e ∈ es, K e

theorem flatMap_silent {α : Type} {f : Event → List α} {l es : List Event}
    (h : ∀ e ∈ es, f e = []) : (l ++ es).flatMap f = l.flatMap f := by
  rw [List.flatMap_append, List.flatMap_eq_nil_iff.mpr h, List.append_nil]

section

variable {K K' : Event → Prop} {w w' w'' : World} {conn x : Nat}

theorem Grows.refl (K : Event → Prop) (w : World) : Grows K w w := ⟨[], by simp⟩

theorem Grows.trans (h : Grows K w w') (h' : Grows K w' w'') : Grows K w w'' := by
  obtain ⟨es, he, hes⟩ := h
  obtain ⟨fs, hf, hfs⟩ := h'
  refine ⟨es ++ fs, by rw [hf, he, List.append_assoc], ?_⟩
  intro e hm
  rcases List.mem_append.mp hm with hm | hm
  · exact hes e hm
  · exact hfs e hm

theorem Grows.mono (hK : ∀ e, K e → K' e) (h : Grows K w w') : Grows K' w w' := by
  obtain ⟨es, he, hes⟩ := h
  exact ⟨es, he, fun e hm => hK e (hes e hm)⟩

theorem Grows.of_log (h : w'.log = w.log) : Grows K w w' := ⟨[], by simp [h]⟩

theorem Grows.record {e : Event} (he : K e) (w : World) : Grows K w (w.record e) := by
  refine ⟨[e], World.record_log _ _, ?_⟩
  intro e' hm
  rw [List.mem_singleton.mp hm]
  exact he

theorem Grows.sends {fd : Option Nat} (h : OnlySends fd w w')
    (hK : ∀ x, w.sockAt fd = some x → K (.sendFailed x) ∧ ∀ d, K (.wrote x d)) :
    Grows K w w' := by
  obtain ⟨es, he, hes⟩ := h.log
  refine ⟨es, he, ?_⟩
  intro e hm
  obtain ⟨x, hx, rfl | ⟨d, rfl⟩⟩ := hes e hm
  · exact (hK x hx).1
  · exact (hK x hx).2 d

theorem Grows.close {env : Env φ} {s : Conn φ} (code : WsCloseReason) (reason : Option Bytes)
    (hnote : K (.wsClose s.ws.conn reason)) (hclosed : ∀ x, K (.closed x))
    (hK : ∀ x, s.world.sockAt s.ws.wsFd = some x → K (.sendFailed x) ∧ ∀ d, K (.wrote x d)) :
    Grows K s.world (wsClose env code reason s).world := by
  obtain ⟨es, he, hes⟩ := wsClose_log env code reason s
  refine ⟨_, he, ?_⟩
  intro e hm
  rw [List.mem_cons, List.mem_append] at hm
  rcases hm with rfl | hm | hm
  · exact hnote
  · obtain ⟨x, hx, rfl | ⟨d, rfl⟩⟩ := hes e hm
    · exact (hK x hx).1
    · exact (hK x hx).2 d
  · obtain ⟨x, -, rfl⟩ := List.mem_map.mp hm
    exact hclosed x

/-! What the readers of the log see of events of which they read nothing. -/

theorem Grows.mem_iff {e : Event} (h : Grows K w w') (he : ¬K e) : e ∈ w'.log ↔ e ∈ w.log := by
  obtain ⟨es, hl, hes⟩ := h
  have hno : e ∉ es := fun hm => he (hes e hm)
  simp [hl, hno]

theorem Grows.mem {e : Event} (h : Grows K w w') (he : e ∈ w.log) : e ∈ w'.log := by
  obtain ⟨es, hl, -⟩ := h
  rw [hl]
  exact List.mem_append_left _ he

theorem Grows.mem_or {e : Event} (h : Grows K w w') (he : e ∈ w'.log) : e ∈ w.log ∨ K e := by
  obtain ⟨es, hl, hes⟩ := h
  rw [hl] at he
  exact (List.mem_append.mp he).imp id (hes e)

theorem Grows.recvs (h : Grows K w w') (hx : ∀ d, ¬K (.received x d)) :
    Websocksy.recvs x w'.log = Websocksy.recvs x w.log := by
  obtain ⟨es, he, hes⟩ := h
  unfold Websocksy.recvs
  rw [he, flatMap_silent]
  intro e hm
  cases e with
  | received y d =>
      have hne : y ≠ x := by
        rintro rfl
        exact hx d (hes _ hm)
      simp [hne]
  | _ => rfl

theorem Grows.received (h : Grows K w w') (hx : ∀ d, d ≠ [] → ¬K (.received x d)) :
    Websocksy.received x w'.log = Websocksy.received x w.log := by
  obtain ⟨es, he, hes⟩ := h
  have hnone : Websocksy.received x es = [] := by
    unfold Websocksy.received Websocksy.recvs
    rw [List.flatten_eq_nil_iff]
    intro l hl
    obtain ⟨e, hm, hl⟩ := List.mem_flatMap.mp hl
    cases e with
    | received y d =>
        dsimp only at hl
        split at hl
        · next hy =>
          rw [List.mem_singleton.mp hl]
          subst hy
          by_contra hd
          exact hx d hd (hes _ hm)
        · cases hl
    | _ => cases hl
  rw [he, received_append, hnone, List.append_nil]

theorem Grows.written (h : Grows K w w') (hx : ∀ d, ¬K (.wrote x d)) :
    Websocksy.written x w'.log = Websocksy.written x w.log := by
  obtain ⟨es, he, hes⟩ := h
  unfold Websocksy.written
  rw [he, flatMap_silent]
  intro e hm
  cases e with
  | wrote y d =>
      have hne : y ≠ x := by
        rintro rfl
        exact hx d (hes _ hm)
      simp [hne]
  | _ => rfl

theorem Grows.handledLines (h : Grows K w w') (hc : ∀ st d, ¬K (.line conn st d)) :
    Websocksy.handledLines conn w'.log = Websocksy.handledLines conn w.log := by
  obtain ⟨es, he, hes⟩ := h
  unfold Websocksy.handledLines
  rw [he, flatMap_silent]
  intro e hm
  cases e with
  | line c st d =>
      have hne : c ≠ conn := by
        rintro rfl
        exact hc st d (hes _ hm)
      simp [hne]
  | _ => rfl

theorem Grows.segments (h : Grows K w w') (hc : ∀ op d, ¬K (.segment conn op d)) :
    Websocksy.segments conn w'.log = Websocksy.segments conn w.log := by
  obtain ⟨es, he, hes⟩ := h
  unfold Websocksy.segments
  rw [he, flatMap_silent]
  intro e hm
  cases e with
  | segment c op d =>
      have hne : c ≠ conn := by
        rintro rfl
        exact hc op d (hes _ hm)
      simp [hne]
  | _ => rfl

end

/-! ## Standing aside -/

/-- Between `w` and `w'` nothing happened that is about the connection or the data of its
sockets. -/
def Aside (conn : Nat) (w w' : World) : Prop :=
  Grows (fun e => ¬e.Of conn fun x => GivenTo conn x w.log) w w'

section

variable {conn x : Nat} {w w' w'' : World}

theorem Aside.refl (conn : Nat) (w : World) : Aside conn w w := Grows.refl _ w

theorem Aside.accepted (h : Aside conn w w') :
    .accepted conn x ∈ w'.log ↔ .accepted conn x ∈ w.log :=
  Grows.mem_iff h fun hn => hn rfl

theorem Aside.opened (h : Aside conn w w') : .opened conn x ∈ w'.log ↔ .opened conn x ∈ w.log :=
  Grows.mem_iff h fun hn => hn rfl

theorem Aside.given (h : Aside conn w w') : GivenTo conn x w'.log ↔ GivenTo conn x w.log :=
  or_congr h.accepted h.opened

theorem Aside.trans (h : Aside conn w w') (h' : Aside conn w' w'') : Aside conn w w'' := by
  have hgiven : (fun x => GivenTo conn x w'.log) = fun x => GivenTo conn x w.log :=
    funext fun x => propext h.given
  unfold Aside at h'
  rw [hgiven] at h'
  exact Grows.trans h h'

/-- Entries of the log that are about no connection. -/
theorem Aside.of_log {es : List Event} (he : w'.log = w.log ++ es)
    (hes : ∀ e ∈ es, (∃ xs, e = .selected xs) ∨ ∃ x, e = .closed x) : Aside conn w w' := by
  refine ⟨es, he, ?_⟩
  intro e hm
  rcases hes e hm with ⟨xs, rfl⟩ | ⟨x, rfl⟩ <;> exact id

theorem Aside.accept (hlt : conn < w.conns) (accepts : Bool) :
    Aside conn w (w.accept accepts) := by
  cases accepts with
  | false => exact .refl conn w
  | true =>
      refine ⟨[.accepted w.conns w.socks], rfl, ?_⟩
      intro e hm
      rw [List.mem_singleton.mp hm]
      intro (he : w.conns = conn)
      omega

/-- **A handler stands aside** of every connection but its own. -/
theorem GivenInv.aside {l₁ l₂ : List (Websocket φ)} {ws : Websocket φ} {t : Conn φ}
    (hi : GivenInv (l₁ ++ ws :: l₂) w) (h : Local ⟨ws, w⟩ t) (hne : conn ≠ ws.conn) :
    Aside conn w t.world := by
  obtain ⟨es, he, hes⟩ := h.log
  have hself : ws ∈ l₁ ++ ws :: l₂ := List.mem_append_right _ List.mem_cons_self
  have hown : ∀ x, Conn.Own ⟨ws, w⟩ x → ¬GivenTo conn x w.log := by
    rintro x (⟨fd, hfd, hx⟩ | hle) hg
    · have hmine : GivenTo ws.conn x w.log := by
        simp only [Websocket.held, List.mem_append, Option.mem_toList] at hfd
        rcases hfd with hfd | hfd
        · exact .inl (hi.client ws hself x (hfd ▸ hx))
        · exact .inr (hi.peer ws hself x (hfd ▸ hx))
      exact hne (hi.once conn ws.conn x hg hmine)
    · have := (hi.given_lt hg).2
      dsimp only at hle
      omega
  refine ⟨es, he, ?_⟩
  intro e hm hof
  have hw := hes e hm
  cases e with
  | accepted c x => exact hw
  | opened c x => exact hne (hof.symm.trans hw.1)
  | closed x => exact hof
  | selected xs => exact hof
  | line c st d => exact hne (hof.symm.trans hw)
  | query c st p => exact hne (hof.symm.trans hw)
  | wsClose c r => exact hne (hof.symm.trans hw)
  | framing c d n => exact hne (hof.symm.trans hw)
  | segment c op d => exact hne (hof.symm.trans hw)
  | wrote x d => exact hown x hw hof
  | sendFailed x => exact hown x hw hof
  | received x d => exact hown x hw hof
  | recvFailed x => exact hown x hw hof

/-! What the readers of the log see of a connection. -/

theorem Aside.received (h : Aside conn w w') (hg : GivenTo conn x w.log) :
    Websocksy.received x w'.log = Websocksy.received x w.log :=
  Grows.received h fun _ _ hn => hn hg

theorem Aside.written (h : Aside conn w w') (hg : GivenTo conn x w.log) :
    Websocksy.written x w'.log = Websocksy.written x w.log :=
  Grows.written h fun _ hn => hn hg

theorem Aside.handledLines (h : Aside conn w w') :
    Websocksy.handledLines conn w'.log = Websocksy.handledLines conn w.log :=
  Grows.handledLines h fun _ _ hn => hn rfl

theorem Aside.segments (h : Aside conn w w') :
    Websocksy.segments conn w'.log = Websocksy.segments conn w.log :=
  Grows.segments h fun _ _ hn => hn rfl

theorem Aside.sendFailed (h : Aside conn w w') (hg : GivenTo conn x w.log) :
    .sendFailed x ∈ w'.log ↔ .sendFailed x ∈ w.log :=
  Grows.mem_iff h fun hn => hn hg

end

end Websocksy

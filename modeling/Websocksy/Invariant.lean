import Websocksy.Run
import Mathlib.Data.List.Nodup

/-!
# The representation invariant of a connection

`SlotInv` holds of every slot of the registry between two handler calls, in every
run: no condition on the clients, the peers, the backend or the framing functions
is needed.  Its part that does not speak of buffers, `StateInv`, is kept by every
act; the bounds on the buffers are kept by the handlers as a whole.
-/

namespace Websocksy

open Buffer CString Lines Relation

variable {φ : Type}

/-- The order of the states in the life of a connection. -/
def WsState.rank : WsState → Nat
  | .wsNew => 0
  | .wsHttp => 1
  | .wsOpen => 2
  | .wsClosed => 3

structure StateInv (env : Env φ) (ws : Websocket φ) : Prop where
  early : ws.state = .wsNew ∨ ws.state = .wsHttp → ws.peerFd = none
  opened : ws.state = .wsOpen → ws.wsFd.isSome ∧ ws.peerFd.isSome
  closed : ws.state = .wsClosed → ws.wsFd = none ∧ ws.peerFd = none
  path : ws.state = .wsHttp → ws.requestPath.isSome
  framing : ws.state = .wsOpen → ∃ f, ws.peer.framing = some f ∧ env.Offers f
  headers : ws.header.length ≤ wsHeaderLimit
  protocols : ws.protocol.Nodup

structure SlotInv (env : Env φ) (ws : Websocket φ) : Prop extends StateInv env ws where
  readBuffer : ws.readBufferOffset ≤ wsMaxLine - 2
  peerBuffer : ws.peerBufferOffset ≤ peerBufferSize - 1

/-! ## Acts -/

section

variable {env : Env φ} {A : Scope} {s t : Conn φ}

theorem StateInv.of_bare {ws ws' : Websocket φ} (hi : StateInv env ws) (h : ws.bare = ws'.bare) :
    StateInv env ws' := by
  obtain ⟨rb, ro, le, rfl⟩ := bare_eq h
  exact ⟨hi.early, hi.opened, hi.closed, hi.path, hi.framing, hi.headers, hi.protocols⟩

theorem StateInv.of_closed {ws : Websocket φ} (hs : ws.state = .wsClosed) (hw : ws.wsFd = none)
    (hp : ws.peerFd = none) (hh : ws.header.length ≤ wsHeaderLimit) (hn : ws.protocol.Nodup) :
    StateInv env ws where
  early h := by rcases h with h | h <;> rw [hs] at h <;> cases h
  opened h := by rw [hs] at h; cases h
  closed _ := ⟨hw, hp⟩
  path h := by rw [hs] at h; cases h
  framing h := by rw [hs] at h; cases h
  headers := hh
  protocols := hn

theorem wsClose_stateInv (code : WsCloseReason) (reason : Option Bytes) (s : Conn φ) :
    StateInv env (wsClose env code reason s).ws :=
  .of_closed rfl rfl rfl (Nat.zero_le _) List.nodup_nil

theorem addProtocol_nodup {ps : List Bytes} (h : ps.Nodup) (token : Bytes) :
    (addProtocol ps token).Nodup := by
  unfold addProtocol
  dsimp only
  split
  · exact h
  · next hn =>
    rw [List.nodup_append]
    refine ⟨h, by simp, fun a ha b hb => ?_⟩
    rw [List.mem_singleton.mp hb]
    exact fun e => hn (e ▸ ha)

theorem foldl_addProtocol_nodup (tokens : List Bytes) {ps : List Bytes} (h : ps.Nodup) :
    (tokens.foldl addProtocol ps).Nodup := by
  induction tokens generalizing ps with
  | nil => exact h
  | cons t ts ih => exact ih (addProtocol_nodup h t)

theorem wsHeader_bounds (tag value : Bytes) {ws : Websocket φ}
    (hh : ws.header.length ≤ wsHeaderLimit) (hn : ws.protocol.Nodup) :
    (wsHeader tag value ws).header.length ≤ wsHeaderLimit ∧
    (wsHeader tag value ws).protocol.Nodup := by
  unfold wsHeader
  generalize (if tag = ascii "Connection" then value.map tolower else value) = v
  dsimp only
  repeat' split
  all_goals
    first
    | exact ⟨hh, hn⟩
    | exact ⟨hh, foldl_addProtocol_nodup _ hn⟩
    | refine ⟨?_, hn⟩
      rw [List.length_append, List.length_singleton]
      omega

/-- The upgrade leaves a closed connection, or an open one with both its descriptors. -/
theorem wsUpgradeHttp_stateInv (h : s.ws.ready = true) (hi : StateInv env s.ws) :
    StateInv env (wsUpgradeHttp env s).2.ws ∧
    ((wsUpgradeHttp env s).2.ws.state = .wsClosed ∨
      (wsUpgradeHttp env s).2.ws.state = .wsOpen ∧ s.ws.wsFd.isSome) := by
  have hu := wsUpgradeHttp_cases env h
  generalize (wsUpgradeHttp env s).2 = t at hu ⊢
  cases hu with
  | refused p => exact ⟨wsClose_stateInv _ _ _, .inl rfl⟩
  | failed p => exact ⟨wsClose_stateInv _ _ _, .inl rfl⟩
  | dropped p w hs => exact ⟨wsClose_stateInv _ _ _, .inl rfl⟩
  | opened p f hf ho w hs =>
      have hw : s.ws.wsFd.isSome := by
        cases hfd : s.ws.wsFd with
        | some fd => rfl
        | none =>
            rw [hfd, networkSendAll_closed env _ rfl, upgradeResponse_ne_nil] at hs
            cases hs
      refine ⟨⟨?_, fun _ => ⟨hw, rfl⟩, ?_, ?_, fun _ => ⟨f, hf, ho⟩, hi.headers, hi.protocols⟩,
        .inr ⟨rfl, hw⟩⟩
      · rintro (h | h) <;> cases h
      · intro h
        cases h
      · intro h
        cases h

theorem Act.stateInv (h : Act env A s t) (hi : StateInv env s.ws) : StateInv env t.ws := by
  cases h with
  | bare ws h hr => exact hi.of_bare h.symm
  | peerBuffer b k fd h =>
      exact ⟨hi.early, hi.opened, hi.closed, hi.path, hi.framing, hi.headers, hi.protocols⟩
  | note e h => exact hi
  | line data h => exact hi
  | path p h =>
      refine ⟨fun _ => hi.early (.inl h), ?_, ?_, fun _ => rfl, ?_, hi.headers, hi.protocols⟩ <;>
        intro h <;> cases h
  | header tag value h hn =>
      obtain ⟨hh, hp⟩ := wsHeader_bounds tag value hi.headers hi.protocols
      obtain ⟨hs, ver, key, up, ps, he⟩ := wsHeader_eq tag value s.ws
      rw [he] at hh hp
      rw [he]
      exact ⟨hi.early, hi.opened, hi.closed, hi.path, hi.framing, hh, hp⟩
  | upgrade h hn hr => exact (wsUpgradeHttp_stateInv hr hi).1
  | close code reason h => exact wsClose_stateInv _ _ _
  | forward data h => exact hi
  | frame op data h ho => exact hi

/-- No act takes a connection back to an earlier state. -/
theorem Act.rank_le (h : Act env A s t) (hi : StateInv env s.ws) :
    s.ws.state.rank ≤ t.ws.state.rank := by
  have hmax : ∀ st : WsState, st.rank ≤ WsState.rank .wsClosed := by
    intro st
    cases st <;> decide
  cases h with
  | bare ws h hr =>
      exact Nat.le_of_eq (congrArg WsState.rank (bare_congr Websocket.state h.symm fun _ => rfl))
  | peerBuffer b k fd h => exact Nat.le_refl _
  | note e h => exact Nat.le_refl _
  | line data h => exact Nat.le_refl _
  | path p h => rw [h]; exact Nat.zero_le _
  | header tag value h hn =>
      obtain ⟨hs, ver, key, up, ps, he⟩ := wsHeader_eq tag value s.ws
      rw [he]
  | upgrade h hn hr =>
      rcases (wsUpgradeHttp_stateInv hr hi).2 with he | ⟨he, hw⟩
      · rw [he]
        exact hmax _
      · rw [he]
        cases hs : s.ws.state with
        | wsClosed =>
            rw [(hi.closed hs).1] at hw
            cases hw
        | _ => decide
  | close code reason h => exact hmax _
  | forward data h => exact Nat.le_refl _
  | frame op data h ho => exact Nat.le_refl _

/-- What the acts of a handler keep of the invariant. -/
theorem Acts.stateInv (h : Acts env A s t) (hi : StateInv env s.ws) :
    StateInv env t.ws ∧ s.ws.state.rank ≤ t.ws.state.rank := by
  induction h with
  | refl => exact ⟨hi, Nat.le_refl _⟩
  | tail _ ha ih => exact ⟨ha.stateInv ih.1, ih.2.trans (ha.rank_le ih.1)⟩

theorem Act.peerBuffer_le (h : Act env A s t)
    (hb : s.ws.peerBufferOffset ≤ peerBufferSize - 1) :
    t.ws.peerBufferOffset ≤ peerBufferSize - 1 := by
  cases h with
  | bare ws h hr =>
      rw [show ws.peerBufferOffset = s.ws.peerBufferOffset from
        bare_congr Websocket.peerBufferOffset h fun _ => rfl]
      exact hb
  | peerBuffer b k fd h => exact h.trans (max_le hb (Nat.le_refl _))
  | header tag value h hn =>
      obtain ⟨hs, ver, key, up, ps, he⟩ := wsHeader_eq tag value s.ws
      rw [he]
      exact hb
  | upgrade h hn hr =>
      have hu := wsUpgradeHttp_cases env hr
      generalize (wsUpgradeHttp env s).2 = t at hu ⊢
      cases hu with
      | opened p f hf ho w hs => exact hb
      | _ => exact Nat.zero_le _
  | close code reason h => exact Nat.zero_le _
  | _ => exact hb

/-- Where the read buffer is not touched, its bound is kept. -/
theorem Act.readBuffer_le (h : Act env A s t) (hA : ¬A.reads)
    (hb : s.ws.readBufferOffset ≤ wsMaxLine - 2) : t.ws.readBufferOffset ≤ wsMaxLine - 2 := by
  cases h with
  | bare ws h hr => exact absurd hr hA
  | header tag value h hn =>
      obtain ⟨hs, ver, key, up, ps, he⟩ := wsHeader_eq tag value s.ws
      rw [he]
      exact hb
  | upgrade h hn hr =>
      rcases (wsUpgradeHttp_buffer env hr).2 with ⟨-, he⟩ | ⟨-, he⟩ <;> rw [he]
      · exact Nat.zero_le _
      · exact hb
  | close code reason h => exact Nat.zero_le _
  | _ => exact hb

end

/-! ## Handlers -/

/-- Everything is allowed. -/
def Scope.all : Scope where
  reads := True
  line _ := True
  upgrade _ := True
  frame _ := True
  opcode _ := True
  frame_open := trivial
  opcode_own _ _ := trivial

/-- Everything that leaves the read buffer alone is allowed. -/
def Scope.peerSide : Scope := { Scope.all with reads := False }

section

variable {env : Env φ} {s t : Conn φ}

theorem wsScan_acts_all (env : Env φ) (bytesRead : Nat) (s : Conn φ) :
    Acts env Scope.all s (wsScan env bytesRead 0 bytesRead s).2 :=
  (wsScan_acts (P := fun _ => True) trivial (fun _ _ _ _ => trivial)
    (fun _ l _ => ⟨wsTakeLine_acts l trivial fun _ _ => trivial, trivial⟩) bytesRead trivial).1

theorem wsData_slotInv {answer : Option Bytes} (hi : SlotInv env s.ws)
    (h : wsData env answer s = some t) :
    SlotInv env t.ws ∧ s.ws.state.rank ≤ t.ws.state.rank ∧ Local s t := by
  obtain ⟨d, w, hrecv, hacts⟩ := wsData_acts (A := Scope.all) trivial
    (fun _ data _ _ => wsScan_acts_all env data.length _) h
  obtain ⟨hst, hrank⟩ := hacts.stateInv hi.toStateInv
  have hpeer := hacts.invariant (P := fun s => s.ws.peerBufferOffset ≤ peerBufferSize - 1)
    (fun _ _ ha => ha.peerBuffer_le) hi.peerBuffer
  have hread : t.ws.readBufferOffset ≤ wsMaxLine - 2 := by
    cases wsData_cases h with
    | nothing r w hr h => exact Nat.zero_le _
    | data x b data u hx ha hb hne hu =>
        split
        · exact Nat.zero_le _
        · omega
  exact ⟨⟨hst, hread, hpeer⟩, hrank, (hrecv.isLocal (.inl rfl)).trans hacts.isLocal⟩

/-- The peer side and the keep-alive check keep the invariant. -/
theorem Acts.slotInv (h : Acts env Scope.peerSide s t) (hi : SlotInv env s.ws) :
    SlotInv env t.ws ∧ s.ws.state.rank ≤ t.ws.state.rank := by
  obtain ⟨hst, hrank⟩ := h.stateInv hi.toStateInv
  exact ⟨⟨hst,
    h.invariant (P := fun s => s.ws.readBufferOffset ≤ wsMaxLine - 2)
      (fun _ _ ha => ha.readBuffer_le id) hi.readBuffer,
    h.invariant (P := fun s => s.ws.peerBufferOffset ≤ peerBufferSize - 1)
      (fun _ _ ha => ha.peerBuffer_le) hi.peerBuffer⟩, hrank⟩

/-- A connection with a peer is open. -/
theorem StateInv.open_of_peer {ws : Websocket φ} (hi : StateInv env ws) {fd : Nat}
    (h : ws.peerFd = some fd) : ws.state = .wsOpen := by
  cases hs : ws.state with
  | wsNew => rw [hi.early (.inl hs)] at h; cases h
  | wsHttp => rw [hi.early (.inr hs)] at h; cases h
  | wsOpen => rfl
  | wsClosed => rw [(hi.closed hs).2] at h; cases h

theorem wsPeerData_slotInv {fuel fd : Nat} {answer : Option Bytes} {r : Bool × Conn φ}
    (hi : SlotInv env s.ws) (hfd : s.ws.peerFd = some fd)
    (h : wsPeerData env fuel answer s = some r) :
    SlotInv env r.2.ws ∧ s.ws.state.rank ≤ r.2.ws.state.rank ∧ Local s r.2 := by
  obtain ⟨d, w, hrecv, hacts⟩ := wsPeerData_acts (A := Scope.peerSide) (hi.open_of_peer hfd)
    trivial (fun _ _ _ _ _ _ _ _ _ _ _ => trivial) hi.peerBuffer h
  obtain ⟨hinv, hrank⟩ := hacts.slotInv hi
  exact ⟨hinv, hrank, (hrecv.isLocal (.inr rfl)).trans hacts.isLocal⟩

theorem wsKeepAlive_slotInv (now : Int) (hi : SlotInv env s.ws) :
    SlotInv env (wsKeepAlive env now s).ws ∧
    s.ws.state.rank ≤ (wsKeepAlive env now s).ws.state.rank ∧ Local s (wsKeepAlive env now s) := by
  have hacts := wsKeepAlive_acts (A := Scope.peerSide) (s := s) env now fun _ => trivial
  obtain ⟨hinv, hrank⟩ := hacts.slotInv hi
  exact ⟨hinv, hrank, hacts.isLocal⟩

theorem acceptedConn_slotInv (now : Int) (accepts : Bool) (w : World) :
    SlotInv env (acceptedConn now accepts w : Websocket φ) where
  early _ := rfl
  opened h := by cases h
  closed h := by cases h
  path h := by cases h
  framing h := by cases h
  headers := Nat.zero_le _
  protocols := List.nodup_nil
  readBuffer := Nat.zero_le _
  peerBuffer := Nat.zero_le _

end

/-! ## Runs -/

/-- Every slot keeps its invariant, and connections are numbered. -/
structure RegistryInv (env : Env φ) (sock : List (Websocket φ)) (w : World) : Prop where
  slots : ∀ ws ∈ sock, SlotInv env ws
  numbers : ∀ ws ∈ sock, ws.conn < w.conns
  distinct : (sock.map (·.conn)).Nodup

section

variable {env : Env φ} {c c' : Core φ}

/-- What a step does to the connection in a slot: it keeps its number and does not go
back, or it is replaced by a connection with a higher number. -/
def SlotNext (ws ws' : Websocket φ) : Prop :=
  ws.conn ≤ ws'.conn ∧ (ws'.conn = ws.conn → ws.state.rank ≤ ws'.state.rank)

theorem SlotNext.refl (ws : Websocket φ) : SlotNext ws ws := ⟨Nat.le_refl _, fun _ => Nat.le_refl _⟩

theorem SlotNext.trans {ws ws' ws'' : Websocket φ} (h : SlotNext ws ws') (h' : SlotNext ws' ws'') :
    SlotNext ws ws'' := by
  refine ⟨h.1.trans h'.1, fun e => ?_⟩
  have e1 : ws'.conn = ws.conn := by
    have := h.1
    have := h'.1
    omega
  exact (h.2 e1).trans (h'.2 (e.trans e1.symm))

/-- A handler's result put back into its slot. -/
theorem registryInv_put {n : Nat} {s t : Conn φ} {loc : Loc} (hi : RegistryInv env c.sock c.world)
    (hn : ∃ ws, c.sock[n]? = some ws ∧ ws.conn = s.ws.conn ∧ ws.state = s.ws.state)
    (hw : s.world = c.world) (ht : SlotInv env t.ws ∧ s.ws.state.rank ≤ t.ws.state.rank ∧ Local s t) :
    RegistryInv env (c.put n t loc).sock (c.put n t loc).world ∧
    ∀ (m : Nat) (ws ws' : Websocket φ), c.sock[m]? = some ws → (c.put n t loc).sock[m]? = some ws' →
      SlotNext ws ws' := by
  obtain ⟨ws, hn, hconn, hstate⟩ := hn
  obtain ⟨hinv, hrank, hlocal⟩ := ht
  have hlt := hi.numbers ws (List.mem_of_getElem? hn)
  have hconn' : t.ws.conn = ws.conn := hlocal.conn.trans hconn.symm
  refine ⟨⟨put_forall hi.slots hinv, ?_, ?_⟩, ?_⟩
  · rw [put_world, hlocal.conns, hw]
    exact put_forall hi.numbers (hconn' ▸ hlt)
  · obtain ⟨hlen, hget⟩ := List.getElem?_eq_some_iff.mp hn
    have hsame : (c.put n t loc).sock.map (·.conn) = c.sock.map (·.conn) := by
      rw [put_sock, List.map_set, hconn', ← hget]
      have := List.set_getElem_self (show n < (c.sock.map (·.conn)).length by simpa using hlen)
      simpa using this
    rw [hsame]
    exact hi.distinct
  · intro m old new hm hm'
    rcases put_get hm' with ⟨rfl, rfl⟩ | ⟨-, hold⟩
    · rw [hn] at hm
      cases hm
      exact ⟨Nat.le_of_eq hconn'.symm, fun _ => hstate ▸ hrank⟩
    · rw [hold] at hm
      cases hm
      exact .refl _

theorem registryInv_accept {w : World} (hi : RegistryInv env c.sock c.world) (now : Int)
    (accepts : Bool) (hw : w.conns = c.world.conns) :
    RegistryInv env (clientRegister (acceptedConn now accepts w) c.sock) (w.accept accepts) ∧
    ∀ (n : Nat) (ws ws' : Websocket φ), c.sock[n]? = some ws →
      (clientRegister (acceptedConn now accepts w) c.sock)[n]? = some ws' → SlotNext ws ws' := by
  have hconns : (w.accept accepts).conns = c.world.conns + 1 := by
    rw [← hw]
    cases accepts <;> rfl
  have hnew : (acceptedConn now accepts w : Websocket φ).conn ∉ c.sock.map (·.conn) := by
    intro hm
    obtain ⟨ws, hws, he⟩ := List.mem_map.mp hm
    have hlt := hi.numbers ws hws
    have hconn : (acceptedConn now accepts w : Websocket φ).conn = c.world.conns := hw
    omega
  refine ⟨⟨fun ws hm => ?_, fun ws hm => ?_, ?_⟩, fun n ws ws' h1 h2 => ?_⟩
  · rcases mem_clientRegister hm with rfl | hm
    · exact acceptedConn_slotInv _ _ _
    · exact hi.slots ws hm
  · rw [hconns]
    rcases mem_clientRegister hm with rfl | hm
    · rw [acceptedConn, hw]
      exact Nat.lt_succ_self _
    · exact Nat.lt_succ_of_lt (hi.numbers ws hm)
  · rcases clientRegister_cases (acceptedConn now accepts w) c.sock with ⟨m, old, -, -, he⟩ | he <;>
      rw [he]
    · rw [List.map_set]
      exact hi.distinct.set hnew
    · rw [List.map_append, List.map_singleton, List.nodup_append]
      exact ⟨hi.distinct, List.nodup_singleton _, fun a ha b hb e =>
        hnew (List.mem_singleton.mp hb ▸ e ▸ ha)⟩
  · rcases clientRegister_get h2 with rfl | h2
    · have hlt := hi.numbers ws (List.mem_of_getElem? h1)
      have hnew : (acceptedConn now accepts w : Websocket φ).conn = c.world.conns := hw
      exact ⟨by omega, fun e => by omega⟩
    · rw [h1] at h2
      cases h2
      exact .refl ws

/-- One step of the core loop keeps the invariant and takes no connection back. -/
theorem coreStep_registryInv {i : Input} (hi : RegistryInv env c.sock c.world)
    (hstep : coreStep env i c = some c') :
    RegistryInv env c'.sock c'.world ∧
    ∀ (n : Nat) (ws ws' : Websocket φ), c.sock[n]? = some ws → c'.sock[n]? = some ws' →
      SlotNext ws ws' := by
  have hsame : ∀ (n : Nat) (ws ws' : Websocket φ), c.sock[n]? = some ws → c.sock[n]? = some ws' →
      SlotNext ws ws' := by
    intro n ws ws' h1 h2
    rw [h1] at h2
    cases h2
    exact .refl ws
  cases coreStep_cases hstep with
  | round ready now accepts hl hlisten => exact ⟨⟨hi.slots, hi.numbers, hi.distinct⟩, hsame⟩
  | accept ready now accepts hl hlisten =>
      exact registryInv_accept (w := (c.selected ready now).world) hi now accepts rfl
  | quit hl =>
      refine ⟨⟨fun ws hm => ?_, fun ws hm => ?_, List.nodup_nil⟩, fun n ws ws' _ h2 => ?_⟩
      · cases hm
      · cases hm
      · cases h2
  | idle answer fuel l hl hl' => exact ⟨hi, hsame⟩
  | client answer fuel n fd ws t hl hn hfd hr ht =>
      have hslot := hi.slots ws (List.mem_of_getElem? hn)
      exact registryInv_put hi ⟨ws, hn, rfl, rfl⟩ rfl (wsData_slotInv { hslot with } ht)
  | peer answer fuel n fd ws r hl hn hfd hr ht =>
      have hslot := hi.slots ws (List.mem_of_getElem? hn)
      exact registryInv_put hi ⟨ws, hn, rfl, rfl⟩ rfl (wsPeerData_slotInv hslot hfd ht)
  | ping answer fuel n ws hl hn =>
      have hslot := hi.slots ws (List.mem_of_getElem? hn)
      exact registryInv_put hi ⟨ws, hn, rfl, rfl⟩ rfl (wsKeepAlive_slotInv c.now hslot)

/-- The registry in every run. -/
theorem coreLoop_registryInv {ok : Core φ → Input → Prop} (h : (coreLoop env).Reach ok c) :
    RegistryInv env c.sock c.world := by
  refine h.invariant (P := fun c => RegistryInv env c.sock c.world) (fun c hc => ?_)
    fun c i c' _ hi _ hs => (coreStep_registryInv (i := i) hi hs).1
  rw [hc.1]
  exact ⟨by simp, by simp, List.nodup_nil⟩

/-- A slot stays until the program ends. -/
theorem coreStep_slot {i : Input} {n : Nat} {ws : Websocket φ} (hn : c.sock[n]? = some ws)
    (hstep : coreStep env i c = some c') :
    (∃ ws', c'.sock[n]? = some ws') ∨ c'.loc = .done ∧ c'.sock = [] := by
  have hlt : n < c.sock.length := (List.getElem?_eq_some_iff.mp hn).1
  have hput : ∀ (m : Nat) (s : Conn φ) (loc : Loc), ∃ ws', (c.put m s loc).sock[n]? = some ws' := by
    intro m s loc
    have : n < (c.put m s loc).sock.length := by
      rw [put_sock, List.length_set]
      exact hlt
    exact ⟨_, List.getElem?_eq_getElem this⟩
  cases coreStep_cases hstep with
  | round ready now accepts hl hlisten => exact .inl ⟨ws, hn⟩
  | accept ready now accepts hl hlisten =>
      have hle := length_le_clientRegister (acceptedConn now accepts (c.selected ready now).world)
        c.sock
      exact .inl ⟨_, List.getElem?_eq_getElem (Nat.lt_of_lt_of_le hlt hle)⟩
  | quit hl => exact .inr ⟨rfl, rfl⟩
  | idle answer fuel l hl hl' => exact .inl ⟨ws, hn⟩
  | client answer fuel m fd ws t hl hn hfd hr ht => exact .inl (hput _ _ _)
  | peer answer fuel m fd ws r hl hn hfd hr ht => exact .inl (hput _ _ _)
  | ping answer fuel m ws hl hn => exact .inl (hput _ _ _)

/-- What a run does to the connection in a slot. -/
theorem run_slotNext (hi : RegistryInv env c.sock c.world) (hrun : ReflTransGen (coreLoop env).Next c c')
    {n : Nat} {ws : Websocket φ} (hn : c.sock[n]? = some ws) :
    RegistryInv env c'.sock c'.world ∧
    ((∃ ws', c'.sock[n]? = some ws' ∧ SlotNext ws ws') ∨ c'.loc = .done ∧ c'.sock = []) := by
  induction hrun with
  | refl => exact ⟨hi, .inl ⟨ws, hn, .refl ws⟩⟩
  | @tail c1 c2 _ hs ih =>
      obtain ⟨i, hs⟩ := hs
      obtain ⟨hi1, hslot⟩ := ih
      obtain ⟨hi2, hnext⟩ := coreStep_registryInv (i := i) hi1 hs
      refine ⟨hi2, ?_⟩
      rcases hslot with ⟨ws1, hn1, h1⟩ | ⟨hdone, -⟩
      · rcases coreStep_slot (i := i) hn1 hs with ⟨ws2, hn2⟩ | h
        · exact .inl ⟨ws2, hn2, h1.trans (hnext n ws1 ws2 hn1 hn2)⟩
        · exact .inr h
      · have hnone : coreStep env i c1 = none := by
          unfold coreStep
          rw [hdone]
        have hs' : coreStep env i c1 = some c2 := hs
        rw [hnone] at hs'
        cases hs'

/-- **The representation invariant**: in every state of every run each slot satisfies
`SlotInv`; from there on no connection goes back to an earlier state as long as it
is in its slot; and `ws_close` on a closed slot only leaves its note in the log. -/
theorem slot_invariant (env : Env φ) (c : Core φ) (h : (coreLoop env).Reach (fun _ _ => True) c) :
    (∀ ws ∈ c.sock, SlotInv env ws) ∧
    (∀ c', ReflTransGen (coreLoop env).Next c c' → ∀ (n : Nat) (ws ws' : Websocket φ),
      c.sock[n]? = some ws → c'.sock[n]? = some ws' → ws'.conn = ws.conn →
      ws.state.rank ≤ ws'.state.rank) ∧
    (∀ ws ∈ c.sock, ws.state = .wsClosed → ∀ code reason w,
      (wsClose env code reason ⟨ws, w⟩).world = w.record (.wsClose ws.conn reason)) := by
  have hi := coreLoop_registryInv h
  refine ⟨hi.slots, fun c' hrun n ws ws' h1 h2 hconn => ?_, fun ws hm hs code reason w => ?_⟩
  · obtain ⟨-, ⟨ws1, hn1, hnext⟩ | ⟨-, hnil⟩⟩ := run_slotNext hi hrun h1
    · rw [hn1] at h2
      cases h2
      exact hnext.2 hconn
    · rw [hnil] at h2
      cases h2
  · obtain ⟨hw, hp⟩ := (hi.slots ws hm).closed hs
    exact wsClose_closed env code reason hs hw hp

end

/-- The inputs of two rounds: a client connects, and its request line arrives. -/
def sampleRequest : List Input :=
  sampleAccept ++ [.select [4] 1 false, .serve (some (ascii "GET / HTTP/1.1\r\n")) 0]

theorem sampleRequest_runs : ((coreLoop sampleEnv).exec sampleRequest sampleCore).isSome := by decide

theorem slot_invariant_sample :
    let c := ((coreLoop sampleEnv).exec sampleRequest sampleCore).get sampleRequest_runs
    c.sock.map (·.state) = [.wsHttp] ∧ ∀ ws ∈ c.sock, SlotInv sampleEnv ws :=
  ⟨by decide, (slot_invariant sampleEnv _ (.exec (.init sampleCore_init) sampleRequest
    (Machine.meets_true _ _) (Option.some_get sampleRequest_runs).symm)).1⟩

end Websocksy

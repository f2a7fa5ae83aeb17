import Websocksy.FramingCalls
import Websocksy.Invariant

/-!
# What a `recv` of no bytes means

A `recv` that asks for at least one byte gives none only at the end of the stream.  Both handlers
keep room for a byte and the NUL: `ws_data` disconnects a client whose buffer is full.
`ws_peer_data` has no such check, and a framing function may leave a full buffer as it is.  And a
peer that sends datagrams has no stream that ends: there the result is an empty datagram.
-/

namespace Websocksy

open Buffer CString

variable {φ : Type}

/-- A call of `ws_data`, or of `ws_peer_data`, in which the framing function is called once more
than `fuel` times at most. -/
inductive RecvCall
  | client (answer : Option Bytes)
  | peer (answer : Option Bytes) (fuel : Nat)

def Conn.clientRecv (s : Conn φ) (answer : Option Bytes) : Option Bytes × World :=
  recv s.ws.wsFd (wsMaxLine - s.ws.readBufferOffset - 1) answer s.world

def Conn.peerRecv (s : Conn φ) (answer : Option Bytes) : Option Bytes × World :=
  recv s.ws.peerFd (peerBufferSize - s.ws.peerBufferOffset - 1) answer s.world

/-- The calls of `ws_data` and `ws_peer_data` for a connection, in any order. -/
def recvCalls (env : Env φ) : Machine (Conn φ) RecvCall where
  init := fun s => s.ws.readBufferOffset = 0 ∧ s.ws.peerBufferOffset = 0
  step := fun i s =>
    match i with
    | .client answer => wsData env answer s
    | .peer answer fuel => (wsPeerData env (fuel + 1) answer s).map Prod.snd

/-- The next `recv` of either handler asks for at least one byte. -/
structure RecvRoom (s : Conn φ) : Prop where
  client : s.ws.readBufferOffset ≤ wsMaxLine - 2
  peer : s.ws.peerBufferOffset ≤ peerBufferSize - 2

/-- What comes from the peer is a stream, not datagrams. -/
def Conn.PeerStreams (s : Conn φ) : Prop :=
  s.ws.peer.transport ≠ .udpClient ∧ s.ws.peer.transport ≠ .unixDgram

instance (s : Conn φ) : Decidable s.PeerStreams := inferInstanceAs (Decidable (_ ∧ _))

/-- The call takes a `recv` of no bytes for the end of the stream where it is one, and says so
nowhere else. -/
def ZeroIsEnd (env : Env φ) (s : Conn φ) : RecvCall → Prop
  | .client answer =>
    ((s.clientRecv answer).1 = some [] → answer = some []) ∧
      -- a buffer that is full after the handlers is a matter of the limit
      ∀ data u, (s.clientRecv answer).1 = some data → data ≠ [] →
        wsDataSwitch env data.length ⟨s.ws.filled data, (s.clientRecv answer).2⟩ = some u →
        wsMaxLine - 2 < u.ws.readBufferOffset → wsData env answer s =
          some (wsClose env .limit (some (ascii "Receive size limit exceeded")) u)
  | .peer answer fuel =>
    ((s.peerRecv answer).1 = some [] → answer = some [] ∧ s.PeerStreams) ∧
      -- the peer is said to have closed only if it has
      ∀ t more, (recvCalls env).step (.peer answer fuel) s = some t →
        t.world.log = s.world.log ++ more →
        .wsClose s.ws.conn (some (ascii "Peer closed connection")) ∈ more →
          answer = some [] ∧ s.PeerStreams

/-- The framing function takes something from a buffer that its peer has filled, and the peer sends
no empty datagram. -/
def TakesFull (s : Conn φ) : RecvCall → Prop
  | .client _ => True
  | .peer answer _ =>
    (∀ c, s.firstCall? answer = some c → c.length = peerBufferSize - 1 →
      ∀ f, s.ws.peer.framing = some f → (c.answer f s.ws.peer.framingConfig).1 ≠ 0) ∧
    (s.world.sockAt s.ws.peerFd ≠ none → answer = some [] → s.PeerStreams)

/-- The framing function of the connection, if it has one, is bounded. -/
def BoundedPeer (s : Conn φ) : Prop :=
  ∀ f, s.ws.peer.framing = some f → Framing.Bounded f s.ws.peer.framingConfig

/-- The framing functions of the peers that the backend answers with are bounded. -/
def Env.OffersBounded (env : Env φ) : Prop :=
  ∀ n path ps hs f, (clientResolve (env.query n path ps hs)).1.framing = some f →
    Framing.Bounded f (clientResolve (env.query n path ps hs)).1.framingConfig

section

variable {env : Env φ} {f : WsFraming φ} {s t : Conn φ}

/-! ## What `ws_data` leaves of the peer's side -/

/-- The peer buffer holds at most `k` bytes, and the framing function is bounded. -/
def PeerHolds (k : Nat) (s : Conn φ) : Prop := s.ws.peerBufferOffset ≤ k ∧ BoundedPeer s

theorem wsClose_peerHolds (code : WsCloseReason) (reason : Option Bytes) (k : Nat) (s : Conn φ) :
    PeerHolds k (wsClose env code reason s) :=
  ⟨Nat.zero_le k, fun f h => by cases h⟩

/-- The peer of a connection is what the answer to its query is resolved to. -/
theorem clientConnect_peer (env : Env φ) (s : Conn φ) : (clientConnect env s).2.ws.peer =
    (clientResolve (env.query s.world.queries s.ws.requestPath s.ws.protocol s.ws.header)).1 := by
  unfold clientConnect
  dsimp only
  split
  · rfl
  · split <;> rfl

theorem wsUpgradeHttp_peerHolds {k : Nat} (hq : env.OffersBounded) (hr : s.ws.ready = true)
    (hs : PeerHolds k s) : PeerHolds k (wsUpgradeHttp env s).2 := by
  rw [wsUpgradeHttp_ready env hr]
  dsimp only
  split
  · exact wsClose_peerHolds _ _ k _
  split
  · exact wsClose_peerHolds _ _ k _
  · have hconnected := clientConnect_cases env s
    have hpeer := clientConnect_peer env s
    generalize clientConnect env s = c at hconnected hpeer ⊢
    have hoff : c.2.ws.peerBufferOffset = s.ws.peerBufferOffset := by cases hconnected <;> rfl
    refine ⟨?_, ?_⟩
    · show c.2.ws.peerBufferOffset ≤ k
      rw [hoff]
      exact hs.1
    · intro f hf
      show Framing.Bounded f c.2.ws.peer.framingConfig
      have hframing : c.2.ws.peer.framing = some f := hf
      rw [hpeer] at hframing ⊢
      exact hq _ _ _ _ f hframing

theorem wsTakeLine_peerHolds {k : Nat} (hq : env.OffersBounded) (line : Bytes)
    (hs : PeerHolds k s) : PeerHolds k (wsTakeLine env line s) := by
  cases he : lineEnds s.ws line with
  | false =>
      rw [wsTakeLine_quiet env he]
      have hkept : (lineQuiet s.ws line).peerBufferOffset = s.ws.peerBufferOffset ∧
          (lineQuiet s.ws line).peer = s.ws.peer := by
        unfold lineQuiet
        split
        · split <;> exact ⟨rfl, rfl⟩
        · split
          · exact ⟨rfl, rfl⟩
          · next tag value _ =>
            obtain ⟨hs, ver, key, up, ps, h⟩ := wsHeader_eq tag (ltrim value) s.ws
            rw [h]
            exact ⟨rfl, rfl⟩
      unfold PeerHolds BoundedPeer
      rw [hkept.1, hkept.2]
      exact hs
  | true =>
      have hends := wsTakeLine_ends env he
      generalize wsTakeLine env line s = t at hends ⊢
      cases hends with
      | upgrade hr => exact wsUpgradeHttp_peerHolds hq hr hs
      | version _ => exact wsClose_peerHolds _ _ k _
      | folding => exact wsClose_peerHolds _ _ k _
      | format => exact wsClose_peerHolds _ _ k _

theorem wsDispatch_peerHolds {k : Nat} (op : Nat) (payload : Bytes) (hs : PeerHolds k s) :
    PeerHolds k (wsDispatch env op payload s) := by
  unfold wsDispatch
  dsimp only
  split
  · split
    · split
      · exact wsClose_peerHolds _ _ k _
      · exact hs
    · exact hs
  split
  · exact wsClose_peerHolds _ _ k _
  split
  · split
    · exact wsClose_peerHolds _ _ k _
    · exact hs
  split
  · exact hs
  · exact wsClose_peerHolds _ _ k _

theorem wsFrames_peerHolds {k : Nat} (fuel : Nat) (h : wsFrames env fuel s = some t)
    (hs : PeerHolds k s) : PeerHolds k t := by
  induction fuel generalizing s with
  | zero =>
      cases h
      exact hs
  | succ fuel ih =>
      unfold wsFrames at h
      split at h
      · cases h
      next n u hframe =>
      have hu : PeerHolds k u := by
        unfold wsFrame at hframe
        split at hframe
        · cases hframe
          exact hs
        dsimp only at hframe
        split at hframe
        · cases hframe
          exact hs
        split at hframe
        · cases hframe
          exact wsClose_peerHolds _ _ k _
        split at hframe
        · cases hframe
        · cases hframe
          exact wsDispatch_peerHolds _ _ (by exact hs)
      split at h
      · exact ih h hu
      · cases h
        exact hu

theorem wsData_peerHolds {k : Nat} (hq : env.OffersBounded)
    {answer : Option Bytes} (h : wsData env answer s = some t) (hs : PeerHolds k s) :
    PeerHolds k t := by
  cases wsData_cases h with
  | nothing r w hr hnone => exact wsClose_peerHolds _ _ k _
  | data x b data u hx ha hb hne hu =>
      split
      · exact wsClose_peerHolds _ _ k _
      have hfilled : PeerHolds k ⟨s.ws.filled data, s.world.record (.received x data)⟩ := hs
      generalize (⟨s.ws.filled data, s.world.record (.received x data)⟩ : Conn φ) = v at hu hfilled
      have hscan : PeerHolds k (wsScan env data.length 0 data.length v).2 := by
        refine (wsScan_acts (A := .all) trivial ?_ ?_ data.length hfilled).2
        · intro a b ha hab
          have hoff := bare_congr Websocket.peerBufferOffset hab.ws fun _ => rfl
          have hpeer := bare_congr Websocket.peer hab.ws fun _ => rfl
          unfold PeerHolds BoundedPeer
          rw [← hoff, ← hpeer]
          exact ha
        · intro a l ha
          exact ⟨wsTakeLine_acts l trivial fun _ _ => trivial, wsTakeLine_peerHolds hq l ha⟩
      unfold wsDataSwitch at hu
      split at hu
      · cases hu
        exact hscan
      · cases hu
        exact hscan
      · exact wsFrames_peerHolds _ hu (by exact hfilled)
      · cases hu
        exact hfilled

/-- After `ws_data` there is room, or the connection was closed. -/
theorem wsData_room {answer : Option Bytes} (h : wsData env answer s = some t) :
    t.ws.readBufferOffset ≤ wsMaxLine - 2 := by
  cases wsData_cases h with
  | nothing r w hr hnone => exact Nat.zero_le _
  | data x b data u hx ha hb hne hu =>
      split
      · exact Nat.zero_le _
      · omega

/-! ## What `ws_peer_data` leaves -/

/-- Between the logs the connection is not closed. -/
def ClosesNothing (log log' : List Event) : Prop :=
  ∃ more, log' = log ++ more ∧ ∀ conn reason, .wsClose conn reason ∉ more

theorem ClosesNothing.trans {log log' log'' : List Event} (h : ClosesNothing log log')
    (h' : ClosesNothing log' log'') : ClosesNothing log log'' := by
  obtain ⟨more, rfl, hmore⟩ := h
  obtain ⟨rest, rfl, hrest⟩ := h'
  refine ⟨more ++ rest, List.append_assoc _ _ _, ?_⟩
  intro conn reason hm
  rcases List.mem_append.mp hm with hm | hm
  · exact hmore conn reason hm
  · exact hrest conn reason hm

theorem ClosesNothing.record (w : World) {e : Event} (he : ∀ conn reason, e ≠ .wsClose conn reason) :
    ClosesNothing w.log (w.record e).log := by
  refine ⟨[e], rfl, ?_⟩
  intro conn reason hm
  exact he conn reason (List.mem_singleton.mp hm).symm

theorem OnlySends.closesNothing {fd : Option Nat} {w w' : World} (h : OnlySends fd w w') :
    ClosesNothing w.log w'.log := by
  obtain ⟨es, hes, hall⟩ := h.log
  refine ⟨es, hes, ?_⟩
  intro conn reason hm
  obtain ⟨x, -, h | ⟨d, h⟩⟩ := hall _ hm <;> cases h

/-- The only close that `ws_close` logs has its own reason. -/
theorem wsClose_reason (env : Env φ) (code : WsCloseReason) (reason : Option Bytes) (s : Conn φ) :
    ∃ rest, (wsClose env code reason s).world.log = s.world.log ++ rest ∧
      ∀ conn r, .wsClose conn r ∈ rest → r = reason := by
  obtain ⟨es, hes, hsends⟩ := wsClose_log env code reason s
  refine ⟨_, hes, ?_⟩
  intro conn r h
  rcases List.mem_cons.mp h with h | h
  · exact (Event.wsClose.inj h).2
  rcases List.mem_append.mp h with h | h
  · obtain ⟨x, -, h | ⟨d, h⟩⟩ := hsends _ h <;> cases h
  · obtain ⟨x, -, h⟩ := List.mem_map.mp h
    cases h

theorem called_closesNothing (f : WsFraming φ) (c : FramingCall φ) (s : Conn φ) :
    ClosesNothing s.world.log (c.called f s).world.log :=
  .record s.world fun _ _ h => by cases h

/-- **The framing loop** does not close the connection, and leaves less in the buffer than there
was, unless the function declines at once or a send fails. -/
theorem wsFraming_leaves (hb : Framing.Bounded f s.ws.peer.framingConfig) (fuel : Nat) (op : WsOperation) (bytesRead : Nat)
    {r : Bool × Conn φ} (hf : s.ws.peer.framing = some f)
    (h : wsFraming env fuel op bytesRead s = some r) :
    r.2.ws.peer = s.ws.peer ∧ r.2.ws.readBufferOffset = s.ws.readBufferOffset ∧
      ClosesNothing s.world.log r.2.world.log ∧
      r.2.ws.peerBufferOffset ≤ s.ws.peerBufferOffset + bytesRead ∧
      (((s.framingCall op bytesRead).answer f s.ws.peer.framingConfig).1 ≠ 0 →
        r.2.ws.peerBufferOffset = s.ws.peerBufferOffset ∨
        r.2.ws.peerBufferOffset < s.ws.peerBufferOffset + bytesRead) := by
  induction fuel generalizing s op bytesRead with
  | zero => cases h
  | succ fuel ih =>
      obtain ⟨p, hpass, hp⟩ := wsFraming_passed env op bytesRead hf
      rw [hp] at h
      have hlen : (s.framingCall op bytesRead).length = s.ws.peerBufferOffset + bytesRead := rfl
      rw [← hlen]
      generalize s.framingCall op bytesRead = c at hpass hlen ⊢
      obtain ⟨hge, hle⟩ : 0 ≤ (c.answer f s.ws.peer.framingConfig).1 ∧
          (c.answer f s.ws.peer.framingConfig).1 ≤ c.length :=
        hb c.buffer c.length c.bytesRead c.opcode c.framingData (Nat.le_add_left _ _)
      have hcalled := called_closesNothing f c s
      have htaken (op : WsOperation) (seg : Bytes) (w : World)
          (hw : OnlySends s.ws.wsFd (c.called f s).world w) :
          ClosesNothing s.world.log (w.record (.segment s.ws.conn op seg)).log :=
        (hcalled.trans hw.closesNothing).trans (.record w fun _ _ h => by cases h)
      cases hpass with
      | overrun hover hn => omega
      | failed rest hz hl hn hc hr => omega
      | unsent o seg rest again k hk w hw hs =>
          cases h
          have hkept : (c.called f s).ws.peerBufferOffset = s.ws.peerBufferOffset := rfl
          refine ⟨rfl, rfl, hcalled.trans hw.closesNothing, ?_, fun _ => .inl hkept⟩
          rw [hlen]
          exact Nat.le_add_right _ _
      | last o seg rest k hk hn w hw =>
          cases h
          have hoff : (c.taken f o seg rest rest.length w s).ws.peerBufferOffset = rest.length := rfl
          have hless := hk.length
          have hpos := hk.pos
          exact ⟨rfl, rfl, htaken o seg w hw, by rw [hoff]; omega, fun _ => .inr (by rw [hoff]; omega)⟩
      | again o seg rest k hk hn w hw hc =>
          obtain ⟨hpeer, hread, hlog, hbelow, -⟩ :=
            ih (s := c.taken f o seg rest rest.offset w s) hb _ _ hf h
          have hoff : (c.taken f o seg rest rest.offset w s).ws.peerBufferOffset + rest.bytesRead =
              rest.length := rfl
          have hless := hk.length
          have hpos := hk.pos
          rw [hoff] at hbelow
          exact ⟨hpeer, hread, (htaken o seg w hw).trans hlog, by omega, fun _ => .inr (by omega)⟩
      | declined hz hd hn =>
          cases h
          refine ⟨rfl, rfl, hcalled, Nat.le_refl _, ?_⟩
          intro hne
          have hzero : c.length = 0 := hd.resolve_left hne
          omega

/-- A declined buffer is kept as it is. -/
theorem wsFraming_declined {op : WsOperation} {bytesRead : Nat} (hf : s.ws.peer.framing = some f)
    (h : ((s.framingCall op bytesRead).answer f s.ws.peer.framingConfig).1 = 0) (fuel : Nat) :
    ∃ t, wsFraming env (fuel + 1) op bytesRead s = some (false, t) ∧
      t.ws.peerBufferOffset = s.ws.peerBufferOffset + bytesRead := by
  have htake := wsFraming_take env fuel op bytesRead hf
  dsimp only at htake
  rw [FramingCall.take_zero h] at htake
  exact ⟨_, htake, rfl⟩

/-! ## One call -/

theorem recvCalls_bounded (hq : env.OffersBounded) (i : RecvCall)
    (hs : BoundedPeer s) (h : (recvCalls env).step i s = some t) : BoundedPeer t := by
  cases i with
  | client answer => exact (wsData_peerHolds (k := s.ws.peerBufferOffset) hq h ⟨Nat.le_refl _, hs⟩).2
  | peer answer fuel =>
      obtain ⟨r, hr, rfl⟩ := Option.map_eq_some_iff.mp h
      cases wsPeerData_cases hr with
      | failed w hrecv => exact fun f h => by cases h
      | ended x b hx ha hb => exact fun f h => by cases h
      | data x b data r hx ha hb hne hu =>
          obtain ⟨f, hf⟩ := wsFraming_some hu
          have hpeer := (wsFraming_leaves (s := s.peerReceived x data) (hs f hf) _ _ _ hf hu).1
          unfold BoundedPeer
          rw [hpeer]
          exact hs

theorem recv_nothing {fd : Option Nat} {len : Nat} {answer : Option Bytes} {w : World}
    (hlen : 0 < len) (h : (recv fd len answer w).1 = some []) : answer = some [] := by
  unfold recv at h
  split at h
  · cases h
  cases answer with
  | none => cases h
  | some b => rw [(List.take_eq_nil_iff.mp (Option.some.inj h)).resolve_left (by omega)]

/-- **With room in the buffer**, `ws_data` means what its `recv` says. -/
theorem zeroIsEnd_client (hroom : RecvRoom s) (answer : Option Bytes) :
    ZeroIsEnd env s (.client answer) := by
  have hmax : wsMaxLine = 16384 := rfl
  have hclient := hroom.client
  refine ⟨fun h => recv_nothing (by omega) h, ?_⟩
  intro data u hrecv hne hu hfull
  unfold Conn.clientRecv at hrecv hu
  unfold wsData
  simp only [hrecv]
  cases data with
  | nil => exact absurd rfl hne
  | cons b data =>
      unfold Websocket.filled at hu
      simp only [hu, Option.map_some]
      rw [if_pos (by omega)]

/-- **With room in the buffer**, `ws_peer_data` says that the peer has closed only after a `recv`
of no bytes. -/
theorem peer_said_closed (hs : BoundedPeer s) (hroom : RecvRoom s) {answer : Option Bytes}
    {fuel : Nat} {more : List Event} (h : (recvCalls env).step (.peer answer fuel) s = some t)
    (hlog : t.world.log = s.world.log ++ more)
    (hclose : .wsClose s.ws.conn (some (ascii "Peer closed connection")) ∈ more) :
    answer = some [] ∧ s.world.sockAt s.ws.peerFd ≠ none := by
  have hsize : peerBufferSize = 16384 := rfl
  have hpeer := hroom.peer
  obtain ⟨r, hr, rfl⟩ := Option.map_eq_some_iff.mp h
  cases wsPeerData_cases hr with
  | ended x b hx ha hb =>
      refine ⟨?_, by rw [hx]; simp⟩
      rw [ha, (List.take_eq_nil_iff.mp hb.symm).resolve_left (by omega)]
  | failed w hrecv =>
      exfalso
      obtain ⟨before, hbefore, hno⟩ : ClosesNothing s.world.log w.log := by
        generalize hd : (none : Option Bytes) = d at hrecv
        cases hrecv with
        | closed _ => exact ⟨[], (List.append_nil _).symm, fun _ _ h => by cases h⟩
        | failed x _ _ => exact .record s.world fun _ _ h => by cases h
        | data x b _ _ => cases hd
      obtain ⟨rest, hrest, honly⟩ := wsClose_reason env .unexpected
        (some (ascii "Peer connection failed")) ⟨s.ws, w⟩
      have hmore : more = before ++ rest := by
        refine List.append_cancel_left (?_ : s.world.log ++ more = s.world.log ++ (before ++ rest))
        rw [← hlog, ← List.append_assoc, ← hbefore]
        exact hrest
      rw [hmore] at hclose
      rcases List.mem_append.mp hclose with h | h
      · exact hno _ _ h
      · have hreason := Option.some.inj (honly _ _ h)
        exact absurd hreason (by decide)
  | data x b data r hx ha hb hne hu =>
      obtain ⟨f, hf⟩ := wsFraming_some hu
      have hrecord : ClosesNothing s.world.log (s.world.record (.received x data)).log :=
        .record s.world fun _ _ h => by cases h
      obtain ⟨more', hmore, hnot⟩ := hrecord.trans
        (wsFraming_leaves (s := s.peerReceived x data) (hs f hf) _ _ _ hf hu).2.2.1
      obtain rfl := List.append_cancel_left (hlog.symm.trans hmore)
      exact absurd hclose (hnot _ _)

/-- `ws_peer_data` means what its `recv` says just if that is no empty datagram. -/
theorem zeroIsEnd_peer (hs : BoundedPeer s) (hroom : RecvRoom s) (answer : Option Bytes)
    (fuel : Nat) : ZeroIsEnd env s (.peer answer fuel) ↔
      (s.world.sockAt s.ws.peerFd ≠ none → answer = some [] → s.PeerStreams) := by
  have hsize : peerBufferSize = 16384 := rfl
  have hpeer := hroom.peer
  constructor
  · rintro ⟨hrecv, -⟩ hsock rfl
    refine (hrecv ?_).2
    obtain ⟨x, hx⟩ := Option.ne_none_iff_exists'.mp hsock
    unfold Conn.peerRecv recv
    rw [hx]
    simp
  · intro hstream
    constructor
    · intro hrecv
      obtain rfl := recv_nothing (by omega) hrecv
      refine ⟨rfl, hstream (fun hnone => ?_) rfl⟩
      unfold Conn.peerRecv recv at hrecv
      rw [hnone] at hrecv
      cases hrecv
    · intro t more ht hlog hclose
      obtain ⟨ha, hsock⟩ := peer_said_closed hs hroom ht hlog hclose
      exact ⟨ha, hstream hsock ha⟩

/-- **A call of `ws_peer_data`** leaves room just if the framing function takes something from a
full buffer. -/
theorem recvRoom_peer (hs : BoundedPeer s) (hroom : RecvRoom s) (answer : Option Bytes) (fuel : Nat) :
    (∀ c, s.firstCall? answer = some c → c.length = peerBufferSize - 1 →
      ∀ f, s.ws.peer.framing = some f → (c.answer f s.ws.peer.framingConfig).1 ≠ 0) ↔
      ∀ t, (recvCalls env).step (.peer answer fuel) s = some t → RecvRoom t := by
  have hsize : peerBufferSize = 16384 := rfl
  have hpeer := hroom.peer
  constructor
  · intro htakes t ht
    obtain ⟨r, hr, rfl⟩ := Option.map_eq_some_iff.mp ht
    rcases wsPeerData_firstCall env answer s with
      ⟨-, code, reason, w, hclose⟩ | ⟨x, b, data, hx, ha, hd, hne, hcall, hframing⟩
    · rw [hclose] at hr
      cases hr
      exact ⟨Nat.zero_le _, Nat.zero_le _⟩
    rw [hframing] at hr
    have hlen : data.length ≤ peerBufferSize - s.ws.peerBufferOffset - 1 := by
      rw [← hd]
      exact List.length_take_le _ _
    obtain ⟨f, hf⟩ := wsFraming_some hr
    obtain ⟨-, hread, -, hle, hless⟩ :=
      wsFraming_leaves (s := s.peerReceived x data) (hs f hf) _ _ _ hf hr
    have hoff : (s.peerReceived x data).ws.peerBufferOffset = s.ws.peerBufferOffset := rfl
    rw [hoff] at hle hless
    refine ⟨hread ▸ hroom.client, ?_⟩
    by_cases hfull : s.ws.peerBufferOffset + data.length = peerBufferSize - 1
    · rcases hless (htakes _ hcall hfull f hf) with h1 | h1 <;> omega
    · omega
  · intro hnext c hcall hfull f hf hzero
    rcases wsPeerData_firstCall env answer s with
      ⟨hnone, -⟩ | ⟨x, b, data, hx, ha, hd, hne, hsome, hframing⟩
    · rw [hnone] at hcall
      cases hcall
    obtain rfl := Option.some.inj (hsome.symm.trans hcall)
    have hdecline : (((s.peerReceived x data).framingCall .binary data.length).answer f
        (s.peerReceived x data).ws.peer.framingConfig).1 = 0 := hzero
    have hf' : (s.peerReceived x data).ws.peer.framing = some f := hf
    obtain ⟨t, ht, hoff⟩ := wsFraming_declined hf' hdecline fuel
    have hstep : (recvCalls env).step (.peer answer fuel) s = some t := by
      show (wsPeerData env (fuel + 1) answer s).map Prod.snd = some t
      rw [hframing, ht]
      rfl
    have hroom' := (hnext t hstep).peer
    have htotal : t.ws.peerBufferOffset = s.ws.peerBufferOffset + data.length := hoff
    have hlen : (s.firstCall data).length = s.ws.peerBufferOffset + data.length := rfl
    omega

/-- **One call** means what its `recv` says and leaves room just if it takes from a full buffer and
receives no empty datagram. -/
theorem takesFull_iff (hq : env.OffersBounded) (i : RecvCall) (hs : BoundedPeer s)
    (hroom : RecvRoom s) : TakesFull s i ↔
      ZeroIsEnd env s i ∧ ∀ t, (recvCalls env).step i s = some t → RecvRoom t := by
  cases i with
  | client answer =>
      refine iff_of_true trivial ⟨zeroIsEnd_client hroom answer, fun t ht => ?_⟩
      exact ⟨wsData_room ht, (wsData_peerHolds hq ht ⟨hroom.peer, hs⟩).1⟩
  | peer answer fuel =>
      rw [zeroIsEnd_peer hs hroom, ← recvRoom_peer hs hroom]
      exact and_comm

end

/-- **A `recv` of no bytes is the end of the stream** all along a run of both handlers, each of
whose calls asks for a byte, just if no call of the framing function declines a full peer buffer
and no empty datagram comes from the peer. -/
theorem zero_is_end_iff (env : Env φ) (hq : env.OffersBounded) (s : Conn φ) (hs : BoundedPeer s)
    (hroom : RecvRoom s) (calls : List RecvCall) :
    (recvCalls env).Along RecvRoom calls s ∧ (recvCalls env).Meets (ZeroIsEnd env) calls s ↔
      (recvCalls env).Meets TakesFull calls s :=
  Machine.along_meets_iff (I := BoundedPeer) (fun _ i _ hb ht => recvCalls_bounded hq i hb ht)
    (fun _ i hb h => takesFull_iff hq i hb h) calls hs hroom

theorem sampleEnv_offersBounded : sampleEnv.OffersBounded := by
  intro n path ps hs f hf
  cases hf
  exact framingAuto_bounded _

/-- Five bytes from the peer, and then the end of its stream. -/
def sampleRecvs : List RecvCall := [.peer (some (ascii "hello")) 1, .peer (some []) 1]

theorem zero_is_end_iff_sample :
    (recvCalls sampleEnv).Along RecvRoom sampleRecvs sampleOpen ∧
      (recvCalls sampleEnv).Meets (ZeroIsEnd sampleEnv) sampleRecvs sampleOpen := by
  have hbounded : BoundedPeer sampleOpen := by
    intro f hf
    obtain rfl := Option.some.inj hf
    exact framingAuto_bounded _
  refine (zero_is_end_iff sampleEnv sampleEnv_offersBounded sampleOpen hbounded
    ⟨by decide, by decide⟩ sampleRecvs).mpr ⟨⟨?_, fun _ _ => by decide⟩, ?_⟩
  · intro c hc hlen
    obtain rfl := Option.some.inj hc
    exact absurd hlen (by decide)
  · have htransport : ((recvCalls sampleEnv).step (.peer (some (ascii "hello")) 1) sampleOpen).map
        (·.ws.peer.transport) = some .detect := by
      decide +kernel
    cases hstep : (recvCalls sampleEnv).step (.peer (some (ascii "hello")) 1) sampleOpen with
    | none => trivial
    | some t =>
        rw [hstep] at htransport
        refine ⟨⟨fun c hc => ?_, fun _ _ => ?_⟩, ?_⟩
        · unfold Conn.firstCall? recv at hc
          cases hx : t.world.sockAt t.ws.peerFd <;> rw [hx] at hc <;> simp at hc
        · unfold Conn.PeerStreams
          have hdetect : t.ws.peer.transport = .detect := Option.some.inj htransport
          rw [hdetect]
          decide
        · cases (recvCalls sampleEnv).step (.peer (some []) 1) t <;> trivial

/-- Blocks of as many bytes as the peer buffer has. -/
def framingBlock : WsFraming Unit := fun _ length _ opcode framingData _ =>
  (if length < peerBufferSize then 0 else peerBufferSize, opcode, framingData)

theorem framingBlock_bounded : Framing.Bounded framingBlock none := by
  intro buffer length lastRead opcode framingData hlast
  unfold framingBlock
  dsimp only
  split <;> omega

/-- A peer that has sent a buffer of bytes is taken for closed. -/
theorem zero_is_end_fails :
    ¬((recvCalls sampleEnv).Along RecvRoom
        [.peer (some (List.replicate (peerBufferSize - 1) 0)) 0] (framedOpen framingBlock none) ∧
      (recvCalls sampleEnv).Meets (ZeroIsEnd sampleEnv)
        [.peer (some (List.replicate (peerBufferSize - 1) 0)) 0] (framedOpen framingBlock none)) := by
  have hbounded : BoundedPeer (framedOpen framingBlock none) := by
    intro f hf
    obtain rfl := Option.some.inj hf
    exact framingBlock_bounded
  rw [zero_is_end_iff sampleEnv sampleEnv_offersBounded _ hbounded ⟨by decide, by decide⟩]
  rintro ⟨⟨htakes, -⟩, -⟩
  obtain ⟨data, hdata⟩ : ∃ data : Bytes, data = List.replicate (peerBufferSize - 1) 0 := ⟨_, rfl⟩
  have hlen : data.length = peerBufferSize - 1 := by rw [hdata, List.length_replicate]
  have hcall : (framedOpen framingBlock none).firstCall? (some data) =
      some ((framedOpen framingBlock none).firstCall data) := by
    have hrecv : (recv (some 5) (peerBufferSize - 0 - 1) (some data)
        (framedOpen framingBlock none).world).1 = some data :=
      congrArg some (List.take_of_length_le (by rw [hlen]; exact Nat.le_refl _))
    unfold Conn.firstCall?
    rw [show (framedOpen framingBlock none).ws.peerFd = some 5 from rfl,
      show (framedOpen framingBlock none).ws.peerBufferOffset = 0 from rfl, hrecv]
    cases data with
    | nil => cases hlen
    | cons b data => rfl
  rw [← hdata] at htakes
  have hcalled : ((framedOpen framingBlock none).firstCall data).length = peerBufferSize - 1 :=
    (Nat.zero_add _).trans hlen
  have hless : ((framedOpen framingBlock none).firstCall data).length < peerBufferSize := by
    rw [hcalled]
    decide
  exact htakes _ hcall hcalled framingBlock rfl (if_pos hless)

end Websocksy

import Websocksy.Log
import Websocksy.Run

/-!
# What the peer buffer holds

The bytes received from the peer are the segments taken so far and what is in
`peer_buffer`, in this order (`PeerStream`).  In the framing loop the bytes not
yet framed are spread over `peer_buffer_offset` and `bytes_read`; the invariant
speaks of their sum, and of how many of them the last `recv` gave.
-/

namespace Websocksy

open Buffer CString

variable {φ : Type}

/-- The frames that segments are sent in; discarded segments are not sent. -/
def framesSent (segs : List (WsOperation × Bytes)) : Bytes :=
  segs.flatMap fun p => if p.1 = .discard then [] else wsEncode p.1 p.2

/-- The bytes of segments. -/
def segmentBytes (segs : List (WsOperation × Bytes)) : Bytes := segs.flatMap (·.2)

/-- Of the last `length` bytes received from the socket, how many came with the last `recv`. -/
def lastRead (x length : Nat) (log : List Event) : Nat :=
  min ((recvs x log).getLastD []).length length

/-- The stream from the peer socket `x` to the client socket `y`, which was written
`head` before: what of it is framed, and `rest`, what is not. -/
structure PeerStream (x y conn : Nat) (head rest : Bytes) (log : List Event) : Prop where
  bytes : received x log = segmentBytes (segments conn log) ++ rest
  sent : written y log = head ++ framesSent (segments conn log)
  /-- the framing function was called on the bytes not framed, and told how many of
  them are new -/
  calls : ∀ log' data n, log' ++ [.framing conn data n] <+: log →
    received x log' = segmentBytes (segments conn log') ++ data ∧ n = lastRead x data.length log'

/-- A connection whose peer has the socket `x` and whose client has the socket `y`. -/
structure Peered (f : WsFraming φ) (x y : Nat) (s : Conn φ) : Prop where
  framing : s.ws.peer.framing = some f
  peer : s.world.sockAt s.ws.peerFd = some x
  client : s.world.sockAt s.ws.wsFd = some y

/-- The values of a framing function with this configuration are between 0 and `length`, in calls
as `ws_peer_data` makes them: on data of which `lastRead` bytes are new. -/
def Framing.Bounded (f : WsFraming φ) (config : Option Bytes) : Prop :=
  ∀ buffer length lastRead opcode framingData, lastRead ≤ length →
    0 ≤ (f (some buffer) length lastRead (some opcode) framingData config).1 ∧
    (f (some buffer) length lastRead (some opcode) framingData config).1 ≤ length

section

variable {env : Env φ} {f : WsFraming φ} {x y conn : Nat} {head rest : Bytes} {s : Conn φ}
  {log : List Event}

/-! ## One pass of the framing loop -/

/-- The framing function is called. -/
theorem PeerStream.framing {n : Nat} (h : PeerStream x y conn head rest log)
    (hn : n = lastRead x rest.length log) :
    PeerStream x y conn head rest (log ++ [.framing conn rest n]) := by
  refine ⟨?_, ?_, fun log' data m hp => ?_⟩
  · rw [received_append, segments_append, h.bytes]
    simp [received, recvs, segments]
  · rw [written_append, segments_append, h.sent]
    simp [written, segments]
  · rcases List.prefix_concat_iff.mp hp with he | hp
    · obtain ⟨rfl, hlast⟩ := List.append_inj' he rfl
      rw [List.cons.injEq, Event.framing.injEq] at hlast
      obtain ⟨⟨-, rfl, rfl⟩, -⟩ := hlast
      exact ⟨h.bytes, hn⟩
    · exact h.calls log' data m hp

/-- A segment is taken from the front of the bytes not framed, and sent in the pieces `ds`. -/
theorem PeerStream.segment {op : WsOperation} {seg : Bytes} {ds : List Bytes}
    (h : PeerStream x y conn head (seg ++ rest) log)
    (hd : ds.flatten = if op = .discard then [] else wsEncode op seg) :
    PeerStream x y conn head rest (log ++ ds.map (.wrote y) ++ [.segment conn op seg]) := by
  have hquiet : ∀ {e : Event}, e ∈ ds.map (Event.wrote y) ++ [Event.segment conn op seg] →
      ∀ data n, e ≠ .framing conn data n := by
    intro e he data n
    rcases List.mem_append.mp he with he | he
    · obtain ⟨d, -, rfl⟩ := List.mem_map.mp he
      exact fun e => by cases e
    · rw [List.mem_singleton.mp he]
      exact fun e => by cases e
  have hrecvs : recvs x (ds.map (Event.wrote y)) = [] := by
    simp [recvs, List.flatMap_map]
  have hsegs : segments conn (ds.map (Event.wrote y)) = [] := by
    simp [segments, List.flatMap_map]
  rw [List.append_assoc]
  refine ⟨?_, ?_, fun log' data m hp => h.calls log' data m
    (prefix_of_notMem hp fun hm => hquiet hm data m rfl)⟩
  · have := h.bytes
    unfold received segmentBytes at this
    unfold received segmentBytes
    simp only [recvs_append, segments_append, hrecvs, hsegs]
    rw [show recvs x [Event.segment conn op seg] = [] from rfl,
      show segments conn [Event.segment conn op seg] = [(op, seg)] by simp [segments]]
    simp [this]
  · rw [written_append, written_append, segments_append, segments_append, hsegs, written_wrote, hd,
      h.sent]
    simp [written, segments, framesSent]

/-- Where no send to the client fails, a segment is sent and taken. -/
theorem wsForward_sends (hsend : ∀ k, env.send y k ≠ none) (op : WsOperation) (seg : Bytes)
    (h : s.world.sockAt s.ws.wsFd = some y) :
    ∃ ds : List Bytes, ds.flatten = (if op = .discard then [] else wsEncode op seg) ∧
      wsForward env op seg s =
        (false, ⟨s.ws, (s.world.wrote y ds).record (.segment s.ws.conn op seg)⟩) := by
  unfold wsForward
  by_cases hop : op = .discard
  · exact ⟨[], by simp [hop], by simp [hop]⟩
  · obtain ⟨hb, ds, hd, hw⟩ := (wsSendFrame_sent env op seg h).whole_of hsend
    refine ⟨ds, by simp [hop, hd], ?_⟩
    simp [hop, hb, hw]

/-- What is moved to the front of the buffer is what follows the segment. -/
theorem slice_segment (b : Bytes) {length : Nat} (framed : Nat) (h : framed ≤ length) :
    slice b 0 length = slice b 0 framed ++
      slice (moveDown b framed (length - framed)) 0 (length - framed) := by
  rw [slice_moveDown]
  conv => lhs; rw [show length = framed + (length - framed) by omega, slice_add, Nat.zero_add]

/-- What holds of the connection between two calls of the framing function. -/
structure InFraming (f : WsFraming φ) (x y : Nat) (head : Bytes) (conn bytesRead : Nat)
    (s : Conn φ) : Prop where
  peered : Peered f x y s
  bounded : Framing.Bounded f s.ws.peer.framingConfig
  number : s.ws.conn = conn
  stream : PeerStream x y conn head (slice s.ws.peerBuffer 0 (s.ws.peerBufferOffset + bytesRead))
    s.world.log
  last : bytesRead = lastRead x (s.ws.peerBufferOffset + bytesRead) s.world.log

/-- What holds when the framing loop is left. -/
structure AtRest (f : WsFraming φ) (x y : Nat) (head : Bytes) (conn : Nat) (s : Conn φ) : Prop where
  peered : Peered f x y s
  bounded : Framing.Bounded f s.ws.peer.framingConfig
  number : s.ws.conn = conn
  stream : PeerStream x y conn head (slice s.ws.peerBuffer 0 s.ws.peerBufferOffset) s.world.log

/-- One pass after a result between 0 and `length`: the loop is left, or fewer bytes are
left to frame. -/
theorem wsFramed_stream (hsend : ∀ k, env.send y k ≠ none) {n : Int} (op : WsOperation)
    {bytesRead : Nat} (h : InFraming f x y head conn bytesRead s) (hn : 0 ≤ n)
    (hle : n ≤ (s.ws.peerBufferOffset + bytesRead : Nat)) :
    match wsFramed env n op bytesRead s with
    | .done rv t => rv = false ∧ AtRest f x y head conn t ∧
      t.ws.peerBufferOffset ≤ s.ws.peerBufferOffset + bytesRead
    | .again _ m t => InFraming f x y head conn m t ∧
      t.ws.peerBufferOffset + m < s.ws.peerBufferOffset + bytesRead := by
  obtain ⟨hp, hb, rfl, hstream, hlast⟩ := h
  unfold wsFramed
  dsimp only
  by_cases hpos : 0 < n
  · obtain ⟨framed, rfl⟩ : ∃ k : Nat, n = k := ⟨n.toNat, by omega⟩
    rw [slice_segment _ framed (by omega)] at hstream
    obtain ⟨ds, hd, hforward⟩ := wsForward_sends hsend op (slice s.ws.peerBuffer 0 framed) hp.client
    have hrest := hstream.segment hd
    have hrecvs : recvs x (s.world.log ++ ds.map (.wrote y) ++
        [.segment s.ws.conn op (slice s.ws.peerBuffer 0 framed)]) = recvs x s.world.log := by
      simp [recvs, List.flatMap_map]
    unfold lastRead at hlast
    rw [if_pos hpos, Int.toNat_natCast, if_neg (by omega), hforward]
    simp only [Bool.false_eq_true, if_false]
    generalize moveDown s.ws.peerBuffer framed
      (s.ws.peerBufferOffset + bytesRead - framed) = b at hrest ⊢
    have hpeered : ∀ k, Peered f x y ⟨{ s.ws with peerBuffer := b, peerBufferOffset := k },
        (s.world.wrote y ds).record (.segment s.ws.conn op (slice s.ws.peerBuffer 0 framed))⟩ :=
      fun k => ⟨hp.framing, hp.peer, hp.client⟩
    by_cases hbefore : framed < s.ws.peerBufferOffset
    · simp only [if_pos hbefore]
      refine ⟨⟨hpeered _, hb, rfl, ?_, ?_⟩, by omega⟩
      · dsimp only
        rw [show s.ws.peerBufferOffset - framed + bytesRead =
          s.ws.peerBufferOffset + bytesRead - framed by omega]
        exact hrest
      · dsimp only [World.record_log, World.wrote_log, lastRead]
        rw [hrecvs]
        omega
    · simp only [if_neg hbefore]
      have htotal : bytesRead - (framed - s.ws.peerBufferOffset) =
          s.ws.peerBufferOffset + bytesRead - framed := by omega
      split
      · next rv t heq =>
        split at heq
        · cases heq
        · cases heq
          refine ⟨rfl, ⟨hpeered _, hb, rfl, ?_⟩, by dsimp only; omega⟩
          dsimp only
          rw [htotal]
          exact hrest
      · next op' m t heq =>
        split at heq
        · cases heq
          refine ⟨⟨hpeered _, hb, rfl, ?_, ?_⟩, by dsimp only; omega⟩
          · dsimp only
            rw [htotal, Nat.zero_add]
            exact hrest
          · dsimp only [World.record_log, World.wrote_log, lastRead]
            rw [hrecvs]
            omega
        · cases heq
  · rw [if_neg hpos, if_neg (by omega)]
    exact ⟨rfl, ⟨⟨hp.framing, hp.peer, hp.client⟩, hb, rfl, hstream⟩, Nat.le_refl _⟩

/-! ## Calls of `ws_peer_data` -/

/-- **The framing loop** comes to its end, and keeps the stream. -/
theorem wsFraming_stream (hsend : ∀ k, env.send y k ≠ none) (fuel : Nat)
    (op : WsOperation) {bytesRead : Nat} (h : InFraming f x y head conn bytesRead s)
    (hfuel : s.ws.peerBufferOffset + bytesRead < fuel) :
    ∃ t, wsFraming env fuel op bytesRead s = some (false, t) ∧ AtRest f x y head conn t ∧
      t.ws.peerBufferOffset ≤ s.ws.peerBufferOffset + bytesRead := by
  induction fuel generalizing s op bytesRead with
  | zero => omega
  | succ fuel ih =>
      unfold wsFraming
      rw [h.peered.framing]
      dsimp only
      obtain ⟨hge, hle⟩ := h.bounded s.ws.peerBuffer (s.ws.peerBufferOffset + bytesRead) bytesRead
        op s.ws.peerFramingData (Nat.le_add_left _ _)
      generalize f (some s.ws.peerBuffer) (s.ws.peerBufferOffset + bytesRead) bytesRead (some op)
        s.ws.peerFramingData s.ws.peer.framingConfig = r at hge hle
      have hcalled : InFraming f x y head conn bytesRead (framingCalled bytesRead r.2.2 s) := by
        obtain ⟨hp, hb, rfl, hstream, hlast⟩ := h
        refine ⟨⟨hp.framing, hp.peer, hp.client⟩, hb, rfl, ?_, ?_⟩
        · unfold framingCalled
          exact hstream.framing (by rw [length_slice]; exact hlast)
        · unfold framingCalled lastRead
          dsimp only [World.record_log]
          rw [recvs_append]
          unfold lastRead at hlast
          simpa [recvs] using hlast
      have hpass := wsFramed_stream hsend (r.2.1.getD op) hcalled hge hle
      split
      · next rv t heq =>
        rw [heq] at hpass
        obtain ⟨rfl, hrest, hoff⟩ := hpass
        exact ⟨t, rfl, hrest, hoff⟩
      · next op' m t heq =>
        rw [heq] at hpass
        obtain ⟨hin, hless⟩ := hpass
        have hoff : (framingCalled bytesRead r.2.2 s).ws.peerBufferOffset = s.ws.peerBufferOffset :=
          rfl
        rw [hoff] at hless
        obtain ⟨u, hu, hrest, hle⟩ := ih op' hin (by omega)
        exact ⟨u, hu, hrest, by omega⟩

/-- One call of `ws_peer_data` that receives something. -/
theorem wsPeerData_stream (hsend : ∀ k, env.send y k ≠ none) {fuel : Nat}
    (hfuel : peerBufferSize ≤ fuel) {b : Bytes} (h : AtRest f x y head conn s)
    (hb : b.take (peerBufferSize - s.ws.peerBufferOffset - 1) ≠ [])
    (hoff : s.ws.peerBufferOffset ≤ peerBufferSize - 1) :
    ∃ t, wsPeerData env fuel (some b) s = some (false, t) ∧ AtRest f x y head conn t ∧
      t.ws.peerBufferOffset ≤ peerBufferSize - 1 := by
  obtain ⟨hp, hbounded, rfl, hstream⟩ := h
  obtain ⟨data, hdata⟩ : ∃ data, data = b.take (peerBufferSize - s.ws.peerBufferOffset - 1) :=
    ⟨_, rfl⟩
  have hlen : data.length ≤ peerBufferSize - s.ws.peerBufferOffset - 1 := by
    rw [hdata, List.length_take]
    omega
  have hsize : peerBufferSize = 16384 := rfl
  have hrecv : recv s.ws.peerFd (peerBufferSize - s.ws.peerBufferOffset - 1) (some b) s.world =
      (some data, s.world.record (.received x data)) := by
    unfold recv
    rw [hp.peer, hdata]
  rw [← hdata] at hb
  -- the received bytes follow what was in the buffer
  have hbuffer : slice (write s.ws.peerBuffer s.ws.peerBufferOffset (data ++ [0])) 0
      (s.ws.peerBufferOffset + data.length) =
        slice s.ws.peerBuffer 0 s.ws.peerBufferOffset ++ data := by
    have := slice_write_same s.ws.peerBuffer s.ws.peerBufferOffset (data ++ [0])
    rw [List.length_append, slice_add] at this
    rw [slice_add, slice_write_below _ _ _ _ _ (by omega), Nat.zero_add,
      (List.append_inj this (by simp)).1]
  have hin : InFraming f x y head s.ws.conn data.length
      ⟨{ s.ws with peerBuffer := write s.ws.peerBuffer s.ws.peerBufferOffset (data ++ [0]) },
        s.world.record (.received x data)⟩ := by
    refine ⟨⟨hp.framing, hp.peer, hp.client⟩, hbounded, rfl,
      ⟨?_, ?_, fun log' d n hpre => ?_⟩, ?_⟩
    · rw [World.record_log, received_append, segments_append, hstream.bytes, hbuffer]
      simp [received, recvs, segments]
    · rw [World.record_log, written_append, segments_append, hstream.sent]
      simp [written, segments]
    · exact hstream.calls log' d n (prefix_of_notMem hpre (by simp))
    · unfold lastRead
      simp [recvs]
  obtain ⟨t, ht, hrest, hle⟩ := wsFraming_stream hsend fuel .binary hin (by dsimp only; omega)
  refine ⟨t, ?_, hrest, by dsimp only at hle; omega⟩
  unfold wsPeerData
  rw [hrecv]
  cases hd : data with
  | nil => exact absurd hd hb
  | cons z zs =>
      rw [hd] at ht
      exact ht

/-- Calls of `ws_peer_data` on one connection, each with what its `recv` gives. -/
def peerCalls (env : Env φ) (fuel : Nat) (start : Conn φ) : Machine (Conn φ) Bytes where
  init s := s = start
  step b s := (wsPeerData env fuel (some b) s).map (·.2)

/-- The `recv` of the call gives bytes. -/
def PeerReads (s : Conn φ) (b : Bytes) : Prop :=
  b.take (peerBufferSize - s.ws.peerBufferOffset - 1) ≠ []

/-- A connection from whose peer nothing came yet. -/
structure FreshPeer (f : WsFraming φ) (x y : Nat) (s : Conn φ) : Prop extends Peered f x y s where
  offset : s.ws.peerBufferOffset = 0
  recvs : recvs x s.world.log = []
  segments : segments s.ws.conn s.world.log = []
  calls : ∀ data n, .framing s.ws.conn data n ∉ s.world.log

/-- **The peer's stream is conserved**: every call returns, and after it the segments
taken so far and what is in the buffer are the bytes received; each call of the
framing function was made on the bytes not framed, with the number of those that
came with the last `recv`; and the client was sent the segments' frames. -/
theorem peer_stream_conserved (env : Env φ) (fuel : Nat) (hfuel : peerBufferSize ≤ fuel)
    (f : WsFraming φ) (x y : Nat) (hsend : ∀ k, env.send y k ≠ none) (start : Conn φ)
    (hf : Framing.Bounded f start.ws.peer.framingConfig) (hstart : FreshPeer f x y start) (s : Conn φ)
    (h : (peerCalls env fuel start).Reach PeerReads s) :
    PeerStream x y start.ws.conn (written y start.world.log)
      (slice s.ws.peerBuffer 0 s.ws.peerBufferOffset) s.world.log ∧
    ∀ b, PeerReads s b → ∃ t, wsPeerData env fuel (some b) s = some (false, t) := by
  have hinv : AtRest f x y (written y start.world.log) start.ws.conn s ∧
      s.ws.peerBufferOffset ≤ peerBufferSize - 1 := by
    refine h.invariant (P := fun s => AtRest f x y (written y start.world.log) start.ws.conn s ∧
      s.ws.peerBufferOffset ≤ peerBufferSize - 1) ?_ ?_
    · rintro s rfl
      refine ⟨⟨hstart.toPeered, hf, rfl, ?_, ?_, fun log' data n hp => ?_⟩, ?_⟩
      · rw [received, hstart.recvs, hstart.segments, hstart.offset]
        rfl
      · rw [hstart.segments]
        simp [framesSent]
      · exact absurd (hp.subset (by simp)) (hstart.calls data n)
      · rw [hstart.offset]
        exact Nat.zero_le _
    · rintro s b t - ⟨hs, hoff⟩ hb hstep
      obtain ⟨u, hu, hrest, hle⟩ := wsPeerData_stream hsend hfuel hs hb hoff
      simp only [peerCalls, hu, Option.map_some, Option.some.injEq] at hstep
      exact hstep ▸ ⟨hrest, hle⟩
  refine ⟨hinv.1.stream, fun b hb => ?_⟩
  obtain ⟨t, ht, -⟩ := wsPeerData_stream hsend hfuel hinv.1 hb hinv.2
  exact ⟨t, ht⟩

end

theorem framingAuto_bounded (config : Option Bytes) :
    Framing.Bounded (framingAuto : WsFraming φ) config :=
  fun _ _ _ _ _ _ => ⟨Int.natCast_nonneg _, Int.le_refl _⟩

theorem sampleOpen_freshPeer : FreshPeer framingAuto 5 4 sampleOpen :=
  { framing := rfl, peer := rfl, client := rfl, offset := rfl, recvs := rfl, segments := rfl
    calls := fun _ _ h => by cases h }

instance (s : Conn φ) (b : Bytes) : Decidable (PeerReads s b) := inferInstanceAs (Decidable (_ ≠ _))

/-- Two reads from the peer. -/
def sampleReads : List Bytes := [ascii "hel", ascii "lo"]

theorem sampleReads_run :
    ((peerCalls sampleEnv peerBufferSize sampleOpen).exec sampleReads sampleOpen).isSome := by decide

theorem peer_stream_conserved_sample :
    let s := ((peerCalls sampleEnv peerBufferSize sampleOpen).exec sampleReads sampleOpen).get
      sampleReads_run
    received 5 s.world.log = ascii "hello" ∧
    PeerStream 5 4 0 [] (slice s.ws.peerBuffer 0 s.ws.peerBufferOffset) s.world.log :=
  ⟨by decide, (peer_stream_conserved sampleEnv peerBufferSize (Nat.le_refl _) framingAuto 5 4
    (fun _ => by simp [sampleEnv]) sampleOpen (framingAuto_bounded _) sampleOpen_freshPeer _
    (.exec (.init rfl) sampleReads (by decide) (Option.some_get sampleReads_run).symm)).1⟩

end Websocksy

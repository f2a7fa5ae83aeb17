import Websocksy.FramingCalls

/-!
# What a read from the peer comes to

`Framed` says which segments a call of the framing function and the calls after it take,
and what they leave: a matter of the buffer and the framing function alone.
Where no send fails, the loop of `ws_peer_data` does what `Framed` says (`wsFraming_framed`),
and so does a whole call of it (`wsPeerData_framed`).
-/

namespace Websocksy

open Buffer CString

variable {φ : Type}

/-- From the call `c` on, the segments are taken and the bytes of `rest` are left. -/
inductive FramingCall.Framed (f : WsFraming φ) (config : Option Bytes) :
    FramingCall φ → List (WsOperation × Bytes) → FramingCall φ → Prop
  | declined (c rest : FramingCall φ) (h : c.take f config = .declined rest) :
      Framed f config c [] rest
  | last (c : FramingCall φ) (op : WsOperation) (seg : Bytes) (rest : FramingCall φ)
      (h : c.take f config = .segment op seg rest false) : Framed f config c [(op, seg)] rest
  | again (c : FramingCall φ) (op : WsOperation) (seg : Bytes) (next : FramingCall φ)
      (segs : List (WsOperation × Bytes)) (rest : FramingCall φ)
      (h : c.take f config = .segment op seg next true) (hrest : Framed f config next segs rest) :
      Framed f config c ((op, seg) :: segs) rest

/-- What reads do to the connection: segments are taken and sent, and the bytes of `rest` stay
in the buffer. -/
structure PeerRead (f : WsFraming φ) (x y : Nat) (reads : List Bytes) (segs : List (WsOperation × Bytes))
    (rest : FramingCall φ) (s t : Conn φ) : Prop where
  peered : Peered f x y t
  conn : t.ws.conn = s.ws.conn
  peer : t.ws.peer = s.ws.peer
  recvs : recvs x t.world.log = recvs x s.world.log ++ reads
  segments : segments s.ws.conn t.world.log = segments s.ws.conn s.world.log ++ segs
  written : written y t.world.log = written y s.world.log ++ framesSent segs
  buffer : t.ws.peerBuffer = rest.buffer
  offset : t.ws.peerBufferOffset = rest.length
  framingData : t.ws.peerFramingData = rest.framingData

section

variable {env : Env φ} {f : WsFraming φ} {config : Option Bytes} {c rest : FramingCall φ}
  {x y : Nat} {s t : Conn φ} {segs : List (WsOperation × Bytes)}

/-- Nothing is lost or reordered. -/
theorem FramingCall.Framed.live (h : c.Framed f config segs rest) :
    c.live = segmentBytes segs ++ rest.live := by
  induction h with
  | declined c rest h =>
      rw [(FramingCall.take_declined h).2.2]
      rfl
  | last c op seg rest h =>
      obtain ⟨k, hk⟩ := FramingCall.take_segment h
      rw [hk.live]
      simp [segmentBytes]
  | again c op seg next segs rest h hrest ih =>
      obtain ⟨k, hk⟩ := FramingCall.take_segment h
      rw [hk.live, ih]
      simp [segmentBytes]

/-- Each segment has a byte at least. -/
theorem FramingCall.Framed.length_le (h : c.Framed f config segs rest) :
    segs.length + rest.length ≤ c.length := by
  induction h with
  | declined c rest h =>
      rw [(FramingCall.take_declined h).2.2]
      simp [FramingCall.length]
  | last c op seg rest h =>
      obtain ⟨k, hk⟩ := FramingCall.take_segment h
      have := hk.length
      have := hk.pos
      rw [List.length_singleton]
      omega
  | again c op seg next segs rest h hrest ih =>
      obtain ⟨k, hk⟩ := FramingCall.take_segment h
      have := hk.length
      have := hk.pos
      rw [List.length_cons]
      omega

theorem PeerRead.live {reads : List Bytes} (h : PeerRead f x y reads segs rest s t) :
    t.ws.peerLive = rest.live := by
  rw [Websocket.peerLive, h.buffer, h.offset]
  rfl

theorem PeerRead.received {reads : List Bytes} (h : PeerRead f x y reads segs rest s t) :
    received x t.world.log = received x s.world.log ++ reads.flatten := by
  rw [Websocksy.received, Websocksy.received, h.recvs, List.flatten_append]

theorem framesSent_cons (op : WsOperation) (seg : Bytes) (segs : List (WsOperation × Bytes)) :
    framesSent ((op, seg) :: segs) =
      (if op = .discard then [] else wsEncode op seg) ++ framesSent segs := by
  rw [framesSent, List.flatMap_cons]
  rfl

/-- Calls that follow each other. -/
theorem PeerRead.trans {reads reads' : List Bytes} {segs' : List (WsOperation × Bytes)}
    {rest' : FramingCall φ} {u : Conn φ} (h : PeerRead f x y reads segs rest s t)
    (h' : PeerRead f x y reads' segs' rest' t u) :
    PeerRead f x y (reads ++ reads') (segs ++ segs') rest' s u := by
  refine ⟨h'.peered, h'.conn.trans h.conn, h'.peer.trans h.peer, ?_, ?_, ?_, h'.buffer, h'.offset,
    h'.framingData⟩
  · rw [h'.recvs, h.recvs, List.append_assoc]
  · rw [← h.conn, h'.segments, h.conn, h.segments, List.append_assoc]
  · rw [h'.written, h.written]
    simp [framesSent]

/-- A segment is sent and taken. -/
theorem peerRead_taken (hsend : ∀ k, env.send y k ≠ none) (hp : Peered f x y s) (op : WsOperation)
    (seg : Bytes) {c : FramingCall φ}
    (hdata : rest.framingData = (c.answer f s.ws.peer.framingConfig).2.2) (offset : Nat) :
    ∃ w, wsForward env op seg (c.called f s) = (false, ⟨(c.called f s).ws, w⟩) ∧
      ∀ r : FramingCall φ, r.buffer = rest.buffer → r.length = offset →
        r.framingData = rest.framingData →
        PeerRead f x y [] [(op, seg)] r s (rest.put offset ⟨(c.called f s).ws, w⟩) := by
  obtain ⟨ds, hds, hforward⟩ := wsForward_sends (s := c.called f s) hsend op seg hp.client
  refine ⟨_, hforward, fun r hb hl hd => ⟨⟨hp.framing, hp.peer, hp.client⟩, rfl, rfl, ?_, ?_, ?_,
    hb.symm, hl.symm, ?_⟩⟩
  · simp [FramingCall.put, FramingCall.called, framingCalled, recvs, List.flatMap_map]
  · simp [FramingCall.put, FramingCall.called, framingCalled, segments, List.flatMap_map]
  · have hw := written_wrote y ds
    simp only [FramingCall.put, FramingCall.called, framingCalled, World.record_log,
      World.wrote_log, written_append, hw, hds, framesSent_cons]
    simp [written, framesSent]
  · rw [hd, hdata]
    rfl

/-- **Where no send fails, the loop does what `Framed` says.** -/
theorem wsFraming_framed (hsend : ∀ k, env.send y k ≠ none) (hp : Peered f x y s) (fuel : Nat)
    (op : WsOperation) (bytesRead : Nat) (hc : s.framingCall op bytesRead = c)
    (hfuel : c.length < fuel) (h : c.Framed f s.ws.peer.framingConfig segs rest) :
    ∃ t, wsFraming env fuel op bytesRead s = some (false, t) ∧ PeerRead f x y [] segs rest s t := by
  generalize hconfig : s.ws.peer.framingConfig = config at h
  induction h generalizing s fuel op bytesRead with
  | declined c rest h =>
      obtain ⟨fuel, rfl⟩ : ∃ n, fuel = n + 1 := ⟨fuel - 1, by omega⟩
      subst hc hconfig
      refine ⟨_, by rw [wsFraming_take env fuel op bytesRead hp.framing]; dsimp only; rw [h], ?_⟩
      have hrest := (FramingCall.take_declined h).2.2
      refine ⟨⟨hp.framing, hp.peer, hp.client⟩, rfl, rfl, ?_, ?_, ?_, rfl, rfl, ?_⟩
      · simp [FramingCall.put, framingCalled, recvs]
      · simp [FramingCall.put, framingCalled, segments]
      · simp [FramingCall.put, framingCalled, written, framesSent]
      · rw [hrest]
        rfl
  | last c o seg rest h =>
      obtain ⟨fuel, rfl⟩ : ∃ n, fuel = n + 1 := ⟨fuel - 1, by omega⟩
      subst hc hconfig
      obtain ⟨k, hk⟩ := FramingCall.take_segment h
      obtain ⟨w, hforward, hread⟩ := peerRead_taken hsend hp o seg hk.framingData
        rest.length
      refine ⟨_, ?_, hread rest rfl rfl rfl⟩
      rw [wsFraming_take env fuel op bytesRead hp.framing]
      dsimp only
      rw [h]
      dsimp only
      rw [show wsForward env o seg (framingCalled bytesRead
        ((s.framingCall op bytesRead).answer f s.ws.peer.framingConfig).2.2 s) = _ from hforward]
      rfl
  | again c o seg next segs rest h hrest ih =>
      obtain ⟨fuel, rfl⟩ : ∃ n, fuel = n + 1 := ⟨fuel - 1, by omega⟩
      subst hc hconfig
      obtain ⟨k, hk⟩ := FramingCall.take_segment h
      have hless := hk.length
      have hpos := hk.pos
      obtain ⟨w, hforward, hread⟩ := peerRead_taken hsend hp o seg hk.framingData
        next.offset
      have hstep := hread ⟨next.buffer, next.offset, 0, next.opcode, next.framingData⟩ rfl rfl rfl
      have hcall : (next.put next.offset ⟨((s.framingCall op bytesRead).called f s).ws, w⟩).framingCall
          next.opcode next.bytesRead = next :=
        congrArg (fun d => { next with framingData := d }) hk.framingData.symm
      obtain ⟨t, ht, hrun⟩ := ih hstep.peered fuel next.opcode next.bytesRead hcall (by omega) rfl
      refine ⟨t, ?_, by simpa using hstep.trans hrun⟩
      rw [wsFraming_take env fuel op bytesRead hp.framing]
      dsimp only
      rw [h]
      dsimp only
      rw [show wsForward env o seg (framingCalled bytesRead
        ((s.framingCall op bytesRead).answer f s.ws.peer.framingConfig).2.2 s) = _ from hforward]
      exact ht

/-- **Where no send fails, a call of `ws_peer_data` does what `Framed` says.** -/
theorem wsPeerData_framed (hsend : ∀ k, env.send y k ≠ none) (hp : Peered f x y s) (fuel : Nat)
    {b data : Bytes} (hd : b.take (peerBufferSize - s.ws.peerBufferOffset - 1) = data)
    (hne : data ≠ []) (hfuel : s.ws.peerBufferOffset + data.length < fuel)
    (h : (s.firstCall data).Framed f s.ws.peer.framingConfig segs rest) :
    ∃ t, wsPeerData env fuel (some b) s = some (false, t) ∧
      PeerRead f x y [data] segs rest s t := by
  obtain ⟨t, ht, hread⟩ := wsFraming_framed (s := s.peerReceived x data) hsend
    ⟨hp.framing, hp.peer, hp.client⟩ fuel .binary data.length (c := s.firstCall data) rfl hfuel h
  refine ⟨t, (wsPeerData_received env fuel hp.peer hd hne).trans ht, ?_⟩
  refine ⟨hread.peered, hread.conn, hread.peer, ?_, ?_, ?_, hread.buffer, hread.offset,
    hread.framingData⟩
  · rw [hread.recvs, Conn.peerReceived, World.record_log, recvs_append]
    simp [recvs]
  · refine hread.segments.trans ?_
    rw [Conn.peerReceived, World.record_log, segments_append]
    simp [segments]
  · rw [hread.written, Conn.peerReceived, World.record_log, written_append]
    simp [written]

end

end Websocksy

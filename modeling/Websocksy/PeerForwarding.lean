import Websocksy.ClientStream

/-!
# From the peer to the client

In every run the bytes from the peer of a connection are the segments that were taken and what is
in `peer_buffer`, and the client was sent whole messages: the frames of the segments, each once and
in their order, and what is never sent for a segment (`peer_stream_framed`).  This is so up to a send
to the client that fails: `ws_peer_data` then loses what the last `recv` gave.

Only data from the peer itself adds bytes, segments and frames of segments to what the invariant of a
connection (`Segmented`) reads; `ws_data` opens peers, from which nothing came yet, and sends
responses, pongs and close frames.
-/

namespace Websocksy

open Buffer CString Lines FdTable

variable {φ : Type}

/-! ## The stream -/

/-- All bytes received from peers of the connection. -/
def fromPeers (conn : Nat) (log : List Event) : Bytes :=
  log.flatMap fun
    | .received x data => if .opened conn x ∈ log then data else []
    | _ => []

/-- The frames that the segments are sent in, by opcode and payload. -/
def dataFrames (segs : List (WsOperation × Bytes)) : List (WsOperation × Bytes) :=
  segs.filter fun p => p.1 ≠ .discard

def controlOpcodes : List WsOperation := [.close, .ping, .pong]

/-- The message is not sent for a segment: a response of the HTTP phase or a part of one, a close
frame, a ping or a pong. -/
def Message.Own (env : Env φ) : Message → Prop
  | .text b => Message.Proper env (.text b)
  | .frame op _ => op ∈ controlOpcodes

/-- The opcode and the payload of a data frame. -/
def Message.dataFrame? : Message → Option (WsOperation × Bytes)
  | .frame op payload => if op ∈ controlOpcodes then none else some (op, payload)
  | .text _ => none

/-- The messages are the frames `fs`, each once and in their order, and between them messages that are
sent for no segment. -/
inductive Woven (env : Env φ) : List (WsOperation × Bytes) → List Message → Prop
  | nil : Woven env [] []
  | own {fs : List (WsOperation × Bytes)} {ms : List Message} (m : Message) (hm : m.Own env)
      (h : Woven env fs ms) : Woven env fs (ms ++ [m])
  | frame {fs : List (WsOperation × Bytes)} {ms : List Message} (op : WsOperation) (payload : Bytes)
      (h : Woven env fs ms) : Woven env (fs ++ [(op, payload)]) (ms ++ [.frame op payload])

/-- The peers sent the segments and then `rest`; the client `y` was sent the frames of the
segments, and nothing else that is sent for a segment. -/
structure Segmented (env : Env φ) (conn y : Nat) (rest : Bytes) (log : List Event) : Prop where
  bytes : fromPeers conn log = segmentBytes (segments conn log) ++ rest
  frames : ∃ ms, Spoken y (sends y log) ms ∧ Woven env (dataFrames (segments conn log)) ms

section

variable {env : Env φ} {fs : List (WsOperation × Bytes)} {ms ns : List Message}

theorem Woven.owns (h : Woven env fs ms) (hn : ∀ m ∈ ns, m.Own env) : Woven env fs (ms ++ ns) := by
  induction ns generalizing ms with
  | nil =>
      rw [List.append_nil]
      exact h
  | cons n ns ih =>
      rw [List.append_cons]
      exact ih (h.own n (hn n List.mem_cons_self)) fun m hm => hn m (List.mem_cons_of_mem _ hm)

/-- Where no segment is sent as a control frame, the data frames of the messages are those of the
segments. -/
theorem Woven.dataFrames (h : Woven env fs ms) (hf : ∀ p ∈ fs, p.1 ∉ controlOpcodes) :
    ms.filterMap Message.dataFrame? = fs := by
  induction h with
  | nil => rfl
  | own m hm h ih =>
      have hnone : m.dataFrame? = none := by
        cases m with
        | text b => rfl
        | frame op payload => exact if_pos hm
      rw [List.filterMap_append, ih hf]
      simp [hnone]
  | frame op payload h ih =>
      have hsome : (Message.frame op payload).dataFrame? = some (op, payload) :=
        if_neg (hf (op, payload) (by simp))
      rw [List.filterMap_append, ih fun p hp => hf p (List.mem_append_left _ hp)]
      simp [hsome]

end

section

variable {env : Env φ} {conn x y : Nat} {rest seg d : Bytes} {l es : List Event} {op : WsOperation}

/-- What peers that are opened later have sent is new. -/
theorem fromPeers_append
    (h : ∀ x d, .received x d ∈ l → .opened conn x ∈ es → .opened conn x ∈ l) :
    fromPeers conn (l ++ es) = fromPeers conn l ++ es.flatMap fun
      | .received x data => if .opened conn x ∈ l ++ es then data else []
      | _ => [] := by
  unfold fromPeers
  rw [List.flatMap_append]
  congr 1
  apply List.flatMap_congr
  intro e hm
  cases e with
  | received x d =>
      have hiff : .opened conn x ∈ l ++ es ↔ .opened conn x ∈ l := by
        rw [List.mem_append]
        exact ⟨fun ho => ho.elim id (h x d hm), .inl⟩
      simp only [hiff]
  | _ => rfl

theorem fromPeers_silent
    (h : ∀ x d, .received x d ∈ l → .opened conn x ∈ es → .opened conn x ∈ l)
    (hs : ∀ x d, .received x d ∈ es → .opened conn x ∉ l ++ es) :
    fromPeers conn (l ++ es) = fromPeers conn l := by
  rw [fromPeers_append h, List.flatMap_eq_nil_iff.mpr, List.append_nil]
  intro e hm
  cases e with
  | received x d => exact if_neg (hs x d hm)
  | _ => rfl

/-- What the client is sent for no segment. -/
theorem Segmented.grows {K : Event → Prop} {w w' : World} (h : Segmented env conn y rest w.log)
    (hg : Grows K w w') (hsaid : Said (Message.Own env) y w.log w'.log)
    (hsegment : ∀ op d, ¬K (.segment conn op d))
    (hreceived : ∀ x d, K (.received x d) → .opened conn x ∉ w'.log)
    (hopened : ∀ x d, .received x d ∈ w.log → .opened conn x ∈ w'.log → .opened conn x ∈ w.log) :
    Segmented env conn y rest w'.log := by
  have hsegs : segments conn w'.log = segments conn w.log := hg.segments hsegment
  constructor
  · obtain ⟨es, he, hes⟩ := hg
    have hsame : fromPeers conn w'.log = fromPeers conn w.log := by
      rw [he]
      apply fromPeers_silent
      · intro x d hm hn
        apply hopened x d hm
        rw [he]
        exact List.mem_append_right _ hn
      · intro x d hm
        rw [← he]
        exact hreceived x d (hes _ hm)
    rw [hsame, hsegs]
    exact h.bytes
  · obtain ⟨ms, hspoken, hwoven⟩ := h.frames
    obtain ⟨ns, ⟨es, he, hes⟩, hn⟩ := hsaid
    refine ⟨ms ++ ns, ?_, ?_⟩
    · rw [he, sends_append]
      exact hspoken.append hes
    · rw [hsegs]
      exact hwoven.owns hn

/-- What does not touch the stream. -/
def Event.Quiet : Event → Prop
  | .segment _ _ _ | .received _ _ | .opened _ _ => False
  | _ => True

theorem Segmented.quiet {w w' : World} (h : Segmented env conn y rest w.log)
    (hg : Grows Event.Quiet w w') (hsaid : Said (Message.Own env) y w.log w'.log) :
    Segmented env conn y rest w'.log :=
  h.grows hg hsaid (fun _ _ => id) (fun _ _ hn => hn.elim) fun _ _ _ hm => (hg.mem_iff id).mp hm

/-- An entry of the log that is about neither. -/
theorem Segmented.record {w : World} (h : Segmented env conn y rest w.log) (e : Event)
    (hq : e.Quiet) (hs : e.sendsTo y = false) : Segmented env conn y rest (w.record e).log :=
  h.quiet (.record hq w) (.quiet (World.record_log _ _) (by simp [hs]))

/-- The peer sends something. -/
theorem Segmented.received (h : Segmented env conn y rest l) (hx : .opened conn x ∈ l) (d : Bytes) :
    Segmented env conn y (rest ++ d) (l ++ [.received x d]) := by
  have hsegs : segments conn (l ++ [.received x d]) = segments conn l := by simp [segments]
  constructor
  · have hgrown : fromPeers conn (l ++ [.received x d]) = fromPeers conn l ++ d := by
      rw [fromPeers_append (by simp)]
      simp [hx]
    rw [hgrown, hsegs, h.bytes, List.append_assoc]
  · have hsends : sends y (l ++ [.received x d]) = sends y l := by simp [sends, Event.sendsTo]
    rw [hsends, hsegs]
    exact h.frames

/-- A segment is taken, and sent in the pieces `ds`. -/
theorem Segmented.segment {ds : List Bytes} (h : Segmented env conn y (seg ++ rest) l)
    (hd : if op = .discard then ds = [] else ds.flatten = wsEncode op seg) :
    Segmented env conn y rest (l ++ ds.map (.wrote y) ++ [.segment conn op seg]) := by
  have hsegs : segments conn (l ++ ds.map (.wrote y) ++ [.segment conn op seg]) =
      segments conn l ++ [(op, seg)] := by
    have hquiet : segments conn (ds.map (Event.wrote y)) = [] := by
      simp [segments, List.flatMap_map]
    rw [segments_append, segments_append, hquiet, List.append_nil]
    simp [segments]
  have hsends : sends y (l ++ ds.map (.wrote y) ++ [.segment conn op seg]) =
      sends y l ++ ds.map (.wrote y) := by
    have hnote : sends y [.segment conn op seg] = [] := rfl
    rw [sends_append, sends_append, sends_wrote, hnote, List.append_nil]
  have hpeers : fromPeers conn (l ++ ds.map (.wrote y) ++ [.segment conn op seg]) =
      fromPeers conn l := by
    rw [List.append_assoc]
    apply fromPeers_silent <;> simp
  constructor
  · rw [hpeers, hsegs, h.bytes]
    simp [segmentBytes]
  · obtain ⟨ms, hspoken, hwoven⟩ := h.frames
    rw [hsends, hsegs]
    by_cases hop : op = .discard
    · rw [if_pos hop] at hd
      have hsame : dataFrames (segments conn l ++ [(op, seg)]) = dataFrames (segments conn l) := by
        simp [dataFrames, List.filter_append, hop]
      refine ⟨ms, ?_, ?_⟩
      · rw [hd, List.map_nil, List.append_nil]
        exact hspoken
      · rw [hsame]
        exact hwoven
    · rw [if_neg hop] at hd
      have hmore : dataFrames (segments conn l ++ [(op, seg)]) =
          dataFrames (segments conn l) ++ [(op, seg)] := by
        simp [dataFrames, List.filter_append, hop]
      refine ⟨ms ++ [.frame op seg], ?_, ?_⟩
      · have hframe : Spoken y (ds.map (.wrote y)) [.frame op seg] := by
          rw [← List.append_nil (ds.map (Event.wrote y))]
          exact .whole _ ds hd .nil
        exact hspoken.append hframe
      · rw [hmore]
        exact hwoven.frame op seg

end

/-! ## What is sent for no segment -/

/-- The frames that answer the client or keep it alive. -/
def Scope.replies : Scope :=
  { Scope.all with opcode := fun op => op ∈ [WsOperation.ping, .pong], opcode_own := fun _ h => h }

section

variable {env : Env φ} {s t : Conn φ} {y : Nat}

theorem closeMessages_own {ws : Websocket φ} {code : WsCloseReason} {reason : Option Bytes}
    (hhttp : code = .http → ∀ r, reason = some r → r ∈ httpErrors) :
    ∀ m ∈ closeMessages ws code reason, m.Own env := by
  by_cases hopen : ws.state = .wsOpen
  · unfold closeMessages
    cases reason with
    | none => simp
    | some r => simp [hopen, Message.Own, controlOpcodes]
  · have hproper : ∀ m ∈ closeMessages ws code reason, m.Proper env :=
      closeMessages_proper (fun h => absurd h hopen) hhttp
    intro m hm
    cases m with
    | text b => exact hproper _ hm
    | frame op payload =>
        -- only an open connection is sent a frame
        unfold closeMessages at hm
        cases reason with
        | none => cases hm
        | some r =>
            dsimp only at hm
            rw [if_neg hopen] at hm
            split at hm <;> simp at hm

theorem wsClose_own (code : WsCloseReason) (reason : Option Bytes)
    (hhttp : code = .http → ∀ r, reason = some r → r ∈ httpErrors) :
    Said (Message.Own env) y s.world.log (wsClose env code reason s).world.log :=
  wsClose_said code reason (closeMessages_own hhttp)

theorem Act.own (h : Act env Scope.replies s t) (hy : s.Apart y) :
    Said (Message.Own env) y s.world.log t.world.log := by
  cases h with
  | bare ws h hr => exact .refl
  | peerBuffer b k fd h => exact .refl
  | path p h => exact .refl
  | header tag value h hn => exact .refl
  | note e h =>
      have hsends : e.sendsTo y = false := by
        cases e with
        | framing c d k => rfl
        | segment c op d => rfl
        | _ => cases h
      exact .quiet (World.record_log _ _) (by simp [hsends])
  | line data h => exact .quiet (World.record_log _ _) (by simp [Event.sendsTo])
  | upgrade h hn hr =>
      refine wsUpgradeHttp_said hr (fun ws => .inr ⟨ws, rfl⟩) fun _ => closeMessages_own ?_
      intro _ r h
      rw [← Option.some.inj h]
      exact List.mem_cons_self
  | close code reason h => exact wsClose_own code reason h
  | forward data h =>
      have hsends := networkSend_onlySends env s.ws.peerFd data s.world
      exact (hsends.tells_apart hy.2).said (by simp)
  | frame op data h ho => exact wsSendFrame_said (List.mem_cons_of_mem _ ho)

theorem Acts.own (h : Acts env Scope.replies s t) (hy : s.Apart y) :
    Said (Message.Own env) y s.world.log t.world.log :=
  (h.invariant (P := fun t => t.Apart y ∧ Said (Message.Own env) y s.world.log t.world.log)
    (fun _ _ ha ht => ⟨ha.apart ht.1, ht.2.trans (ha.own ht.1)⟩) ⟨hy, .refl⟩).2

/-- **`ws_data`** sends the client nothing for a segment. -/
theorem wsData_own {answer : Option Bytes} (hy : s.Apart y) (h : wsData env answer s = some t) :
    Said (Message.Own env) y s.world.log t.world.log := by
  have hscan (n : Nat) (u : Conn φ) :
      Acts env Scope.replies u (wsScan env n 0 n u).2 :=
    (wsScan_acts (P := fun _ => True) trivial (fun _ _ _ _ => trivial)
      (fun _ l _ => ⟨wsTakeLine_acts l trivial fun _ _ => trivial, trivial⟩) n trivial).1
  obtain ⟨d, w, hrecv, hacts⟩ := wsData_acts (A := Scope.replies) trivial
    (fun _ data _ _ => hscan data.length _) h
  have hnoted : Said (Message.Own env) y s.world.log w.log := by
    cases hrecv with
    | closed hnone => exact .refl
    | failed x hx ha => exact .quiet (World.record_log _ _) (by simp [Event.sendsTo])
    | data x b hx ha => exact .quiet (World.record_log _ _) (by simp [Event.sendsTo])
  have hapart : Conn.Apart ⟨s.ws, w⟩ y := by cases hrecv <;> exact hy
  exact hnoted.trans (hacts.own hapart)

theorem wsKeepAlive_own (now : Int) (hy : s.Apart y) :
    Said (Message.Own env) y s.world.log (wsKeepAlive env now s).world.log :=
  (wsKeepAlive_acts (A := Scope.replies) env now fun _ => trivial).own hy

end

/-! ## Data from the peer -/

section

variable {env : Env φ} {s t : Conn φ} {x y : Nat} {rest : Bytes}

/-- A segment is sent and noted, or a send to the client failed. -/
theorem wsForward_noted (env : Env φ) (op : WsOperation) (seg : Bytes)
    (h : s.world.sockAt s.ws.wsFd = some y) :
    (∃ ds : List Bytes, (if op = .discard then ds = [] else ds.flatten = wsEncode op seg) ∧
      wsForward env op seg s =
        (false, ⟨s.ws, (s.world.wrote y ds).record (.segment s.ws.conn op seg)⟩)) ∨
    (wsForward env op seg s).1 = true ∧ .sendFailed y ∈ (wsForward env op seg s).2.world.log := by
  unfold wsForward
  by_cases hop : op = .discard
  · exact .inl ⟨[], by simp [hop], by simp [hop]⟩
  · have hsent := wsSendFrame_sent env op seg h
    generalize wsSendFrame env s.ws op seg s.world = r at hsent
    obtain ⟨b, w⟩ := r
    dsimp only at hsent
    cases hsent with
    | whole ds hs hd =>
        refine .inl ⟨ds, ?_, ?_⟩
        · simp [hop, hd]
        · simp [hop]
    | cut ds hs hd hf =>
        refine .inr ⟨by simp [hop], ?_⟩
        simp [hop]

theorem close_quiet (env : Env φ) (code : WsCloseReason) (reason : Option Bytes) (s : Conn φ) :
    Grows Event.Quiet s.world (wsClose env code reason s).world :=
  .close code reason trivial (fun _ => trivial) fun _ _ => ⟨trivial, fun _ => trivial⟩

/-- **The framing loop** takes segments from the front of the buffer, and sends their frames. -/
theorem wsFraming_segmented (fuel : Nat) (op : WsOperation) (bytesRead : Nat) {r : Bool × Conn φ}
    (hy : s.world.sockAt s.ws.wsFd = some y)
    (h : Segmented env s.ws.conn y (s.framingCall op bytesRead).live s.world.log)
    (hr : wsFraming env fuel op bytesRead s = some r) (hsent : .sendFailed y ∉ r.2.world.log) :
    ∃ rest, Segmented env s.ws.conn y rest r.2.world.log ∧
      (r.2.ws.state ≠ .wsClosed → rest = r.2.ws.peerLive) := by
  induction fuel generalizing s op bytesRead with
  | zero => cases hr
  | succ fuel ih =>
      obtain ⟨f, hf⟩ := wsFraming_some hr
      rw [wsFraming_take env fuel op bytesRead hf] at hr
      dsimp only at hr
      generalize hc : s.framingCall op bytesRead = c at h hr
      generalize hcalled : framingCalled bytesRead (c.answer f s.ws.peer.framingConfig).2.2 s = u at hr
      have hconn : u.ws.conn = s.ws.conn := by rw [← hcalled]; rfl
      have hclient : u.world.sockAt u.ws.wsFd = some y := by rw [← hcalled]; exact hy
      have hbuffer : u.ws.peerBuffer = c.buffer ∧ u.ws.peerBufferOffset = c.offset := by
        rw [← hcalled, ← hc]
        exact ⟨rfl, rfl⟩
      have hcall : Segmented env u.ws.conn y c.live u.world.log := by
        rw [hconn]
        rw [← hcalled]
        exact h.record _ trivial rfl
      rw [← hconn]
      cases htake : c.take f s.ws.peer.framingConfig with
      | overrun =>
          rw [htake] at hr
          cases hr
          exact ⟨c.live, hcall.quiet (close_quiet env _ _ u) (wsClose_own _ _ fun h => by cases h),
            fun hopen => absurd rfl hopen⟩
      | declined rest =>
          rw [htake] at hr
          cases hr
          obtain ⟨-, -, rfl⟩ := FramingCall.take_declined htake
          exact ⟨c.live, hcall, fun _ => rfl⟩
      | failed rest =>
          rw [htake] at hr
          obtain ⟨-, -, rfl⟩ := FramingCall.take_failed htake
          have hlive : (u.framingCall (c.answer f s.ws.peer.framingConfig).2.1 c.bytesRead).live =
              c.live := by
            unfold Conn.framingCall
            rw [hbuffer.1, hbuffer.2]
            rfl
          exact ih _ _ hclient (by rw [hlive]; exact hcall) hr
      | segment o seg rest again =>
          obtain ⟨k, hk⟩ := FramingCall.take_segment htake
          rw [htake] at hr
          dsimp only at hr
          rcases wsForward_noted env o seg hclient with ⟨ds, hd, hforward⟩ | ⟨hfail, hm⟩
          · rw [hforward] at hr
            dsimp only at hr
            have hseg : Segmented env u.ws.conn y rest.live
                ((u.world.wrote y ds).record (.segment u.ws.conn o seg)).log := by
              rw [hk.live] at hcall
              have hsegment := hcall.segment hd
              rwa [← World.wrote_log, ← World.record_log] at hsegment
            cases again with
            | false =>
                cases hr
                exact ⟨rest.live, hseg, fun _ => rfl⟩
            | true =>
                simp only [Bool.false_eq_true, if_false, if_true] at hr
                have hlive : ((rest.put rest.offset ⟨u.ws,
                    (u.world.wrote y ds).record (.segment u.ws.conn o seg)⟩).framingCall
                    rest.opcode rest.bytesRead).live = rest.live := rfl
                exact ih (s := rest.put rest.offset ⟨u.ws,
                  (u.world.wrote y ds).record (.segment u.ws.conn o seg)⟩) _ _ hclient
                  (by rw [hlive]; exact hseg) hr
          · rw [if_pos hfail] at hr
            cases hr
            exact absurd hm hsent

/-- `ws_peer_data`. -/
theorem wsPeerData_segmented {fuel : Nat} {answer : Option Bytes} {r : Bool × Conn φ}
    (hx : s.world.sockAt s.ws.peerFd = some x) (hopen : .opened s.ws.conn x ∈ s.world.log)
    (hy : s.world.sockAt s.ws.wsFd = some y) (h : Segmented env s.ws.conn y s.ws.peerLive s.world.log)
    (hr : wsPeerData env fuel answer s = some r) (hsent : .sendFailed y ∉ r.2.world.log) :
    ∃ rest, Segmented env s.ws.conn y rest r.2.world.log ∧
      (r.2.ws.state ≠ .wsClosed → rest = r.2.ws.peerLive) := by
  cases wsPeerData_cases hr with
  | failed w hrecv =>
      have hw : Segmented env s.ws.conn y s.ws.peerLive w.log := by
        cases hrecv with
        | closed hnone => exact h
        | failed z hz ha => exact h.record _ trivial rfl
      exact ⟨_, hw.quiet (close_quiet env _ _ ⟨s.ws, w⟩)
        (wsClose_own (s := ⟨s.ws, w⟩) _ _ fun h => by cases h), fun hopen => absurd rfl hopen⟩
  | ended z b hz ha hb =>
      rw [hx] at hz
      cases hz
      have hw := h.received hopen []
      rw [← World.record_log] at hw
      exact ⟨_, hw.quiet (close_quiet env _ _ ⟨s.ws, _⟩)
        (wsClose_own (s := ⟨s.ws, _⟩) _ _ fun h => by cases h), fun hopen => absurd rfl hopen⟩
  | data z b data r hz ha hb hne hu =>
      rw [hx] at hz
      cases hz
      have hw := h.received hopen data
      rw [← World.record_log, ← firstCall_live] at hw
      exact wsFraming_segmented (s := s.peerReceived x data) fuel .binary data.length hy hw hu hsent

end

/-! ## Data from the client -/

/-- What `ws_data` leaves in the log, where `y` is the client. -/
def Event.FromClient (y : Nat) : Event → Prop
  | .segment _ _ _ => False
  | .received x _ => x = y
  | _ => True

/-- A handler of the client's data took no segments and nothing from a peer, and it left the peer
buffer as it was or emptied it. -/
structure Inward (y : Nat) (s t : Conn φ) : Prop where
  conn : t.ws.conn = s.ws.conn
  grows : Grows (Event.FromClient y) s.world t.world
  buffer : t.ws.peerLive = s.ws.peerLive ∨ t.ws.peerLive = []

/-- The phase and the peer buffer are the same. -/
structure SamePhase (s t : Conn φ) : Prop where
  state : t.ws.state = s.ws.state
  buffer : t.ws.peerLive = s.ws.peerLive

section

variable {env : Env φ} {s t u : Conn φ} {x y : Nat}

theorem Inward.refl (y : Nat) (s : Conn φ) : Inward y s s := ⟨rfl, .refl _ _, .inl rfl⟩

theorem Inward.trans (h : Inward y s t) (h' : Inward y t u) : Inward y s u := by
  refine ⟨h'.conn.trans h.conn, h.grows.trans h'.grows, ?_⟩
  rcases h'.buffer with hb | hb
  · rw [hb]
    exact h.buffer
  · exact .inr hb

/-- Changes of the connection that leave the peer buffer alone. -/
theorem Inward.of_grows {ws : Websocket φ} {w : World} (hc : ws.conn = s.ws.conn)
    (hb : ws.peerLive = s.ws.peerLive) (hw : Grows (Event.FromClient y) s.world w) :
    Inward y s ⟨ws, w⟩ := ⟨hc, hw, .inl hb⟩

theorem Inward.close (h : Inward y s t) (env : Env φ) (code : WsCloseReason) (reason : Option Bytes) :
    Inward y s (wsClose env code reason t) := by
  refine h.trans ⟨rfl, ?_, .inr rfl⟩
  refine (close_quiet env code reason t).mono ?_
  intro e he
  cases e with
  | segment c op d => exact he
  | received z d => exact he.elim
  | _ => trivial

theorem Inward.sends {fd : Option Nat} {w : World} (h : OnlySends fd s.world w) :
    Inward y s ⟨s.ws, w⟩ :=
  .of_grows rfl rfl (.sends h fun _ _ => ⟨trivial, fun _ => trivial⟩)

/-- A line that ends the HTTP phase. -/
theorem Ended.inward (h : Ended env s t) : Inward y s t := by
  have hasked (p : WsPeerInfo φ) (fd : Option Nat) (n : Nat) :
      Inward y s ⟨s.ws.connected p fd, s.world.asked s.ws n⟩ := by
    refine .of_grows rfl rfl ⟨_, World.asked_log _ _ _, ?_⟩
    intro e hm
    rw [List.mem_singleton.mp hm]
    trivial
  have hresponse {ds : List Bytes} {b : Bool} {w : World} (p : WsPeerInfo φ) (fd : Option Nat)
      (hw : networkSendAll env s.ws.wsFd ds s.peerWorld = (b, w)) :
      Inward y s ⟨s.ws.connected p fd, w⟩ := by
    have hpeer : Grows (Event.FromClient y) s.world s.peerWorld := by
      refine (peerWorld_grows (y := y) s).mono ?_
      intro e he
      cases e with
      | received z d => exact he.elim
      | segment c op d => exact he
      | _ => trivial
    have honly := networkSendAll_onlySends env s.ws.wsFd ds s.peerWorld
    rw [hw] at honly
    exact .of_grows rfl rfl (hpeer.trans (.sends honly fun _ _ => ⟨trivial, fun _ => trivial⟩))
  cases h with
  | upgrade hr =>
      have hcases := wsUpgradeHttp_cases env hr
      generalize (wsUpgradeHttp env s).2 = t at hcases
      cases hcases with
      | refused p => exact (hasked p _ _).close env _ _
      | failed p => exact (hasked p _ _).close env _ _
      | dropped p w hw => exact (hresponse p _ hw).close env _ _
      | opened p f hf ho w hw =>
          have hopen := hresponse p (some (lowest s.world.fds)) hw
          exact ⟨hopen.conn, hopen.grows, hopen.buffer⟩
  | version hr => exact (Inward.refl y s).close env _ _
  | folding => exact (Inward.refl y s).close env _ _
  | format => exact (Inward.refl y s).close env _ _

theorem lineQuiet_peerLive (ws : Websocket φ) (line : Bytes) :
    (lineQuiet ws line).peerLive = ws.peerLive := by
  unfold lineQuiet
  split
  · split <;> rfl
  · split
    · rfl
    · next tag value _ =>
      obtain ⟨hs, ver, key, up, ps, h⟩ := wsHeader_eq tag (ltrim value) ws
      rw [h]
      rfl

theorem wsTakeLine_inward (env : Env φ) (line : Bytes) (s : Conn φ) :
    Inward y s (wsTakeLine env line s) := by
  have hline : Grows (Event.FromClient y) s.world
      (s.world.record (.line s.ws.conn s.ws.state line)) := .record trivial _
  cases he : lineEnds s.ws line with
  | false =>
      rw [wsTakeLine_quiet env he]
      exact .of_grows (lineQuiet_conn s.ws line).1 (lineQuiet_peerLive s.ws line) hline
  | true =>
      have hnoted : Inward y s ⟨s.ws, s.world.record (.line s.ws.conn s.ws.state line)⟩ :=
        .of_grows rfl rfl hline
      exact hnoted.trans (wsTakeLine_ends env he).inward

/-- The line loop. -/
theorem wsScan_inward (env : Env φ) (bytesRead : Nat) (s : Conn φ) :
    Inward y s (wsScan env bytesRead 0 bytesRead s).2 := by
  refine (wsScan_acts (A := Scope.all) trivial (P := Inward y s) ?_ ?_ bytesRead
    (.refl y s)).2
  · intro t u ht halike
    have hw : t.world = u.world := by
      have hview := halike.world
      rwa [view_all, view_all] at hview
    have hlive : u.ws.peerLive = t.ws.peerLive :=
      bare_congr Websocket.peerLive halike.ws.symm fun _ => rfl
    have hconn : u.ws.conn = t.ws.conn :=
      bare_congr Websocket.conn halike.ws.symm fun _ => rfl
    refine ht.trans ⟨hconn, .of_log (by rw [hw]), .inl hlive⟩
  · intro t l ht
    exact ⟨wsTakeLine_acts l trivial fun _ _ => trivial, ht.trans (wsTakeLine_inward env l t)⟩

/-- A frame of the client leaves the peer buffer alone unless it closes the connection. -/
theorem wsDispatch_inward (env : Env φ) (op : Nat) (payload : Bytes) (s : Conn φ) :
    Inward y s (wsDispatch env op payload s) ∧
      ((wsDispatch env op payload s).ws.state = .wsClosed ∨ (wsDispatch env op payload s).ws = s.ws) := by
  have hsent := networkSend_onlySends env s.ws.peerFd payload s.world
  have hpong := wsSendFrame_onlySends env s.ws .pong payload s.world
  unfold wsDispatch
  split
  · split
    · dsimp only
      split
      · exact ⟨(Inward.sends hsent).close env _ _, .inl rfl⟩
      · exact ⟨.sends hsent, .inr rfl⟩
    · exact ⟨.refl y s, .inr rfl⟩
  · split
    · exact ⟨(Inward.refl y s).close env _ _, .inl rfl⟩
    · split
      · dsimp only
        split
        · exact ⟨(Inward.sends hpong).close env _ _, .inl rfl⟩
        · exact ⟨.sends hpong, .inr rfl⟩
      · split
        · exact ⟨.refl y s, .inr rfl⟩
        · exact ⟨(Inward.refl y s).close env _ _, .inl rfl⟩

theorem wsFrame_inward {n : Nat} (h : wsFrame env s = some (n, t)) :
    Inward y s t ∧ (t.ws.state = .wsClosed ∨ SamePhase s t) := by
  unfold wsFrame at h
  split at h
  · cases h
    exact ⟨.refl y s, .inr ⟨rfl, rfl⟩⟩
  · next len start _ =>
    dsimp only at h
    split at h
    · cases h
      exact ⟨.refl y s, .inr ⟨rfl, rfl⟩⟩
    · split at h
      · cases h
        exact ⟨(Inward.refl y s).close env _ _, .inl rfl⟩
      · split at h
        · cases h
        · cases h
          generalize hb : write s.ws.readBuffer start (maskBytes
            (slice s.ws.readBuffer (start - 4) 4) (slice s.ws.readBuffer start len)) = b
          have hunmasked : Inward y s ⟨{ s.ws with readBuffer := b }, s.world⟩ :=
            .of_grows rfl rfl (.refl _ _)
          obtain ⟨hin, hws⟩ := wsDispatch_inward (y := y) env (wsGetOp (s.ws.readBuffer.getD 0 0))
            (maskBytes (slice s.ws.readBuffer (start - 4) 4) (slice s.ws.readBuffer start len))
            ⟨{ s.ws with readBuffer := b }, s.world⟩
          refine ⟨hunmasked.trans hin, hws.imp id ?_⟩
          intro hws
          constructor <;> rw [hws]
          rfl

/-- The frame loop. -/
theorem wsFrames_inward (fuel : Nat) (hs : s.ws.state = .wsOpen)
    (h : wsFrames env fuel s = some t) :
    Inward y s t ∧ (t.ws.state = .wsClosed ∨ SamePhase s t) := by
  induction fuel generalizing s with
  | zero =>
      cases h
      exact ⟨.refl y _, .inr ⟨rfl, rfl⟩⟩
  | succ fuel ih =>
      unfold wsFrames at h
      split at h
      · cases h
      · next n u hf =>
        obtain ⟨hin, hkept⟩ := wsFrame_inward (y := y) hf
        obtain ⟨-, hstate⟩ := wsFrame_acts (A := Scope.all) trivial hs hf
        split at h
        · next hn =>
          have hopen : u.ws.state = .wsOpen := hstate.resolve_right (by omega)
          have hmoved : Inward y u ⟨{ u.ws with
              readBuffer := moveDown u.ws.readBuffer n (u.ws.readBufferOffset - n)
              readBufferOffset := u.ws.readBufferOffset - n }, u.world⟩ :=
            .of_grows rfl rfl (.refl _ _)
          obtain ⟨hrest, hlast⟩ := ih (s := ⟨{ u.ws with
            readBuffer := moveDown u.ws.readBuffer n (u.ws.readBufferOffset - n)
            readBufferOffset := u.ws.readBufferOffset - n }, u.world⟩) hopen h
          refine ⟨(hin.trans hmoved).trans hrest, hlast.imp id ?_⟩
          intro hlast
          have hfirst : SamePhase s u := by
            refine hkept.resolve_left ?_
            rw [hopen]
            simp
          exact ⟨hlast.state.trans hfirst.state, hlast.buffer.trans hfirst.buffer⟩
        · cases h
          exact ⟨hin, hkept⟩

/-- **`ws_data`** takes no segments and nothing from the peer, and an open connection keeps its peer
buffer. -/
theorem wsData_inward {answer : Option Bytes} (hy : s.world.sockAt s.ws.wsFd = some y)
    (ht : wsData env answer s = some t) :
    Inward y s t ∧ (s.ws.state = .wsOpen → t.ws.state = .wsClosed ∨ SamePhase s t) := by
  have hreceived (d : Bytes) : Inward y s ⟨s.ws, s.world.record (.received y d)⟩ := by
    apply Inward.of_grows rfl rfl
    apply Grows.record
    rfl
  cases wsData_cases ht with
  | nothing r w hr h =>
      have hw : Inward y s ⟨s.ws, w⟩ := by
        cases hr with
        | closed hnone => exact .refl y s
        | failed z hz ha => exact .of_grows rfl rfl (.record trivial _)
        | data z b hz ha =>
            rw [hy] at hz
            cases hz
            exact hreceived _
      exact ⟨hw.close env _ _, fun _ => .inl rfl⟩
  | data z b data u hz ha hb hne hu =>
      rw [hy] at hz
      cases hz
      have hfilled : Inward y s ⟨s.ws.filled data, s.world.record (.received y data)⟩ :=
        (hreceived data).trans (.of_grows rfl rfl (.refl _ _))
      have hswitch : Inward y s u ∧
          (s.ws.state = .wsOpen → u.ws.state = .wsClosed ∨ SamePhase s u) := by
        unfold wsDataSwitch at hu
        have hstate : (s.ws.filled data).state = s.ws.state := rfl
        have hscan : Inward y s ⟨{ (wsScan env data.length 0 data.length
            ⟨s.ws.filled data, s.world.record (.received y data)⟩).2.ws with
            readBufferOffset := (wsScan env data.length 0 data.length
              ⟨s.ws.filled data, s.world.record (.received y data)⟩).1 },
            (wsScan env data.length 0 data.length
              ⟨s.ws.filled data, s.world.record (.received y data)⟩).2.world⟩ :=
          (hfilled.trans (wsScan_inward env data.length _)).trans (.of_grows rfl rfl (.refl _ _))
        rw [hstate] at hu
        cases hs : s.ws.state with
        | wsNew =>
            rw [hs] at hu
            cases hu
            exact ⟨hscan, fun h => by cases h⟩
        | wsHttp =>
            rw [hs] at hu
            cases hu
            exact ⟨hscan, fun h => by cases h⟩
        | wsOpen =>
            rw [hs] at hu
            have hlonger : Inward y s ⟨{ s.ws.filled data with
                readBufferOffset := s.ws.readBufferOffset + data.length },
                s.world.record (.received y data)⟩ := hfilled.trans (.of_grows rfl rfl (.refl _ _))
            obtain ⟨hin, hkept⟩ := wsFrames_inward (y := y) (s := ⟨{ s.ws.filled data with
                readBufferOffset := s.ws.readBufferOffset + data.length },
                s.world.record (.received y data)⟩) _ hs hu
            refine ⟨hlonger.trans hin, fun _ => hkept.imp id ?_⟩
            intro hsame
            exact ⟨hsame.state, hsame.buffer⟩
        | wsClosed =>
            rw [hs] at hu
            cases hu
            exact ⟨hfilled, fun h => by cases h⟩
      split
      · exact ⟨hswitch.1.close env _ _, fun _ => .inl rfl⟩
      · exact hswitch

end

/-! ## Runs -/

/-- What the peers of a connection in a slot sent; nothing is buffered before there is one. -/
structure PeerSide (env : Env φ) (ws : Websocket φ) (w : World) : Prop where
  idle : InHttp ws → ws.peerLive = []
  stream : ∀ y, .accepted ws.conn y ∈ w.log → .sendFailed y ∉ w.log →
    ∃ rest, Segmented env ws.conn y rest w.log ∧ (ws.state ≠ .wsClosed → rest = ws.peerLive)

/-- The same of a connection that has no slot any more. -/
def PeerPast (env : Env φ) (conn : Nat) (w : World) : Prop :=
  ∀ y, .accepted conn y ∈ w.log → .sendFailed y ∉ w.log → ∃ rest, Segmented env conn y rest w.log

section

variable {env : Env φ} {s t : Conn φ} {x y conn : Nat} {rest : Bytes} {ws : Websocket φ} {w w' : World}

/-- What happens to others. -/
theorem Segmented.aside (h : Segmented env conn y rest w.log) (hy : .accepted conn y ∈ w.log)
    (ha : Aside conn w w') : Segmented env conn y rest w'.log := by
  have hsaid : Said (Message.Own env) y w.log w'.log := by
    obtain ⟨es, he, hes⟩ := ha
    refine .quiet he ?_
    intro e hm
    have hnot := hes e hm
    cases e with
    | wrote z d =>
        have hne : z ≠ y := by
          rintro rfl
          exact hnot (.inl hy)
        simp [Event.sendsTo, hne]
    | sendFailed z =>
        have hne : z ≠ y := by
          rintro rfl
          exact hnot (.inl hy)
        simp [Event.sendsTo, hne]
    | _ => rfl
  refine h.grows ha hsaid (fun op d hn => hn rfl) ?_ fun x d _ hm => ha.opened.mp hm
  intro x d hn hm
  exact hn (.inr (ha.opened.mp hm))

/-- The log of a run does not lose an event. -/
theorem PeerSide.grows {K : Event → Prop} (h : PeerSide env s.ws s.world)
    (hconn : t.ws.conn = s.ws.conn) (hg : Grows K s.world t.world)
    (hacc : ∀ y, .accepted s.ws.conn y ∈ t.world.log → .accepted s.ws.conn y ∈ s.world.log)
    (hK : ∀ y rest, .accepted s.ws.conn y ∈ s.world.log →
      Segmented env s.ws.conn y rest s.world.log → Segmented env s.ws.conn y rest t.world.log)
    (hb : t.ws.state = .wsClosed ∨ SamePhase s t) : PeerSide env t.ws t.world := by
  constructor
  · intro hin
    rcases hb with hb | ⟨hstate, hlive⟩
    · rcases hin with hin | hin <;>
        · rw [hin] at hb
          cases hb
    · rw [hlive]
      apply h.idle
      unfold InHttp at hin ⊢
      rwa [← hstate]
  · intro y hy hsent
    rw [hconn] at hy ⊢
    obtain ⟨rest, hseg, hlive⟩ := h.stream y (hacc y hy) fun hm => hsent (hg.mem hm)
    refine ⟨rest, hK y rest (hacc y hy) hseg, ?_⟩
    intro hopen
    obtain ⟨hstate, hl⟩ := hb.resolve_left hopen
    rw [hl]
    apply hlive
    rwa [← hstate]

/-- `ws_close` takes nothing. -/
theorem PeerSide.close (h : PeerSide env s.ws s.world) (code : WsCloseReason) (reason : Option Bytes)
    (hhttp : code = .http → ∀ r, reason = some r → r ∈ httpErrors) :
    PeerSide env (wsClose env code reason s).ws (wsClose env code reason s).world := by
  have hq := close_quiet env code reason s
  obtain ⟨es, he, hes⟩ := wsClose_log env code reason s
  refine h.grows rfl hq ?_ (fun y rest _ hseg => hseg.quiet hq (wsClose_own _ _ hhttp)) (.inl rfl)
  intro y hm
  rw [he] at hm
  refine (List.mem_append.mp hm).resolve_right ?_
  rw [List.mem_cons, List.mem_append]
  rintro (hm | hm | hm)
  · cases hm
  · obtain ⟨x, -, hm | ⟨d, hm⟩⟩ := hes _ hm <;> cases hm
  · obtain ⟨x, -, hm⟩ := List.mem_map.mp hm
    cases hm

theorem PeerSide.start (now : Int) (accepts : Bool) (hknown : ∀ e ∈ w.log, e.Known w.conns w.socks) :
    PeerSide env (acceptedConn now accepts w : Websocket φ) (w.accept accepts) := by
  have hconn : (acceptedConn now accepts w : Websocket φ).conn = w.conns := rfl
  have hsegs : segments w.conns (w.accept accepts).log = [] := by
    rw [accept_log, segments_append, fresh_segments hknown]
    cases accepts <;> rfl
  have hpeers : fromPeers w.conns (w.accept accepts).log = [] := by
    unfold fromPeers
    rw [List.flatMap_eq_nil_iff]
    intro e hm
    cases e with
    | received z d => exact if_neg (accept_fresh hknown accepts z).2
    | _ => rfl
  have hsends : sends w.socks (w.accept accepts).log = [] := by
    rw [accept_log, sends_append, fresh_sends hknown]
    cases accepts <;> rfl
  constructor
  · intro _
    rfl
  · intro y hy hsent
    obtain ⟨-, rfl⟩ := (accept_fresh hknown accepts y).1 hy
    refine ⟨[], ⟨?_, [], ?_, ?_⟩, fun _ => rfl⟩
    · rw [hconn, hpeers, hsegs]
      rfl
    · rw [hsends]
      exact .nil
    · rw [hconn, hsegs]
      exact .nil

/-- What serves a connection gives it new sockets at most. -/
theorem Served.gives {c : Core φ} {i : Input} {n : Nat} (hs : Sound env ⟨ws, c.world⟩)
    (hslot : SlotInv env ws) (h : Served env c i n ws t) : Gives ⟨ws, c.world⟩ t := by
  obtain ⟨ready, w, hw, hacts⟩ := h.acts hslot
  have hs' : Sound env ⟨ws, w⟩ := by
    have hrecv : w.fds = c.world.fds ∧ w.socks = c.world.socks := by cases hw <;> exact ⟨rfl, rfl⟩
    refine ⟨hs.state, ?_, ?_⟩
    · rw [hrecv.1, hrecv.2]
      exact hs.numbered
    · rw [hrecv.1]
      exact hs.held
  exact (hw.gives hs).trans (hacts.gives hs')

theorem Gives.accepted_before (h : Gives s t) {z : Nat} (hz : .accepted conn z ∈ t.world.log) :
    .accepted conn z ∈ s.world.log := by
  obtain ⟨es, hlog, -, hacc, -⟩ := h.events
  rw [hlog] at hz
  exact (List.mem_append.mp hz).resolve_right (hacc _ _)

theorem Gives.opened_new (h : Gives s t) {z : Nat} (hz : .opened conn z ∈ t.world.log) :
    .opened conn z ∈ s.world.log ∨ s.world.socks ≤ z := by
  obtain ⟨es, hlog, -, -, hop⟩ := h.events
  rw [hlog] at hz
  exact (List.mem_append.mp hz).imp id fun hz => (hop _ _ hz).2

/-- No socket of a client is at `peer_fd`. -/
theorem GivenInv.apart {sock : List (Websocket φ)} (hi : GivenInv sock w) (hm : ws ∈ sock) {z : Nat}
    (hz : .accepted conn z ∈ w.log) : Conn.Apart ⟨ws, w⟩ z := by
  refine ⟨(hi.known _ hz).2, ?_⟩
  intro hpeer
  exact hi.role _ _ z hz (hi.peer ws hm z hpeer)

/-- `ws_data` on a connection in a slot. -/
theorem PeerSide.data {sock : List (Websocket φ)} {answer : Option Bytes} {fd : Nat} {now : Int}
    (h : PeerSide env ws w) (hi : GivenInv sock w) (hm : ws ∈ sock) (hslot : SlotInv env ws)
    (hgives : Gives ⟨ws, w⟩ t) (hfd : ws.wsFd = some fd)
    (ht : wsData env answer ⟨{ ws with lastEvent := now }, w⟩ = some t) : PeerSide env t.ws t.world := by
  obtain ⟨y, hy⟩ := hi.toHeldInv.is_open hm (show fd ∈ ws.held by simp [Websocket.held, hfd])
  rw [← hfd] at hy
  have hknown := hi.known _ (hi.client ws hm y hy)
  obtain ⟨hin, hopen⟩ := wsData_inward (s := ⟨{ ws with lastEvent := now }, w⟩) hy ht
  have hseg : ∀ z rest, .accepted ws.conn z ∈ w.log →
      Segmented env ws.conn z rest w.log → Segmented env ws.conn z rest t.world.log := by
    intro z rest hz hseg
    have hsaid := wsData_own (s := ⟨{ ws with lastEvent := now }, w⟩) (hi.apart hm hz) ht
    apply hseg.grows hin.grows hsaid (fun _ _ => id)
    · intro x d hx hz
      obtain rfl : x = y := hx
      rcases hgives.opened_new hz with hz | hz
      · exact hi.client_unopened hm hy hz
      · exact absurd hknown.2 (Nat.not_lt.mpr hz)
    · intro x d hx hz
      have hlt : x < w.socks := hi.known _ hx
      exact (hgives.opened_new hz).resolve_right (Nat.not_le.mpr hlt)
  by_cases hphase : InHttp ws
  · -- nothing came from a peer yet
    have hempty : t.ws.peerLive = [] := hin.buffer.elim (fun hb => hb.trans (h.idle hphase)) id
    constructor
    · intro _
      exact hempty
    · intro z hz hsent
      rw [hin.conn] at hz ⊢
      have hz := hgives.accepted_before hz
      obtain ⟨rest, hrest, hlive⟩ := h.stream z hz fun hm => hsent (hin.grows.mem hm)
      refine ⟨rest, hseg z rest hz hrest, ?_⟩
      intro _
      rw [hempty, hlive, h.idle hphase]
      rcases hphase with hp | hp <;> rw [hp] <;> simp
  · have hstate : ws.state = .wsOpen := by
      cases hs : ws.state with
      | wsNew => exact absurd (.inl hs) hphase
      | wsHttp => exact absurd (.inr hs) hphase
      | wsOpen => rfl
      | wsClosed =>
          rw [(hslot.closed hs).1] at hfd
          cases hfd
    exact h.grows (s := ⟨ws, w⟩) hin.conn hin.grows (fun z hz => hgives.accepted_before hz) hseg
      ((hopen hstate).imp id fun hs => ⟨hs.state, hs.buffer⟩)

/-- `ws_peer_data` on a connection in a slot. -/
theorem PeerSide.peer {sock : List (Websocket φ)} {answer : Option Bytes} {fuel fd : Nat}
    {r : Bool × Conn φ} (h : PeerSide env ws w) (hi : GivenInv sock w) (hm : ws ∈ sock)
    (hslot : SlotInv env ws) (hgives : Gives ⟨ws, w⟩ r.2) (hfd : ws.peerFd = some fd)
    (ht : wsPeerData env fuel answer ⟨ws, w⟩ = some r) : PeerSide env r.2.ws r.2.world := by
  obtain ⟨x, hx⟩ := hi.toHeldInv.is_open hm (show fd ∈ ws.held by simp [Websocket.held, hfd])
  rw [← hfd] at hx
  have hopen := hslot.open_of_peer hfd
  obtain ⟨gd, hgd⟩ := Option.isSome_iff_exists.mp (hslot.opened hopen).1
  obtain ⟨y, hy⟩ := hi.toHeldInv.is_open hm (show gd ∈ ws.held by simp [Websocket.held, hgd])
  rw [← hgd] at hy
  have hclient : ∀ z, w.sockAt ws.wsFd = some z → z = y := by
    intro z hz
    rw [hy] at hz
    exact (Option.some.inj hz).symm
  have hbeside := wsPeerData_beside (s := ⟨ws, w⟩) (x := x) (y := y) hx hclient ht
  constructor
  · intro hin
    exfalso
    rcases hbeside.kept with hk | hk
    · rcases hin with hin | hin <;>
        · rw [hin] at hk
          cases hk
    · have hstate := hk.state
      dsimp only at hstate
      rcases hin with hin | hin <;>
        · rw [hin, hopen] at hstate
          cases hstate
  · intro z hz hsent
    rw [hbeside.conn] at hz ⊢
    have hz := hgives.accepted_before hz
    obtain rfl := hi.one _ _ _ hz (hi.client ws hm y hy)
    obtain ⟨rest, hseg, hlive⟩ := h.stream z hz fun hm => hsent (hbeside.grows.mem hm)
    rw [hlive (by rw [hopen]; simp)] at hseg
    exact wsPeerData_segmented (s := ⟨ws, w⟩) hx (hi.peer ws hm x hx) hy hseg ht hsent

/-- The keep-alive check of a connection in a slot. -/
theorem PeerSide.ping {sock : List (Websocket φ)} (h : PeerSide env ws w) (hi : GivenInv sock w)
    (hm : ws ∈ sock) (now : Int) (hgives : Gives ⟨ws, w⟩ (wsKeepAlive env now ⟨ws, w⟩)) :
    PeerSide env (wsKeepAlive env now ⟨ws, w⟩).ws (wsKeepAlive env now ⟨ws, w⟩).world := by
  have hbeside : Beside Event.Quiet ⟨ws, w⟩ (wsKeepAlive env now ⟨ws, w⟩) :=
    wsKeepAlive_beside now trivial (fun _ => trivial) fun z hz => ⟨trivial, fun d => trivial⟩
  refine h.grows (s := ⟨ws, w⟩) hbeside.conn hbeside.grows (fun z hz => hgives.accepted_before hz)
    (fun z rest hz hseg => hseg.quiet hbeside.grows (wsKeepAlive_own now (hi.apart hm hz))) ?_
  unfold wsKeepAlive
  split
  · dsimp only
    split
    · exact .inl rfl
    · exact .inr ⟨rfl, rfl⟩
  · exact .inr ⟨rfl, rfl⟩

/-- The stream of the peers of every connection. -/
theorem peerRule (env : Env φ) : ConnRule env (fun _ _ => True) (PeerSide env) (PeerPast env) where
  init conn w hlog := by
    intro y hy
    simp [hlog] at hy
  accept w now accepts hknown := .start now accepts hknown
  aside ws w w' h ha hsock := by
    refine h.grows (s := ⟨ws, w⟩) (t := ⟨ws, w'⟩) rfl ha (fun y hy => ha.accepted.mp hy)
      (fun y rest hy hseg => hseg.aside hy ha) (.inr ⟨rfl, rfl⟩)
  ended ws w h _ := by
    intro y hy hsent
    obtain ⟨rest, hseg, -⟩ := h.stream y hy hsent
    exact ⟨rest, hseg⟩
  gone conn w w' h ha := by
    intro y hy hsent
    obtain ⟨rest, hseg⟩ := h y (ha.accepted.mp hy) fun hm => hsent (Grows.mem ha hm)
    exact ⟨rest, hseg.aside (ha.accepted.mp hy) ha⟩
  close sock ws w hs hi hm h := h.close (s := ⟨ws, w⟩) _ _ fun hc => by cases hc
  serve c i n ws t ho hreg hi hn hserved h := by
    have hm := List.mem_of_getElem? hn
    have hslot := hreg.slots ws hm
    have hsound : Sound env ⟨ws, c.world⟩ := by
      obtain ⟨l₁, l₂, hs, -⟩ := put_split hn t .select
      rw [hs] at hreg hi
      exact hreg.sound hi.toHeldInv
    have hgives := hserved.gives hsound hslot
    cases hserved with
    | data answer fuel fd t hinput hloc hfd hr ht => exact h.data hi hm hslot hgives hfd ht
    | peer answer fuel fd r hinput hloc hfd hr ht => exact h.peer hi hm hslot hgives hfd ht
    | ping answer fuel hinput hloc => exact h.ping hi hm c.now hgives

/-- **From the peer to the client**: in every run, what the peer of a connection sent are the segments
that were taken and then `rest`.  What was written to the client are whole messages: the frames of the
segments that are not to be discarded, each once and in their order, and responses, pings, pongs and
close frames, as long as no send to the client has failed.  While the connection is there, `rest` is in
its peer buffer. -/
theorem peer_stream_framed (env : Env φ) (c : Core φ) (h : (coreLoop env).Reach (fun _ _ => True) c)
    (conn y : Nat) (hy : .accepted conn y ∈ c.world.log) (hsent : .sendFailed y ∉ c.world.log) :
    ∃ rest ms, fromPeers conn c.world.log = segmentBytes (segments conn c.world.log) ++ rest ∧
      written y c.world.log = ms.flatMap Message.bytes ∧
      Woven env (dataFrames (segments conn c.world.log)) ms ∧
      ((∀ p ∈ segments conn c.world.log, p.1 ∉ controlOpcodes) →
        ms.filterMap Message.dataFrame? = dataFrames (segments conn c.world.log)) ∧
      ∀ ws ∈ c.sock, ws.conn = conn → ws.state ≠ .wsClosed → rest = ws.peerLive := by
  have hreg := coreLoop_registryInv h
  have hall := (peerRule env).reach h
  have hlt : conn < c.world.conns := ((coreLoop_givenInv h).known _ hy).1
  obtain ⟨rest, hseg, hlive⟩ : ∃ rest, Segmented env conn y rest c.world.log ∧
      ∀ ws ∈ c.sock, ws.conn = conn → ws.state ≠ .wsClosed → rest = ws.peerLive := by
    by_cases hslot : ∃ ws ∈ c.sock, ws.conn = conn
    · obtain ⟨ws, hm, rfl⟩ := hslot
      obtain ⟨rest, hseg, hlive⟩ := (hall.slots ws hm).stream y hy hsent
      refine ⟨rest, hseg, ?_⟩
      intro ws' hm' hconn
      obtain rfl : ws' = ws := List.inj_on_of_nodup_map hreg.distinct hm' hm hconn
      exact hlive
    · have hno : ∀ ws ∈ c.sock, ws.conn ≠ conn := fun ws hm hc => hslot ⟨ws, hm, hc⟩
      obtain ⟨rest, hseg⟩ := hall.past conn hlt hno y hy hsent
      refine ⟨rest, hseg, ?_⟩
      intro ws hm hconn
      exact absurd hconn (hno ws hm)
  obtain ⟨ms, hspoken, hwoven⟩ := hseg.frames
  have hwhole : .sendFailed y ∉ sends y c.world.log := fun hm => hsent (List.mem_of_mem_filter hm)
  refine ⟨rest, ms, hseg.bytes, ?_, hwoven, ?_, hlive⟩
  · rw [← hspoken.written hwhole, written_sends]
  · intro hdata
    apply hwoven.dataFrames
    intro p hp
    exact hdata p (List.mem_of_mem_filter hp)

end

/-- The client is sent a pong, and then what the peer sends. -/
theorem peer_stream_framed_sample :
    let c := ((coreLoop sampleEnv).exec samplePonged sampleCore).get samplePonged_runs
    (segments 0 c.world.log = [(.text, ascii "ab")] ∧ .wrote 4 (wsFrameHeader .pong 1) ∈ c.world.log) ∧
    ∃ rest ms, fromPeers 0 c.world.log = segmentBytes (segments 0 c.world.log) ++ rest ∧
      written 4 c.world.log = ms.flatMap Message.bytes ∧
      Woven sampleEnv (dataFrames (segments 0 c.world.log)) ms ∧
      ((∀ p ∈ segments 0 c.world.log, p.1 ∉ controlOpcodes) →
        ms.filterMap Message.dataFrame? = dataFrames (segments 0 c.world.log)) ∧
      ∀ ws ∈ c.sock, ws.conn = 0 → ws.state ≠ .wsClosed → rest = ws.peerLive :=
  ⟨by decide +kernel, peer_stream_framed sampleEnv _ (.exec (.init sampleCore_init) samplePonged
    (by decide +kernel) (Option.some_get samplePonged_runs).symm) 0 4 (by decide +kernel)
    (by decide +kernel)⟩

end Websocksy

import Websocksy.ClientData
import Websocksy.ConnRule

/-!
# From the client to its peer

In every run in which a read in the HTTP phase keeps the buffer and has no line behind the last,
the bytes from a client are lines, then frames, and its peer is written the payloads of the data
frames, in their order and once each (`client_stream_forwarded`).

The invariant of one connection (`Forwarding`) says what its bytes were in terms of the log.  Only
`ws_data` on the connection itself makes events that the invariant reads (`Event.Inbound`).
-/

namespace Websocksy

open Buffer CString Lines Machine

variable {φ : Type}

/-! ## The stream -/

/-- The events by which the stream from the client of a connection to its peer is seen. -/
def Event.Inbound (conn : Nat) (log : List Event) : Event → Prop
  | .accepted c _ | .opened c _ | .line c _ _ => c = conn
  | .received y d => .accepted conn y ∈ log ∧ d ≠ []
  | .wrote x _ => .opened conn x ∈ log
  | _ => False

/-- The client sent the lines that were handled, then the frames `fs` and then `rest`; its peer was
written the data of these frames, or the first part of it. -/
structure Forwarded (conn : Nat) (fs : List ClientFrame) (rest : Bytes) (w : World) : Prop where
  received : ∀ y, .accepted conn y ∈ w.log → received y w.log =
    lineBytes (handledLines conn w.log) ++ fs.flatMap (·.encode) ++ rest
  written : ∀ x, .opened conn x ∈ w.log → written x w.log <+: toPeer fs

/-- The same of a connection in its slot: as long as it is not closed, `rest` is in its buffer and
nothing is missing. -/
structure Forwarding (ws : Websocket φ) (fs : List ClientFrame) (rest : Bytes) (w : World) : Prop
    extends Forwarded ws.conn fs rest w where
  apart : ∀ x y, .opened ws.conn x ∈ w.log → .accepted ws.conn y ∈ w.log → x ≠ y
  live : ws.state ≠ .wsClosed → rest = ws.live
  http : InHttp ws → fs = [] ∧ ∀ x, .opened ws.conn x ∉ w.log
  peer : ws.state = .wsOpen → ∀ x, .opened ws.conn x ∈ w.log →
    w.sockAt ws.peerFd = some x ∧ Websocksy.written x w.log = toPeer fs

section

variable {env : Env φ} {K : Event → Prop} {s t u : Conn φ} {x y conn : Nat} {w w' : World}
  {fs gs : List ClientFrame} {rest data : Bytes}

theorem Forwarded.grows (h : Forwarded conn fs rest w) (hg : Grows K w w')
    (hK : ∀ e, K e → ¬e.Inbound conn w.log) : Forwarded conn fs rest w' := by
  have hacc : ∀ y, .accepted conn y ∈ w'.log ↔ .accepted conn y ∈ w.log :=
    fun y => hg.mem_iff fun hn => hK _ hn rfl
  have hop : ∀ x, .opened conn x ∈ w'.log ↔ .opened conn x ∈ w.log :=
    fun x => hg.mem_iff fun hn => hK _ hn rfl
  have hlines : handledLines conn w'.log = handledLines conn w.log :=
    hg.handledLines fun st d hn => hK _ hn rfl
  constructor
  · intro y hy
    rw [hacc] at hy
    rw [hg.received fun d hd hn => hK _ hn ⟨hy, hd⟩, hlines]
    exact h.received y hy
  · intro x hx
    rw [hop] at hx
    rw [hg.written fun d hn => hK _ hn hx]
    exact h.written x hx

/-- What is beside the stream keeps it. -/
theorem Forwarding.beside (h : Forwarding s.ws fs rest s.world) (hb : Beside K s t)
    (hK : ∀ e, K e → ¬e.Inbound s.ws.conn s.world.log) : Forwarding t.ws fs rest t.world := by
  have hforwarded := h.toForwarded.grows hb.grows hK
  have hacc : ∀ y, .accepted s.ws.conn y ∈ t.world.log ↔ .accepted s.ws.conn y ∈ s.world.log :=
    fun y => hb.grows.mem_iff fun hn => hK _ hn rfl
  have hop : ∀ x, .opened s.ws.conn x ∈ t.world.log ↔ .opened s.ws.conn x ∈ s.world.log :=
    fun x => hb.grows.mem_iff fun hn => hK _ hn rfl
  rw [← hb.conn] at hforwarded
  refine { hforwarded with apart := ?_, live := ?_, http := ?_, peer := ?_ }
  · intro x y hx hy
    rw [hb.conn] at hx hy
    exact h.apart x y ((hop x).mp hx) ((hacc y).mp hy)
  · intro hopen
    have hk := hb.kept.resolve_left hopen
    rw [hk.live]
    apply h.live
    rw [← hk.state]
    exact hopen
  · intro hin
    have hk : Kept s t := by
      refine hb.kept.resolve_left ?_
      intro hc
      rcases hin with hin | hin <;>
        · rw [hc] at hin
          cases hin
    unfold InHttp at hin
    rw [hk.state] at hin
    obtain ⟨hfs, hno⟩ := h.http hin
    refine ⟨hfs, ?_⟩
    intro x hx
    rw [hb.conn] at hx
    exact hno x ((hop x).mp hx)
  · intro hopen x hx
    have hk : Kept s t := by
      refine hb.kept.resolve_left ?_
      rw [hopen]
      simp
    rw [hb.conn] at hx
    have hx := (hop x).mp hx
    rw [hk.state] at hopen
    obtain ⟨hfd, hw⟩ := h.peer hopen x hx
    refine ⟨?_, ?_⟩
    · rw [hk.peer]
      exact hfd
    · rw [hb.grows.written fun d hn => hK _ hn hx]
      exact hw

/-- `ws_close` says something to the client only. -/
theorem Forwarding.close (h : Forwarding s.ws fs rest s.world)
    (hy : ∀ z, s.world.sockAt s.ws.wsFd = some z → .opened s.ws.conn z ∉ s.world.log)
    (code : WsCloseReason) (reason : Option Bytes) :
    Forwarding (wsClose env code reason s).ws fs rest (wsClose env code reason s).world := by
  have hclose : Grows (fun e => ¬e.Inbound s.ws.conn s.world.log) s.world
      (wsClose env code reason s).world := by
    refine .close code reason id (fun _ => id) ?_
    intro z hz
    exact ⟨id, fun d => hy z hz⟩
  exact h.beside ⟨rfl, hclose, .inl rfl⟩ fun _ hn => hn

theorem toPeer_append (fs gs : List ClientFrame) : toPeer (fs ++ gs) = toPeer fs ++ toPeer gs :=
  List.flatMap_append

theorem lineBytes_append (ls ls' : List Bytes) :
    lineBytes (ls ++ ls') = lineBytes ls ++ lineBytes ls' := by simp [lineBytes]

/-! ## Reads in the HTTP phase -/

/-- The lines of a read, and what is behind them. -/
theorem recvLines_bytes {ws : Websocket φ} (h : ws.readBufferOffset = 0 ∨ cutLine data ≠ none) :
    ws.live ++ data = lineBytes (recvLines ws data) ++ (lines.drain data).2 := by
  unfold lineBytes recvLines
  by_cases hnone : (lines.drain data).1 = []
  · have hcut : cutLine data = none := lines.drain_eq_nil hnone
    have hzero := h.resolve_right fun hc => hc hcut
    have hd : lines.drain data = ([], data) := lines.drain_none hcut
    rw [hd, Websocket.live, hzero]
    rfl
  · rw [withPending_flatten _ hnone, List.append_assoc, drain_lines_eq]
    rfl

/-- What the line loop leaves in the buffer. -/
theorem scanned_left {r : Nat × Conn φ} (hscan : Scanned env s data r)
    (hwin : slice s.ws.readBuffer s.ws.readBufferOffset data.length = data)
    (h : s.ws.readBufferOffset = 0 ∨ cutLine data ≠ none) (hopen : r.2.ws.state ≠ .wsClosed) :
    slice r.2.ws.readBuffer 0 r.1 = (lines.drain data).2 := by
  by_cases hnone : recvLines s.ws data = []
  · have hcut : cutLine data = none := by
      unfold recvLines at hnone
      rw [withPending_eq_nil] at hnone
      exact lines.drain_eq_nil hnone
    have hzero := h.resolve_right fun hc => hc hcut
    have hd : lines.drain data = ([], data) := lines.drain_none hcut
    rw [hscan.left, hscan.noLine hnone, hd]
    rwa [hzero] at hwin
  · exact hscan.tail hnone hopen

/-- The lines of a client of which `data` was received. -/
theorem Forwarding.lines {ls : List Bytes} {left : Bytes}
    (h : Forwarding s.ws fs rest s.world) (hin : InHttp s.ws)
    (hknown : ∀ e ∈ s.world.log, e.Known s.world.conns s.world.socks)
    (hone : ∀ z, .accepted s.ws.conn z ∈ s.world.log → z = y)
    (hacc : .accepted s.ws.conn y ∈ s.world.log)
    (htaken : LinesTaken y ls ⟨s.ws, s.world.record (.received y data)⟩ t)
    (hbytes : s.ws.live ++ data = lineBytes ls ++ left)
    (hleft : t.ws.state ≠ .wsClosed → left = t.ws.live) :
    Forwarding t.ws [] left t.world := by
  obtain ⟨rfl, hnone⟩ := h.http hin
  have hfresh : y < s.world.socks := (hknown _ hacc).2
  have hlive : rest = s.ws.live := by
    apply h.live
    rcases hin with hin | hin <;>
      · rw [hin]
        simp
  have hconn : t.ws.conn = s.ws.conn := htaken.conn
  have hgrows : Grows (Event.Preface s.world.socks y) (s.world.record (.received y data)) t.world :=
    htaken.grows
  have hacc' : ∀ z, .accepted s.ws.conn z ∈ t.world.log → z = y := by
    intro z hz
    rcases hgrows.mem_or hz with hz | hz | ⟨c, st, d, hz⟩
    · refine hone z ?_
      simpa using hz
    · cases hz
    · cases hz
  have hop : ∀ z, .opened s.ws.conn z ∈ t.world.log → z = s.world.socks := by
    intro z hz
    rcases hgrows.mem_or hz with hz | hz | ⟨c, st, d, hz⟩
    · refine absurd ?_ (hnone z)
      simpa using hz
    · exact hz
    · cases hz
  -- nothing was written to the new peer
  have hwritten : Websocksy.written s.world.socks t.world.log = [] := by
    rw [hgrows.written]
    · rw [World.record_log, written_append, fresh_written hknown]
      rfl
    · rintro d (hd | ⟨c, st, d', hd⟩)
      · have hd : s.world.socks = y := hd
        omega
      · cases hd
  have hreceived : Websocksy.received y t.world.log = Websocksy.received y s.world.log ++ data := by
    rw [hgrows.received]
    · rw [World.record_log, received_append]
      simp [Websocksy.received, recvs]
    · rintro d hd (hn | ⟨c, st, d', hn⟩)
      · exact hn
      · cases hn
  have hhandled : handledLines s.ws.conn t.world.log = handledLines s.ws.conn s.world.log ++ ls := by
    have hh := htaken.handled
    dsimp only at hh
    rw [hh, World.record_log, handledLines_append]
    simp [handledLines]
  refine ⟨⟨?_, ?_⟩, ?_, hleft, ?_, ?_⟩
  · intro z hz
    rw [hconn] at hz
    obtain rfl := hacc' z hz
    rw [hconn, hreceived, hhandled, h.received z hacc, hlive, lineBytes_append]
    simp only [List.flatMap_nil, List.append_nil, List.append_assoc]
    rw [hbytes]
  · intro z hz
    rw [hconn] at hz
    rw [hop z hz, hwritten]
    exact List.nil_prefix
  · intro z z' hz hz'
    rw [hconn] at hz hz'
    rw [hop z hz, hacc' z' hz']
    omega
  · intro hin
    refine ⟨rfl, ?_⟩
    intro z hz
    rw [hconn] at hz
    refine hnone z ?_
    have hm := htaken.quiet hin _ _ hz
    simpa using hm
  · intro hopen z hz
    rw [hconn] at hz
    rw [hop z hz]
    exact ⟨htaken.peer hopen, hwritten⟩

/-! ## Reads in the open phase -/

/-- The frames of a client of which `data` was received. -/
theorem Forwarding.frames {last : Bytes} {v : Conn φ}
    (h : Forwarding s.ws fs rest s.world) (hopen : s.ws.state = .wsOpen)
    (hone : ∀ z, .accepted s.ws.conn z ∈ s.world.log → z = y)
    (hacc : .accepted s.ws.conn y ∈ s.world.log)
    (hpeer : s.world.sockAt s.ws.peerFd = some x)
    (hv : v.world = s.world.record (.received y data)) (hconn : v.ws.conn = s.ws.conn)
    (hlive : v.ws.live = s.ws.live ++ data)
    (htaken : FramesTaken x y v t gs last) : Forwarding t.ws (fs ++ gs) last t.world := by
  have hconn' : t.ws.conn = s.ws.conn := htaken.conn.trans hconn
  have hrest : rest = s.ws.live := by
    apply h.live
    rw [hopen]
    simp
  have hgrows : Grows (Event.Forward x y) (s.world.record (.received y data)) t.world := by
    rw [← hv]
    exact htaken.grows
  have hacc' : ∀ z, .accepted s.ws.conn z ∈ t.world.log → .accepted s.ws.conn z ∈ s.world.log := by
    intro z hz
    have hm := (hgrows.mem_iff (e := .accepted s.ws.conn z) id).mp hz
    simpa using hm
  have hop : ∀ z, .opened s.ws.conn z ∈ t.world.log → .opened s.ws.conn z ∈ s.world.log := by
    intro z hz
    have hm := (hgrows.mem_iff (e := .opened s.ws.conn z) id).mp hz
    simpa using hm
  have hpeer' : ∀ z, .opened s.ws.conn z ∈ t.world.log →
      z = x ∧ Websocksy.written x s.world.log = toPeer fs := by
    intro z hz
    obtain ⟨hfd, hw⟩ := h.peer hopen z (hop z hz)
    rw [hpeer] at hfd
    cases hfd
    exact ⟨rfl, hw⟩
  have hreceived : Websocksy.received y t.world.log = Websocksy.received y s.world.log ++ data := by
    rw [hgrows.received fun d _ hn => hn, World.record_log, received_append]
    simp [Websocksy.received, recvs]
  have hhandled : handledLines s.ws.conn t.world.log = handledLines s.ws.conn s.world.log := by
    rw [hgrows.handledLines fun st d hn => hn, World.record_log, handledLines_append]
    simp [handledLines]
  have hquiet : Websocksy.written x v.world.log = Websocksy.written x s.world.log := by
    rw [hv, World.record_log, written_append]
    simp [Websocksy.written]
  have hbytes : s.ws.live ++ data = gs.flatMap (·.encode) ++ last := by
    rw [← hlive]
    exact htaken.bytes
  have hprefix : ∃ d, d <+: toPeer gs ∧
      Websocksy.written x t.world.log = Websocksy.written x s.world.log ++ d := by
    rw [← hquiet]
    rcases htaken.sent with ⟨-, -, hs⟩ | ⟨-, d, hd, hs⟩
    · exact ⟨_, List.prefix_rfl, hs⟩
    · exact ⟨d, hd, hs⟩
  refine ⟨⟨?_, ?_⟩, ?_, ?_, ?_, ?_⟩
  · intro z hz
    rw [hconn'] at hz
    obtain rfl := hone z (hacc' z hz)
    rw [hconn', hreceived, hhandled, h.received z hacc, hrest, List.flatMap_append]
    simp only [List.append_assoc]
    rw [hbytes]
  · intro z hz
    rw [hconn'] at hz
    obtain ⟨rfl, hw⟩ := hpeer' z hz
    obtain ⟨d, hd, hs⟩ := hprefix
    rw [hs, hw, toPeer_append]
    exact (List.prefix_append_right_inj _).mpr hd
  · intro z z' hz hz'
    rw [hconn'] at hz hz'
    exact h.apart z z' (hop z hz) (hacc' z' hz')
  · intro hc
    rcases htaken.sent with ⟨-, hl, -⟩ | ⟨hclosed, -⟩
    · exact hl.symm
    · exact absurd hclosed hc
  · intro hin
    exfalso
    rcases htaken.sent with ⟨ho, -⟩ | ⟨hclosed, -⟩
    · rcases hin with hin | hin <;>
        · rw [ho.state] at hin
          cases hin
    · rcases hin with hin | hin <;>
        · rw [hclosed] at hin
          cases hin
  · intro hstill z hz
    rw [hconn'] at hz
    obtain ⟨rfl, hw⟩ := hpeer' z hz
    rcases htaken.sent with ⟨ho, -, hs⟩ | ⟨hclosed, -⟩
    · refine ⟨ho.peer, ?_⟩
      rw [hs, hquiet, hw, toPeer_append]
    · rw [hclosed] at hstill
      cases hstill

end

/-! ## Calls of `ws_data` -/

section

variable {env : Env φ} {s t : Conn φ} {x y : Nat} {fs : List ClientFrame} {rest data : Bytes}

/-- The line loop over received bytes handles their lines. -/
theorem scanned_taken (hs : Sound env s) (hin : InHttp s.ws)
    (hy : ∀ z, s.world.sockAt s.ws.wsFd = some z → z = y)
    (hends : EndsLast s.ws (recvLines s.ws data)) (n : Nat) {r : Nat × Conn φ}
    (hr : wsScan env data.length 0 data.length
      ⟨s.ws.filled data, s.world.record (.received y data)⟩ = r) :
    Scanned env ⟨s.ws.filled data, s.world.record (.received y data)⟩ data r ∧
      LinesTaken y (recvLines s.ws data) ⟨s.ws, s.world.record (.received y data)⟩
        ⟨{ r.2.ws with readBufferOffset := n }, r.2.world⟩ := by
  obtain ⟨hscan, hlines, -⟩ := received_scanned env y hends
  rw [hr] at hscan
  refine ⟨hscan, ?_⟩
  have hbare : (s.ws.filled data).bare = s.ws.bare := rfl
  have hsound : Sound env ⟨s.ws.filled data, s.world.record (.received y data)⟩ :=
    ⟨hs.state.of_bare hbare.symm, hs.numbered, hs.held⟩
  have htaken := wsTakeLines_taken (recvLines s.ws data) hsound hin hy
    ((EndsLast_bare hbare _).mpr hends)
  have halike := hscan.taken
  rw [hlines] at halike
  have hworld := halike.world
  rw [view_all, view_all] at hworld
  have hws := halike.ws
  have hstate := bare_congr Websocket.state hws fun _ => rfl
  have hpeerFd := bare_congr Websocket.peerFd hws fun _ => rfl
  have hwsFd := bare_congr Websocket.wsFd hws fun _ => rfl
  have hconn := bare_congr Websocket.conn hws fun _ => rfl
  constructor
  · exact hconn.trans htaken.conn
  · dsimp only
    rw [hworld]
    exact htaken.handled
  · dsimp only
    rw [hworld]
    exact htaken.grows
  · intro hin'
    unfold InHttp at hin'
    dsimp only at hin' ⊢
    rw [hstate] at hin'
    rw [hworld]
    exact htaken.quiet hin'
  · intro hopen
    dsimp only at hopen ⊢
    rw [hstate] at hopen
    rw [hworld, hpeerFd]
    exact htaken.peer hopen
  · intro z hz
    dsimp only at hz
    rw [hworld, hwsFd] at hz
    exact htaken.client z hz

/-- **`ws_data`** forwards what it receives. -/
theorem Forwarding.read {answer : Option Bytes} (h : Forwarding s.ws fs rest s.world)
    (hs : Sound env s) (hoff : s.ws.readBufferOffset ≤ wsMaxLine - 2)
    (hknown : ∀ e ∈ s.world.log, e.Known s.world.conns s.world.socks)
    (hclient : s.world.sockAt s.ws.wsFd = some y)
    (hacc : .accepted s.ws.conn y ∈ s.world.log)
    (hone : ∀ z, .accepted s.ws.conn z ∈ s.world.log → z = y)
    (hok : ∀ b, answer = some b → InHttp s.ws →
      EndsLast s.ws (recvLines s.ws (b.take (wsMaxLine - s.ws.readBufferOffset - 1))) ∧
      (s.ws.readBufferOffset = 0 ∨
        cutLine (b.take (wsMaxLine - s.ws.readBufferOffset - 1)) ≠ none))
    (ht : wsData env answer s = some t) : ∃ gs last, Forwarding t.ws gs last t.world := by
  have hmax : wsMaxLine = 16384 := rfl
  have hy : ∀ z, s.world.sockAt s.ws.wsFd = some z → z = y := by
    intro z hz
    rw [hclient] at hz
    exact (Option.some.inj hz).symm
  cases wsData_cases ht with
  | nothing r w hrecv hnil =>
      -- the connection is closed, and nothing was received
      have hnote {e : Event} (he : ¬e.Inbound s.ws.conn s.world.log) :
          Forwarding s.ws fs rest (s.world.record e) := by
        refine h.beside (s := s) (t := ⟨s.ws, s.world.record e⟩)
          (K := fun e => ¬e.Inbound s.ws.conn s.world.log) ⟨rfl, .record he _, .inr ?_⟩
          fun _ hn => hn
        exact ⟨rfl, rfl, rfl, rfl⟩
      have hclose {e : Event} (he : ¬e.Inbound s.ws.conn s.world.log)
          (hno : ∀ z, e ≠ .opened s.ws.conn z) :
          ∃ gs last, Forwarding (wsClose env .unexpected none ⟨s.ws, s.world.record e⟩).ws gs last
            (wsClose env .unexpected none ⟨s.ws, s.world.record e⟩).world := by
        refine ⟨fs, rest, (hnote he).close (s := ⟨s.ws, s.world.record e⟩) ?_ _ _⟩
        intro z hz hm
        obtain rfl := hy z hz
        rw [World.record_log, List.mem_append, List.mem_singleton] at hm
        rcases hm with hm | hm
        · exact h.apart z z hm hacc rfl
        · exact hno z hm.symm
      cases hrecv with
      | closed hnone =>
          rw [hclient] at hnone
          cases hnone
      | failed z hz ha => exact hclose id (by simp)
      | data z b hz ha =>
          have hempty : b.take (wsMaxLine - s.ws.readBufferOffset - 1) = [] := by
            rcases hnil with hnil | hnil
            · cases hnil
            · exact Option.some.inj hnil
          rw [hempty]
          exact hclose (fun hn => hn.2 rfl) (by simp)
  | data z b data u hz ha hb hne hu =>
      obtain rfl := hy z hz
      obtain ⟨gs, last, hforward, hsock, hmem⟩ : ∃ gs last, Forwarding u.ws gs last u.world ∧
          (∀ z', u.world.sockAt u.ws.wsFd = some z' → z' = z) ∧
          .accepted u.ws.conn z ∈ u.world.log := by
        have hmem : .accepted s.ws.conn z ∈ (s.world.record (.received z data)).log := by
          rw [World.record_log]
          exact List.mem_append_left _ hacc
        have hswitch := hu
        unfold wsDataSwitch at hu
        by_cases hin : InHttp s.ws
        · obtain ⟨hends, hwhole⟩ := hok b ha hin
          rw [← hb] at hends hwhole
          generalize hr : wsScan env data.length 0 data.length
            ⟨s.ws.filled data, s.world.record (.received z data)⟩ = r at hu
          have hu' : u = ⟨{ r.2.ws with readBufferOffset := r.1 }, r.2.world⟩ := by
            rcases hin with hin | hin <;>
              · rw [show (s.ws.filled data).state = _ from hin] at hu
                exact (Option.some.inj hu).symm
          obtain ⟨hscan, htaken⟩ := scanned_taken hs hin hy hends r.1 hr
          rw [← hu'] at htaken
          have hforward := h.lines hin hknown hone hacc htaken (recvLines_bytes hwhole) (by
            intro hopen
            rw [hu'] at hopen ⊢
            exact (scanned_left hscan (slice_filled s.ws data).2 hwhole hopen).symm)
          refine ⟨_, _, hforward, htaken.client, ?_⟩
          rw [htaken.conn]
          exact htaken.grows.mem hmem
        · have hopen : s.ws.state = .wsOpen := by
            cases hstate : s.ws.state with
            | wsNew => exact absurd (.inl hstate) hin
            | wsHttp => exact absurd (.inr hstate) hin
            | wsOpen => rfl
            | wsClosed =>
                rw [(hs.state.closed hstate).1] at hclient
                cases hclient
          rw [show (s.ws.filled data).state = _ from hopen] at hu
          obtain ⟨-, hpeer⟩ := hs.state.opened hopen
          obtain ⟨fd, hfd⟩ := Option.isSome_iff_exists.mp hpeer
          obtain ⟨x, -, hx⟩ := hs.held.2 fd (by simp [Websocket.held, hfd])
          have hx : s.world.sockAt s.ws.peerFd = some x := by
            rw [hfd]
            exact hx
          have hlen : data.length ≤ wsMaxLine - s.ws.readBufferOffset - 1 := by
            rw [hb, List.length_take]
            omega
          have hxy : x ≠ z := by
            rintro rfl
            exact hs.apart hx hclient
          have hbound : s.ws.readBufferOffset + data.length ≤ wsMaxLine - 1 := by omega
          obtain ⟨gs, last, htaken⟩ := wsFrames_taken (x := x) (y := z)
            (s := ⟨{ s.ws.filled data with
              readBufferOffset := s.ws.readBufferOffset + data.length },
              s.world.record (.received z data)⟩)
            (s.ws.readBufferOffset + data.length + 1) ⟨hopen, hx, hclient⟩ hxy hbound hu
          obtain ⟨hlive, hdata⟩ := slice_filled s.ws data
          have hfilled : ({ s.ws.filled data with
              readBufferOffset := s.ws.readBufferOffset + data.length } : Websocket φ).live =
                s.ws.live ++ data := by
            unfold Websocket.live at hlive ⊢
            dsimp only
            rw [slice_add, hlive, Nat.zero_add, hdata]
          have hforward := h.frames hopen hone hacc hx (v := ⟨{ s.ws.filled data with
              readBufferOffset := s.ws.readBufferOffset + data.length },
              s.world.record (.received z data)⟩) rfl rfl hfilled htaken
          refine ⟨_, _, hforward, htaken.client, ?_⟩
          rw [htaken.conn]
          exact htaken.grows.mem hmem
      split
      · refine ⟨gs, last, hforward.close ?_ _ _⟩
        intro z' hz' hm
        rw [hsock z' hz'] at hm
        exact hforward.apart z z hm hmem rfl
      · exact ⟨gs, last, hforward⟩

end

/-! ## Runs -/

/-- In the HTTP phase, a read keeps what is in the buffer; no line of it follows one that ends the
phase, in which no CRLF was parted. -/
def ReadsWhole (c : Core φ) (i : Input) : Prop :=
  ∀ p ∈ c.dataCall i, InHttp p.1 →
    EndsLast p.1 (recvLines p.1 p.2) ∧ (p.1.readBufferOffset = 0 ∨ cutLine p.2 ≠ none)

instance (c : Core φ) (i : Input) : Decidable (ReadsWhole c i) :=
  match h : c.dataCall i with
  | none => isTrue (by simp [ReadsWhole, h])
  | some p =>
    decidable_of_iff (InHttp p.1 → EndsLast p.1 (recvLines p.1 p.2) ∧
      (p.1.readBufferOffset = 0 ∨ cutLine p.2 ≠ none)) (by simp [ReadsWhole, h])

section

variable {env : Env φ} {conn y : Nat} {w w' : World} {ws : Websocket φ}

theorem Event.Inbound.of {log : List Event} {e : Event} (h : e.Inbound conn log) :
    e.Of conn fun x => GivenTo conn x log := by
  cases e with
  | accepted c x => exact h
  | opened c x => exact h
  | line c st d => exact h
  | received x d => exact .inl h.1
  | wrote x d => exact .inr h
  | _ => cases h

/-- The client of a connection is not its peer. -/
theorem GivenInv.client_unopened {sock : List (Websocket φ)} (hi : GivenInv sock w)
    (hm : ws ∈ sock) {z : Nat} (hz : w.sockAt ws.wsFd = some z) : .opened ws.conn z ∉ w.log :=
  hi.role ws.conn ws.conn z (hi.client ws hm z hz)

theorem Forwarding.start (now : Int) (accepts : Bool)
    (hknown : ∀ e ∈ w.log, e.Known w.conns w.socks) :
    Forwarding (acceptedConn now accepts w : Websocket φ) [] [] (w.accept accepts) := by
  have hacc : ∀ z, .accepted w.conns z ∈ (w.accept accepts).log → z = w.socks :=
    fun z hz => ((accept_fresh hknown accepts z).1 hz).2
  have hop : ∀ z, .opened w.conns z ∉ (w.accept accepts).log :=
    fun z => (accept_fresh hknown accepts z).2
  have hreceived : received w.socks (w.accept accepts).log = [] := by
    rw [accept_log, received_append, fresh_received hknown]
    cases accepts <;> rfl
  have hlines : handledLines w.conns (w.accept accepts).log = [] := by
    rw [accept_log, handledLines_append, fresh_handledLines hknown]
    cases accepts <;> rfl
  refine ⟨⟨?_, ?_⟩, ?_, fun _ => rfl, ?_, ?_⟩
  · intro z hz
    rw [hacc z hz, hreceived, show (acceptedConn now accepts w : Websocket φ).conn = w.conns from rfl,
      hlines]
    rfl
  · intro z hz
    exact absurd hz (hop z)
  · intro z z' hz
    exact absurd hz (hop z)
  · intro _
    exact ⟨rfl, hop⟩
  · intro hopen
    cases hopen

/-- The stream of every connection. -/
theorem forwardRule (env : Env φ) : ConnRule env ReadsWhole
    (fun ws w => ∃ fs rest, Forwarding ws fs rest w)
    (fun conn w => ∃ fs rest, Forwarded conn fs rest w) where
  init conn w hlog := by
    refine ⟨[], [], ⟨?_, ?_⟩⟩ <;> simp [hlog]
  accept w now accepts hknown := ⟨[], [], .start now accepts hknown⟩
  aside ws w w' h ha hsock := by
    obtain ⟨fs, rest, h⟩ := h
    have hsame : ∀ fd : Option Nat, (∀ n ∈ fd, n ∈ ws.held) → w'.sockAt fd = w.sockAt fd := by
      intro fd hfd
      cases fd with
      | none => rfl
      | some n => exact hsock n (hfd n rfl)
    have hkept : Kept ⟨ws, w⟩ ⟨ws, w'⟩ := by
      refine ⟨rfl, rfl, hsame _ ?_, hsame _ ?_⟩
      · intro n hn
        have hn : ws.wsFd = some n := hn
        simp [Websocket.held, hn]
      · intro n hn
        have hn : ws.peerFd = some n := hn
        simp [Websocket.held, hn]
    exact ⟨fs, rest, h.beside (s := ⟨ws, w⟩) (t := ⟨ws, w'⟩) ⟨rfl, ha, .inr hkept⟩
      fun e hn hin => hn hin.of⟩
  ended ws w h _ := by
    obtain ⟨fs, rest, h⟩ := h
    exact ⟨fs, rest, h.toForwarded⟩
  gone conn w w' h ha := by
    obtain ⟨fs, rest, h⟩ := h
    exact ⟨fs, rest, h.grows ha fun e hn hin => hn hin.of⟩
  close sock ws w hs hi hm h := by
    obtain ⟨fs, rest, h⟩ := h
    exact ⟨fs, rest, h.close (s := ⟨ws, w⟩) (fun z hz => hi.client_unopened hm hz) _ _⟩
  serve c i n ws t ho hreg hi hn hserved h := by
    obtain ⟨fs, rest, h⟩ := h
    have hm := List.mem_of_getElem? hn
    have hslot := hreg.slots ws hm
    have hsound : Sound env ⟨ws, c.world⟩ := by
      obtain ⟨l₁, l₂, hs, -⟩ := put_split hn t .select
      rw [hs] at hreg hi
      exact hreg.sound hi.toHeldInv
    cases hserved with
    | data answer fuel fd t hinput hloc hfd hr ht =>
        obtain ⟨y, hy⟩ := hi.toHeldInv.is_open hm (show fd ∈ ws.held by simp [Websocket.held, hfd])
        rw [← hfd] at hy
        have hacc := hi.client ws hm y hy
        have hforward : Forwarding { ws with lastEvent := c.now } fs rest c.world := { h with }
        refine Forwarding.read (s := ⟨{ ws with lastEvent := c.now }, c.world⟩) hforward
          ⟨{ hsound.state with }, hsound.numbered, hsound.held⟩ hslot.readBuffer hi.known hy hacc
          ?_ ?_ ht
        · intro z hz
          exact hi.one ws.conn z y hz hacc
        · intro b hb hin
          have hcall : (ws, b.take (wsMaxLine - ws.readBufferOffset - 1)) ∈ c.dataCall i := by
            subst hinput
            unfold Core.dataCall
            simp [hloc, hn, hfd, hr, hb]
          obtain ⟨hends, hwhole⟩ := ho _ hcall hin
          have hbare : ws.bare = ({ ws with lastEvent := c.now } : Websocket φ).bare := rfl
          exact ⟨(EndsLast_bare hbare _).mp hends, hwhole⟩
    | peer answer fuel fd r hinput hloc hfd hr ht =>
        obtain ⟨x, hx⟩ := hi.toHeldInv.is_open hm (show fd ∈ ws.held by simp [Websocket.held, hfd])
        rw [← hfd] at hx
        have hopen := hslot.open_of_peer hfd
        obtain ⟨gd, hgd⟩ := Option.isSome_iff_exists.mp (hslot.opened hopen).1
        obtain ⟨y, hy⟩ := hi.toHeldInv.is_open hm (show gd ∈ ws.held by simp [Websocket.held, hgd])
        rw [← hgd] at hy
        have hbeside := wsPeerData_beside (s := ⟨ws, c.world⟩) (x := x) (y := y) hx (by
          intro z hz
          dsimp only at hz
          rw [hy] at hz
          exact (Option.some.inj hz).symm) ht
        refine ⟨fs, rest, h.beside hbeside ?_⟩
        intro e he hin
        cases e with
        | received z d =>
            obtain rfl : z = x := he
            exact hi.role _ _ z hin.1 (hi.peer ws hm z hx)
        | wrote z d =>
            obtain rfl : z = y := he
            exact hi.client_unopened hm hy hin
        | accepted c x => exact he
        | opened c x => exact he
        | line c st d => exact he
        | _ => exact hin
    | ping answer fuel hinput hloc =>
        refine ⟨fs, rest, h.beside (s := ⟨ws, c.world⟩)
          (K := fun e => ¬e.Inbound ws.conn c.world.log)
          (wsKeepAlive_beside c.now id (fun _ => id) ?_) fun _ hn => hn⟩
        intro z hz
        exact ⟨id, fun d => hi.client_unopened hm hz⟩

/-- **From the client to the peer**: in every run in which reads in the HTTP phase keep what is in
the buffer and have no line behind the last, what a client sent are the lines that were handled,
then frames, then `rest`; its peer was written the data of these frames in their order, or the first
part of it if the connection is closed.  While the connection is there, `rest` is in its buffer and
the peer was written all of the data. -/
theorem client_stream_forwarded (env : Env φ) (c : Core φ) (h : (coreLoop env).Reach ReadsWhole c)
    (conn y : Nat) (hy : .accepted conn y ∈ c.world.log) :
    ∃ (fs : List ClientFrame) (rest : Bytes),
      received y c.world.log =
        lineBytes (handledLines conn c.world.log) ++ fs.flatMap (·.encode) ++ rest ∧
      (∀ x, .opened conn x ∈ c.world.log → written x c.world.log <+: toPeer fs) ∧
      ∀ ws ∈ c.sock, ws.conn = conn → ws.state ≠ .wsClosed →
        rest = ws.live ∧ ∀ x, .opened conn x ∈ c.world.log → written x c.world.log = toPeer fs := by
  have hi := coreLoop_givenInv h
  have hreg := coreLoop_registryInv h
  have hall := (forwardRule env).reach h
  have hlt : conn < c.world.conns := (hi.known _ hy).1
  by_cases hslot : ∃ ws ∈ c.sock, ws.conn = conn
  · obtain ⟨ws, hm, rfl⟩ := hslot
    obtain ⟨fs, rest, hf⟩ := hall.slots ws hm
    refine ⟨fs, rest, hf.received y hy, hf.written, ?_⟩
    intro ws' hm' hconn hstate
    obtain rfl : ws' = ws := List.inj_on_of_nodup_map hreg.distinct hm' hm hconn
    refine ⟨hf.live hstate, ?_⟩
    intro x hx
    cases hs : ws'.state with
    | wsNew => exact absurd hx ((hf.http (.inl hs)).2 x)
    | wsHttp => exact absurd hx ((hf.http (.inr hs)).2 x)
    | wsOpen => exact (hf.peer hs x hx).2
    | wsClosed => exact absurd hs hstate
  · obtain ⟨fs, rest, hf⟩ := hall.past conn hlt fun ws hm hc => hslot ⟨ws, hm, hc⟩
    refine ⟨fs, rest, hf.received y hy, hf.written, ?_⟩
    intro ws hm hconn
    exact absurd ⟨ws, hm, hconn⟩ hslot

end

/-- The client sends a frame with data and a part of the next. -/
def sampleSending : List Input :=
  sampleOpened ++ [.select [4] 2 false,
    .serve (some (sampleFrames.1.encode ++ sampleFrames.2.1.encode.take 3)) 0]

theorem sampleSending_runs : ((coreLoop sampleEnv).exec sampleSending sampleCore).isSome := by
  decide +kernel

theorem client_stream_forwarded_sample :
    let c := ((coreLoop sampleEnv).exec sampleSending sampleCore).get sampleSending_runs
    written 5 c.world.log = ascii "hello" ∧
    ∃ (fs : List ClientFrame) (rest : Bytes),
      received 4 c.world.log =
        lineBytes (handledLines 0 c.world.log) ++ fs.flatMap (·.encode) ++ rest ∧
      (∀ x, .opened 0 x ∈ c.world.log → written x c.world.log <+: toPeer fs) ∧
      ∀ ws ∈ c.sock, ws.conn = 0 → ws.state ≠ .wsClosed →
        rest = ws.live ∧ ∀ x, .opened 0 x ∈ c.world.log → written x c.world.log = toPeer fs :=
  ⟨by decide +kernel, client_stream_forwarded sampleEnv _
    (.exec (.init sampleCore_init) sampleSending (by decide +kernel)
      (Option.some_get sampleSending_runs).symm) 0 4 (by decide +kernel)⟩

end Websocksy

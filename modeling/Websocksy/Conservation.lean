import Websocksy.Log
import Websocksy.Invariant

/-!
# What the read buffer holds in the HTTP phase

Every byte received should be in a line that was handed over, in its CRLF, or
still in the buffer (`Conserved`).  A call of `ws_data` keeps this exactly when
the buffer was empty before it or the received bytes hold a whole CRLF
(`conservation_iff`): without one, the offset is set to the number of bytes
received, and what was in the buffer before is counted no longer.
-/

namespace Websocksy

open Buffer CString Lines Relation

variable {φ : Type}

def Conserved (x : Nat) (s : Conn φ) : Prop :=
  received x s.world.log =
    ((handledLines s.ws.conn s.world.log).map (· ++ crlf)).flatten ++ s.ws.live

instance (x : Nat) (s : Conn φ) : Decidable (Conserved x s) := inferInstanceAs (Decidable (_ = _))

def InHttp (ws : Websocket φ) : Prop := ws.state = .wsNew ∨ ws.state = .wsHttp

instance (ws : Websocket φ) : Decidable (InHttp ws) := inferInstanceAs (Decidable (_ ∨ _))

/-! ## Lines that do not end the phase -/

/-- None of the lines ends the HTTP phase. -/
def NoneEnds (ws : Websocket φ) : List Bytes → Prop
  | [] => True
  | l :: ls => lineEnds ws l = false ∧ NoneEnds (lineQuiet ws l) ls

theorem NoneEnds.endsLast {ws : Websocket φ} {ls : List Bytes} (h : NoneEnds ws ls) :
    EndsLast ws ls := by
  induction ls generalizing ws with
  | nil => trivial
  | cons l ls ih =>
      unfold EndsLast
      rw [if_neg (by simp [h.1])]
      exact ih h.2

theorem NoneEnds_bare {ws ws' : Websocket φ} (h : ws.bare = ws'.bare) (ls : List Bytes) :
    NoneEnds ws ls ↔ NoneEnds ws' ls := by
  induction ls generalizing ws ws' with
  | nil => rfl
  | cons l ls ih =>
      unfold NoneEnds
      rw [lineEnds_bare l h, ih (lineQuiet_bare l h)]

section

variable {env : Env φ} {s t : Conn φ}

theorem lineQuiet_conn (ws : Websocket φ) (line : Bytes) :
    (lineQuiet ws line).conn = ws.conn ∧ (lineQuiet ws line).wsFd = ws.wsFd := by
  unfold lineQuiet
  split
  · split <;> exact ⟨rfl, rfl⟩
  · split
    · exact ⟨rfl, rfl⟩
    · next tag value _ =>
      obtain ⟨hs, ver, key, up, ps, h⟩ := wsHeader_eq tag (ltrim value) ws
      rw [h]
      exact ⟨rfl, rfl⟩

/-- Such lines leave nothing but their notes in the log. -/
theorem wsTakeLines_quiet (env : Env φ) (ls : List Bytes) (h : NoneEnds s.ws ls) :
    (wsTakeLines env ls s).world.fds = s.world.fds ∧
    (∀ x, received x (wsTakeLines env ls s).world.log = received x s.world.log) ∧
    handledLines s.ws.conn (wsTakeLines env ls s).world.log =
      handledLines s.ws.conn s.world.log ++ ls ∧
    (wsTakeLines env ls s).ws.conn = s.ws.conn ∧ (wsTakeLines env ls s).ws.wsFd = s.ws.wsFd := by
  induction ls generalizing s with
  | nil => exact ⟨rfl, fun _ => rfl, by simp [wsTakeLines], rfl, rfl⟩
  | cons l ls ih =>
      have hq := wsTakeLine_quiet env h.1
      obtain ⟨hconn, hfd⟩ := lineQuiet_conn s.ws l
      obtain ⟨h1, h2, h3, h4, h5⟩ := ih (s := wsTakeLine env l s) (by rw [hq]; exact h.2)
      rw [hq] at h1 h2 h3 h4 h5
      have hfold : wsTakeLines env (l :: ls) s =
          wsTakeLines env ls ⟨lineQuiet s.ws l, s.world.record (.line s.ws.conn s.ws.state l)⟩ := by
        rw [← hq]
        rfl
      rw [hfold]
      dsimp only at h1 h2 h3 h4 h5
      rw [hconn] at h3 h4
      refine ⟨h1, fun x => ?_, ?_, h4, h5.trans hfd⟩
      · rw [h2]
        simp [received, recvs]
      · rw [h3]
        simp [handledLines]

/-- Once it is over, no line brings the HTTP phase back. -/
theorem wsTakeLine_over (l : Bytes) (h : ¬InHttp s.ws) : ¬InHttp (wsTakeLine env l s).ws := by
  unfold InHttp at h ⊢
  cases he : lineEnds s.ws l with
  | false =>
      rw [wsTakeLine_quiet env he]
      rcases lineQuiet_state s.ws l with e | ⟨e, -⟩
      · rwa [e]
      · exact absurd (.inl e) h
  | true =>
      rcases (wsTakeLine_ends env he).buffer.2 with ⟨e, -⟩ | ⟨e, -⟩ <;> rw [e] <;> simp

theorem wsScan_over (bytesRead : Nat) (h : ¬InHttp s.ws) :
    ¬InHttp (wsScan env bytesRead 0 bytesRead s).2.ws := by
  refine (wsScan_acts (A := Scope.all) (P := fun s => ¬InHttp s.ws) trivial
    (fun s t hs ha => ?_) (fun s l hs => ⟨wsTakeLine_acts l trivial fun _ _ => trivial,
      wsTakeLine_over l hs⟩) bytesRead h).2
  unfold InHttp at hs ⊢
  rwa [bare_congr Websocket.state ha.ws.symm fun _ => rfl]

/-- A line loop that leaves the connection in the HTTP phase handed over no line that
ends it. -/
theorem noneEnds_of_scan (env : Env φ) (bytesRead : Nat) (data : Bytes)
    (hdata : slice s.ws.readBuffer s.ws.readBufferOffset bytesRead = data)
    (h : InHttp (wsScan env bytesRead 0 bytesRead s).2.ws) :
    NoneEnds s.ws (recvLines s.ws data) := by
  induction hb : bytesRead using Nat.strongRecOn generalizing bytesRead s data with
  | ind n ih =>
      subst hb
      rw [wsScan_line, hdata] at h
      cases hc : cutLine data with
      | none =>
          have hls : recvLines s.ws data = [] := by
            rw [recvLines, show lines.drain data = ([], data) from lines.drain_none hc]
            rfl
          rw [hls]
          trivial
      | some p =>
          obtain ⟨l, r⟩ := p
          have hlt : r.length < bytesRead := by
            have := lines.shorter hc
            rwa [← hdata, length_slice] at this
          have hcut : cutLine (slice s.ws.readBuffer s.ws.readBufferOffset bytesRead) =
              some (l, r) := by rw [hdata, hc]
          obtain ⟨halike, hzero, hkeep, -⟩ := wsDropLine_spec env hcut
          rw [hc] at h
          dsimp only at h
          generalize wsDropLine l.length r.length (wsHandOver env l.length s) = u at *
          have hlines : recvLines s.ws data =
              (slice s.ws.readBuffer 0 s.ws.readBufferOffset ++ l) :: (lines.drain r).1 := by
            rw [recvLines, lines.drain_some hc]
            rfl
          generalize slice s.ws.readBuffer 0 s.ws.readBufferOffset ++ l = line at *
          rw [hlines]
          cases hends : lineEnds s.ws line with
          | true =>
              have hover : ¬InHttp u.ws := by
                unfold InHttp
                rw [bare_congr Websocket.state halike.ws fun _ => rfl]
                rcases (wsTakeLine_ends env hends).buffer.2 with ⟨e, -⟩ | ⟨e, -⟩ <;> rw [e] <;> simp
              exact absurd h (wsScan_over r.length hover)
          | false =>
              have hwin := hkeep (wsTakeLine_quiet_offset env hends)
              have hrest := ih r.length hlt r.length r (by rw [hzero, hwin]) h rfl
              rw [recvLines, hzero, slice_zero, withPending_nil, NoneEnds_bare halike.ws,
                wsTakeLine_quiet env hends] at hrest
              exact ⟨hends, hrest⟩

/-! ## One call of `ws_data` -/

theorem Ended.acts (h : Ended env s t) (hn : s.ws.state ≠ .wsNew) : Acts env Scope.all s t := by
  cases h with
  | upgrade hr => exact .single (.upgrade trivial hn hr)
  | version _ => exact .single (.close _ _ fun _ r hr => by cases hr; simp [httpErrors])
  | folding => exact .single (.close _ _ fun _ r hr => by cases hr; simp [httpErrors])
  | format => exact .single (.close _ _ fun _ r hr => by cases hr; simp [httpErrors])

/-- A line that is handed over is noted first. -/
theorem wsTakeLine_log (env : Env φ) (l : Bytes) (s : Conn φ) :
    ∃ es, (wsTakeLine env l s).world.log = s.world.log ++ .line s.ws.conn s.ws.state l :: es := by
  cases he : lineEnds s.ws l with
  | false =>
      rw [wsTakeLine_quiet env he]
      exact ⟨[], rfl⟩
  | true =>
      have hn : s.ws.state ≠ .wsNew := by
        intro hn
        simp [lineEnds, hn] at he
      obtain ⟨es, hes, -⟩ := ((wsTakeLine_ends env he).acts hn).isLocal.log
      exact ⟨es, by rw [hes]; simp⟩

/-- If the received bytes hold a line, a line was handed over. -/
theorem wsScan_handled (env : Env φ) {bytesRead : Nat}
    (hc : cutLine (slice s.ws.readBuffer s.ws.readBufferOffset bytesRead) ≠ none) :
    handledLines s.ws.conn (wsScan env bytesRead 0 bytesRead s).2.world.log ≠ [] := by
  rw [wsScan_line]
  cases hc' : cutLine (slice s.ws.readBuffer s.ws.readBufferOffset bytesRead) with
  | none => exact absurd hc' hc
  | some p =>
      obtain ⟨l, r⟩ := p
      obtain ⟨halike, -, -, -⟩ := wsDropLine_spec env hc'
      dsimp only
      generalize wsDropLine l.length r.length (wsHandOver env l.length s) = u at *
      generalize slice s.ws.readBuffer 0 s.ws.readBufferOffset ++ l = line at *
      obtain ⟨es, hes⟩ := wsTakeLine_log env line s
      obtain ⟨fs, hfs, -⟩ := (wsScan_acts_all env r.length u).isLocal.log
      have hw : u.world = (wsTakeLine env line s).world := by
        have := halike.world
        rwa [view_all, view_all] at this
      rw [hfs, hw, hes, handledLines_append, handledLines_append]
      simp [handledLines]

/-- `ws_data` in the HTTP phase. -/
theorem wsData_http {x : Nat} {b data : Bytes} (hs : InHttp s.ws)
    (hx : s.world.sockAt s.ws.wsFd = some x)
    (hb : data = b.take (wsMaxLine - s.ws.readBufferOffset - 1)) (hne : data ≠ []) :
    wsData env (some b) s =
      let r := wsScan env data.length 0 data.length
        ⟨s.ws.filled data, s.world.record (.received x data)⟩
      let u : Conn φ := { r.2 with ws := { r.2.ws with readBufferOffset := r.1 } }
      some (if wsMaxLine - r.1 < 2 then
        wsClose env .limit (some (ascii "Receive size limit exceeded")) u else u) := by
  have hrecv : recv s.ws.wsFd (wsMaxLine - s.ws.readBufferOffset - 1) (some b) s.world =
      (some data, s.world.record (.received x data)) := by
    unfold recv
    rw [hx, hb]
  have hswitch : wsDataSwitch env data.length
      ⟨s.ws.filled data, s.world.record (.received x data)⟩ =
      let r := wsScan env data.length 0 data.length
        ⟨s.ws.filled data, s.world.record (.received x data)⟩
      some { r.2 with ws := { r.2.ws with readBufferOffset := r.1 } } := by
    unfold wsDataSwitch
    rcases hs with h | h <;> simp [Websocket.filled, h]
  unfold wsData
  rw [hrecv]
  cases hd : data with
  | nil => exact absurd hd hne
  | cons y ys =>
      rw [hd] at hswitch
      dsimp only
      rw [show Conn.mk { s.ws with
          readBuffer := write s.ws.readBuffer s.ws.readBufferOffset (y :: ys ++ [0]) }
          (s.world.record (.received x (y :: ys))) =
        ⟨s.ws.filled (y :: ys), s.world.record (.received x (y :: ys))⟩ from rfl, hswitch]
      rfl

/-- The condition on a call: the buffer is empty, or a whole CRLF arrives. -/
def WholeLine (ws : Websocket φ) (b : Bytes) : Prop :=
  ws.readBufferOffset = 0 ∨ cutLine (b.take (wsMaxLine - ws.readBufferOffset - 1)) ≠ none

instance (ws : Websocket φ) (b : Bytes) : Decidable (WholeLine ws b) :=
  inferInstanceAs (Decidable (_ ∨ _))

/-- Without a CRLF the line loop only sets the offset. -/
theorem wsScan_none {env : Env φ} {data : Bytes} (hc : cutLine data = none)
    (hwin : slice s.ws.readBuffer s.ws.readBufferOffset data.length = data) :
    wsScan env data.length 0 data.length s = (data.length, s) := by
  rw [wsScan_line, hwin, hc]

/-- A line loop that stays in the HTTP phase hands over the lines and leaves the rest alone. -/
theorem wsScan_quiet {env : Env φ} {data : Bytes}
    (hwin : slice s.ws.readBuffer s.ws.readBufferOffset data.length = data)
    (hin : InHttp (wsScan env data.length 0 data.length s).2.ws) :
    let t := (wsScan env data.length 0 data.length s).2
    (∀ fd, t.world.sockAt fd = s.world.sockAt fd) ∧
      (∀ x, received x t.world.log = received x s.world.log) ∧
      handledLines s.ws.conn t.world.log =
        handledLines s.ws.conn s.world.log ++ recvLines s.ws data ∧
      t.ws.conn = s.ws.conn ∧ t.ws.wsFd = s.ws.wsFd := by
  have hnone := noneEnds_of_scan env data.length data hwin hin
  have hscan := wsScan_lines env data.length s data hwin hnone.endsLast
  obtain ⟨hfds, hrecv, hhandled, hconn, hfd⟩ := wsTakeLines_quiet env _ hnone
  have hworld : (wsScan env data.length 0 data.length s).2.world =
      (wsTakeLines env (recvLines s.ws data) s).world := by
    have := hscan.taken.world
    rwa [view_all, view_all] at this
  dsimp only
  rw [hworld]
  refine ⟨?_, hrecv, hhandled, ?_, ?_⟩
  · intro fd
    rw [World.sockAt, hfds]
    rfl
  · rw [bare_congr Websocket.conn hscan.taken.ws fun _ => rfl, hconn]
  · rw [bare_congr Websocket.wsFd hscan.taken.ws fun _ => rfl, hfd]

/-- What the line loop leaves in the buffer, where the received bytes hold a line. -/
theorem wsScan_left {env : Env φ} {data : Bytes}
    (hwin : slice s.ws.readBuffer s.ws.readBufferOffset data.length = data)
    (hin : InHttp (wsScan env data.length 0 data.length s).2.ws)
    (hd : (lines.drain data).1 ≠ []) :
    slice (wsScan env data.length 0 data.length s).2.ws.readBuffer 0
      (wsScan env data.length 0 data.length s).1 = (lines.drain data).2 := by
  have hnone := noneEnds_of_scan env data.length data hwin hin
  have hscan := wsScan_lines env data.length s data hwin hnone.endsLast
  refine hscan.tail ?_ ?_
  · rw [recvLines, ne_eq, withPending_eq_nil]
    exact hd
  · rcases hin with h | h <;> rw [h] <;> simp

/-- A line loop that stays in the HTTP phase keeps all bytes if the buffer was empty or the
received bytes hold a line, and only then. -/
theorem wsScan_conserves (env : Env φ) {x : Nat} (data : Bytes) (hc : Conserved x s)
    (hin : InHttp (wsScan env data.length 0 data.length
      ⟨s.ws.filled data, s.world.record (.received x data)⟩).2.ws) :
    let r := wsScan env data.length 0 data.length
      ⟨s.ws.filled data, s.world.record (.received x data)⟩
    Conserved x ⟨{ r.2.ws with readBufferOffset := r.1 }, r.2.world⟩ ↔
      s.ws.readBufferOffset = 0 ∨ cutLine data ≠ none := by
  obtain ⟨hpending, hwin⟩ := slice_filled s.ws data
  obtain ⟨s1, hs1⟩ : ∃ s1 : Conn φ, s1 = ⟨s.ws.filled data, s.world.record (.received x data)⟩ :=
    ⟨_, rfl⟩
  have hwin1 : slice s1.ws.readBuffer s1.ws.readBufferOffset data.length = data := by
    rw [hs1]
    exact hwin
  have hlines : recvLines s1.ws data = withPending s.ws.live (lines.drain data).1 := by
    rw [hs1, ← hpending]
    rfl
  rw [← hs1] at hin ⊢
  dsimp only
  obtain ⟨-, hrecv, hhandled, hconn, -⟩ := wsScan_quiet hwin1 hin
  have hr : received x (wsScan env data.length 0 data.length s1).2.world.log =
      received x s.world.log ++ data := by
    rw [hrecv, hs1, World.record_log, received_append]
    simp [received, recvs]
  have hh : handledLines s.ws.conn (wsScan env data.length 0 data.length s1).2.world.log =
      handledLines s.ws.conn s.world.log ++ withPending s.ws.live (lines.drain data).1 := by
    rw [show s.ws.conn = s1.ws.conn by rw [hs1]; rfl, hhandled, hlines, hs1, World.record_log,
      handledLines_append]
    simp [handledLines]
  have hconn' : (wsScan env data.length 0 data.length s1).2.ws.conn = s.ws.conn := by
    rw [hconn, hs1]
    rfl
  unfold Conserved at hc ⊢
  dsimp only
  rw [hconn', hr, hh, hc, List.map_append, List.flatten_append, List.append_assoc,
    List.append_assoc, List.append_cancel_left_eq]
  unfold Websocket.live
  dsimp only
  cases hcut : cutLine data with
  | none =>
      rw [wsScan_none hcut hwin1, show lines.drain data = ([], data) from lines.drain_none hcut]
      simp only [withPending, List.map_nil, List.flatten_nil, List.nil_append, ne_eq,
        not_true_eq_false, or_false]
      constructor
      · intro h
        have := congrArg List.length h
        simp only [List.length_append, length_slice] at this
        omega
      · intro h
        rw [h, slice_zero, List.nil_append, ← hwin1, hs1]
        simp [Websocket.filled, h]
  | some p =>
      have hd : (lines.drain data).1 ≠ [] := by
        intro e
        have := lines.drain_eq_nil e
        rw [show lines.next data = cutLine data from rfl, hcut] at this
        cases this
      rw [wsScan_left hwin1 hin hd, withPending_flatten _ hd, List.append_assoc, drain_lines_eq]
      simp

/-- What a call of `ws_data` in the HTTP phase comes to. -/
theorem wsData_http_cases (env : Env φ) {x : Nat} {b : Bytes} (hs : InHttp s.ws)
    (hx : s.world.sockAt s.ws.wsFd = some x) (ho : s.ws.readBufferOffset ≤ wsMaxLine - 2)
    (hb : b ≠ []) :
    ∃ t, wsData env (some b) s = some t ∧
      (InHttp t.ws ∧ t.world.sockAt t.ws.wsFd = some x ∧ t.ws.readBufferOffset ≤ wsMaxLine - 2 ∧
        received x t.world.log =
          received x s.world.log ++ b.take (wsMaxLine - s.ws.readBufferOffset - 1) ∧
        (Conserved x s → (Conserved x t ↔ WholeLine s.ws b)) ∨
      ¬InHttp t.ws ∧ WholeLine s.ws b ∧
        (handledLines t.ws.conn t.world.log ≠ [] ∨ t.ws.state = .wsClosed ∧
          .wsClose t.ws.conn (some (ascii "Receive size limit exceeded")) ∈ t.world.log)) := by
  obtain ⟨data, hdata⟩ : ∃ data, data = b.take (wsMaxLine - s.ws.readBufferOffset - 1) := ⟨_, rfl⟩
  have hmax : 2 ≤ wsMaxLine := by decide
  have hne : data ≠ [] := by
    rw [hdata]
    intro h
    rcases List.take_eq_nil_iff.mp h with h | h
    · omega
    · exact hb h
  have hcap : data.length ≤ wsMaxLine - s.ws.readBufferOffset - 1 := by
    rw [hdata, List.length_take]
    omega
  refine ⟨_, wsData_http hs hx hdata hne, ?_⟩
  obtain ⟨-, hwindow⟩ := slice_filled s.ws data
  unfold WholeLine
  rw [← hdata]
  have hconserves : Conserved x s → _ := wsScan_conserves env data
  obtain ⟨s1, hs1⟩ : ∃ s1 : Conn φ, s1 = ⟨s.ws.filled data, s.world.record (.received x data)⟩ :=
    ⟨_, rfl⟩
  have hwin : slice s1.ws.readBuffer s1.ws.readBufferOffset data.length = data := by
    rw [hs1]
    exact hwindow
  rw [← hs1] at hconserves ⊢
  dsimp only at hconserves ⊢
  by_cases hin : InHttp (wsScan env data.length 0 data.length s1).2.ws
  · split
    · next hlimit =>
      obtain ⟨es, hes, -⟩ := wsClose_log env .limit
        (some (ascii "Receive size limit exceeded")) ⟨{ (wsScan env data.length 0 data.length s1).2.ws
          with readBufferOffset := (wsScan env data.length 0 data.length s1).1 },
          (wsScan env data.length 0 data.length s1).2.world⟩
      refine .inr ⟨?_, ?_, .inr ⟨rfl, ?_⟩⟩
      · rintro (h | h) <;> cases h
      · -- a part of a line stays below the limit
        by_contra hpart
        rw [not_or, not_not] at hpart
        rw [wsScan_none hpart.2 hwin] at hlimit
        dsimp only at hlimit
        omega
      · rw [hes]
        exact List.mem_append_right _ List.mem_cons_self
    · next hlimit =>
      obtain ⟨hsock, hrecv, -, -, hfd⟩ := wsScan_quiet hwin hin
      refine .inl ⟨hin, ?_, ?_, ?_, fun hc => hconserves hc hin⟩
      · dsimp only
        rw [hsock, hfd, hs1]
        exact hx
      · dsimp only
        omega
      · dsimp only
        rw [hrecv, hs1, World.record_log, received_append]
        simp [received, recvs]
  · have hc : cutLine data ≠ none := by
      intro hc
      rw [wsScan_none hc hwin, hs1] at hin
      exact hin hs
    have hhandled := wsScan_handled env (s := s1) (by rw [hwin]; exact hc)
    have hconn : (wsScan env data.length 0 data.length s1).2.ws.conn = s1.ws.conn :=
      (wsScan_acts_all env data.length s1).isLocal.conn
    refine .inr ⟨?_, .inr hc, .inl ?_⟩
    · split
      · rintro (h | h) <;> cases h
      · exact hin
    · split
      · obtain ⟨es, hes, -⟩ := wsClose_log env .limit
          (some (ascii "Receive size limit exceeded"))
          ⟨{ (wsScan env data.length 0 data.length s1).2.ws
            with readBufferOffset := (wsScan env data.length 0 data.length s1).1 },
            (wsScan env data.length 0 data.length s1).2.world⟩
        rw [hes, wsClose_ws, handledLines_append]
        dsimp only
        rw [hconn]
        exact fun e => hhandled (List.append_eq_nil_iff.mp e).1
      · dsimp only
        rw [hconn]
        exact hhandled

/-! ## Runs -/

/-- In the run on the `bs` that the client has sent when `recv` is called, after every call that
leaves the connection in the HTTP phase nothing is lost; and a client that has sent
`WS_MAX_LINE` bytes, those that do not fit into the buffer any more among them, without a line
being handled is disconnected by the size limit. -/
def ConservedRun (env : Env φ) (x : Nat) : List Bytes → Conn φ → Prop
  | [], _ => True
  | b :: bs, s =>
    match wsData env (some b) s with
    | none => False
    | some t =>
      (InHttp t.ws → Conserved x t ∧ ConservedRun env x bs t) ∧
      (handledLines t.ws.conn t.world.log = [] →
        wsMaxLine ≤ (received x s.world.log).length + b.length →
        t.ws.state = .wsClosed ∧
        .wsClose t.ws.conn (some (ascii "Receive size limit exceeded")) ∈ t.world.log)

instance decidableConservedRun (env : Env φ) (x : Nat) :
    (bs : List Bytes) → (s : Conn φ) → Decidable (ConservedRun env x bs s)
  | [], _ => isTrue trivial
  | b :: bs, s =>
    match h : wsData env (some b) s with
    | none => isFalse (by simp [ConservedRun, h])
    | some t =>
      have := decidableConservedRun env x bs t
      decidable_of_iff
        ((InHttp t.ws → Conserved x t ∧ ConservedRun env x bs t) ∧
          (handledLines t.ws.conn t.world.log = [] →
            wsMaxLine ≤ (received x s.world.log).length + b.length →
            t.ws.state = .wsClosed ∧
            .wsClose t.ws.conn (some (ascii "Receive size limit exceeded")) ∈ t.world.log))
        (by simp only [ConservedRun, h])

/-- In the run on the received `bs`, every call in the HTTP phase finds the buffer empty or
receives a whole CRLF. -/
def WholeLines (env : Env φ) : List Bytes → Conn φ → Prop
  | [], _ => True
  | b :: bs, s =>
    WholeLine s.ws b ∧
    ∀ t, wsData env (some b) s = some t → InHttp t.ws → WholeLines env bs t

instance decidableWholeLines (env : Env φ) :
    (bs : List Bytes) → (s : Conn φ) → Decidable (WholeLines env bs s)
  | [], _ => isTrue trivial
  | b :: bs, s =>
    match h : wsData env (some b) s with
    | none => decidable_of_iff (WholeLine s.ws b) (by simp [WholeLines, h])
    | some t =>
      have := decidableWholeLines env bs t
      decidable_of_iff (WholeLine s.ws b ∧ (InHttp t.ws → WholeLines env bs t))
        (by simp [WholeLines, h])

/-- All that was received without a line is in the buffer, which has room for less than
`WS_MAX_LINE` bytes. -/
theorem Conserved.room {x : Nat} {b : Bytes} (hs : Conserved x s) (ht : Conserved x t)
    (ho : t.ws.readBufferOffset ≤ wsMaxLine - 2)
    (hr : received x t.world.log =
      received x s.world.log ++ b.take (wsMaxLine - s.ws.readBufferOffset - 1))
    (hnil : handledLines t.ws.conn t.world.log = []) :
    (received x s.world.log).length + b.length < wsMaxLine := by
  have hbefore : s.ws.readBufferOffset ≤ (received x s.world.log).length := by
    have := congrArg List.length hs
    rw [List.length_append, Websocket.live, length_slice] at this
    omega
  have hafter : (received x t.world.log).length = t.ws.readBufferOffset := by
    have := congrArg List.length ht
    rwa [hnil, List.map_nil, List.flatten_nil, List.nil_append, Websocket.live, length_slice] at this
  have hlen := congrArg List.length hr
  rw [List.length_append, List.length_take] at hlen
  have : 2 ≤ wsMaxLine := by decide
  omega

/-- **Conservation in the HTTP phase**: a run loses nothing, and disconnects who sends too
much without a line, if and only if each of its calls finds the buffer empty or
receives a whole CRLF. -/
theorem conservation_iff (env : Env φ) (x : Nat) (bs : List Bytes) (s : Conn φ)
    (hs : InHttp s.ws) (hx : s.world.sockAt s.ws.wsFd = some x)
    (ho : s.ws.readBufferOffset ≤ wsMaxLine - 2) (hc : Conserved x s) (hb : ∀ b ∈ bs, b ≠ []) :
    ConservedRun env x bs s ↔ WholeLines env bs s := by
  induction bs generalizing s with
  | nil => exact Iff.rfl
  | cons b bs ih =>
      obtain ⟨t, ht, hcase⟩ := wsData_http_cases env hs hx ho (hb b List.mem_cons_self)
      have hrest : ∀ c ∈ bs, c ≠ [] := fun c hm => hb c (List.mem_cons_of_mem _ hm)
      have honly : (∀ u, wsData env (some b) s = some u → InHttp u.ws → WholeLines env bs u) ↔
          (InHttp t.ws → WholeLines env bs t) := by
        rw [ht]
        exact ⟨fun h => h t rfl, fun h u hu => Option.some.inj hu ▸ h⟩
      unfold ConservedRun WholeLines
      rw [honly, ht]
      dsimp only
      rcases hcase with ⟨hin, hx', ho', hr, hiff⟩ | ⟨hout, hwhole, hlimit⟩
      · have hiff := hiff hc
        constructor
        · rintro ⟨h, -⟩
          obtain ⟨hct, hrun⟩ := h hin
          exact ⟨hiff.mp hct, fun _ => (ih t hin hx' ho' hct hrest).mp hrun⟩
        · rintro ⟨hwhole, h⟩
          have hct := hiff.mpr hwhole
          refine ⟨fun _ => ⟨hct, (ih t hin hx' ho' hct hrest).mpr (h hin)⟩, fun hnil hlong => ?_⟩
          exact absurd (hc.room hct ho' hr hnil) (Nat.not_lt.mpr hlong)
      · refine ⟨fun _ => ⟨hwhole, fun h => absurd h hout⟩, fun _ => ⟨fun h => absurd h hout, ?_⟩⟩
        intro hnil _
        exact hlimit.resolve_left fun h => h hnil

end

/-- Three lines in five reads. -/
theorem conservation_iff_sample :
    ConservedRun sampleEnv 4 [ascii "GET / HT", ascii "TP/1.1\r\n", ascii "Host: a\r\nCook",
      ascii "ie: b\r\n", ascii "Upgr"] sampleConn :=
  (conservation_iff sampleEnv 4 _ sampleConn (.inl rfl) rfl (by decide) (by decide)
    (by decide)).mpr (by decide +kernel)

/-- After two reads of two and three bytes the buffer holds the first three bytes of five. -/
theorem conservation_lost_bytes :
    ¬ConservedRun sampleEnv 4 [ascii "GE", ascii "T /"] sampleConn := by decide

end Websocksy

import Websocksy.Alike

/-!
# One recv in the HTTP phase

The lines `ws_data` hands over in one call are the lines of the received bytes,
the first of them with what was in the buffer before it (`recvLines`).  If only
the last of them ends the HTTP phase, the call handles them in turn, and what is
left in the buffer is what follows them (`wsDataSwitch_http`).
-/

namespace Websocksy

open Buffer CString Lines

variable {φ : Type}

/-- The first line begins in the buffer. -/
def withPending (p : Bytes) : List Bytes → List Bytes
  | [] => []
  | l :: ls => (p ++ l) :: ls

@[simp] theorem withPending_nil (ls : List Bytes) : withPending [] ls = ls := by
  cases ls <;> rfl

theorem withPending_eq_nil (p : Bytes) (ls : List Bytes) : withPending p ls = [] ↔ ls = [] := by
  cases ls <;> simp [withPending]

/-- The bytes of the lines are the pending ones and those of the lines received. -/
theorem withPending_flatten (p : Bytes) {ls : List Bytes} (h : ls ≠ []) :
    ((withPending p ls).map (· ++ crlf)).flatten = p ++ (ls.map (· ++ crlf)).flatten := by
  cases ls with
  | nil => exact absurd rfl h
  | cons l ls => simp [withPending]

/-- The lines that a call of `ws_data` hands over when it receives `data`. -/
def recvLines (ws : Websocket φ) (data : Bytes) : List Bytes :=
  withPending (slice ws.readBuffer 0 ws.readBufferOffset) (lines.drain data).1

/-- Handle lines in turn. -/
def wsTakeLines (env : Env φ) (ls : List Bytes) (s : Conn φ) : Conn φ :=
  ls.foldl (fun s l => wsTakeLine env l s) s

/-! ## What a line leaves in the buffer -/

/-- A header line changes nothing but what the connection knows of the request. -/
theorem wsHeader_eq (tag value : Bytes) (ws : Websocket φ) :
    ∃ hs ver key up ps, wsHeader tag value ws = { ws with
      header := hs, websocketVersion := ver, socketKey := key, wantUpgrade := up
      protocol := ps } := by
  unfold wsHeader
  generalize (if tag = ascii "Connection" then value.map tolower else value) = v
  dsimp only
  repeat' split
  all_goals exact ⟨_, _, _, _, _, rfl⟩

theorem lineQuiet_buffer (ws : Websocket φ) (line : Bytes) :
    (lineQuiet ws line).readBuffer = ws.readBuffer ∧
    (lineQuiet ws line).readBufferOffset = ws.readBufferOffset := by
  unfold lineQuiet
  split
  · split <;> exact ⟨rfl, rfl⟩
  · split
    · exact ⟨rfl, rfl⟩
    · next tag value _ =>
      obtain ⟨hs, ver, key, up, ps, h⟩ := wsHeader_eq tag (ltrim value) ws
      rw [h]
      exact ⟨rfl, rfl⟩

/-- After the upgrade the connection is closed, or it is open and keeps its buffer. -/
theorem wsUpgradeHttp_buffer (env : Env φ) {s : Conn φ} (h : s.ws.ready = true) :
    (wsUpgradeHttp env s).2.ws.readBuffer = s.ws.readBuffer ∧
    ((wsUpgradeHttp env s).2.ws.state = .wsClosed ∧ (wsUpgradeHttp env s).2.ws.readBufferOffset = 0 ∨
      (wsUpgradeHttp env s).2.ws.state = .wsOpen ∧
      (wsUpgradeHttp env s).2.ws.readBufferOffset = s.ws.readBufferOffset) := by
  have hu := wsUpgradeHttp_cases env h
  generalize (wsUpgradeHttp env s).2 = t at hu ⊢
  cases hu with
  | refused p => exact ⟨rfl, .inl ⟨rfl, rfl⟩⟩
  | failed p => exact ⟨rfl, .inl ⟨rfl, rfl⟩⟩
  | dropped p w hs => exact ⟨rfl, .inl ⟨rfl, rfl⟩⟩
  | opened p f hf ho w hs => exact ⟨rfl, .inr ⟨rfl, rfl⟩⟩

/-- A line that ends the HTTP phase closes the connection or opens it. -/
theorem Ended.buffer {env : Env φ} {s t : Conn φ} (h : Ended env s t) :
    t.ws.readBuffer = s.ws.readBuffer ∧
    (t.ws.state = .wsClosed ∧ t.ws.readBufferOffset = 0 ∨
      t.ws.state = .wsOpen ∧ t.ws.readBufferOffset = s.ws.readBufferOffset) := by
  cases h with
  | upgrade h => exact wsUpgradeHttp_buffer env h
  | version h => exact ⟨rfl, .inl ⟨rfl, rfl⟩⟩
  | folding => exact ⟨rfl, .inl ⟨rfl, rfl⟩⟩
  | format => exact ⟨rfl, .inl ⟨rfl, rfl⟩⟩

/-- After a line: the offset is unchanged, or the line closed the connection. -/
theorem wsTakeLine_buffer (env : Env φ) (line : Bytes) (s : Conn φ) :
    (wsTakeLine env line s).ws.readBuffer = s.ws.readBuffer ∧
    ((wsTakeLine env line s).ws.state = .wsClosed ∧ (wsTakeLine env line s).ws.readBufferOffset = 0 ∨
      (wsTakeLine env line s).ws.readBufferOffset = s.ws.readBufferOffset) := by
  cases he : lineEnds s.ws line with
  | false =>
      rw [wsTakeLine_quiet env he]
      exact ⟨(lineQuiet_buffer s.ws line).1, .inr (lineQuiet_buffer s.ws line).2⟩
  | true =>
      obtain ⟨h1, h2⟩ := (wsTakeLine_ends env he).buffer
      exact ⟨h1, h2.imp id And.right⟩

/-! ## The line loop -/

theorem view_all (w : World) : w.view (fun _ => true) = w := by simp [World.view]

/-- The received bytes begin with a line: where it stands, and the buffer after its
CR was replaced by a NUL. -/
theorem cutLine_buffer {b l r : Bytes} {off bytesRead : Nat}
    (hc : cutLine (slice b off bytesRead) = some (l, r)) :
    slice b (off + l.length) 2 = crlf ∧ slice b 0 (off + l.length) = slice b 0 off ++ l ∧
    slice (write b (off + l.length) [0]) 0 (off + l.length + 2 + r.length) =
      slice b 0 off ++ l ++ 0 :: 10 :: r := by
  obtain ⟨hw, hl⟩ := cutLine_eq_some hc
  have hbr : bytesRead = l.length + (2 + r.length) := by
    have := congrArg List.length hw
    simp only [length_slice, List.length_append, List.length_cons] at this
    omega
  rw [hbr, slice_add, slice_add] at hw
  obtain ⟨h1, h2⟩ := List.append_inj hw (by simp)
  rw [show (13 :: 10 :: r : Bytes) = crlf ++ r from rfl] at h2
  obtain ⟨h3, h4⟩ := List.append_inj h2 (by simp [crlf])
  have hline : slice b 0 (off + l.length) = slice b 0 off ++ l := by
    rw [slice_add, Nat.zero_add, h1]
  have hlf : b.getD (off + l.length + 1) 0 = 10 := by
    have := h3
    rw [slice_two, crlf, List.cons.injEq, List.cons.injEq] at this
    exact this.2.1
  have e1 : slice (write b (off + l.length) [0]) 0 (off + l.length) = slice b 0 off ++ l := by
    rw [slice_write_below _ _ _ _ _ (by omega), hline]
  have e2 : slice (write b (off + l.length) [0]) (off + l.length) 2 = [0, 10] := by
    rw [slice_two, getD_write, getD_write, if_pos (by simp), if_neg (by simp), hlf]
    simp
  have e3 : slice (write b (off + l.length) [0]) (off + l.length + 2) r.length = r := by
    rw [slice_write_above _ _ _ _ _ (by simp), h4]
  refine ⟨h3, hline, ?_⟩
  rw [slice_add, slice_add, Nat.zero_add, Nat.zero_add, e1, e2, e3]
  simp

theorem wsTakeLine_offset (env : Env φ) (line : Bytes) {s t : Conn φ}
    (h : Alike (fun _ => true) s t) (ho : s.ws.readBufferOffset = t.ws.readBufferOffset) :
    (wsTakeLine env line s).ws.readBufferOffset = (wsTakeLine env line t).ws.readBufferOffset := by
  have hends := lineEnds_bare line h.ws
  have hstate : (wsTakeLine env line s).ws.state = (wsTakeLine env line t).ws.state :=
    bare_congr Websocket.state (wsTakeLine_alike env line h).ws fun _ => rfl
  cases he : lineEnds s.ws line with
  | false =>
      rw [wsTakeLine_quiet env he, wsTakeLine_quiet env (s := t) (hends ▸ he)]
      dsimp only
      rw [(lineQuiet_buffer s.ws line).2, (lineQuiet_buffer t.ws line).2, ho]
  | true =>
      obtain ⟨-, h1⟩ := (wsTakeLine_ends env he).buffer
      obtain ⟨-, h2⟩ := (wsTakeLine_ends env (s := t) (hends ▸ he)).buffer
      rcases h1 with ⟨e1, e2⟩ | ⟨e1, e2⟩ <;> rcases h2 with ⟨e3, e4⟩ | ⟨e3, e4⟩
      · rw [e2, e4]
      · rw [e1, e3] at hstate; cases hstate
      · rw [e1, e3] at hstate; cases hstate
      · rw [e2, e4]; exact ho

/-- The connection after a line was handed over and dropped.  The bytes after the line
are at the front of the buffer, unless the line closed the connection with an
offset that was not 0: then `memmove` starts too early, inside the line. -/
theorem wsDropLine_spec (env : Env φ) {bytesRead : Nat} {s : Conn φ} {l r : Bytes}
    (hc : cutLine (slice s.ws.readBuffer s.ws.readBufferOffset bytesRead) = some (l, r)) :
    let line := slice s.ws.readBuffer 0 s.ws.readBufferOffset ++ l
    let t := wsTakeLine env line s
    let u := wsDropLine l.length r.length (wsHandOver env l.length s)
    Alike (fun _ => true) u t ∧ u.ws.readBufferOffset = 0 ∧
    (t.ws.readBufferOffset = s.ws.readBufferOffset → slice u.ws.readBuffer 0 r.length = r) ∧
    (slice u.ws.readBuffer 0 r.length <:+: line ++ 0 :: 10 :: r) := by
  obtain ⟨hcrlf, hline, hwhole⟩ := cutLine_buffer hc
  have hover := wsHandOver_eq env hcrlf
  rw [hline] at hover
  generalize hb : write s.ws.readBuffer (s.ws.readBufferOffset + l.length) [0] = b at hwhole hover
  generalize hp : slice s.ws.readBuffer 0 s.ws.readBufferOffset ++ l = line at hwhole hover ⊢
  generalize hs' : (⟨{ s.ws with readBuffer := b }, s.world⟩ : Conn φ) = s' at hover
  have hs : Alike (fun _ => true) s' s := by rw [← hs']; exact ⟨rfl, rfl⟩
  have hoff := wsTakeLine_offset env line hs (by rw [← hs'])
  have hbuf : (wsTakeLine env line s').ws.readBuffer = b := by
    rw [(wsTakeLine_buffer env line s').1, ← hs']
  -- any range of the length of `r` that ends in the received bytes is part of them
  have hat : ∀ k, k ≤ s.ws.readBufferOffset + l.length →
      slice b (k + 2) r.length <:+: line ++ 0 :: 10 :: r := by
    intro k hk
    rw [← hwhole]
    refine ⟨slice b 0 (k + 2), slice b (k + 2 + r.length) (s.ws.readBufferOffset + l.length - k), ?_⟩
    rw [show s.ws.readBufferOffset + l.length + 2 + r.length =
      k + 2 + r.length + (s.ws.readBufferOffset + l.length - k) by omega,
      slice_add b 0 (k + 2 + r.length), slice_add b 0 (k + 2), Nat.zero_add, Nat.zero_add]
  have hrest : slice b (s.ws.readBufferOffset + l.length + 2) r.length = r := by
    have hlen : line.length = s.ws.readBufferOffset + l.length := by rw [← hp]; simp
    rw [slice_add, Nat.zero_add, show line ++ 0 :: 10 :: r = (line ++ [0, 10]) ++ r by simp] at hwhole
    refine (List.append_inj hwhole ?_).2
    rw [length_slice, List.length_append, hlen]
    rfl
  simp only [hover, wsDropLine, hbuf]
  refine ⟨⟨(wsTakeLine_alike env line hs).ws, (wsTakeLine_alike env line hs).world⟩, trivial, ?_, ?_⟩
  · intro h
    rw [slice_moveDown, hoff, h, hrest]
  · rw [slice_moveDown, hoff]
    rcases (wsTakeLine_buffer env line s).2 with ⟨-, h0⟩ | h0 <;> rw [h0]
    · exact hat (0 + l.length) (by omega)
    · exact hat _ (Nat.le_refl _)

/-- A line that does not end the phase leaves the connection ready for the rest. -/
theorem wsTakeLine_quiet_offset (env : Env φ) {line : Bytes} {s : Conn φ}
    (h : lineEnds s.ws line = false) :
    (wsTakeLine env line s).ws.readBufferOffset = s.ws.readBufferOffset := by
  rw [wsTakeLine_quiet env h]
  exact (lineQuiet_buffer s.ws line).2

theorem cutLine_nul_lf {line r : Bytes} (hl : cutLine line = none) (hr : cutLine r = none) :
    cutLine (line ++ 0 :: 10 :: r) = none := by
  rw [cutLine_chunk line _ hl (by simp)]
  cases r with
  | nil => rfl
  | cons x xs =>
      simp only [cutLine]
      simp [hr]

theorem wsTakeLines_alike (env : Env φ) {keep : Event → Bool} (ls : List Bytes) {s t : Conn φ}
    (h : Alike keep s t) : Alike keep (wsTakeLines env ls s) (wsTakeLines env ls t) := by
  induction ls generalizing s t with
  | nil => exact h
  | cons l ls ih => exact ih (wsTakeLine_alike env l h)

/-- What the line loop has done to a connection `s` when it comes to its end: `r` is what
it returned for the received bytes `data`. -/
structure Scanned (env : Env φ) (s : Conn φ) (data : Bytes) (r : Nat × Conn φ) : Prop where
  left : r.1 = (lines.drain data).2.length
  taken : Alike (fun _ => true) r.2 (wsTakeLines env (recvLines s.ws data) s)
  noLine : recvLines s.ws data = [] → r.2 = s
  offset : recvLines s.ws data ≠ [] → r.2.ws.readBufferOffset = 0
  tail : recvLines s.ws data ≠ [] → r.2.ws.state ≠ .wsClosed →
    slice r.2.ws.readBuffer 0 r.1 = (lines.drain data).2

/-- **The line loop handles the lines in turn**, as long as only the last of them
ends the HTTP phase. -/
theorem wsScan_lines (env : Env φ) (bytesRead : Nat) (s : Conn φ) (data : Bytes)
    (hdata : slice s.ws.readBuffer s.ws.readBufferOffset bytesRead = data)
    (h : EndsLast s.ws (recvLines s.ws data)) :
    Scanned env s data (wsScan env bytesRead 0 bytesRead s) := by
  induction hb : bytesRead using Nat.strongRecOn generalizing bytesRead s data with
  | ind n ih =>
      subst hb
      have hlen : bytesRead = data.length := by rw [← hdata, length_slice]
      rw [wsScan_line, hdata]
      cases hc : cutLine data with
      | none =>
          have hd : lines.drain data = ([], data) := lines.drain_none hc
          have hls : recvLines s.ws data = [] := by rw [recvLines, hd]; rfl
          exact ⟨by rw [hd]; exact hlen, by rw [hls]; exact .refl s, fun _ => rfl,
            fun hh => absurd hls hh, fun hh => absurd hls hh⟩
      | some p =>
          obtain ⟨l, r⟩ := p
          have hd := lines.drain_some hc
          have hlt : r.length < bytesRead := hlen ▸ lines.shorter hc
          have hcut : cutLine (slice s.ws.readBuffer s.ws.readBufferOffset bytesRead) =
              some (l, r) := by rw [hdata, hc]
          obtain ⟨halike, hzero, hkeep, hsub⟩ := wsDropLine_spec env hcut
          dsimp only
          generalize wsDropLine l.length r.length (wsHandOver env l.length s) = u at *
          generalize hline : slice s.ws.readBuffer 0 s.ws.readBufferOffset ++ l = line at *
          have hlines : recvLines s.ws data = line :: (lines.drain r).1 := by
            rw [recvLines, hd, ← hline]
            rfl
          -- what the loop goes on with begins at the front of the buffer
          have hnext : ∀ x, recvLines u.ws x = (lines.drain x).1 := by
            intro x
            rw [recvLines, hzero, slice_zero, withPending_nil]
          have htaken : wsTakeLines env (recvLines s.ws data) s =
              wsTakeLines env (lines.drain r).1 (wsTakeLine env line s) := by
            rw [hlines]
            rfl
          have hne : recvLines s.ws data ≠ [] := by rw [hlines]; simp
          rw [hlines] at h
          unfold EndsLast at h
          cases hends : lineEnds s.ws line with
          | true =>
              rw [if_pos hends] at h
              have hcr : cutLine r = none := lines.drain_eq_nil h.1
              have hnone : cutLine (slice u.ws.readBuffer u.ws.readBufferOffset r.length) = none := by
                rw [hzero]
                exact cutLine_none_of_infix (cutLine_nul_lf h.2 hcr) hsub
              rw [wsScan_line, hnone]
              have htail : (lines.drain data).2 = r := by rw [hd, lines.drain_none hcr]
              refine ⟨by rw [htail], ?_, fun hh => absurd hh hne, fun _ => hzero, fun _ hopen => ?_⟩
              · rw [htaken, h.1]
                exact halike
              · rw [htail]
                refine hkeep ?_
                rcases (wsTakeLine_ends env hends).buffer.2 with hh | hh
                · refine absurd ?_ hopen
                  rw [bare_congr Websocket.state halike.ws fun _ => rfl]
                  exact hh.1
                · exact hh.2
          | false =>
              rw [if_neg (by simp [hends])] at h
              have hwin := hkeep (wsTakeLine_quiet_offset env hends)
              have hquiet : (wsTakeLine env line s).ws = lineQuiet s.ws line := by
                rw [wsTakeLine_quiet env hends]
              have hi := ih r.length hlt r.length u r (by rw [hzero, hwin])
                (by rw [hnext, EndsLast_bare halike.ws, hquiet]; exact h) rfl
              refine ⟨by rw [hi.left, hd], ?_, fun hh => absurd hh hne, fun _ => ?_, fun _ hopen => ?_⟩
              · rw [htaken]
                have := hi.taken
                rw [hnext] at this
                exact this.trans (wsTakeLines_alike env _ halike)
              · by_cases hls : recvLines u.ws r = []
                · rw [hi.noLine hls]
                  exact hzero
                · exact hi.offset hls
              · rw [hd]
                by_cases hls : recvLines u.ws r = []
                · have hcr : cutLine r = none := lines.drain_eq_nil (by rw [← hnext]; exact hls)
                  rw [hi.left, hi.noLine hls, lines.drain_none hcr]
                  exact hwin
                · exact hi.tail hls hopen

end Websocksy

import Websocksy.Conservation

/-!
# The handshake does not depend on how it is cut into reads

`wsTakeRequest` is what the lines of a request do, one after the other up to the
first that ends the HTTP phase, with no buffer and no reads.  A run of `ws_data`
calls leads to a connection that agrees with it in all but the read buffer, if
each read is clean (`CleanRead`); so all such runs agree with each other.
-/

namespace Websocksy

open Buffer CString Lines

variable {φ : Type}

/-- What a handshake comes to: what the connection knows of the request, and what was
written to the socket `y` of its client. -/
structure Handshake where
  state : WsState
  requestPath : Option Bytes
  websocketVersion : Nat
  socketKey : Option Bytes
  wantUpgrade : Nat
  protocol : List Bytes
  header : List WsHttpHeader
  sent : Bytes
  deriving DecidableEq

def Conn.handshake (s : Conn φ) (y : Nat) : Handshake where
  state := s.ws.state
  requestPath := s.ws.requestPath
  websocketVersion := s.ws.websocketVersion
  socketKey := s.ws.socketKey
  wantUpgrade := s.ws.wantUpgrade
  protocol := s.ws.protocol
  header := s.ws.header
  sent := written y s.world.log

/-- Handle lines in turn, up to the first that ends the HTTP phase. -/
def wsTakeRequest (env : Env φ) : List Bytes → Conn φ → Conn φ
  | [], s => s
  | l :: ls, s =>
    if lineEnds s.ws l then wsTakeLine env l s else wsTakeRequest env ls (wsTakeLine env l s)

/-- Does the line end the HTTP phase with an upgrade. -/
def lineUpgrades (ws : Websocket φ) (line : Bytes) : Bool :=
  lineEnds ws line && (cstr line).isEmpty && ws.ready

/-- No line before the last upgrades the connection. -/
def UpgradesLast (ws : Websocket φ) : List Bytes → Prop
  | [] => True
  | l :: ls =>
    if lineEnds ws l then lineUpgrades ws l = true → ls = [] else UpgradesLast (lineQuiet ws l) ls

instance decidableUpgradesLast (ws : Websocket φ) :
    (ls : List Bytes) → Decidable (UpgradesLast ws ls)
  | [] => isTrue trivial
  | l :: ls =>
    have := decidableUpgradesLast (lineQuiet ws l) ls
    inferInstanceAs (Decidable (if lineEnds ws l then lineUpgrades ws l = true → ls = []
      else UpgradesLast (lineQuiet ws l) ls))

/-- The bytes of lines, each with its CRLF. -/
def lineBytes (ls : List Bytes) : Bytes := (ls.map (· ++ crlf)).flatten

/-- A read in the HTTP phase that finds the buffer empty or holds a whole CRLF, does not
part a CRLF from the read before, and holds no line after one that ends the phase. -/
structure CleanRead (ws : Websocket φ) (b : Bytes) : Prop where
  whole : ws.readBufferOffset = 0 ∨ cutLine b ≠ none
  joined : ¬(ws.live.getLast? = some 13 ∧ b.head? = some 10)
  ends : EndsLast ws (recvLines ws b)

instance (ws : Websocket φ) (b : Bytes) : Decidable (CleanRead ws b) :=
  decidable_of_iff
    ((ws.readBufferOffset = 0 ∨ cutLine b ≠ none) ∧
      ¬(ws.live.getLast? = some 13 ∧ b.head? = some 10) ∧ EndsLast ws (recvLines ws b))
    ⟨fun ⟨h1, h2, h3⟩ => ⟨h1, h2, h3⟩, fun ⟨h1, h2, h3⟩ => ⟨h1, h2, h3⟩⟩

/-- What others see of a run: not what it reads, nor that it closes what is closed. -/
def outward : Event → Bool
  | .received _ _ | .recvFailed _ | .wsClose _ _ | .selected _ => false
  | _ => true

/-- Connections that look alike from outside came to the same. -/
theorem Alike.handshake {s t : Conn φ} (h : Alike outward s t) (y : Nat) :
    s.handshake y = t.handshake y := by
  have hsent : ∀ log : List Event, written y (log.filter outward) = written y log := by
    intro log
    induction log with
    | nil => rfl
    | cons e log ih =>
        have hcons : ∀ l, written y (e :: l) = written y [e] ++ written y l :=
          fun l => written_append y [e] l
        rw [hcons log, ← ih, List.filter_cons]
        split
        · exact hcons _
        · next he => cases e <;> first | rfl | exact absurd rfl he
  obtain ⟨ws, w⟩ := s
  obtain ⟨ws', w'⟩ := t
  obtain ⟨rb, ro, le, rfl⟩ := bare_eq h.ws
  obtain ⟨log, rfl, hl⟩ := view_eq h.world
  unfold Conn.handshake
  dsimp only
  rw [← hsent log, hl, hsent w.log]

/-! ## Lines -/

/-- The lines of a chunk that follows a part of a line. -/
theorem drain_pending {p b : Bytes} (hp : cutLine p = none)
    (hs : ¬(p.getLast? = some 13 ∧ b.head? = some 10)) :
    lines.drain (p ++ b) = (withPending p (lines.drain b).1,
      if (lines.drain b).1 = [] then p ++ b else (lines.drain b).2) := by
  have hcut := cutLine_chunk p b hp hs
  cases hb : cutLine b with
  | none =>
      rw [hb] at hcut
      have hd : lines.drain b = ([], b) := lines.drain_none hb
      rw [lines.drain_none hcut, hd]
      rfl
  | some r =>
      rw [hb] at hcut
      have hd : lines.drain b = (r.1 :: (lines.drain r.2).1, (lines.drain r.2).2) :=
        lines.drain_some hb
      rw [lines.drain_some hcut, hd]
      rfl

/-- What is left of a stream of lines after some of it came. -/
theorem lineBytes_split {ls : List Bytes} (hls : ∀ l ∈ ls, cutLine l = none) {p q : Bytes}
    (h : p ++ q = lineBytes ls) :
    ∃ ls', ls = (lines.drain p).1 ++ ls' ∧ (lines.drain p).2 ++ q = lineBytes ls' := by
  have hwhole := drain_lines ls [] hls rfl
  rw [List.append_nil, show (ls.map (· ++ crlf)).flatten = p ++ q from h.symm, lines.drain_append]
    at hwhole
  obtain ⟨h1, h2⟩ := Prod.mk.inj hwhole
  refine ⟨_, h1.symm, ?_⟩
  have := drain_lines_eq ((lines.drain p).2 ++ q)
  rwa [h2, List.append_nil, eq_comm] at this

/-- A part of a line without its CRLF is not longer than the line and the CR. -/
theorem length_part {p q l : Bytes} {ls : List Bytes} (hp : cutLine p = none)
    (hl : cutLine l = none) (h : p ++ q = lineBytes (l :: ls)) : p.length ≤ l.length + 1 := by
  by_contra hlong
  have hsplit : p ++ q = (l ++ crlf) ++ lineBytes ls := h
  obtain ⟨r, hr⟩ : (l ++ crlf) <+: p :=
    List.prefix_of_prefix_length_le ⟨_, hsplit.symm⟩ ⟨q, rfl⟩
      (by simp only [List.length_append, crlf, List.length_cons, List.length_nil]; omega)
  rw [← hr, List.append_assoc, show crlf ++ r = 13 :: 10 :: r from rfl, cutLine_append l r hl] at hp
  cases hp

/-! ## Ending -/

section

variable {env : Env φ} {keep : Event → Bool} {s t : Conn φ}

theorem Cleared_bare {ws ws' : Websocket φ} (h : ws.bare = ws'.bare) (hc : ws.Cleared) :
    ws'.Cleared := by
  obtain ⟨rb, ro, le, rfl⟩ := bare_eq h
  obtain ⟨⟨h1, h2, h3, h4, h5, h6⟩, h7, h8, h9, h10, h11⟩ := hc
  exact ⟨⟨h1, h2, h3, h4, h5, h6⟩, h7, h8, h9, h10, h11⟩

/-- Closing again changes nothing that is seen. -/
theorem wsClose_again (code : WsCloseReason) (reason : Option Bytes) (h : s.ws.Cleared) :
    Alike outward (wsClose env code reason s) s := by
  constructor
  · rw [wsClose_ws]
    obtain ⟨ws, w⟩ := s
    obtain ⟨conn, wsFd, rb, ro, st, le, hs, path, ver, key, up, ps, peer, fd, pb, po, fr⟩ := ws
    obtain ⟨⟨h1, h2, h3, h4, h5, h6⟩, h7, h8, h9, h10, h11⟩ := h
    dsimp only at h1 h2 h3 h4 h5 h6 h7 h8 h9 h10 h11
    simp [Websocket.bare, h1, h2, h3, h4, h5, h6, h7, h8, h9, h10, h11]
  · rw [wsClose_closed env code reason h.state h.wsFd h.peerFd]
    exact view_record_drop rfl _

/-- A line that ends the HTTP phase without an upgrade leaves nothing of the request. -/
theorem wsTakeLine_cleared {l : Bytes} (h : lineEnds s.ws l = true)
    (hu : lineUpgrades s.ws l = false) : (wsTakeLine env l s).ws.Cleared := by
  unfold lineUpgrades at hu
  rw [h, Bool.true_and, Bool.and_eq_false_iff] at hu
  have hn : s.ws.state ≠ .wsNew := by
    intro hn
    simp [lineEnds, hn] at h
  have hends := wsTakeLine_ends env h
  unfold wsTakeLine wsHandleLine
  unfold lineEnds at h
  simp only [hn, if_false] at h ⊢
  cases hl : cstr l with
  | nil =>
      rw [hl] at h hu
      have hready : s.ws.ready = false := hu.resolve_left (by simp)
      simp only [hready, Bool.false_or, bne_iff_ne] at h
      dsimp only
      rw [wsUpgradeHttp_version env (by exact hready) (by exact h)]
      exact wsClose_cleared env _ _ _
  | cons c cs =>
      simp only [hl, Bool.or_eq_true] at h
      dsimp only
      split
      · exact wsClose_cleared env _ _ _
      · next hs =>
        have hnone := h.resolve_left hs
        rw [Option.isNone_iff_eq_none] at hnone
        rw [hnone]
        exact wsClose_cleared env _ _ _

/-! ## A request -/

theorem UpgradesLast_bare {ws ws' : Websocket φ} (h : ws.bare = ws'.bare) (ls : List Bytes) :
    UpgradesLast ws ls ↔ UpgradesLast ws' ls := by
  induction ls generalizing ws ws' with
  | nil => rfl
  | cons l ls ih =>
      have hu : lineUpgrades ws l = lineUpgrades ws' l := by
        unfold lineUpgrades
        rw [lineEnds_bare l h, bare_congr Websocket.ready h fun _ => rfl]
      unfold UpgradesLast
      rw [lineEnds_bare l h, ih (lineQuiet_bare l h), hu]

theorem wsTakeRequest_alike (env : Env φ) (ls : List Bytes) (h : Alike keep s t) :
    Alike keep (wsTakeRequest env ls s) (wsTakeRequest env ls t) := by
  induction ls generalizing s t with
  | nil => exact h
  | cons l ls ih =>
      unfold wsTakeRequest
      rw [lineEnds_bare l h.ws]
      split
      · exact wsTakeLine_alike env l h
      · exact ih (wsTakeLine_alike env l h)

/-- Lines none of which ends the phase are the beginning of a request. -/
theorem wsTakeRequest_quiet (env : Env φ) {ls : List Bytes} (ls' : List Bytes)
    (h : NoneEnds s.ws ls) :
    wsTakeRequest env (ls ++ ls') s = wsTakeRequest env ls' (wsTakeLines env ls s) ∧
    (UpgradesLast s.ws (ls ++ ls') → UpgradesLast (wsTakeLines env ls s).ws ls') := by
  induction ls generalizing s with
  | nil => exact ⟨rfl, id⟩
  | cons l ls ih =>
      have hq : (wsTakeLine env l s).ws = lineQuiet s.ws l := by rw [wsTakeLine_quiet env h.1]
      obtain ⟨h1, h2⟩ := ih (s := wsTakeLine env l s) (by rw [hq]; exact h.2)
      rw [hq] at h2
      rw [List.cons_append, wsTakeRequest, UpgradesLast, if_neg (by simp [h.1]),
        if_neg (by simp [h.1])]
      exact ⟨h1, h2⟩

theorem noneEnds_inHttp (env : Env φ) {ls : List Bytes} (hs : InHttp s.ws) (h : NoneEnds s.ws ls) :
    InHttp (wsTakeLines env ls s).ws := by
  induction ls generalizing s with
  | nil => exact hs
  | cons l ls ih =>
      have hq : (wsTakeLine env l s).ws = lineQuiet s.ws l := by rw [wsTakeLine_quiet env h.1]
      refine ih ?_ (by rw [hq]; exact h.2)
      rw [hq]
      unfold InHttp at hs ⊢
      rcases lineQuiet_state s.ws l with e | ⟨-, e⟩ <;> rw [e]
      · exact hs
      · exact .inr rfl

/-- Lines of which the last ends the phase are the request, whatever follows them. -/
theorem wsTakeRequest_ends (env : Env φ) {ls : List Bytes} (ls' : List Bytes)
    (h : EndsLast s.ws ls) (hn : ¬NoneEnds s.ws ls) (hu : UpgradesLast s.ws (ls ++ ls')) :
    wsTakeRequest env (ls ++ ls') s = wsTakeLines env ls s ∧ ¬InHttp (wsTakeLines env ls s).ws ∧
    ((wsTakeLines env ls s).ws.Cleared ∨ ls' = []) := by
  induction ls generalizing s with
  | nil => exact absurd trivial hn
  | cons l ls ih =>
      rw [List.cons_append] at hu
      rw [List.cons_append, wsTakeRequest]
      unfold EndsLast at h
      unfold UpgradesLast at hu
      cases he : lineEnds s.ws l with
      | true =>
          rw [if_pos he] at h hu
          rw [h.1, List.nil_append] at hu
          rw [h.1, if_pos rfl]
          refine ⟨rfl, ?_, ?_⟩
          · have hends := (wsTakeLine_ends env he).buffer.2
            unfold InHttp
            rcases hends with ⟨e, -⟩ | ⟨e, -⟩ <;> simp [wsTakeLines, e]
          · cases hup : lineUpgrades s.ws l with
            | true => exact .inr (hu hup)
            | false => exact .inl (wsTakeLine_cleared he hup)
      | false =>
          rw [if_neg (by simp [he])] at h hu
          have hq : (wsTakeLine env l s).ws = lineQuiet s.ws l := by rw [wsTakeLine_quiet env he]
          rw [if_neg (by simp)]
          refine ih (by rw [hq]; exact h) (fun hnone => hn ⟨he, ?_⟩) (by rw [hq]; exact hu)
          rw [← hq]
          exact hnone

/-! ## Calls of `ws_data` -/

/-- The lines of a request fit into the buffer, each with its CRLF. -/
def LinesFit (ls : List Bytes) : Prop := ∀ l ∈ ls, cutLine l = none ∧ l.length ≤ wsMaxLine - 3

/-- A part of a request that holds no whole line is below the size limit. -/
theorem length_below {p q : Bytes} {ls : List Bytes} (hp : cutLine p = none) (hls : LinesFit ls)
    (h : p ++ q = lineBytes ls) : p.length ≤ wsMaxLine - 2 := by
  have hmax : wsMaxLine = 16384 := rfl
  cases ls with
  | nil =>
      have := List.append_eq_nil_iff.mp h
      rw [this.1]
      exact Nat.zero_le _
  | cons l ls =>
      have hl := hls l List.mem_cons_self
      have := length_part hp hl.1 h
      omega

/-- The line loop over the received bytes does what their lines do. -/
theorem received_scanned (env : Env φ) (x : Nat) {b : Bytes}
    (hends : EndsLast s.ws (recvLines s.ws b)) :
    let s1 : Conn φ := ⟨s.ws.filled b, s.world.record (.received x b)⟩
    Scanned env s1 b (wsScan env b.length 0 b.length s1) ∧
      recvLines s1.ws b = recvLines s.ws b ∧
      Alike outward (wsScan env b.length 0 b.length s1).2
        (wsTakeLines env (recvLines s.ws b) s) := by
  intro s1
  have hseen : Alike outward s1 s := ⟨rfl, view_record_drop rfl _⟩
  have hlines : recvLines s1.ws b = recvLines s.ws b := recvLines_filled s.ws b
  have hwin : slice s1.ws.readBuffer s1.ws.readBufferOffset b.length = b := (slice_filled s.ws b).2
  have hscan := wsScan_lines env b.length s1 b hwin (by
    rw [hlines, EndsLast_bare hseen.ws]
    exact hends)
  have htaken := hscan.taken
  rw [hlines] at htaken
  have hworld := htaken.world
  rw [view_all, view_all] at hworld
  have hscanned : Alike outward (wsScan env b.length 0 b.length s1).2
      (wsTakeLines env (recvLines s.ws b) s1) := ⟨htaken.ws, by rw [hworld]⟩
  exact ⟨hscan, hlines, hscanned.trans (wsTakeLines_alike env _ hseen)⟩

/-- What a clean read leaves in the buffer behind the last line. -/
theorem cleanRead_left (env : Env φ) (x : Nat) {b : Bytes} (hclean : CleanRead s.ws b)
    (hin : InHttp (wsScan env b.length 0 b.length
      ⟨s.ws.filled b, s.world.record (.received x b)⟩).2.ws) :
    let r := wsScan env b.length 0 b.length ⟨s.ws.filled b, s.world.record (.received x b)⟩
    slice r.2.ws.readBuffer 0 r.1 =
      if (lines.drain b).1 = [] then s.ws.live ++ b else (lines.drain b).2 := by
  obtain ⟨hscan, hlines, -⟩ := received_scanned env x hclean.ends
  have hwin := (slice_filled s.ws b).2
  dsimp only at hscan hlines ⊢
  split
  · next hnil =>
    have hnone : recvLines s.ws b = [] := by rw [recvLines, hnil]; rfl
    have hzero : s.ws.readBufferOffset = 0 :=
      hclean.whole.resolve_right fun h => h (lines.drain_eq_nil hnil)
    have hempty : s.ws.live = [] := by rw [Websocket.live, hzero, slice_zero]
    rw [hscan.left, hscan.noLine (by rw [hlines]; exact hnone), hempty, List.nil_append,
      show lines.drain b = ([], b) from lines.drain_none (lines.drain_eq_nil hnil)]
    rwa [hzero] at hwin
  · next hne => exact wsScan_left hwin hin hne

/-- After a read of the request `ls` of which `q` is still to come: the request goes on,
or it has ended. -/
inductive RequestRead (env : Env φ) (x : Nat) (ls : List Bytes) (q : Bytes) (s t : Conn φ) : Prop
  | more (ls' : List Bytes) (hls : LinesFit ls') (hs : InHttp t.ws)
      (hx : t.world.sockAt t.ws.wsFd = some x) (hp : cutLine t.ws.live = none)
      (hrest : t.ws.live ++ q = lineBytes ls') (hu : UpgradesLast t.ws ls')
      (h : Alike outward (wsTakeRequest env ls' t) (wsTakeRequest env ls s)) :
      RequestRead env x ls q s t
  | done (h : Alike outward t (wsTakeRequest env ls s)) (hc : t.ws.Cleared ∨ q = []) :
      RequestRead env x ls q s t

/-- One call of `ws_data` with a clean read. -/
theorem wsData_request {x : Nat} {ls : List Bytes} {b q : Bytes} (hs : InHttp s.ws)
    (hx : s.world.sockAt s.ws.wsFd = some x) (hp : cutLine s.ws.live = none)
    (hb : ReadFits s b) (hclean : CleanRead s.ws b) (hls : LinesFit ls)
    (hstream : s.ws.live ++ b ++ q = lineBytes ls) (hup : UpgradesLast s.ws ls) :
    ∃ t, wsData env (some b) s = some t ∧ RequestRead env x ls q s t := by
  refine ⟨_, wsData_http hs hx (List.take_of_length_le hb.2).symm hb.1, ?_⟩
  obtain ⟨hscan, hlines, htaken⟩ := received_scanned env x hclean.ends
  have htail := cleanRead_left env x hclean
  obtain ⟨ls', hsplit, hrest⟩ := lineBytes_split (fun l hl => (hls l hl).1) hstream
  rw [drain_pending hp hclean.joined] at hsplit hrest
  dsimp only at hsplit hrest hscan hlines htaken htail ⊢
  rw [show withPending s.ws.live (lines.drain b).1 = recvLines s.ws b from rfl] at hsplit
  obtain ⟨s1, hs1⟩ : ∃ s1 : Conn φ, s1 = ⟨s.ws.filled b, s.world.record (.received x b)⟩ := ⟨_, rfl⟩
  rw [← hs1] at hscan htaken htail ⊢
  have hcut : cutLine (if (lines.drain b).1 = [] then s.ws.live ++ b else (lines.drain b).2) = none := by
    have := lines.next_drain (s.ws.live ++ b)
    rw [drain_pending hp hclean.joined] at this
    exact this
  by_cases hnone : NoneEnds s.ws (recvLines s.ws b)
  · obtain ⟨hfds, -, -, -, hfd⟩ := wsTakeLines_quiet env _ hnone
    obtain ⟨hreq, hup'⟩ := wsTakeRequest_quiet env ls' hnone
    rw [hsplit] at hup
    have hin : InHttp (wsScan env b.length 0 b.length s1).2.ws := by
      have hstate := bare_congr Websocket.state htaken.ws fun _ => rfl
      unfold InHttp
      rw [hstate]
      exact noneEnds_inHttp env hs hnone
    have hlive' := htail hin
    have hls' : LinesFit ls' := by
      intro l hl
      apply hls
      rw [hsplit]
      exact List.mem_append_right _ hl
    -- the part of a line that is left is below the size limit
    have hpart : (wsScan env b.length 0 b.length s1).1 ≤ wsMaxLine - 2 := by
      have hlen := congrArg List.length hlive'
      rw [length_slice] at hlen
      rw [hlen]
      exact length_below hcut hls' hrest
    have hmax : wsMaxLine = 16384 := rfl
    rw [if_neg (by omega)]
    refine .more ls' hls' hin ?_ ?_ ?_ ?_ ?_
    · dsimp only
      rw [bare_congr Websocket.wsFd htaken.ws fun _ => rfl, hfd, view_sockAt htaken.world,
        World.sockAt, hfds]
      exact hx
    · unfold Websocket.live
      dsimp only
      rw [hlive']
      exact hcut
    · unfold Websocket.live
      dsimp only
      rw [hlive']
      exact hrest
    · refine (UpgradesLast_bare ?_ ls').mpr (hup' hup)
      exact htaken.ws
    · rw [hsplit, hreq]
      exact wsTakeRequest_alike env ls' ⟨htaken.ws, htaken.world⟩
  · rw [hsplit] at hup
    obtain ⟨hreq, hout, hend⟩ := wsTakeRequest_ends env ls' hclean.ends hnone hup
    have halike : Alike outward
        ⟨{ (wsScan env b.length 0 b.length s1).2.ws with
          readBufferOffset := (wsScan env b.length 0 b.length s1).1 },
          (wsScan env b.length 0 b.length s1).2.world⟩ (wsTakeRequest env ls s) := by
      rw [hsplit, hreq]
      exact ⟨htaken.ws, htaken.world⟩
    rcases hend with hcleared | hnil
    · split
      · refine .done ((wsClose_again _ _ ?_).trans halike) (.inl (wsClose_cleared env _ _ _))
        exact Cleared_bare htaken.ws.symm hcleared
      · exact .done halike (.inl (Cleared_bare htaken.ws.symm hcleared))
    · -- an upgrade is the end of the stream
      rw [hnil] at hrest
      obtain ⟨hempty, hq⟩ := List.append_eq_nil_iff.mp hrest
      have hmax : wsMaxLine = 16384 := rfl
      have hleft : (wsScan env b.length 0 b.length s1).1 = 0 := by
        rw [hscan.left]
        split at hempty
        · next hd =>
          rw [List.append_eq_nil_iff] at hempty
          exact absurd hempty.2 hb.1
        · rw [hempty]
          rfl
      rw [if_neg (by omega)]
      exact .done halike (.inr hq)

/-- On a closed connection `ws_data` does nothing that is seen. -/
theorem closed_calls (env : Env φ) (chunks : List Bytes) (h : s.ws.Cleared) :
    ∃ t, (dataCalls env).exec chunks s = some t ∧ Alike outward t s := by
  induction chunks generalizing s with
  | nil => exact ⟨s, rfl, .refl s⟩
  | cons b chunks ih =>
      have hstep : (dataCalls env).step b s = some (wsClose env .unexpected none s) := by
        simp only [dataCalls, wsData, recv, h.wsFd]
        rfl
      obtain ⟨t, ht, halike⟩ := ih (wsClose_cleared env .unexpected none s)
      refine ⟨t, ?_, halike.trans (wsClose_again _ _ h)⟩
      rw [Machine.exec, hstep]
      exact ht

/-- A read of a cutting: it gives something that fits, and is clean in the HTTP phase. -/
def RequestReads (s : Conn φ) (b : Bytes) : Prop := ReadFits s b ∧ (InHttp s.ws → CleanRead s.ws b)

/-- **A request in clean reads** does what its lines do. -/
theorem request_reads (env : Env φ) {x : Nat} (ls chunks : List Bytes) (hs : InHttp s.ws)
    (hx : s.world.sockAt s.ws.wsFd = some x) (hp : cutLine s.ws.live = none) (hls : LinesFit ls)
    (hup : UpgradesLast s.ws ls) (hstream : s.ws.live ++ chunks.flatten = lineBytes ls)
    (hclean : (dataCalls env).Meets RequestReads chunks s) :
    ∃ t, (dataCalls env).exec chunks s = some t ∧ Alike outward t (wsTakeRequest env ls s) := by
  induction chunks generalizing s ls with
  | nil =>
      rw [List.flatten_nil, List.append_nil] at hstream
      cases ls with
      | nil => exact ⟨s, rfl, .refl s⟩
      | cons l ls =>
          rw [hstream] at hp
          have : lineBytes (l :: ls) = l ++ 13 :: 10 :: lineBytes ls := by simp [lineBytes, crlf]
          rw [this, cutLine_append l _ (hls l List.mem_cons_self).1] at hp
          cases hp
  | cons b chunks ih =>
      obtain ⟨⟨hfits, hc⟩, hrest⟩ := hclean
      rw [List.flatten_cons, ← List.append_assoc] at hstream
      obtain ⟨t, ht, hread⟩ : ∃ t, wsData env (some b) s = some t ∧ RequestRead env x ls _ s t :=
        wsData_request hs hx hp hfits (hc hs) hls hstream hup
      have hstep : (dataCalls env).step b s = some t := ht
      rw [hstep] at hrest
      simp only [Machine.exec, hstep, Option.bind_some]
      cases hread with
      | more ls' hls' hs' hx' hp' hrest' hu' h =>
          obtain ⟨u, hu, halike⟩ := ih ls' hs' hx' hp' hls' hu' hrest' hrest
          exact ⟨u, hu, halike.trans h⟩
      | done h hend =>
          rcases hend with hcleared | hnil
          · obtain ⟨u, hu, halike⟩ := closed_calls env chunks hcleared
            exact ⟨u, hu, halike.trans h⟩
          · cases chunks with
            | nil => exact ⟨t, rfl, h⟩
            | cons c cs =>
                rw [List.flatten_cons, List.append_eq_nil_iff] at hnil
                exact absurd hnil.1 hrest.1.1.1

/-- **Segmentation independence**: a stream of lines comes to the same in any two
cuttings into reads that are clean, if each line fits into the buffer and no line but
the last upgrades the connection. -/
theorem handshake_segmentation (env : Env φ) (y : Nat) (s : Conn φ) (hs : s.ws.state = .wsNew)
    (ho : s.ws.readBufferOffset = 0) (hy : s.world.sockAt s.ws.wsFd = some y) (ls : List Bytes)
    (hls : LinesFit ls) (hup : UpgradesLast s.ws ls) (cut cut' : List Bytes)
    (hcut : cut.flatten = lineBytes ls) (hcut' : cut'.flatten = lineBytes ls)
    (hclean : (dataCalls env).Meets RequestReads cut s)
    (hclean' : (dataCalls env).Meets RequestReads cut' s) :
    ∃ t t', (dataCalls env).exec cut s = some t ∧ (dataCalls env).exec cut' s = some t' ∧
      t.handshake y = t'.handshake y := by
  have hlive : s.ws.live = [] := by rw [Websocket.live, ho, slice_zero]
  have hrun : ∀ c, c.flatten = lineBytes ls → (dataCalls env).Meets RequestReads c s →
      ∃ t, (dataCalls env).exec c s = some t ∧ Alike outward t (wsTakeRequest env ls s) :=
    fun c hc hmeets => request_reads env ls c (.inl hs) hy (by rw [hlive]; rfl) hls hup
      (by rw [hlive]; exact hc) hmeets
  obtain ⟨t, ht, h⟩ := hrun cut hcut hclean
  obtain ⟨t', ht', h'⟩ := hrun cut' hcut' hclean'
  exact ⟨t, t', ht, ht', (h.trans h'.symm).handshake y⟩

end

instance (s : Conn φ) (b : Bytes) : Decidable (RequestReads s b) :=
  inferInstanceAs (Decidable (_ ∧ (_ → _)))

/-- The lines of a complete request. -/
def sampleLines : List Bytes :=
  [ascii "GET /a HTTP/1.1", ascii "Sec-WebSocket-Version: 13", ascii "Sec-WebSocket-Key: k",
    ascii "Upgrade: websocket", ascii "Connection: Upgrade", []]

theorem handshake_segmentation_sample :
    ∃ t t', (dataCalls sampleEnv).exec (sampleLines.map (· ++ crlf)) sampleConn = some t ∧
      (dataCalls sampleEnv).exec [lineBytes sampleLines] sampleConn = some t' ∧
      t.handshake 4 = t'.handshake 4 := by
  refine handshake_segmentation sampleEnv 4 sampleConn rfl rfl rfl sampleLines ?_ ?_
    (sampleLines.map (· ++ crlf)) [lineBytes sampleLines] rfl ?_ ?_ ?_
  · unfold LinesFit
    decide
  · decide
  · simp
  · decide +kernel
  · decide +kernel

/-- The same request line and empty line, in one read and in three: the first is
answered with an error, the second is not. -/
theorem handshake_segmentation_fails :
    let ls := [ascii "GET / HTTP/1.1", []]
    let cut := [ascii "GE", ascii "T /", ascii " HTTP/1.1\r\n\r\n"]
    cut.flatten = lineBytes ls ∧
    ((dataCalls sampleEnv).exec [lineBytes ls] sampleConn).map (·.handshake 4) ≠
      ((dataCalls sampleEnv).exec cut sampleConn).map (·.handshake 4) := by
  decide

end Websocksy

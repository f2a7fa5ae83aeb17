import Websocksy.HttpPhase
import Websocksy.Core
import Mathlib.Logic.Relation

/-!
# What happens to a connection

Every call of `ws_data`, `ws_peer_data` and the keep-alive check is a sequence of
the acts listed in `Act`.  An invariant is shown for each act; the handlers, their
loops and the many ways through them are gone through once, here.

A `Scope` says whether the read buffer may change, in which states lines may be
handed over, upgrades started and frames sent, and with which opcodes.  The
widest scope needs no condition on the run; a narrower one needs a condition,
and gives invariants that the widest does not have.
-/

namespace Websocksy

open Buffer CString Lines Relation

variable {φ : Type}

structure Scope where
  reads : Prop
  line : WsState → Prop
  upgrade : WsState → Prop
  frame : WsState → Prop
  opcode : WsOperation → Prop
  frame_open : frame .wsOpen
  opcode_own : ∀ op ∈ [WsOperation.ping, .pong], opcode op

/-- The statuses of the error responses. -/
def httpErrors : List Bytes :=
  [ascii "500 Peer connection failed", ascii "426 Unsupported protocol version",
    ascii "500 Header folding", ascii "500 Header format"]

/-- Entries of the log about the framing of the connection `conn`. -/
def Event.NoteOf (conn : Nat) : Event → Prop
  | .framing c _ _ | .segment c _ _ => c = conn
  | _ => False

inductive Act (env : Env φ) (A : Scope) (s : Conn φ) : Conn φ → Prop
  /-- only the read buffer changes, or the time of the last event -/
  | bare (ws : Websocket φ) (h : ws.bare = s.ws.bare) (hr : A.reads) : Act env A s ⟨ws, s.world⟩
  | peerBuffer (b : Bytes) (k : Nat) (framingData : Option φ)
      (h : k ≤ max s.ws.peerBufferOffset (peerBufferSize - 1)) :
      Act env A s ⟨{ s.ws with
        peerBuffer := b, peerBufferOffset := k, peerFramingData := framingData }, s.world⟩
  | note (e : Event) (h : e.NoteOf s.ws.conn) : Act env A s ⟨s.ws, s.world.record e⟩
  | line (data : Bytes) (h : A.line s.ws.state) :
      Act env A s ⟨s.ws, s.world.record (.line s.ws.conn s.ws.state data)⟩
  | path (p : Bytes) (h : s.ws.state = .wsNew) :
      Act env A s ⟨{ s.ws with state := .wsHttp, requestPath := some p }, s.world⟩
  | header (tag value : Bytes) (h : A.line s.ws.state) (hn : s.ws.state ≠ .wsNew) :
      Act env A s ⟨wsHeader tag value s.ws, s.world⟩
  | upgrade (h : A.upgrade s.ws.state) (hn : s.ws.state ≠ .wsNew) (hr : s.ws.ready = true) :
      Act env A s (wsUpgradeHttp env s).2
  | close (code : WsCloseReason) (reason : Option Bytes)
      (h : code = .http → ∀ r, reason = some r → r ∈ httpErrors) :
      Act env A s (wsClose env code reason s)
  | forward (data : Bytes) (h : s.ws.state = .wsOpen) :
      Act env A s ⟨s.ws, (networkSend env s.ws.peerFd data s.world).2⟩
  | frame (op : WsOperation) (data : Bytes) (h : A.frame s.ws.state) (ho : A.opcode op) :
      Act env A s ⟨s.ws, (wsSendFrame env s.ws op data s.world).2⟩

def Acts (env : Env φ) (A : Scope) : Conn φ → Conn φ → Prop := ReflTransGen (Act env A)

section

variable {env : Env φ} {A : Scope} {s t u : Conn φ}

theorem Acts.single (h : Act env A s t) : Acts env A s t := ReflTransGen.single h

theorem Acts.refl : Acts env A s s := ReflTransGen.refl

theorem Acts.trans (h : Acts env A s t) (h' : Acts env A t u) : Acts env A s u :=
  ReflTransGen.trans h h'

/-- What every act keeps, a sequence of acts keeps. -/
theorem Acts.invariant {P : Conn φ → Prop} (hP : ∀ s t, Act env A s t → P s → P t)
    (h : Acts env A s t) (hs : P s) : P t := by
  induction h with
  | refl => exact hs
  | tail _ ha ih => exact hP _ _ ha ih

theorem Acts.of_alike (hr : A.reads) (h : Alike (fun _ => true) s t) : Acts env A s t := by
  have hw : t.world = s.world := by
    have := h.world
    rw [view_all, view_all] at this
    exact this.symm
  obtain ⟨ws, w⟩ := t
  subst hw
  exact .single (.bare ws h.ws.symm hr)

/-! ## Lines -/

theorem wsTakeLine_acts (line : Bytes) (hl : A.line s.ws.state)
    (hu : s.ws.state ≠ .wsNew → s.ws.ready = true → A.upgrade s.ws.state) :
    Acts env A s (wsTakeLine env line s) := by
  refine Acts.trans (.single (.line line hl)) ?_
  cases he : lineEnds s.ws line with
  | false =>
      rw [wsTakeLine_quiet env he]
      unfold lineQuiet
      split
      · next hn =>
        split
        · exact .refl
        · exact .single (.path _ hn)
      · next hn =>
        split
        · exact .refl
        · exact .single (.header _ _ hl hn)
  | true =>
      have hn : s.ws.state ≠ .wsNew := by
        intro hn
        simp [lineEnds, hn] at he
      have hends := wsTakeLine_ends env he
      generalize wsTakeLine env line s = t at hends ⊢
      cases hends with
      | upgrade hr => exact .single (.upgrade (hu hn hr) hn hr)
      | version _ => exact .single (.close _ _ fun _ r hr => by cases hr; simp [httpErrors])
      | folding => exact .single (.close _ _ fun _ r hr => by cases hr; simp [httpErrors])
      | format => exact .single (.close _ _ fun _ r hr => by cases hr; simp [httpErrors])

/-- A line that does not end the HTTP phase leaves it in its phase. -/
theorem lineQuiet_state (ws : Websocket φ) (line : Bytes) :
    (lineQuiet ws line).state = ws.state ∨ ws.state = .wsNew ∧ (lineQuiet ws line).state = .wsHttp := by
  unfold lineQuiet
  split
  · next hn =>
    split
    · exact .inl rfl
    · exact .inr ⟨hn, rfl⟩
  · split
    · exact .inl rfl
    · next tag value _ =>
      obtain ⟨hs, ver, key, up, ps, h⟩ := wsHeader_eq tag (ltrim value) ws
      rw [h]
      exact .inl rfl

/-- Lines of which only the last ends the HTTP phase are all handed over in it. -/
theorem wsTakeLines_acts (hn : A.line .wsNew) (hh : A.line .wsHttp) (hu : A.upgrade .wsHttp)
    (ls : List Bytes) (hs : s.ws.state = .wsNew ∨ s.ws.state = .wsHttp) (h : EndsLast s.ws ls) :
    Acts env A s (wsTakeLines env ls s) := by
  induction ls generalizing s with
  | nil => exact .refl
  | cons l ls ih =>
      have hfirst : Acts env A s (wsTakeLine env l s) := by
        refine wsTakeLine_acts l ?_ fun hne _ => ?_
        · rcases hs with hs | hs <;> rw [hs] <;> assumption
        · rw [hs.resolve_left hne]
          exact hu
      unfold EndsLast at h
      cases he : lineEnds s.ws l with
      | true =>
          rw [if_pos he] at h
          rw [h.1]
          exact hfirst
      | false =>
          rw [if_neg (by simp [he])] at h
          have hq : (wsTakeLine env l s).ws = lineQuiet s.ws l := by rw [wsTakeLine_quiet env he]
          refine hfirst.trans (ih ?_ (by rw [hq]; exact h))
          rw [hq]
          rcases lineQuiet_state s.ws l with e | ⟨-, e⟩
          · rw [e]
            exact hs
          · exact .inr e

/-- **The line loop**: what every line keeps, it keeps, whatever the bytes are. -/
theorem wsScan_acts (hr : A.reads) {P : Conn φ → Prop}
    (hP : ∀ s t, P s → Alike (fun _ => true) s t → P t)
    (hline : ∀ s l, P s → Acts env A s (wsTakeLine env l s) ∧ P (wsTakeLine env l s))
    (bytesRead : Nat) (hs : P s) :
    Acts env A s (wsScan env bytesRead 0 bytesRead s).2 ∧
    P (wsScan env bytesRead 0 bytesRead s).2 := by
  induction hb : bytesRead using Nat.strongRecOn generalizing bytesRead s with
  | ind n ih =>
      subst hb
      rw [wsScan_line]
      cases hc : cutLine (slice s.ws.readBuffer s.ws.readBufferOffset bytesRead) with
      | none => exact ⟨.refl, hs⟩
      | some p =>
          obtain ⟨l, r⟩ := p
          have hlt : r.length < bytesRead := by
            have := lines.shorter hc
            rwa [length_slice] at this
          obtain ⟨halike, -, -, -⟩ := wsDropLine_spec env hc
          obtain ⟨ha, hp⟩ := hline s (slice s.ws.readBuffer 0 s.ws.readBufferOffset ++ l) hs
          obtain ⟨ha', hp'⟩ := ih r.length hlt r.length (hP _ _ hp halike.symm) rfl
          exact ⟨(ha.trans (.of_alike hr halike.symm)).trans ha', hp'⟩

/-- The line loop under the condition that only the last line ends the HTTP phase. -/
theorem wsScan_acts_endsLast (hr : A.reads) (hn : A.line .wsNew) (hh : A.line .wsHttp) (hu : A.upgrade .wsHttp)
    {bytesRead : Nat} (hs : s.ws.state = .wsNew ∨ s.ws.state = .wsHttp)
    (h : EndsLast s.ws (recvLines s.ws (slice s.ws.readBuffer s.ws.readBufferOffset bytesRead))) :
    Acts env A s (wsScan env bytesRead 0 bytesRead s).2 :=
  (wsTakeLines_acts hn hh hu _ hs h).trans
    (.of_alike hr (wsScan_lines env bytesRead s _ rfl h).taken.symm)

/-! ## Frames -/

theorem wsDispatch_acts (env : Env φ) (op : Nat) (payload : Bytes) (hs : s.ws.state = .wsOpen) :
    Acts env A s (wsDispatch env op payload s) ∧
    ((wsDispatch env op payload s).ws.state = .wsOpen ∨
      (wsDispatch env op payload s).ws.readBufferOffset = 0) := by
  have hclose : ∀ (code : WsCloseReason) (reason : Bytes), code ≠ .http → ∀ t : Conn φ,
      Acts env A t (wsClose env code (some reason) t) :=
    fun code reason hc t => .single (.close code _ fun h => absurd h hc)
  unfold wsDispatch
  split
  · split
    · have ha : Acts env A s ⟨s.ws, (networkSend env s.ws.peerFd payload s.world).2⟩ :=
        .single (.forward payload hs)
      dsimp only
      split
      · exact ⟨ha.trans (hclose _ _ (by decide) _), .inr rfl⟩
      · exact ⟨ha, .inl hs⟩
    · exact ⟨.refl, .inl hs⟩
  · split
    · exact ⟨hclose _ _ (by decide) _, .inr rfl⟩
    · split
      · have ha : Acts env A s ⟨s.ws, (wsSendFrame env s.ws .pong payload s.world).2⟩ :=
          .single (.frame .pong payload (hs ▸ A.frame_open) (A.opcode_own _ (by simp)))
        dsimp only
        split
        · exact ⟨ha.trans (hclose _ _ (by decide) _), .inr rfl⟩
        · exact ⟨ha, .inl hs⟩
      · split
        · exact ⟨.refl, .inl hs⟩
        · exact ⟨hclose _ _ (by decide) _, .inr rfl⟩

theorem wsFrame_acts (hr : A.reads) {n : Nat} (hs : s.ws.state = .wsOpen) (h : wsFrame env s = some (n, t)) :
    Acts env A s t ∧ (t.ws.state = .wsOpen ∨ t.ws.readBufferOffset = 0) := by
  unfold wsFrame at h
  split at h
  · cases h
    exact ⟨.refl, .inl hs⟩
  · dsimp only at h
    split at h
    · cases h
      exact ⟨.refl, .inl hs⟩
    · split at h
      · cases h
        exact ⟨.single (.close _ _ fun hc => by cases hc), .inr rfl⟩
      · split at h
        · cases h
        · next len start _ _ _ _ =>
          cases h
          generalize hb : write s.ws.readBuffer start (maskBytes
            (slice s.ws.readBuffer (start - 4) 4) (slice s.ws.readBuffer start len)) = b
          have hbare : Acts env A s ⟨{ s.ws with readBuffer := b }, s.world⟩ :=
            .single (.bare _ rfl hr)
          obtain ⟨ha, ho⟩ := wsDispatch_acts (A := A) env
            (s := ⟨{ s.ws with readBuffer := b }, s.world⟩) (wsGetOp (s.ws.readBuffer.getD 0 0))
            (maskBytes (slice s.ws.readBuffer (start - 4) 4) (slice s.ws.readBuffer start len)) hs
          exact ⟨hbare.trans ha, ho⟩

theorem wsFrames_acts (hr : A.reads) (fuel : Nat) (hs : s.ws.state = .wsOpen)
    (h : wsFrames env fuel s = some t) :
    Acts env A s t := by
  induction fuel generalizing s with
  | zero => cases h; exact .refl
  | succ fuel ih =>
      unfold wsFrames at h
      split at h
      · cases h
      · next n u hf =>
        obtain ⟨ha, ho⟩ := wsFrame_acts hr hs hf
        split at h
        · next hn =>
          have hopen : u.ws.state = .wsOpen := ho.resolve_right (by omega)
          have hbare : Acts env A u ⟨{ u.ws with
              readBuffer := moveDown u.ws.readBuffer n (u.ws.readBufferOffset - n)
              readBufferOffset := u.ws.readBufferOffset - n }, u.world⟩ := .single (.bare _ rfl hr)
          exact (ha.trans hbare).trans (ih hopen h)
        · cases h
          exact ha

/-! ## `ws_data` -/

/-- What `recv` did to the outside, and what it gave. -/
inductive Recvd (fd : Option Nat) (len : Nat) (answer : Option Bytes) (w : World) :
    Option Bytes → World → Prop
  | closed (h : w.sockAt fd = none) : Recvd fd len answer w none w
  | failed (x : Nat) (h : w.sockAt fd = some x) (ha : answer = none) :
      Recvd fd len answer w none (w.record (.recvFailed x))
  | data (x : Nat) (b : Bytes) (h : w.sockAt fd = some x) (ha : answer = some b) :
      Recvd fd len answer w (some (b.take len)) (w.record (.received x (b.take len)))

theorem recv_cases (fd : Option Nat) (len : Nat) (answer : Option Bytes) (w : World) :
    Recvd fd len answer w (recv fd len answer w).1 (recv fd len answer w).2 := by
  unfold recv
  split
  · next h => exact .closed h
  · next x h =>
    cases answer with
    | none => exact .failed x h rfl
    | some b => exact .data x b h rfl

/-- The connection with received bytes in its buffer. -/
def Websocket.filled (ws : Websocket φ) (data : Bytes) : Websocket φ :=
  { ws with readBuffer := write ws.readBuffer ws.readBufferOffset (data ++ [0]) }

/-- `read_buffer[0 .. read_buffer_offset)` -/
def Websocket.live (ws : Websocket φ) : Bytes := slice ws.readBuffer 0 ws.readBufferOffset

theorem slice_filled (ws : Websocket φ) (data : Bytes) :
    slice (ws.filled data).readBuffer 0 ws.readBufferOffset = ws.live ∧
    slice (ws.filled data).readBuffer ws.readBufferOffset data.length = data := by
  have h := slice_write_end ws.readBuffer ws.readBufferOffset (data ++ [0])
  unfold Websocket.filled Websocket.live
  refine ⟨slice_write_below _ _ _ _ _ (by omega), ?_⟩
  have hs := slice_write_same ws.readBuffer ws.readBufferOffset (data ++ [0])
  rw [List.length_append, slice_add] at hs
  exact (List.append_inj hs (by simp)).1

theorem recvLines_filled (ws : Websocket φ) (data : Bytes) :
    recvLines (ws.filled data) data = recvLines ws data := by
  unfold recvLines
  rw [show (ws.filled data).readBufferOffset = ws.readBufferOffset from rfl, (slice_filled ws data).1]
  rfl

/-- How `ws_data` ends: the connection is closed because there are no bytes, or the
bytes are handled and then the size limit is checked. -/
inductive DataTaken (env : Env φ) (answer : Option Bytes) (s : Conn φ) : Conn φ → Prop
  | nothing (r : Option Bytes) (w : World)
      (hr : Recvd s.ws.wsFd (wsMaxLine - s.ws.readBufferOffset - 1) answer s.world r w)
      (h : r = none ∨ r = some []) : DataTaken env answer s (wsClose env .unexpected none ⟨s.ws, w⟩)
  | data (x : Nat) (b data : Bytes) (u : Conn φ) (hx : s.world.sockAt s.ws.wsFd = some x)
      (ha : answer = some b) (hb : data = b.take (wsMaxLine - s.ws.readBufferOffset - 1))
      (hne : data ≠ [])
      (hu : wsDataSwitch env data.length
        ⟨s.ws.filled data, s.world.record (.received x data)⟩ = some u) :
      DataTaken env answer s
        (if wsMaxLine - u.ws.readBufferOffset < 2 then
          wsClose env .limit (some (ascii "Receive size limit exceeded")) u
        else u)

theorem wsData_cases {answer : Option Bytes} (h : wsData env answer s = some t) :
    DataTaken env answer s t := by
  unfold wsData at h
  have hr := recv_cases s.ws.wsFd (wsMaxLine - s.ws.readBufferOffset - 1) answer s.world
  generalize recv s.ws.wsFd (wsMaxLine - s.ws.readBufferOffset - 1) answer s.world = r at h hr
  obtain ⟨d, w⟩ := r
  dsimp only at h hr
  split at h
  · cases h
    exact .nothing _ w hr (.inl rfl)
  · cases h
    exact .nothing _ w hr (.inr rfl)
  · next data hne =>
    obtain ⟨u, hu, rfl⟩ := Option.map_eq_some_iff.mp h
    generalize hd : some data = d at hr
    cases hr with
    | closed _ => cases hd
    | failed _ _ _ => cases hd
    | data x b hx ha =>
        cases hd
        exact .data x b _ u hx ha rfl (fun e => hne (by rw [e])) hu

/-- What the handlers of `ws_data` do with the bytes in the buffer. -/
theorem wsDataSwitch_acts (hr : A.reads) {bytesRead : Nat}
    (hscan : s.ws.state = .wsNew ∨ s.ws.state = .wsHttp →
      Acts env A s (wsScan env bytesRead 0 bytesRead s).2)
    (h : wsDataSwitch env bytesRead s = some t) : Acts env A s t := by
  unfold wsDataSwitch at h
  split at h
  · next hs =>
    cases h
    exact (hscan (.inl hs)).trans (.single (.bare _ rfl hr))
  · next hs =>
    cases h
    exact (hscan (.inr hs)).trans (.single (.bare _ rfl hr))
  · next hs =>
    have hbare : Acts env A s ⟨{ s.ws with
        readBufferOffset := s.ws.readBufferOffset + bytesRead }, s.world⟩ := .single (.bare _ rfl hr)
    exact hbare.trans (wsFrames_acts hr _ hs h)
  · cases h
    exact .refl

/-! ## `ws_peer_data` and the keep-alive check -/

/-- The framing function chooses only opcodes of the scope, when the one it finds is such. -/
def Scope.Allows (A : Scope) (f : WsFraming φ) : Prop :=
  ∀ data length lastRead opcode framingData config op, A.opcode opcode →
    (f data length lastRead (some opcode) framingData config).2.1 = some op → A.opcode op

theorem wsForward_acts (env : Env φ) (op : WsOperation) (segment : Bytes) (hs : s.ws.state = .wsOpen)
    (ho : A.opcode op) : Acts env A s (wsForward env op segment s).2 := by
  have hnote : ∀ w : World, Acts env A ⟨s.ws, w⟩ ⟨s.ws, w.record (.segment s.ws.conn op segment)⟩ :=
    fun w => .single (.note _ rfl)
  have hframe : Acts env A s ⟨s.ws, (wsSendFrame env s.ws op segment s.world).2⟩ :=
    .single (.frame op segment (hs ▸ A.frame_open) ho)
  unfold wsForward
  dsimp only
  split
  · exact hnote s.world
  · split
    · exact hframe
    · exact hframe.trans (hnote _)

theorem wsForward_ws (env : Env φ) (op : WsOperation) (segment : Bytes) (s : Conn φ) :
    (wsForward env op segment s).2.ws = s.ws := rfl

/-- One pass of the framing loop is the last, or leaves the connection as it was but for
its peer buffer, which does not hold more than before. -/
theorem wsFramed_acts (env : Env φ) (n : Int) (op : WsOperation) (bytesRead : Nat) (hs : s.ws.state = .wsOpen)
    (ho : A.opcode op) (hlen : s.ws.peerBufferOffset + bytesRead ≤ peerBufferSize - 1) :
    match wsFramed env n op bytesRead s with
    | .done _ t => Acts env A s t
    | .again op' m t => op' = op ∧ t.ws.state = s.ws.state ∧ t.ws.peer = s.ws.peer ∧
      t.ws.peerBufferOffset + m ≤ s.ws.peerBufferOffset + bytesRead ∧ Acts env A s t := by
  have hbuffer : ∀ (w : World) (b : Bytes) (k : Nat), k ≤ s.ws.peerBufferOffset + bytesRead →
      Acts env A ⟨s.ws, w⟩ ⟨{ s.ws with peerBuffer := b, peerBufferOffset := k }, w⟩ :=
    fun w b k hk => .single (.peerBuffer b k s.ws.peerFramingData (by dsimp only; omega))
  unfold wsFramed
  dsimp only
  by_cases hpos : 0 < n
  · have hsent := wsForward_acts env op (slice s.ws.peerBuffer 0 n.toNat) hs ho
    have hws := wsForward_ws env op (slice s.ws.peerBuffer 0 n.toNat) s
    generalize wsForward env op (slice s.ws.peerBuffer 0 n.toNat) s = v at hsent hws ⊢
    obtain ⟨failed, ws, w⟩ := v
    cases hws
    rw [if_pos hpos]
    split
    · next t heq =>
      split at heq
      · cases heq
        exact .single (.close _ _ fun hc => by cases hc)
      · split at heq
        · cases heq
          exact hsent
        · split at heq
          · cases heq
          · split at heq
            · cases heq
            · cases heq
              exact hsent.trans (hbuffer w _ _ (by omega))
    · next t heq =>
      split at heq
      · cases heq
      · split at heq
        · cases heq
        · split at heq
          · cases heq
            exact ⟨rfl, rfl, rfl, by dsimp only; omega, hsent.trans (hbuffer w _ _ (by omega))⟩
          · split at heq
            · cases heq
              exact ⟨rfl, rfl, rfl, by dsimp only; omega, hsent.trans (hbuffer w _ _ (by omega))⟩
            · cases heq
  · rw [if_neg hpos]
    split
    · next t heq =>
      split at heq
      · cases heq
      · cases heq
        exact hbuffer s.world s.ws.peerBuffer _ (Nat.le_refl _)
    · next t heq =>
      split at heq
      · cases heq
        exact ⟨rfl, rfl, rfl, Nat.le_refl _, .refl⟩
      · cases heq

theorem wsFraming_acts (fuel : Nat) (opcode : WsOperation) (bytesRead : Nat) {r : Bool × Conn φ}
    (hs : s.ws.state = .wsOpen) (ho : A.opcode opcode)
    (hf : ∀ f, s.ws.peer.framing = some f → A.Allows f)
    (hlen : s.ws.peerBufferOffset + bytesRead ≤ peerBufferSize - 1)
    (h : wsFraming env fuel opcode bytesRead s = some r) : Acts env A s r.2 := by
  induction fuel generalizing s opcode bytesRead with
  | zero => cases h
  | succ fuel ih =>
      unfold wsFraming at h
      split at h
      · cases h
      · next framing hfr =>
        dsimp only at h
        have hallow := hf framing hfr (some s.ws.peerBuffer)
          (s.ws.peerBufferOffset + bytesRead) bytesRead opcode s.ws.peerFramingData
          s.ws.peer.framingConfig
        generalize framing (some s.ws.peerBuffer) (s.ws.peerBufferOffset + bytesRead) bytesRead
          (some opcode) s.ws.peerFramingData s.ws.peer.framingConfig = c at h hallow
        have ho' : A.opcode (c.2.1.getD opcode) := by
          cases hc : c.2.1 with
          | none => exact ho
          | some op => exact hallow op ho hc
        have hcall : Acts env A s (framingCalled bytesRead c.2.2 s) :=
          Acts.trans (.single (.note (.framing s.ws.conn _ bytesRead) rfl))
            (.single (.peerBuffer s.ws.peerBuffer s.ws.peerBufferOffset c.2.2 (Nat.le_max_left _ _)))
        have hpass := wsFramed_acts env c.1 (c.2.1.getD opcode) bytesRead
          (s := framingCalled bytesRead c.2.2 s) hs ho' hlen
        split at h
        · next rv t heq =>
          rw [heq] at hpass
          cases h
          exact hcall.trans hpass
        · next op' n t heq =>
          rw [heq] at hpass
          obtain ⟨rfl, hstate, hpeer, hle, hacts⟩ := hpass
          refine (hcall.trans hacts).trans (ih _ _ ?_ ho' ?_ ?_ h)
          · rw [hstate]
            exact hs
          · rw [hpeer]
            exact hf
          · exact Nat.le_trans hle hlen

/-- How `ws_peer_data` ends: the connection is closed because there are no bytes, or
the framing loop runs on them. -/
inductive PeerDataTaken (env : Env φ) (fuel : Nat) (answer : Option Bytes) (s : Conn φ) :
    Bool × Conn φ → Prop
  | failed (w : World)
      (hr : Recvd s.ws.peerFd (peerBufferSize - s.ws.peerBufferOffset - 1) answer s.world none w) :
      PeerDataTaken env fuel answer s
        (false, wsClose env .unexpected (some (ascii "Peer connection failed")) ⟨s.ws, w⟩)
  | ended (x : Nat) (b : Bytes) (hx : s.world.sockAt s.ws.peerFd = some x) (ha : answer = some b)
      (hb : [] = b.take (peerBufferSize - s.ws.peerBufferOffset - 1)) :
      PeerDataTaken env fuel answer s (false, wsClose env .normal
        (some (ascii "Peer closed connection")) ⟨s.ws, s.world.record (.received x [])⟩)
  | data (x : Nat) (b data : Bytes) (r : Bool × Conn φ) (hx : s.world.sockAt s.ws.peerFd = some x)
      (ha : answer = some b) (hb : data = b.take (peerBufferSize - s.ws.peerBufferOffset - 1))
      (hne : data ≠ [])
      (hu : wsFraming env fuel .binary data.length
        ⟨{ s.ws with peerBuffer := write s.ws.peerBuffer s.ws.peerBufferOffset (data ++ [0]) },
          s.world.record (.received x data)⟩ = some r) : PeerDataTaken env fuel answer s r

theorem wsPeerData_cases {fuel : Nat} {answer : Option Bytes} {r : Bool × Conn φ}
    (h : wsPeerData env fuel answer s = some r) : PeerDataTaken env fuel answer s r := by
  unfold wsPeerData at h
  have hr := recv_cases s.ws.peerFd (peerBufferSize - s.ws.peerBufferOffset - 1) answer s.world
  generalize recv s.ws.peerFd (peerBufferSize - s.ws.peerBufferOffset - 1) answer s.world = c at h hr
  obtain ⟨d, w⟩ := c
  dsimp only at h hr
  split at h
  · cases h
    exact .failed w hr
  · cases h
    generalize hd : some ([] : Bytes) = d at hr
    cases hr with
    | closed _ => cases hd
    | failed _ _ _ => cases hd
    | data x b hx ha =>
        have hb := Option.some.inj hd
        rw [← hb]
        exact .ended x b hx ha hb
  · next data hne =>
    generalize hd : some data = d at hr
    cases hr with
    | closed _ => cases hd
    | failed _ _ _ => cases hd
    | data x b hx ha =>
        cases hd
        exact .data x b _ r hx ha rfl (fun e => hne (by rw [e])) h

/-- What `ws_data` does after its `recv`. -/
theorem wsData_acts (hr : A.reads) {answer : Option Bytes}
    (hscan : ∀ x data, answer.map (·.take (wsMaxLine - s.ws.readBufferOffset - 1)) = some data →
      s.ws.state = .wsNew ∨ s.ws.state = .wsHttp →
      Acts env A ⟨s.ws.filled data, s.world.record (.received x data)⟩
        (wsScan env data.length 0 data.length
          ⟨s.ws.filled data, s.world.record (.received x data)⟩).2)
    (h : wsData env answer s = some t) :
    ∃ d w, Recvd s.ws.wsFd (wsMaxLine - s.ws.readBufferOffset - 1) answer s.world d w ∧
      Acts env A ⟨s.ws, w⟩ t := by
  cases wsData_cases h with
  | nothing r w hrecv h => exact ⟨r, w, hrecv, .single (.close _ _ fun hc => by cases hc)⟩
  | data x b data u hx ha hb hne hu =>
      refine ⟨some data, s.world.record (.received x data), hb ▸ .data x b hx ha, ?_⟩
      have hfill : Acts env A ⟨s.ws, s.world.record (.received x data)⟩
          ⟨s.ws.filled data, s.world.record (.received x data)⟩ := .single (.bare _ rfl hr)
      have hacts := hfill.trans (wsDataSwitch_acts hr
        (hscan x data (by rw [ha, hb]; rfl)) hu)
      split
      · exact hacts.trans (.single (.close _ _ fun hc => by cases hc))
      · exact hacts

/-- What `ws_peer_data` does after its `recv`. -/
theorem wsPeerData_acts {fuel : Nat} {answer : Option Bytes} {r : Bool × Conn φ}
    (hs : s.ws.state = .wsOpen) (ho : A.opcode .binary)
    (hf : ∀ f, s.ws.peer.framing = some f → A.Allows f)
    (hlen : s.ws.peerBufferOffset ≤ peerBufferSize - 1)
    (h : wsPeerData env fuel answer s = some r) :
    ∃ d w, Recvd s.ws.peerFd (peerBufferSize - s.ws.peerBufferOffset - 1) answer s.world d w ∧
      Acts env A ⟨s.ws, w⟩ r.2 := by
  cases wsPeerData_cases h with
  | failed w hrecv => exact ⟨none, w, hrecv, .single (.close _ _ fun hc => by cases hc)⟩
  | ended x b hx ha hb =>
      exact ⟨some [], _, hb ▸ .data x b hx ha, .single (.close _ _ fun hc => by cases hc)⟩
  | data x b data r hx ha hb hne hu =>
      refine ⟨some data, s.world.record (.received x data), hb ▸ .data x b hx ha, ?_⟩
      have hfill : Acts env A ⟨s.ws, s.world.record (.received x data)⟩
          ⟨{ s.ws with peerBuffer := write s.ws.peerBuffer s.ws.peerBufferOffset (data ++ [0]) },
            s.world.record (.received x data)⟩ :=
        .single (.peerBuffer _ s.ws.peerBufferOffset s.ws.peerFramingData (Nat.le_max_left _ _))
      refine hfill.trans (wsFraming_acts fuel .binary data.length hs ho hf ?_ hu)
      have : data.length ≤ peerBufferSize - s.ws.peerBufferOffset - 1 := by
        rw [hb, List.length_take]
        omega
      dsimp only
      omega

theorem wsKeepAlive_acts (env : Env φ) (now : Int)
    (hs : env.pingInterval ≠ 0 ∧ env.pingInterval < now - s.ws.lastEvent → A.frame s.ws.state) :
    Acts env A s (wsKeepAlive env now s) := by
  unfold wsKeepAlive
  split
  · next hdue =>
    have hframe : Acts env A s ⟨s.ws, (wsSendFrame env s.ws .ping (ascii "PING") s.world).2⟩ :=
      .single (.frame .ping _ (hs hdue) (A.opcode_own _ (by simp)))
    dsimp only
    split
    · exact hframe.trans (.single (.close _ _ fun hc => by cases hc))
    · exact hframe
  · exact .refl

end

end Websocksy

import Websocksy.EndOfStream
import Websocksy.FailuresClosed
import Websocksy.Segmentation

/-!
# Numbers that `select` reported

`select` reports descriptor numbers, and the core loop tests them slot by slot.  Once a
connection is closed in an iteration, its numbers are free, and a peer that is opened for a
later slot takes the lowest of them, which `read_fds` still holds as ready.  `PeerApart` says
that a step does not do this, and `Unmixed` what a handler then does to the numbers.
-/

namespace Websocksy

open Buffer CString Lines FdTable Machine

variable {φ : Type}

/-- The reason with which `ws_peer_data` closes a connection when its `recv` fails. -/
def peerFailed : Bytes := ascii "Peer connection failed"

/-- The sockets that `select` reported ready last. -/
def lastSelected (log : List Event) : List Nat :=
  log.foldl (fun socks e => match e with | .selected ready => ready | _ => socks) []

/-- The descriptor for which the next step calls `ws_data` or `ws_peer_data`. -/
def Core.readCall (c : Core φ) : Option Nat :=
  match c.loc with
  | .client n => ((c.sock[n]?).bind (·.wsFd)).filter (· ∈ c.readFds)
  | .peer n => ((c.sock[n]?).bind (·.peerFd)).filter (· ∈ c.readFds)
  | _ => none

/-- What is read next is a socket that was in the set given to `select` in this iteration and
was reported ready. -/
def ReadyServed (c : Core φ) : Prop :=
  ∀ fd ∈ c.readCall, ∃ x ∈ lastSelected c.world.log, c.world.sockAt (some fd) = some x

instance (c : Core φ) : Decidable (ReadyServed c) :=
  inferInstanceAs (Decidable (∀ fd ∈ c.readCall, ∃ x ∈ lastSelected c.world.log, _))

/-- A connection that the step closes because its peer failed is the one whose peer it reads
from: `recv` failed on a peer that was reported ready. -/
def PeerFailureReported (c c' : Core φ) : Prop :=
  ∀ conn, .wsClose conn (some peerFailed) ∈ c'.world.log.drop c.world.log.length →
    ∃ n ws fd x, c.loc = .peer n ∧ c.sock[n]? = some ws ∧ ws.conn = conn ∧ ws.peerFd = some fd ∧
      c.world.sockAt (some fd) = some x ∧ x ∈ lastSelected c.world.log ∧
      .recvFailed x ∈ c'.world.log.drop c.world.log.length

/-! ## The condition on a step -/

/-- A handshake that comes through: the backend names a peer, a socket is opened for it, and
the response is sent. -/
def comesThrough (env : Env φ) (s : Conn φ) : Bool :=
  let r := clientResolve (env.query s.world.queries s.ws.requestPath s.ws.protocol s.ws.header)
  r.2.any (env.connect s.world.connects) &&
    !(networkSendAll env s.ws.wsFd
      (upgradeResponse env (s.ws.connected r.1 (some (lowest s.world.fds)))) s.peerWorld).1

/-- If a handshake comes through with the next line of the line loop, the number that the peer
socket takes is not a ready one. -/
def LineApart (env : Env φ) (ready : List Nat) (p : Nat × Conn φ) : Prop :=
  ∀ l ∈ nextLine p,
    lineUpgrades p.2.ws (slice p.2.ws.readBuffer 0 p.2.ws.readBufferOffset ++ l.1) = true →
      comesThrough env p.2 = true → lowest p.2.world.fds ∉ ready

/-- The same for all lines of a call of `ws_data`. -/
def DataApart (env : Env φ) (ready : List Nat) (answer : Option Bytes) (s : Conn φ) : Prop :=
  InHttp s.ws → ∀ data ∈ (s.received answer).1,
    Passes (nextScan env) (LineApart env ready) data.length
      (data.length, ⟨s.ws.filled data, (s.received answer).2⟩)

/-- No peer socket takes a number that `select` reported in this iteration. -/
def PeerApart (env : Env φ) (c : Core φ) (i : Input) : Prop :=
  match c.loc, i with
  | .client n, .serve answer _ =>
    ∀ ws ∈ c.sock[n]?, ws.wsFd.any (· ∈ c.readFds) →
      DataApart env c.readFds answer ⟨{ ws with lastEvent := c.now }, c.world⟩
  | _, _ => True

instance (env : Env φ) (ready : List Nat) : DecidablePred (LineApart env ready) := fun p =>
  inferInstanceAs (Decidable (∀ l ∈ nextLine p,
    lineUpgrades p.2.ws (slice p.2.ws.readBuffer 0 p.2.ws.readBufferOffset ++ l.1) = true →
      comesThrough env p.2 = true → lowest p.2.world.fds ∉ ready))

instance (env : Env φ) (ready : List Nat) (answer : Option Bytes) (s : Conn φ) :
    Decidable (DataApart env ready answer s) :=
  inferInstanceAs (Decidable (InHttp s.ws → ∀ data ∈ (s.received answer).1,
    Passes (nextScan env) (LineApart env ready) data.length
      (data.length, ⟨s.ws.filled data, (s.received answer).2⟩)))

instance (env : Env φ) (c : Core φ) (i : Input) : Decidable (PeerApart env c i) :=
  match hl : c.loc, hi : i with
  | .client n, .serve answer fuel =>
    decidable_of_iff (∀ ws ∈ c.sock[n]?, ws.wsFd.any (· ∈ c.readFds) →
      DataApart env c.readFds answer ⟨{ ws with lastEvent := c.now }, c.world⟩)
      (by simp [PeerApart, hl])
  | .select, _ | .peer _, _ | .ping _, _ | .done, _ | _, .select .. | _, .quit =>
    isTrue (by simp [PeerApart, hl])

/-! ## What a handler keeps -/

/-- From `w` to `w'` no connection is closed because its peer failed. -/
def Unfailed (w w' : World) : Prop :=
  ∃ es, w'.log = w.log ++ es ∧ ∀ conn, .wsClose conn (some peerFailed) ∉ es

/-- From `s` to `t`, the connection gets no ready number and a ready number keeps its socket;
and the connection is not closed because its peer failed. -/
structure Unmixed (ready : List Nat) (s t : Conn φ) : Prop where
  held : ∀ fd ∈ t.ws.held, fd ∈ ready →
    fd ∈ s.ws.held ∧ t.world.sockAt (some fd) = s.world.sockAt (some fd)
  log : Unfailed s.world t.world

section

variable {env : Env φ} {ready : List Nat} {s t u : Conn φ} {w w' w'' : World}

theorem Unfailed.of_closesNothing (h : ClosesNothing w.log w'.log) : Unfailed w w' := by
  obtain ⟨es, he, hes⟩ := h
  exact ⟨es, he, fun conn => hes conn _⟩

theorem Unfailed.refl (w : World) : Unfailed w w := ⟨[], (List.append_nil _).symm, by simp⟩

theorem Unfailed.trans (h : Unfailed w w') (h' : Unfailed w' w'') : Unfailed w w'' := by
  obtain ⟨es, he, hes⟩ := h
  obtain ⟨fs, hf, hfs⟩ := h'
  refine ⟨es ++ fs, by rw [hf, he, List.append_assoc], ?_⟩
  intro conn hm
  rcases List.mem_append.mp hm with hm | hm
  · exact hes conn hm
  · exact hfs conn hm

/-- The connection is closed for another reason. -/
theorem Unfailed.close (code : WsCloseReason) {reason : Option Bytes}
    (h : reason ≠ some peerFailed) :
    Unfailed s.world (wsClose env code reason s).world := by
  obtain ⟨es, he, hes⟩ := wsClose_reason env code reason s
  exact ⟨es, he, fun conn hm => h (hes conn _ hm).symm⟩

theorem Unmixed.refl : Unmixed ready s s := ⟨fun _ h _ => ⟨h, rfl⟩, .refl _⟩

theorem Unmixed.trans (h : Unmixed ready s t) (h' : Unmixed ready t u) : Unmixed ready s u := by
  refine ⟨?_, h.log.trans h'.log⟩
  intro fd hfd hr
  obtain ⟨hm, hx⟩ := h'.held fd hfd hr
  obtain ⟨hm', hx'⟩ := h.held fd hm hr
  exact ⟨hm', hx.trans hx'⟩

/-- The numbers of the connection and the table stay. -/
theorem Unmixed.of_log (hh : t.ws.held = s.ws.held) (hf : t.world.fds = s.world.fds)
    (hl : Unfailed s.world t.world) : Unmixed ready s t := by
  refine ⟨?_, hl⟩
  intro fd hfd _
  rw [hh] at hfd
  refine ⟨hfd, ?_⟩
  rw [World.sockAt, World.sockAt, hf]

theorem Unmixed.of_ws {ws : Websocket φ} (hh : ws.held = s.ws.held) :
    Unmixed ready s ⟨ws, s.world⟩ := .of_log hh rfl (.refl _)

theorem Unmixed.record {e : Event} (he : ∀ conn reason, e ≠ .wsClose conn reason) :
    Unmixed ready s ⟨s.ws, s.world.record e⟩ :=
  .of_log rfl rfl (.of_closesNothing (.record s.world he))

theorem Unmixed.sends {fd : Option Nat} (h : OnlySends fd s.world w) : Unmixed ready s ⟨s.ws, w⟩ :=
  .of_log rfl h.fds (.of_closesNothing h.closesNothing)

/-- A closed connection has no numbers. -/
theorem Unmixed.closed {code : WsCloseReason} {reason : Option Bytes}
    (h : Unfailed s.world t.world) (hr : reason ≠ some peerFailed) :
    Unmixed ready s (wsClose env code reason t) := by
  refine ⟨?_, h.trans (.close code hr)⟩
  intro fd hfd
  simp [wsClose_ws, Websocket.held] at hfd

theorem Unmixed.close (h : Unmixed ready s t) (code : WsCloseReason) {reason : Option Bytes}
    (hr : reason ≠ some peerFailed) : Unmixed ready s (wsClose env code reason t) :=
  .closed h.log hr

/-! ## Lines -/

/-- The peer that `client_connect` finds. -/
theorem clientConnect_found (h : (clientConnect env s).1 = false) :
    let r := clientResolve (env.query s.world.queries s.ws.requestPath s.ws.protocol s.ws.header)
    r.2.any (env.connect s.world.connects) = true ∧
      (clientConnect env s).2 = ⟨s.ws.connected r.1 (some (lowest s.world.fds)), s.peerWorld⟩ := by
  unfold clientConnect at h ⊢
  dsimp only [World.record] at h ⊢
  generalize clientResolve
    (env.query s.world.queries s.ws.requestPath s.ws.protocol s.ws.header) = r
    at h ⊢
  obtain ⟨p, a⟩ := r
  cases a with
  | none => cases h
  | some a =>
      dsimp only [Option.any_some] at h ⊢
      generalize env.connect s.world.connects a = up at h ⊢
      cases up with
      | false => cases h
      | true => exact ⟨rfl, rfl⟩

/-- A handshake that leaves the connection open comes through. -/
theorem comesThrough_of_open (env : Env φ) (hr : s.ws.ready = true)
    (ho : (wsUpgradeHttp env s).2.ws.state = .wsOpen) :
    comesThrough env s = true := by
  rw [wsUpgradeHttp_ready env hr] at ho
  dsimp only at ho
  split at ho
  · cases ho
  · next hconnect =>
    obtain ⟨hany, hfound⟩ := clientConnect_found (by simpa using hconnect)
    rw [hfound] at ho
    split at ho
    · cases ho
    · next hsent =>
      unfold comesThrough
      dsimp only
      rw [hany, Bool.true_and, Bool.not_eq_true']
      exact Bool.eq_false_iff.mpr hsent

/-- **The handshake**: the peer socket of a connection that stays open takes the lowest number. -/
theorem wsUpgradeHttp_unmixed (hr : s.ws.ready = true)
    (ha : comesThrough env s = true → lowest s.world.fds ∉ ready) :
    Unmixed ready s (wsUpgradeHttp env s).2 := by
  have hasked : ∀ (ws : Websocket φ) (n : Nat), Unfailed s.world (s.world.asked ws n) := by
    intro ws n
    exact ⟨_, rfl, by simp⟩
  have hopened : Unfailed s.world s.peerWorld := by
    have hnew : Unfailed (s.world.asked s.ws (s.world.connects + 1)) s.peerWorld :=
      ⟨_, World.opened_log _ _, by simp⟩
    exact (hasked _ _).trans hnew
  have hthrough := comesThrough_of_open env hr
  have hu := wsUpgradeHttp_cases env hr
  generalize (wsUpgradeHttp env s).2 = t at hu hthrough ⊢
  cases hu with
  | refused p => exact .closed (hasked _ _) (by decide)
  | failed p => exact .closed (hasked _ _) (by decide)
  | dropped p w hs =>
      have hsends := networkSendAll_onlySends env s.ws.wsFd
        (upgradeResponse env (s.ws.connected p (some (lowest s.world.fds)))) s.peerWorld
      rw [hs] at hsends
      exact .closed (hopened.trans (.of_closesNothing hsends.closesNothing)) (by decide)
  | opened p f hf ho w hs =>
      have hsends := networkSendAll_onlySends env s.ws.wsFd
        (upgradeResponse env (s.ws.connected p (some (lowest s.world.fds)))) s.peerWorld
      rw [hs] at hsends
      have hfree := ha (hthrough rfl)
      refine ⟨?_, hopened.trans (.of_closesNothing hsends.closesNothing)⟩
      intro fd hfd hready
      have hne : fd ≠ lowest s.world.fds := fun e => hfree (e ▸ hready)
      constructor
      · refine List.mem_append_left _ ?_
        simpa [Websocket.held, Websocket.connected, hne] using hfd
      · show w.sockAt (some fd) = s.world.sockAt (some fd)
        rw [hsends.sockAt]
        exact (entry_install s.world.fds s.world.socks fd).trans (if_neg hne)

/-- Whether it comes through does not depend on the log. -/
theorem comesThrough_record (env : Env φ) (s : Conn φ) (e : Event) :
    comesThrough env ⟨s.ws, s.world.record e⟩ = comesThrough env s := by
  unfold comesThrough
  refine congrArg₂ (fun a b => a && !b) rfl (networkSendAll_congr env _ ?_ ?_).1 <;> rfl

/-- A line keeps the ready numbers apart, if a handshake that comes through with it does. -/
theorem wsTakeLine_unmixed (line : Bytes)
    (ha : lineUpgrades s.ws line = true → comesThrough env s = true → lowest s.world.fds ∉ ready) :
    Unmixed ready s (wsTakeLine env line s) := by
  have hnote : Unmixed ready s ⟨s.ws, s.world.record (.line s.ws.conn s.ws.state line)⟩ :=
    .record fun _ _ h => by cases h
  cases he : lineEnds s.ws line with
  | false =>
      rw [wsTakeLine_quiet env he]
      refine hnote.trans (.of_ws ?_)
      unfold lineQuiet
      dsimp only
      repeat' split
      · rfl
      · rfl
      · rfl
      · next tag value _ =>
        obtain ⟨hs, ver, key, up, ps, h⟩ := wsHeader_eq tag (ltrim value) s.ws
        rw [h]
        rfl
  | true =>
      have hcleared : lineUpgrades s.ws line = false → (wsTakeLine env line s).ws.Cleared :=
        wsTakeLine_cleared he
      have hends := wsTakeLine_ends env he
      generalize wsTakeLine env line s = t at hcleared hends ⊢
      cases hends with
      | upgrade hr =>
          by_cases hup : lineUpgrades s.ws line = true
          · refine hnote.trans (wsUpgradeHttp_unmixed hr fun hc => ?_)
            rw [comesThrough_record] at hc
            exact ha hup hc
          · have hc := hcleared (by simpa using hup)
            have hlog : Unmixed [] _ (wsUpgradeHttp env _).2 :=
              wsUpgradeHttp_unmixed hr fun _ => by simp
            refine ⟨?_, hnote.log.trans hlog.log⟩
            intro fd hfd
            simp [Websocket.held, hc.wsFd, hc.peerFd] at hfd
      | version _ => exact hnote.close _ (by decide)
      | folding => exact hnote.close _ (by decide)
      | format => exact hnote.close _ (by decide)

/-- **The line loop**, where no peer socket takes a ready number. -/
theorem wsScan_unmixed (bytesRead : Nat)
    (hp : Passes (nextScan env) (LineApart env ready) bytesRead (bytesRead, s)) :
    Unmixed ready s (wsScan env bytesRead 0 bytesRead s).2 := by
  induction hb : bytesRead using Nat.strongRecOn generalizing bytesRead s with
  | ind n ih =>
      subst hb
      rw [wsScan_line]
      cases hc : cutLine (slice s.ws.readBuffer s.ws.readBufferOffset bytesRead) with
      | none => exact .refl
      | some p =>
          obtain ⟨l, r⟩ := p
          have hlt : r.length < bytesRead := by
            have := lines.shorter hc
            rwa [length_slice] at this
          obtain ⟨k, rfl⟩ : ∃ k, bytesRead = k + 1 := ⟨bytesRead - 1, by omega⟩
          obtain ⟨hline, hrest⟩ := hp
          have hnext : nextLine (k + 1, s) = some (l, r) := hc
          rw [nextScan, hnext] at hrest
          have htaken := wsTakeLine_unmixed (slice s.ws.readBuffer 0 s.ws.readBufferOffset ++ l)
            (hline (l, r) hnext)
          obtain ⟨halike, -, -, -⟩ := wsDropLine_spec env hc
          have hworld := halike.world
          rw [view_all, view_all] at hworld
          have hdropped : Unmixed ready s
              (wsDropLine l.length r.length (wsHandOver env l.length s)) := by
            refine htaken.trans (.of_log ?_ (congrArg World.fds hworld) ?_)
            · exact bare_congr Websocket.held halike.ws fun _ => rfl
            · rw [hworld]
              exact .refl _
          exact hdropped.trans (ih r.length hlt r.length (Passes.mono hrest (by omega)) rfl)

/-! ## Frames and data from the client -/

theorem wsDispatch_unmixed (env : Env φ) (op : Nat) (payload : Bytes) (s : Conn φ) :
    Unmixed ready s (wsDispatch env op payload s) := by
  have hforward : Unmixed ready s ⟨s.ws, (networkSend env s.ws.peerFd payload s.world).2⟩ :=
    .sends (networkSend_onlySends env s.ws.peerFd payload s.world)
  have hpong : Unmixed ready s ⟨s.ws, (wsSendFrame env s.ws .pong payload s.world).2⟩ :=
    .sends (wsSendFrame_onlySends env s.ws .pong payload s.world)
  unfold wsDispatch
  split
  · split
    · dsimp only
      split
      · exact hforward.close _ (by decide)
      · exact hforward
    · exact .refl
  · split
    · exact Unmixed.refl.close _ (by decide)
    · split
      · dsimp only
        split
        · exact hpong.close _ (by decide)
        · exact hpong
      · split
        · exact .refl
        · exact Unmixed.refl.close _ (by decide)

theorem wsFrame_unmixed {n : Nat} (h : wsFrame env s = some (n, t)) : Unmixed ready s t := by
  unfold wsFrame at h
  split at h
  · cases h
    exact .refl
  · next len start hlayout =>
    dsimp only at h
    split at h
    · cases h
      exact .refl
    · split at h
      · cases h
        exact Unmixed.refl.close _ (by decide)
      · split at h
        · cases h
        · cases h
          have hunmasked (b : Bytes) : Unmixed ready s ⟨{ s.ws with readBuffer := b }, s.world⟩ :=
            .of_ws rfl
          exact (hunmasked _).trans (wsDispatch_unmixed env _ _ _)

theorem wsFrames_unmixed (fuel : Nat) (h : wsFrames env fuel s = some t) : Unmixed ready s t := by
  induction fuel generalizing s with
  | zero =>
      cases h
      exact .refl
  | succ fuel ih =>
      unfold wsFrames at h
      split at h
      · cases h
      · next n u hu =>
        have hframe : Unmixed ready s u := wsFrame_unmixed hu
        split at h
        · have hmoved : Unmixed ready u ⟨{ u.ws with
              readBuffer := moveDown u.ws.readBuffer n (u.ws.readBufferOffset - n)
              readBufferOffset := u.ws.readBufferOffset - n }, u.world⟩ := .of_ws rfl
          exact (hframe.trans hmoved).trans (ih h)
        · cases h
          exact hframe

/-- `recv` changes nothing but the log. -/
theorem Recvd.unmixed {fd : Option Nat} {len : Nat} {answer d : Option Bytes}
    (h : Recvd fd len answer s.world d w) : Unmixed ready s ⟨s.ws, w⟩ := by
  cases h with
  | closed hx => exact .refl
  | failed x hx ha => exact .record fun _ _ h => by cases h
  | data x b hx ha => exact .record fun _ _ h => by cases h

theorem wsDataSwitch_unmixed {bytesRead : Nat}
    (hp : InHttp s.ws → Passes (nextScan env) (LineApart env ready) bytesRead (bytesRead, s))
    (h : wsDataSwitch env bytesRead s = some t) : Unmixed ready s t := by
  have hscan (hs : InHttp s.ws) : Unmixed ready s
      (let r := wsScan env bytesRead 0 bytesRead s
       { r.2 with ws := { r.2.ws with readBufferOffset := r.1 } }) :=
    (wsScan_unmixed bytesRead (hp hs)).trans (.of_ws rfl)
  unfold wsDataSwitch at h
  split at h
  · next hs =>
    cases h
    exact hscan (.inl hs)
  · next hs =>
    cases h
    exact hscan (.inr hs)
  · have hgrown : Unmixed ready s ⟨{ s.ws with
        readBufferOffset := s.ws.readBufferOffset + bytesRead }, s.world⟩ := .of_ws rfl
    exact hgrown.trans (wsFrames_unmixed _ h)
  · cases h
    exact .refl

theorem wsData_unmixed {answer : Option Bytes} (hp : DataApart env ready answer s)
    (h : wsData env answer s = some t) : Unmixed ready s t := by
  cases wsData_cases h with
  | nothing r w hr hnone => exact Unmixed.close hr.unmixed _ (by decide)
  | data x b data u hx ha hb hne hu =>
      have hrecv : s.received answer = (some data, s.world.record (.received x data)) := by
        unfold Conn.received recv
        rw [hx, ha, hb]
      have hnote : Unmixed ready s ⟨s.ws, s.world.record (.received x data)⟩ :=
        .record fun _ _ h => by cases h
      have hfilled : Unmixed ready s ⟨s.ws.filled data, s.world.record (.received x data)⟩ :=
        hnote.trans (.of_ws rfl)
      have hdone := hfilled.trans (wsDataSwitch_unmixed (fun hs => by
        have hall := hp hs data (by rw [hrecv]; rfl)
        rwa [hrecv] at hall) hu)
      split
      · exact hdone.close _ (by decide)
      · exact hdone

/-- Without ready numbers there is no condition. -/
theorem wsData_unfailed {answer : Option Bytes} (h : wsData env answer s = some t) :
    Unfailed s.world t.world := by
  have hall : Unmixed [] s t :=
    wsData_unmixed (fun _ _ _ => Passes.of_forall (fun _ _ _ _ _ => by simp) _ _) h
  exact hall.log

/-! ## Data from the peer, and the keep-alive check -/

theorem wsFraming_unmixed (fuel : Nat) (op : WsOperation) (bytesRead : Nat) {r : Bool × Conn φ}
    (h : wsFraming env fuel op bytesRead s = some r) : Unmixed ready s r.2 := by
  induction fuel generalizing s op bytesRead with
  | zero => cases h
  | succ fuel ih =>
      obtain ⟨f, hf⟩ := wsFraming_some h
      obtain ⟨p, hpass, hp⟩ := wsFraming_passed env op bytesRead hf
      rw [hp] at h
      generalize s.framingCall op bytesRead = c at hpass
      have hcalled : Unmixed ready s (c.called f s) :=
        .of_log rfl rfl (.of_closesNothing (called_closesNothing f c s))
      have htaken (op : WsOperation) (seg : Bytes) (rest : FramingCall φ) (k : Nat) {w : World}
          (hw : OnlySends s.ws.wsFd (c.called f s).world w) :
          Unmixed ready s (c.taken f op seg rest k w s) := by
        have hsent : Unmixed ready s ⟨(c.called f s).ws, w⟩ := hcalled.trans (.sends hw)
        have hnoted : Unmixed ready ⟨(c.called f s).ws, w⟩
            ⟨(c.called f s).ws, w.record (.segment s.ws.conn op seg)⟩ :=
          .record fun _ _ h => by cases h
        exact (hsent.trans hnoted).trans (.of_ws rfl)
      cases hpass with
      | overrun hover hn =>
          cases h
          exact hcalled.close _ (by decide)
      | unsent o seg rest again k hk w hw hs =>
          cases h
          exact hcalled.trans (.sends hw)
      | last o seg rest k hk hn w hw =>
          cases h
          exact htaken o seg rest _ hw
      | again o seg rest k hk hn w hw hc =>
          exact (htaken o seg rest _ hw).trans (ih _ _ h)
      | declined hz hd hn =>
          cases h
          exact hcalled.trans (.of_ws rfl)
      | failed rest hz hl hn hc hr => exact hcalled.trans (ih _ _ h)

/-- `ws_peer_data` closes the connection because `recv` failed, or does nothing of the kind. -/
theorem wsPeerData_unmixed {fuel : Nat} {answer : Option Bytes} {r : Bool × Conn φ}
    (h : wsPeerData env fuel answer s = some r) :
    (∃ w, Recvd s.ws.peerFd (peerBufferSize - s.ws.peerBufferOffset - 1) answer s.world none w ∧
      r.2 = wsClose env .unexpected (some peerFailed) ⟨s.ws, w⟩) ∨ Unmixed ready s r.2 := by
  have hnote (x : Nat) (data : Bytes) :
      Unmixed ready s ⟨s.ws, s.world.record (.received x data)⟩ := .record fun _ _ h => by cases h
  cases wsPeerData_cases h with
  | failed w hr => exact .inl ⟨w, hr, rfl⟩
  | ended x b hx ha hb => exact .inr ((hnote x []).close _ (by decide))
  | data x b data r hx ha hb hne hu =>
      have hfilled : Unmixed ready s ⟨{ s.ws with
          peerBuffer := write s.ws.peerBuffer s.ws.peerBufferOffset (data ++ [0]) },
          s.world.record (.received x data)⟩ := (hnote x data).trans (.of_ws rfl)
      exact .inr (hfilled.trans (wsFraming_unmixed fuel .binary data.length hu))

theorem wsKeepAlive_unmixed (env : Env φ) (now : Int) (s : Conn φ) :
    Unmixed ready s (wsKeepAlive env now s) := by
  have hping : Unmixed ready s ⟨s.ws, (wsSendFrame env s.ws .ping (ascii "PING") s.world).2⟩ :=
    .sends (wsSendFrame_onlySends env s.ws .ping (ascii "PING") s.world)
  unfold wsKeepAlive
  split
  · dsimp only
    split
    · exact hping.close _ (by decide)
    · exact hping
  · exact .refl

end

end Websocksy

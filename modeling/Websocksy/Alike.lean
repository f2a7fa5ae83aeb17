import Websocksy.LineScan

/-!
# What the line handlers do not look at

The handlers of the HTTP phase are given their line; they do not look at the
read buffer, at the time of the last event, nor at the log of the run.  So from connections that agree in the rest (`Alike`) they lead to
connections that agree in the rest.
-/

namespace Websocksy

open Buffer CString Lines

variable {φ : Type}

/-- The connection without its read buffer and the time of its last event. -/
def Websocket.bare (ws : Websocket φ) : Websocket φ :=
  { ws with readBuffer := [], readBufferOffset := 0, lastEvent := 0 }

/-- The outside with only some of its log. -/
def World.view (keep : Event → Bool) (w : World) : World := { w with log := w.log.filter keep }

structure Alike (keep : Event → Bool) (s t : Conn φ) : Prop where
  ws : s.ws.bare = t.ws.bare
  world : s.world.view keep = t.world.view keep

section

variable {keep : Event → Bool} {s t u : Conn φ} {w w' : World}

theorem Alike.refl (s : Conn φ) : Alike keep s s := ⟨rfl, rfl⟩

theorem Alike.symm (h : Alike keep s t) : Alike keep t s := ⟨h.ws.symm, h.world.symm⟩

theorem Alike.trans (h : Alike keep s t) (h' : Alike keep t u) : Alike keep s u :=
  ⟨h.ws.trans h'.ws, h.world.trans h'.world⟩

/-- Connections that are equal but for their read buffers are one connection with
another read buffer. -/
theorem bare_eq {ws ws' : Websocket φ} (h : ws.bare = ws'.bare) :
    ∃ rb ro le, ws' = { ws with readBuffer := rb, readBufferOffset := ro, lastEvent := le } := by
  refine ⟨ws'.readBuffer, ws'.readBufferOffset, ws'.lastEvent, ?_⟩
  cases ws
  cases ws'
  simp only [Websocket.bare, Websocket.mk.injEq] at h ⊢
  simp only [h, and_self]

/-- What can be read off a connection without its read buffer is the same. -/
theorem bare_congr {α : Type} (f : Websocket φ → α) {ws ws' : Websocket φ} (h : ws.bare = ws'.bare)
    (hf : ∀ ws : Websocket φ, f ws.bare = f ws) : f ws = f ws' := by
  rw [← hf ws, h, hf]

/-! ## The outside -/

/-- Outsides that are equal but for what is not kept of the log. -/
theorem view_eq (h : w.view keep = w'.view keep) :
    ∃ log, w' = { w with log := log } ∧ log.filter keep = w.log.filter keep := by
  refine ⟨w'.log, ?_, ?_⟩
  · cases w
    cases w'
    simp only [World.view, World.mk.injEq] at h ⊢
    simp only [h, and_self]
  · simp only [World.view, World.mk.injEq] at h
    exact h.2.2.2.2.2.2.symm

theorem view_mk (w : World) {log log' : List Event} (h : log'.filter keep = log.filter keep) :
    ({ w with log := log } : World).view keep = ({ w with log := log' } : World).view keep := by
  simp only [World.view, h]

theorem view_record (e : Event) (h : w.view keep = w'.view keep) :
    (w.record e).view keep = (w'.record e).view keep := by
  obtain ⟨log, rfl, hl⟩ := view_eq h
  exact view_mk w (by simp only [List.filter_append, hl])

/-- An event that is not kept is not seen. -/
theorem view_record_drop {e : Event} (he : keep e = false) (w : World) :
    (w.record e).view keep = w.view keep := by
  simp [World.view, World.record, he]

theorem view_sockAt (h : w.view keep = w'.view keep) (fd : Option Nat) :
    w.sockAt fd = w'.sockAt fd := by
  obtain ⟨log, rfl, -⟩ := view_eq h
  rfl

theorem networkSendLoop_view (env : Env φ) (x fuel : Nat) (data : Bytes)
    (h : w.view keep = w'.view keep) :
    (networkSendLoop env x fuel data w).1 = (networkSendLoop env x fuel data w').1 ∧
    (networkSendLoop env x fuel data w).2.view keep =
      (networkSendLoop env x fuel data w').2.view keep := by
  induction fuel generalizing data w w' with
  | zero => exact ⟨rfl, h⟩
  | succ fuel ih =>
      obtain ⟨log, rfl, hl⟩ := view_eq h
      unfold networkSendLoop
      split
      · exact ⟨rfl, h⟩
      · cases env.send x w.sends with
        | none => exact ⟨rfl, view_record _ (view_mk { w with sends := w.sends + 1 } hl)⟩
        | some k => exact ih _ (view_record _ (view_mk { w with sends := w.sends + 1 } hl))

theorem networkSend_view (env : Env φ) (fd : Option Nat) (data : Bytes)
    (h : w.view keep = w'.view keep) :
    (networkSend env fd data w).1 = (networkSend env fd data w').1 ∧
    (networkSend env fd data w).2.view keep = (networkSend env fd data w').2.view keep := by
  unfold networkSend
  split
  · exact ⟨rfl, h⟩
  · rw [view_sockAt h fd]
    split
    · exact ⟨rfl, h⟩
    · exact networkSendLoop_view env _ _ data h

theorem networkSendAll_view (env : Env φ) (fd : Option Nat) (ds : List Bytes)
    (h : w.view keep = w'.view keep) :
    (networkSendAll env fd ds w).1 = (networkSendAll env fd ds w').1 ∧
    (networkSendAll env fd ds w).2.view keep = (networkSendAll env fd ds w').2.view keep := by
  induction ds generalizing w w' with
  | nil => exact ⟨rfl, h⟩
  | cons d ds ih =>
      obtain ⟨h1, h2⟩ := networkSend_view env fd d h
      simp only [networkSendAll]
      rw [h1]
      split
      · exact ⟨h1, h2⟩
      · exact ih h2

theorem closeFd_view (fd : Option Nat) (h : w.view keep = w'.view keep) :
    (w.closeFd fd).view keep = (w'.closeFd fd).view keep := by
  unfold World.closeFd
  rw [view_sockAt h fd]
  obtain ⟨log, rfl, hl⟩ := view_eq h
  split
  · next n x _ =>
    exact view_record _ (view_mk { w with fds := FdTable.release w.fds n } hl)
  · exact h

/-! ## The handlers -/

theorem wsClose_alike (env : Env φ) (code : WsCloseReason) (reason : Option Bytes)
    (h : Alike keep s t) : Alike keep (wsClose env code reason s) (wsClose env code reason t) := by
  obtain ⟨ws, w⟩ := s
  obtain ⟨ws', w'⟩ := t
  obtain ⟨rb, ro, le, rfl⟩ := bare_eq h.ws
  refine ⟨rfl, closeFd_view _ (closeFd_view _ ?_)⟩
  have hr := view_record (.wsClose ws.conn reason) h.world
  unfold wsCloseSend
  cases reason with
  | none => exact hr
  | some r =>
      dsimp only at hr ⊢
      split
      · exact (networkSendAll_view env ws.wsFd _ hr).2
      · split
        · exact (networkSend_view env _ _ (networkSend_view env _ _
            (networkSend_view env _ _ hr).2).2).2
        · exact hr

theorem clientConnect_alike (env : Env φ) (h : Alike keep s t) :
    (clientConnect env s).1 = (clientConnect env t).1 ∧
    Alike keep (clientConnect env s).2 (clientConnect env t).2 := by
  obtain ⟨ws, w⟩ := s
  obtain ⟨ws', w'⟩ := t
  obtain ⟨rb, ro, le, rfl⟩ := bare_eq h.ws
  obtain ⟨log, rfl, hl⟩ := view_eq h.world
  have hlog : (log ++ [Event.query ws.conn ws.state ws.requestPath]).filter keep =
      (w.log ++ [Event.query ws.conn ws.state ws.requestPath]).filter keep := by
    simp only [List.filter_append, hl]
  simp only [clientConnect, World.record_queries]
  obtain ⟨p, a⟩ := clientResolve (env.query w.queries ws.requestPath ws.protocol ws.header)
  cases a with
  | none => exact ⟨rfl, rfl, view_mk { w with queries := w.queries + 1 } hlog⟩
  | some a =>
      simp only [World.record_connects]
      cases env.connect w.connects a with
      | false =>
          exact ⟨rfl, rfl, view_mk
            { w with queries := w.queries + 1, connects := w.connects + 1 } hlog⟩
      | true =>
          exact ⟨rfl, rfl, view_record _ (view_mk (World.openSock
            { w with queries := w.queries + 1, connects := w.connects + 1 }) hlog)⟩

theorem wsUpgradeHttp_alike (env : Env φ) (h : Alike keep s t) :
    Alike keep (wsUpgradeHttp env s).2 (wsUpgradeHttp env t).2 := by
  have hready : s.ws.ready = t.ws.ready := bare_congr Websocket.ready h.ws fun _ => rfl
  have hversion : s.ws.websocketVersion = t.ws.websocketVersion :=
    bare_congr Websocket.websocketVersion h.ws fun _ => rfl
  cases hr : s.ws.ready with
  | false =>
      rw [hr] at hready
      by_cases hv : s.ws.websocketVersion = 13
      · rw [wsUpgradeHttp_incomplete env hr hv,
          wsUpgradeHttp_incomplete env hready.symm (hversion ▸ hv)]
        exact h
      · rw [wsUpgradeHttp_version env hr hv,
          wsUpgradeHttp_version env hready.symm (hversion ▸ hv)]
        exact wsClose_alike env _ _ h
  | true =>
      rw [hr] at hready
      rw [wsUpgradeHttp_ready env hr, wsUpgradeHttp_ready env hready.symm]
      obtain ⟨h1, h2⟩ := clientConnect_alike env h
      generalize clientConnect env s = c at h1 h2 ⊢
      generalize clientConnect env t = c' at h1 h2 ⊢
      obtain ⟨up, ws, w⟩ := c
      obtain ⟨up', ws', w'⟩ := c'
      obtain ⟨rb, ro, le, rfl⟩ := bare_eq h2.ws
      obtain ⟨h3, h4⟩ := networkSendAll_view env ws.wsFd (upgradeResponse env ws) h2.world
      have hresponse : upgradeResponse env { ws with
          readBuffer := rb, readBufferOffset := ro, lastEvent := le } =
        upgradeResponse env ws := rfl
      dsimp only at h1 h2 h3 h4 ⊢
      rw [hresponse, ← h1, ← h3]
      split
      · exact wsClose_alike env _ _ h2
      · split
        · exact wsClose_alike env _ _ ⟨rfl, h4⟩
        · exact ⟨rfl, h4⟩

theorem wsHeader_bare (header value : Bytes) {ws ws' : Websocket φ} (h : ws.bare = ws'.bare) :
    (wsHeader header value ws).bare = (wsHeader header value ws').bare := by
  obtain ⟨rb, ro, le, rfl⟩ := bare_eq h
  unfold wsHeader
  split
  · rfl
  · split
    · rfl
    · split
      · rfl
      · generalize (if header = ascii "Connection" then value.map tolower else value) = v
        dsimp only
        split
        · rfl
        · split
          · rfl
          · split <;> rfl

theorem lineEnds_bare (line : Bytes) {ws ws' : Websocket φ} (h : ws.bare = ws'.bare) :
    lineEnds ws line = lineEnds ws' line := by
  obtain ⟨rb, ro, le, rfl⟩ := bare_eq h
  rfl

theorem lineQuiet_bare (line : Bytes) {ws ws' : Websocket φ} (h : ws.bare = ws'.bare) :
    (lineQuiet ws line).bare = (lineQuiet ws' line).bare := by
  have hstate : ws.state = ws'.state := bare_congr Websocket.state h fun _ => rfl
  unfold lineQuiet
  rw [hstate]
  split
  · split
    · exact h
    · obtain ⟨rb, ro, le, rfl⟩ := bare_eq h
      rfl
  · split
    · exact h
    · exact wsHeader_bare _ _ h

theorem EndsLast_bare {ws ws' : Websocket φ} (h : ws.bare = ws'.bare) (ls : List Bytes) :
    EndsLast ws ls ↔ EndsLast ws' ls := by
  induction ls generalizing ws ws' with
  | nil => rfl
  | cons l ls ih =>
      unfold EndsLast
      rw [lineEnds_bare l h, ih (lineQuiet_bare l h)]

/-- **One line** leads from alike connections to alike connections. -/
theorem wsTakeLine_alike (env : Env φ) (line : Bytes) (h : Alike keep s t) :
    Alike keep (wsTakeLine env line s) (wsTakeLine env line t) := by
  have hstate : s.ws.state = t.ws.state := bare_congr Websocket.state h.ws fun _ => rfl
  have hconn : s.ws.conn = t.ws.conn := bare_congr Websocket.conn h.ws fun _ => rfl
  have hr : Alike keep ⟨s.ws, s.world.record (.line s.ws.conn s.ws.state line)⟩
      ⟨t.ws, t.world.record (.line t.ws.conn t.ws.state line)⟩ := by
    rw [hstate, hconn]
    exact ⟨h.ws, view_record _ h.world⟩
  unfold wsTakeLine
  dsimp only
  split
  · next hn =>
    rw [if_pos (hstate ▸ hn)]
    split
    · exact hr
    · obtain ⟨rb, ro, le, ht⟩ := bare_eq h.ws
      exact ⟨by rw [ht]; rfl, hr.world⟩
  · next hn =>
    rw [if_neg (hstate ▸ hn)]
    unfold wsHandleLine
    split
    · exact wsUpgradeHttp_alike env hr
    · split
      · exact wsClose_alike env _ _ hr
      · split
        · exact wsClose_alike env _ _ hr
        · exact ⟨wsHeader_bare _ _ h.ws, hr.world⟩

end

end Websocksy

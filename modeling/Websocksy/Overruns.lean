import Websocksy.FramingCalls

/-!
# Overruns of the framing function

A framing function that frames more bytes than there are ends the connection with
`Internal error`.  `wsPeerData_internalError` says when a call of `ws_peer_data` does that.
-/

namespace Websocksy

open Buffer CString Relation

variable {φ : Type}

/-- The reasons that `ws_close` was given for the connection. -/
def closeReasons (conn : Nat) (log : List Event) : List (Option Bytes) :=
  log.flatMap fun
    | .wsClose c reason => if c = conn then [reason] else []
    | _ => []

@[simp] theorem closeReasons_append (conn : Nat) (l m : List Event) :
    closeReasons conn (l ++ m) = closeReasons conn l ++ closeReasons conn m := List.flatMap_append

/-- From `s` to `t` the connection is closed with `Internal error`. -/
def InternalError (s t : Conn φ) : Prop :=
  some (ascii "Internal error") ∈
    (closeReasons s.ws.conn t.world.log).drop (closeReasons s.ws.conn s.world.log).length

instance (s t : Conn φ) : Decidable (InternalError s t) := inferInstanceAs (Decidable (_ ∈ _))

/-- More bytes are framed than there are. -/
def FramingCall.Overruns (f : WsFraming φ) (config : Option Bytes) (c : FramingCall φ) : Prop :=
  (c.length : Int) < (c.answer f config).1

/-- What a step adds to the reasons, and what it keeps of the connection. -/
structure Reasons (s t : Conn φ) (new : List (Option Bytes)) : Prop where
  conn : t.ws.conn = s.ws.conn
  peer : t.ws.peer = s.ws.peer ∧ t.ws.peerFd = s.ws.peerFd ∨ t.ws.peerFd = none
  reasons : closeReasons s.ws.conn t.world.log = closeReasons s.ws.conn s.world.log ++ new

section

variable {env : Env φ} {f : WsFraming φ} {config : Option Bytes} {c : FramingCall φ}
  {s t u : Conn φ} {new new' : List (Option Bytes)}

theorem Reasons.internalError (h : Reasons s t new) :
    InternalError s t ↔ some (ascii "Internal error") ∈ new := by
  unfold InternalError
  rw [h.reasons, List.drop_left]

/-- A step that keeps the peer, and one after it. -/
theorem Reasons.trans (h : Reasons s t new)
    (hp : t.ws.peer = s.ws.peer ∧ t.ws.peerFd = s.ws.peerFd) (h' : Reasons t u new') :
    Reasons s u (new ++ new') := by
  refine ⟨h'.conn.trans h.conn, h'.peer.imp (fun h => ⟨h.1.trans hp.1, h.2.trans hp.2⟩) id, ?_⟩
  rw [← h.conn, h'.reasons, h.conn, h.reasons, List.append_assoc]

theorem OnlySends.closeReasons {fd : Option Nat} {w w' : World} (h : OnlySends fd w w')
    (conn : Nat) : closeReasons conn w'.log = closeReasons conn w.log := by
  obtain ⟨es, he, hes⟩ := h.log
  have hnil : Websocksy.closeReasons conn es = [] := by
    unfold Websocksy.closeReasons
    rw [List.flatMap_eq_nil_iff]
    intro e hm
    obtain ⟨x, -, rfl | ⟨d, rfl⟩⟩ := hes e hm <;> rfl
  rw [he, closeReasons_append, hnil, List.append_nil]

theorem wsClose_reasons (env : Env φ) (code : WsCloseReason) (reason : Option Bytes) (s : Conn φ) :
    Reasons s (wsClose env code reason s) [reason] := by
  refine ⟨rfl, .inr rfl, ?_⟩
  obtain ⟨es, he, hes⟩ := wsClose_log env code reason s
  have hsent : closeReasons s.ws.conn es = [] := by
    unfold closeReasons
    rw [List.flatMap_eq_nil_iff]
    intro e hm
    obtain ⟨x, -, rfl | ⟨d, rfl⟩⟩ := hes e hm <;> rfl
  have hclosed : closeReasons s.ws.conn (s.closing.map .closed) = [] := by
    unfold closeReasons
    rw [List.flatMap_eq_nil_iff]
    intro e hm
    obtain ⟨x, -, rfl⟩ := List.mem_map.mp hm
    rfl
  rw [he, ← List.singleton_append, closeReasons_append, closeReasons_append, closeReasons_append,
    hsent, hclosed]
  simp [closeReasons]

theorem called_reasons (f : WsFraming φ) (c : FramingCall φ) (s : Conn φ) :
    Reasons s (c.called f s) [] :=
  ⟨rfl, .inl ⟨rfl, rfl⟩, by simp [FramingCall.called, framingCalled, closeReasons]⟩

theorem put_reasons (f : WsFraming φ) (c : FramingCall φ) (offset : Nat) (s : Conn φ) :
    Reasons s (c.put offset (c.called f s)) [] :=
  ⟨rfl, .inl ⟨rfl, rfl⟩, (called_reasons f c s).reasons⟩

/-- A segment that was sent. -/
theorem taken_reasons (c : FramingCall φ) (op : WsOperation) (seg : Bytes) (rest : FramingCall φ)
    (offset : Nat) {w : World} (hw : OnlySends s.ws.wsFd (c.called f s).world w) :
    Reasons s (c.taken f op seg rest offset w s) [] := by
  refine ⟨rfl, .inl ⟨rfl, rfl⟩, ?_⟩
  rw [FramingCall.taken, FramingCall.put, World.record_log, closeReasons_append, hw.closeReasons,
    (called_reasons f c s).reasons]
  simp [closeReasons]

/-- **The framing loop ends with `Internal error`** only where a call overruns, and it does
where no send fails. -/
theorem wsFraming_reasons (fuel : Nat) (op : WsOperation) (bytesRead : Nat)
    (hf : s.ws.peer.framing = some f) {rv : Bool}
    (h : wsFraming env fuel op bytesRead s = some (rv, t)) :
    ∃ new, Reasons s t new ∧
      (some (ascii "Internal error") ∈ new →
        ∃ c, (s.framingCall op bytesRead).Leads f s.ws.peer.framingConfig c ∧
          c.Overruns f s.ws.peer.framingConfig) ∧
      (∀ y, s.world.sockAt s.ws.wsFd = some y → (∀ k, env.send y k ≠ none) →
        ∀ c, (s.framingCall op bytesRead).Leads f s.ws.peer.framingConfig c →
          c.Overruns f s.ws.peer.framingConfig → some (ascii "Internal error") ∈ new) := by
  induction fuel generalizing s op bytesRead with
  | zero => cases h
  | succ fuel ih =>
      obtain ⟨p, hpass, hp⟩ := wsFraming_passed env op bytesRead hf
      rw [hp] at h
      generalize s.framingCall op bytesRead = c at hpass ⊢
      -- a call that ends the loop: nothing follows it
      have hlast : c.next f s.ws.peer.framingConfig = none →
          ¬c.Overruns f s.ws.peer.framingConfig →
          ∀ d, c.Leads f s.ws.peer.framingConfig d → ¬d.Overruns f s.ws.peer.framingConfig :=
        fun hn hno => (Leads_of_last hn).mpr hno
      cases hpass with
      | overrun hover hn =>
          cases h
          refine ⟨_, (called_reasons f c s).trans ⟨rfl, rfl⟩ (wsClose_reasons env _ _ _), ?_, ?_⟩
          · exact fun _ => ⟨c, .refl, hover⟩
          · exact fun _ _ _ _ _ _ => by simp
      | unsent o seg rest again k hk w hw hs =>
          cases h
          refine ⟨[], ⟨rfl, .inl ⟨rfl, rfl⟩, ?_⟩, fun hm => (List.not_mem_nil hm).elim, fun y hy hsend => ?_⟩
          · rw [hw.closeReasons, (called_reasons f c s).reasons]
          · obtain ⟨ds, -, hok⟩ := wsForward_sends (s := c.called f s) hsend o seg hy
            rw [hok] at hs
            cases hs
      | last o seg rest k hk hn w hw =>
          cases h
          refine ⟨[], taken_reasons c o seg rest _ hw, fun hm => (List.not_mem_nil hm).elim,
            fun y hy hsend d hd hover => absurd hover (hlast hn ?_ d hd)⟩
          have h1 := hk.value
          have h2 := hk.length
          unfold FramingCall.Overruns
          omega
      | declined hz hd hn =>
          cases h
          refine ⟨[], put_reasons f c _ s, fun hm => (List.not_mem_nil hm).elim,
            fun y hy hsend d hd hover => absurd hover (hlast hn ?_ d hd)⟩
          unfold FramingCall.Overruns
          omega
      | again o seg rest k hk hn w hw hc =>
          obtain ⟨new, hnew, honly, hdoes⟩ := ih _ _ (by exact hf) h
          rw [hc] at honly hdoes
          refine ⟨new, (taken_reasons c o seg rest _ hw).trans ⟨rfl, rfl⟩ hnew, fun h => ?_,
            fun y hy hsend d hd hover => ?_⟩
          · obtain ⟨d, hd, hover⟩ := honly h
            exact ⟨d, .head hn hd, hover⟩
          · rcases ReflTransGen.cases_head hd with rfl | ⟨e, he, hed⟩
            · have h1 := hk.value
              have h2 := hk.length
              unfold FramingCall.Overruns at hover
              omega
            · obtain rfl := Option.some.inj (hn.symm.trans he)
              exact hdoes y ((hw.sockAt _).trans hy) hsend d hed hover
      | failed rest hz hl hn hc hr =>
          obtain ⟨new, hnew, honly, hdoes⟩ := ih _ _ (by exact hf) h
          rw [hc] at honly hdoes
          refine ⟨new, (called_reasons f c s).trans ⟨rfl, rfl⟩ hnew, fun h => ?_,
            fun y hy hsend d hd hover => ?_⟩
          · obtain ⟨d, hd, hover⟩ := honly h
            exact ⟨d, .head hn hd, hover⟩
          · rcases ReflTransGen.cases_head hd with rfl | ⟨e, he, hed⟩
            · unfold FramingCall.Overruns at hover
              omega
            · obtain rfl := Option.some.inj (hn.symm.trans he)
              exact hdoes y hy hsend d hed hover

theorem recv_reasons (conn : Nat) (fd : Option Nat) (len : Nat) (answer : Option Bytes) (w : World) :
    closeReasons conn (recv fd len answer w).2.log = closeReasons conn w.log := by
  unfold recv
  split
  · rfl
  · split <;> simp [closeReasons]

/-- **A call of `ws_peer_data` ends with `Internal error`** only where a call of the framing
function overruns, and it does where no send fails. -/
theorem wsPeerData_reasons (fuel : Nat) (answer : Option Bytes)
    (hf : s.ws.peer.framing = some f ∨ s.ws.peerFd = none) {rv : Bool}
    (h : wsPeerData env fuel answer s = some (rv, t)) :
    ∃ new, Reasons s t new ∧
      (some (ascii "Internal error") ∈ new →
        ∃ first, s.firstCall? answer = some first ∧
          ∃ c, first.Leads f s.ws.peer.framingConfig c ∧ c.Overruns f s.ws.peer.framingConfig) ∧
      (∀ y, s.world.sockAt s.ws.wsFd = some y → (∀ k, env.send y k ≠ none) →
        ∀ first, s.firstCall? answer = some first →
          ∀ c, first.Leads f s.ws.peer.framingConfig c → c.Overruns f s.ws.peer.framingConfig →
          some (ascii "Internal error") ∈ new) := by
  have hrecv := recv_reasons s.ws.conn s.ws.peerFd (peerBufferSize - s.ws.peerBufferOffset - 1) answer
    s.world
  have hfds : ∀ fd, (recv s.ws.peerFd (peerBufferSize - s.ws.peerBufferOffset - 1) answer
      s.world).2.sockAt fd = s.world.sockAt fd := by
    intro fd
    unfold recv
    split
    · rfl
    · split <;> rfl
  have hnone : s.ws.peerFd = none →
      (recv s.ws.peerFd (peerBufferSize - s.ws.peerBufferOffset - 1) answer s.world).1 = none := by
    intro hp
    rw [hp]
    rfl
  unfold wsPeerData at h
  unfold Conn.firstCall?
  dsimp only at h
  generalize recv s.ws.peerFd (peerBufferSize - s.ws.peerBufferOffset - 1) answer s.world = r
    at h hrecv hfds hnone ⊢
  have hclose : ∀ (code : WsCloseReason) (reason : Bytes),
      Reasons s (wsClose env code (some reason) ⟨s.ws, r.2⟩) [some reason] := fun code reason =>
    ⟨rfl, .inr rfl, by rw [← hrecv]; exact (wsClose_reasons env code (some reason) ⟨s.ws, r.2⟩).reasons⟩
  match hr : r.1 with
  | none =>
      rw [hr] at h
      cases h
      exact ⟨_, hclose _ _, fun hm => absurd hm (by decide), fun _ _ _ _ hfirst => nomatch hfirst⟩
  | some [] =>
      rw [hr] at h
      cases h
      exact ⟨_, hclose _ _, fun hm => absurd hm (by decide), fun _ _ _ _ hfirst => nomatch hfirst⟩
  | some (z :: zs) =>
      rw [hr] at h hnone
      have hframing := hf.resolve_right fun hp => nomatch hnone hp
      obtain ⟨new, hnew, honly, hdoes⟩ := wsFraming_reasons fuel .binary _ (by exact hframing) h
      refine ⟨new, ⟨hnew.conn, hnew.peer, by rw [← hrecv]; exact hnew.reasons⟩, ?_, ?_⟩
      · exact fun hm => ⟨_, rfl, honly hm⟩
      · rintro y hy hsend first hfirst c hc hover
        cases hfirst
        exact hdoes y ((hfds _).trans hy) hsend c hc hover

end

end Websocksy

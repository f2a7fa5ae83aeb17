import Websocksy.Delivery
import Websocksy.FailuresClosed
import Websocksy.Ownership

/-!
# A failed send ends the connection

In every run in which `ws_peer_data` can send its frames and no pong and no error response
is cut short, a failed send is the last to its socket, and the connection is closed when
its handler is done (`failed_sends_end`).
-/

namespace Websocksy

open Buffer CString Lines FdTable Machine

variable {φ : Type}

/-! ## Handlers -/

/-- From `w` to `w'` a send fails only if the socket is closed at the end, and nothing is
written to a socket that is closed at the start. -/
structure FailsClosed (w w' : World) : Prop where
  later : Later w w'
  log : ∃ es, w'.log = w.log ++ es ∧ NoResume es ∧ (∀ x d, .wrote x d ∈ es → ¬w.Gone x) ∧
    ∀ x, .sendFailed x ∈ es → w'.Gone x

/-- What holds of the log in every run. -/
structure FailuresInv (w : World) : Prop where
  resume : NoResume w.log
  gone : ∀ x, .sendFailed x ∈ w.log → w.Gone x

section

variable {env : Env φ} {s t : Conn φ} {w w' w'' : World}

theorem FailsClosed.refl (w : World) : FailsClosed w w :=
  ⟨.refl w, [], (List.append_nil _).symm, List.Pairwise.nil, by simp, by simp⟩

theorem FailsClosed.trans (h : FailsClosed w w') (h' : FailsClosed w' w'') : FailsClosed w w'' := by
  obtain ⟨es, he, hno, hwrote, hfail⟩ := h.log
  obtain ⟨fs, hf, hno', hwrote', hfail'⟩ := h'.log
  refine ⟨h.later.trans h'.later, es ++ fs, by rw [hf, he, List.append_assoc], ?_,
    fun x d hx hgone => ?_, fun x hx => ?_⟩
  · exact noResume_append.mpr ⟨hno, hno', fun x d hx hd => hwrote' x d hd (hfail x hx)⟩
  · rcases List.mem_append.mp hx with hx | hx
    · exact hwrote x d hx hgone
    · exact hwrote' x d hx (h.later.gone hgone)
  · rcases List.mem_append.mp hx with hx | hx
    · exact h'.later.gone (hfail x hx)
    · exact hfail' x hx

theorem FailsClosed.of_handler (hl : Later s.world t.world) (h : Local s t)
    (ht : FailsLast s.world.log t) : FailsClosed s.world t.world := by
  obtain ⟨es, he, hno, hfail⟩ := ht
  exact ⟨hl, es, he, hno, fun x d hx hgone => h.not_wrote he hgone d hx, fun x hx => (hfail x hx).2⟩

/-- Nothing is sent. -/
theorem FailsClosed.quiet (hl : Later w w') {es : List Event} (he : w'.log = w.log ++ es)
    (hes : ∀ e ∈ es, (∀ x, e ≠ .sendFailed x) ∧ ∀ x d, e ≠ .wrote x d) : FailsClosed w w' :=
  ⟨hl, es, he, noResume_of_unfailing fun x hx => (hes _ hx).1 x rfl,
    fun x d hx => absurd rfl ((hes _ hx).2 x d), fun x hx => absurd rfl ((hes _ hx).1 x)⟩

theorem FailuresInv.next (hi : FailuresInv w) (h : FailsClosed w w') : FailuresInv w' := by
  obtain ⟨es, he, hno, hwrote, hfail⟩ := h.log
  refine ⟨?_, fun x hx => ?_⟩
  · rw [he]
    exact noResume_append.mpr ⟨hi.resume, hno, fun x d hx hd => hwrote x d hd (hi.gone x hx)⟩
  · rw [he] at hx
    rcases List.mem_append.mp hx with hx | hx
    · exact h.later.gone (hi.gone x hx)
    · exact hfail x hx

theorem Recvd.later {fd : Option Nat} {len : Nat} {answer d : Option Bytes}
    (h : Recvd fd len answer w d w') : Later w w' := by
  cases h with
  | closed hx => exact .refl w
  | failed x hx ha => exact .record w _
  | data x b hx ha => exact .record w _

theorem wsData_later {answer : Option Bytes} (h : wsData env answer s = some t) :
    Later s.world t.world := by
  obtain ⟨d, w, hrecv, hacts⟩ := wsData_acts (A := Scope.all) trivial
    (fun _ data _ _ => wsScan_acts_all env data.length _) h
  exact hrecv.later.trans hacts.later

theorem wsPeerData_later {fuel fd : Nat} {answer : Option Bytes} {r : Bool × Conn φ}
    (hi : SlotInv env s.ws) (hfd : s.ws.peerFd = some fd)
    (h : wsPeerData env fuel answer s = some r) : Later s.world r.2.world := by
  obtain ⟨d, w, hrecv, hacts⟩ := wsPeerData_acts (A := Scope.peerSide) (hi.open_of_peer hfd)
    trivial (fun _ _ _ _ _ _ _ _ _ _ _ => trivial) hi.peerBuffer h
  exact hrecv.later.trans hacts.later

theorem wsKeepAlive_later (env : Env φ) (now : Int) (s : Conn φ) :
    Later s.world (wsKeepAlive env now s).world :=
  (wsKeepAlive_acts (A := Scope.peerSide) (s := s) env now fun _ => trivial).later

/-- `client_cleanup` closes every connection, and sends nothing to it any more. -/
theorem clientCleanup_failsClosed (env : Env φ) (sock : List (Websocket φ)) (w : World)
    (hn : Numbered w.fds w.socks) : FailsClosed w (clientCleanup env sock w) := by
  induction sock generalizing w with
  | nil => exact .refl w
  | cons ws sock ih =>
      have hclose : Deed env ⟨ws, w⟩ (wsClose env .shutdown (some (ascii "Shutting down")) ⟨ws, w⟩) :=
        wsClose_deed _ _ hn (fun h => by cases h) fun _ _ _ h => by cases h
      have hfirst := FailsClosed.of_handler hclose.acts.later hclose.acts.isLocal hclose.log
      exact hfirst.trans (ih _ (hfirst.later.numbered hn))

end

/-! ## Runs -/

/-- The slot that a step works on. -/
def Loc.slot : Loc → Option Nat
  | .client n | .peer n | .ping n => some n
  | .select | .done => none

/-- A send that fails in a step closes the connection that the step works on, and it was on a
socket of that connection; or the program ends with the step. -/
def FailureCloses (c c' : Core φ) : Prop :=
  ∀ x, .sendFailed x ∈ c'.world.log.drop c.world.log.length →
    (c'.loc = .done ∧ c'.sock = []) ∨
    ∃ n ws ws', c.loc.slot = some n ∧ c.sock[n]? = some ws ∧ Conn.Own ⟨ws, c.world⟩ x ∧
      c'.sock[n]? = some ws' ∧ ws'.conn = ws.conn ∧ ws'.state = .wsClosed ∧ ws'.wsFd = none ∧
      ws'.peerFd = none

/-- A socket to which a send failed is closed, and nothing was written to it since. -/
structure FailuresEnd (c : Core φ) : Prop where
  gone : ∀ x, .sendFailed x ∈ c.world.log → ∀ fd, c.world.sockAt (some fd) ≠ some x
  resume : NoResume c.world.log

section

variable {env : Env φ} {c c' : Core φ}

theorem failureCloses_quiet {es : List Event} (he : c'.world.log = c.world.log ++ es)
    (hes : ∀ x, .sendFailed x ∉ es) : FailureCloses c c' := by
  intro x hx
  rw [he, List.drop_left] at hx
  exact absurd hx (hes x)

/-- A handler's result put back into its slot. -/
theorem failureCloses_put {n : Nat} {ws : Websocket φ} {s t : Conn φ} {loc : Loc}
    (hslot : c.loc.slot = some n) (hn : c.sock[n]? = some ws) (hw : s.world = c.world)
    (hheld : s.ws.held = ws.held) (hconn : s.ws.conn = ws.conn) (hi : SlotInv env t.ws)
    (hlocal : Local s t) (ht : FailsLast c.world.log t) : FailureCloses c (c.put n t loc) := by
  intro x hx
  obtain ⟨es, he, hno, hfail⟩ := ht
  rw [put_world, he, List.drop_left] at hx
  obtain ⟨hclosed, -⟩ := hfail x hx
  have hlen : n < c.sock.length := (List.getElem?_eq_some_iff.mp hn).1
  have hown : s.Own x := by
    obtain ⟨fs, hf, hfs⟩ := hlocal.log
    rw [he, hw, List.append_cancel_left_eq] at hf
    exact hfs (.sendFailed x) (hf ▸ hx)
  have hput : (c.put n t loc).sock[n]? = some t.ws := by
    rw [put_sock, List.getElem?_set_self hlen]
  have hown' : Conn.Own ⟨ws, c.world⟩ x := by
    unfold Conn.Own at hown ⊢
    rwa [hheld, hw] at hown
  exact .inr ⟨n, ws, t.ws, hslot, hn, hown', hput, hlocal.conn.trans hconn, hclosed,
    (hi.closed hclosed).1, (hi.closed hclosed).2⟩

/-- **One step**: what fails in it is closed at its end. -/
theorem coreStep_failures {i : Input} (hi : RegistryInv env c.sock c.world)
    (hh : HeldInv c.sock c.world) (ho : SendsComplete env c i) (h : coreStep env i c = some c') :
    FailsClosed c.world c'.world ∧ FailureCloses c c' := by
  have hsound : ∀ {n : Nat} {ws : Websocket φ}, c.sock[n]? = some ws → Sound env ⟨ws, c.world⟩ := by
    intro n ws hn
    have hm := List.mem_of_getElem? hn
    refine ⟨(hi.slots ws hm).toStateInv, hh.numbered, hh.held.sublist ?_⟩
    obtain ⟨l₁, l₂, hs⟩ := List.append_of_mem hm
    rw [hs, List.flatMap_append, List.flatMap_cons]
    exact (List.sublist_append_left _ _).trans (List.sublist_append_right _ _)
  cases coreStep_cases h with
  | round ready now accepts hl hlisten =>
      exact ⟨.quiet (.record _ _) rfl (by simp), failureCloses_quiet rfl (by simp)⟩
  | accept ready now accepts hl hlisten =>
      obtain ⟨es, he, hes⟩ : ∃ es, (wsAccept now accepts (c.selected ready now)).world.log =
          c.world.log ++ es ∧ ∀ e ∈ es, (∀ x, e ≠ .sendFailed x) ∧ ∀ x d, e ≠ .wrote x d := by
        cases accepts <;> exact ⟨_, by rw [wsAccept_eq]; simp [World.accept, Core.selected, World.openSock]; rfl, by simp⟩
      refine ⟨.quiet ?_ he hes, failureCloses_quiet he fun x hx => (hes _ hx).1 x rfl⟩
      have hselected : Later c.world (c.selected ready now).world := .record _ _
      exact hselected.trans (.accept _ accepts)
  | quit hl =>
      refine ⟨?_, fun x hx => .inl ⟨rfl, rfl⟩⟩
      refine (clientCleanup_failsClosed env c.sock c.world hh.numbered).trans
        (.quiet (.closeFd _ _) (closeFd_log _ _) fun e he => ?_)
      obtain ⟨x, -, rfl⟩ := List.mem_map.mp he
      simp
  | idle answer fuel l hl hl' =>
      exact ⟨.refl _, failureCloses_quiet (List.append_nil _).symm (by simp)⟩
  | client answer fuel n fd ws t hl hn hfd hr ht =>
      have hslot := hi.slots ws (List.mem_of_getElem? hn)
      have hwhole : AnswersWhole env answer ⟨{ ws with lastEvent := c.now }, c.world⟩ := by
        simp only [SendsComplete, hl] at ho
        exact ho ws hn (by simp [hfd, hr])
      have hs : Sound env ⟨{ ws with lastEvent := c.now }, c.world⟩ := by
        have htouch : Acts env Scope.all ⟨ws, c.world⟩ ⟨{ ws with lastEvent := c.now }, c.world⟩ :=
          .single (.bare _ rfl trivial)
        exact htouch.sound (hsound hn)
      have hfails := wsData_failsLast hs hwhole ht
      obtain ⟨hinv, -, hlocal⟩ := wsData_slotInv
        (s := ⟨{ ws with lastEvent := c.now }, c.world⟩) { hslot with } ht
      exact ⟨.of_handler (wsData_later ht) hlocal hfails,
        failureCloses_put (by rw [hl]; rfl) hn rfl rfl rfl hinv hlocal hfails⟩
  | peer answer fuel n fd ws r hl hn hfd hr ht =>
      have hslot := hi.slots ws (List.mem_of_getElem? hn)
      have hwhole : ForwardsWhole env fuel answer ⟨ws, c.world⟩ := by
        simp only [SendsComplete, hl] at ho
        exact ho ws hn (by simp [hfd, hr])
      obtain ⟨-, hfails⟩ := wsPeerData_failsLast (s := ⟨ws, c.world⟩) hh.numbered hwhole ht
      obtain ⟨hinv, -, hlocal⟩ := wsPeerData_slotInv (s := ⟨ws, c.world⟩) hslot hfd ht
      exact ⟨.of_handler (wsPeerData_later (s := ⟨ws, c.world⟩) hslot hfd ht) hlocal hfails,
        failureCloses_put (by rw [hl]; rfl) hn rfl rfl rfl hinv hlocal hfails⟩
  | ping answer fuel n ws hl hn =>
      have hslot := hi.slots ws (List.mem_of_getElem? hn)
      have hfails := wsKeepAlive_failsLast env c.now (s := ⟨ws, c.world⟩) hh.numbered
      obtain ⟨hinv, -, hlocal⟩ := wsKeepAlive_slotInv (s := ⟨ws, c.world⟩) c.now hslot
      exact ⟨.of_handler (wsKeepAlive_later env c.now ⟨ws, c.world⟩) hlocal hfails,
        failureCloses_put (by rw [hl]; rfl) hn rfl rfl rfl hinv hlocal hfails⟩

/-- **A failed send ends the connection**, in every run in which no send fails while a frame is
forwarded to the client, while a pong is sent, or in an error response before its last part. -/
theorem failed_sends_end (env : Env φ) (c : Core φ) (h : (coreLoop env).Reach (SendsComplete env) c) :
    FailuresEnd c ∧
    ∀ i c', SendsComplete env c i → coreStep env i c = some c' → FailureCloses c c' := by
  refine ⟨?_, fun i c' ho hs =>
    (coreStep_failures (coreLoop_registryInv h) (coreLoop_heldInv h) ho hs).2⟩
  have hinv : FailuresInv c.world := by
    refine h.invariant (P := fun c => FailuresInv c.world) (fun c hc => ?_) fun c i c' hr hi ho hs =>
      hi.next (coreStep_failures (coreLoop_registryInv hr) (coreLoop_heldInv hr) ho hs).1
    obtain ⟨-, -, hlog, -⟩ := hc
    refine ⟨by rw [hlog]; exact List.Pairwise.nil, fun x hx => ?_⟩
    rw [hlog] at hx
    cases hx
  exact ⟨fun x hx => (hinv.gone x hx).2, hinv.resume⟩

end

/-- The sample outside, but the send with the number `n` fails. -/
def sampleLate (n : Nat) : Env Unit := { sampleEnv with send := fun _ k => if k = n then none else some 1000 }

/-- The rounds in which a connection is opened. -/
def sampleOpened : List Input :=
  sampleBytes (lineBytes sampleLines) ++ [.serve none 0, .serve none 0, .serve none 0]

/-- A ping is due, and cannot be sent. -/
def sampleUnpinged : List Input :=
  sampleOpened ++ [.select [] 100 false, .serve none 0, .serve none 0, .serve none 0]

theorem sampleUnpinged_runs : ((coreLoop (sampleLate 6)).exec sampleUnpinged sampleCore).isSome := by
  decide +kernel

theorem failed_sends_end_sample :
    let c := ((coreLoop (sampleLate 6)).exec sampleUnpinged sampleCore).get sampleUnpinged_runs
    .sendFailed 4 ∈ c.world.log ∧ c.sock.map (·.state) = [.wsClosed] ∧ FailuresEnd c :=
  ⟨by decide +kernel, by decide +kernel, (failed_sends_end (sampleLate 6) _
    (.exec (.init sampleCore_init) sampleUnpinged (by decide +kernel)
      (Option.some_get sampleUnpinged_runs).symm)).1⟩

/-- The peer sends twice, and the first frame cannot be sent. -/
def sampleUnsent : List Input :=
  sampleOpened ++ [.select [5] 2 false, .serve none 0, .serve (some (ascii "ab")) 5,
    .select [5] 2 false, .serve none 0, .serve (some (ascii "cd")) 5]

/-- The client sends a ping. -/
def samplePinged : List Input :=
  sampleOpened ++ [.select [4] 2 false, .serve (some sampleFrames.2.1.encode) 0]

/-- A frame that cannot be forwarded is followed by the next one; a pong that cannot be sent is
followed by a close frame; and an error response goes on after its first part. -/
theorem failed_sends_end_fails :
    (¬∀ c, (coreLoop (sampleLate 6)).Reach (fun _ _ => True) c → FailuresEnd c) ∧
    (∃ c, (coreLoop (sampleLate 6)).exec sampleUnsent sampleCore = some c ∧ ¬NoResume c.world.log) ∧
    (∃ c, (coreLoop (sampleLate 6)).exec samplePinged sampleCore = some c ∧ ¬NoResume c.world.log) ∧
    ∃ c, (coreLoop (sampleLate 0)).exec sampleFolded sampleCore = some c ∧ ¬NoResume c.world.log := by
  have hresumes : ∀ r ∈ [(6, sampleUnsent), (6, samplePinged), (0, sampleFolded)],
      ((coreLoop (sampleLate r.1)).exec r.2 sampleCore).any fun c => !decide (NoResume c.world.log) := by
    decide +kernel
  have hrun : ∀ r ∈ [(6, sampleUnsent), (6, samplePinged), (0, sampleFolded)],
      ∃ c, (coreLoop (sampleLate r.1)).exec r.2 sampleCore = some c ∧ ¬NoResume c.world.log := by
    intro r hr
    have hany := hresumes r hr
    rw [Option.any_eq_true] at hany
    obtain ⟨c, hc, hno⟩ := hany
    exact ⟨c, hc, by simpa using hno⟩
  have hunsent := hrun _ List.mem_cons_self
  refine ⟨fun h => ?_, hunsent, hrun (6, samplePinged) (by simp), hrun (0, sampleFolded) (by simp)⟩
  obtain ⟨c, hc, hno⟩ := hunsent
  have hreach : (coreLoop (sampleLate 6)).Reach (fun _ _ => True) c :=
    .exec (.init sampleCore_init) sampleUnsent (Machine.meets_true _ _) hc
  exact hno (h c hreach).resume

end Websocksy

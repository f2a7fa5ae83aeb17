import Websocksy.Attribution

/-!
# Invariants of single connections

A step of the core loop serves one connection at most and stands aside of all others.  `ConnRule`
says what is to be shown for an invariant of single connections, those in a slot and those whose
slot was used again: that a new connection has it, that its own handlers keep it, and that it does
not depend on what happens to others (`ConnRule.reach`).
-/

namespace Websocksy

open Buffer CString FdTable

variable {φ : Type}

/-! ## The connection that a step serves -/

/-- The handlers that a step calls for the connection `ws` in the slot `n`, and what they leave. -/
inductive Served (env : Env φ) (c : Core φ) (i : Input) (n : Nat) (ws : Websocket φ) :
    Conn φ → Prop
  | data (answer : Option Bytes) (fuel fd : Nat) (t : Conn φ) (hi : i = .serve answer fuel)
      (hl : c.loc = .client n) (hfd : ws.wsFd = some fd) (hr : fd ∈ c.readFds)
      (h : wsData env answer ⟨{ ws with lastEvent := c.now }, c.world⟩ = some t) :
      Served env c i n ws t
  | peer (answer : Option Bytes) (fuel fd : Nat) (r : Bool × Conn φ) (hi : i = .serve answer fuel)
      (hl : c.loc = .peer n) (hfd : ws.peerFd = some fd) (hr : fd ∈ c.readFds)
      (h : wsPeerData env fuel answer ⟨ws, c.world⟩ = some r) : Served env c i n ws r.2
  | ping (answer : Option Bytes) (fuel : Nat) (hi : i = .serve answer fuel) (hl : c.loc = .ping n) :
      Served env c i n ws (wsKeepAlive env c.now ⟨ws, c.world⟩)

/-- A step serves no connection, or the one in slot `n`, or it is the last. -/
inductive StepServes (env : Env φ) (c : Core φ) (i : Input) : Core φ → Prop
  | none (ready : List Nat) (now : Int) (l : Loc) :
      StepServes env c i { c.selected ready now with loc := l }
  | idle (l : Loc) : StepServes env c i { c with loc := l }
  | accept (ready : List Nat) (now : Int) (accepts : Bool) :
      StepServes env c i (wsAccept now accepts (c.selected ready now))
  | serve (n : Nat) (ws : Websocket φ) (t : Conn φ) (l : Loc) (hn : c.sock[n]? = some ws)
      (h : Served env c i n ws t) : StepServes env c i (c.put n t l)
  | quit (hi : i = .quit) : StepServes env c i { c with
      sock := [], world := (clientCleanup env c.sock c.world).closeFd (some c.listenFd), loc := .done }

section

variable {env : Env φ} {c c' : Core φ} {i : Input}

theorem coreStep_serves (h : coreStep env i c = some c') : StepServes env c i c' := by
  cases coreStep_cases h with
  | round ready now accepts hloc hlisten => exact .none ready now _
  | accept ready now accepts hloc hlisten => exact .accept ready now accepts
  | quit hloc => exact .quit rfl
  | idle answer fuel l hloc hl' => exact .idle l
  | client answer fuel n fd ws t hloc hn hfd hready ht =>
      exact .serve n ws t _ hn (.data answer fuel fd t rfl hloc hfd hready ht)
  | peer answer fuel n fd ws r hloc hn hfd hready hr =>
      exact .serve n ws r.2 _ hn (.peer answer fuel fd r rfl hloc hfd hready hr)
  | ping answer fuel n ws hloc hn =>
      exact .serve n ws _ _ hn (.ping answer fuel rfl hloc)

/-- What serves a connection is a sequence of acts behind a `recv`. -/
theorem Served.acts {n : Nat} {ws : Websocket φ} {t : Conn φ} (hslot : SlotInv env ws)
    (h : Served env c i n ws t) :
    ∃ ready w, Received ready ⟨ws, c.world⟩ w ∧ Acts env Scope.all ⟨ws, w⟩ t := by
  cases h with
  | data answer fuel fd t hi hl hfd hr h =>
      obtain ⟨d, w, hrecv, hacts⟩ := wsData_acts (A := Scope.all) trivial
        (fun _ data _ _ => wsScan_acts_all env data.length _) h
      have htouch : Acts env Scope.all ⟨ws, w⟩ ⟨{ ws with lastEvent := c.now }, w⟩ :=
        .single (.bare _ rfl trivial)
      have hheld : fd ∈ ws.held := by simp [Websocket.held, hfd]
      have hfd' : (Conn.mk { ws with lastEvent := c.now } c.world).ws.wsFd = some fd := hfd
      rw [hfd'] at hrecv
      exact ⟨c.readFds, w, Recvd.received (s := ⟨ws, c.world⟩) hheld hr hrecv, htouch.trans hacts⟩
  | peer answer fuel fd r hi hl hfd hr h =>
      obtain ⟨d, w, hrecv, hacts⟩ := wsPeerData_acts (A := Scope.all) (s := ⟨ws, c.world⟩)
        (hslot.open_of_peer hfd) trivial (fun _ _ _ _ _ _ _ _ _ _ _ => trivial) hslot.peerBuffer h
      have hheld : fd ∈ ws.held := by simp [Websocket.held, hfd]
      have hfd' : (Conn.mk ws c.world).ws.peerFd = some fd := hfd
      rw [hfd'] at hrecv
      exact ⟨c.readFds, w, Recvd.received (s := ⟨ws, c.world⟩) hheld hr hrecv, hacts⟩
  | ping answer fuel hi hl =>
      exact ⟨[], c.world, .quiet, wsKeepAlive_acts env c.now fun _ => trivial⟩

theorem Served.isLocal {n : Nat} {ws : Websocket φ} {t : Conn φ} (hslot : SlotInv env ws)
    (h : Served env c i n ws t) : Local ⟨ws, c.world⟩ t := by
  obtain ⟨ready, w, hw, ht⟩ := h.acts hslot
  exact hw.isLocal.trans ht.isLocal

end

/-- A new connection takes the place of one without a client, or comes behind the others. -/
theorem clientRegister_split (ws : Websocket φ) (sock : List (Websocket φ)) :
    ∃ l₁ old l₂, sock = l₁ ++ (Option.toList old ++ l₂) ∧ (∀ v ∈ old, v.wsFd = none) ∧
      clientRegister ws sock = l₁ ++ ws :: l₂ := by
  rcases clientRegister_cases ws sock with ⟨n, old, hn, hold, he⟩ | he
  · obtain ⟨hlen, rfl⟩ := List.getElem?_eq_some_iff.mp hn
    refine ⟨sock.take n, some sock[n], sock.drop (n + 1), ?_, ?_, ?_⟩
    · rw [Option.toList_some, List.singleton_append, ← List.drop_eq_getElem_cons hlen,
        List.take_append_drop]
    · intro v hv
      rw [← Option.mem_some.mp hv]
      exact hold
    · rw [he, List.set_eq_take_append_cons_drop, if_pos hlen]
  · exact ⟨sock, none, [], by simp, by simp, he⟩

/-! ## The rule -/

/-- `P` is what is to hold of a connection in a slot, `Q` of one that is in no slot any more. -/
structure ConnRule (env : Env φ) (ok : Core φ → Input → Prop) (P : Websocket φ → World → Prop)
    (Q : Nat → World → Prop) : Prop where
  init : ∀ conn w, w.log = [] → Q conn w
  accept : ∀ (w : World) now accepts, (∀ e ∈ w.log, e.Known w.conns w.socks) →
    P (acceptedConn now accepts w) (w.accept accepts)
  aside : ∀ ws w w', P ws w → Aside ws.conn w w' →
    (∀ fd ∈ ws.held, w'.sockAt (some fd) = w.sockAt (some fd)) → P ws w'
  ended : ∀ ws w, P ws w → ws.wsFd = none → Q ws.conn w
  gone : ∀ conn w w', Q conn w → Aside conn w w' → Q conn w'
  serve : ∀ c i n ws t, ok c i → RegistryInv env c.sock c.world → GivenInv c.sock c.world →
    c.sock[n]? = some ws → Served env c i n ws t → P ws c.world → P t.ws t.world
  close : ∀ sock ws w, Sound env ⟨ws, w⟩ → GivenInv sock w → ws ∈ sock → P ws w →
    P (wsClose env .shutdown (some (ascii "Shutting down")) ⟨ws, w⟩).ws
      (wsClose env .shutdown (some (ascii "Shutting down")) ⟨ws, w⟩).world

/-- All connections there ever were. -/
structure EachConn (P : Websocket φ → World → Prop) (Q : Nat → World → Prop)
    (sock : List (Websocket φ)) (w : World) : Prop where
  slots : ∀ ws ∈ sock, P ws w
  past : ∀ conn < w.conns, (∀ ws ∈ sock, ws.conn ≠ conn) → Q conn w

section

variable {env : Env φ} {ok : Core φ → Input → Prop} {P : Websocket φ → World → Prop}
  {Q : Nat → World → Prop} {sock l₁ l₂ : List (Websocket φ)} {ws : Websocket φ} {w w' : World}
  {t : Conn φ}

/-- Nothing happens to any connection. -/
theorem EachConn.quiet (hr : ConnRule env ok P Q) (h : EachConn P Q sock w)
    (ha : ∀ conn, Aside conn w w') (hs : ∀ fd, w'.sockAt fd = w.sockAt fd)
    (hc : w'.conns = w.conns) : EachConn P Q sock w' := by
  constructor
  · intro ws hm
    exact hr.aside ws w w' (h.slots ws hm) (ha ws.conn) fun fd _ => hs _
  · intro conn hlt hno
    exact hr.gone conn w w' (h.past conn (hc ▸ hlt) hno) (ha conn)

/-- The connection in one slot is served. -/
theorem EachConn.serve (hr : ConnRule env ok P Q) (hi : GivenInv (l₁ ++ ws :: l₂) w)
    (hd : ((l₁ ++ ws :: l₂).map (·.conn)).Nodup) (hl : Local ⟨ws, w⟩ t)
    (h : EachConn P Q (l₁ ++ ws :: l₂) w) (ht : P t.ws t.world) :
    EachConn P Q (l₁ ++ t.ws :: l₂) t.world := by
  have hself : ws ∈ l₁ ++ ws :: l₂ := List.mem_append_right _ List.mem_cons_self
  have hconn : t.ws.conn = ws.conn := hl.conn
  constructor
  · intro v hv
    rcases mem_slots hv with rfl | hv
    · exact ht
    · have hne : v.conn ≠ ws.conn := by
        intro he
        rw [List.map_append, List.map_cons, List.nodup_middle, List.nodup_cons,
          ← List.map_append] at hd
        exact hd.1 (he ▸ List.mem_map_of_mem hv)
      refine hr.aside v w t.world (h.slots v (mem_slots_of hv)) (hi.aside hl hne) ?_
      intro fd hfd
      exact hl.sockAt_other hi.toHeldInv.front
        (fun gd hg => List.mem_flatMap.mpr ⟨v, hv, hg⟩) hfd
  · intro conn hlt hno
    have hne : conn ≠ ws.conn := by
      intro he
      exact hno t.ws (List.mem_append_right _ List.mem_cons_self) (hconn.trans he.symm)
    refine hr.gone conn w t.world (h.past conn ?_ ?_) (hi.aside hl hne)
    · rw [← show t.world.conns = w.conns from hl.conns]
      exact hlt
    · intro v hv
      rcases mem_slots hv with rfl | hv
      · exact hne.symm
      · exact hno v (mem_slots_of hv)

/-- A client is accepted. -/
theorem EachConn.accept {old : Option (Websocket φ)} (hr : ConnRule env ok P Q)
    (hi : GivenInv (l₁ ++ (old.toList ++ l₂)) w) (hold : ∀ v ∈ old, v.wsFd = none)
    (hlt : ∀ v ∈ l₁ ++ (old.toList ++ l₂), v.conn < w.conns)
    (h : EachConn P Q (l₁ ++ (old.toList ++ l₂)) w) (now : Int) (accepts : Bool) :
    EachConn P Q (l₁ ++ acceptedConn now accepts w :: l₂) (w.accept accepts) := by
  constructor
  · intro v hv
    rcases mem_accepted old hv with rfl | hv
    · exact hr.accept w now accepts hi.known
    · refine hr.aside v w _ (h.slots v hv) (.accept (hlt v hv) accepts) ?_
      intro fd hfd
      obtain ⟨x, hx⟩ := hi.toHeldInv.is_open hv hfd
      rw [accept_sockAt accepts hx, hx]
  · intro conn hc hno
    have hconns : (w.accept accepts).conns = w.conns + 1 := by cases accepts <;> rfl
    have hne : w.conns ≠ conn := hno _ (List.mem_append_right _ List.mem_cons_self)
    have hlt : conn < w.conns := by omega
    refine hr.gone conn w _ ?_ (.accept hlt accepts)
    by_cases he : ∃ v ∈ old, v.conn = conn
    · obtain ⟨v, hv, rfl⟩ := he
      have hm : v ∈ l₁ ++ (old.toList ++ l₂) :=
        List.mem_append_right _ (List.mem_append_left _ (Option.mem_toList.mpr hv))
      exact hr.ended v w (h.slots v hm) (hold v hv)
    · refine h.past conn hlt ?_
      intro v hv
      rcases List.mem_append.mp hv with hv | hv
      · exact hno v (List.mem_append_left _ hv)
      · rcases List.mem_append.mp hv with hv | hv
        · exact fun hc => he ⟨v, Option.mem_toList.mp hv, hc⟩
        · exact hno v (List.mem_append_right _ (List.mem_cons_of_mem _ hv))

/-- `client_cleanup` closes the connections in turn. -/
theorem EachConn.cleanup (hr : ConnRule env ok P Q) (l₂ : List (Websocket φ)) :
    ∀ (l₁ : List (Websocket φ)) (w : World), RegistryInv env (l₁ ++ l₂) w → GivenInv (l₁ ++ l₂) w →
      EachConn P Q (l₁ ++ l₂) w → (∀ v ∈ l₁, v.wsFd = none) →
      ∃ sock, EachConn P Q sock (clientCleanup env l₂ w) ∧ ∀ v ∈ sock, v.wsFd = none := by
  induction l₂ with
  | nil =>
      intro l₁ w _ _ h hc
      rw [List.append_nil] at h
      exact ⟨l₁, h, hc⟩
  | cons ws l₂ ih =>
      intro l₁ w hreg hi h hc
      have hs := hreg.sound hi.toHeldInv
      have hclose : Acts env Scope.all ⟨ws, w⟩
          (wsClose env .shutdown (some (ascii "Shutting down")) ⟨ws, w⟩) :=
        .single (.close _ _ fun h => by cases h)
      have hreg' := hreg.close .shutdown (some (ascii "Shutting down"))
      have hi' := (givenRule env).serve l₁ l₂ ws w [] w _ hreg hi .quiet hclose
      have h' := h.serve hr hi hreg.distinct hclose.isLocal
        (hr.close _ ws w hs hi (List.mem_append_right _ List.mem_cons_self)
          (h.slots ws (List.mem_append_right _ List.mem_cons_self)))
      rw [List.append_cons] at hreg' hi' h'
      refine ih _ _ hreg' hi' h' ?_
      intro v hv
      rcases List.mem_append.mp hv with hv | hv
      · exact hc v hv
      · rw [List.mem_singleton.mp hv]
        rfl

/-- **One step** keeps the invariant of each connection. -/
theorem ConnRule.next (hr : ConnRule env ok P Q) {c c' : Core φ} {i : Input}
    (hreg : RegistryInv env c.sock c.world) (hi : GivenInv c.sock c.world) (ho : ok c i)
    (hP : EachConn P Q c.sock c.world) (h : coreStep env i c = some c') :
    EachConn P Q c'.sock c'.world := by
  have hselected : ∀ ready now, EachConn P Q c.sock (c.selected ready now).world := by
    intro ready now
    refine hP.quiet hr ?_ (fun _ => rfl) rfl
    intro conn
    exact .of_log (World.record_log _ _) (by simp)
  cases coreStep_serves h with
  | none ready now l => exact hselected ready now
  | idle l => exact hP
  | accept ready now accepts =>
      rw [wsAccept_eq]
      have hi' := (givenRule env).selected c.sock c.world
        ((c.ready ready).filterMap fun fd => c.world.sockAt (some fd)) hi
      have hsel := hselected ready now
      have hnum : ∀ v ∈ c.sock, v.conn < (c.selected ready now).world.conns := hreg.numbers
      obtain ⟨l₁, old, l₂, hsock, hold, he⟩ := clientRegister_split
        (acceptedConn now accepts (c.selected ready now).world) c.sock
      have hgoal : EachConn P Q
          (clientRegister (acceptedConn now accepts (c.selected ready now).world) c.sock)
          ((c.selected ready now).world.accept accepts) := by
        rw [he]
        rw [hsock] at hsel hi' hnum
        exact hsel.accept hr hi' hold hnum now accepts
      exact hgoal
  | serve n ws t l hn hserved =>
      have hslot := hreg.slots ws (List.mem_of_getElem? hn)
      have ht := hr.serve c i n ws t ho hreg hi hn hserved (hP.slots ws (List.mem_of_getElem? hn))
      obtain ⟨l₁, l₂, hs, hput⟩ := put_split hn t l
      rw [hput]
      have hd := hreg.distinct
      rw [hs] at hP hi hd
      exact hP.serve hr hi hd (hserved.isLocal hslot) ht
  | quit hq =>
      obtain ⟨sock, hsock, hc⟩ := hP.cleanup hr c.sock [] c.world hreg hi (by simp)
      have hclosed : ∀ conn, Aside conn (clientCleanup env c.sock c.world)
          ((clientCleanup env c.sock c.world).closeFd (some c.listenFd)) := by
        intro conn
        refine .of_log (closeFd_log _ _) ?_
        intro e hm
        obtain ⟨x, -, rfl⟩ := List.mem_map.mp hm
        exact .inr ⟨x, rfl⟩
      refine ⟨by simp, ?_⟩
      intro conn hlt _
      refine hr.gone conn _ _ ?_ (hclosed conn)
      have hlt : conn < (clientCleanup env c.sock c.world).conns := by
        rwa [closeFd_conns] at hlt
      by_cases he : ∃ v ∈ sock, v.conn = conn
      · obtain ⟨v, hv, rfl⟩ := he
        exact hr.ended v _ (hsock.slots v hv) (hc v hv)
      · exact hsock.past conn hlt fun v hv hvc => he ⟨v, hv, hvc⟩

/-- **The rule**: an invariant of single connections holds of all of them in every run that meets
the condition. -/
theorem ConnRule.reach (hr : ConnRule env ok P Q) {c : Core φ} (h : (coreLoop env).Reach ok c) :
    EachConn P Q c.sock c.world := by
  refine h.invariant (P := fun c => EachConn P Q c.sock c.world) ?_ ?_
  · intro c hc
    obtain ⟨hsock, -, hlog, -⟩ := hc
    rw [hsock]
    exact ⟨by simp, fun conn _ _ => hr.init conn c.world hlog⟩
  · intro c i c' hreach hP ho hs
    exact hr.next (coreLoop_registryInv hreach) (coreLoop_givenInv hreach) ho hP hs

end

end Websocksy

import Websocksy.Conservation

/-!
# Invariants of the core loop

A run in which only the last line of a read ends the HTTP phase (`LinesInOrder`) is
a run of acts within a narrow scope.  `CoreRule` says what is to be shown for an
invariant of such runs: that it holds at the start and is kept by `select`, by
`accept`, by what a handler does to the connection in one slot, and by the end of
the program (`CoreRule.reach`).
-/

namespace Websocksy

open Buffer CString Lines Relation

variable {φ : Type}

/-! ## Conditions on a step -/

/-- The connection whose `ws_data` a step calls, and what its `recv` gives. -/
def Core.dataCall (c : Core φ) (i : Input) : Option (Websocket φ × Bytes) :=
  match c.loc, i with
  | .client n, .serve (some b) _ =>
    (c.sock[n]?).bind fun ws =>
      if ws.wsFd.any (· ∈ c.readFds) then some (ws, b.take (wsMaxLine - ws.readBufferOffset - 1))
      else none
  | _, _ => none

/-- In the HTTP phase, no line follows one that ends it in the same read, and in that one no CRLF
was parted between two reads. -/
def LinesInOrder (c : Core φ) (i : Input) : Prop :=
  ∀ p ∈ c.dataCall i, InHttp p.1 → EndsLast p.1 (recvLines p.1 p.2)

instance (c : Core φ) (i : Input) : Decidable (LinesInOrder c i) :=
  match h : c.dataCall i with
  | none => isTrue (by simp [LinesInOrder, h])
  | some p =>
    decidable_of_iff (InHttp p.1 → EndsLast p.1 (recvLines p.1 p.2)) (by simp [LinesInOrder, h])

/-- The connection that a step sends a keep-alive ping. -/
def Core.pingCall (env : Env φ) (c : Core φ) (i : Input) : Option (Websocket φ) :=
  match c.loc, i with
  | .ping n, .serve _ _ =>
    (c.sock[n]?).filter fun ws =>
      env.pingInterval ≠ 0 ∧ env.pingInterval < c.now - ws.lastEvent
  | _, _ => none

/-- The scope has room for the HTTP phase and for binary frames. -/
structure Scope.Handles (A : Scope) : Prop where
  reads : A.reads
  new : A.line .wsNew
  http : A.line .wsHttp
  upgrade : A.upgrade .wsHttp
  binary : A.opcode .binary

/-! ## What a step comes to -/

/-- What a handler's `recv` does to the outside: nothing, or one entry in the log about a
socket that the connection holds at a descriptor which is ready. -/
inductive Received (ready : List Nat) (s : Conn φ) : World → Prop
  | quiet : Received ready s s.world
  | event (fd x : Nat) (e : Event) (hfd : fd ∈ s.ws.held) (hr : fd ∈ ready)
      (hx : s.world.sockAt (some fd) = some x)
      (he : e = .recvFailed x ∨ ∃ d, e = .received x d) : Received ready s (s.world.record e)

inductive CoreNext (env : Env φ) (A : Scope) (c : Core φ) : Core φ → Prop
  | round (ready : List Nat) (now : Int) : CoreNext env A c (c.selected ready now)
  | accept (ready : List Nat) (now : Int) (accepts : Bool) :
      CoreNext env A c (wsAccept now accepts (c.selected ready now))
  | quit : CoreNext env A c { c with
      sock := [], world := (clientCleanup env c.sock c.world).closeFd (some c.listenFd), loc := .done }
  | idle (l : Loc) : CoreNext env A c { c with loc := l }
  | handler (l₁ l₂ : List (Websocket φ)) (ws : Websocket φ) (w : World) (t : Conn φ) (l : Loc)
      (hs : c.sock = l₁ ++ ws :: l₂) (hw : Received c.readFds ⟨ws, c.world⟩ w)
      (h : Acts env A ⟨ws, w⟩ t) :
      CoreNext env A c { c with sock := l₁ ++ t.ws :: l₂, world := t.world, loc := l }

section

variable {env : Env φ} {A : Scope} {s t : Conn φ} {c c' : Core φ}

theorem Recvd.received {fd len : Nat} {answer d : Option Bytes} {w : World} {ready : List Nat}
    (hfd : fd ∈ s.ws.held) (hr : fd ∈ ready) (h : Recvd (some fd) len answer s.world d w) :
    Received ready s w := by
  cases h with
  | closed _ => exact .quiet
  | failed x hx _ => exact .event fd x _ hfd hr hx (.inl rfl)
  | data x b hx _ => exact .event fd x _ hfd hr hx (.inr ⟨_, rfl⟩)

theorem Received.isLocal {ready : List Nat} {w : World} (h : Received ready s w) :
    Local s ⟨s.ws, w⟩ := by
  cases h with
  | quiet => exact .refl s
  | event fd x e hfd hr hx he =>
      have hown : s.Own x := .inl ⟨fd, hfd, hx⟩
      refine .record ?_
      rcases he with rfl | ⟨d, rfl⟩ <;> exact hown

/-- `ws_data` when no line follows one that ends the HTTP phase. -/
theorem wsData_acts_inOrder (hA : A.Handles) {answer : Option Bytes}
    (he : ∀ data, answer.map (·.take (wsMaxLine - s.ws.readBufferOffset - 1)) = some data →
      InHttp s.ws → EndsLast s.ws (recvLines s.ws data))
    (h : wsData env answer s = some t) :
    ∃ d w, Recvd s.ws.wsFd (wsMaxLine - s.ws.readBufferOffset - 1) answer s.world d w ∧
      Acts env A ⟨s.ws, w⟩ t := by
  refine wsData_acts hA.reads (fun x data hd hs => ?_) h
  refine wsScan_acts_endsLast hA.reads hA.new hA.http hA.upgrade hs ?_
  dsimp only
  rw [show (s.ws.filled data).readBufferOffset = s.ws.readBufferOffset from rfl,
    (slice_filled s.ws data).2, recvLines_filled]
  refine (EndsLast_bare ?_ _).mpr (he data hd hs)
  rfl

/-- Slot `n` of the registry: the slots before it and after it. -/
theorem put_split {n : Nat} {ws : Websocket φ} (hn : c.sock[n]? = some ws) (s : Conn φ) (l : Loc) :
    ∃ l₁ l₂, c.sock = l₁ ++ ws :: l₂ ∧
      c.put n s l = { c with sock := l₁ ++ s.ws :: l₂, world := s.world, loc := l } := by
  obtain ⟨hlen, rfl⟩ := List.getElem?_eq_some_iff.mp hn
  refine ⟨c.sock.take n, c.sock.drop (n + 1), ?_, ?_⟩
  · rw [← List.drop_eq_getElem_cons hlen, List.take_append_drop]
  · unfold Core.put
    rw [List.set_eq_take_append_cons_drop, if_pos hlen]

/-- **A step of the core loop** is a step of a list of slots, if a call of `ws_data` is a
sequence of acts. -/
theorem coreStep_next_of {i : Input} (hr : A.reads) (hb : A.opcode .binary)
    (hf : ∀ f, env.Offers f → A.Allows f) (hi : RegistryInv env c.sock c.world)
    (hdata : ∀ answer fuel n fd ws, i = .serve answer fuel → c.loc = .client n →
      c.sock[n]? = some ws → ws.wsFd = some fd → fd ∈ c.readFds →
      ∀ t, wsData env answer ⟨{ ws with lastEvent := c.now }, c.world⟩ = some t →
        ∃ d w, Recvd ws.wsFd (wsMaxLine - ws.readBufferOffset - 1) answer c.world d w ∧
          Acts env A ⟨{ ws with lastEvent := c.now }, w⟩ t)
    (hp : ∀ ws ∈ c.pingCall env i, A.frame ws.state) (h : coreStep env i c = some c') :
    CoreNext env A c c' := by
  cases coreStep_cases h with
  | round ready now accepts hloc hlisten => exact .round ready now
  | accept ready now accepts hloc hlisten => exact .accept ready now accepts
  | quit hloc => exact .quit
  | idle answer fuel l hloc hl' => exact .idle l
  | client answer fuel n fd ws t hloc hn hfd hready ht =>
      have hheld : fd ∈ ws.held := by simp [Websocket.held, hfd]
      obtain ⟨d, w, hrecv, hacts⟩ := hdata answer fuel n fd ws rfl hloc hn hfd hready t ht
      have htouch : Acts env A ⟨ws, w⟩ ⟨{ ws with lastEvent := c.now }, w⟩ := .single (.bare _ rfl hr)
      obtain ⟨l₁, l₂, hs, hput⟩ := put_split hn t (.peer n)
      rw [hput]
      rw [hfd] at hrecv
      exact .handler l₁ l₂ ws w t _ hs (Recvd.received (s := ⟨ws, c.world⟩) hheld hready hrecv)
        (htouch.trans hacts)
  | peer answer fuel n fd ws r hloc hn hfd hready hr' =>
      have hslot := hi.slots ws (List.mem_of_getElem? hn)
      have hheld : fd ∈ ws.held := by simp [Websocket.held, hfd]
      have hopen := hslot.open_of_peer hfd
      obtain ⟨f, hframing, hoffers⟩ := hslot.framing hopen
      obtain ⟨d, w, hrecv, hacts⟩ := wsPeerData_acts (A := A) (s := ⟨ws, c.world⟩) hopen hb
        (fun g hg => by rw [hframing] at hg; cases hg; exact hf f hoffers) hslot.peerBuffer hr'
      obtain ⟨l₁, l₂, hs, hput⟩ := put_split hn r.2 (if r.1 then .select else .ping n)
      rw [hput]
      rw [show (Conn.mk ws c.world).ws.peerFd = some fd from hfd] at hrecv
      exact .handler l₁ l₂ ws w r.2 _ hs
        (Recvd.received (s := ⟨ws, c.world⟩) hheld hready hrecv) hacts
  | ping answer fuel n ws hloc hn =>
      obtain ⟨l₁, l₂, hs, hput⟩ :=
        put_split hn (wsKeepAlive env c.now ⟨ws, c.world⟩) (.client (n + 1))
      rw [hput]
      refine .handler l₁ l₂ ws c.world _ _ hs .quiet (wsKeepAlive_acts env c.now fun hdue => ?_)
      refine hp ws ?_
      unfold Core.pingCall
      simp [hloc, hn, hdue]

/-- A step in which no line follows one that ends the HTTP phase. -/
theorem coreStep_next {i : Input} (hA : A.Handles) (hf : ∀ f, env.Offers f → A.Allows f)
    (hi : RegistryInv env c.sock c.world) (hl : LinesInOrder c i)
    (hp : ∀ ws ∈ c.pingCall env i, A.frame ws.state) (h : coreStep env i c = some c') :
    CoreNext env A c c' := by
  refine coreStep_next_of hA.reads hA.binary hf hi
    (fun answer fuel n fd ws hi hloc hn hfd hr t ht => ?_) hp h
  subst hi
  have hinOrder : ∀ data, answer.map (·.take (wsMaxLine - ws.readBufferOffset - 1)) = some data →
      InHttp ws → EndsLast ws (recvLines ws data) := by
    intro data hd hs
    obtain ⟨b, rfl, rfl⟩ := Option.map_eq_some_iff.mp hd
    refine hl (ws, _) ?_ hs
    unfold Core.dataCall
    simp [hloc, hn, hfd, hr]
  exact wsData_acts_inOrder (s := ⟨{ ws with lastEvent := c.now }, c.world⟩) hA
    (fun data hd hs => by
      refine (EndsLast_bare ?_ _).mp (hinOrder data hd hs)
      rfl) ht

/-- Any step, where everything is allowed. -/
theorem coreStep_next_all {i : Input} (hi : RegistryInv env c.sock c.world)
    (h : coreStep env i c = some c') : CoreNext env Scope.all c c' :=
  coreStep_next_of trivial trivial (fun _ _ _ _ _ _ _ _ _ _ _ => trivial) hi
    (fun _ _ _ _ ws _ _ _ _ _ _ ht => wsData_acts (s := ⟨{ ws with lastEvent := c.now }, c.world⟩)
      trivial (fun _ data _ _ => wsScan_acts_all env data.length _) ht)
    (fun _ _ => trivial) h

end

/-! ## The rule -/

/-- What is to be shown for an invariant of the registry and the outside. -/
structure CoreRule (env : Env φ) (A : Scope) (P : List (Websocket φ) → World → Prop) : Prop where
  init : ∀ c : Core φ, coreInit c → P [] c.world
  selected : ∀ sock w xs, P sock w → P sock (w.record (.selected xs))
  accept : ∀ l₁ (old : Option (Websocket φ)) l₂ w now accepts, (∀ ws ∈ old, ws.wsFd = none) →
    RegistryInv env (l₁ ++ (old.toList ++ l₂)) w → P (l₁ ++ (old.toList ++ l₂)) w →
    P (l₁ ++ acceptedConn now accepts w :: l₂) (w.accept accepts)
  serve : ∀ l₁ l₂ ws w ready w' t, RegistryInv env (l₁ ++ ws :: l₂) w → P (l₁ ++ ws :: l₂) w →
    Received ready ⟨ws, w⟩ w' → Acts env A ⟨ws, w'⟩ t → P (l₁ ++ t.ws :: l₂) t.world
  quit : ∀ sock w fd, (∀ ws ∈ sock, ws.Cleared) → P sock w → P [] (w.closeFd fd)

/-- A slot is the one that changed, or one of the others. -/
theorem mem_slots {l₁ l₂ : List (Websocket φ)} {new ws : Websocket φ} (hm : ws ∈ l₁ ++ new :: l₂) :
    ws = new ∨ ws ∈ l₁ ++ l₂ := by
  simp only [List.mem_append, List.mem_cons] at hm ⊢
  tauto

/-- After `accept` a slot is the new client's, or was there before. -/
theorem mem_accepted {l₁ l₂ : List (Websocket φ)} (old : Option (Websocket φ))
    {new ws : Websocket φ} (hm : ws ∈ l₁ ++ new :: l₂) :
    ws = new ∨ ws ∈ l₁ ++ (old.toList ++ l₂) := by
  refine (mem_slots hm).imp id ?_
  intro h
  simp only [List.mem_append] at h ⊢
  exact h.imp id .inr

theorem mem_slots_of {l₁ l₂ : List (Websocket φ)} {new ws : Websocket φ} (hm : ws ∈ l₁ ++ l₂) :
    ws ∈ l₁ ++ new :: l₂ := by
  rcases List.mem_append.mp hm with h | h
  · exact List.mem_append_left _ h
  · exact List.mem_append_right _ (List.mem_cons_of_mem _ h)

section

variable {env : Env φ} {A : Scope} {P : List (Websocket φ) → World → Prop}

/-- A slot that is closed keeps the registry's invariant. -/
theorem RegistryInv.close {l₁ l₂ : List (Websocket φ)} {ws : Websocket φ} {w : World}
    (hi : RegistryInv env (l₁ ++ ws :: l₂) w) (code : WsCloseReason) (reason : Option Bytes) :
    RegistryInv env (l₁ ++ (wsClose env code reason ⟨ws, w⟩).ws :: l₂)
      (wsClose env code reason ⟨ws, w⟩).world := by
  have hconns : (wsClose env code reason ⟨ws, w⟩).world.conns = w.conns :=
    (wsClose_local code reason _).conns
  obtain ⟨hs, hn, hd⟩ := hi
  refine ⟨fun v hv => ?_, fun v hv => ?_, ?_⟩
  · simp only [List.mem_append, List.mem_cons] at hv hs
    rcases hv with hv | rfl | hv
    · exact hs v (.inl hv)
    · exact ⟨wsClose_stateInv _ _ _, Nat.zero_le _, Nat.zero_le _⟩
    · exact hs v (.inr (.inr hv))
  · rw [hconns]
    simp only [List.mem_append, List.mem_cons] at hv hn
    rcases hv with hv | rfl | hv
    · exact hn v (.inl hv)
    · exact hn ws (.inr (.inl rfl))
    · exact hn v (.inr (.inr hv))
  · rw [List.map_append, List.map_cons] at hd ⊢
    exact hd

/-- `client_cleanup` serves every slot once more. -/
theorem CoreRule.cleanup (hr : CoreRule env A P) (l₂ : List (Websocket φ)) :
    ∀ (l₁ : List (Websocket φ)) (w : World), RegistryInv env (l₁ ++ l₂) w → P (l₁ ++ l₂) w →
      (∀ ws ∈ l₁, ws.Cleared) →
      ∃ sock, P sock (clientCleanup env l₂ w) ∧ ∀ ws ∈ sock, ws.Cleared := by
  induction l₂ with
  | nil =>
      intro l₁ w _ hp hc
      rw [List.append_nil] at hp
      exact ⟨l₁, hp, hc⟩
  | cons ws l₂ ih =>
      intro l₁ w hi hp hc
      have hclose : Acts env A ⟨ws, w⟩
          (wsClose env .shutdown (some (ascii "Shutting down")) ⟨ws, w⟩) :=
        .single (.close _ _ fun h => by cases h)
      have hp' := hr.serve l₁ l₂ ws w [] w _ hi hp .quiet hclose
      have hi' := hi.close .shutdown (some (ascii "Shutting down"))
      rw [List.append_cons] at hp' hi'
      refine ih _ _ hi' hp' fun v hv => ?_
      rcases List.mem_append.mp hv with hv | hv
      · exact hc v hv
      · rw [List.mem_singleton.mp hv]
        exact wsClose_cleared env _ _ _

/-- What one step keeps. -/
theorem CoreRule.next (hr : CoreRule env A P) {c c' : Core φ} (hi : RegistryInv env c.sock c.world)
    (hP : P c.sock c.world) (h : CoreNext env A c c') : P c'.sock c'.world := by
  cases h with
  | round ready now => exact hr.selected _ _ _ hP
  | accept ready now accepts =>
      have hsel : P c.sock (c.selected ready now).world := hr.selected _ _ _ hP
      have hi' : RegistryInv env c.sock (c.selected ready now).world :=
        ⟨hi.slots, hi.numbers, hi.distinct⟩
      rw [wsAccept_eq]
      rcases clientRegister_cases (acceptedConn now accepts (c.selected ready now).world) c.sock
        with ⟨n, old, hn, hold, he⟩ | he
      · obtain ⟨l₁, l₂, hsock, hput⟩ := put_split hn
          ⟨acceptedConn now accepts (c.selected ready now).world, c.world⟩ .done
        have hset : c.sock.set n (acceptedConn now accepts (c.selected ready now).world) =
            l₁ ++ acceptedConn now accepts (c.selected ready now).world :: l₂ :=
          congrArg Core.sock hput
        rw [hsock] at hsel hi'
        have := hr.accept l₁ (some old) l₂ _ now accepts (by simpa using hold) hi' hsel
        rw [← hset, ← he] at this
        exact this
      · have := hr.accept c.sock none [] (c.selected ready now).world now accepts (by simp)
          (by rwa [Option.toList_none, List.nil_append, List.append_nil])
          (by rwa [Option.toList_none, List.nil_append, List.append_nil])
        rw [← he] at this
        exact this
  | quit =>
      obtain ⟨sock, hsock, hc⟩ := hr.cleanup c.sock [] c.world hi hP (by simp)
      exact hr.quit _ _ _ hc hsock
  | idle l => exact hP
  | handler l₁ l₂ ws w t l hsock hw ht =>
      rw [hsock] at hP hi
      exact hr.serve l₁ l₂ ws c.world c.readFds w t hi hP hw ht

/-- **The rule**: an invariant that the steps keep holds in every run that meets the
conditions. -/
theorem CoreRule.reach (hr : CoreRule env A P) (hA : A.Handles)
    (hf : ∀ f, env.Offers f → A.Allows f) {ok : Core φ → Input → Prop}
    (hl : ∀ c i, ok c i → LinesInOrder c i)
    (hp : ∀ c i, ok c i → ∀ ws ∈ c.pingCall env i, A.frame ws.state) {c : Core φ}
    (h : (coreLoop env).Reach ok c) : P c.sock c.world := by
  refine h.invariant (P := fun c => P c.sock c.world) (fun c hc => ?_) fun c i c' hreach hP ho hs => ?_
  · rw [hc.1]
    exact hr.init c hc
  · have hi := coreLoop_registryInv hreach
    exact hr.next hi hP (coreStep_next hA hf hi (hl c i ho) (hp c i ho) hs)

/-- The rule for all runs. -/
theorem CoreRule.reach_all (hr : CoreRule env Scope.all P) {ok : Core φ → Input → Prop} {c : Core φ}
    (h : (coreLoop env).Reach ok c) : P c.sock c.world := by
  refine h.invariant (P := fun c => P c.sock c.world) (fun c hc => ?_) fun c i c' hreach hP ho hs => ?_
  · rw [hc.1]
    exact hr.init c hc
  · have hi := coreLoop_registryInv hreach
    exact hr.next hi hP (coreStep_next_all hi hs)

end

end Websocksy

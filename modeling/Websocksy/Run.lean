import Websocksy.Locality

/-!
# Steps of the core loop

`CoreStep` lists what a step of the core loop can be: a round begins, the program
ends, a test fails and nothing is called, or one of the three handlers works on
the connection in a slot.
-/

namespace Websocksy

open Buffer CString Lines Relation

variable {φ : Type}

/-- The connection `ws_accept` makes. -/
def acceptedConn (now : Int) (accepts : Bool) (w : World) : Websocket φ :=
  { conn := w.conns, wsFd := if accepts then some (FdTable.lowest w.fds) else none, lastEvent := now }

/-- The outside after `accept`. -/
def World.accept (w : World) (accepts : Bool) : World :=
  let w' := { w with conns := w.conns + 1 }
  if accepts then w'.openSock.record (.accepted w.conns w.socks) else w'

theorem wsAccept_eq (now : Int) (accepts : Bool) (c : Core φ) :
    wsAccept now accepts c =
      { c with
        sock := clientRegister (acceptedConn now accepts c.world) c.sock
        world := c.world.accept accepts } := rfl

/-- The descriptors `select` reports, of those it was given. -/
def Core.ready (c : Core φ) (ready : List Nat) : List Nat := ready.filter (· ∈ selectFds c)

/-- The core after `select`. -/
def Core.selected (c : Core φ) (ready : List Nat) (now : Int) : Core φ :=
  { c with
    world := c.world.record
      (.selected ((c.ready ready).filterMap fun fd => c.world.sockAt (some fd)))
    readFds := c.ready ready, now := now, loc := .client 0 }

inductive CoreStep (env : Env φ) (c : Core φ) : Input → Core φ → Prop
  | round (ready : List Nat) (now : Int) (accepts : Bool) (hl : c.loc = .select)
      (h : c.listenFd ∉ c.ready ready) :
      CoreStep env c (.select ready now accepts) (c.selected ready now)
  | accept (ready : List Nat) (now : Int) (accepts : Bool) (hl : c.loc = .select)
      (h : c.listenFd ∈ c.ready ready) :
      CoreStep env c (.select ready now accepts) (wsAccept now accepts (c.selected ready now))
  | quit (hl : c.loc = .select) :
      CoreStep env c .quit { c with
        sock := [], world := (clientCleanup env c.sock c.world).closeFd (some c.listenFd)
        loc := .done }
  | idle (answer : Option Bytes) (fuel : Nat) (l : Loc) (hl : c.loc ≠ .select)
      (hl' : l ≠ .done) : CoreStep env c (.serve answer fuel) { c with loc := l }
  | client (answer : Option Bytes) (fuel n fd : Nat) (ws : Websocket φ) (t : Conn φ)
      (hl : c.loc = .client n) (hn : c.sock[n]? = some ws) (hfd : ws.wsFd = some fd)
      (hr : fd ∈ c.readFds)
      (h : wsData env answer ⟨{ ws with lastEvent := c.now }, c.world⟩ = some t) :
      CoreStep env c (.serve answer fuel) (c.put n t (.peer n))
  | peer (answer : Option Bytes) (fuel n fd : Nat) (ws : Websocket φ) (r : Bool × Conn φ)
      (hl : c.loc = .peer n) (hn : c.sock[n]? = some ws) (hfd : ws.peerFd = some fd)
      (hr : fd ∈ c.readFds) (h : wsPeerData env fuel answer ⟨ws, c.world⟩ = some r) :
      CoreStep env c (.serve answer fuel) (c.put n r.2 (if r.1 then .select else .ping n))
  | ping (answer : Option Bytes) (fuel n : Nat) (ws : Websocket φ) (hl : c.loc = .ping n)
      (hn : c.sock[n]? = some ws) :
      CoreStep env c (.serve answer fuel)
        (c.put n (wsKeepAlive env c.now ⟨ws, c.world⟩) (.client (n + 1)))

theorem coreStep_cases {env : Env φ} {i : Input} {c c' : Core φ} (h : coreStep env i c = some c') :
    CoreStep env c i c' := by
  unfold coreStep at h
  split at h
  · next hl =>
    cases h
    dsimp only
    split
    · next hlisten => exact .accept _ _ _ hl hlisten
    · next hlisten => exact .round _ _ _ hl hlisten
  · next hl =>
    cases h
    exact .quit hl
  · next n answer fuel hl =>
    have hne : c.loc ≠ .select := by rw [hl]; simp
    split at h
    · cases h
      exact .idle _ _ _ hne (by simp)
    · next ws hn =>
      split at h
      · cases h
        exact .idle _ _ _ hne (by simp)
      · next fd hfd =>
        split at h
        · next hr =>
          obtain ⟨t, ht, rfl⟩ := Option.map_eq_some_iff.mp h
          exact .client _ _ n fd ws t hl hn hfd hr ht
        · cases h
          exact .idle _ _ _ hne (by simp)
  · next n answer fuel hl =>
    have hne : c.loc ≠ .select := by rw [hl]; simp
    split at h
    · cases h
    · next ws hn =>
      split at h
      · next hr =>
        obtain ⟨r, hp, rfl⟩ := Option.map_eq_some_iff.mp h
        cases hfd : ws.peerFd with
        | none => rw [hfd] at hr; cases hr
        | some fd =>
            rw [hfd] at hr
            exact .peer _ _ n fd ws r hl hn hfd (by simpa using hr) hp
      · cases h
        exact .idle _ _ _ hne (by simp)
  · next n _ _ hl =>
    split at h
    · cases h
    · next ws hn =>
      cases h
      exact .ping _ _ n ws hl hn
  · cases h

/-! ## Slots -/

theorem put_sock (c : Core φ) (n : Nat) (s : Conn φ) (loc : Loc) :
    (c.put n s loc).sock = c.sock.set n s.ws := rfl

theorem put_world (c : Core φ) (n : Nat) (s : Conn φ) (loc : Loc) :
    (c.put n s loc).world = s.world := rfl

/-- The slot `n` holds what was put there, the other slots what they held. -/
theorem put_get {c : Core φ} {n m : Nat} {ws' : Websocket φ} {s : Conn φ} {loc : Loc}
    (h : (c.put n s loc).sock[m]? = some ws') :
    m = n ∧ ws' = s.ws ∨ m ≠ n ∧ c.sock[m]? = some ws' := by
  rw [put_sock, List.getElem?_set] at h
  split at h
  · next e =>
    split at h
    · cases h
      exact .inl ⟨e.symm, rfl⟩
    · cases h
  · next e => exact .inr ⟨fun e' => e e'.symm, h⟩

/-- A new connection takes a slot without a client, or a new slot. -/
theorem clientRegister_cases (ws : Websocket φ) (sock : List (Websocket φ)) :
    (∃ n old, sock[n]? = some old ∧ old.wsFd = none ∧ clientRegister ws sock = sock.set n ws) ∨
    clientRegister ws sock = sock ++ [ws] := by
  unfold clientRegister
  dsimp only
  split
  · next h =>
    refine .inl ⟨_, sock[sock.findIdx (·.wsFd.isNone)], List.getElem?_eq_getElem h, ?_, rfl⟩
    simpa using List.findIdx_getElem (w := h)
  · exact .inr rfl

theorem length_le_clientRegister (ws : Websocket φ) (sock : List (Websocket φ)) :
    sock.length ≤ (clientRegister ws sock).length := by
  rcases clientRegister_cases ws sock with ⟨n, old, -, -, he⟩ | he <;> rw [he]
  · rw [List.length_set]
  · simp

theorem clientRegister_get {n : Nat} {ws ws' : Websocket φ} {sock : List (Websocket φ)}
    (h : (clientRegister ws sock)[n]? = some ws') : ws' = ws ∨ sock[n]? = some ws' := by
  rcases clientRegister_cases ws sock with ⟨m, old, -, -, he⟩ | he <;> rw [he] at h
  · rw [List.getElem?_set] at h
    split at h
    · split at h
      · cases h
        exact .inl rfl
      · cases h
    · exact .inr h
  · rw [List.getElem?_append] at h
    split at h
    · exact .inr h
    · have := List.mem_of_getElem? h
      exact .inl (List.mem_singleton.mp this)

theorem mem_clientRegister {ws ws' : Websocket φ} {sock : List (Websocket φ)}
    (h : ws' ∈ clientRegister ws sock) : ws' = ws ∨ ws' ∈ sock := by
  rcases clientRegister_cases ws sock with ⟨n, old, -, -, he⟩ | he <;> rw [he] at h
  · exact (List.mem_or_eq_of_mem_set h).symm
  · rcases List.mem_append.mp h with h | h
    · exact .inr h
    · exact .inl (List.mem_singleton.mp h)

/-- A property of all slots and of what is put back is one of all slots after. -/
theorem put_forall {c : Core φ} {n : Nat} {s : Conn φ} {loc : Loc} {P : Websocket φ → Prop}
    (hall : ∀ ws ∈ c.sock, P ws) (hs : P s.ws) : ∀ ws ∈ (c.put n s loc).sock, P ws := by
  intro ws hm
  rcases List.mem_or_eq_of_mem_set hm with h | h
  · exact hall ws h
  · rw [h]
    exact hs

/-! ## Calls of one handler -/

/-- The read gives something, and all of it fits into the free buffer. -/
def ReadFits (s : Conn φ) (b : Bytes) : Prop :=
  b ≠ [] ∧ b.length ≤ wsMaxLine - s.ws.readBufferOffset - 1

instance (s : Conn φ) (b : Bytes) : Decidable (ReadFits s b) := inferInstanceAs (Decidable (_ ∧ _))

/-- Calls of `ws_data` on one connection, each with what its `recv` gives. -/
def dataCalls (env : Env φ) : Machine (Conn φ) Bytes where
  init _ := True
  step b s := wsData env (some b) s

/-! ## A sample outside -/

/-- A backend that always names one peer, connections and sends that succeed.  The hash
and its encoding are those of the key `dGhlIHNhbXBsZSBub25jZQ==`. -/
def sampleEnv : Env Unit where
  query _ _ _ _ :=
    { transport := .tcpClient, host := some (ascii "localhost"), port := some (ascii "80") }
  connect _ _ := true
  send _ _ := some 1000
  sha1 _ := [0xb3, 0x7a, 0x4f, 0x2c, 0xc0, 0x62, 0x4f, 0x16, 0x90, 0xf6,
    0x46, 0x06, 0xcf, 0x38, 0x59, 0x45, 0xb2, 0xbe, 0xc4, 0xea]
  base64 _ := ascii "s3pPLMBiTxaQ9kYGzzhZRbK+xOo="
  pingInterval := 30

/-- Three standard descriptors and the listening socket. -/
def sampleCore : Core Unit where
  sock := []
  world := { fds := [some 0, some 1, some 2, some 3], socks := 4 }
  listenFd := 3

theorem sampleCore_init : coreInit sampleCore := by
  refine ⟨rfl, rfl, rfl, ⟨fun fd x h => ?_, fun fd gd x hf hg => ?_⟩, by decide⟩
  all_goals unfold FdTable.entry at *
  · rcases fd with _ | _ | _ | _ | fd <;> cases h <;> decide
  · rcases fd with _ | _ | _ | _ | fd <;> cases hf <;>
      rcases gd with _ | _ | _ | _ | gd <;> cases hg <;> rfl

/-- A connection just accepted, with the socket 4 as its client. -/
def sampleConn : Conn Unit where
  ws := { conn := 0, wsFd := some 4 }
  world := { fds := [some 0, some 1, some 2, some 3, some 4], socks := 5, conns := 1 }

/-- An open connection, with the socket 4 as its client and the socket 5 as its peer. -/
def sampleOpen : Conn Unit where
  ws :=
    { conn := 0, wsFd := some 4, state := .wsOpen, peerFd := some 5
      peer := { framing := some framingAuto } }
  world := { fds := [some 0, some 1, some 2, some 3, some 4, some 5], socks := 6, conns := 1 }

/-- The inputs of a round in which one client connects. -/
def sampleAccept : List Input :=
  [.select [3] 0 true, .serve none 0, .serve none 0, .serve none 0, .serve none 0]

end Websocksy

import Websocksy.Plugin
import Websocksy.Network
import Websocksy.Capacity

/-!
# `main`

What `main` does before the core loop and after it.  Whatever its calls come to, it exits with the
descriptors it was started with, and with that of the plugin directory if the plugins cannot be
loaded; or it gets to the core loop with one more, on which it listens (`coreInit`).  In the loop
those that it was started with stay what they are, and when it returns there are no others
(`main_descriptors`).
-/

namespace Websocksy

open Buffer CString Lines FdTable

variable {φ β : Type}

/-! ## Before the core loop -/

/-- `DEFAULT_HOST` -/
def defaultHost : Bytes := ascii "::"

/-- `DEFAULT_PORT` -/
def defaultPort : Bytes := ascii "8001"

/-- `config`, as it is initialised: `builtin` is the module of the defaultpeer backend. -/
def initialConfig (builtin : β) : WsConfig β where
  host := none
  port := none
  pingInterval := 30
  backend := ⟨some builtin, some builtin, some builtin, some builtin⟩

/-- What the calls of `main` come to: for the framing plugins, the backends, the configuration file
and the listening socket. -/
structure MainCalls (β : Type) where
  objects : SharedObjects FramingState
  directory : Option (List Bytes)
  plugins : Plugins β
  file : Bytes → Option Bytes
  sockets : Bytes → Bytes → NetworkCalls

/-- Where `main` gets before its loop. -/
inductive Started (β φ : Type)
  /-- `exit(EXIT_FAILURE)` -/
  | exits (s : ConfigRun β) (w : World)
  | loops (s : ConfigRun β) (c : Core φ)

/-- The core at the start of the loop. -/
def Core.listening (w : World) (listenFd : Nat) : Core φ :=
  { sock := [], world := w, listenFd := listenFd }

/-- The call for the listening socket. -/
def listenCall (calls : MainCalls β) (config : WsConfig β) : SocketCall :=
  .inet .stream true
    (calls.sockets (config.host.getD defaultHost) (config.port.getD defaultPort))

/-- `main` up to its loop; `none` for a call through NULL. -/
def mainStart (calls : MainCalls β) (builtin : β) (argv : List Bytes) (w : World) :
    Option (Started β φ) :=
  let s : ConfigRun β := { config := initialConfig builtin }
  match mainFramings calls.objects calls.plugins.path calls.directory w with
  | (true, _, w) => some (.exits s w)
  | (false, _, w) =>
    let version := calls.plugins.init s.calls builtin
    let s := { s with calls := s.calls ++ [.init builtin] }
    if version ≠ websocksyApiVersion then some (.exits s w)
    else match configParseArguments calls.plugins calls.file argv s with
      | none => none
      | some (true, s) => some (.exits s w)
      | some (false, s) =>
        match (SocketOp.connect (listenCall calls s.config)).performOnce w with
        | (none, w) => some (.exits s w)
        | (some listenFd, w) => some (.loops s (.listening w listenFd))

section

variable {calls : MainCalls β} {builtin : β} {argv : List Bytes} {w : World} {s : ConfigRun β}
  {env : Env φ} {c c' c₀ : Core φ} {base fd x : Nat}

/-- The plugin directory was opened, and the plugins cannot be loaded. -/
def DirectoryLeft (calls : MainCalls β) : Prop :=
  ¬(PluginPathFits calls.plugins.path ∧
    ∀ p ∈ framingPaths calls.plugins.path (calls.directory.getD []), calls.objects.dlopen p ≠ none) ∧
  calls.directory.isSome = true

/-- What is left of `main` when the configuration was read. -/
theorem mainStart_cases (hn : Numbered w.fds w.socks) {r : Started β φ}
    (h : mainStart calls builtin argv w = some r) :
    ∃ w₁ : World, Numbered w₁.fds w₁.socks ∧ w₁.log = w.log ∧
      (DirectoryLeft calls → w₁ = w.opendir) ∧
      (¬DirectoryLeft calls → ∀ fd, w₁.sockAt (some fd) = w.sockAt (some fd)) ∧
      ((∃ s, r = .exits s w₁) ∨ ¬DirectoryLeft calls ∧
        ∃ s, r = .loops s (.listening w₁.openSock (lowest w₁.fds))) := by
  obtain ⟨-, hloaded, -⟩ := mainFramings_loaded calls.objects calls.plugins.path calls.directory w
  obtain ⟨hleft, hsame, hn₁, hlog⟩ := mainFramings_world calls.objects calls.plugins.path
    calls.directory w hn
  have hdirectory : DirectoryLeft calls ↔
      (mainFramings calls.objects calls.plugins.path calls.directory w).1 = true ∧
        calls.directory.isSome = true := by
    unfold DirectoryLeft
    rw [← hloaded, Bool.not_eq_false]
  rw [← hdirectory] at hleft hsame
  refine ⟨_, hn₁, hlog, hleft, hsame, ?_⟩
  unfold mainStart at h
  generalize mainFramings calls.objects calls.plugins.path calls.directory w = m at *
  obtain ⟨failed, library, w₁⟩ := m
  cases failed with
  | true =>
      cases h
      exact .inl ⟨_, rfl⟩
  | false =>
      have hnot : ¬DirectoryLeft calls := fun hl => by cases (hdirectory.mp hl).1
      dsimp only at h
      split at h
      · cases h
        exact .inl ⟨_, rfl⟩
      split at h
      · cases h
      · cases h
        exact .inl ⟨_, rfl⟩
      · next s hparse =>
        rw [SocketOp.performOnce_eq (by simp)] at h
        cases hgives : (SocketOp.connect (listenCall calls s.config)).gives.isSome with
        | false =>
            rw [hgives] at h
            cases h
            exact .inl ⟨s, rfl⟩
        | true =>
            rw [hgives] at h
            cases h
            exact .inr ⟨hnot, s, rfl⟩

/-- `main` gets to its loop with the listening socket. -/
theorem coreInit_listening (hn : Numbered w.fds w.socks) (hlog : w.log = []) :
    coreInit (Core.listening w.openSock (lowest w.fds) : Core φ) := by
  refine ⟨rfl, rfl, hlog, hn.install, ?_⟩
  show entry (install w.fds w.socks) (lowest w.fds) ≠ none
  rw [entry_install, if_pos rfl]
  exact Option.some_ne_none _

/-! ## Descriptors that are not the program's own -/

/-- The descriptor is open on the socket, and no slot holds it. -/
def Core.Apart (c : Core φ) (fd x : Nat) : Prop :=
  c.world.sockAt (some fd) = some x ∧ fd ∉ c.sock.flatMap (·.held)

theorem Core.apart_iff (hi : OwnershipInv base c.sock c.world) :
    c.Apart fd x ↔ c.world.sockAt (some fd) = some x ∧ x < base := by
  unfold Core.Apart
  constructor
  · rintro ⟨hx, hheld⟩
    refine ⟨hx, ?_⟩
    by_contra hge
    exact hheld (hi.noLeak fd x hx (Nat.le_of_not_lt hge))
  · rintro ⟨hx, hlt⟩
    refine ⟨hx, ?_⟩
    intro hheld
    obtain ⟨y, hy, hxy⟩ := hi.held.2 fd hheld
    obtain rfl : x = y := Option.some.inj (hx.symm.trans hxy)
    omega

/-- What is open after a step, and was not opened for a connection, was there before. -/
theorem CoreNext.apart_before (h : CoreNext env Scope.inOrder c c')
    (hreg : RegistryInv env c.sock c.world) (hi : OwnershipInv base c.sock c.world)
    (hd : c'.loc ≠ .done) (hx : c'.world.sockAt (some fd) = some x) (hout : c'.world.Outside x)
    (hheld : fd ∉ c'.sock.flatMap (·.held)) :
    c.world.sockAt (some fd) = some x ∧ c.world.Outside x := by
  have hbefore {es : List Event} (he : c'.world.log = c.world.log ++ es) : c.world.Outside x := by
    intro conn hgiven
    refine hout conn ?_
    unfold GivenTo at hgiven ⊢
    rw [he]
    exact hgiven.imp (List.mem_append_left _) (List.mem_append_left _)
  cases h with
  | round ready now => exact ⟨hx, hbefore rfl⟩
  | accept ready now accepts =>
      cases accepts with
      | false => exact ⟨hx, hbefore rfl⟩
      | true =>
          have hlog : (wsAccept now true (c.selected ready now)).world.log =
              c.world.log ++ [_] ++ [.accepted c.world.conns c.world.socks] := rfl
          refine ⟨?_, hbefore (by rw [hlog, List.append_assoc])⟩
          have hentry : entry (install c.world.fds c.world.socks) fd = some x := hx
          rw [entry_install] at hentry
          split at hentry
          · cases hentry
            refine absurd (.inl ?_) (hout c.world.conns)
            rw [hlog]
            simp
          · exact hentry
  | quit => exact absurd rfl hd
  | idle l => exact ⟨hx, hout⟩
  | handler l₁ l₂ ws w t l hs hw ht =>
      obtain ⟨es, he, -⟩ := (hw.isLocal.trans ht.isLocal).log
      refine ⟨?_, hbefore he⟩
      have hw' : w.fds = c.world.fds ∧ w.socks = c.world.socks := by cases hw <;> exact ⟨rfl, rfl⟩
      rcases ht.later.entry fd x hx with hold | hnew
      · show entry c.world.fds fd = some x
        rw [← hw'.1]
        exact hold
      · -- a new socket is its connection's
        rw [hs] at hi hreg
        obtain ⟨hst, hc, hother⟩ := hreg.served hw
        have hown := ht.ownershipInv Scope.inOrder_ordered hst hc hother (hi.served hw)
        have hbase := hi.base_le
        have hin := hown.noLeak fd x hx (by dsimp only at hnew; omega)
        exact absurd ((List.perm_middle.flatMap_right Websocket.held).mem_iff.mpr hin) hheld

/-- **A step** before the end takes none of them and leaves none behind. -/
theorem CoreNext.apart (h : CoreNext env Scope.inOrder c c') (hreg : RegistryInv env c.sock c.world)
    (hi : OwnershipInv base c.sock c.world) (hg : GivenInv c.sock c.world)
    (hg' : GivenInv c'.sock c'.world) (hi' : ∃ base, OwnershipInv base c'.sock c'.world)
    (hd : c'.loc ≠ .done) : c'.Apart fd x ↔ c.Apart fd x := by
  obtain ⟨base', hi'⟩ := hi'
  constructor
  · intro hc'
    obtain ⟨hx', hlt'⟩ := (Core.apart_iff hi').mp hc'
    obtain ⟨hx, hout⟩ := h.apart_before hreg hi hd hx' ((hi'.outside_iff hg' hx').mpr hlt') hc'.2
    exact (Core.apart_iff hi).mpr ⟨hx, (hi.outside_iff hg hx).mp hout⟩
  · intro hc
    obtain ⟨hx, hlt⟩ := (Core.apart_iff hi).mp hc
    obtain ⟨hx', hout⟩ := h.outside hreg hi hd hx hlt
    exact (Core.apart_iff hi').mpr ⟨hx', (hi'.outside_iff hg' hx').mp hout⟩

/-- `client_cleanup` closes what the slots hold, and nothing else. -/
theorem clientCleanup_sockAt (env : Env φ) (sock : List (Websocket φ)) (w : World) :
    (clientCleanup env sock w).sockAt (some fd) =
      if fd ∈ sock.flatMap (·.held) then none else w.sockAt (some fd) := by
  induction sock generalizing w with
  | nil => rfl
  | cons ws sock ih =>
      have hclose : (wsClose env .shutdown (some (ascii "Shutting down")) ⟨ws, w⟩).world.sockAt
          (some fd) = if fd ∈ ws.held then none else w.sockAt (some fd) := by
        have hsends := wsCloseSend_onlySends env ws .shutdown (some (ascii "Shutting down"))
          (w.record (.wsClose ws.conn (some (ascii "Shutting down"))))
        rw [wsClose_world, closeFd_sockAt, closeFd_sockAt, wsCloseWorld, hsends.sockAt]
        have hheld : fd ∈ ws.held ↔ some fd = ws.peerFd ∨ some fd = ws.wsFd := by
          simp [Websocket.held, eq_comm, or_comm]
        dsimp only
        by_cases hpeer : some fd = ws.peerFd
        · rw [if_pos hpeer, if_pos (hheld.mpr (.inl hpeer))]
        · rw [if_neg hpeer]
          by_cases hclient : some fd = ws.wsFd
          · rw [if_pos hclient, if_pos (hheld.mpr (.inr hclient))]
          · rw [if_neg hclient, if_neg fun hm => (hheld.mp hm).elim hpeer hclient]
            rfl
      unfold clientCleanup
      rw [ih, hclose, List.flatMap_cons]
      simp only [List.mem_append]
      by_cases hrest : fd ∈ sock.flatMap (·.held)
      · rw [if_pos hrest, if_pos (.inr hrest)]
      · rw [if_neg hrest]
        by_cases hself : fd ∈ ws.held
        · rw [if_pos hself, if_pos (.inl hself)]
        · rw [if_neg hself, if_neg fun hm => hm.elim hself hrest]

/-! ## Runs -/

/-- From `c₀` on, the descriptors that no slot holds are the same, and in the end these are left,
but for the listening socket. -/
structure Tidy (c₀ c : Core φ) : Prop where
  listenFd : c.listenFd = c₀.listenFd
  apart : c.loc ≠ .done → ∀ fd x, c.Apart fd x ↔ c₀.Apart fd x
  done : c.loc = .done → ∀ fd x, c.world.sockAt (some fd) = some x ↔
    c₀.Apart fd x ∧ fd ≠ c₀.listenFd

theorem Tidy.step {i : Input} (hreach : (coreLoop env).Reach LinesInOrder c) (h : Tidy c₀ c)
    (hl : LinesInOrder c i) (hs : coreStep env i c = some c') : Tidy c₀ c' := by
  have hnext := coreStep_inOrder hreach hl hs
  have hold : c.loc ≠ .done := by
    intro hdone
    have hnone : coreStep env i c = none := by
      unfold coreStep
      rw [hdone]
    cases hnone.symm.trans hs
  obtain ⟨base, hi⟩ := coreLoop_ownership hreach
  have hreach' := hreach.step i hl hs
  refine ⟨?_, ?_, ?_⟩
  · rw [← h.listenFd]
    cases hnext <;> rfl
  · intro hd fd x
    rw [← h.apart hold fd x]
    exact hnext.apart (coreLoop_registryInv hreach) hi (coreLoop_givenInv hreach)
      (coreLoop_givenInv hreach') (coreLoop_ownership hreach') hd
  · intro hd fd x
    rw [← h.apart hold fd x, ← h.listenFd]
    cases coreStep_cases hs with
    | round ready now accepts hloc hlisten => cases hd
    | accept ready now accepts hloc hlisten => cases hd
    | idle answer fuel l hloc hl' => exact absurd hd hl'
    | client answer fuel n fd ws t hloc hn hfd hr ht => cases hd
    | peer answer fuel n fd ws r hloc hn hfd hr ht =>
        have hloc : (if r.1 then Loc.select else Loc.ping n) = .done := hd
        split at hloc <;> cases hloc
    | ping answer fuel n ws hloc hn => cases hd
    | quit hloc =>
        dsimp only
        rw [closeFd_sockAt, clientCleanup_sockAt]
        unfold Core.Apart
        by_cases hlisten : fd = c.listenFd
        · simp [hlisten]
        · rw [if_neg (by simpa using hlisten)]
          by_cases hheld : fd ∈ c.sock.flatMap (·.held)
          · rw [if_pos hheld]
            exact ⟨fun hx => (by cases hx), fun hx => absurd hheld hx.1.2⟩
          · rw [if_neg hheld]
            exact ⟨fun hx => ⟨⟨hx, hheld⟩, hlisten⟩, fun hx => hx.1.1⟩

/-- **The descriptors of the program**: whatever its calls come to, `main` exits with those that it
was started with, and with one for the plugin directory just if that was opened and the plugins
cannot be loaded; or it gets to its loop.  In every run of the loop in which no line follows one that
ends the HTTP phase in the same read, those stay what they are, and when `main` returns they are
all that is left. -/
theorem main_descriptors (calls : MainCalls β) (builtin : β) (argv : List Bytes) (w : World)
    (hn : Numbered w.fds w.socks) (hlog : w.log = []) (r : Started β φ)
    (hr : mainStart calls builtin argv w = some r) :
    match r with
    | .exits _ w' => (DirectoryLeft calls → w' = w.opendir) ∧
        (¬DirectoryLeft calls → ∀ fd, w'.sockAt (some fd) = w.sockAt (some fd))
    | .loops _ c₀ => coreInit c₀ ∧ ∀ (env : Env φ) (is : List Input) (c : Core φ),
        (coreLoop env).Meets LinesInOrder is c₀ → (coreLoop env).exec is c₀ = some c →
        (∀ fd x, w.sockAt (some fd) = some x → c.world.sockAt (some fd) = some x) ∧
        (c.loc = .done → ∀ fd, c.world.sockAt (some fd) = w.sockAt (some fd)) := by
  obtain ⟨w₁, hn₁, hlog₁, hleft, hsame, ⟨s, rfl⟩ | ⟨hnot, s, rfl⟩⟩ := mainStart_cases hn hr
  · exact ⟨hleft, hsame⟩
  · have hsame := hsame hnot
    have hinit := coreInit_listening (φ := φ) hn₁ (hlog₁.trans hlog)
    refine ⟨hinit, ?_⟩
    intro env is c hm hs
    have hstart : Tidy (.listening w₁.openSock (lowest w₁.fds))
        (Core.listening w₁.openSock (lowest w₁.fds) : Core φ) :=
      ⟨rfl, fun _ _ _ => Iff.rfl, fun hd => by cases hd⟩
    have htidy := Machine.Reach.exec_invariant (fun c i c' hreach h hl hs => h.step hreach hl hs) is
      (.init hinit) hstart hm hs
    -- the descriptors in the loop are one more, for the listening socket
    have hapart (fd x : Nat) : (Core.listening w₁.openSock (lowest w₁.fds) : Core φ).Apart fd x ↔
        (if fd = lowest w₁.fds then some w₁.socks else w₁.sockAt (some fd)) = some x := by
      unfold Core.Apart
      show entry (install w₁.fds w₁.socks) fd = some x ∧ fd ∉ [] ↔ _
      rw [entry_install]
      simp
      rfl
    have hfree {fd x : Nat} (hx : w₁.sockAt (some fd) = some x) : fd ≠ lowest w₁.fds := by
      rintro rfl
      have hnone : w₁.sockAt (some (lowest w₁.fds)) = none := entry_lowest w₁.fds
      rw [hnone] at hx
      cases hx
    constructor
    · intro fd x hx
      rw [← hsame] at hx
      have hc₀ := (hapart fd x).mpr (by rw [if_neg (hfree hx), hx])
      by_cases hd : c.loc = .done
      · exact (htidy.done hd fd x).mpr ⟨hc₀, hfree hx⟩
      · exact ((htidy.apart hd fd x).mpr hc₀).1
    · intro hd fd
      rw [← hsame]
      apply Option.ext
      intro x
      rw [htidy.done hd fd x, hapart]
      constructor
      · rintro ⟨hx, hne⟩
        have hne : fd ≠ lowest w₁.fds := hne
        rwa [if_neg hne] at hx
      · intro hx
        refine ⟨?_, hfree hx⟩
        rw [if_neg (hfree hx), hx]

end

/-- There is a shared object among the plugins, and the socket is on the first of two addresses. -/
def sampleMain : MainCalls Unit where
  objects := ⟨fun _ => some []⟩
  directory := some [ascii "framing_json.so", ascii "readme.md"]
  plugins := {
    path := ascii "/usr/lib"
    dlopen := fun _ => none
    init := fun _ _ => 1
    config := fun _ _ _ _ => 0 }
  file _ := none
  sockets _ _ :=
    ⟨some [⟨.inet [1], true, true, true, true⟩, ⟨.inet [2], true, true, true, true⟩], true, true⟩

/-- A process with three standard descriptors. -/
def sampleProcess : World := { fds := [some 0, some 1, some 2], socks := 3 }

theorem sampleProcess_numbered : Numbered sampleProcess.fds sampleProcess.socks := by
  constructor
  · intro fd x h
    unfold entry at h
    rcases fd with _ | _ | _ | fd <;> cases h <;> decide
  · intro fd gd x hf hg
    unfold entry at hf hg
    rcases fd with _ | _ | _ | fd <;> cases hf <;>
      rcases gd with _ | _ | _ | gd <;> cases hg <;> rfl

/-- `websocksy -k 60` listens at descriptor 3, where the plugin directory was before. -/
theorem main_descriptors_sample :
    let c₀ : Core Unit := .listening (sampleProcess.opendir.closedir 3).openSock 3
    ∃ s, mainStart sampleMain () [ascii "-k", ascii "60"] sampleProcess = some (.loops s c₀) ∧
      coreInit c₀ ∧ ∀ (env : Env Unit) (is : List Input) (c : Core Unit),
        (coreLoop env).Meets LinesInOrder is c₀ → (coreLoop env).exec is c₀ = some c →
        (∀ fd x, sampleProcess.sockAt (some fd) = some x → c.world.sockAt (some fd) = some x) ∧
        (c.loc = .done → ∀ fd, c.world.sockAt (some fd) = sampleProcess.sockAt (some fd)) :=
  ⟨_, rfl, main_descriptors sampleMain () [ascii "-k", ascii "60"] sampleProcess
    sampleProcess_numbered rfl _ rfl⟩

-- a plugin that cannot be attached
example : ∃ s, mainStart (φ := Unit) { sampleMain with objects := ⟨fun _ => none⟩ } () []
    sampleProcess = some (.exits s sampleProcess.opendir) := ⟨_, rfl⟩

end Websocksy

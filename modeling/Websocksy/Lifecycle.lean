import Websocksy.ConfigAgreement
import Websocksy.Main

/-!
# The life of a backend

From the start of `main` to its return, each backend is initialised before any other of its
functions is called, is cleaned up before another one is initialised or `main` returns, and is not
called afterwards (`backend_lives`).  The command line passes over a `-b` whose backend does not
start, which leaves one in use that was cleaned up: there, the backends named must start.
-/

namespace Websocksy

open Buffer CString

variable {φ β : Type}

/-- A call of a function of a backend. -/
inductive BackendUse (β : Type)
  | init (m : β)
  | config (m : β)
  | query (m : β)
  | cleanup (m : β)
  deriving DecidableEq

def BackendCall.use : BackendCall β → BackendUse β
  | .init m => .init m
  | .config m _ _ => .config m
  | .cleanup m => .cleanup m

/-- The backend in use after a call; `none` for a call out of turn: of a backend that is not in use,
or of `init` while one is that has to be cleaned up. -/
def inUse [DecidableEq β] (cleans : β → Bool) : Option β → BackendUse β → Option (Option β)
  | none, .init m => some (some m)
  | some m', .init m => if cleans m' then none else some (some m)
  | some m', .config m => if m = m' then some (some m) else none
  | some m', .query m => if m = m' then some (some m) else none
  | some m', .cleanup m => if m = m' then some none else none
  | none, _ => none

/-- The backend in use after some calls, if none is out of turn. -/
def usedIn [DecidableEq β] (cleans : β → Bool) (uses : List (BackendUse β)) : Option (Option β) :=
  uses.foldlM (inUse cleans) none

/-- The functions are those of the module, of which `cleanup` is there if the module has one. -/
structure WsBackend.Of (cleans : β → Bool) (b : WsBackend β) (m : β) : Prop where
  init : ∀ m' ∈ b.init, m' = m
  config : ∀ m' ∈ b.config, m' = m
  query : ∀ m' ∈ b.query, m' = m
  cleanup : b.cleanup = if cleans m then some m else none

/-- What `dlsym` finds in a module is the module's. -/
def Plugins.OfModules (plugins : Plugins β) (cleans : β → Bool) : Prop :=
  ∀ path b, plugins.dlopen path = some b → ∃ m, b.Of cleans m

/-- Every backend named by `-b` starts when its turn comes. -/
def BackendsStart (plugins : Plugins β) : List Bytes → ConfigRun β → Prop
  | option :: value :: argv, s =>
    (option.head? = some 45 → option.getD 1 0 = 98 → BackendStarts plugins value s) ∧
    BackendsStart plugins argv (configArgument plugins option value s).2
  | _, _ => True

/-- The calls while the configuration is read. -/
def ConfigRun.uses (s : ConfigRun β) : List (BackendUse β) := s.calls.map BackendCall.use

/-- No call was out of turn. -/
def ConfigRun.InTurn [DecidableEq β] (cleans : β → Bool) (s : ConfigRun β) : Prop :=
  ∃ st, usedIn cleans s.uses = some st

/-- The backend that is configured is in use. -/
structure ConfigRun.Lives [DecidableEq β] (cleans : β → Bool) (s : ConfigRun β) (m : β) : Prop where
  used : usedIn cleans s.uses = some (some m)
  backend : s.config.backend.Of cleans m
  query : s.config.backend.query = some m

/-- The calls of `query` in the core loop. -/
def queryUses (backend : WsBackend β) (log : List Event) : List (BackendUse β) :=
  log.flatMap fun
    | .query _ _ _ => (backend.query.map BackendUse.query).toList
    | _ => []

/-- The call of `cleanup` with which `main` ends. -/
def cleanupUses (backend : WsBackend β) : List (BackendUse β) :=
  (backend.cleanup.map BackendUse.cleanup).toList

section

variable [DecidableEq β] {cleans : β → Bool} {plugins : Plugins β} {s s' : ConfigRun β} {m : β}
  {us more : List (BackendUse β)} {b : WsBackend β} {st st' : Option β}

theorem usedIn_append :
    usedIn cleans (us ++ more) = (usedIn cleans us).bind fun st => more.foldlM (inUse cleans) st :=
  List.foldlM_append

/-- One call more. -/
theorem usedIn_concat {u : BackendUse β} (h : usedIn cleans us = some st)
    (hu : inUse cleans st u = some st') : usedIn cleans (us ++ [u]) = some st' := by
  rw [usedIn_append, h]
  show (inUse cleans st u).bind _ = _
  rw [hu]
  rfl

theorem ConfigRun.Lives.inTurn (h : s.Lives cleans m) : s.InTurn cleans := ⟨_, h.used⟩

/-- The call of `cleanup`, if there is one, leaves the backend to be replaced. -/
theorem usedIn_cleanup (h : usedIn cleans us = some (some m)) (hb : b.Of cleans m) :
    ∃ st, usedIn cleans (us ++ cleanupUses b) = some st ∧ ∀ m' ∈ st, cleans m' = false := by
  unfold cleanupUses
  rw [hb.cleanup]
  cases hm : cleans m with
  | false =>
      refine ⟨some m, ?_, ?_⟩
      · simpa using h
      · rintro m' ⟨⟩
        exact hm
  | true =>
      refine ⟨none, ?_, ?_⟩
      · exact usedIn_concat h (if_pos rfl)
      · intro m' hm'
        cases hm'

/-- Another backend is initialised in place of one that was cleaned up, or has no `cleanup`. -/
theorem usedIn_init (h : usedIn cleans us = some st) (hst : ∀ m' ∈ st, cleans m' = false) (m : β) :
    usedIn cleans (us ++ [.init m]) = some (some m) := by
  refine usedIn_concat h ?_
  cases st with
  | none => rfl
  | some m' =>
      have hm' : cleans m' = false := hst m' rfl
      simp [inUse, hm']

/-- The queries go to the backend that is in use. -/
theorem usedIn_queries (h : usedIn cleans us = some (some m)) (hb : b.Of cleans m)
    (log : List Event) : usedIn cleans (us ++ queryUses b log) = some (some m) := by
  induction log using List.reverseRecOn with
  | nil => simpa [queryUses] using h
  | append_singleton log e ih =>
      have hlast : queryUses b (log ++ [e]) = queryUses b log ++ queryUses b [e] :=
        List.flatMap_append
      rw [hlast, ← List.append_assoc]
      have hnone : usedIn cleans ((us ++ queryUses b log) ++ []) = some (some m) := by
        rwa [List.append_nil]
      cases e with
      | query conn host protocol =>
          cases hq : b.query with
          | none => simpa [queryUses, hq] using ih
          | some m' =>
              obtain rfl : m' = m := hb.query m' hq
              have huse : queryUses b [.query conn host protocol] = [.query m'] := by
                simp [queryUses, hq]
              rw [huse]
              exact usedIn_concat ih (if_pos rfl)
      | _ => exact hnone

/-! ## Reading the configuration -/

omit [DecidableEq β] in
/-- The functions that are loaded are those of a module; those that are required are there. -/
theorem pluginBackendLoad_of (hp : plugins.OfModules cleans) (name : Bytes)
    (h : (pluginBackendLoad plugins name b).1 = false) :
    ∃ m, (pluginBackendLoad plugins name b).2.Of cleans m ∧
      (pluginBackendLoad plugins name b).2.init = some m ∧
      (pluginBackendLoad plugins name b).2.query = some m := by
  generalize hload : pluginBackendLoad plugins name b = r at h
  obtain ⟨failed, b'⟩ := r
  cases h
  unfold pluginBackendLoad at hload
  split at hload
  · cases hload
  dsimp only at hload
  split at hload
  · cases hload
  · next hopen =>
    obtain ⟨hsymbols, rfl⟩ := Prod.mk.inj hload
    obtain ⟨m, hm⟩ := hp _ _ hopen
    rw [Bool.or_eq_false_iff, Option.isNone_eq_false_iff, Option.isNone_eq_false_iff] at hsymbols
    obtain ⟨i, hi⟩ := Option.isSome_iff_exists.mp hsymbols.1
    obtain ⟨q, hq⟩ := Option.isSome_iff_exists.mp hsymbols.2
    refine ⟨m, hm, ?_, ?_⟩
    · rw [hi, hm.init i hi]
    · rw [hq, hm.query q hq]

/-- **A line of the configuration** leaves a backend in use, unless it fails. -/
theorem configFileLine_lives (hp : plugins.OfModules cleans) (h : s.Lives cleans m)
    (key value : Bytes) :
    (configFileLine plugins key value s).2.InTurn cleans ∧
      ((configFileLine plugins key value s).1 = false →
        ∃ m', (configFileLine plugins key value s).2.Lives cleans m') := by
  -- the other keys leave the backend and the calls
  have hsame (config : WsConfig β) (hbackend : config.backend = s.config.backend) :
      ConfigRun.InTurn cleans { s with config := config } ∧
        (false = false → ∃ m', ConfigRun.Lives cleans { s with config := config } m') := by
    have hl : ConfigRun.Lives cleans { s with config := config } m :=
      ⟨h.used, hbackend ▸ h.backend, hbackend ▸ h.query⟩
    exact ⟨hl.inTurn, fun _ => ⟨m, hl⟩⟩
  unfold configFileLine
  split
  · exact hsame _ rfl
  split
  · exact hsame _ rfl
  split
  · generalize (strtoul10 value : Int).bmod (2 ^ 64) = ping
    exact hsame { s.config with pingInterval := ping } rfl
  split
  · obtain ⟨st, hst, hclean⟩ := usedIn_cleanup h.used h.backend
    have huses : (s.calls ++ (s.config.backend.cleanup.map BackendCall.cleanup).toList).map
        BackendCall.use = s.uses ++ cleanupUses s.config.backend := by
      rw [List.map_append]
      cases hc : s.config.backend.cleanup <;>
        simp [ConfigRun.uses, cleanupUses, BackendCall.use, hc]
    dsimp only
    cases hload : (pluginBackendLoad plugins value s.config.backend).1 with
    | true =>
        rw [if_pos rfl]
        refine ⟨⟨st, ?_⟩, fun hfalse => by cases hfalse⟩
        rw [ConfigRun.uses, huses]
        exact hst
    | false =>
        obtain ⟨m', hof, hinit, hquery⟩ := pluginBackendLoad_of hp value hload
        rw [if_neg Bool.false_ne_true, hinit]
        have hl : ConfigRun.Lives cleans
            { s with
              config := { s.config with
                backend := (pluginBackendLoad plugins value s.config.backend).2 }
              calls := s.calls ++ (s.config.backend.cleanup.map BackendCall.cleanup).toList ++
                [.init m'] } m' := by
          refine ⟨?_, hof, hquery⟩
          rw [ConfigRun.uses, List.map_append, huses]
          exact usedIn_init hst hclean m'
        exact ⟨hl.inTurn, fun _ => ⟨m', hl⟩⟩
  · exact ⟨h.inTurn, fun _ => ⟨m, h⟩⟩

/-- An option for the backend goes to the one that is in use. -/
theorem ConfigRun.Lives.configure (plugins : Plugins β) (h : s.Lives cleans m) {m' : β}
    (hm' : s.config.backend.config = some m') (key value : Bytes) :
    (s.configure plugins m' key value).2.Lives cleans m := by
  obtain rfl : m' = m := h.backend.config m' hm'
  refine ⟨?_, h.backend, h.query⟩
  show usedIn cleans ((s.calls ++ [BackendCall.config m' key value]).map BackendCall.use) = _
  rw [List.map_append]
  exact usedIn_concat h.used (if_pos rfl)

/-! ## Configuration files -/

theorem configParseLine_lives (hp : plugins.OfModules cleans) (h : s.Lives cleans m) {line : Bytes}
    {configSection configSection' : ConfigFileSection} {failed : Bool}
    (hs : configParseLine plugins line configSection s = some (failed, configSection', s')) :
    s'.InTurn cleans ∧ (failed = false → ∃ m', s'.Lives cleans m') := by
  have hsame : s.InTurn cleans ∧ (failed = false → ∃ m', s.Lives cleans m') :=
    ⟨h.inTurn, fun _ => ⟨m, h⟩⟩
  unfold configParseLine at hs
  split at hs
  · cases hs
    exact hsame
  split at hs
  · cases hs
    exact hsame
  dsimp only at hs
  split at hs
  · cases hs
    exact hsame
  split at hs
  · cases hs
    exact hsame
  · next key value hkey =>
    obtain ⟨r, hr, hrs⟩ := Option.map_eq_some_iff.mp hs
    cases hrs
    cases configSection with
    | cfgMain =>
        cases hr
        exact configFileLine_lives hp h _ _
    | cfgBackend =>
        obtain ⟨m', hm', hr⟩ := Option.map_eq_some_iff.mp hr
        rw [← hr]
        have hl := h.configure plugins hm' (rtrimTail key) (ltrim value)
        exact ⟨hl.inTurn, fun _ => ⟨m, hl⟩⟩

/-- **A configuration file** leaves a backend in use, unless it is rejected. -/
theorem configParseLines_lives (hp : plugins.OfModules cleans) {lines : List Bytes}
    {configSection : ConfigFileSection} {failed : Bool} (h : s.Lives cleans m)
    (hs : configParseLines plugins lines configSection s = some (failed, s')) :
    s'.InTurn cleans ∧ (failed = false → ∃ m', s'.Lives cleans m') := by
  induction lines generalizing s m configSection with
  | nil =>
      cases hs
      exact ⟨h.inTurn, fun _ => ⟨m, h⟩⟩
  | cons line lines ih =>
      rw [configParseLines] at hs
      split at hs
      · cases hs
      · next hline =>
        cases hs
        exact ⟨(configParseLine_lives hp h hline).1, fun hfalse => by cases hfalse⟩
      · next hline =>
        obtain ⟨m', hl⟩ := (configParseLine_lives hp h hline).2 rfl
        exact ih hl hs

/-! ## Arguments -/

/-- The arguments pass over a line that fails; that of a backend must not. -/
theorem configArgument_lives (hp : plugins.OfModules cleans) (h : s.Lives cleans m)
    {option value : Bytes}
    (hstarts : option.head? = some 45 → option.getD 1 0 = 98 → BackendStarts plugins value s) :
    ∃ m', (configArgument plugins option value s).2.Lives cleans m' := by
  have hline (key : Bytes) (hr : (configFileLine plugins key value s).1 = false) :
      ∃ m', (configFileLine plugins key value s).2.Lives cleans m' :=
    (configFileLine_lives hp h key value).2 hr
  unfold configArgument
  split
  · exact ⟨m, h⟩
  · next hdash =>
    dsimp only
    split
    · exact hline _ rfl
    split
    · exact hline _ rfl
    split
    · next hb =>
      have hstarts := hstarts (not_not.mp hdash) hb
      exact hline _ ((configFileLine_backend value).mpr hstarts)
    split
    · exact hline _ rfl
    split
    · split
      · exact ⟨m, h⟩
      · split
        · exact ⟨m, h⟩
        · next hm' => exact ⟨m, h.configure plugins hm' _ _⟩
    · exact ⟨m, h⟩

theorem configArguments_lives (hp : plugins.OfModules cleans) {argv : List Bytes}
    (h : s.Lives cleans m) (hstart : BackendsStart plugins argv s) :
    ∃ m', (configArguments plugins argv s).2.Lives cleans m' := by
  fun_induction configArguments plugins argv s generalizing m
  case case1 option value argv s r hr => exact configArgument_lives hp h hstart.1
  case case2 option value argv s r hr ih =>
    obtain ⟨m', hl⟩ := configArgument_lives hp h hstart.1
    exact ih hl hstart.2
  case case3 => exact ⟨m, h⟩

/-- **The command line** leaves a backend in use, unless it is rejected. -/
theorem configParseArguments_lives (hp : plugins.OfModules cleans) {file : Bytes → Option Bytes}
    {argv : List Bytes} {failed : Bool} (h : s.Lives cleans m)
    (hstart : BackendsStart plugins argv s)
    (hs : configParseArguments plugins file argv s = some (failed, s')) :
    s'.InTurn cleans ∧ (failed = false → ∃ m', s'.Lives cleans m') := by
  have hsame : s.InTurn cleans ∧ (failed = false → ∃ m', s.Lives cleans m') :=
    ⟨h.inTurn, fun _ => ⟨m, h⟩⟩
  unfold configParseArguments at hs
  split at hs
  · next filename =>
    unfold configParseFile at hs
    split at hs
    · cases hs
      exact hsame
    · exact configParseLines_lives hp h hs
  · split at hs
    · cases hs
      exact hsame
    · obtain ⟨m', hl⟩ := configArguments_lives hp h hstart
      rw [Option.some.inj hs] at hl
      exact ⟨hl.inTurn, fun _ => ⟨m', hl⟩⟩

/-! ## `main` -/

/-- The builtin backend, once it was initialised. -/
theorem initialConfig_lives {builtin : β} (hb : cleans builtin = true) :
    ConfigRun.Lives cleans
      { config := initialConfig builtin, calls := [.init builtin] } builtin := by
  refine ⟨rfl, ⟨?_, ?_, ?_, ?_⟩, rfl⟩
  · rintro m' ⟨⟩
    rfl
  · rintro m' ⟨⟩
    rfl
  · rintro m' ⟨⟩
    rfl
  · rw [hb]
    rfl

/-- **The life of a backend**: where the backends named on the command line start, no call of `main`
to a function of a backend is out of turn.  In the core loop the backend that is queried is there
and the one in use, and after the last call of `main` none is in use that has a `cleanup`. -/
theorem backend_lives (cleans : β → Bool) (calls : MainCalls β) (builtin : β) (argv : List Bytes)
    (w : World) (hp : calls.plugins.OfModules cleans) (hb : cleans builtin = true)
    (hstart : BackendsStart calls.plugins argv
      { config := initialConfig builtin, calls := [.init builtin] })
    (r : Started β φ) (hr : mainStart calls builtin argv w = some r) :
    match r with
    | .exits s _ => s.InTurn cleans
    | .loops s c₀ => ∃ m, s.config.backend.query = some m ∧
        ∀ (env : Env φ) (is : List Input) (c : Core φ), (coreLoop env).exec is c₀ = some c →
          let us := s.uses ++ queryUses s.config.backend c.world.log
          usedIn cleans us = some (some m) ∧
          ∃ st, usedIn cleans (us ++ cleanupUses s.config.backend) = some st ∧
            ∀ m' ∈ st, cleans m' = false := by
  have hl : ConfigRun.Lives cleans
      { config := initialConfig builtin, calls := [.init builtin] } builtin :=
    initialConfig_lives hb
  unfold mainStart at hr
  dsimp only at hr
  split at hr
  · cases hr
    exact ⟨none, rfl⟩
  split at hr
  · cases hr
    exact hl.inTurn
  split at hr
  · cases hr
  · next hparse =>
    cases hr
    exact (configParseArguments_lives hp hl hstart hparse).1
  · next s hparse =>
    obtain ⟨hturn, hlives⟩ := configParseArguments_lives hp hl hstart hparse
    split at hr
    · cases hr
      exact hturn
    · cases hr
      obtain ⟨m, hm⟩ := hlives rfl
      refine ⟨m, hm.query, ?_⟩
      intro env is c hs us
      have hqueries : usedIn cleans us = some (some m) :=
        usedIn_queries hm.used hm.backend c.world.log
      exact ⟨hqueries, usedIn_cleanup hqueries hm.backend⟩

end

/-- Any file is a backend, the builtin one apart, and has no `cleanup`. -/
def sampleBackends : MainCalls Bool where
  objects := ⟨fun _ => none⟩
  directory := none
  plugins := {
    path := ascii "/usr/lib"
    dlopen := fun _ => some ⟨some true, some true, some true, none⟩
    init := fun _ _ => 1
    config := fun _ _ _ _ => 0 }
  file _ := none
  sockets _ _ := ⟨some [⟨.inet [1], true, true, true, true⟩], true, true⟩

/-- `websocksy -b file -c path=/srv` -/
theorem backend_lives_sample :
    ∃ s c₀, mainStart (φ := Unit) sampleBackends false
        [ascii "-b", ascii "file", ascii "-c", ascii "path=/srv"] sampleProcess =
          some (.loops s c₀) ∧
      s.uses = [.init false, .cleanup false, .init true, .config true] ∧
      ∃ m, s.config.backend.query = some m ∧
        ∀ (env : Env Unit) (is : List Input) (c : Core Unit), (coreLoop env).exec is c₀ = some c →
          let us := s.uses ++ queryUses s.config.backend c.world.log
          usedIn (! ·) us = some (some m) ∧
          ∃ st, usedIn (! ·) (us ++ cleanupUses s.config.backend) = some st ∧
            ∀ m' ∈ st, (!m') = false :=
  ⟨_, _, rfl, rfl, backend_lives (! ·) sampleBackends false
    [ascii "-b", ascii "file", ascii "-c", ascii "path=/srv"] sampleProcess
    (fun _ b hb => ⟨true, by
      obtain rfl := Option.some.inj hb
      constructor <;> simp⟩)
    rfl ⟨fun _ _ => (configFileLine_backend _).mp rfl, ⟨fun _ h => absurd h (by decide), trivial⟩⟩
    _ rfl⟩

end Websocksy

import Websocksy.Lib.CString
import Mathlib.Data.List.DropRight

/-!
# The configuration: `config.c`, and loading a backend

The modules that can be loaded and what their functions return are the parameter `Plugins`; a
result may depend on the calls before.  `ConfigRun` is the configuration with these calls.
Calling through a NULL pointer is `none`.
-/

namespace Websocksy

open Buffer CString

variable {β : Type}

/-- `WEBSOCKSY_API_VERSION` -/
def websocksyApiVersion : Nat := 1

/-- `MAX_PLUGIN_PATH` -/
def maxPluginPath : Nat := 4096

/-- The function pointers of a backend, by the module they belong to. -/
structure WsBackend (β : Type) where
  init : Option β
  config : Option β
  query : Option β
  cleanup : Option β
  deriving DecidableEq

structure WsConfig (β : Type) where
  host : Option Bytes := none
  port : Option Bytes := none
  pingInterval : Int := 30
  backend : WsBackend β
  deriving DecidableEq

inductive BackendCall (β : Type)
  | init (m : β)
  | config (m : β) (key value : Bytes)
  | cleanup (m : β)
  deriving DecidableEq

/-- The plugins: `PLUGINS`, the modules with the symbols they export, and what their functions
return after the calls that were made. -/
structure Plugins (β : Type) where
  path : Bytes
  dlopen : Bytes → Option (WsBackend β)
  init : List (BackendCall β) → β → Nat
  config : List (BackendCall β) → β → Bytes → Bytes → Nat

structure ConfigRun (β : Type) where
  config : WsConfig β
  calls : List (BackendCall β) := []
  deriving DecidableEq

/-- `plugin_backend_load`, true for a nonzero result.  The functions of the module are in
`backend` also if required ones are missing. -/
def pluginBackendLoad (plugins : Plugins β) (backendRequested : Bytes) (backend : WsBackend β) :
    Bool × WsBackend β :=
  if maxPluginPath - 30 ≤ plugins.path.length ∨ plugins.path.length = 0 then (true, backend)
  else
    let slash := if plugins.path.getLast? = some 47 then [] else [47]
    let pluginPath := plugins.path ++ slash ++ ascii "backend_" ++ backendRequested ++ ascii ".so"
    match plugins.dlopen (pluginPath.take (maxPluginPath - 1)) with
    | none => (true, backend)
    | some backend => (backend.init.isNone || backend.query.isNone, backend)

/-- `config_file_line`, true for a nonzero result. -/
def configFileLine (plugins : Plugins β) (key value : Bytes) (s : ConfigRun β) :
    Bool × ConfigRun β :=
  if key = ascii "port" then (false, { s with config := { s.config with port := some value } })
  else if key = ascii "listen" then
    (false, { s with config := { s.config with host := some value } })
  else if key = ascii "ping" then
    (false, { s with config :=
      { s.config with pingInterval := (strtoul10 value : Int).bmod (2 ^ 64) } })
  else if key = ascii "backend" then
    let calls := s.calls ++ (s.config.backend.cleanup.map BackendCall.cleanup).toList
    let r := pluginBackendLoad plugins value s.config.backend
    let s := { s with config := { s.config with backend := r.2 }, calls := calls }
    if r.1 then (true, s)
    else match s.config.backend.init with
      | none => (true, s)
      | some m =>
        (decide (plugins.init s.calls m ≠ websocksyApiVersion),
          { s with calls := s.calls ++ [.init m] })
  else (false, s)

/-- Calls the `configure` function of the backend; true for a nonzero result. -/
def ConfigRun.configure (plugins : Plugins β) (m : β) (key value : Bytes) (s : ConfigRun β) :
    Bool × ConfigRun β :=
  (decide (plugins.config s.calls m key value ≠ 0),
    { s with calls := s.calls ++ [.config m key value] })

/-! ## Configuration files -/

inductive ConfigFileSection
  | cfgMain
  | cfgBackend
  deriving DecidableEq

/-- Right-trim, up to the first character, which stays. -/
def rtrimTail : Bytes → Bytes
  | [] => []
  | c :: s => c :: s.rdropWhile isspace

/-- A key and a value, in the section. -/
def configSectionLine (plugins : Plugins β) (key value : Bytes) (s : ConfigRun β) :
    ConfigFileSection → Option (Bool × ConfigRun β)
  | .cfgMain => some (configFileLine plugins key value s)
  | .cfgBackend => s.config.backend.config.map fun m => s.configure plugins m key value

/-- One line of a configuration file. -/
def configParseLine (plugins : Plugins β) (line : Bytes) (configSection : ConfigFileSection)
    (s : ConfigRun β) : Option (Bool × ConfigFileSection × ConfigRun β) :=
  if strncmp line (ascii "[core]") then some (false, .cfgMain, s)
  else if strncmp line (ascii "[backend]") then some (false, .cfgBackend, s)
  else
    let line := rtrimTail line
    if line.length ≤ 1 then some (false, configSection, s)
    else match strchr 61 (ltrim (cstr line)) with
      | none => some (false, configSection, s)
      | some (key, value) =>
        (configSectionLine plugins (rtrimTail key) (ltrim value) s configSection).map fun r =>
          (r.1, configSection, r.2)

/-- The loop over the lines, up to one that fails. -/
def configParseLines (plugins : Plugins β) :
    List Bytes → ConfigFileSection → ConfigRun β → Option (Bool × ConfigRun β)
  | [], _, s => some (false, s)
  | line :: lines, configSection, s =>
    match configParseLine plugins line configSection s with
    | none => none
    | some (true, _, s) => some (true, s)
    | some (false, configSection, s) => configParseLines plugins lines configSection s

/-- `config_parse_file`, true for a nonzero result; `content` is there if the file can be opened. -/
def configParseFile (plugins : Plugins β) (content : Option Bytes) (s : ConfigRun β) :
    Option (Bool × ConfigRun β) :=
  match content with
  | none => some (true, s)
  | some content => configParseLines plugins (getLines content) .cfgMain s

/-! ## Arguments -/

/-- One option and its value, true if the arguments are rejected. -/
def configArgument (plugins : Plugins β) (option value : Bytes) (s : ConfigRun β) :
    Bool × ConfigRun β :=
  if option.head? ≠ some 45 then (true, s)
  else
    let o := option.getD 1 0
    if o = 112 then (false, (configFileLine plugins (ascii "port") value s).2)
    else if o = 108 then (false, (configFileLine plugins (ascii "listen") value s).2)
    else if o = 98 then (false, (configFileLine plugins (ascii "backend") value s).2)
    else if o = 107 then (false, (configFileLine plugins (ascii "ping") value s).2)
    else if o = 99 then
      match strchr 61 value with
      | none => (true, s)
      | some (option, value) =>
        match s.config.backend.config with
        | none => (false, s)
        | some m => (false, (s.configure plugins m option value).2)
    else (false, s)

/-- The loop over the options, up to one that is rejected. -/
def configArguments (plugins : Plugins β) : List Bytes → ConfigRun β → Bool × ConfigRun β
  | option :: value :: argv, s =>
    let r := configArgument plugins option value s
    if r.1 then r else configArguments plugins argv r.2
  | _, s => (false, s)

/-- `config_parse_arguments`, true for a nonzero result; `file` gives the contents of the files
that can be opened. -/
def configParseArguments (plugins : Plugins β) (file : Bytes → Option Bytes) (argv : List Bytes)
    (s : ConfigRun β) : Option (Bool × ConfigRun β) :=
  match argv with
  | [filename] => configParseFile plugins (file filename) s
  | argv => if argv.length % 2 ≠ 0 then some (true, s) else some (configArguments plugins argv s)

end Websocksy

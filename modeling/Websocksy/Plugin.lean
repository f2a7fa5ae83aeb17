import Websocksy.Lib.NamedTable
import Websocksy.Unconfigured
import Websocksy.Config

/-!
# `plugin.c`: the framing function library and the plugins that fill it

The directory of plugins and what `dlopen` does are parameters.  A shared object that is attached
registers framing functions when it is loaded, before `dlopen` returns (its constructors).  The
directory takes a descriptor, which stays open where the loading of plugins is given up.

After `main` has registered its own functions and attached the plugins, `plugin_framing` returns for
every name: the function that was registered last under this name, or under "auto" for a name that is
not registered (`framings_registered`).
-/

namespace Websocksy

open Buffer CString

variable {φ : Type}

-- the names and paths of this module are compared with `strcmp`
local instance lawfulNames : LawfulBEq Bytes := inferInstance

/-! ## The framing function library -/

/-- `framing_function_name` and `framing_function`. -/
abbrev FramingTable (φ : Type) := NamedTable Bytes (WsFraming φ)

/-- A name and the function registered under it. -/
abbrev Registration (φ : Type) := Bytes × WsFraming φ

/-- `plugin_register_framing`, called as `core_register_framing` by plugins. -/
def pluginRegisterFraming (name : Bytes) (func : WsFraming φ) (t : FramingTable φ) :
    FramingTable φ := t.set name func

/-- `plugin_framing`, called as `core_framing` by backends.  The fuel bounds the depth to which it
calls itself. -/
def pluginFraming (t : FramingTable φ) : Nat → Option Bytes → Option (WsFraming φ)
  | 0, _ => none
  | fuel + 1, none => pluginFraming t fuel (some (ascii "auto"))
  | fuel + 1, some name =>
    match t.get? name with
    | some func => some func
    | none => pluginFraming t fuel (some (ascii "auto"))

/-! ## Shared objects -/

/-- The shared objects that `dlopen` can load, with what their constructors register. -/
structure SharedObjects (φ : Type) where
  dlopen : Bytes → Option (List (Registration φ))

structure PluginState (φ : Type) where
  table : FramingTable φ := .empty
  attachedLibrary : List Bytes := []

/-- `plugin_attach`, true if it returns NULL.  The constructors of a shared object run when it is
loaded, and not again when it is there already. -/
def pluginAttach (objects : SharedObjects φ) (path : Bytes) (s : PluginState φ) :
    Bool × PluginState φ :=
  match objects.dlopen path with
  | none => (true, s)
  | some registrations =>
    let table :=
      if path ∈ s.attachedLibrary then s.table
      else registrations.foldl (fun t r => pluginRegisterFraming r.1 r.2 t) s.table
    (false, { table := table, attachedLibrary := s.attachedLibrary ++ [path] })

/-- The test for the name of a framing plugin. -/
def isFramingPlugin (name : Bytes) : Bool :=
  !strncmp name (ascii "backend_") && decide (4 ≤ name.length) &&
    name.drop (name.length - 3) == ascii ".so"

/-- The path that `snprintf` makes of a directory and a name. -/
def pluginPath (path name : Bytes) : Bytes :=
  (path ++ (if path.getLast? = some 47 then [] else [47]) ++ name).take (maxPluginPath - 1)

/-- The loop over the directory, true if a shared object cannot be attached. -/
def pluginFramingLoop (objects : SharedObjects φ) (path : Bytes) :
    List Bytes → PluginState φ → Bool × PluginState φ
  | [], s => (false, s)
  | name :: names, s =>
    if isFramingPlugin name then
      let r := pluginAttach objects (pluginPath path name) s
      if r.1 then r else pluginFramingLoop objects path names r.2
    else pluginFramingLoop objects path names s

/-- `opendir`: the directory is at the lowest-numbered free descriptor. -/
def World.opendir (w : World) : World :=
  { w with fds := FdTable.install w.fds w.socks, socks := w.socks + 1 }

/-- `closedir` -/
def World.closedir (w : World) (fd : Nat) : World := { w with fds := FdTable.release w.fds fd }

/-- `plugin_framing_load`, true for a nonzero result; `directory` is what `readdir` gives, if
`opendir` succeeds. -/
def pluginFramingLoad (objects : SharedObjects φ) (path : Bytes) (directory : Option (List Bytes))
    (s : PluginState φ) (w : World) : Bool × PluginState φ × World :=
  let opened := if directory.isSome then w.opendir else w
  if maxPluginPath - 20 ≤ path.length ∨ path.length = 0 then (true, s, opened)
  else match directory with
    | none => (false, s, opened)
    | some names =>
      let r := pluginFramingLoop objects path names s
      if r.1 then (true, r.2, opened) else (false, r.2, opened.closedir (FdTable.lowest w.fds))

/-- `plugin_cleanup`: the library is empty again, and everything attached is handed to `dlclose`. -/
def pluginCleanup (s : PluginState φ) : List Bytes × PluginState φ :=
  (s.attachedLibrary, { table := .empty, attachedLibrary := [] })

/-- What `main` registers before it loads plugins. -/
def builtinFramings : List (Registration FramingState) :=
  [(ascii "auto", framingAuto), (ascii "binary", framingBinary),
    (ascii "separator", separatorAmong), (ascii "newline", newlineAmong)]

/-- The first steps of `main`, true if it exits there. -/
def mainFramings (objects : SharedObjects FramingState) (path : Bytes)
    (directory : Option (List Bytes)) (w : World) : Bool × PluginState FramingState × World :=
  let table := builtinFramings.foldl (fun t r => pluginRegisterFraming r.1 r.2 t) .empty
  pluginFramingLoad objects path directory { table := table } w

/-! ## The library as a function of names -/

/-- The function that was registered last under the name, or else under "auto". -/
def lastRegistered (l : List (Registration φ)) (name : Option Bytes) : Option (WsFraming φ) :=
  (name.bind fun name => l.reverse.lookup name).or (l.reverse.lookup (ascii "auto"))

section

variable {t : FramingTable φ} {l : List (Registration φ)} {name : Option Bytes} {f : WsFraming φ}

/-- A registered name is found at once, any other by way of "auto". -/
theorem pluginFraming_iff :
    (∃ fuel, pluginFraming t fuel name = some f) ↔
      (name.bind t.get?).or (t.get? (ascii "auto")) = some f := by
  -- "auto" is found, or asked for again and again
  have hauto (fuel : Nat) : pluginFraming t (fuel + 1) (some (ascii "auto")) =
      t.get? (ascii "auto") := by
    induction fuel with
    | zero =>
        unfold pluginFraming
        cases t.get? (ascii "auto") <;> rfl
    | succ fuel ih =>
        rw [pluginFraming]
        cases h : t.get? (ascii "auto") with
        | some g => rfl
        | none =>
            rw [h] at ih
            exact ih
  have hasked (fuel : Nat) : pluginFraming t (fuel + 2) name =
      (name.bind t.get?).or (t.get? (ascii "auto")) := by
    cases name with
    | none =>
        rw [pluginFraming, hauto]
        rfl
    | some n =>
        rw [pluginFraming, hauto]
        show _ = (t.get? n).or (t.get? (ascii "auto"))
        cases t.get? n <;> rfl
  constructor
  · rintro ⟨fuel, h⟩
    rcases fuel with _ | _ | fuel
    · cases h
    · cases name with
      | none => cases h
      | some n =>
          rw [pluginFraming] at h
          show (t.get? n).or (t.get? (ascii "auto")) = some f
          cases hn : t.get? n with
          | none =>
              rw [hn] at h
              cases h
          | some g =>
              rw [hn] at h
              exact h
    · rw [hasked] at h
      exact h
  · intro h
    refine ⟨2, ?_⟩
    rw [hasked 0]
    exact h

/-- A library has an answer to every name. -/
theorem FramingLibrary.framing_total (l : FramingLibrary φ) (name : Option Bytes) :
    ∃ f, l.framing name = some f := by
  unfold FramingLibrary.framing
  split
  · next f _ => exact ⟨f, rfl⟩
  · exact l.auto

/-- The table as the library that backends ask. -/
def FramingTable.library (t : FramingTable φ) (h : t.get? (ascii "auto") ≠ none) :
    FramingLibrary φ where
  functions := t.names.zip t.values
  auto := by
    rw [NamedTable.lookup_zip]
    exact Option.ne_none_iff_exists'.mp h

/-- **The library answers as `plugin_framing` does.** -/
theorem library_framing (h : t.get? (ascii "auto") ≠ none) :
    (t.library h).framing name = some f ↔ ∃ fuel, pluginFraming t fuel name = some f := by
  rw [pluginFraming_iff]
  have hlookup (n : Bytes) : (t.library h).functions.lookup n = t.get? n :=
    NamedTable.lookup_zip t n
  unfold FramingLibrary.framing
  cases name with
  | none =>
      rw [hlookup]
      rfl
  | some n =>
      show (match (t.library h).functions.lookup n with
        | some f => some f
        | none => (t.library h).functions.lookup (ascii "auto")) = some f ↔ _
      rw [hlookup, hlookup]
      show _ ↔ (t.get? n).or _ = some f
      cases t.get? n <;> rfl

/-! ## Loading plugins -/

/-- What the constructors of shared objects register that are attached in this order. -/
def constructed (objects : SharedObjects φ) (paths : List Bytes) : List (Registration φ) :=
  paths.eraseDups.flatMap fun path => (objects.dlopen path).getD []

/-- The table is the one at the start and what the attached objects registered. -/
def PluginState.LoadedFrom (objects : SharedObjects φ) (t : FramingTable φ) (s : PluginState φ) :
    Prop := s.table = t.setAll (constructed objects s.attachedLibrary)

/-- The shared objects for the framing plugins in a directory. -/
def framingPaths (path : Bytes) (names : List Bytes) : List Bytes :=
  (names.filter isFramingPlugin).map (pluginPath path)

variable {objects : SharedObjects φ} {path : Bytes} {s : PluginState φ}

/-- An object that is attached once more registers nothing. -/
theorem constructed_concat (paths : List Bytes) (path : Bytes) :
    constructed objects (paths ++ [path]) = constructed objects paths ++
      if path ∈ paths then [] else (objects.dlopen path).getD [] := by
  unfold constructed
  rw [List.eraseDups_append, List.flatMap_append]
  congr 1
  by_cases h : path ∈ paths
  · simp [List.removeAll, h]
  · have hone : [path].eraseDups = [path] := rfl
    simp [List.removeAll, h, hone]

/-- One shared object. -/
theorem pluginAttach_loaded (path : Bytes) (h : s.LoadedFrom objects t) :
    (pluginAttach objects path s).2.LoadedFrom objects t ∧
      ((pluginAttach objects path s).1 = true ↔ objects.dlopen path = none) ∧
      ((pluginAttach objects path s).1 = false →
        (pluginAttach objects path s).2.attachedLibrary = s.attachedLibrary ++ [path]) := by
  unfold pluginAttach
  cases hopen : objects.dlopen path with
  | none => exact ⟨h, by simp, by simp⟩
  | some registrations =>
      refine ⟨?_, by simp, fun _ => rfl⟩
      unfold PluginState.LoadedFrom at h ⊢
      dsimp only
      rw [constructed_concat, NamedTable.setAll_append, ← h]
      split
      · rfl
      · rw [hopen]
        rfl

/-- **The loop over the directory** attaches every framing plugin, or stops at one that cannot be
attached. -/
theorem pluginFramingLoop_loaded (path : Bytes) (names : List Bytes) (h : s.LoadedFrom objects t) :
    (pluginFramingLoop objects path names s).2.LoadedFrom objects t ∧
      ((pluginFramingLoop objects path names s).1 = false ↔
        ∀ p ∈ framingPaths path names, objects.dlopen p ≠ none) ∧
      ((pluginFramingLoop objects path names s).1 = false →
        (pluginFramingLoop objects path names s).2.attachedLibrary =
          s.attachedLibrary ++ framingPaths path names) := by
  induction names generalizing s with
  | nil => exact ⟨h, by simp [pluginFramingLoop, framingPaths], by simp [pluginFramingLoop, framingPaths]⟩
  | cons name names ih =>
      unfold pluginFramingLoop
      by_cases hplugin : isFramingPlugin name
      · have hpaths : framingPaths path (name :: names) =
            pluginPath path name :: framingPaths path names := by
          simp [framingPaths, hplugin]
        obtain ⟨hloaded, hnull, hattached⟩ := pluginAttach_loaded (pluginPath path name) h
        rw [if_pos hplugin, hpaths]
        cases hr : (pluginAttach objects (pluginPath path name) s).1 with
        | true =>
            dsimp only
            rw [if_pos hr, hr]
            refine ⟨hloaded, ?_, by simp⟩
            have hnone := hnull.mp hr
            simp [hnone]
        | false =>
            dsimp only
            rw [if_neg (by simp [hr])]
            obtain ⟨hrest, hiff, hall⟩ := ih hloaded
            refine ⟨hrest, ?_, ?_⟩
            · have hopen : objects.dlopen (pluginPath path name) ≠ none := by
                intro hnone
                rw [hnull.mpr hnone] at hr
                cases hr
              rw [hiff, List.forall_mem_cons]
              exact ⟨fun hp => ⟨hopen, hp⟩, fun hp => hp.2⟩
            · intro hdone
              rw [hall hdone, hattached hr, List.append_assoc, List.singleton_append]
      · have hpaths : framingPaths path (name :: names) = framingPaths path names := by
          simp [framingPaths, hplugin]
        rw [if_neg hplugin, hpaths]
        exact ih h

end

/-- The directory of plugins is read: its path is neither empty nor too long. -/
def PluginPathFits (path : Bytes) : Prop := path ≠ [] ∧ path.length < maxPluginPath - 20

section

variable (objects : SharedObjects FramingState) (path : Bytes) (directory : Option (List Bytes))
  (w : World)

/-- **What `plugin_framing_load` comes to** in `main`. -/
theorem mainFramings_loaded :
    let r := mainFramings objects path directory w
    r.2.1.LoadedFrom objects (NamedTable.setAll .empty builtinFramings) ∧
    (r.1 = false ↔ PluginPathFits path ∧
      ∀ p ∈ framingPaths path (directory.getD []), objects.dlopen p ≠ none) ∧
    (r.1 = false → r.2.1.attachedLibrary = framingPaths path (directory.getD [])) := by
  have hbuiltin : (builtinFramings.foldl (fun t r => pluginRegisterFraming r.1 r.2 t)
      (.empty : FramingTable FramingState)) = NamedTable.setAll .empty builtinFramings := rfl
  have hstart : (PluginState.mk (NamedTable.setAll .empty builtinFramings) []).LoadedFrom objects
      (NamedTable.setAll .empty builtinFramings) := rfl
  unfold mainFramings pluginFramingLoad
  dsimp only
  rw [hbuiltin]
  by_cases hpath : maxPluginPath - 20 ≤ path.length ∨ path.length = 0
  · rw [if_pos hpath]
    refine ⟨hstart, ?_, by simp⟩
    simp only [Bool.true_eq_false, false_iff, not_and]
    rintro ⟨hne, hlt⟩
    rcases hpath with hpath | hpath
    · omega
    · exact absurd (List.length_eq_zero_iff.mp hpath) hne
  · rw [if_neg hpath]
    have hfits : PluginPathFits path := by
      refine ⟨?_, by omega⟩
      rintro rfl
      exact hpath (.inr rfl)
    cases directory with
    | none => exact ⟨hstart, by simp [hfits, framingPaths], by simp [framingPaths]⟩
    | some names =>
        obtain ⟨hloaded, hiff, hall⟩ := pluginFramingLoop_loaded path names hstart
        dsimp only
        generalize pluginFramingLoop objects path names _ = r at hloaded hiff hall
        cases hr : r.1 with
        | true =>
            rw [if_pos rfl]
            rw [hr] at hiff
            exact ⟨hloaded, by simpa [hfits] using hiff, by simp⟩
        | false =>
            rw [if_neg Bool.false_ne_true]
            rw [hr] at hiff
            exact ⟨hloaded, by simpa [hfits] using hiff, fun _ => hall hr⟩

/-- **The descriptor of the directory** is left where `main` exits; else the descriptors are the same. -/
theorem mainFramings_world (hn : FdTable.Numbered w.fds w.socks) :
    let r := mainFramings objects path directory w
    (r.1 = true ∧ directory.isSome = true → r.2.2 = w.opendir) ∧
    (¬(r.1 = true ∧ directory.isSome = true) →
      ∀ fd, r.2.2.sockAt (some fd) = w.sockAt (some fd)) ∧
    FdTable.Numbered r.2.2.fds r.2.2.socks ∧ r.2.2.log = w.log := by
  unfold mainFramings pluginFramingLoad
  dsimp only
  cases directory with
  | none =>
      split
      · exact ⟨fun h => (by cases h.2), fun _ _ => rfl, hn, rfl⟩
      · exact ⟨fun h => (by cases h.1), fun _ _ => rfl, hn, rfl⟩
  | some names =>
      dsimp only
      have hopened : (if (some names).isSome = true then w.opendir else w) = w.opendir := rfl
      rw [hopened]
      split
      · exact ⟨fun _ => rfl, fun h => absurd ⟨rfl, rfl⟩ h, hn.install, rfl⟩
      · split
        · exact ⟨fun _ => rfl, fun h => absurd ⟨rfl, rfl⟩ h, hn.install, rfl⟩
        · refine ⟨fun h => (by cases h.1), fun _ fd => ?_, hn.install.release _, rfl⟩
          show FdTable.entry (FdTable.release (FdTable.install w.fds w.socks) _) fd = _
          rw [FdTable.entry_release, FdTable.entry_install]
          split
          · next hfd =>
            rw [hfd]
            exact (FdTable.entry_lowest w.fds).symm
          · rfl

/-- **The functions that `main` starts with**: it comes through just if every framing plugin of the
directory can be attached, which are then attached in their order.  In any case `plugin_framing`
returns for every name: what was registered last under this name or, if there is nothing, under
"auto", as the library does that backends ask. -/
theorem framings_registered (objects : SharedObjects FramingState) (path : Bytes)
    (directory : Option (List Bytes)) (w : World) :
    let r := mainFramings objects path directory w
    let paths := framingPaths path (directory.getD [])
    (r.1 = false ↔ PluginPathFits path ∧ ∀ p ∈ paths, objects.dlopen p ≠ none) ∧
    (r.1 = false → r.2.1.attachedLibrary = paths) ∧
    (∀ name f, (∃ fuel, pluginFraming r.2.1.table fuel name = some f) ↔
      lastRegistered (builtinFramings ++ constructed objects r.2.1.attachedLibrary) name = some f) ∧
    ∃ library : FramingLibrary FramingState, ∀ name, ∃ f, library.framing name = some f ∧
      ∃ fuel, pluginFraming r.2.1.table fuel name = some f := by
  obtain ⟨hloaded, hiff, hall⟩ := mainFramings_loaded objects path directory w
  dsimp only
  generalize mainFramings objects path directory w = r at hloaded hiff hall
  have hget (name : Bytes) : r.2.1.table.get? name =
      (builtinFramings ++ constructed objects r.2.1.attachedLibrary).reverse.lookup name := by
    rw [hloaded, ← NamedTable.setAll_append, NamedTable.get?_setAll]
    simp
  have hauto : r.2.1.table.get? (ascii "auto") ≠ none := by
    rw [hget, List.reverse_append, List.lookup_append]
    have hbuiltin : builtinFramings.reverse.lookup (ascii "auto") = some framingAuto := rfl
    rw [hbuiltin]
    cases (constructed objects r.2.1.attachedLibrary).reverse.lookup (ascii "auto") <;> simp
  refine ⟨hiff, hall, ?_, r.2.1.table.library hauto, ?_⟩
  · intro name f
    rw [pluginFraming_iff]
    unfold lastRegistered
    rw [hget]
    cases name with
    | none => exact Iff.rfl
    | some n =>
        show (r.2.1.table.get? n).or _ = _ ↔ _
        rw [hget]
        rfl
  · intro name
    obtain ⟨f, hf⟩ := (r.2.1.table.library hauto).framing_total name
    exact ⟨f, hf, (library_framing hauto).mp hf⟩

end

end Websocksy

import Websocksy.Config

/-!
# Command line and configuration file

A list of options is given as arguments, or written into a configuration file with a header
ahead of each.  The two agree if both are accepted with the same configuration and the same calls
of the backends, or both rejected.  They do as long as no option fails and the backend has a
`configure` function when it is given an option: the arguments do not look at what an option
returns, and the file does not look whether there is such a function.
-/

namespace Websocksy

open Buffer CString

variable {β : Type}

/-! ## Options -/

/-- No blank stands at either end. -/
def Trimmed (s : Bytes) : Prop :=
  s.head?.any isspace = false ∧ s.getLast?.any isspace = false

instance (s : Bytes) : Decidable (Trimmed s) := inferInstanceAs (Decidable (_ ∧ _))

/-- A string that stands on one line and has no blanks around it. -/
def OnLine (s : Bytes) : Prop := 0 ∉ s ∧ 10 ∉ s ∧ Trimmed s

instance (s : Bytes) : Decidable (OnLine s) := inferInstanceAs (Decidable (_ ∧ _))

abbrev OptionValue := {v : Bytes // OnLine v}

abbrev OptionKey := {k : Bytes // OnLine k ∧ 61 ∉ k}

inductive ConfigOption
  | port (value : OptionValue)
  | listen (value : OptionValue)
  | ping (value : OptionValue)
  | backend (value : OptionValue)
  | backendOption (key : OptionKey) (value : OptionValue)

def ConfigOption.arguments : ConfigOption → List Bytes
  | .port value => [ascii "-p", value.val]
  | .listen value => [ascii "-l", value.val]
  | .ping value => [ascii "-k", value.val]
  | .backend value => [ascii "-b", value.val]
  | .backendOption key value => [ascii "-c", key.val ++ 61 :: value.val]

/-- The header for an option, and the line of the option. -/
def ConfigOption.lines : ConfigOption → List Bytes
  | .port value => [ascii "[core]", ascii "port" ++ 61 :: value.val]
  | .listen value => [ascii "[core]", ascii "listen" ++ 61 :: value.val]
  | .ping value => [ascii "[core]", ascii "ping" ++ 61 :: value.val]
  | .backend value => [ascii "[core]", ascii "backend" ++ 61 :: value.val]
  | .backendOption key value => [ascii "[backend]", key.val ++ 61 :: value.val]

/-- The configuration file with the options. -/
def configText (options : List ConfigOption) : Bytes :=
  (options.flatMap ConfigOption.lines).flatMap (· ++ [10])

/-- Both ways accept with the same configuration and calls, or both reject. -/
def ConfigsAgree (plugins : Plugins β) (file : Bytes → Option Bytes) (options : List ConfigOption)
    (s : ConfigRun β) : Prop :=
  ∃ fromArguments fromFile,
    configParseArguments plugins file (options.flatMap ConfigOption.arguments) s =
      some fromArguments ∧
    configParseFile plugins (some (configText options)) s = some fromFile ∧
    fromArguments.1 = fromFile.1 ∧ (fromArguments.1 = false → fromArguments.2 = fromFile.2)

/-! ## The condition -/

/-- The backend can be loaded and has the version. -/
def BackendStarts (plugins : Plugins β) (name : Bytes) (s : ConfigRun β) : Prop :=
  (pluginBackendLoad plugins name s.config.backend).1 = false ∧
    ∀ m ∈ (pluginBackendLoad plugins name s.config.backend).2.init,
      plugins.init (s.calls ++ (s.config.backend.cleanup.map BackendCall.cleanup).toList) m =
        websocksyApiVersion

/-- A line that the file passes over: one that looks like a header, and a lone `=`. -/
def PassedOver (key value : Bytes) : Prop :=
  strncmp key (ascii "[core]") = true ∨ strncmp key (ascii "[backend]") = true ∨
    (key = [] ∧ value = [])

/-- What an option needs: a backend starts; an option that the file does not pass over is for a
backend with a `configure` function, which takes it, and one that it passes over for a backend
without. -/
def OptionTaken (plugins : Plugins β) (s : ConfigRun β) : ConfigOption → Prop
  | .backend value => BackendStarts plugins value.val s
  | .backendOption key value =>
      match s.config.backend.config with
      | none => PassedOver key.val value.val
      | some m =>
          ¬PassedOver key.val value.val ∧ plugins.config s.calls m key.val value.val = 0
  | _ => True

/-- What the arguments of an option do. -/
def argumentsStep (plugins : Plugins β) (s : ConfigRun β) : ConfigOption → ConfigRun β
  | .port value => (configFileLine plugins (ascii "port") value s).2
  | .listen value => (configFileLine plugins (ascii "listen") value s).2
  | .ping value => (configFileLine plugins (ascii "ping") value s).2
  | .backend value => (configFileLine plugins (ascii "backend") value s).2
  | .backendOption key value =>
      match s.config.backend.config with
      | none => s
      | some m => (s.configure plugins m key.val value.val).2

/-- Every option has what it needs when its turn comes. -/
def OptionsTaken (plugins : Plugins β) : List ConfigOption → ConfigRun β → Prop
  | [], _ => True
  | o :: options, s => OptionTaken plugins s o ∧ OptionsTaken plugins options (argumentsStep plugins s o)

section

variable {plugins : Plugins β} {s : ConfigRun β} {key value : Bytes}

/-! ## Lines of a file -/

theorem rtrimTail_trimmed {k : Bytes} (h : k.getLast?.any isspace = false) : rtrimTail k = k := by
  cases k with
  | nil => rfl
  | cons c k =>
      rw [rtrimTail, List.rdropWhile_eq_self_iff.mpr]
      intro hne
      rw [List.getLast?_cons_of_ne_nil hne, List.getLast?_eq_getLast_of_ne_nil hne] at h
      simpa using h

theorem ltrim_trimmed {v : Bytes} (h : v.head?.any isspace = false) : ltrim v = v := by
  cases v with
  | nil => rfl
  | cons c v =>
      have hc : isspace c = false := by simpa using h
      simp [ltrim, hc]

/-- A literal without `=` is looked for in the key alone. -/
theorem strncmp_key {lit : Bytes} (hlit : 61 ∉ lit) (rest : Bytes) :
    strncmp (key ++ 61 :: rest) lit = strncmp key lit := by
  unfold strncmp
  induction lit generalizing key with
  | nil => simp
  | cons c lit ih =>
      rw [List.mem_cons, not_or] at hlit
      cases key with
      | nil =>
          have hc : (c == 61) = false := beq_false_of_ne fun e => hlit.1 e.symm
          show (c == 61 && _) = false
          rw [hc, Bool.false_and]
      | cons k key =>
          rw [List.cons_append, List.isPrefixOf_cons_cons, List.isPrefixOf_cons_cons, ih hlit.2]

/-- The end of the line does not belong to the option. -/
theorem rtrimTail_option (hv : Trimmed value) :
    rtrimTail (key ++ 61 :: value ++ [10]) = key ++ 61 :: value := by
  have hlast : (61 :: value).getLast?.any isspace = false := by
    cases value with
    | nil => rfl
    | cons c v =>
        rw [List.getLast?_cons_of_ne_nil (List.cons_ne_nil c v)]
        exact hv.2
  cases key with
  | nil =>
      rw [List.nil_append, List.cons_append, rtrimTail, List.rdropWhile_concat_pos _ _ _ rfl]
      exact rtrimTail_trimmed hlast
  | cons c k =>
      have htail : (c :: k ++ 61 :: value).getLast?.any isspace = false := by
        rwa [List.getLast?_append_of_ne_nil _ (List.cons_ne_nil 61 value)]
      rw [List.cons_append, List.cons_append, rtrimTail, List.rdropWhile_concat_pos _ _ _ rfl]
      exact rtrimTail_trimmed htail

instance (key value : Bytes) : Decidable (PassedOver key value) :=
  inferInstanceAs (Decidable (_ ∨ _))

/-- **The line of an option** is taken for its key and its value in the section. -/
theorem configParseLine_option (hk : OnLine key ∧ 61 ∉ key) (hv : OnLine value)
    (hp : ¬PassedOver key value) (configSection : ConfigFileSection) :
    configParseLine plugins (key ++ 61 :: value ++ [10]) configSection s =
      (configSectionLine plugins key value s configSection).map fun r =>
        (r.1, configSection, r.2) := by
  obtain ⟨⟨hnul, -, hfirst, hlast⟩, heq⟩ := hk
  obtain ⟨hnulv, -, hv⟩ := hv
  rw [PassedOver, not_or, not_or] at hp
  have hassoc : key ++ 61 :: value ++ [10] = key ++ 61 :: (value ++ [10]) := by simp
  have hcore : ¬strncmp (key ++ 61 :: value ++ [10]) (ascii "[core]") = true := by
    rw [hassoc, strncmp_key (by decide)]
    exact hp.1
  have hbackend : ¬strncmp (key ++ 61 :: value ++ [10]) (ascii "[backend]") = true := by
    rw [hassoc, strncmp_key (by decide)]
    exact hp.2.1
  have hlong : ¬(key ++ 61 :: value).length ≤ 1 := by
    rw [List.length_append, List.length_cons]
    intro h
    exact hp.2.2 ⟨List.length_eq_zero_iff.mp (by omega), List.length_eq_zero_iff.mp (by omega)⟩
  have hcstr : cstr (key ++ 61 :: value) = key ++ 61 :: value := by
    refine cstr_eq_self _ ?_
    simp [hnul, hnulv]
  have hltrim : ltrim (key ++ 61 :: value) = key ++ 61 :: value := by
    refine ltrim_trimmed ?_
    cases key with
    | nil => rfl
    | cons c k => exact hfirst
  unfold configParseLine
  rw [if_neg hcore, if_neg hbackend]
  simp only [rtrimTail_option hv, if_neg hlong, hcstr, hltrim, strchr_append heq,
    rtrimTail_trimmed hlast, ltrim_trimmed hv.1]

theorem configParseLine_passedOver (hv : OnLine value) (hp : PassedOver key value)
    (configSection : ConfigFileSection) :
    ∃ sec, configParseLine plugins (key ++ 61 :: value ++ [10]) configSection s =
      some (false, sec, s) := by
  have hassoc : key ++ 61 :: value ++ [10] = key ++ 61 :: (value ++ [10]) := by simp
  unfold configParseLine
  split
  · exact ⟨_, rfl⟩
  next hcore =>
  split
  · exact ⟨_, rfl⟩
  next hbackend =>
  rw [hassoc, strncmp_key (by decide)] at hcore hbackend
  rcases hp with h | h | ⟨rfl, rfl⟩
  · exact absurd h hcore
  · exact absurd h hbackend
  · exact ⟨_, rfl⟩

/-! ## One option -/

/-- What the lines of an option do. -/
def fileStep (plugins : Plugins β) (s : ConfigRun β) : ConfigOption → Option (Bool × ConfigRun β)
  | .port value => some (configFileLine plugins (ascii "port") value s)
  | .listen value => some (configFileLine plugins (ascii "listen") value s)
  | .ping value => some (configFileLine plugins (ascii "ping") value s)
  | .backend value => some (configFileLine plugins (ascii "backend") value s)
  | .backendOption key value =>
      if PassedOver key.val value.val then some (false, s)
      else s.config.backend.config.map fun m => s.configure plugins m key.val value.val

/-- The lines of an option in front of others. -/
theorem configParseLines_option (o : ConfigOption) (lines : List Bytes)
    (configSection : ConfigFileSection) :
    ∃ sec, configParseLines plugins (o.lines.map (· ++ [10]) ++ lines) configSection s =
      match fileStep plugins s o with
      | none => none
      | some (true, s) => some (true, s)
      | some (false, s) => configParseLines plugins lines sec s := by
  -- the header sets the section
  have hheader (key value : Bytes) (header : Bytes) (sec : ConfigFileSection)
      (hh : configParseLine plugins (header ++ [10]) configSection s = some (false, sec, s)) :
      configParseLines plugins ([header, key ++ 61 :: value].map (· ++ [10]) ++ lines)
          configSection s =
        configParseLines plugins ((key ++ 61 :: value ++ [10]) :: lines) sec s := by
    rw [List.map_cons, List.map_singleton, List.cons_append, configParseLines]
    simp only [hh]
    rfl
  have hmain (key : Bytes) (value : OptionValue) (hk : OnLine key ∧ 61 ∉ key)
      (hp : ¬PassedOver key value.val) (hh : o.lines = [ascii "[core]", key ++ 61 :: value.val])
      (hs : fileStep plugins s o = some (configFileLine plugins key value.val s)) :
      ∃ sec, configParseLines plugins (o.lines.map (· ++ [10]) ++ lines) configSection s =
        match fileStep plugins s o with
        | none => none
        | some (true, s) => some (true, s)
        | some (false, s) => configParseLines plugins lines sec s := by
    refine ⟨.cfgMain, ?_⟩
    rw [hh, hs, hheader key value.val _ .cfgMain rfl, configParseLines,
      configParseLine_option hk value.property hp, configSectionLine]
    rcases configFileLine plugins key value.val s with ⟨_ | _, s'⟩ <;> rfl
  cases o with
  | port value =>
      exact hmain (ascii "port") value (by decide) (by simp [PassedOver, ascii, strncmp]) rfl rfl
  | listen value =>
      exact hmain (ascii "listen") value (by decide) (by simp [PassedOver, ascii, strncmp]) rfl rfl
  | ping value =>
      exact hmain (ascii "ping") value (by decide) (by simp [PassedOver, ascii, strncmp]) rfl rfl
  | backend value =>
      exact hmain (ascii "backend") value (by decide) (by simp [PassedOver, ascii, strncmp]) rfl rfl
  | backendOption key value =>
      rw [ConfigOption.lines, hheader key.val value.val _ .cfgBackend rfl, configParseLines, fileStep]
      by_cases hp : PassedOver key.val value.val
      · obtain ⟨sec, hsec⟩ := configParseLine_passedOver
          value.property hp .cfgBackend
        refine ⟨sec, ?_⟩
        rw [hsec, if_pos hp]
      · refine ⟨.cfgBackend, ?_⟩
        rw [configParseLine_option key.property value.property hp, if_neg hp, configSectionLine]
        cases s.config.backend.config with
        | none => rfl
        | some m =>
            simp only [Option.map_some]
            rcases s.configure plugins m key.val value.val with ⟨_ | _, s'⟩ <;> rfl

/-- The arguments of an option in front of others are never rejected. -/
theorem configArguments_option (o : ConfigOption) (argv : List Bytes) :
    configArguments plugins (o.arguments ++ argv) s =
      configArguments plugins argv (argumentsStep plugins s o) := by
  have hnext (option value : Bytes) (ho : o.arguments = [option, value])
      (h : configArgument plugins option value s = (false, argumentsStep plugins s o)) :
      configArguments plugins (o.arguments ++ argv) s =
        configArguments plugins argv (argumentsStep plugins s o) := by
    rw [ho]
    simp only [List.cons_append, List.nil_append, configArguments, h, Bool.false_eq_true, if_false]
  cases o with
  | port value =>
      have ho : ascii "-p" = [45, 112] := by decide
      exact hnext _ _ rfl (by simp [configArgument, argumentsStep, ho])
  | listen value =>
      have ho : ascii "-l" = [45, 108] := by decide
      exact hnext _ _ rfl (by simp [configArgument, argumentsStep, ho])
  | ping value =>
      have ho : ascii "-k" = [45, 107] := by decide
      exact hnext _ _ rfl (by simp [configArgument, argumentsStep, ho])
  | backend value =>
      have ho : ascii "-b" = [45, 98] := by decide
      exact hnext _ _ rfl (by simp [configArgument, argumentsStep, ho])
  | backendOption key value =>
      have ho : ascii "-c" = [45, 99] := by decide
      refine hnext _ _ rfl ?_
      cases hconf : s.config.backend.config with
      | none => simp [configArgument, argumentsStep, ho, strchr_append key.property.2, hconf]
      | some m => simp [configArgument, argumentsStep, ho, strchr_append key.property.2, hconf]

/-! ## Steps that agree -/

theorem configFileLine_backend (name : Bytes) :
    (configFileLine plugins (ascii "backend") name s).1 = false ↔ BackendStarts plugins name s := by
  have hport : ¬ascii "backend" = ascii "port" := by decide
  have hlisten : ¬ascii "backend" = ascii "listen" := by decide
  have hping : ¬ascii "backend" = ascii "ping" := by decide
  unfold configFileLine BackendStarts
  rw [if_neg hport, if_neg hlisten, if_neg hping, if_pos rfl]
  generalize hload : pluginBackendLoad plugins name s.config.backend = r
  obtain ⟨failed, backend⟩ := r
  cases failed with
  | true => simp
  | false =>
      cases hinit : backend.init with
      | none =>
          -- a backend that is loaded has the symbol
          exfalso
          unfold pluginBackendLoad at hload
          split at hload
          · cases hload
          dsimp only at hload
          split at hload
          · cases hload
          · obtain ⟨hsymbols, rfl⟩ := Prod.mk.inj hload
            rw [hinit] at hsymbols
            cases hsymbols
      | some m => simp [hinit]

/-- **An option that is taken** does the same in the file. -/
theorem fileStep_taken {o : ConfigOption} (h : OptionTaken plugins s o) :
    fileStep plugins s o = some (false, argumentsStep plugins s o) := by
  cases o with
  | port value => rfl
  | listen value => rfl
  | ping value => rfl
  | backend value =>
      have hstarts := (configFileLine_backend value.val).mpr h
      rw [fileStep, argumentsStep, ← hstarts]
  | backendOption key value =>
      rw [OptionTaken] at h
      rw [fileStep, argumentsStep]
      cases hconf : s.config.backend.config with
      | none =>
          simp only [hconf] at h
          exact if_pos h
      | some m =>
          simp only [hconf] at h
          rw [if_neg h.1]
          simp [ConfigRun.configure, h.2]

/-- **An option that is not taken** ends the file or makes it fail, or the file misses a call. -/
theorem fileStep_not_taken {o : ConfigOption} (h : ¬OptionTaken plugins s o) :
    fileStep plugins s o = none ∨ (∃ s', fileStep plugins s o = some (true, s')) ∨
      (fileStep plugins s o = some (false, s) ∧ ∃ m key value, PassedOver key value ∧
        (argumentsStep plugins s o).calls = s.calls ++ [.config m key value]) := by
  cases o with
  | port value => exact absurd trivial h
  | listen value => exact absurd trivial h
  | ping value => exact absurd trivial h
  | backend value =>
      have hfails : (configFileLine plugins (ascii "backend") value.val s).1 = true := by
        rw [OptionTaken, ← configFileLine_backend] at h
        simpa using h
      exact .inr (.inl ⟨_, by rw [fileStep, ← hfails]⟩)
  | backendOption key value =>
      rw [OptionTaken] at h
      rw [fileStep, argumentsStep]
      cases hconf : s.config.backend.config with
      | none =>
          simp only [hconf] at h
          exact .inl (if_neg h)
      | some m =>
          simp only [hconf] at h
          by_cases hp : PassedOver key.val value.val
          · exact .inr (.inr ⟨if_pos hp, m, key.val, value.val, hp, rfl⟩)
          · have hresult : plugins.config s.calls m key.val value.val ≠ 0 := fun e => h ⟨hp, e⟩
            right
            left
            rw [if_neg hp]
            exact ⟨(s.configure plugins m key.val value.val).2, by simp [ConfigRun.configure, hresult]⟩

/-! ## Calls -/

/-- The calls of `s'` are those of `s` and more, all as told. -/
def CallsAfter (p : BackendCall β → Prop) (s s' : ConfigRun β) : Prop :=
  ∃ more, s'.calls = s.calls ++ more ∧ ∀ c ∈ more, p c

theorem CallsAfter.refl (p : BackendCall β → Prop) (s : ConfigRun β) : CallsAfter p s s :=
  ⟨[], (List.append_nil _).symm, fun _ h => by cases h⟩

theorem CallsAfter.trans {p : BackendCall β → Prop} {a b c : ConfigRun β} (h : CallsAfter p a b)
    (h' : CallsAfter p b c) : CallsAfter p a c := by
  obtain ⟨l, hl, hp⟩ := h
  obtain ⟨m, hm, hq⟩ := h'
  refine ⟨l ++ m, by rw [hm, hl, List.append_assoc], ?_⟩
  intro x hx
  rcases List.mem_append.mp hx with hx | hx
  · exact hp x hx
  · exact hq x hx

/-- A call that the line of an option can make. -/
def Writable : BackendCall β → Prop
  | .config _ key value => ¬PassedOver key value
  | _ => True

theorem configFileLine_calls (key value : Bytes) :
    CallsAfter Writable s (configFileLine plugins key value s).2 := by
  have hsame (config : WsConfig β) : CallsAfter Writable s { s with config := config } :=
    ⟨[], (List.append_nil _).symm, fun _ h => by cases h⟩
  unfold configFileLine
  split
  · exact hsame _
  split
  · exact hsame _
  split
  · exact hsame _
  split
  · have hcleanup : ∀ c ∈ (s.config.backend.cleanup.map BackendCall.cleanup).toList, Writable c := by
      cases s.config.backend.cleanup with
      | none => simp
      | some m => simp [Writable]
    dsimp only
    split
    · exact ⟨_, rfl, hcleanup⟩
    split
    · exact ⟨_, rfl, hcleanup⟩
    · refine ⟨_, List.append_assoc _ _ _, ?_⟩
      intro c hc
      rcases List.mem_append.mp hc with hc | hc
      · exact hcleanup c hc
      · obtain rfl := List.mem_singleton.mp hc
        trivial
  · exact .refl _ s

theorem fileStep_calls {o : ConfigOption} {failed : Bool} {s' : ConfigRun β}
    (h : fileStep plugins s o = some (failed, s')) : CallsAfter Writable s s' := by
  have hline (key value : Bytes) (hs : some (configFileLine plugins key value s) = some (failed, s')) :
      CallsAfter Writable s s' := by
    have hcalls : CallsAfter Writable s (configFileLine plugins key value s).2 :=
      configFileLine_calls key value
    rwa [Option.some.inj hs] at hcalls
  cases o with
  | port value => exact hline _ _ h
  | listen value => exact hline _ _ h
  | ping value => exact hline _ _ h
  | backend value => exact hline _ _ h
  | backendOption key value =>
      rw [fileStep] at h
      split at h
      · cases h
        exact .refl _ s
      · next hp =>
        obtain ⟨m, -, hm⟩ := Option.map_eq_some_iff.mp h
        cases hm
        refine ⟨_, rfl, ?_⟩
        intro c hc
        obtain rfl := List.mem_singleton.mp hc
        exact hp

theorem argumentsStep_calls (o : ConfigOption) :
    CallsAfter (fun _ => True) s (argumentsStep plugins s o) := by
  have hline (key value : Bytes) :
      CallsAfter (fun _ => True) s (configFileLine plugins key value s).2 := by
    obtain ⟨more, hmore, -⟩ : CallsAfter Writable s (configFileLine plugins key value s).2 :=
      configFileLine_calls key value
    exact ⟨more, hmore, fun _ _ => trivial⟩
  cases o with
  | port value => exact hline _ _
  | listen value => exact hline _ _
  | ping value => exact hline _ _
  | backend value => exact hline _ _
  | backendOption key value =>
      unfold argumentsStep
      cases s.config.backend.config with
      | none => exact .refl _ s
      | some m => exact ⟨_, rfl, fun _ _ => trivial⟩

/-! ## All options -/

theorem configArguments_never (options : List ConfigOption) :
    (configArguments plugins (options.flatMap ConfigOption.arguments) s).1 = false ∧
      CallsAfter (fun _ => True) s
        (configArguments plugins (options.flatMap ConfigOption.arguments) s).2 := by
  induction options generalizing s with
  | nil => exact ⟨rfl, .refl _ s⟩
  | cons o options ih =>
      rw [List.flatMap_cons, configArguments_option]
      exact ⟨ih.1, (argumentsStep_calls o).trans ih.2⟩

theorem configParseLines_calls (options : List ConfigOption) (configSection : ConfigFileSection)
    {failed : Bool} {s' : ConfigRun β}
    (h : configParseLines plugins ((options.flatMap ConfigOption.lines).map (· ++ [10]))
      configSection s = some (failed, s')) : CallsAfter Writable s s' := by
  induction options generalizing s configSection with
  | nil =>
      cases h
      exact .refl _ _
  | cons o options ih =>
      rw [List.flatMap_cons, List.map_append] at h
      obtain ⟨sec, hsec⟩ := configParseLines_option o
        ((options.flatMap ConfigOption.lines).map (· ++ [10])) configSection
      rw [hsec] at h
      cases hstep : fileStep plugins s o with
      | none =>
          rw [hstep] at h
          cases h
      | some r =>
          obtain ⟨_ | _, t⟩ := r
          · rw [hstep] at h
            exact (fileStep_calls hstep).trans (ih sec h)
          · rw [hstep] at h
            cases h
            exact fileStep_calls hstep

/-- **The file does what the arguments do** just if every option is taken.  The induction is on
the options, from a state that both ways have in common. -/
theorem configParseLines_iff (options : List ConfigOption) (configSection : ConfigFileSection) :
    configParseLines plugins ((options.flatMap ConfigOption.lines).map (· ++ [10])) configSection s =
        some (configArguments plugins (options.flatMap ConfigOption.arguments) s) ↔
      OptionsTaken plugins options s := by
  induction options generalizing s configSection with
  | nil => exact ⟨fun _ => trivial, fun _ => rfl⟩
  | cons o options ih =>
      obtain ⟨sec, hsec⟩ := configParseLines_option o
        ((options.flatMap ConfigOption.lines).map (· ++ [10])) configSection
      rw [List.flatMap_cons, List.map_append, hsec, List.flatMap_cons, configArguments_option,
        OptionsTaken]
      by_cases htaken : OptionTaken plugins s o
      · rw [fileStep_taken htaken]
        exact (ih sec).trans ⟨fun h => ⟨htaken, h⟩, And.right⟩
      · refine ⟨fun h => ?_, fun h => absurd h.1 htaken⟩
        exfalso
        obtain ⟨hnever, hargs⟩ := configArguments_never options
        rcases fileStep_not_taken htaken with hnone | ⟨s', hfail⟩ | ⟨hpass, m, key, value, hp, hcall⟩
        · rw [hnone] at h
          cases h
        · rw [hfail] at h
          rw [← Option.some.inj h] at hnever
          cases hnever
        · -- the call that the file misses is none of its later ones
          rw [hpass] at h
          obtain ⟨more, hmore, -⟩ := hargs
          obtain ⟨later, hlater, hwritable⟩ := configParseLines_calls options sec h
          have hsame : later = .config m key value :: more := by
            rw [hlater, hcall, List.append_assoc] at hmore
            exact List.append_cancel_left hmore
          exact hwritable (.config m key value) (by rw [hsame]; exact List.mem_cons_self) hp

end

theorem ConfigOption.lines_notMem (o : ConfigOption) : ∀ line ∈ o.lines, 10 ∉ line := by
  have hpair (header key : Bytes) (value : OptionValue) (hh : 10 ∉ header) (hk : 10 ∉ key) :
      ∀ line ∈ [header, key ++ 61 :: value.val], 10 ∉ line := by
    intro line hline
    have hv := value.property.2.1
    rcases List.mem_cons.mp hline with rfl | hline
    · exact hh
    · obtain rfl := List.mem_singleton.mp hline
      simp [hk, hv]
  cases o with
  | port value => exact hpair _ _ value (by decide) (by decide)
  | listen value => exact hpair _ _ value (by decide) (by decide)
  | ping value => exact hpair _ _ value (by decide) (by decide)
  | backend value => exact hpair _ _ value (by decide) (by decide)
  | backendOption key value => exact hpair _ _ value (by decide) key.property.1.2.1

theorem getLines_configText (options : List ConfigOption) :
    getLines (configText options) = (options.flatMap ConfigOption.lines).map (· ++ [10]) := by
  have hlines : ∀ lines : List Bytes, (∀ line ∈ lines, 10 ∉ line) →
      getLines (lines.flatMap (· ++ [10])) = lines.map (· ++ [10]) := by
    intro lines h
    induction lines with
    | nil => rfl
    | cons line lines ih =>
        have hrest := ih fun x hx => h x (List.mem_cons_of_mem _ hx)
        rw [List.flatMap_cons, List.append_assoc, List.singleton_append,
          getLines_line (h line List.mem_cons_self), hrest, List.map_cons]
  refine hlines _ ?_
  intro line hline
  obtain ⟨o, -, ho⟩ := List.mem_flatMap.mp hline
  exact o.lines_notMem line ho

/-- The arguments of options are never taken for the name of a file. -/
theorem configParseArguments_options (plugins : Plugins β) (file : Bytes → Option Bytes)
    (options : List ConfigOption) (s : ConfigRun β) :
    configParseArguments plugins file (options.flatMap ConfigOption.arguments) s =
      some (configArguments plugins (options.flatMap ConfigOption.arguments) s) := by
  have heven : (options.flatMap ConfigOption.arguments).length % 2 = 0 := by
    induction options with
    | nil => rfl
    | cons o options ih =>
        have ho : o.arguments.length = 2 := by cases o <;> rfl
        rw [List.flatMap_cons, List.length_append]
        omega
  unfold configParseArguments
  split
  · next hone =>
    rw [hone] at heven
    cases heven
  · rw [if_neg (by omega)]

/-- **Command line and file agree** just if every option is taken. -/
theorem configs_agree_iff (plugins : Plugins β) (file : Bytes → Option Bytes)
    (options : List ConfigOption) (s : ConfigRun β) :
    ConfigsAgree plugins file options s ↔ OptionsTaken plugins options s := by
  have hnever :
      (configArguments plugins (options.flatMap ConfigOption.arguments) s).1 = false :=
    (configArguments_never options).1
  rw [← configParseLines_iff options .cfgMain, ConfigsAgree, configParseArguments_options,
    configParseFile, getLines_configText]
  constructor
  · rintro ⟨a, f, ha, hf, hsame, hstate⟩
    obtain rfl := Option.some.inj ha
    rw [hf, Prod.ext hsame (hstate hnever)]
  · intro h
    exact ⟨_, _, rfl, h, rfl, fun _ => rfl⟩

/-- No module can be loaded. -/
def noPlugins : Plugins Unit where
  path := ascii "plugins/"
  dlopen := fun _ => none
  init := fun _ _ => websocksyApiVersion
  config := fun _ _ _ _ => 0

/-- The builtin backend, with all its functions. -/
def sampleConfigRun : ConfigRun Unit where
  config := { backend := ⟨some (), some (), some (), some ()⟩ }

/-- A backend that cannot be loaded is accepted on the command line. -/
theorem configs_agree_fails :
    (configParseArguments noPlugins (fun _ => none)
      [ascii "-b", ascii "file"] sampleConfigRun).map Prod.fst = some false ∧
    (configParseFile noPlugins (some (configText [.backend ⟨ascii "file", by decide⟩]))
      sampleConfigRun).map Prod.fst = some true ∧
    ¬ConfigsAgree noPlugins (fun _ => none) [.backend ⟨ascii "file", by decide⟩]
      sampleConfigRun := by
  refine ⟨by decide +kernel, by decide +kernel, ?_⟩
  rw [configs_agree_iff]
  rintro ⟨⟨hload, -⟩, -⟩
  exact absurd hload (by decide +kernel)

end Websocksy

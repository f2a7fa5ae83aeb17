import Websocksy.Templates
import Mathlib.Data.List.DropRight
import Mathlib.Logic.Function.Iterate

/-!
# The order of expressions

The file backend evaluates its expressions one after the other on the request path of the
connection, and `%endpoint%` takes a slash off the end of that path each time it is met.  So an
expression can see the ones before it, and an occurrence of `%endpoint%` those before it: exactly
if the path ends in two slashes, and an expression that comes to a path has an `%endpoint%` that
is met after another one.
-/

namespace Websocksy

open Buffer CString

variable {header : List WsHttpHeader} {endpoint : Bytes} {length : Nat}

/-! ## What is tried -/

/-- The paths that the expressions come to, one after the other. -/
def expressionPaths (backendPath : Bytes) (header : List WsHttpHeader) :
    List Bytes → Bytes → List (Option (Option Bytes))
  | [], _ => []
  | expression :: expressions, endpoint =>
    match expressionPath backendPath expression endpoint header with
    | none => none :: expressionPaths backendPath header expressions endpoint
    | some (path, endpoint) => some path :: expressionPaths backendPath header expressions endpoint

/-- The loop of `expression_resolve`, with the endpoint of the request for each occurrence. -/
def expressionLoopApart (length : Nat) (endpoint : Bytes) (header : List WsHttpHeader) :
    Nat → Expansion → Bool × Expansion
  | 0, s => (false, s)
  | fuel + 1, s =>
    if s.template.length ≤ s.u then (false, s)
    else
      let r := expressionPass length header { s with endpoint := endpoint }
      if r.1 then r else expressionLoopApart length endpoint header fuel r.2

/-- The path that an expression comes to by itself, with the endpoint of the request for each
occurrence. -/
def expressionPathApart (backendPath endpoint : Bytes) (header : List WsHttpHeader)
    (expression : Bytes) : Option (Option Bytes) :=
  if backendFileMaxPath ≤ backendPath.length + 1 then none
  else
    let targetPath := (backendPath ++ 47 :: expression).take (backendFileMaxPath - 1)
    let start := backendPath.length + 1
    let template := targetPath.drop start
    let r := expressionLoopApart (backendFileMaxPath - start) endpoint header template.length
      ⟨0, template, endpoint⟩
    some (if r.1 then none else some (targetPath.take start ++ r.2.template))

/-- Each expression of the list comes to the path that it comes to by itself. -/
def IndependentPaths (backendPath : Bytes) (header : List WsHttpHeader) (expressions : List Bytes)
    (endpoint : Bytes) : Prop :=
  expressionPaths backendPath header expressions endpoint =
    expressions.map (expressionPathApart backendPath endpoint header)

instance (backendPath : Bytes) (header : List WsHttpHeader) (expressions : List Bytes)
    (endpoint : Bytes) : Decidable (IndependentPaths backendPath header expressions endpoint) :=
  inferInstanceAs (Decidable (_ = _))

/-- How often the loop meets `%endpoint%`. -/
def endpointsMet (length : Nat) (header : List WsHttpHeader) : Nat → Expansion → Nat
  | 0, _ => 0
  | fuel + 1, s =>
    if s.template.length ≤ s.u then 0
    else
      let r := expressionPass length header s
      (if strncmp (s.template.drop s.u) (ascii "%endpoint%") then 1 else 0) +
        if r.1 then 0 else endpointsMet length header fuel r.2

/-- How often an expression meets `%endpoint%`, up to where it fails if it does. -/
def expressionMet (backendPath expression endpoint : Bytes) (header : List WsHttpHeader) : Nat :=
  let targetPath := (backendPath ++ 47 :: expression).take (backendFileMaxPath - 1)
  let start := backendPath.length + 1
  let template := targetPath.drop start
  endpointsMet (backendFileMaxPath - start) header template.length ⟨0, template, endpoint⟩

/-- `before` occurrences of `%endpoint%` were met: no expression that comes to a path meets one
after another, be that its own or one of an expression before it. -/
def MetFirst (backendPath : Bytes) (header : List WsHttpHeader) : List Bytes → Bytes → Nat → Prop
  | [], _, _ => True
  | expression :: expressions, endpoint, before =>
    match expressionPath backendPath expression endpoint header with
    | none => MetFirst backendPath header expressions endpoint before
    | some (path, endpoint') =>
      let met := expressionMet backendPath expression endpoint header
      (path = none ∨ met = 0 ∨ before + met ≤ 1) ∧
        MetFirst backendPath header expressions endpoint' (before + met)

/-- The loop of `query` over the paths that are tried. -/
def queryPaths {φ : Type} (l : FramingLibrary φ) (file : Bytes → Option Bytes) (protocol : List Bytes) :
    List (Option (Option Bytes)) → WsPeerInfo φ → Option (WsPeerInfo φ)
  | [], peer => some peer
  | none :: _, _ => none
  | some path :: paths, peer =>
    match path.bind file with
    | none => queryPaths l file protocol paths peer
    | some content =>
      match queryLines l protocol (getLines content) peer with
      | none => none
      | some peer => if peer.host.isSome then some peer else queryPaths l file protocol paths peer

/-- The paths that `query` tries are those the expressions come to. -/
theorem queryExpressions_paths {φ : Type} (l : FramingLibrary φ) (file : Bytes → Option Bytes)
    (backendPath : Bytes) (protocol : List Bytes) (expressions : List Bytes) (endpoint : Bytes)
    (peer : WsPeerInfo φ) :
    queryExpressions l file backendPath protocol header expressions endpoint peer =
      queryPaths l file protocol (expressionPaths backendPath header expressions endpoint) peer := by
  induction expressions generalizing endpoint peer with
  | nil => rfl
  | cons expression expressions ih =>
      unfold queryExpressions expressionPaths
      cases expressionPath backendPath expression endpoint header with
      | none => rfl
      | some r =>
          obtain ⟨path, endpoint'⟩ := r
          dsimp only [queryPaths]
          cases path.bind file with
          | none => exact ih endpoint' peer
          | some content =>
              dsimp only
              cases queryLines l protocol (getLines content) peer with
              | none => rfl
              | some peer => simp only [ih]

/-! ## What an occurrence does to the endpoint -/

/-- The endpoint behind an occurrence of `%endpoint%`. -/
def trimEndpoint (endpoint : Bytes) : Bytes :=
  if 2 ≤ endpoint.length ∧ endpoint.getLast? = some 47 then endpoint.dropLast else endpoint

/-- What an occurrence of `%endpoint%` is replaced by. -/
def endpointValue (endpoint : Bytes) : Option Bytes :=
  if endpoint.length < 1 then none else some ((trimEndpoint endpoint).drop 1)

/-- Slashes at the end are taken off one by one. -/
theorem trimEndpoint_slashes (c : UInt8) {core : Bytes} (hcore : core.getLast? ≠ some 47) (n : Nat) :
    trimEndpoint (c :: (core ++ List.replicate n 47)) =
      c :: (core ++ List.replicate (n - 1) 47) := by
  unfold trimEndpoint
  cases n with
  | zero =>
      rw [if_neg]
      rintro ⟨hlen, hlast⟩
      rw [List.replicate_zero, List.append_nil] at hlen hlast
      cases core with
      | nil => exact absurd hlen (Nat.lt_irrefl 1)
      | cons d core => exact hcore (by rwa [List.getLast?_cons_cons] at hlast)
  | succ n =>
      have hconcat : c :: (core ++ List.replicate (n + 1) 47) =
          (c :: (core ++ List.replicate n 47)) ++ [47] := by
        rw [List.replicate_succ']
        simp
      rw [if_pos ⟨by simp; omega, by rw [hconcat, List.getLast?_concat]⟩, hconcat, List.dropLast_concat]
      rfl

theorem trimEndpoint_iterate (c : UInt8) {core : Bytes} (hcore : core.getLast? ≠ some 47) (n k : Nat) :
    trimEndpoint^[k] (c :: (core ++ List.replicate n 47)) =
      c :: (core ++ List.replicate (n - k) 47) := by
  induction k with
  | zero => rfl
  | succ k ih => rw [Function.iterate_succ_apply', ih, trimEndpoint_slashes c hcore, Nat.sub_sub]

/-- A path, cut in front of the slashes at its end. -/
theorem exists_slashes (l : Bytes) : ∃ n, l = l.rdropWhile (· == 47) ++ List.replicate n 47 ∧
    (l.rdropWhile (· == 47)).getLast? ≠ some 47 := by
  induction l using List.reverseRecOn with
  | nil => exact ⟨0, rfl, by simp⟩
  | append_singleton l c ih =>
      by_cases hc : c = 47
      · subst hc
        obtain ⟨n, hl, hlast⟩ := ih
        rw [List.rdropWhile_concat_pos _ _ _ (by rfl)]
        refine ⟨n + 1, ?_, hlast⟩
        rw [List.replicate_succ', ← List.append_assoc, ← hl]
      · rw [List.rdropWhile_concat_neg _ _ _ (by simpa using hc)]
        refine ⟨0, by simp, ?_⟩
        rw [List.getLast?_concat]
        exact fun h => hc (Option.some.inj h)

theorem slashes_suffix {core : Bytes} (hcore : core.getLast? ≠ some 47) (n : Nat) :
    [47, 47] <:+ core ++ List.replicate n 47 ↔ 2 ≤ n := by
  constructor
  · rintro ⟨front, hfront⟩
    match n with
    | 0 =>
        rw [List.replicate_zero, List.append_nil] at hfront
        exact absurd (by rw [← hfront]; simp) hcore
    | 1 =>
        rw [List.append_cons] at hfront
        obtain ⟨rfl, -⟩ := List.append_inj' hfront rfl
        exact absurd (List.getLast?_concat) hcore
    | n + 2 => omega
  · intro hn
    obtain ⟨k, rfl⟩ := Nat.exists_eq_add_of_le' hn
    refine ⟨core ++ List.replicate k 47, ?_⟩
    rw [← List.replicate_append_replicate, ← List.append_assoc]
    rfl

theorem endpointValue_slashes (c : UInt8) {core : Bytes} (hcore : core.getLast? ≠ some 47) (n : Nat) :
    endpointValue (c :: (core ++ List.replicate n 47)) =
      some (core ++ List.replicate (n - 1) 47) := by
  unfold endpointValue
  rw [trimEndpoint_slashes c hcore]
  simp

/-! ## One pass -/

theorem expressionVariable_endpoint {template : Bytes} (h : strncmp template (ascii "%endpoint%"))
    (header : List WsHttpHeader) (endpoint : Bytes) :
    expressionVariable template endpoint header =
      if endpoint.length < 1 then (.fail, endpoint)
      else (.value 10 ((trimEndpoint endpoint).drop 1), trimEndpoint endpoint) := by
  unfold expressionVariable
  rw [if_pos h]
  rfl

/-- The other variables leave the endpoint alone. -/
theorem expressionVariable_other {template : Bytes} (h : ¬strncmp template (ascii "%endpoint%"))
    (header : List WsHttpHeader) (endpoint : Bytes) :
    expressionVariable template endpoint header =
      ((expressionVariable template [] header).1, endpoint) := by
  unfold expressionVariable
  rw [if_neg h, if_neg h]
  split
  · split
    · rfl
    split
    · rfl
    split <;> rfl
  split
  · split
    · rfl
    split <;> rfl
  · rfl

/-- **An occurrence of `%endpoint%`** gives what `endpointValue` says. -/
theorem expressionPass_endpoint (header : List WsHttpHeader) {u : Nat} {template : Bytes}
    (h : strncmp (template.drop u) (ascii "%endpoint%")) (endpoint : Bytes) :
    expressionPass length header ⟨u, template, endpoint⟩ =
      match (endpointValue endpoint).bind fun v =>
        (expressionReplace (template.drop u) (length - u) 10 v).map (v, ·) with
      | none => (true, ⟨u, template, trimEndpoint endpoint⟩)
      | some (v, replaced) =>
        (false, ⟨((u + (v.length + (2 ^ 64 - 1)) % 2 ^ 64) % 2 ^ 64 + 1) % 2 ^ 64,
          template.take u ++ replaced, trimEndpoint endpoint⟩) := by
  obtain ⟨rest, hrest⟩ := List.isPrefixOf_iff_prefix.mp h
  have hhead : (template.drop u).head? = some 37 := by
    rw [← hrest]
    rfl
  unfold expressionPass
  simp only [hhead, if_true, expressionVariable_endpoint h, endpointValue]
  by_cases hempty : endpoint.length < 1
  · rw [if_pos hempty, if_pos hempty, List.length_eq_zero_iff.mp (by omega : endpoint.length = 0)]
    rfl
  · rw [if_neg hempty, if_neg hempty]
    dsimp only [Option.bind_some]
    cases expressionReplace (template.drop u) (length - u) 10 ((trimEndpoint endpoint).drop 1) with
    | none => rfl
    | some replaced => rfl

theorem expressionPass_other {u : Nat} {template : Bytes}
    (h : ¬strncmp (template.drop u) (ascii "%endpoint%")) (endpoint : Bytes) :
    expressionPass length header ⟨u, template, endpoint⟩ =
      ((expressionPass length header ⟨u, template, []⟩).1,
        { (expressionPass length header ⟨u, template, []⟩).2 with endpoint := endpoint }) := by
  unfold expressionPass
  dsimp only
  split
  · rw [expressionVariable_other h header endpoint, expressionVariable_other h header []]
    cases (expressionVariable (template.drop u) [] header).1 with
    | none => rfl
    | fail => rfl
    | value n v =>
        dsimp only
        cases expressionReplace (template.drop u) (length - u) n v with
        | none => rfl
        | some replaced => rfl
  · rfl

/-- **A pass sees the endpoint** only as far as it has a value. -/
theorem expressionPass_alike (length : Nat) (header : List WsHttpHeader) (u : Nat)
    (template : Bytes) {e e' : Bytes} (h : endpointValue e = endpointValue e') :
    let r := expressionPass length header ⟨u, template, e⟩
    let r' := expressionPass length header ⟨u, template, e'⟩
    r.1 = r'.1 ∧ r.2.u = r'.2.u ∧ r.2.template = r'.2.template ∧
      (r.2.endpoint = e ∨ r.2.endpoint = trimEndpoint e) := by
  intro r r'
  by_cases hend : strncmp (template.drop u) (ascii "%endpoint%")
  · have hr : r = _ := expressionPass_endpoint header hend e
    have hr' : r' = _ := expressionPass_endpoint header hend e'
    rw [h] at hr
    rw [hr, hr']
    cases (endpointValue e').bind fun v =>
        (expressionReplace (template.drop u) (length - u) 10 v).map (v, ·) with
    | none => exact ⟨rfl, rfl, rfl, .inr rfl⟩
    | some p => exact ⟨rfl, rfl, rfl, .inr rfl⟩
  · have hr : r = _ := expressionPass_other hend e
    have hr' : r' = _ := expressionPass_other hend e'
    rw [hr, hr']
    exact ⟨rfl, rfl, rfl, .inl rfl⟩

/-! ## Runs -/

/-- However often the endpoint is trimmed, it has the value of that of the request. -/
def Steady (endpoint e : Bytes) : Prop :=
  ∀ k, endpointValue (trimEndpoint^[k] e) = endpointValue endpoint

theorem Steady.value {e : Bytes} (h : Steady endpoint e) : endpointValue e = endpointValue endpoint :=
  h 0

theorem Steady.trim {e : Bytes} (h : Steady endpoint e) : Steady endpoint (trimEndpoint e) :=
  fun k => h (k + 1)

/-- **The loop** comes to what it comes to with the endpoint of the request for each
occurrence. -/
theorem expressionLoop_apart (header : List WsHttpHeader) (fuel u : Nat) (template : Bytes)
    {e : Bytes} (e' : Bytes) (h : Steady endpoint e) :
    let r := expressionLoop length header fuel ⟨u, template, e⟩
    let r' := expressionLoopApart length endpoint header fuel ⟨u, template, e'⟩
    r.1 = r'.1 ∧ r.2.template = r'.2.template ∧ Steady endpoint r.2.endpoint := by
  induction fuel generalizing u template e e' with
  | zero => exact ⟨rfl, rfl, h⟩
  | succ fuel ih =>
      unfold expressionLoop expressionLoopApart
      dsimp only
      by_cases hend : template.length ≤ u
      · rw [if_pos hend, if_pos hend]
        exact ⟨rfl, rfl, h⟩
      rw [if_neg hend, if_neg hend]
      have hpass := expressionPass_alike length header u template h.value
      generalize expressionPass length header ⟨u, template, e⟩ = r at hpass ⊢
      generalize expressionPass length header ⟨u, template, endpoint⟩ = r' at hpass ⊢
      obtain ⟨failed, u1, template1, e1⟩ := r
      obtain ⟨failed', u1', template1', e1'⟩ := r'
      obtain ⟨rfl, rfl, rfl, hnext⟩ := hpass
      have hsteady : Steady endpoint e1 := by
        rcases hnext with rfl | rfl
        · exact h
        · exact h.trim
      dsimp only
      split
      · exact ⟨rfl, rfl, hsteady⟩
      · exact ih u1 template1 e1' hsteady

theorem expressionPath_apart (header : List WsHttpHeader) (backendPath expression : Bytes)
    {e : Bytes} (h : Steady endpoint e) :
    match expressionPath backendPath expression e header with
    | none => expressionPathApart backendPath endpoint header expression = none
    | some (path, e') =>
      expressionPathApart backendPath endpoint header expression = some path ∧
        Steady endpoint e' := by
  unfold expressionPath expressionPathApart
  by_cases hlong : backendFileMaxPath ≤ backendPath.length + 1
  · rw [if_pos hlong, if_pos hlong]
  rw [if_neg hlong, if_neg hlong]
  unfold expressionResolve
  dsimp only
  generalize ((backendPath ++ 47 :: expression).take (backendFileMaxPath - 1)).drop
    (backendPath.length + 1) = template
  obtain ⟨hfailed, htemplate, hsteady⟩ := expressionLoop_apart header template.length
    0 template endpoint h
  exact ⟨by rw [hfailed, htemplate], hsteady⟩

theorem expressionPaths_apart (backendPath : Bytes) (expressions : List Bytes) {e : Bytes}
    (h : Steady endpoint e) :
    expressionPaths backendPath header expressions e =
      expressions.map (expressionPathApart backendPath endpoint header) := by
  induction expressions generalizing e with
  | nil => rfl
  | cons expression expressions ih =>
      have hpath := expressionPath_apart header backendPath expression h
      unfold expressionPaths
      cases hresult : expressionPath backendPath expression e header with
      | none =>
          rw [hresult] at hpath
          rw [List.map_cons, show expressionPathApart _ _ _ _ = none from hpath]
          exact congrArg _ (ih h)
      | some r =>
          obtain ⟨path, e'⟩ := r
          rw [hresult] at hpath
          rw [List.map_cons, hpath.1]
          exact congrArg _ (ih hpath.2)

/-! ## With two slashes at the end -/

theorem variableAt_endpoint {template : Bytes} (header : List WsHttpHeader)
    (h : strncmp template (ascii "%endpoint%")) {e : Bytes} (he : e ≠ []) :
    variableAt header e template =
      (.value 10 ((trimEndpoint e).drop 1), trimEndpoint e) ∧ 10 ≤ template.length := by
  obtain ⟨rest, hrest⟩ := List.isPrefixOf_iff_prefix.mp h
  have hlen : ¬e.length < 1 := fun hlt => he (List.length_eq_zero_iff.mp (by omega))
  refine ⟨?_, ?_⟩
  · unfold variableAt
    rw [if_pos (by rw [← hrest]; rfl), expressionVariable_endpoint h, if_neg hlen]
  · rw [← hrest, List.length_append]
    exact Nat.le_add_right _ _

theorem variableAt_other {template : Bytes} (header : List WsHttpHeader)
    (h : ¬strncmp template (ascii "%endpoint%")) (e : Bytes) :
    variableAt header e template = ((variableAt header [] template).1, e) := by
  unfold variableAt
  split
  · exact expressionVariable_other h header e
  · rfl

/-- A pass trims the endpoint if it meets `%endpoint%`. -/
theorem expressionPass_trims (length : Nat) (header : List WsHttpHeader) (s : Expansion) :
    (expressionPass length header s).2.endpoint =
      trimEndpoint^[if strncmp (s.template.drop s.u) (ascii "%endpoint%") then 1 else 0]
        s.endpoint := by
  have hvariable : (expressionVariable (s.template.drop s.u) s.endpoint header).2 =
      trimEndpoint^[if strncmp (s.template.drop s.u) (ascii "%endpoint%") then 1 else 0]
        s.endpoint := by
    by_cases h : strncmp (s.template.drop s.u) (ascii "%endpoint%")
    · rw [expressionVariable_endpoint h, if_pos h]
      by_cases he : s.endpoint.length < 1
      · have hnil : s.endpoint = [] := List.length_eq_zero_iff.mp (by omega)
        rw [if_pos he, hnil]
        rfl
      · rw [if_neg he]
        rfl
    · rw [expressionVariable_other h, if_neg h]
      rfl
  unfold expressionPass
  dsimp only
  by_cases hhead : (s.template.drop s.u).head? = some 37
  · rw [if_pos hhead, ← hvariable]
    rcases expressionVariable (s.template.drop s.u) s.endpoint header with ⟨_ | _ | ⟨n, v⟩, e⟩
    · rfl
    · rfl
    · dsimp only
      cases expressionReplace (s.template.drop s.u) (length - s.u) n v with
      | none => rfl
      | some replaced => rfl
  · rw [if_neg hhead, if_neg]
    · rfl
    · intro h
      obtain ⟨rest, hrest⟩ := List.isPrefixOf_iff_prefix.mp h
      exact hhead (by rw [← hrest]; rfl)

theorem expressionLoop_trims (length : Nat) (header : List WsHttpHeader) (fuel : Nat)
    (s : Expansion) : (expressionLoop length header fuel s).2.endpoint =
      trimEndpoint^[endpointsMet length header fuel s] s.endpoint := by
  induction fuel generalizing s with
  | zero => rfl
  | succ fuel ih =>
      unfold expressionLoop endpointsMet
      by_cases hend : s.template.length ≤ s.u
      · rw [if_pos hend, if_pos hend]
        rfl
      rw [if_neg hend, if_neg hend]
      have htrims := expressionPass_trims length header s
      generalize (if strncmp (s.template.drop s.u) (ascii "%endpoint%") then 1 else 0) = j at *
      dsimp only
      split
      · exact htrims
      · rw [ih, htrims, ← Function.iterate_add_apply, Nat.add_comm]

/-- What a pass does to two runs that have `rest` before them, the first one with the endpoint that
was trimmed `k` times, the second one with that of the request; it meets `%endpoint%` `j` times. -/
inductive PassPair (length k j : Nat) (endpoint done done' rest : Bytes) :
    Bool × Expansion → Bool × Expansion → Prop
  | both (a b rest₁ e : Bytes) (hrest : rest₁.length < rest.length)
      (hroom : done'.length + b.length + rest₁.length < length)
      (hsame : a = b ∧ (j = 0 ∨ k = 0) ∨ a.length < b.length ∧ 0 < j ∧ 0 < k) :
      PassPair length k j endpoint done done' rest
        (false, ⟨(done ++ a).length, (done ++ a) ++ rest₁, trimEndpoint^[k + j] endpoint⟩)
        (false, ⟨(done' ++ b).length, (done' ++ b) ++ rest₁, e⟩)
  | fail (x x' : Expansion) : PassPair length k j endpoint done done' rest (true, x) (true, x')
  | behind (x x' : Expansion) (hdiff : done ≠ done' ∨ 0 < j ∧ 0 < k) :
      PassPair length k j endpoint done done' rest (false, x) (true, x')

section

variable {core done done' rest : Bytes} {c₀ c : UInt8} {n : Nat}

/-- A value put in place, in both runs. -/
theorem passPair_value (k j m : Nat) {v v' : Bytes} (e : Bytes) (hm : 0 < m)
    (hlen : m ≤ (c :: rest).length) (hdone : done = done' ∨ done.length < done'.length)
    (hroom : done'.length + (c :: rest).length < length)
    (hsame : v = v' ∧ (j = 0 ∨ k = 0) ∨ v.length < v'.length ∧ 0 < j ∧ 0 < k) :
    PassPair length k j endpoint done done' (c :: rest)
      (if m < v.length ∧ length ≤ done.length + (c :: rest).length + (v.length - m) then
        (true, ⟨done.length, done ++ c :: rest, trimEndpoint^[k + j] endpoint⟩)
      else (false, ⟨(done ++ v.map sanitize).length, (done ++ v.map sanitize) ++ (c :: rest).drop m,
        trimEndpoint^[k + j] endpoint⟩))
      (if m < v'.length ∧ length ≤ done'.length + (c :: rest).length + (v'.length - m) then
        (true, ⟨done'.length, done' ++ c :: rest, e⟩)
      else (false, ⟨(done' ++ v'.map sanitize).length,
        (done' ++ v'.map sanitize) ++ (c :: rest).drop m, e⟩)) := by
  have hle : done.length ≤ done'.length := by
    rcases hdone with rfl | h
    · exact Nat.le_refl _
    · exact Nat.le_of_lt h
  have hboth : v.length ≤ v'.length := by
    rcases hsame with ⟨rfl, -⟩ | ⟨h, -⟩
    · exact Nat.le_refl _
    · exact Nat.le_of_lt h
  have hdrop : ((c :: rest).drop m).length = (c :: rest).length - m := List.length_drop
  by_cases hfull : m < v.length ∧ length ≤ done.length + (c :: rest).length + (v.length - m)
  · rw [if_pos hfull, if_pos (by omega)]
    exact .fail _ _
  rw [if_neg hfull]
  by_cases hfull' : m < v'.length ∧ length ≤ done'.length + (c :: rest).length + (v'.length - m)
  · rw [if_pos hfull']
    refine .behind _ _ ?_
    rcases hsame with ⟨rfl, -⟩ | ⟨-, h⟩
    · refine .inl fun h => hfull ?_
      rwa [h]
    · exact .inr h
  rw [if_neg hfull']
  refine .both (v.map sanitize) (v'.map sanitize) ((c :: rest).drop m) e (by omega) ?_ ?_
  · rw [List.length_map]
    omega
  · rcases hsame with ⟨rfl, h⟩ | h
    · exact .inl ⟨rfl, h⟩
    · rw [List.length_map, List.length_map]
      exact .inr h

/-- **A pass of both runs.** -/
theorem expressionPass_both (header : List WsHttpHeader) (hcore : core.getLast? ≠ some 47)
    (hn : 2 ≤ n) (hendpoint : endpoint = c₀ :: (core ++ List.replicate n 47)) (hl : length < 2 ^ 64)
    (k : Nat) (hdone : done = done' ∨ done.length < done'.length)
    (hroom : done'.length + (c :: rest).length < length) :
    PassPair length k (if strncmp (c :: rest) (ascii "%endpoint%") then 1 else 0) endpoint done done'
      (c :: rest)
      (expressionPass length header ⟨done.length, done ++ c :: rest, trimEndpoint^[k] endpoint⟩)
      (expressionPass length header ⟨done'.length, done' ++ c :: rest, endpoint⟩) := by
  have hle : done.length ≤ done'.length := by
    rcases hdone with rfl | h
    · exact Nat.le_refl _
    · exact Nat.le_of_lt h
  rw [expressionPass_eq (by omega) hl, expressionPass_eq hroom hl]
  by_cases hend : strncmp (c :: rest) (ascii "%endpoint%")
  · have hne (j : Nat) : trimEndpoint^[j] endpoint ≠ [] := by
      rw [hendpoint, trimEndpoint_iterate c₀ hcore]
      simp
    have hvalue (j : Nat) : (trimEndpoint (trimEndpoint^[j] endpoint)).drop 1 =
        core ++ List.replicate (n - (j + 1)) 47 := by
      rw [← Function.iterate_succ_apply' trimEndpoint, hendpoint, trimEndpoint_iterate c₀ hcore]
      rfl
    obtain ⟨hat, hlen⟩ := variableAt_endpoint header hend (hne k)
    obtain ⟨hat', -⟩ := variableAt_endpoint header hend (hne 0)
    rw [hat, show variableAt header endpoint (c :: rest) = _ from hat', hvalue, hvalue, if_pos hend,
      ← Function.iterate_succ_apply' trimEndpoint]
    refine passPair_value k 1 10 _ (by decide) hlen hdone hroom ?_
    rcases Nat.eq_zero_or_pos k with rfl | hk
    · exact .inl ⟨rfl, .inr rfl⟩
    · refine .inr ⟨?_, Nat.one_pos, hk⟩
      simp only [List.length_append, List.length_replicate]
      omega
  · rw [variableAt_other header hend, variableAt_other header hend endpoint, if_neg hend]
    rcases hv : (variableAt header [] (c :: rest)).1 with _ | _ | ⟨m, v⟩
    · refine .both [c] [c] rest endpoint ?_ ?_ (.inl ⟨rfl, .inl rfl⟩)
      · exact Nat.lt_succ_self _
      · rw [List.length_cons] at hroom
        rw [List.length_singleton]
        omega
    · exact .fail _ _
    · have hvariable : expressionVariable (c :: rest) [] header =
          (.value m v, (variableAt header [] (c :: rest)).2) := by
        rw [← hv]
        unfold variableAt at hv ⊢
        split at hv
        · next hhead =>
          rw [if_pos hhead]
        · cases hv
      obtain ⟨-, -, -, hlen, hm, -⟩ := expressionVariable_value hvariable
      exact passPair_value k 0 m endpoint hm hlen hdone hroom (.inl ⟨rfl, .inl rfl⟩)

/-- **Two runs of the loop**, the first with the endpoint that was trimmed `k` times, the second
with the endpoint of the request for each occurrence.  Once the second has the longer text in
front it keeps it, so the two agree only where it never has. -/
theorem expressionLoop_both (header : List WsHttpHeader) (hcore : core.getLast? ≠ some 47)
    (hn : 2 ≤ n) (hendpoint : endpoint = c₀ :: (core ++ List.replicate n 47)) (hl : length < 2 ^ 64)
    (fuel k : Nat) (done done' rest e : Bytes) (hfuel : rest.length ≤ fuel)
    (hdone : done = done' ∨ done.length < done'.length)
    (hroom : done'.length + rest.length < length) :
    let s : Expansion := ⟨done.length, done ++ rest, trimEndpoint^[k] endpoint⟩
    let r := expressionLoop length header fuel s
    let r' := expressionLoopApart length endpoint header fuel ⟨done'.length, done' ++ rest, e⟩
    let met := endpointsMet length header fuel s
    (r.1 = true → r'.1 = true) ∧
      (r.1 = false → (r'.1 = false ∧ r.2.template = r'.2.template ↔
        done = done' ∧ (met = 0 ∨ k + met ≤ 1))) := by
  induction fuel generalizing k done done' rest e with
  | zero =>
      obtain rfl := List.length_eq_zero_iff.mp (Nat.le_zero.mp hfuel)
      refine ⟨fun h => (by cases h), fun _ => ?_⟩
      simp [expressionLoop, expressionLoopApart, endpointsMet]
  | succ fuel ih =>
      cases rest with
      | nil => simp [expressionLoop, expressionLoopApart, endpointsMet]
      | cons c rest =>
          have hmore : ¬(done ++ c :: rest).length ≤ done.length := by simp
          have hmore' : ¬(done' ++ c :: rest).length ≤ done'.length := by simp
          have hpass := expressionPass_both header hcore hn hendpoint hl k hdone hroom
          unfold expressionLoop expressionLoopApart endpointsMet
          simp only [if_neg hmore, if_neg hmore', List.drop_left]
          generalize expressionPass length header
            ⟨done.length, done ++ c :: rest, trimEndpoint^[k] endpoint⟩ = p at hpass ⊢
          generalize expressionPass length header ⟨done'.length, done' ++ c :: rest, endpoint⟩ = p'
            at hpass ⊢
          have hj : (if strncmp (c :: rest) (ascii "%endpoint%") then 1 else 0) ≤ 1 := by
            split <;> omega
          generalize (if strncmp (c :: rest) (ascii "%endpoint%") then 1 else 0) = j at hj hpass ⊢
          cases hpass with
          | fail x x' => exact ⟨fun _ => rfl, fun h => (by cases h)⟩
          | behind x x' hdiff =>
              refine ⟨fun _ => rfl, fun _ => iff_of_false (fun h => (by cases h.1)) ?_⟩
              rintro ⟨hsame, hmet⟩
              have := hdiff.resolve_left (not_not.mpr hsame)
              omega
          | both a b rest₁ e' hrest hroom₁ hsame =>
              simp only [Bool.false_eq_true, if_false]
              rw [List.length_cons] at hfuel hrest
              have hdone₁ : done ++ a = done' ++ b ∨ (done ++ a).length < (done' ++ b).length := by
                rw [List.length_append, List.length_append]
                rcases hsame with ⟨rfl, -⟩ | ⟨h, -⟩
                · rcases hdone with rfl | h
                  · exact .inl rfl
                  · exact .inr (by omega)
                · rcases hdone with rfl | h'
                  · exact .inr (by omega)
                  · exact .inr (by omega)
              obtain ⟨hfail, hagree⟩ := ih (k + j) (done ++ a) (done' ++ b) rest₁ e' (by omega) hdone₁
                (by rw [List.length_append]; omega)
              refine ⟨hfail, fun hr => (hagree hr).trans ?_⟩
              have heq : done ++ a = done' ++ b ↔ done = done' ∧ (j = 0 ∨ k = 0) := by
                constructor
                · intro h
                  have hlen := congrArg List.length h
                  rw [List.length_append, List.length_append] at hlen
                  rcases hsame with ⟨rfl, hjk⟩ | ⟨hlt, -⟩
                  · exact ⟨List.append_cancel_right h, hjk⟩
                  · rcases hdone with rfl | h'
                    · omega
                    · omega
                · rintro ⟨rfl, hjk⟩
                  rcases hsame with ⟨rfl, -⟩ | ⟨-, hj, hk⟩
                  · rfl
                  · omega
              rw [heq]
              generalize endpointsMet length header fuel _ = met
              constructor
              · rintro ⟨⟨h, hjk⟩, hmet⟩
                exact ⟨h, by omega⟩
              · rintro ⟨h, hmet⟩
                exact ⟨⟨h, by omega⟩, by omega⟩

/-- An expression, with the endpoint that was trimmed `k` times. -/
theorem expressionPath_both (header : List WsHttpHeader) (hcore : core.getLast? ≠ some 47)
    (hn : 2 ≤ n) (hendpoint : endpoint = c₀ :: (core ++ List.replicate n 47))
    (backendPath expression : Bytes) (k : Nat) :
    match expressionPath backendPath expression (trimEndpoint^[k] endpoint) header with
    | none => expressionPathApart backendPath endpoint header expression = none
    | some (path, e) =>
      let met := expressionMet backendPath expression (trimEndpoint^[k] endpoint) header
      e = trimEndpoint^[k + met] endpoint ∧
        (some path = expressionPathApart backendPath endpoint header expression ↔
          path = none ∨ met = 0 ∨ k + met ≤ 1) := by
  unfold expressionPath expressionPathApart expressionMet
  by_cases hlong : backendFileMaxPath ≤ backendPath.length + 1
  · rw [if_pos hlong, if_pos hlong]
  rw [if_neg hlong, if_neg hlong]
  unfold expressionResolve
  dsimp only
  have htemplate : (((backendPath ++ 47 :: expression).take (backendFileMaxPath - 1)).drop
      (backendPath.length + 1)).length < backendFileMaxPath - (backendPath.length + 1) := by
    rw [List.length_drop, List.length_take]
    omega
  generalize ((backendPath ++ 47 :: expression).take (backendFileMaxPath - 1)).drop
    (backendPath.length + 1) = template at htemplate ⊢
  have hl : backendFileMaxPath - (backendPath.length + 1) < 2 ^ 64 := by
    unfold backendFileMaxPath
    omega
  generalize backendFileMaxPath - (backendPath.length + 1) = length at htemplate hl ⊢
  have htrims := expressionLoop_trims length header template.length
    ⟨0, template, trimEndpoint^[k] endpoint⟩
  have hroom : ([] : Bytes).length + template.length < length := by
    rw [List.length_nil]
    omega
  obtain ⟨hfail, hagree⟩ := expressionLoop_both header hcore hn hendpoint hl template.length k [] []
    template endpoint (Nat.le_refl _) (.inl rfl) hroom
  simp only [List.length_nil, List.nil_append, true_and] at hfail hagree
  refine ⟨?_, ?_⟩
  · rw [htrims, ← Function.iterate_add_apply, Nat.add_comm]
  generalize expressionLoop length header template.length ⟨0, template, trimEndpoint^[k] endpoint⟩ = r
    at hfail hagree ⊢
  cases hr : r.1 with
  | true =>
      rw [hfail hr]
      exact iff_of_true rfl (.inl rfl)
  | false =>
      rw [← hagree hr]
      simp

theorem expressionPaths_both (header : List WsHttpHeader) (hcore : core.getLast? ≠ some 47)
    (hn : 2 ≤ n) (hendpoint : endpoint = c₀ :: (core ++ List.replicate n 47))
    (backendPath : Bytes) (expressions : List Bytes) (k : Nat) :
    expressionPaths backendPath header expressions (trimEndpoint^[k] endpoint) =
        expressions.map (expressionPathApart backendPath endpoint header) ↔
      MetFirst backendPath header expressions (trimEndpoint^[k] endpoint) k := by
  induction expressions generalizing k with
  | nil => exact iff_of_true rfl trivial
  | cons expression expressions ih =>
      have hpath := expressionPath_both header hcore hn hendpoint backendPath expression k
      unfold expressionPaths MetFirst
      cases hresult : expressionPath backendPath expression (trimEndpoint^[k] endpoint) header with
      | none =>
          rw [hresult] at hpath
          rw [List.map_cons, show expressionPathApart _ _ _ _ = none from hpath, List.cons_inj_right]
          exact ih k
      | some r =>
          obtain ⟨path, e⟩ := r
          rw [hresult] at hpath
          obtain ⟨rfl, hiff⟩ := hpath
          rw [List.map_cons, List.cons.injEq, hiff]
          exact and_congr_right fun _ => ih _

end

/-! ## Independence -/

/-- Where a slash at most stands at the end, each occurrence has the same value. -/
theorem steady_slashes (c : UInt8) {core : Bytes} (hcore : core.getLast? ≠ some 47) {n : Nat}
    (h : n < 2) : Steady (c :: (core ++ List.replicate n 47)) (c :: (core ++ List.replicate n 47)) := by
  intro k
  rw [trimEndpoint_iterate c hcore, endpointValue_slashes c hcore, endpointValue_slashes c hcore,
    show n - k - 1 = n - 1 by omega]

/-- **The expressions are independent**, and with them what `query` tries, exactly if the request
path does not end in two slashes (behind its first character), or no expression that comes to a
path meets `%endpoint%` after it was met before. -/
theorem independentPaths_iff {φ : Type} (b : BackendFile) (endpoint : Bytes)
    (header : List WsHttpHeader) :
    (∀ (l : FramingLibrary φ) (file : Bytes → Option Bytes) (protocol : List Bytes),
      b.query l file endpoint protocol header =
        queryPaths l file protocol (expressionPaths b.backendPath header b.expression endpoint)
          { transport := .detect, protocol := protocol.length }) ∧
    (IndependentPaths b.backendPath header b.expression endpoint ↔
      ¬[47, 47] <:+ endpoint.drop 1 ∨ MetFirst b.backendPath header b.expression endpoint 0) := by
  refine ⟨fun l file protocol => queryExpressions_paths l file _ protocol _ endpoint _, ?_⟩
  cases endpoint with
  | nil =>
      have hsteady : Steady [] [] := fun k => by rw [Function.iterate_fixed rfl k]
      exact iff_of_true (expressionPaths_apart b.backendPath b.expression hsteady) (.inl (by decide))
  | cons c path =>
      obtain ⟨n, hpath, hcore⟩ := exists_slashes path
      rw [List.drop_one, List.tail_cons]
      generalize path.rdropWhile (· == 47) = core at hpath hcore
      subst hpath
      rw [slashes_suffix hcore]
      by_cases hn : 2 ≤ n
      · rw [or_iff_right (not_not.mpr hn)]
        exact expressionPaths_both header hcore hn rfl b.backendPath b.expression 0
      · exact iff_of_true
          (expressionPaths_apart b.backendPath b.expression (steady_slashes c hcore (by omega)))
          (.inl hn)

/-- For the path `/a//` the first `%endpoint%` is `a_`, and the next one is `a`. -/
theorem independentPaths_fails :
    ¬IndependentPaths [] [] [ascii "%endpoint%", ascii "%endpoint%"] (ascii "/a//") := by
  decide +kernel

end Websocksy

import Websocksy.BackendFile
import Websocksy.Lib.Template

/-!
# The expressions of the file backend

`expression_resolve` scans and replaces in place, but what it makes of a template is one pass
over the template as it was: `expressionPieces` cuts the template into its pieces, with the
strings from the request that replace the variables, and the loop ends with their `result`
exactly if they fit into the buffer.
-/

namespace Websocksy

open Buffer CString Template

/-! ## Variables -/

/-- The variables of an expression.  A name ends at the next `%`. -/
inductive Variable
  | endpoint
  | cookie (name : {n : Bytes // 37 ∉ n})
  | header (tag : {n : Bytes // 37 ∉ n})

def Variable.text : Variable → Bytes
  | .endpoint => ascii "%endpoint%"
  | .cookie name => ascii "%cookie:" ++ name.val ++ [37]
  | .header tag => ascii "%header:" ++ tag.val ++ [37]

def isVariable (t : Bytes) : Prop := ∃ v : Variable, t = v.text

/-- `value` is a value of the cookie `name` in a `Cookie` header. -/
def IsCookie (name cookies value : Bytes) : Prop :=
  ∃ front back, cookies = front ++ (name ++ 61 :: value) ++ back ∧
    (front = [] ∨ ascii "; " <:+ front) ∧ 59 ∉ value ∧ (back = [] ∨ back.head? = some 59)

/-- `value` is what the request has for a variable. -/
def RequestValue (endpoint : Bytes) (header : List WsHttpHeader) : Variable → Bytes → Prop
  | .endpoint, value => ∃ c k, endpoint = c :: (value ++ List.replicate k 47)
  | .cookie name, value =>
      ∃ h, header.find? (·.tag = ascii "Cookie") = some h ∧ IsCookie name h.value value
  | .header tag, value => ∃ h, header.find? (·.tag = tag.val) = some h ∧ h.value = value

/-- The pieces of a template and their values, in one pass over the template. -/
def expressionPieces (header : List WsHttpHeader) : Nat → Bytes → Bytes → Option (List (Piece UInt8))
  | _, _, [] => some []
  | 0, _, _ :: _ => none
  | fuel + 1, endpoint, c :: template =>
    if c = 37 then
      match expressionVariable (c :: template) endpoint header with
      | (.none, endpoint) => (expressionPieces header fuel endpoint template).map (.char c :: ·)
      | (.fail, _) => none
      | (.value n value, endpoint) =>
        (expressionPieces header fuel endpoint ((c :: template).drop n)).map
          (.inserted ((c :: template).take n) (value.map sanitize) :: ·)
    else (expressionPieces header fuel endpoint template).map (.char c :: ·)

section

variable {template endpoint endpoint' value : Bytes} {header : List WsHttpHeader} {n length : Nat}

/-! ## Cookies -/

theorem nextCookie_suffix (value : Bytes) :
    nextCookie value = [] ∨ ∃ front, value = front ++ nextCookie value ∧ ascii "; " <:+ front := by
  induction value with
  | nil => exact .inl rfl
  | cons c value ih =>
      unfold nextCookie
      split
      · next h =>
        obtain ⟨t, ht⟩ := List.isPrefixOf_iff_prefix.mp h
        have hdrop : (c :: value).drop 2 = t := by
          rw [← ht]
          rfl
        refine .inr ⟨ascii "; ", ?_, List.suffix_refl _⟩
        rw [hdrop, ht]
      · rcases ih with h | ⟨front, hfront, hs⟩
        · exact .inl h
        · refine .inr ⟨c :: front, by rw [List.cons_append, ← hfront], ?_⟩
          exact hs.trans (List.suffix_cons c front)

theorem IsCookie.behind {name value v front : Bytes} (hf : ascii "; " <:+ front)
    (h : IsCookie name v value) : IsCookie name (front ++ v) value := by
  obtain ⟨before, back, hv, hb, hsemi, hback⟩ := h
  refine ⟨front ++ before, back, by rw [hv]; simp, .inr ?_, hsemi, hback⟩
  rcases hb with rfl | hb
  · rwa [List.append_nil]
  · exact hb.trans (List.suffix_append front before)

theorem findCookie_isCookie {name v : Bytes} (fuel : Nat) (h : findCookie name fuel v = some value) :
    IsCookie name v value := by
  induction fuel generalizing v with
  | zero => cases h
  | succ fuel ih =>
      unfold findCookie at h
      split at h
      · cases h
      next hlong =>
      split at h
      · next hfound =>
        obtain ⟨heq, hname⟩ := hfound
        dsimp only at h
        split at h
        · cases h
        cases h
        obtain ⟨t, rfl⟩ := List.isPrefixOf_iff_prefix.mp hname
        cases t with
        | nil =>
            rw [List.append_nil] at hlong
            omega
        | cons c t =>
            have hc : c = 61 := by
              rw [List.getD_eq_getElem?_getD, List.getElem?_append_right (Nat.le_refl _)] at heq
              simpa using heq
            subst hc
            have hdrop : (name ++ 61 :: t).drop (name.length + 1) = t := by
              rw [List.drop_append, List.drop_of_length_le (by omega)]
              simp
            rw [hdrop]
            refine ⟨[], t.dropWhile (· != 59), ?_, .inl rfl, ?_, ?_⟩
            · simp [List.takeWhile_append_dropWhile]
            · intro hmem
              simpa using List.mem_takeWhile_imp hmem
            · cases hd : t.dropWhile (· != 59) with
              | nil => exact .inl rfl
              | cons d ds =>
                  right
                  have hhead := List.head?_dropWhile_not (· != (59 : UInt8)) t
                  rw [hd] at hhead
                  simpa using hhead
      · dsimp only at h
        split at h
        · cases h
        · next hmore =>
          rcases nextCookie_suffix v with hnone | ⟨front, hv, hs⟩
          · rw [hnone] at hmore
            exact absurd rfl hmore
          · rw [hv]
            exact (ih h).behind hs

/-! ## One variable -/

/-- A name up to the next `%`. -/
theorem strchr_variable {pre t index rest : Bytes} (h : strncmp t pre)
    (hi : strchr 37 (t.drop pre.length) = some (index, rest)) :
    37 ∉ index ∧ t = (pre ++ index ++ [37]) ++ rest := by
  obtain ⟨u, rfl⟩ := List.isPrefixOf_iff_prefix.mp h
  rw [List.drop_left] at hi
  refine ⟨?_, ?_⟩
  · exact strchr_notMem hi
  · rw [strchr_eq_some 37 u _ hi]
    simp

/-- The endpoint loses at most a slash at its end. -/
theorem endpoint_trimmed (endpoint : Bytes) :
    ∃ k, endpoint = (if 2 ≤ endpoint.length ∧ endpoint.getLast? = some 47 then endpoint.dropLast
      else endpoint) ++ List.replicate k 47 := by
  split
  · next h =>
    refine ⟨1, ?_⟩
    obtain ⟨front, rfl⟩ := List.getLast?_eq_some_iff.mp h.2
    rw [List.dropLast_concat]
    rfl
  · exact ⟨0, (List.append_nil _).symm⟩

/-- **A variable that is found** stands at the start of the template, and its value is one of
the request. -/
theorem expressionVariable_value
    (h : expressionVariable template endpoint header = (.value n value, endpoint')) :
    ∃ v : Variable, template.take n = v.text ∧ v.text.length = n ∧ n ≤ template.length ∧ 0 < n ∧
      RequestValue endpoint header v value ∧ ∃ k, endpoint = endpoint' ++ List.replicate k 47 := by
  have htext : ∀ {t rest : Bytes}, template = t ++ rest → template.take t.length = t ∧
      t.length ≤ template.length := by
    rintro t rest rfl
    exact ⟨List.take_left, by rw [List.length_append]; omega⟩
  unfold expressionVariable at h
  split at h
  · next hend =>
    split at h
    · cases h
    next hne =>
    cases h
    obtain ⟨rest, hrest⟩ := List.isPrefixOf_iff_prefix.mp hend
    obtain ⟨htake, hle⟩ := htext hrest.symm
    refine ⟨.endpoint, htake, rfl, hle, by decide, ?_, endpoint_trimmed endpoint⟩
    obtain ⟨k, hk⟩ := endpoint_trimmed endpoint
    generalize hshort : (if 2 ≤ endpoint.length ∧ endpoint.getLast? = some 47 then endpoint.dropLast
      else endpoint) = short at hk ⊢
    cases short with
    | nil =>
        -- an endpoint of one character is not cut
        exfalso
        split at hshort
        · next h2 =>
          have hlen := congrArg List.length hshort
          rw [List.length_dropLast, List.length_nil] at hlen
          omega
        · rw [hshort] at hne
          exact hne (by decide)
    | cons c short => exact ⟨c, k, hk⟩
  split at h
  · next hcookie =>
    split at h
    · cases h
    next index rest hi =>
    split at h
    · cases h
    next hd hfind =>
    split at h
    · cases h
    next v hv =>
    cases h
    obtain ⟨hindex, ht⟩ := strchr_variable hcookie hi
    obtain ⟨htake, hle⟩ := htext ht
    have hlen : (ascii "%cookie:" ++ index ++ [37]).length = 8 + index.length + 1 := by
      simp [ascii]
      omega
    rw [hlen] at htake hle
    exact ⟨.cookie ⟨index, hindex⟩, htake, hlen, hle, by omega,
      ⟨hd, hfind, findCookie_isCookie _ hv⟩, 0, (List.append_nil _).symm⟩
  split at h
  · next hheader =>
    split at h
    · cases h
    next index rest hi =>
    split at h
    · cases h
    next hd hfind =>
    cases h
    obtain ⟨hindex, ht⟩ := strchr_variable hheader hi
    obtain ⟨htake, hle⟩ := htext ht
    have hlen : (ascii "%header:" ++ index ++ [37]).length = 8 + index.length + 1 := by
      simp [ascii]
      omega
    rw [hlen] at htake hle
    exact ⟨.header ⟨index, hindex⟩, htake, hlen, hle, by omega, ⟨hd, hfind, rfl⟩, 0,
      (List.append_nil _).symm⟩
  · cases h

/-- Where no variable is found there is none. -/
theorem expressionVariable_none (h : expressionVariable template endpoint header = (.none, endpoint')) :
    endpoint' = endpoint ∧ ∀ t, isVariable t → ¬t <+: template := by
  have hnot : ∀ {p t : Bytes}, strncmp template p = false → p <+: t → ¬t <+: template := by
    intro p t hp hpt ht
    rw [strncmp, List.isPrefixOf_iff_prefix.mpr (hpt.trans ht)] at hp
    cases hp
  unfold expressionVariable at h
  split at h
  · split at h <;> cases h
  next hend =>
  split at h
  · split at h
    · cases h
    split at h
    · cases h
    split at h <;> cases h
  next hcookie =>
  split at h
  · split at h
    · cases h
    split at h <;> cases h
  next hheader =>
  cases h
  refine ⟨rfl, ?_⟩
  rintro t ⟨v, rfl⟩
  cases v with
  | endpoint => exact hnot (p := ascii "%endpoint%") (by simpa using hend) (List.prefix_refl _)
  | cookie name =>
      refine hnot (by simpa using hcookie) ?_
      rw [Variable.text, List.append_assoc]
      exact List.prefix_append _ _
  | header tag =>
      refine hnot (by simpa using hheader) ?_
      rw [Variable.text, List.append_assoc]
      exact List.prefix_append _ _

/-- A variable starts with `%`. -/
theorem isVariable_head {c : UInt8} {t : Bytes} (hc : c ≠ 37) (ht : isVariable t) :
    ¬t <+: c :: template := by
  obtain ⟨v, rfl⟩ := ht
  rintro ⟨rest, hrest⟩
  have hhead : v.text.head? = some 37 := by cases v <;> rfl
  cases hv : v.text with
  | nil =>
      rw [hv] at hhead
      cases hhead
  | cons d u =>
      rw [hv] at hhead hrest
      exact hc ((List.cons.inj hrest).1.symm.trans (Option.some.inj hhead))

/-! ## Values -/

theorem sanitize_notMem (value : Bytes) : 47 ∉ value.map sanitize := by
  intro h
  obtain ⟨c, -, hc⟩ := List.mem_map.mp h
  unfold sanitize at hc
  split at hc
  · cases hc
  next hne => exact hne hc

/-- A value for an endpoint that has lost slashes at its end is one for the endpoint. -/
theorem RequestValue.untrimmed {v : Variable} {k : Nat}
    (h : RequestValue endpoint header v value) :
    RequestValue (endpoint ++ List.replicate k 47) header v value := by
  cases v with
  | endpoint =>
      obtain ⟨c, j, rfl⟩ := h
      exact ⟨c, j + k, by rw [← List.replicate_append_replicate]; simp⟩
  | cookie name => exact h
  | header tag => exact h

/-- What the pieces of an expression insert. -/
def Inserts (endpoint : Bytes) (header : List WsHttpHeader) (ps : List (Piece UInt8)) : Prop :=
  ∀ t value, .inserted t value ∈ ps →
    ∃ v : Variable, t = v.text ∧ ∃ raw, RequestValue endpoint header v raw ∧ value = raw.map sanitize

theorem Inserts.notMem {ps : List (Piece UInt8)} (h : Inserts endpoint header ps) (t value : Bytes)
    (hm : .inserted t value ∈ ps) : 47 ∉ value := by
  obtain ⟨v, -, raw, -, rfl⟩ := h t value hm
  exact sanitize_notMem raw

/-- **The pieces** cut the template at its variables and insert what the request has for them. -/
theorem expressionPieces_cut (fuel : Nat) {ps : List (Piece UInt8)}
    (h : expressionPieces header fuel endpoint template = some ps) :
    Cut isVariable template ps ∧ Inserts endpoint header ps := by
  induction fuel generalizing endpoint template ps with
  | zero =>
      cases template with
      | nil =>
          cases h
          exact ⟨.nil, fun _ _ hm => by cases hm⟩
      | cons c template => cases h
  | succ fuel ih =>
      cases template with
      | nil =>
          cases h
          exact ⟨.nil, fun _ _ hm => by cases hm⟩
      | cons c template =>
          -- a character that stays adds no insertion
          have hchar : ∀ {ps : List (Piece UInt8)}, (∀ t, isVariable t → ¬t <+: c :: template) →
              (expressionPieces header fuel endpoint template).map (.char c :: ·) = some ps →
              Cut isVariable (c :: template) ps ∧ Inserts endpoint header ps := by
            intro ps hc hps
            obtain ⟨qs, hqs, rfl⟩ := Option.map_eq_some_iff.mp hps
            obtain ⟨hcut, hins⟩ := ih hqs
            refine ⟨.char c template qs hc hcut, ?_⟩
            intro t value hm
            rcases List.mem_cons.mp hm with h | h
            · cases h
            · exact hins t value h
          unfold expressionPieces at h
          split at h
          · split at h
            · next hv =>
              obtain ⟨rfl, hnone⟩ := expressionVariable_none hv
              exact hchar hnone h
            · cases h
            · next n value endpoint' hv =>
              obtain ⟨qs, hqs, rfl⟩ := Option.map_eq_some_iff.mp h
              obtain ⟨hcut, hins⟩ := ih hqs
              obtain ⟨v, htext, -, -, -, hvalue, k, hk⟩ := expressionVariable_value hv
              have hcut' := Cut.inserted _ (value.map sanitize) _ qs ⟨v, htext⟩ hcut
              rw [List.take_append_drop] at hcut'
              refine ⟨hcut', ?_⟩
              intro t value' hm
              rcases List.mem_cons.mp hm with h | h
              · cases h
                exact ⟨v, htext, value, hvalue, rfl⟩
              · obtain ⟨w, hw, raw, hraw, hval⟩ := hins t value' h
                rw [hk]
                exact ⟨w, hw, raw, hraw.untrimmed, hval⟩
          · next hc => exact hchar (fun t ht => isVariable_head hc ht) h

/-! ## The loop -/

variable {done rest : Bytes} {c : UInt8}

/-- What stands at the front of a template: a character other than `%` is no variable. -/
def variableAt (header : List WsHttpHeader) (endpoint template : Bytes) : ExpressionVariable × Bytes :=
  if template.head? = some 37 then expressionVariable template endpoint header else (.none, endpoint)

/-- **A pass**, with what is expanded already in front. -/
theorem expressionPass_eq (hroom : done.length + (c :: rest).length < length) (hl : length < 2 ^ 64) :
    expressionPass length header ⟨done.length, done ++ c :: rest, endpoint⟩ =
      match variableAt header endpoint (c :: rest) with
      | (.none, e) => (false, ⟨(done ++ [c]).length, (done ++ [c]) ++ rest, e⟩)
      | (.fail, e) => (true, ⟨done.length, done ++ c :: rest, e⟩)
      | (.value n v, e) =>
        if n < v.length ∧ length ≤ done.length + (c :: rest).length + (v.length - n) then
          (true, ⟨done.length, done ++ c :: rest, e⟩)
        else
          (false, ⟨(done ++ v.map sanitize).length, (done ++ v.map sanitize) ++ (c :: rest).drop n,
            e⟩) := by
  have hcons : done ++ c :: rest = (done ++ [c]) ++ rest := by simp
  have hnext : (done.length + 1) % 2 ^ 64 = (done ++ [c]).length := by
    rw [List.length_append, List.length_singleton]
    rw [List.length_cons] at hroom
    omega
  unfold expressionPass variableAt
  simp only [List.drop_left, List.head?_cons, Option.some.injEq]
  by_cases hc : c = 37
  · rw [if_pos hc, if_pos hc]
    rcases hv : expressionVariable (c :: rest) endpoint header with ⟨_ | _ | ⟨n, v⟩, e⟩
    · dsimp only
      rw [hnext, ← hcons]
    · rfl
    · obtain ⟨-, -, -, hle, -⟩ := expressionVariable_value hv
      dsimp only
      unfold expressionReplace
      have hfull : n < v.length ∧ length - done.length ≤ (c :: rest).length + (v.length - n) ↔
          n < v.length ∧ length ≤ done.length + (c :: rest).length + (v.length - n) := by omega
      by_cases hbig : n < v.length ∧ length ≤ done.length + (c :: rest).length + (v.length - n)
      · rw [if_pos (hfull.mpr hbig), if_pos hbig]
      · have hu : ((done.length + (v.length + (2 ^ 64 - 1)) % 2 ^ 64) % 2 ^ 64 + 1) % 2 ^ 64 =
            (done ++ v.map sanitize).length := by
          rw [List.length_append, List.length_map]
          omega
        rw [if_neg fun h => hbig (hfull.mp h), if_neg hbig]
        dsimp only
        rw [List.take_left, hu, List.append_assoc]
  · rw [if_neg hc, if_neg hc]
    dsimp only
    rw [hnext, ← hcons]

/-- **A pass** leaves a character, inserts a value that fits, or fails: at a variable that the
request does not have or whose value does not fit. -/
theorem expressionPass_cases (fuel : Nat) (hroom : done.length + (c :: rest).length < length)
    (hl : length < 2 ^ 64) :
    (expressionPass length header ⟨done.length, done ++ c :: rest, endpoint⟩ =
        (false, ⟨(done ++ [c]).length, (done ++ [c]) ++ rest, endpoint⟩) ∧
      expressionPieces header (fuel + 1) endpoint (c :: rest) =
        (expressionPieces header fuel endpoint rest).map (.char c :: ·)) ∨
    (∃ n value endpoint', 0 < n ∧ n ≤ (c :: rest).length ∧
      (n < value.length → done.length + value.length + ((c :: rest).drop n).length < length) ∧
      expressionPass length header ⟨done.length, done ++ c :: rest, endpoint⟩ =
        (false, ⟨(done ++ value).length, (done ++ value) ++ (c :: rest).drop n, endpoint'⟩) ∧
      expressionPieces header (fuel + 1) endpoint (c :: rest) =
        (expressionPieces header fuel endpoint' ((c :: rest).drop n)).map
          (.inserted ((c :: rest).take n) value :: ·)) ∨
    ((expressionPass length header ⟨done.length, done ++ c :: rest, endpoint⟩).1 = true ∧
      (expressionPass length header ⟨done.length, done ++ c :: rest, endpoint⟩).2.template =
        done ++ c :: rest ∧
      ∀ ps, expressionPieces header (fuel + 1) endpoint (c :: rest) = some ps →
        ¬Fits length done.length ps) := by
  rw [expressionPass_eq hroom hl]
  have hchar : c ≠ 37 → variableAt header endpoint (c :: rest) = (.none, endpoint) := fun hc =>
    if_neg (by simpa using hc)
  by_cases hc : c = 37
  · have hat : variableAt header endpoint (c :: rest) =
        expressionVariable (c :: rest) endpoint header := if_pos (by rw [List.head?_cons, hc])
    rw [hat]
    rcases hv : expressionVariable (c :: rest) endpoint header with ⟨_ | _ | ⟨n, value⟩, endpoint'⟩
    · obtain ⟨rfl, -⟩ := expressionVariable_none hv
      refine .inl ⟨rfl, ?_⟩
      rw [expressionPieces, if_pos hc, hv]
    · refine .inr (.inr ⟨rfl, rfl, ?_⟩)
      intro ps h
      rw [expressionPieces, if_pos hc, hv] at h
      cases h
    · obtain ⟨v, -, -, hle, hpos, -, -⟩ := expressionVariable_value hv
      have hdrop : ((c :: rest).drop n).length = (c :: rest).length - n := List.length_drop
      have hpieces : expressionPieces header (fuel + 1) endpoint (c :: rest) =
          (expressionPieces header fuel endpoint' ((c :: rest).drop n)).map
            (.inserted ((c :: rest).take n) (value.map sanitize) :: ·) := by
        rw [expressionPieces, if_pos hc, hv]
      right
      by_cases hbig : n < value.length ∧
          length ≤ done.length + (c :: rest).length + (value.length - n)
      · -- the pieces have the value, but it does not fit
        simp only [hbig, and_self, if_true]
        refine .inr ⟨trivial, trivial, ?_⟩
        intro ps hps hfits
        rw [hpieces] at hps
        obtain ⟨qs, hqs, rfl⟩ := Option.map_eq_some_iff.mp hps
        have hsource := (expressionPieces_cut fuel hqs).1.source
        have hlen := hfits.1 (by rw [List.length_map, List.length_take]; omega)
        rw [hsource, List.length_map] at hlen
        omega
      · simp only [if_neg hbig]
        refine .inl ⟨n, value.map sanitize, endpoint', hpos, hle, ?_, rfl, hpieces⟩
        rw [List.length_map]
        omega
  · rw [hchar hc]
    refine .inl ⟨rfl, ?_⟩
    rw [expressionPieces, if_neg hc]

/-- **The loop in place is one pass over the template.**  The induction is on the passes left;
`done` is what they have made of the template so far. -/
theorem expressionLoop_pieces (fuel : Nat) (hfuel : rest.length ≤ fuel)
    (hroom : done.length + rest.length < length) (hl : length < 2 ^ 64) :
    (∃ ps endpoint', expressionPieces header fuel endpoint rest = some ps ∧
      Fits length done.length ps ∧
      expressionLoop length header fuel ⟨done.length, done ++ rest, endpoint⟩ =
        (false, ⟨(done ++ result ps).length, done ++ result ps, endpoint'⟩)) ∨
    ((expressionLoop length header fuel ⟨done.length, done ++ rest, endpoint⟩).1 = true ∧
      ∀ ps, expressionPieces header fuel endpoint rest = some ps → ¬Fits length done.length ps) := by
  induction fuel generalizing done rest endpoint with
  | zero =>
      obtain rfl := List.length_eq_zero_iff.mp (Nat.le_zero.mp hfuel)
      exact .inl ⟨[], endpoint, by simp [expressionPieces, expressionLoop, Fits, result]⟩
  | succ fuel ih =>
      cases rest with
      | nil => exact .inl ⟨[], endpoint, by simp [expressionPieces, expressionLoop, Fits, result]⟩
      | cons c rest =>
          have hmore : ¬(done ++ c :: rest).length ≤ done.length := by simp
          unfold expressionLoop
          rw [if_neg hmore]
          rw [List.length_cons] at hfuel
          rcases expressionPass_cases fuel hroom hl with
            ⟨hpass, hpieces⟩ | ⟨n, value, endpoint', hpos, hle, hfit, hpass, hpieces⟩ |
            ⟨hfail, -, hpieces⟩
          · rw [hpass, hpieces]
            simp only [Bool.false_eq_true, if_false]
            have hlen : (done ++ [c]).length = done.length + 1 := by simp
            rcases @ih endpoint (done ++ [c]) rest (by omega)
                (by rw [hlen]; rw [List.length_cons] at hroom; omega) with
              ⟨ps, e', hps, hf, hloop⟩ | ⟨htrue, hno⟩
            · refine .inl ⟨.char c :: ps, e', by rw [hps]; rfl, ?_, ?_⟩
              · rw [hlen] at hf
                exact hf
              · rw [hloop, result_cons, Piece.after, List.append_assoc]
            · refine .inr ⟨htrue, ?_⟩
              intro ps hps hf
              obtain ⟨qs, hqs, rfl⟩ := Option.map_eq_some_iff.mp hps
              refine hno qs hqs ?_
              rw [hlen]
              exact hf
          · rw [hpass, hpieces]
            simp only [Bool.false_eq_true, if_false]
            have hdrop : ((c :: rest).drop n).length = (c :: rest).length - n := List.length_drop
            have hlen : (done ++ value).length = done.length + value.length := List.length_append
            have htake : ((c :: rest).take n).length = n := by
              rw [List.length_take]
              omega
            rw [List.length_cons] at hdrop hle hroom
            rcases @ih endpoint' (done ++ value) ((c :: rest).drop n) (by omega) (by omega) with
              ⟨ps, e', hps, hf, hloop⟩ | ⟨htrue, hno⟩
            · refine .inl ⟨.inserted ((c :: rest).take n) value :: ps, e', by rw [hps]; rfl, ?_, ?_⟩
              · rw [Fits, htake, (expressionPieces_cut fuel hps).1.source]
                rw [hlen] at hf
                exact ⟨hfit, hf⟩
              · rw [hloop, result_cons, Piece.after, List.append_assoc]
            · refine .inr ⟨htrue, ?_⟩
              intro ps hps hf
              obtain ⟨qs, hqs, rfl⟩ := Option.map_eq_some_iff.mp hps
              refine hno qs hqs ?_
              rw [hlen]
              exact hf.2
          · rw [if_pos hfail]
            exact .inr ⟨hfail, hpieces⟩

/-- What the loop does to a whole template. -/
theorem expressionResolve_pieces {template : Bytes} (endpoint : Bytes)
    (header : List WsHttpHeader) (hroom : template.length < length) (hl : length < 2 ^ 64) :
    (∃ ps endpoint', expressionPieces header template.length endpoint template = some ps ∧
      Fits length 0 ps ∧ expressionResolve template length endpoint header =
        (false, ⟨(result ps).length, result ps, endpoint'⟩)) ∨
    ((expressionResolve template length endpoint header).1 = true ∧
      ∀ ps, expressionPieces header template.length endpoint template = some ps →
        ¬Fits length 0 ps) := by
  have hroom' : ([] : Bytes).length + template.length < length := by
    rw [List.length_nil]
    omega
  have h := @expressionLoop_pieces endpoint header length [] template template.length
    (Nat.le_refl _) hroom' hl
  exact h

/-- The template is shorter than its buffer after every number of passes. -/
theorem expressionLoop_length (fuel : Nat) (hroom : done.length + rest.length < length)
    (hl : length < 2 ^ 64) :
    (expressionLoop length header fuel ⟨done.length, done ++ rest, endpoint⟩).2.template.length <
      length := by
  have hall : (done ++ rest).length < length := by rwa [List.length_append]
  induction fuel generalizing done rest endpoint with
  | zero => exact hall
  | succ fuel ih =>
      unfold expressionLoop
      cases rest with
      | nil =>
          rw [if_pos (by simp)]
          exact hall
      | cons c rest =>
          have hmore : ¬(done ++ c :: rest).length ≤ done.length := by simp
          rw [if_neg hmore]
          rcases expressionPass_cases fuel hroom hl with
            ⟨hpass, -⟩ | ⟨n, value, endpoint', hpos, hle, hfit, hpass, -⟩ | ⟨hfail, hsame, -⟩
          · have hlen : (done ++ [c]).length + rest.length < length := by
              rw [List.length_append, List.length_singleton]
              rw [List.length_cons] at hroom
              omega
            rw [hpass]
            exact ih hlen (by rwa [List.length_append])
          · have hdrop : ((c :: rest).drop n).length = (c :: rest).length - n := List.length_drop
            have hlen : (done ++ value).length + ((c :: rest).drop n).length < length := by
              rw [List.length_append]
              omega
            rw [hpass]
            exact ih hlen (by rwa [List.length_append])
          · simp only [hfail, if_true]
            rw [hsame]
            exact hall

/-- **Expansion is a single pass that keeps the slashes.**  Whatever the number of passes, the
template with its NUL fits into the buffer; an expression that does not fail has come to its end
with what the pieces of the template make, in which every slash is one of the template. -/
theorem expression_substituted (template endpoint : Bytes) (header : List WsHttpHeader)
    (length : Nat) (hroom : template.length < length) (hl : length < 2 ^ 64) :
    (∀ passes, (expressionLoop length header passes ⟨0, template, endpoint⟩).2.template.length + 1 ≤
      length) ∧
    ((expressionResolve template length endpoint header).1 = false →
      ∃ ps, Cut isVariable template ps ∧ Inserts endpoint header ps ∧
        (expressionResolve template length endpoint header).2.template = result ps ∧
        (expressionResolve template length endpoint header).2.u = (result ps).length ∧
        (result ps).count 47 = ps.countP (isSeparator 47)) := by
  have hroom' : ([] : Bytes).length + template.length < length := by
    rw [List.length_nil]
    omega
  refine ⟨?_, ?_⟩
  · intro passes
    exact expressionLoop_length passes hroom' hl
  · intro h
    rcases expressionResolve_pieces endpoint header hroom hl with ⟨ps, e', hps, -, hloop⟩ | ⟨hfail, -⟩
    · obtain ⟨hcut, hins⟩ := expressionPieces_cut _ hps
      refine ⟨ps, hcut, hins, ?_, ?_, count_result 47 hins.notMem⟩
      · exact congrArg (·.2.template) hloop
      · exact congrArg (·.2.u) hloop
    · exact absurd (h.symm.trans hfail) (by decide)

/-- A cookie that spells a variable is inserted as it is, with its slash replaced. -/
theorem expression_substituted_sample :
    (expressionResolve (ascii "%cookie:id%-%endpoint%") 64 (ascii "/a/b/")
      [⟨ascii "Cookie", ascii "x=1; id=%endpoint%/"⟩]).1 = false ∧
    (expressionResolve (ascii "%cookie:id%-%endpoint%") 64 (ascii "/a/b/")
      [⟨ascii "Cookie", ascii "x=1; id=%endpoint%/"⟩]).2.template = ascii "%endpoint%_-a_b" ∧
    ∃ ps, Cut isVariable (ascii "%cookie:id%-%endpoint%") ps ∧
      ascii "%endpoint%_-a_b" = result ps := by
  have hfalse : (expressionResolve (ascii "%cookie:id%-%endpoint%") 64 (ascii "/a/b/")
      [⟨ascii "Cookie", ascii "x=1; id=%endpoint%/"⟩]).1 = false := by
    decide +kernel
  have hresult : (expressionResolve (ascii "%cookie:id%-%endpoint%") 64 (ascii "/a/b/")
      [⟨ascii "Cookie", ascii "x=1; id=%endpoint%/"⟩]).2.template = ascii "%endpoint%_-a_b" := by
    decide +kernel
  obtain ⟨ps, hcut, -, hps, -⟩ := (expression_substituted (ascii "%cookie:id%-%endpoint%")
    (ascii "/a/b/") [⟨ascii "Cookie", ascii "x=1; id=%endpoint%/"⟩] 64 (by decide)
    (by decide)).2 hfalse
  exact ⟨hfalse, hresult, ps, hcut, hresult.symm.trans hps⟩

end

end Websocksy

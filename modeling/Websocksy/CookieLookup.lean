import Websocksy.Templates

/-!
# Cookies

A `Cookie` header is a list of pairs.  `%cookie:<name>%` is replaced by the value of the first
pair with the name, except that a pair at the end of the header with no value is not found.
-/

namespace Websocksy

open Buffer CString Template

/-- The name of a cookie: no `=`, no `;`, no `%` and no space. -/
abbrev CookieName := {n : Bytes // 61 ∉ n ∧ 59 ∉ n ∧ 37 ∉ n ∧ 32 ∉ n}

/-- The value of a cookie: no `;`. -/
abbrev CookieValue := {v : Bytes // 59 ∉ v}

abbrev Cookies := List (CookieName × CookieValue)

def cookiePair (p : CookieName × CookieValue) : Bytes := p.1.val ++ 61 :: p.2.val

/-- The pairs, as they stand in the header. -/
def cookieText (cookies : Cookies) : Bytes := (ascii "; ").intercalate (cookies.map cookiePair)

/-- The variable for a cookie. -/
def cookieVariable (name : CookieName) : Bytes := ascii "%cookie:" ++ name.val ++ [37]

/-- Where the loop of `expression_resolve` comes to `%cookie:<name>%`, it goes on behind the value
of the first pair with the name, or the expression fails because there is none. -/
def CookieReplaced (cookies : Cookies) (name : CookieName) : Prop :=
  ∀ (header : List WsHttpHeader) (h : WsHttpHeader), header.find? (·.tag = ascii "Cookie") = some h →
    h.value = cookieText cookies →
    ∀ (length : Nat) (done rest endpoint : Bytes) (fuel : Nat), length < 2 ^ 64 →
      (∀ v ∈ cookies.lookup name, done.length + v.val.length + rest.length < length) →
      expressionLoop length header (fuel + 1)
          ⟨done.length, done ++ (cookieVariable name ++ rest), endpoint⟩ =
        match cookies.lookup name with
        | some v => expressionLoop length header fuel
            ⟨(done ++ v.val.map sanitize).length, (done ++ v.val.map sanitize) ++ rest, endpoint⟩
        | none => (true, ⟨done.length, done ++ (cookieVariable name ++ rest), endpoint⟩)

/-- The first pair with the name stands at the end of the header, and has no value. -/
def LastEmpty (cookies : Cookies) (name : CookieName) : Prop :=
  (cookies.dropWhile fun p => decide (p.1 ≠ name)) = [(name, ⟨[], List.not_mem_nil⟩)]

instance (cookies : Cookies) (name : CookieName) : Decidable (LastEmpty cookies name) :=
  inferInstanceAs (Decidable (_ = _))

section

variable {name : CookieName} {cookies : Cookies}

/-- The skip to the next cookie. -/
theorem nextCookie_append {w : Bytes} (hw : 59 ∉ w) (t : Bytes) :
    nextCookie (w ++ (ascii "; " ++ t)) = t := by
  induction w with
  | nil => rfl
  | cons c w ih =>
      rw [List.mem_cons, not_or] at hw
      have hc : strncmp (c :: (w ++ (ascii "; " ++ t))) (ascii "; ") = false := by
        unfold strncmp
        simp [ascii, List.isPrefixOf, hw.1]
      rw [List.cons_append, nextCookie, hc]
      exact ih hw.2

theorem nextCookie_last {w : Bytes} (hw : 59 ∉ w) : nextCookie w = [] := by
  induction w with
  | nil => rfl
  | cons c w ih =>
      rw [List.mem_cons, not_or] at hw
      have hc : strncmp (c :: w) (ascii "; ") = false := by
        unfold strncmp
        simp [ascii, List.isPrefixOf, hw.1]
      rw [nextCookie, hc]
      exact ih hw.2

theorem cookiePair_notMem (p : CookieName × CookieValue) : 59 ∉ cookiePair p := by
  obtain ⟨⟨n, hn⟩, ⟨v, hv⟩⟩ := p
  simp [cookiePair, hn.2.1, hv]

theorem cookieText_cons (p q : CookieName × CookieValue) (cookies : Cookies) :
    cookieText (p :: q :: cookies) = cookiePair p ++ (ascii "; " ++ cookieText (q :: cookies)) := by
  simp [cookieText, List.intercalate]

theorem cookieText_single (p : CookieName × CookieValue) : cookieText [p] = cookiePair p := by
  simp [cookieText, List.intercalate]

theorem cookieText_ne_nil (p : CookieName × CookieValue) (cookies : Cookies) :
    cookieText (p :: cookies) ≠ [] := by
  cases cookies with
  | nil => simp [cookieText_single, cookiePair]
  | cons q cookies => simp [cookieText_cons, cookiePair]

/-- What the cookies from the next pair on are. -/
theorem cookieText_tail (p : CookieName × CookieValue) (cookies : Cookies) :
    ∃ tail, cookieText (p :: cookies) = p.1.val ++ 61 :: (p.2.val ++ tail) ∧
      nextCookie (cookieText (p :: cookies)) = cookieText cookies ∧
      (tail = [] ↔ cookies = []) ∧ (tail = [] ∨ tail.head? = some 59) := by
  cases cookies with
  | nil =>
      refine ⟨[], by simp [cookieText_single, cookiePair], ?_, by simp, .inl rfl⟩
      rw [cookieText_single, nextCookie_last (cookiePair_notMem p)]
      rfl
  | cons q cookies =>
      refine ⟨ascii "; " ++ cookieText (q :: cookies), ?_, ?_, by simp [ascii], .inr rfl⟩
      · simp [cookieText_cons, cookiePair]
      · rw [cookieText_cons, nextCookie_append (cookiePair_notMem p)]

/-- There is room for each of the pairs. -/
theorem length_le_cookieText {p : CookieName × CookieValue} (hp : p ∈ cookies) :
    p.1.val.length + 1 ≤ (cookieText cookies).length ∧
      p.2.val.length ≤ (cookieText cookies).length := by
  induction cookies with
  | nil => cases hp
  | cons q cookies ih =>
      obtain ⟨tail, htext, -, -, -⟩ := cookieText_tail q cookies
      rcases List.mem_cons.mp hp with rfl | hp
      · rw [htext]
        simp only [List.length_append, List.length_cons]
        omega
      · obtain ⟨hn, hv⟩ := ih hp
        cases cookies with
        | nil => cases hp
        | cons r cookies =>
            rw [cookieText_cons]
            simp only [List.length_append]
            omega

theorem length_le_cookies (cookies : Cookies) : cookies.length ≤ (cookieText cookies).length := by
  induction cookies with
  | nil => exact Nat.zero_le _
  | cons p cookies ih =>
      cases cookies with
      | nil =>
          rw [cookieText_single, cookiePair, List.length_append, List.length_cons, List.length_cons,
            List.length_nil]
          omega
      | cons q cookies =>
          rw [cookieText_cons]
          simp only [List.length_append, cookiePair, List.length_cons] at ih ⊢
          omega

theorem lookup_eq_none (h : ∀ p ∈ cookies, p.1 ≠ name) : cookies.lookup name = none := by
  induction cookies with
  | nil => rfl
  | cons p cookies ih =>
      have hne : (name == p.1) = false := by
        rw [beq_eq_false_iff_ne]
        exact (h p List.mem_cons_self).symm
      rw [List.lookup_cons, hne]
      exact ih fun q hq => h q (List.mem_cons_of_mem _ hq)

/-- The text starts with a pair of the name if its first pair has it, and only then. -/
theorem cookieText_named (p : CookieName × CookieValue) (cookies : Cookies)
    (hlong : name.val.length + 1 ≤ (cookieText (p :: cookies)).length) :
    (cookieText (p :: cookies)).getD name.val.length 0 = 61 ∧
      strncmp (cookieText (p :: cookies)) name.val ↔ p.1 = name := by
  obtain ⟨tail, htext, -, -, -⟩ := cookieText_tail p cookies
  constructor
  · rintro ⟨heq, hpre⟩
    obtain ⟨t, ht⟩ := List.isPrefixOf_iff_prefix.mp hpre
    cases t with
    | nil =>
        rw [← ht, List.append_nil] at hlong
        omega
    | cons c t =>
        have hc : c = 61 := by
          rw [← ht, List.getD_eq_getElem?_getD, List.getElem?_append_right (Nat.le_refl _)] at heq
          simpa using heq
        subst hc
        -- both names end at the first equals sign
        have hname := strchr_append name.2.1 t
        rw [ht, htext, strchr_append p.1.2.1] at hname
        exact Subtype.ext (Prod.mk.inj (Option.some.inj hname)).1
  · rintro rfl
    rw [htext]
    constructor
    · rw [List.getD_eq_getElem?_getD, List.getElem?_append_right (Nat.le_refl _)]
      simp
    · exact List.isPrefixOf_iff_prefix.mpr (List.prefix_append _ _)

/-- A value ends at the semicolon, or with the text. -/
theorem takeWhile_value (value : CookieValue) {tail : Bytes}
    (hsemi : tail = [] ∨ tail.head? = some 59) :
    (value.val ++ tail).takeWhile (· != 59) = value.val := by
  have hall : ∀ x ∈ value.val, (x != 59) = true := by
    intro x hx
    have hne : x ≠ 59 := fun e => value.2 (e ▸ hx)
    simpa using hne
  rw [List.takeWhile_append_of_pos hall]
  rcases hsemi with rfl | hhead
  · simp
  · cases tail with
    | nil => cases hhead
    | cons c tail =>
        obtain rfl := Option.some.inj hhead
        simp

theorem lastEmpty_named {p : CookieName × CookieValue} (hname : p.1 = name) :
    LastEmpty (p :: cookies) name ↔ p.2.val = [] ∧ cookies = [] := by
  unfold LastEmpty
  rw [List.dropWhile_cons_of_neg (by simp [hname]), List.cons.injEq, Prod.ext_iff]
  simp [hname, Subtype.ext_iff]

theorem lastEmpty_other {p : CookieName × CookieValue} (hname : p.1 ≠ name) :
    LastEmpty (p :: cookies) name ↔ LastEmpty cookies name := by
  unfold LastEmpty
  rw [List.dropWhile_cons_of_pos (by simpa using hname)]

theorem not_lastEmpty (h : ∀ p ∈ cookies, p.1 ≠ name) : ¬LastEmpty cookies name := by
  intro hempty
  have hmem : (name, ⟨[], List.not_mem_nil⟩) ∈ cookies := by
    refine (List.dropWhile_suffix fun p => decide (p.1 ≠ name)).subset ?_
    rw [show cookies.dropWhile (fun p => decide (p.1 ≠ name)) = _ from hempty]
    exact List.mem_cons_self
  exact h _ hmem rfl

/-- The pair in front has the name. -/
theorem findCookie_named {p : CookieName × CookieValue} (hname : p.1 = name) (fuel : Nat) :
    findCookie name.val (fuel + 1) (cookieText (p :: cookies)) =
      if p.2.val = [] ∧ cookies = [] then none else some p.2.val := by
  obtain ⟨tail, htext, -, hlast, hsemi⟩ := cookieText_tail p cookies
  have hlong := (length_le_cookieText (List.mem_cons_self (a := p) (l := cookies))).1
  rw [hname] at hlong
  have hdrop : (cookieText (p :: cookies)).drop (name.val.length + 1) = p.2.val ++ tail := by
    rw [htext, hname, List.drop_append, List.drop_of_length_le (by omega)]
    simp
  unfold findCookie
  rw [if_neg (by omega), if_pos ((cookieText_named p cookies hlong).mpr hname)]
  dsimp only
  rw [hdrop, takeWhile_value p.2 hsemi]
  by_cases hempty : p.2.val = [] ∧ cookies = []
  · rw [if_pos hempty, if_pos (by simp [hempty.1, hlast.mpr hempty.2])]
  · rw [if_neg hempty, if_neg]
    intro hnil
    have hboth := List.append_eq_nil_iff.mp (List.isEmpty_iff.mp hnil)
    exact hempty ⟨hboth.1, hlast.mp hboth.2⟩

/-- The pair in front has another name: the search goes on, if there is room for the name. -/
theorem findCookie_other {p : CookieName × CookieValue} (hname : p.1 ≠ name) (fuel : Nat) :
    findCookie name.val (fuel + 1) (cookieText (p :: cookies)) =
      if (cookieText (p :: cookies)).length < name.val.length + 1 ∨ cookies = [] then none
      else findCookie name.val fuel (cookieText cookies) := by
  obtain ⟨tail, -, hnext, -, -⟩ := cookieText_tail p cookies
  unfold findCookie
  by_cases hshort : (cookieText (p :: cookies)).length < name.val.length + 1
  · rw [if_pos hshort, if_pos (.inl hshort)]
  · rw [if_neg hshort, if_neg fun h => hname ((cookieText_named p cookies (by omega)).mp h)]
    dsimp only
    rw [hnext]
    cases cookies with
    | nil =>
        have hnil : (cookieText []).isEmpty = true := rfl
        rw [if_pos hnil, if_pos (.inr rfl)]
    | cons q cookies =>
        have hmore : ¬(cookieText (q :: cookies)).isEmpty = true := by
          simpa using cookieText_ne_nil q cookies
        have hgo : ¬((cookieText (p :: q :: cookies)).length < name.val.length + 1 ∨
            q :: cookies = []) := by
          rintro (h | h)
          · exact hshort h
          · cases h
        rw [if_neg hgo, if_neg hmore]
        cases fuel <;> rfl

/-- **The search** finds the first pair with the name, if it has a value or another pair follows
it. -/
theorem findCookie_cookieText (fuel : Nat) (hfuel : cookies.length < fuel) :
    findCookie name.val fuel (cookieText cookies) =
      if LastEmpty cookies name then none else (cookies.lookup name).map Subtype.val := by
  induction cookies generalizing fuel with
  | nil =>
      obtain ⟨k, rfl⟩ := Nat.exists_eq_add_of_lt hfuel
      rw [if_neg (by simp [LastEmpty])]
      simp [findCookie, cookieText, List.intercalate]
  | cons p cookies ih =>
      obtain ⟨fuel, rfl⟩ : ∃ k, fuel = k + 1 := ⟨fuel - 1, by omega⟩
      rw [List.length_cons] at hfuel
      by_cases hname : p.1 = name
      · have hlookup : (p :: cookies).lookup name = some p.2 := by
          rw [List.lookup_cons, hname, beq_self_eq_true]
        rw [findCookie_named hname, if_congr (lastEmpty_named hname) rfl rfl, hlookup]
        rfl
      · have hlookup : (p :: cookies).lookup name = cookies.lookup name := by
          have hne : (name == p.1) = false := by
            rw [beq_eq_false_iff_ne]
            exact fun e => hname e.symm
          rw [List.lookup_cons, hne]
        rw [findCookie_other hname, if_congr (lastEmpty_other hname) rfl rfl, hlookup]
        by_cases hend : (cookieText (p :: cookies)).length < name.val.length + 1 ∨ cookies = []
        · -- none of the other pairs can have the name
          have hnone : ∀ q ∈ cookies, q.1 ≠ name := by
            rintro q hq rfl
            rcases hend with hshort | rfl
            · have := (length_le_cookieText (List.mem_cons_of_mem p hq)).1
              omega
            · cases hq
          rw [if_pos hend, if_neg (not_lastEmpty hnone), lookup_eq_none hnone]
          rfl
        · rw [if_neg hend]
          exact ih fuel (by omega)

/-- The variable in front of a template. -/
theorem expressionVariable_cookie (name : CookieName) (rest endpoint : Bytes)
    {header : List WsHttpHeader} {h : WsHttpHeader}
    (hh : header.find? (·.tag = ascii "Cookie") = some h) :
    expressionVariable (cookieVariable name ++ rest) endpoint header =
      match findCookie name.val (h.value.length + 1) h.value with
      | none => (.fail, endpoint)
      | some value => (.value (8 + name.val.length + 1) value, endpoint) := by
  have htext : cookieVariable name ++ rest = ascii "%cookie:" ++ (name.val ++ 37 :: rest) := by
    simp [cookieVariable]
  have hendpoint : strncmp (cookieVariable name ++ rest) (ascii "%endpoint%") = false := by
    rw [htext]
    simp [strncmp, ascii, List.isPrefixOf]
  have hcookie : strncmp (cookieVariable name ++ rest) (ascii "%cookie:") = true := by
    rw [htext]
    exact List.isPrefixOf_iff_prefix.mpr (List.prefix_append _ _)
  have hdrop : (cookieVariable name ++ rest).drop 8 = name.val ++ 37 :: rest := by
    rw [htext]
    rfl
  unfold expressionVariable
  rw [if_neg (by simp [hendpoint]), if_pos hcookie, hdrop, strchr_append name.2.2.2.1]
  dsimp only
  generalize header.find? (·.tag = ascii "Cookie") = found at hh ⊢
  subst hh
  rfl

/-- A pass of the loop at the variable. -/
theorem expressionPass_cookie (name : CookieName) {header : List WsHttpHeader} {h : WsHttpHeader}
    (hh : header.find? (·.tag = ascii "Cookie") = some h) (hv : h.value = cookieText cookies)
    {length : Nat} (done rest endpoint : Bytes) (hl : length < 2 ^ 64)
    (hroom : ∀ v ∈ cookies.lookup name, done.length + v.val.length + rest.length < length) :
    expressionPass length header ⟨done.length, done ++ (cookieVariable name ++ rest), endpoint⟩ =
      match if LastEmpty cookies name then none else cookies.lookup name with
      | some v => (false,
          ⟨(done ++ v.val.map sanitize).length, (done ++ v.val.map sanitize) ++ rest, endpoint⟩)
      | none => (true, ⟨done.length, done ++ (cookieVariable name ++ rest), endpoint⟩) := by
  have hhead : (cookieVariable name ++ rest).head? = some 37 := rfl
  have hfind : findCookie name.val ((cookieText cookies).length + 1) (cookieText cookies) =
      if LastEmpty cookies name then none else (cookies.lookup name).map Subtype.val :=
    findCookie_cookieText _ (Nat.lt_succ_of_le (length_le_cookies cookies))
  unfold expressionPass
  simp only [List.drop_left, hhead, if_true]
  rw [expressionVariable_cookie name rest endpoint hh, hv, hfind]
  by_cases hlast : LastEmpty cookies name
  · simp [hlast]
  · rw [if_neg hlast, if_neg hlast]
    cases hlookup : cookies.lookup name with
    | none => simp
    | some v =>
        have hfit := hroom v hlookup
        have hn : (cookieVariable name).length = 8 + name.val.length + 1 := by
          simp [cookieVariable, ascii]
          omega
        have hrest : (cookieVariable name ++ rest).drop (8 + name.val.length + 1) = rest := by
          rw [← hn, List.drop_left]
        have hfits : ¬(8 + name.val.length + 1 < v.val.length ∧
            length - done.length ≤ (cookieVariable name ++ rest).length +
              (v.val.length - (8 + name.val.length + 1))) := by
          rw [List.length_append, hn]
          rintro ⟨hlong, hfull⟩
          omega
        have hu : ((done.length + (v.val.length + (2 ^ 64 - 1)) % 2 ^ 64) % 2 ^ 64 + 1) % 2 ^ 64 =
            (done ++ v.val.map sanitize).length := by
          rw [List.length_append, List.length_map]
          omega
        unfold expressionReplace
        simp only [Option.map_some, if_neg hfits, hrest, List.take_left, hu, List.append_assoc]

/-- The loop at the variable. -/
theorem expressionLoop_cookie (name : CookieName) {header : List WsHttpHeader} {h : WsHttpHeader}
    (hh : header.find? (·.tag = ascii "Cookie") = some h) (hv : h.value = cookieText cookies)
    {length : Nat} (done rest endpoint : Bytes) (fuel : Nat) (hl : length < 2 ^ 64)
    (hroom : ∀ v ∈ cookies.lookup name, done.length + v.val.length + rest.length < length) :
    expressionLoop length header (fuel + 1)
        ⟨done.length, done ++ (cookieVariable name ++ rest), endpoint⟩ =
      match if LastEmpty cookies name then none else cookies.lookup name with
      | some v => expressionLoop length header fuel
          ⟨(done ++ v.val.map sanitize).length, (done ++ v.val.map sanitize) ++ rest, endpoint⟩
      | none => (true, ⟨done.length, done ++ (cookieVariable name ++ rest), endpoint⟩) := by
  have hmore : ¬(done ++ (cookieVariable name ++ rest)).length ≤ done.length := by
    have hvariable : 0 < (cookieVariable name).length :=
      List.length_pos_iff.mpr (by simp [cookieVariable])
    rw [List.length_append, List.length_append]
    omega
  rw [expressionLoop, if_neg hmore, expressionPass_cookie name hh hv done rest endpoint hl hroom]
  cases hfound : (if LastEmpty cookies name then none else cookies.lookup name) with
  | none => simp
  | some v => simp

theorem LastEmpty.lookup (h : LastEmpty cookies name) :
    cookies.lookup name = some ⟨[], List.not_mem_nil⟩ := by
  induction cookies with
  | nil => cases h
  | cons p cookies ih =>
      unfold LastEmpty at h
      by_cases hname : p.1 = name
      · rw [List.dropWhile_cons_of_neg (by simp [hname])] at h
        obtain ⟨rfl, -⟩ := List.cons.inj h
        rw [List.lookup_cons, beq_self_eq_true]
      · rw [List.dropWhile_cons_of_pos (by simpa using hname)] at h
        have hne : (name == p.1) = false := by
          rw [beq_eq_false_iff_ne]
          exact fun e => hname e.symm
        rw [List.lookup_cons, hne]
        exact ih h

/-- **A cookie is found** by its name exactly if the first pair with the name does not stand at
the end of the header with no value. -/
theorem cookie_replaced_iff (cookies : Cookies) (name : CookieName) :
    CookieReplaced cookies name ↔ ¬LastEmpty cookies name := by
  constructor
  · intro h hlast
    have hroom : ∀ v ∈ cookies.lookup name, ([] : Bytes).length + v.val.length + ([] : Bytes).length < 1 := by
      intro v hv
      rw [hlast.lookup] at hv
      obtain rfl := Option.some.inj hv
      exact Nat.one_pos
    have hfound := h [⟨ascii "Cookie", cookieText cookies⟩] _ rfl rfl 1 [] [] [] 0 (by decide) hroom
    rw [expressionLoop_cookie (h := ⟨ascii "Cookie", cookieText cookies⟩) name rfl rfl [] [] [] 0
      (by decide) hroom, if_pos hlast, hlast.lookup] at hfound
    cases congrArg Prod.fst hfound
  · intro hlast header h hh hv length done rest endpoint fuel hl hroom
    rw [expressionLoop_cookie name hh hv done rest endpoint fuel hl hroom, if_neg hlast]

end

/-- A cookie with an empty value at the end: the expression fails. -/
theorem cookie_replaced_fails :
    ¬CookieReplaced [(⟨ascii "a", by decide⟩, ⟨[], by decide⟩)] ⟨ascii "a", by decide⟩ ∧
    (expressionResolve (ascii "%cookie:a%") 64 (ascii "/") [⟨ascii "Cookie", ascii "a="⟩]).1 = true ∧
    (expressionResolve (ascii "%cookie:a%") 64 (ascii "/") [⟨ascii "Cookie", ascii "a=; b=1"⟩]).1 =
      false := by
  refine ⟨?_, by decide +kernel, by decide +kernel⟩
  intro h
  have hfound := h [⟨ascii "Cookie", ascii "a="⟩] _ rfl (by decide) 64 [] [] [] 0 (by decide) (by decide)
  revert hfound
  decide +kernel

end Websocksy

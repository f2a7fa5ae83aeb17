import Websocksy.Templates

/-!
# Directory traversal through the expressions of the file backend

The values of the variables have no slash, so the components of the path below the base are
those of the expression, each with its values inserted.  A component is `..` if its characters
and values spell it: `%endpoint%` alone does so for a request of `/..`.
-/

namespace Websocksy

open Buffer CString Template

/-- `..` -/
def parent : Bytes := [46, 46]

/-- The path that is opened for the expression, if there is one, lies below the base. -/
def OpensBelow (base expression endpoint : Bytes) (header : List WsHttpHeader) : Prop :=
  ∃ r, expressionPath base expression endpoint header = some r ∧
    ∀ path, r.1 = some path → ∃ below, path = base ++ 47 :: below ∧ parent ∉ below.splitOn 47

/-- The characters and values of a component, but for the empty ones, are `..` or two dots. -/
def SpellsParent (component : List (Piece UInt8)) : Prop :=
  let shown := (component.map Piece.after).filter fun x => !x.isEmpty
  shown = [parent] ∨ shown = [[46], [46]]

instance (component : List (Piece UInt8)) : Decidable (SpellsParent component) :=
  inferInstanceAs (Decidable (_ ∨ _))

section

variable (base expression endpoint : Bytes) (header : List WsHttpHeader)

/-- The template that there is room for behind the base. -/
def roomTemplate : Bytes := expression.take (backendFileMaxPath - 2 - base.length)

/-- No component of the expression is made `..` by the values the request has for it. -/
def NoneSpellsParent : Prop :=
  ∀ ps, expressionPieces header (roomTemplate base expression).length endpoint
      (roomTemplate base expression) = some ps →
    Fits (backendFileMaxPath - (base.length + 1)) 0 ps → ∀ g ∈ groups 47 ps, ¬SpellsParent g

theorem spellsParent_iff (g : List (Piece UInt8)) : SpellsParent g ↔ result g = parent := by
  rw [result, List.flatMap_def]
  exact (flatten_pair _).symm

/-- What is behind the base is a `..` component where the pieces of a component spell it. -/
theorem parent_mem_result {ps : List (Piece UInt8)}
    (h : ∀ t value, .inserted t value ∈ ps → 47 ∉ value) :
    parent ∈ (result ps).splitOn 47 ↔ ∃ g ∈ groups 47 ps, SpellsParent g := by
  rw [splitOn_result 47 h, List.mem_map]
  simp only [spellsParent_iff]

variable {base}

/-- `target_path` before the expression is resolved: the base, and what there is room for. -/
theorem target_path_split (hroom : base.length + 1 < backendFileMaxPath) :
    (base ++ 47 :: expression).take (backendFileMaxPath - 1) =
      (base ++ [47]) ++ roomTemplate base expression := by
  have hmax : backendFileMaxPath = 8192 := rfl
  have hcons : base ++ 47 :: expression = (base ++ [47]) ++ expression := by simp
  have hlen : (base ++ [47]).length = base.length + 1 := by simp
  have hrest : backendFileMaxPath - 1 - (base.length + 1) = backendFileMaxPath - 2 - base.length := by
    omega
  rw [hcons, List.take_append, List.take_of_length_le (by omega), hlen, hrest, roomTemplate]

theorem expressionPath_eq (hroom : base.length + 1 < backendFileMaxPath) :
    expressionPath base expression endpoint header =
      let r := expressionResolve (roomTemplate base expression)
        (backendFileMaxPath - (base.length + 1)) endpoint header
      some (if r.1 then none else some ((base ++ [47]) ++ r.2.template), r.2.endpoint) := by
  have hlen : base.length + 1 = (base ++ [47]).length := by simp
  unfold expressionPath
  rw [if_neg (by omega)]
  simp only [target_path_split expression hroom]
  rw [hlen, List.drop_left, List.take_left]

variable (base)

/-- **No traversal** happens just if the base leaves room in `target_path` and no component is
spelled `..`. -/
theorem opens_below_iff :
    OpensBelow base expression endpoint header ↔
      base.length + 1 < backendFileMaxPath ∧ NoneSpellsParent base expression endpoint header := by
  by_cases hroom : base.length + 1 < backendFileMaxPath
  · have hmax : backendFileMaxPath = 8192 := rfl
    have hlen : (roomTemplate base expression).length ≤ backendFileMaxPath - 2 - base.length :=
      List.length_take_le _ _
    rw [OpensBelow, expressionPath_eq expression endpoint header hroom]
    rcases expressionResolve_pieces endpoint header
        (by omega : (roomTemplate base expression).length < backendFileMaxPath - (base.length + 1))
        (by omega) with
      ⟨ps, e', hps, hfits, hloop⟩ | ⟨hfail, hno⟩
    · -- the path is the base and the result of the pieces
      have hresolve : expressionResolve (roomTemplate base expression)
          (backendFileMaxPath - (base.length + 1)) endpoint header =
            (false, ⟨(result ps).length, result ps, e'⟩) := hloop
      have hmem := parent_mem_result (expressionPieces_cut _ hps).2.notMem
      rw [hresolve]
      constructor
      · rintro ⟨r, hr, hbelow⟩
        obtain rfl := Option.some.inj hr
        obtain ⟨below, hpath, hnone⟩ := hbelow _ rfl
        have hsame : result ps = below := by
          rw [List.append_assoc] at hpath
          exact (List.cons.inj (List.append_cancel_left hpath)).2
        refine ⟨hroom, ?_⟩
        intro qs hqs _ g hg hspells
        obtain rfl := Option.some.inj (hps.symm.trans hqs)
        exact hnone (hsame ▸ hmem.mpr ⟨g, hg, hspells⟩)
      · rintro ⟨-, hcond⟩
        refine ⟨_, rfl, ?_⟩
        rintro path hpath
        obtain rfl := Option.some.inj hpath
        refine ⟨result ps, by simp, ?_⟩
        intro hin
        obtain ⟨g, hg, hspells⟩ := hmem.mp hin
        exact hcond ps hps hfits g hg hspells
    · -- the expression fails, and nothing is opened
      have hresolve : (expressionResolve (roomTemplate base expression)
          (backendFileMaxPath - (base.length + 1)) endpoint header).1 = true := hfail
      simp only [hresolve, if_true]
      refine ⟨fun _ => ⟨hroom, fun ps hps hfits => absurd hfits (hno ps hps)⟩, fun _ => ?_⟩
      exact ⟨_, rfl, fun path hpath => by cases hpath⟩
  · refine ⟨?_, fun h => absurd h.1 hroom⟩
    rintro ⟨r, hr, -⟩
    rw [expressionPath, if_pos (by omega)] at hr
    cases hr

end

/-- The expression `%endpoint%` has no `..`, and a request for `/..` opens the parent of the
base. -/
theorem opens_below_fails :
    parent ∉ (ascii "%endpoint%").splitOn 47 ∧
      expressionPath (ascii "/srv/peers") (ascii "%endpoint%") (ascii "/..") [] =
        some (some (ascii "/srv/peers/.."), ascii "/..") ∧
      ¬OpensBelow (ascii "/srv/peers") (ascii "%endpoint%") (ascii "/..") [] := by
  refine ⟨by decide, by decide +kernel, ?_⟩
  rw [opens_below_iff]
  rintro ⟨-, hnone⟩
  have hpieces : expressionPieces [] 10 (ascii "/..") (ascii "%endpoint%") =
      some [.inserted (ascii "%endpoint%") parent] := by
    decide +kernel
  refine hnone _ hpieces ⟨?_, trivial⟩ _ (List.mem_singleton_self _) (by decide)
  intro hlonger
  exact absurd hlonger (by decide)

end Websocksy

import Websocksy.Lib.Splitter
import Mathlib.Data.List.Induction
import Mathlib.Data.List.Infix

/-!
# Cutting a stream after a separator

`pieces` cuts after the leftmost occurrence of a separator, and goes on behind it.
`drainEach` looks for the separator in each chunk by itself.  The two find the same pieces
exactly if no chunk ends inside of a separator at which the stream is cut
(`drainEach_eq_iff`).
-/

namespace Separator

variable {α : Type} [DecidableEq α] (sep : List α)

/-- The elements up to the end of the first separator, and those behind it. -/
def cutAfter : List α → Option (List α × List α)
  | [] => none
  | x :: xs =>
    if sep <+: x :: xs then some (sep, (x :: xs).drop sep.length)
    else (cutAfter xs).map fun p => (x :: p.1, p.2)

section

variable {sep} {xs p ys zs : List α}

theorem cutAfter_of_prefix (hne : sep ≠ []) : cutAfter sep (sep ++ zs) = some (sep, zs) := by
  cases sep with
  | nil => exact absurd rfl hne
  | cons s ss =>
      rw [List.cons_append, cutAfter, if_pos ⟨zs, rfl⟩, ← List.cons_append, List.drop_left]

/-- A piece ends with the separator, and it is a start of the list. -/
theorem cutAfter_some (h : cutAfter sep xs = some (p, ys)) : xs = p ++ ys ∧ sep <:+ p := by
  induction xs generalizing p with
  | nil => cases h
  | cons x xs ih =>
      rw [cutAfter] at h
      split at h
      · next hpre =>
        cases h
        obtain ⟨zs, hzs⟩ := hpre
        rw [← hzs, List.drop_left]
        exact ⟨rfl, List.suffix_refl sep⟩
      · obtain ⟨q, hq, he⟩ := Option.map_eq_some_iff.mp h
        cases he
        obtain ⟨h1, h2⟩ := ih hq
        exact ⟨by rw [h1]; rfl, h2.trans (List.suffix_cons x q.1)⟩

/-- The first piece is the shortest start of the list that ends with the separator. -/
theorem cutAfter_first (hne : sep ≠ []) {q zs : List α} (hx : xs = q ++ zs) (hq : sep <:+ q) :
    ∃ p ys, cutAfter sep xs = some (p, ys) ∧ p.length ≤ q.length := by
  induction xs generalizing q with
  | nil =>
      rw [eq_comm, List.append_eq_nil_iff] at hx
      rw [hx.1] at hq
      exact absurd (List.suffix_nil.mp hq) hne
  | cons x xs ih =>
      rw [cutAfter]
      split
      · exact ⟨_, _, rfl, hq.length_le⟩
      · next hno =>
        cases q with
        | nil => exact absurd (List.suffix_nil.mp hq) hne
        | cons y q =>
            rw [List.cons_append, List.cons.injEq] at hx
            obtain ⟨rfl, hx⟩ := hx
            rcases List.suffix_cons_iff.mp hq with he | hq
            · exact absurd ⟨zs, by rw [he, hx]; rfl⟩ hno
            · obtain ⟨p, ys, hp, hle⟩ := ih hx hq
              exact ⟨x :: p, ys, by rw [hp]; rfl, Nat.succ_le_succ hle⟩

/-- The first piece is the shortest start of the list that ends with the separator. -/
theorem cutAfter_eq_some_iff (hne : sep ≠ []) :
    cutAfter sep xs = some (p, ys) ↔
      xs = p ++ ys ∧ sep <:+ p ∧ ∀ q, q <+: xs → sep <:+ q → p.length ≤ q.length := by
  constructor
  · intro h
    refine ⟨(cutAfter_some h).1, (cutAfter_some h).2, fun q ⟨zs, hz⟩ hq => ?_⟩
    obtain ⟨p', ys', hp', hle⟩ := cutAfter_first hne hz.symm hq
    rw [h] at hp'
    cases hp'
    exact hle
  · rintro ⟨hx, hp, hmin⟩
    obtain ⟨p', ys', h, hle⟩ := cutAfter_first hne hx hp
    obtain ⟨hx', hp'⟩ := cutAfter_some h
    have := hmin p' ⟨ys', hx'.symm⟩ hp'
    rw [hx] at hx'
    obtain ⟨rfl, rfl⟩ := List.append_inj hx' (by omega)
    exact h

theorem cutAfter_none (hne : sep ≠ []) (h : cutAfter sep xs = none) {q : List α} (hq : q <+: xs) :
    ¬sep <:+ q := by
  intro hs
  obtain ⟨zs, hz⟩ := hq
  obtain ⟨p, ys, hp, -⟩ := cutAfter_first hne hz.symm hs
  rw [h] at hp
  cases hp

end

/-- The pieces that end with the separator. -/
def pieces (hne : sep ≠ []) : Splitter α (List α) where
  next := cutAfter sep
  shorter := by
    intro xs p ys h
    obtain ⟨rfl, hp⟩ := cutAfter_some h
    have := hp.length_le
    have := List.length_pos_iff.mpr hne
    rw [List.length_append]
    omega
  extend := by
    intro xs p ys zs h
    obtain ⟨hx, hp, hmin⟩ := (cutAfter_eq_some_iff hne).mp h
    refine (cutAfter_eq_some_iff hne).mpr ⟨by rw [hx, List.append_assoc], hp, fun q hq hs => ?_⟩
    rcases Nat.lt_or_ge xs.length q.length with hlt | hle
    · have := congrArg List.length hx
      rw [List.length_append] at this
      omega
    · exact hmin q (List.prefix_of_prefix_length_le hq (List.prefix_append xs zs) hle) hs

/-! ## Pieces -/

section

variable {sep} {xs kept c p ys : List α}

/-- The pieces and the tail are the whole list. -/
theorem drain_flatten (hne : sep ≠ []) (xs : List α) :
    ((pieces sep hne).drain xs).1.flatten ++ ((pieces sep hne).drain xs).2 = xs := by
  induction hn : xs.length using Nat.strongRecOn generalizing xs with
  | ind n ih =>
      cases h : (pieces sep hne).next xs with
      | none => rw [Splitter.drain_none _ h]; rfl
      | some p =>
          rw [Splitter.drain_some _ h, List.flatten_cons, List.append_assoc,
            ih _ (hn ▸ (pieces sep hne).shorter h) _ rfl, ← (cutAfter_some h).1]

/-- Each piece has room for the separator. -/
theorem length_le_of_mem_drain (hne : sep ≠ []) (hp : p ∈ ((pieces sep hne).drain xs).1) :
    sep.length ≤ p.length := by
  induction hn : xs.length using Nat.strongRecOn generalizing xs with
  | ind n ih =>
      cases h : (pieces sep hne).next xs with
      | none =>
          rw [Splitter.drain_none _ h] at hp
          cases hp
      | some q =>
          rw [Splitter.drain_some _ h] at hp
          rcases List.mem_cons.mp hp with rfl | hp
          · exact (cutAfter_some h).2.length_le
          · exact ih _ (hn ▸ (pieces sep hne).shorter h) hp rfl

/-- What is kept holds no separator, so that the first piece ends behind it. -/
theorem length_lt_of_kept (hne : sep ≠ []) (hk : cutAfter sep kept = none)
    (h : cutAfter sep (kept ++ c) = some (p, ys)) : kept.length < p.length := by
  by_contra hle
  obtain ⟨hx, hp⟩ := cutAfter_some h
  refine cutAfter_none hne hk ?_ hp
  exact List.prefix_of_prefix_length_le ⟨ys, hx.symm⟩ (List.prefix_append kept c) (by omega)

/-- Where there is no piece there is none behind what is kept. -/
theorem cutAfter_none_of_append (hne : sep ≠ []) (h : cutAfter sep (kept ++ c) = none) : cutAfter sep c = none := by
  cases hc : cutAfter sep c with
  | none => rfl
  | some p =>
      obtain ⟨hx, hp⟩ := cutAfter_some hc
      refine absurd (hp.trans (List.suffix_append kept p.1)) (cutAfter_none hne h ?_)
      exact ⟨p.2, by rw [hx, List.append_assoc]⟩

/-- A separator that begins behind what is kept is found without it. -/
theorem cutAfter_of_append (hne : sep ≠ []) (h : cutAfter sep (kept ++ c) = some (p, ys))
    (hle : kept.length + sep.length ≤ p.length) :
    ∃ q, p = kept ++ q ∧ cutAfter sep c = some (q, ys) := by
  obtain ⟨hx, hp, hmin⟩ := (cutAfter_eq_some_iff hne).mp h
  obtain ⟨q, rfl⟩ : kept <+: p :=
    List.prefix_of_prefix_length_le (List.prefix_append kept c) ⟨ys, hx.symm⟩ (by omega)
  rw [List.append_assoc] at hx
  refine ⟨q, rfl, (cutAfter_eq_some_iff hne).mpr ⟨List.append_cancel_left hx, ?_, fun r hr hs => ?_⟩⟩
  · rw [List.length_append] at hle
    exact List.suffix_of_suffix_length_le hp (List.suffix_append kept q) (by omega)
  · have := hmin (kept ++ r) ((List.prefix_append_right_inj kept).mpr hr)
      (hs.trans (List.suffix_append kept r))
    simp only [List.length_append] at this
    omega

end

/-! ## Chunk by chunk -/

/-- Put `kept` before the pieces and the tail. -/
def prepend (kept : List α) : List (List α) × List α → List (List α) × List α
  | ([], tail) => ([], kept ++ tail)
  | (p :: ps, tail) => ((kept ++ p) :: ps, tail)

/-- The pieces and the tail after one more chunk, in which alone the separator is searched. -/
def eachStep (hne : sep ≠ []) (st : List (List α) × List α) (c : List α) :
    List (List α) × List α :=
  let r := prepend st.2 ((pieces sep hne).drain c)
  (st.1 ++ r.1, r.2)

/-- The pieces that are found chunk by chunk, and the tail. -/
def drainEach (hne : sep ≠ []) (cs : List (List α)) : List (List α) × List α :=
  cs.foldl (eachStep sep hne) ([], [])

/-- No chunk ends inside of the `n` elements that end one of the pieces `ps`. -/
def Unparted (n : Nat) (cs ps : List (List α)) : Prop :=
  ∀ as, as <+: cs → ∀ qs, qs <+: ps →
    ¬(qs.flatten.length < as.flatten.length + n ∧ as.flatten.length < qs.flatten.length)

/-- The pieces found differ from `ideal` in a piece that is too long, or will be. -/
def Diverged (st : List (List α) × List α) (ideal : List (List α)) : Prop :=
  ∃ l p, l ++ [p] <+: ideal ∧
    (st.1 = l ∧ p.length ≤ st.2.length ∨ ∃ q, l ++ [q] <+: st.1 ∧ p.length < q.length)

/-- The first separator begins before the chunk `c` and ends in it. -/
def Parted (kept c : List α) : Prop :=
  ∃ p ys, cutAfter sep (kept ++ c) = some (p, ys) ∧ p.length < kept.length + sep.length

section

variable {sep} {kept c : List α} {cs : List (List α)}
  {st : List (List α) × List α} {ideal : List (List α)}

omit [DecidableEq α] in
theorem Diverged.ne (h : Diverged st ideal) : st.1 ≠ ideal := by
  rintro rfl
  obtain ⟨l, p, hp, ⟨hl, -⟩ | ⟨q, hq, hlt⟩⟩ := h
  · have := hp.length_le
    rw [hl, List.length_append, List.length_singleton] at this
    omega
  · have he : l ++ [p] = l ++ [q] := by
      refine (List.prefix_of_prefix_length_le hp hq ?_).eq_of_length ?_ <;> simp
    have := List.append_cancel_left he
    rw [List.cons.injEq] at this
    rw [this.1] at hlt
    exact Nat.lt_irrefl _ hlt

/-- Once the pieces differ, they do so whatever follows. -/
theorem Diverged.step (hne : sep ≠ []) (h : Diverged st ideal) (c : List α)
    (more : List (List α)) : Diverged (eachStep sep hne st c) (ideal ++ more) := by
  obtain ⟨l, p, hp, hst⟩ := h
  refine ⟨l, p, hp.trans (List.prefix_append ideal more), ?_⟩
  rcases hst with ⟨hl, hlen⟩ | ⟨q, hq, hlt⟩
  · unfold eachStep
    cases hd : (pieces sep hne).drain c with
    | mk ps tail =>
        cases ps with
        | nil =>
            refine .inl ⟨by simp [prepend, hl], ?_⟩
            simp only [prepend, List.length_append]
            omega
        | cons r rs =>
            have hdrained : r ∈ ((pieces sep hne).drain c).1 := by simp [hd]
            have hmem := length_le_of_mem_drain hne hdrained
            have := List.length_pos_iff.mpr hne
            refine .inr ⟨st.2 ++ r, ⟨rs, by simp [prepend, hl]⟩, ?_⟩
            rw [List.length_append]
            omega
  · exact .inr ⟨q, hq.trans (List.prefix_append _ _), hlt⟩

/-- Where the first separator is not parted, the chunk is cut as it is behind what is kept. -/
theorem prepend_drain (hne : sep ≠ []) (h : ¬Parted sep kept c) :
    prepend kept ((pieces sep hne).drain c) = (pieces sep hne).drain (kept ++ c) := by
  cases hp : (pieces sep hne).next (kept ++ c) with
  | none =>
      rw [Splitter.drain_none _ hp, Splitter.drain_none _ (cutAfter_none_of_append hne hp)]
      rfl
  | some p =>
      have hle : kept.length + sep.length ≤ p.1.length := by
        by_contra hlt
        exact h ⟨p.1, p.2, hp, by omega⟩
      obtain ⟨q, hq, hc⟩ := cutAfter_of_append hne hp hle
      rw [Splitter.drain_some _ hp, Splitter.drain_some _ (show (pieces sep hne).next c = _ from hc), hq]
      rfl

/-- Where it is parted, the pieces differ from there on. -/
theorem Parted.diverged (hne : sep ≠ []) (h : Parted sep kept c) (l : List (List α)) :
    Diverged (eachStep sep hne (l, kept) c) (l ++ ((pieces sep hne).drain (kept ++ c)).1) := by
  obtain ⟨p, ys, hp, hlt⟩ := h
  rw [Splitter.drain_some _ (show (pieces sep hne).next (kept ++ c) = _ from hp)]
  refine ⟨l, p, ⟨_, by rw [List.append_assoc]; rfl⟩, ?_⟩
  unfold eachStep
  cases hd : (pieces sep hne).drain c with
  | mk ps tail =>
      cases ps with
      | nil =>
          refine .inl ⟨by simp [prepend], ?_⟩
          have htail := drain_flatten hne c
          rw [hd] at htail
          have hx := congrArg List.length (cutAfter_some hp).1
          simp only [prepend, List.flatten_nil, List.nil_append, List.length_append] at htail hx ⊢
          rw [htail]
          omega
      | cons r rs =>
          have hdrained : r ∈ ((pieces sep hne).drain c).1 := by simp [hd]
          have hmem := length_le_of_mem_drain hne hdrained
          refine .inr ⟨kept ++ r, ⟨rs, by simp [prepend]⟩, ?_⟩
          rw [List.length_append]
          omega

/-- One more chunk is unparted if the first separator in it is not. -/
theorem unparted_snoc (hne : sep ≠ []) (cs : List (List α)) (c : List α) :
    let r := (pieces sep hne).drain cs.flatten
    Unparted sep.length (cs ++ [c]) (r.1 ++ ((pieces sep hne).drain (r.2 ++ c)).1) ↔
      Unparted sep.length cs r.1 ∧ ¬Parted sep r.2 c := by
  have hkept := (pieces sep hne).next_drain cs.flatten
  have htotal := congrArg List.length (drain_flatten hne cs.flatten)
  generalize (pieces sep hne).drain cs.flatten = r at hkept htotal
  dsimp only
  rw [List.length_append] at htotal
  constructor
  · intro h
    refine ⟨fun as ha qs hq => h as (ha.trans (List.prefix_append cs [c])) qs
      (hq.trans (List.prefix_append r.1 _)), ?_⟩
    rintro ⟨p, ys, hp, hlt⟩
    have hend := length_lt_of_kept hne hkept hp
    refine h cs (List.prefix_append cs [c]) (r.1 ++ [p]) ?_ ?_
    · rw [Splitter.drain_some _ (show (pieces sep hne).next (r.2 ++ c) = _ from hp)]
      exact (List.prefix_append_right_inj r.1).mpr ⟨_, rfl⟩
    · simp only [List.flatten_append, List.length_append, List.flatten_singleton]
      omega
  · rintro ⟨h, hpart⟩ as ha qs hq ⟨hlow, hhigh⟩
    rcases List.prefix_concat_iff.mp ha with rfl | ha
    · -- the end of the last chunk is the end of the stream
      obtain ⟨more, hmore⟩ := hq
      have hall := congrArg (fun l => l.flatten.length) hmore
      have hrest := congrArg List.length (drain_flatten hne (r.2 ++ c))
      simp only [List.flatten_append, List.length_append, List.flatten_singleton] at hall hrest hhigh
      omega
    · have hbound : as.flatten.length ≤ cs.flatten.length := (List.IsPrefix.flatten ha).length_le
      have hfirst : r.1 <+: r.1 ++ ((pieces sep hne).drain (r.2 ++ c)).1 := List.prefix_append _ _
      rcases Nat.le_total qs.length r.1.length with hle | hle
      · exact h as ha qs (List.prefix_of_prefix_length_le hq hfirst hle) ⟨hlow, hhigh⟩
      obtain ⟨ps, rfl⟩ := List.prefix_of_prefix_length_le hfirst hq hle
      rw [List.prefix_append_right_inj] at hq
      -- of the pieces that end in the last chunk the first is not parted, and the others
      -- begin behind it
      cases ps with
      | nil =>
          rw [List.append_nil] at hlow hhigh
          exact h as ha r.1 (List.prefix_refl _) ⟨hlow, hhigh⟩
      | cons q ps =>
          cases hp : (pieces sep hne).next (r.2 ++ c) with
          | none =>
              rw [Splitter.drain_none _ hp] at hq
              exact absurd (List.prefix_nil.mp hq) (by simp)
          | some p =>
              have hend := length_lt_of_kept hne hkept hp
              have hnot : ¬p.1.length < r.2.length + sep.length :=
                fun hlt => hpart ⟨p.1, p.2, hp, hlt⟩
              rw [Splitter.drain_some _ hp, List.cons_prefix_cons] at hq
              obtain ⟨rfl, hq⟩ := hq
              simp only [List.flatten_append, List.length_append, List.flatten_cons] at hlow
              omega

/-- **The separator is found chunk by chunk** exactly if no chunk ends inside of one at which
the stream is cut. -/
theorem drainEach_eq_iff (hne : sep ≠ []) (cs : List (List α)) :
    drainEach sep hne cs = (pieces sep hne).drain cs.flatten ↔
      Unparted sep.length cs ((pieces sep hne).drain cs.flatten).1 := by
  have key : (Unparted sep.length cs ((pieces sep hne).drain cs.flatten).1 →
        drainEach sep hne cs = (pieces sep hne).drain cs.flatten) ∧
      (¬Unparted sep.length cs ((pieces sep hne).drain cs.flatten).1 →
        Diverged (drainEach sep hne cs) ((pieces sep hne).drain cs.flatten).1) := by
    induction cs using List.reverseRecOn with
    | nil =>
        have hnone : (pieces sep hne).drain ([] : List α) = ([], []) := Splitter.drain_none _ rfl
        rw [List.flatten_nil, hnone]
        refine ⟨fun _ => rfl, fun h => absurd (fun as _ qs hq => ?_) h⟩
        rw [List.prefix_nil.mp hq]
        rintro ⟨-, hlt⟩
        exact absurd hlt (Nat.not_lt_zero _)
    | append_singleton cs c ih =>
        have hsnoc := unparted_snoc hne cs c
        have hstep : drainEach sep hne (cs ++ [c]) = eachStep sep hne (drainEach sep hne cs) c := by
          unfold drainEach
          rw [List.foldl_append]
          rfl
        dsimp only at hsnoc
        rw [List.flatten_append, List.flatten_singleton, Splitter.drain_append, hstep, hsnoc]
        generalize (pieces sep hne).drain cs.flatten = r at ih
        by_cases hun : Unparted sep.length cs r.1
        · rw [ih.1 hun]
          constructor
          · rintro ⟨-, hpart⟩
            unfold eachStep
            rw [prepend_drain hne hpart]
          · intro hno
            refine Parted.diverged hne ?_ r.1
            by_contra hpart
            exact hno ⟨hun, hpart⟩
        · exact ⟨fun h => absurd h.1 hun, fun _ => (ih.2 hun).step hne c _⟩
  exact ⟨fun h => by_contra fun hno => (key.2 hno).ne (congrArg _ h), key.1⟩

end

end Separator

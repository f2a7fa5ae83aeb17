import Mathlib.Data.List.Basic
import Mathlib.Data.List.Perm.Basic
import Mathlib.Data.List.Perm.Subperm
import Mathlib.Tactic.Common

/-!
# Descriptor tables

What the descriptors of a process refer to: entry `fd` of the table is the
object open at `fd`.  Objects are numbered in the order of their creation, so
a number is never used twice while a descriptor is.  `install` takes the
lowest-numbered free descriptor.

`Held base t fds`: the descriptors `fds` are pairwise different and each is
open on an object numbered from `base` on.  `NoLeak base t fds`: nothing else
is.  The two together say that `fds` is exactly what the program has open.
-/

namespace FdTable

abbrev Table := List (Option Nat)

/-- The object open at `fd`. -/
def entry (t : Table) (fd : Nat) : Option Nat := t.getD fd none

/-- The lowest-numbered free descriptor. -/
def lowest (t : Table) : Nat := t.findIdx (·.isNone)

def install (t : Table) (x : Nat) : Table :=
  if lowest t < t.length then t.set (lowest t) (some x) else t ++ [some x]

def release (t : Table) (fd : Nat) : Table := t.set fd none

@[simp] theorem entry_lowest (t : Table) : entry t (lowest t) = none := by
  unfold entry lowest
  rw [List.getD_eq_getElem?_getD]
  by_cases h : t.findIdx (·.isNone) < t.length
  · rw [List.getElem?_eq_getElem h]
    simpa using List.findIdx_getElem (w := h)
  · rw [List.getElem?_eq_none (by omega)]
    rfl

theorem entry_install (t : Table) (x fd : Nat) :
    entry (install t x) fd = if fd = lowest t then some x else entry t fd := by
  unfold entry install
  simp only [List.getD_eq_getElem?_getD]
  have hle : lowest t ≤ t.length := List.findIdx_le_length
  split
  · next h =>
    rw [List.getElem?_set]
    split
    · next h2 => simp [← h2]
    · next h2 => rw [if_neg (fun e => h2 e.symm)]
  · next h =>
    have hl : lowest t = t.length := by omega
    rw [hl, List.getElem?_append]
    split
    · next h2 => rw [if_neg (by omega)]
    · next h2 =>
      by_cases h3 : fd = t.length
      · simp [h3]
      · rw [if_neg h3, List.getElem?_eq_none (by simp; omega), List.getElem?_eq_none (by omega)]

/-- An open descriptor stays what it is. -/
theorem entry_install_of_some {t : Table} {x y fd : Nat} (h : entry t fd = some y) :
    entry (install t x) fd = some y := by
  rw [entry_install, if_neg]
  · exact h
  · rintro rfl
    rw [entry_lowest] at h
    cases h

theorem entry_release (t : Table) (fd gd : Nat) :
    entry (release t fd) gd = if gd = fd then none else entry t gd := by
  unfold entry release
  simp only [List.getD_eq_getElem?_getD, List.getElem?_set]
  by_cases h : fd = gd
  · subst h
    simp only [if_true]
    split <;> rfl
  · rw [if_neg h, if_neg (fun e => h e.symm)]

/-! ## What the program holds -/

def Held (base : Nat) (t : Table) (fds : List Nat) : Prop :=
  fds.Nodup ∧ ∀ fd ∈ fds, ∃ x, base ≤ x ∧ entry t fd = some x

def NoLeak (base : Nat) (t : Table) (fds : List Nat) : Prop :=
  ∀ fd x, entry t fd = some x → base ≤ x → fd ∈ fds

variable {base x fd : Nat} {t : Table} {fds gds : List Nat}

theorem Held.perm (h : Held base t fds) (hp : fds.Perm gds) : Held base t gds :=
  ⟨hp.nodup_iff.mp h.1, fun fd hfd => h.2 fd (hp.mem_iff.mpr hfd)⟩

theorem NoLeak.perm (h : NoLeak base t fds) (hp : fds.Perm gds) : NoLeak base t gds :=
  fun fd x hx hb => hp.mem_iff.mp (h fd x hx hb)

theorem Held.release (h : Held base t (fd :: fds)) : Held base (release t fd) fds := by
  obtain ⟨hnd, ho⟩ := h
  rw [List.nodup_cons] at hnd
  refine ⟨hnd.2, fun gd hg => ?_⟩
  have hne : gd ≠ fd := fun e => hnd.1 (e ▸ hg)
  rw [entry_release, if_neg hne]
  exact ho gd (List.mem_cons_of_mem _ hg)

theorem NoLeak.release (h : NoLeak base t (fd :: fds)) : NoLeak base (release t fd) fds := by
  intro gd x hx hb
  rw [entry_release] at hx
  split at hx
  · cases hx
  · next hne => exact (List.mem_cons.mp (h gd x hx hb)).resolve_left hne

theorem Held.install (h : Held base t fds) (hx : base ≤ x) :
    Held base (install t x) (lowest t :: fds) := by
  have hne : ∀ gd ∈ fds, gd ≠ lowest t := by
    intro gd hg e
    obtain ⟨y, -, hy⟩ := h.2 gd hg
    rw [e, entry_lowest] at hy
    cases hy
  refine ⟨List.nodup_cons.mpr ⟨fun hm => hne _ hm rfl, h.1⟩, fun gd hg => ?_⟩
  rw [entry_install]
  rcases List.mem_cons.mp hg with rfl | hg
  · exact ⟨x, hx, by simp⟩
  · rw [if_neg (hne gd hg)]
    exact h.2 gd hg

theorem NoLeak.install (h : NoLeak base t fds) : NoLeak base (install t x) (lowest t :: fds) := by
  intro gd y hy hb
  rw [entry_install] at hy
  split at hy
  · next e => exact e ▸ List.mem_cons_self
  · exact List.mem_cons_of_mem _ (h gd y hy hb)

/-- A held descriptor that is dropped without a `release` stays open. -/
theorem Held.sublist (h : Held base t gds) (hs : fds.Sublist gds) : Held base t fds :=
  ⟨h.1.sublist hs, fun fd hfd => h.2 fd (hs.subset hfd)⟩

/-! ## Object numbers -/

/-- Every object in the table is numbered below `n`, and is open at one descriptor only. -/
def Numbered (t : Table) (n : Nat) : Prop :=
  (∀ fd x, entry t fd = some x → x < n) ∧
  ∀ fd gd x, entry t fd = some x → entry t gd = some x → fd = gd

theorem Numbered.install {n : Nat} (h : Numbered t n) : Numbered (install t n) (n + 1) := by
  refine ⟨fun fd x hx => ?_, fun fd gd x hf hg => ?_⟩
  · rw [entry_install] at hx
    split at hx
    · cases hx; omega
    · have := h.1 fd x hx; omega
  · rw [entry_install] at hf hg
    split at hf <;> split at hg
    · next e1 e2 => rw [e1, e2]
    · cases hf; have := h.1 _ _ hg; omega
    · cases hg; have := h.1 _ _ hf; omega
    · exact h.2 fd gd x hf hg

theorem Numbered.release {n : Nat} (h : Numbered t n) (fd : Nat) : Numbered (release t fd) n := by
  have key : ∀ gd x, entry (FdTable.release t fd) gd = some x → entry t gd = some x := by
    intro gd x hx
    rw [entry_release] at hx
    split at hx
    · cases hx
    · exact hx
  exact ⟨fun gd x hx => h.1 gd x (key gd x hx),
    fun gd kd x hg hk => h.2 gd kd x (key gd x hg) (key kd x hk)⟩

/-! ## Which descriptors are open -/

theorem entry_lt_length {t : Table} {fd x : Nat} (h : entry t fd = some x) : fd < t.length := by
  by_contra hge
  unfold entry at h
  rw [List.getD_eq_getElem?_getD, List.getElem?_eq_none (Nat.le_of_not_lt hge)] at h
  cases h

theorem entry_below_lowest {t : Table} {fd : Nat} (h : fd < lowest t) : (entry t fd).isSome := by
  have hlen : fd < t.length := Nat.lt_of_lt_of_le h List.findIdx_le_length
  have hnot := List.not_of_lt_findIdx (p := fun o : Option Nat => o.isNone) h
  unfold entry
  rw [List.getD_eq_getElem?_getD, List.getElem?_eq_getElem hlen]
  simpa using hnot

/-- Where the open descriptors lie below `n` or are among some others, there is a free one below
`n` and as many more. -/
theorem lowest_le {t : Table} {n : Nat} {fds : List Nat}
    (h : ∀ fd, (entry t fd).isSome → fd < n ∨ fd ∈ fds) : lowest t ≤ n + fds.length := by
  have hsub : List.range (lowest t) ⊆ List.range n ++ fds := by
    intro fd hfd
    rcases h fd (entry_below_lowest (List.mem_range.mp hfd)) with hlt | hm
    · exact List.mem_append_left _ (List.mem_range.mpr hlt)
    · exact List.mem_append_right _ hm
  have hle := (List.Nodup.subperm List.nodup_range hsub).length_le
  rwa [List.length_append, List.length_range, List.length_range] at hle

/-- The descriptors that are open are the same. -/
def SameOpen (t u : Table) : Prop := ∀ fd, (entry t fd).isSome = (entry u fd).isSome

theorem SameOpen.lowest {t u : Table} (h : SameOpen t u) : lowest t = lowest u := by
  have hle {t u : Table} (h : SameOpen t u) : FdTable.lowest t ≤ FdTable.lowest u := by
    by_contra hlt
    have hopen := entry_below_lowest (Nat.lt_of_not_le hlt)
    rw [h, entry_lowest] at hopen
    cases hopen
  exact Nat.le_antisymm (hle h) (hle fun fd => (h fd).symm)

theorem SameOpen.install {t u : Table} (h : SameOpen t u) (x y : Nat) :
    SameOpen (install t x) (install u y) := by
  intro fd
  rw [entry_install, entry_install, h.lowest]
  split
  · rfl
  · exact h fd

theorem SameOpen.release {t u : Table} (h : SameOpen t u) (fd : Nat) :
    SameOpen (release t fd) (release u fd) := by
  intro gd
  rw [entry_release, entry_release]
  split
  · rfl
  · exact h gd

/-- What is installed and released again leaves nothing behind. -/
theorem entry_release_install (t : Table) (x fd : Nat) :
    entry (release (install t x) (lowest t)) fd = entry t fd := by
  rw [entry_release, entry_install]
  split
  · next he => rw [he, entry_lowest]
  · rfl

end FdTable

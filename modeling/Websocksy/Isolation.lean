import Websocksy.ConnRule
import Websocksy.ReadyRuns

/-!
# A connection left alone

While the core loop looks after others, accepts them, serves them and closes them, nothing about a
connection changes: it stays in its slot, its descriptors stay with their sockets, and the log has
nothing new about it (`unattended_untouched`).
-/

namespace Websocksy

open Buffer CString FdTable Machine

variable {φ : Type}

/-- The step reads from no descriptor of slot `n`, sends no keep-alive ping to it, and does not end
the program. -/
def Core.Unattended (env : Env φ) (n : Nat) (c : Core φ) (i : Input) : Prop :=
  (c.loc.slot = some n → c.readCall = none ∧ (c.pingCall env i).isNone) ∧
    match i with
    | .quit => False
    | _ => True

instance (env : Env φ) (n : Nat) : ∀ c i, Decidable (Core.Unattended env n c i)
  | c, .quit => isFalse fun h => h.2
  | c, .select ready now accepts =>
    decidable_of_iff (c.loc.slot = some n → c.readCall = none ∧
      (c.pingCall env (.select ready now accepts)).isNone) (by simp [Core.Unattended])
  | c, .serve answer fuel =>
    decidable_of_iff (c.loc.slot = some n → c.readCall = none ∧
      (c.pingCall env (.serve answer fuel)).isNone) (by simp [Core.Unattended])

/-- From `c` to `c'` nothing happened to the connection `ws` in slot `n`. -/
structure Untouched (n : Nat) (ws : Websocket φ) (c c' : Core φ) : Prop where
  slot : c'.sock[n]? = some ws
  sockets : ∀ fd ∈ ws.held, c'.world.sockAt (some fd) = c.world.sockAt (some fd)
  events : Aside ws.conn c.world c'.world

section

variable {env : Env φ} {c c' c'' : Core φ} {i : Input} {n : Nat} {ws : Websocket φ}

theorem Untouched.refl (hn : c.sock[n]? = some ws) : Untouched n ws c c :=
  ⟨hn, fun _ _ => rfl, .refl _ _⟩

theorem Untouched.trans (h : Untouched n ws c c') (h' : Untouched n ws c' c'') :
    Untouched n ws c c'' := by
  constructor
  · exact h'.slot
  · intro fd hfd
    rw [h'.sockets fd hfd, h.sockets fd hfd]
  · exact h.events.trans h'.events

/-- A new client does not take the slot of one that is there. -/
theorem clientRegister_getElem? {new : Websocket φ} {sock : List (Websocket φ)}
    (hn : sock[n]? = some ws) (hfd : ws.wsFd ≠ none) :
    (clientRegister new sock)[n]? = some ws := by
  rcases clientRegister_cases new sock with ⟨m, old, hm, hold, he⟩ | he
  · have hne : m ≠ n := by
      rintro rfl
      rw [hn] at hm
      cases hm
      exact hfd hold
    rw [he, List.getElem?_set_ne hne]
    exact hn
  · obtain ⟨hlt, -⟩ := List.getElem?_eq_some_iff.mp hn
    rw [he, List.getElem?_append_left hlt]
    exact hn

theorem Untouched.selected (hn : c.sock[n]? = some ws) (ready : List Nat) (now : Int) (l : Loc) :
    Untouched n ws c { c.selected ready now with loc := l } := by
  constructor
  · exact hn
  · intro fd hfd
    rfl
  · exact .of_log (World.record_log _ _) (by simp)

/-- A client is accepted. -/
theorem Untouched.accept (hreg : RegistryInv env c.sock c.world) (hi : HeldInv c.sock c.world)
    (hn : c.sock[n]? = some ws) (hfd : ws.wsFd ≠ none) (now : Int) (accepts : Bool) :
    Untouched n ws c (wsAccept now accepts c) := by
  have hm : ws ∈ c.sock := List.mem_of_getElem? hn
  rw [wsAccept_eq]
  constructor
  · exact clientRegister_getElem? hn hfd
  · intro fd hheld
    obtain ⟨x, hx⟩ := hi.is_open hm hheld
    rw [hx]
    exact accept_sockAt accepts hx
  · exact .accept (hreg.numbers ws hm) accepts

/-- The connection in another slot is served. -/
theorem Untouched.served {m : Nat} {v : Websocket φ} {t : Conn φ}
    (hreg : RegistryInv env c.sock c.world) (hi : GivenInv c.sock c.world)
    (hn : c.sock[n]? = some ws) (hm : c.sock[m]? = some v) (hne : m ≠ n)
    (h : Local ⟨v, c.world⟩ t) (l : Loc) : Untouched n ws c (c.put m t l) := by
  have hdistinct := hreg.distinct
  obtain ⟨l₁, l₂, hs, -⟩ := put_split hm t l
  have hws : ws ∈ l₁ ++ l₂ := by
    have hmem := List.mem_of_getElem? hn
    rw [hs] at hmem
    rcases mem_slots hmem with rfl | hmem
    · -- the numbers of the slots are distinct
      have hmap : ∀ k : Nat, (c.sock.map Websocket.conn)[k]? = (c.sock[k]?).map Websocket.conn := by
        intro k
        exact List.getElem?_map
      obtain ⟨hlt, -⟩ := List.getElem?_eq_some_iff.mp hm
      refine absurd ((List.getElem?_inj (by simpa using hlt) hdistinct).mp ?_) hne
      rw [hmap, hmap, hm, hn]
    · exact hmem
  rw [hs] at hi hdistinct
  have hconn : ws.conn ≠ v.conn := by
    intro he
    rw [List.map_append, List.map_cons, List.nodup_middle, List.nodup_cons,
      ← List.map_append] at hdistinct
    exact hdistinct.1 (he ▸ List.mem_map_of_mem hws)
  constructor
  · show (c.sock.set m t.ws)[n]? = some ws
    rw [List.getElem?_set_ne hne]
    exact hn
  · intro fd hfd
    exact h.sockAt_other hi.toHeldInv.front (fun gd hg => List.mem_flatMap.mpr ⟨ws, hws, hg⟩) hfd
  · exact hi.aside h hconn

/-- **One step** that does not attend to the connection. -/
theorem coreStep_untouched (hreg : RegistryInv env c.sock c.world) (hi : GivenInv c.sock c.world)
    (hn : c.sock[n]? = some ws) (hfd : ws.wsFd ≠ none) (ho : c.Unattended env n i)
    (h : coreStep env i c = some c') : Untouched n ws c c' := by
  cases coreStep_serves h with
  | none ready now l => exact .selected hn ready now l
  | idle l => exact ⟨hn, fun _ _ => rfl, .refl _ _⟩
  | accept ready now accepts =>
      have hsel : Untouched n ws c (c.selected ready now) := .selected hn ready now _
      have hheld : HeldInv (c.selected ready now).sock (c.selected ready now).world :=
        (heldRule env).selected c.sock c.world _ hi.toHeldInv
      have hreg' : RegistryInv env (c.selected ready now).sock (c.selected ready now).world :=
        ⟨hreg.slots, hreg.numbers, hreg.distinct⟩
      exact hsel.trans (.accept hreg' hheld hn hfd now accepts)
  | quit hq =>
      subst hq
      exact ho.2.elim
  | serve m v t l hm hserved =>
      have hlocal := hserved.isLocal (hreg.slots v (List.mem_of_getElem? hm))
      by_cases hne : m = n
      · -- the step works on the slot, so it calls no handler that does something
        subst hne
        rw [hn] at hm
        cases hm
        cases hserved with
        | data answer fuel fd t hloc hl hclient hr ht =>
            obtain ⟨hread, -⟩ := ho.1 (by rw [hl]; rfl)
            simp [Core.readCall, hl, hn, hclient, hr] at hread
        | peer answer fuel fd r hloc hl hpeer hr ht =>
            obtain ⟨hread, -⟩ := ho.1 (by rw [hl]; rfl)
            simp [Core.readCall, hl, hn, hpeer, hr] at hread
        | ping answer fuel hloc hl =>
            obtain ⟨-, hping⟩ := ho.1 (by rw [hl]; rfl)
            have hdue : ¬(env.pingInterval ≠ 0 ∧ env.pingInterval < c.now - ws.lastEvent) := by
              intro hdue
              subst hloc
              simp [Core.pingCall, hl, hn, hdue] at hping
            have hquiet : wsKeepAlive env c.now ⟨ws, c.world⟩ = ⟨ws, c.world⟩ := by
              unfold wsKeepAlive
              rw [if_neg hdue]
            rw [hquiet]
            constructor
            · show (c.sock.set m ws)[m]? = some ws
              obtain ⟨hlt, -⟩ := List.getElem?_eq_some_iff.mp hn
              rw [List.getElem?_set_self hlt]
            · intro fd _
              rfl
            · exact .refl _ _
      · exact .served hreg hi hn hm hne hlocal l

/-- **Isolation**: in whatever way the core loop goes on from a state of a run, as long as it does
not attend to a connection that is there, the connection is as it was. -/
theorem unattended_untouched (env : Env φ) (c c' : Core φ)
    (h : (coreLoop env).Reach (fun _ _ => True) c) (n : Nat) (ws : Websocket φ)
    (hn : c.sock[n]? = some ws) (hfd : ws.wsFd ≠ none) (is : List Input)
    (hm : (coreLoop env).Meets (Core.Unattended env n) is c)
    (hs : (coreLoop env).exec is c = some c') : Untouched n ws c c' := by
  induction is generalizing c with
  | nil =>
      cases hs
      exact .refl hn
  | cons i is ih =>
      obtain ⟨b, hb, hs⟩ := Option.bind_eq_some_iff.mp hs
      obtain ⟨ho, hm⟩ := hm
      rw [hb] at hm
      have hstep := coreStep_untouched (coreLoop_registryInv h) (coreLoop_givenInv h) hn hfd ho hb
      exact hstep.trans (ih b (.step i h trivial hb) hstep.slot hm hs)

end

theorem sampleClients_runs : ((coreLoop sampleEnv).exec sampleClients sampleCore).isSome := by
  decide +kernel

/-- Two clients are there. -/
def sampleBoth : Core Unit :=
  ((coreLoop sampleEnv).exec sampleClients sampleCore).get sampleClients_runs

theorem sampleBoth_first : (sampleBoth.sock[0]?).isSome := by decide +kernel

/-- The second one sends a whole request and gets its peer. -/
def sampleSecond : List Input :=
  [.select [5] 1 false, .serve none 0, .serve none 0, .serve none 0,
    .serve (some (lineBytes sampleLines)) 0]

theorem sampleSecond_runs : ((coreLoop sampleEnv).exec sampleSecond sampleBoth).isSome := by
  decide +kernel

theorem unattended_untouched_sample :
    let c := ((coreLoop sampleEnv).exec sampleSecond sampleBoth).get sampleSecond_runs
    .opened 1 6 ∈ c.world.log ∧
      ∃ ws, sampleBoth.sock[0]? = some ws ∧ Untouched 0 ws sampleBoth c := by
  refine ⟨by decide +kernel, (sampleBoth.sock[0]?).get sampleBoth_first,
    (Option.some_get sampleBoth_first).symm, ?_⟩
  exact unattended_untouched sampleEnv sampleBoth _
    (.exec (.init sampleCore_init) sampleClients (Machine.meets_true _ _)
      (Option.some_get sampleClients_runs).symm)
    0 _ (Option.some_get sampleBoth_first).symm (by decide +kernel) sampleSecond (by decide +kernel)
    (Option.some_get sampleSecond_runs).symm

end Websocksy

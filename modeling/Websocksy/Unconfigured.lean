import Websocksy.DefaultPeer
import Websocksy.Builtins
import Websocksy.FramingJson

/-!
# Framing without a configuration

Both backends leave `framing_config` NULL when none is given.  `auto`, `binary` and `json` never
look at it, and the other four framing functions read it at the first call with data: that call
does not come back.  What a framing function keeps is a `FramingState`, in which such a call is
`lost`.
-/

namespace Websocksy

open Buffer CString

variable {φ α : Type}

/-! ## Registered framing functions -/

/-- The framing data of all functions. -/
inductive FramingState
  | separator (separator : Bytes)
  | fixedlen (frameSize : Nat)
  | dynamic32 (config : Dynamic32Config)
  /-- a call did not come back -/
  | lost
  deriving DecidableEq

def FramingState.toSeparator : FramingState → Option Bytes
  | .separator s => some s
  | _ => none

def FramingState.toFixedlen : FramingState → Option Nat
  | .fixedlen n => some n
  | _ => none

def FramingState.toDynamic32 : FramingState → Option Dynamic32Config
  | .dynamic32 c => some c
  | _ => none

/-- A framing function with its framing data among those of the others. -/
def WsFraming?.among (into : α → FramingState) (out : FramingState → Option α) (f : WsFraming? α) :
    WsFraming FramingState := fun data length lastRead opcode framingData config =>
  if framingData = some .lost then (-1, opcode, some .lost)
  else match f data length lastRead opcode (framingData.bind out) config with
    | none => (-1, opcode, some .lost)
    | some r => (r.1, r.2.1, r.2.2.map into)

def separatorAmong : WsFraming FramingState :=
  framingSeparator.among .separator FramingState.toSeparator

def newlineAmong : WsFraming FramingState := framingNewline.among .separator FramingState.toSeparator

def fixedlenAmong : WsFraming FramingState := framingFixedlen.among .fixedlen FramingState.toFixedlen

def dynamic32Among : WsFraming FramingState :=
  framingDynamic32.among .dynamic32 FramingState.toDynamic32

/-- The framing functions of the program and its plugins. -/
def registeredFramings : FramingLibrary FramingState where
  functions :=
    [(ascii "auto", framingAuto), (ascii "binary", framingBinary),
      (ascii "separator", separatorAmong), (ascii "newline", newlineAmong),
      (ascii "fixedlength", fixedlenAmong), (ascii "dynamic32", dynamic32Among),
      (ascii "json", framingJson)]
  auto := ⟨framingAuto, rfl⟩

/-! ## Runs -/

/-- A call of a framing function with data. -/
structure DataCall where
  data : Bytes
  length : Nat
  lastRead : Nat
  opcode : WsOperation

/-- What calls with data leave of the framing data. -/
def framingDataAfter (f : WsFraming φ) (config : Option Bytes) (calls : List DataCall)
    (framingData : Option φ) : Option φ :=
  calls.foldl (fun framingData call =>
    (f (some call.data) call.length call.lastRead (some call.opcode) framingData config).2.2)
    framingData

/-- The teardown call of `ws_close`, if there is framing data. -/
def teardown (f : WsFraming φ) (config : Option Bytes) : Option φ → Option φ
  | none => none
  | some framingData => (f none 0 0 none (some framingData) config).2.2

/-- The framing function of a peer: `client_connect` puts `auto` for none. -/
def WsPeerInfo.framingFunction (peer : WsPeerInfo φ) : WsFraming φ := peer.framing.getD framingAuto

/-- The calls with data and the teardown call all come back. -/
def Completes (peer : WsPeerInfo FramingState) (calls : List DataCall) : Prop :=
  teardown peer.framingFunction peer.framingConfig
    (framingDataAfter peer.framingFunction peer.framingConfig calls none) ≠ some .lost

/-- A peer that the default backend or the file backend returns. -/
inductive Returned : WsPeerInfo FramingState → Prop
  | defaultpeer (calls : List (Bytes × Bytes)) (protocol : List Bytes) :
      Returned ((DefaultPeer.configured registeredFramings calls).query protocol)
  | file (b : BackendFile) (file : Bytes → Option Bytes) (endpoint : Bytes) (protocol : List Bytes)
      (header : List WsHttpHeader) (peer : WsPeerInfo FramingState)
      (h : b.query registeredFramings file endpoint protocol header = some peer) : Returned peer

/-- The functions that do not look at a configuration. -/
def NeedsNoConfig (f : WsFraming FramingState) : Prop :=
  f = framingAuto ∨ f = framingBinary ∨ f = framingJson

section

/-! ## What the backends return -/

/-- A peer's framing function is registered, or absent. -/
def FramingLibrary.Holds (l : FramingLibrary φ) (f : Option (WsFraming φ)) : Prop :=
  ∀ g, f = some g → ∃ name, (name, g) ∈ l.functions

theorem mem_of_lookup {l : List (Bytes × α)} {name : Bytes} {a : α} (h : l.lookup name = some a) :
    (name, a) ∈ l := by
  induction l with
  | nil => cases h
  | cons p l ih =>
      rw [List.lookup_cons] at h
      split at h
      · next hname =>
        cases h
        rw [beq_iff_eq.mp hname]
        exact List.mem_cons_self
      · exact List.mem_cons_of_mem p (ih h)

variable {l : FramingLibrary φ}

theorem FramingLibrary.framing_holds (name : Option Bytes) : l.Holds (l.framing name) := by
  intro g hg
  unfold FramingLibrary.framing at hg
  split at hg
  · next f hf =>
    cases hg
    obtain ⟨n, -, hn⟩ := Option.bind_eq_some_iff.mp hf
    exact ⟨n, mem_of_lookup hn⟩
  · exact ⟨_, mem_of_lookup hg⟩

theorem configure_holds (d : DefaultPeer φ) (key value : Bytes) (h : l.Holds d.defaultPeer.framing) :
    l.Holds (d.configure l key value).2.defaultPeer.framing := by
  unfold DefaultPeer.configure
  split
  · exact h
  split
  · exact h
  split
  · exact h
  split
  · exact l.framing_holds _
  split
  · exact h
  · exact h

theorem configured_holds (calls : List (Bytes × Bytes)) :
    l.Holds (DefaultPeer.configured l calls).defaultPeer.framing := by
  unfold DefaultPeer.configured
  have hinit : l.Holds (DefaultPeer.init ({} : DefaultPeer φ)).defaultPeer.framing := by
    intro g hg
    cases hg
  generalize DefaultPeer.init ({} : DefaultPeer φ) = d at hinit ⊢
  induction calls generalizing d with
  | nil => exact hinit
  | cons call calls ih => exact ih _ (configure_holds d call.1 call.2 hinit)

theorem queryLine_holds {protocol : List Bytes} {line : Bytes} {peer peer' : WsPeerInfo φ}
    (h : l.Holds peer.framing) (hq : queryLine l protocol line peer = some peer') :
    l.Holds peer'.framing := by
  have htaken (host : Bytes) (fields : Bytes × Option Bytes × Option Bytes) (p : Nat)
      (ht : (if protocol.length ≠ 0 ∧ p = protocol.length then some { peer with protocol := p }
        else some { peer with
          protocol := p, host := some host, framing := l.framing fields.2.1
          framingConfig := fields.2.2 }) = some peer') : l.Holds peer'.framing := by
    split at ht
    · cases ht
      exact h
    · cases ht
      exact FramingLibrary.framing_holds fields.2.1
  unfold queryLine at hq
  dsimp only at hq
  split at hq
  · split at hq
    · cases hq
      exact h
    · cases hq
  · next host rest _ => exact htaken host _ _ hq

theorem queryLines_holds {protocol : List Bytes} (lines : List Bytes) {peer peer' : WsPeerInfo φ}
    (h : l.Holds peer.framing) (hq : queryLines l protocol lines peer = some peer') :
    l.Holds peer'.framing := by
  induction lines generalizing peer with
  | nil =>
      cases hq
      exact h
  | cons line lines ih =>
      unfold queryLines at hq
      split at hq
      · cases hq
      · next r hr =>
        have hline := queryLine_holds h hr
        split at hq
        · cases hq
          exact hline
        · exact ih hline hq

theorem queryExpressions_holds {file : Bytes → Option Bytes} {backendPath : Bytes}
    {protocol : List Bytes} {header : List WsHttpHeader} (expressions : List Bytes)
    {endpoint : Bytes} {peer peer' : WsPeerInfo φ} (h : l.Holds peer.framing)
    (hq : queryExpressions l file backendPath protocol header expressions endpoint peer = some peer') :
    l.Holds peer'.framing := by
  induction expressions generalizing endpoint peer with
  | nil =>
      cases hq
      exact h
  | cons expression expressions ih =>
      unfold queryExpressions at hq
      split at hq
      · cases hq
      · split at hq
        · exact ih h hq
        · split at hq
          · cases hq
          · next r hr =>
            have hlines := queryLines_holds _ h hr
            split at hq
            · cases hq
              exact hlines
            · exact ih hlines hq

theorem Returned.holds {peer : WsPeerInfo FramingState} (h : Returned peer) :
    registeredFramings.Holds peer.framing := by
  cases h with
  | defaultpeer calls protocol => exact configured_holds calls
  | file b file endpoint protocol header _ hq =>
      refine queryExpressions_holds _ ?_ hq
      intro g hg
      cases hg

/-! ## Runs without a configuration -/

/-- A function that keeps no framing data has none at the end. -/
theorem framingDataAfter_none {f : WsFraming φ} {config : Option Bytes}
    (hf : ∀ data length lastRead opcode, (f data length lastRead opcode none config).2.2 = none)
    (calls : List DataCall) : framingDataAfter f config calls none = none := by
  unfold framingDataAfter
  induction calls with
  | nil => rfl
  | cons call calls ih =>
      rw [List.foldl_cons, hf]
      exact ih

/-- A call that does not come back is the last. -/
theorem framingDataAfter_lost {f : WsFraming? α} (into : α → FramingState) (out : FramingState → Option α)
    (config : Option Bytes) (calls : List DataCall) :
    framingDataAfter (f.among into out) config calls (some .lost) = some .lost := by
  unfold framingDataAfter
  induction calls with
  | nil => rfl
  | cons call calls ih =>
      rw [List.foldl_cons]
      exact ih

/-- A function that reads the configuration at the first call does not come back from it. -/
theorem among_lost {f : WsFraming? α} (into : α → FramingState) (out : FramingState → Option α)
    (hf : ∀ data length lastRead opcode, f (some data) length lastRead opcode none none = none)
    {calls : List DataCall} (hcalls : calls ≠ []) :
    teardown (f.among into out) none (framingDataAfter (f.among into out) none calls none) =
      some .lost := by
  cases calls with
  | nil => exact absurd rfl hcalls
  | cons call calls =>
      have hfirst : (f.among into out (some call.data) call.length call.lastRead (some call.opcode)
          none none).2.2 = some .lost := by
        unfold WsFraming?.among
        rw [if_neg (by simp), Option.bind_none, hf]
      have hall : framingDataAfter (f.among into out) none (call :: calls) none = some .lost := by
        unfold framingDataAfter
        rw [List.foldl_cons, hfirst]
        exact framingDataAfter_lost into out none calls
      rw [hall]
      rfl

end

/-- **A run without a configuration completes** if the framing function is `auto`, `binary` or
`json`, or there is no data. -/
theorem unconfigured_iff (peer : WsPeerInfo FramingState) (h : Returned peer)
    (hn : peer.framingConfig = none) (calls : List DataCall) :
    Completes peer calls ↔ NeedsNoConfig peer.framingFunction ∨ calls = [] := by
  unfold Completes
  rw [hn]
  constructor
  · intro hcompletes
    by_contra hnot
    rw [not_or] at hnot
    obtain ⟨hneeds, hcalls⟩ := hnot
    cases hf : peer.framing with
    | none => exact hneeds (.inl (by rw [WsPeerInfo.framingFunction, hf]; rfl))
    | some f =>
        have hfunction : peer.framingFunction = f := by
          rw [WsPeerInfo.framingFunction, hf]
          rfl
        rw [hfunction] at hneeds hcompletes
        obtain ⟨name, hname⟩ := h.holds f hf
        simp only [registeredFramings, List.mem_cons, Prod.mk.injEq, List.not_mem_nil, or_false] at hname
        rcases hname with ⟨-, rfl⟩ | ⟨-, rfl⟩ | ⟨-, rfl⟩ | ⟨-, rfl⟩ | ⟨-, rfl⟩ | ⟨-, rfl⟩ | ⟨-, rfl⟩
        · exact hneeds (.inl rfl)
        · exact hneeds (.inr (.inl rfl))
        · exact hcompletes (among_lost _ _ (fun _ _ _ _ => rfl) hcalls)
        · exact hcompletes (among_lost _ _ (fun _ _ _ _ => rfl) hcalls)
        · exact hcompletes (among_lost _ _ (fun _ _ _ _ => rfl) hcalls)
        · exact hcompletes (among_lost _ _ (fun _ _ _ _ => rfl) hcalls)
        · exact hneeds (.inr (.inr rfl))
  · rintro (hneeds | rfl)
    · have hnone : framingDataAfter peer.framingFunction none calls none = none := by
        rcases hneeds with hf | hf | hf <;> rw [hf] <;> refine framingDataAfter_none ?_ calls
        · exact fun _ _ _ _ => rfl
        · exact fun _ _ _ _ => rfl
        · intro data length lastRead opcode
          unfold framingJson
          dsimp only
          split
          · rfl
          · split <;> rfl
      rw [hnone]
      exact fun h => by cases h
    · exact fun h => by cases h

/-- A default backend with the framing function `json`. -/
theorem unconfigured_sample :
    let peer := (DefaultPeer.configured registeredFramings [(ascii "framing", ascii "json")]).query []
    Completes peer [⟨ascii "[1]", 3, 3, .binary⟩] :=
  (unconfigured_iff _ (.defaultpeer _ []) rfl _).mpr (.inl (.inr (.inr rfl)))

/-- A default backend with the framing function `separator` and no configuration. -/
theorem unconfigured_fails : ¬∀ peer, Returned peer → peer.framingConfig = none →
    ∀ calls, Completes peer calls := by
  intro h
  have hcompletes := h _ (.defaultpeer [(ascii "framing", ascii "separator")] []) rfl
    [⟨ascii "a", 1, 1, .binary⟩]
  exact hcompletes rfl

end Websocksy

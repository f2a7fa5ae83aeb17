import Websocksy.Attribution
import Websocksy.Ownership

/-!
# How many slots and descriptors there are

The registry never shrinks, and a slot is added only when every one is taken: with at most `N`
clients at a time there are at most `N + 1` slots, however many clients come and go.  Each slot
holds two descriptors at most and `accept` and `socket` take the lowest free one, so the open
descriptors stay within `2 * (N + 1)` of those that the program did not open itself.  `select`
is only asked about descriptors that are open (`select_fits`).
-/

namespace Websocksy

open Buffer CString Lines FdTable

variable {φ : Type}

/-- How many slots have a client. -/
def Core.clients (c : Core φ) : Nat := c.sock.countP (·.wsFd.isSome)

/-- The socket is no client's and no peer's. -/
def World.Outside (w : World) (x : Nat) : Prop := ∀ conn, ¬GivenTo conn x w.log

section

variable {env : Env φ} {base n : Nat} {sock rest : List (Websocket φ)} {w : World}
  {s t : Conn φ} {c c' : Core φ}

/-! ## Slots -/

/-- A slot is added only when all of them are taken. -/
theorem clientRegister_length (ws : Websocket φ) (sock : List (Websocket φ)) :
    (clientRegister ws sock).length ≤ max sock.length (sock.countP (·.wsFd.isSome) + 1) := by
  unfold clientRegister
  dsimp only
  split
  · rw [List.length_set]
    omega
  · next hfull =>
    have hall : ∀ ws ∈ sock, ws.wsFd.isSome := by
      intro ws hm
      have hidx : sock.findIdx (·.wsFd.isNone) = sock.length :=
        Nat.le_antisymm List.findIdx_le_length (Nat.le_of_not_lt hfull)
      have hnone := List.findIdx_eq_length.mp hidx ws hm
      simpa using hnone
    have hcount : sock.countP (·.wsFd.isSome) = sock.length := List.countP_eq_length.mpr hall
    rw [List.length_append, List.length_singleton]
    omega

theorem CoreNext.slots {A : Scope} (h : CoreNext env A c c') :
    c'.sock.length ≤ max c.sock.length (c.clients + 1) := by
  cases h with
  | round ready now => exact Nat.le_max_left _ _
  | accept ready now accepts => exact clientRegister_length _ _
  | quit => exact Nat.zero_le _
  | idle l => exact Nat.le_max_left _ _
  | handler l₁ l₂ ws w t l hs hw ht =>
      rw [hs]
      refine Nat.le_trans (Nat.le_of_eq ?_) (Nat.le_max_left _ _)
      simp

/-- **Slots** in every run with at most `n` clients at a time. -/
theorem coreLoop_slots (h : (coreLoop env).Reach (fun c _ => c.clients ≤ n) c) :
    c.sock.length ≤ n + 1 := by
  refine h.invariant (P := fun c => c.sock.length ≤ n + 1) ?_ ?_
  · intro c hc
    rw [hc.1]
    exact Nat.zero_le _
  · intro c i c' hreach hle hclients hs
    have hnext := (coreStep_next_all (coreLoop_registryInv hreach) hs).slots
    omega

/-! ## What a slot holds -/

theorem held_length (ws : Websocket φ) : ws.held.length ≤ 2 := by
  unfold Websocket.held
  rw [List.length_append]
  have hone (o : Option Nat) : o.toList.length ≤ 1 := by cases o <;> simp
  have hclient := hone ws.wsFd
  have hpeer := hone ws.peerFd
  omega

theorem heldAll_length (sock : List (Websocket φ)) :
    (sock.flatMap (·.held)).length ≤ 2 * sock.length := by
  induction sock with
  | nil => simp
  | cons ws sock ih =>
      have hle := held_length ws
      rw [List.flatMap_cons, List.length_append, List.length_cons]
      omega

/-- A slot without a client holds nothing. -/
theorem RegistryInv.free (hreg : RegistryInv env sock w) {ws : Websocket φ} (hm : ws ∈ sock)
    (hw : ws.wsFd = none) : ws.held = [] := by
  have hslot := hreg.slots ws hm
  unfold Websocket.held
  rw [hw]
  cases hp : ws.peerFd with
  | none => rfl
  | some fd =>
      have hopen := (hslot.opened (hslot.open_of_peer hp)).1
      rw [hw] at hopen
      cases hopen

/-- A new client's slot held nothing. -/
theorem heldAll_register (hreg : RegistryInv env sock w) (ws : Websocket φ) :
    (sock.flatMap (·.held)).length + 2 ≤ 2 * (clientRegister ws sock).length := by
  rcases clientRegister_cases ws sock with ⟨m, old, hm, hold, he⟩ | he
  · obtain ⟨hlen, rfl⟩ := List.getElem?_eq_some_iff.mp hm
    have hfree := hreg.free (List.getElem_mem hlen) hold
    have hsplit : sock = sock.take m ++ sock[m] :: sock.drop (m + 1) := by
      rw [← List.drop_eq_getElem_cons hlen, List.take_append_drop]
    have hheld : sock.flatMap (·.held) =
        (sock.take m).flatMap (·.held) ++ (sock.drop (m + 1)).flatMap (·.held) := by
      conv_lhs => rw [hsplit]
      rw [List.flatMap_append, List.flatMap_cons, hfree, List.nil_append]
    have hbefore := heldAll_length (sock.take m)
    have hafter := heldAll_length (sock.drop (m + 1))
    rw [List.length_take] at hbefore
    rw [List.length_drop] at hafter
    rw [he, hheld, List.length_append, List.length_set]
    omega
  · have hle := heldAll_length sock
    rw [he, List.length_append, List.length_singleton]
    omega

/-- What a slot holds was given to its connection. -/
theorem GivenInv.held_given (hg : GivenInv sock w) {fd x : Nat} (hm : fd ∈ sock.flatMap (·.held))
    (hx : w.sockAt (some fd) = some x) : ¬w.Outside x := by
  obtain ⟨ws, hws, hfd⟩ := List.mem_flatMap.mp hm
  intro hout
  unfold Websocket.held at hfd
  rcases List.mem_append.mp hfd with hfd | hfd
  · have hclient : ws.wsFd = some fd := by simpa using hfd
    exact hout ws.conn (.inl (hg.client ws hws x (by rw [hclient]; exact hx)))
  · have hpeer : ws.peerFd = some fd := by simpa using hfd
    exact hout ws.conn (.inr (hg.peer ws hws x (by rw [hpeer]; exact hx)))

/-- The open sockets that the program did not open itself are those it started with. -/
theorem OwnershipInv.outside_iff (hi : OwnershipInv base sock w) (hg : GivenInv sock w) {fd x : Nat}
    (hx : w.sockAt (some fd) = some x) : w.Outside x ↔ x < base := by
  constructor
  · intro hout
    by_contra hge
    exact hg.held_given (hi.noLeak fd x hx (Nat.le_of_not_lt hge)) hx hout
  · intro hlt conn hgiven
    have hrange := hi.range conn x hgiven.symm
    omega

/-- A new descriptor is not far above those the program started with. -/
theorem OwnershipInv.lowest_le (hi : OwnershipInv base sock w)
    (hb : ∀ fd x, w.sockAt (some fd) = some x → x < base → fd < n) :
    lowest w.fds ≤ n + (sock.flatMap (·.held)).length := by
  apply FdTable.lowest_le
  intro fd hopen
  obtain ⟨x, hx⟩ := Option.isSome_iff_exists.mp hopen
  by_cases hlt : x < base
  · exact .inl (hb fd x hx hlt)
  · exact .inr (hi.noLeak fd x hx (Nat.le_of_not_lt hlt))

/-! ## Handlers -/

/-- What a connection comes to hold by one act: what it held, or a peer at the lowest number. -/
theorem Act.held_new (h : Act env Scope.inOrder s t) (hst : StateInv env s.ws) {fd : Nat}
    (hfd : fd ∈ t.ws.held) : fd ∈ s.ws.held ∨ fd = lowest s.world.fds ∧ s.ws.peerFd = none := by
  have hclosed (code : WsCloseReason) (reason : Option Bytes) (u : Conn φ)
      (hm : fd ∈ (wsClose env code reason u).ws.held) : False := by
    have hc := wsClose_cleared env code reason u
    simp [Websocket.held, hc.wsFd, hc.peerFd] at hm
  cases h with
  | bare ws h hr =>
      obtain ⟨rb, ro, le, rfl⟩ := bare_eq h.symm
      exact .inl hfd
  | peerBuffer b k fd h => exact .inl hfd
  | note e h => exact .inl hfd
  | line data h => exact .inl hfd
  | path p h => exact .inl hfd
  | header tag value h hn =>
      obtain ⟨hs, ver, key, up, ps, he⟩ := wsHeader_eq tag value s.ws
      rw [he] at hfd
      exact .inl hfd
  | upgrade h hn hr =>
      have hpeer : s.ws.peerFd = none := hst.early (.inr h)
      have hu := wsUpgradeHttp_cases env hr
      generalize (wsUpgradeHttp env s).2 = t at hu hfd
      cases hu with
      | refused p => exact (hclosed _ _ _ hfd).elim
      | failed p => exact (hclosed _ _ _ hfd).elim
      | dropped p w hs => exact (hclosed _ _ _ hfd).elim
      | opened p f hf ho w hs =>
          rcases List.mem_append.mp hfd with hfd | hfd
          · exact .inl (List.mem_append_left _ hfd)
          · exact .inr ⟨List.mem_singleton.mp hfd, hpeer⟩
  | close code reason h => exact (hclosed _ _ _ hfd).elim
  | forward data h => exact .inl hfd
  | frame op data h ho => exact .inl hfd

/-- **A handler** keeps its connection's descriptors below a bound that leaves room for two in
each slot. -/
theorem Acts.held_lt {limit : Nat} (h : Acts env Scope.inOrder s t) (hst : StateInv env s.ws)
    (hc : s.ws.conn < s.world.conns) (hd : ∀ v ∈ rest, v.conn ≠ s.ws.conn)
    (hi : OwnershipInv base (s.ws :: rest) s.world)
    (hb : ∀ fd x, s.world.sockAt (some fd) = some x → x < base → fd < n)
    (hroom : n + 2 * (rest.length + 1) ≤ limit) (hs : ∀ fd ∈ s.ws.held, fd < limit) :
    ∀ fd ∈ t.ws.held, fd < limit := by
  have key : (StateInv env t.ws ∧ Local s t ∧ OwnershipInv base (t.ws :: rest) t.world) ∧
      (∀ fd x, t.world.sockAt (some fd) = some x → x < base → fd < n) ∧
      ∀ fd ∈ t.ws.held, fd < limit := by
    refine h.invariant (P := fun t => (StateInv env t.ws ∧ Local s t ∧
      OwnershipInv base (t.ws :: rest) t.world) ∧
      (∀ fd x, t.world.sockAt (some fd) = some x → x < base → fd < n) ∧
      ∀ fd ∈ t.ws.held, fd < limit) ?_ ⟨⟨hst, .refl s, hi⟩, hb, hs⟩
    rintro u v ha ⟨⟨hu, hlocal, hown⟩, hbu, hlim⟩
    refine ⟨⟨ha.stateInv hu, hlocal.trans ha.isLocal, ?_⟩, ?_, ?_⟩
    · refine ha.ownershipInv Scope.inOrder_ordered hu ?_ ?_ hown
      · rw [hlocal.conn, hlocal.conns]
        exact hc
      · rw [hlocal.conn]
        exact hd
    · intro fd x hx hlt
      rcases ha.later.entry fd x hx with hx | hge
      · exact hbu fd x hx hlt
      · have hbase := hown.base_le
        omega
    · intro fd hfd
      rcases ha.held_new hu hfd with hold | ⟨rfl, hpeer⟩
      · exact hlim fd hold
      · -- only the client's descriptor is in the slot, and two in each of the others
        have hlow := hown.lowest_le hbu
        have hrest := heldAll_length rest
        have hone : u.ws.held.length ≤ 1 := by
          unfold Websocket.held
          rw [hpeer]
          cases u.ws.wsFd <;> simp
        rw [List.flatMap_cons, List.length_append] at hlow
        omega
  exact key.2.2

/-! ## Runs -/

/-- The connection that a handler is called for is in front of the others. -/
theorem RegistryInv.served {l₁ l₂ : List (Websocket φ)} {ws : Websocket φ} {w' : World}
    {ready : List Nat} (hreg : RegistryInv env (l₁ ++ ws :: l₂) w)
    (hw : Received ready ⟨ws, w⟩ w') :
    StateInv env ws ∧ ws.conn < w'.conns ∧ ∀ v ∈ l₁ ++ l₂, v.conn ≠ ws.conn := by
  have hself : ws ∈ l₁ ++ ws :: l₂ := by simp
  have hdistinct := (List.perm_middle.map Websocket.conn).nodup_iff.mp hreg.distinct
  rw [List.map_cons, List.nodup_cons] at hdistinct
  refine ⟨(hreg.slots ws hself).toStateInv, ?_, ?_⟩
  · rw [hw.isLocal.conns]
    exact hreg.numbers ws hself
  · intro v hv he
    exact hdistinct.1 (he ▸ List.mem_map_of_mem hv)

theorem OwnershipInv.served {l₁ l₂ : List (Websocket φ)} {ws : Websocket φ} {w' : World}
    {ready : List Nat} (hi : OwnershipInv base (l₁ ++ ws :: l₂) w)
    (hw : Received ready ⟨ws, w⟩ w') : OwnershipInv base (ws :: (l₁ ++ l₂)) w' := by
  have hfront : OwnershipInv base (ws :: (l₁ ++ l₂)) w := hi.perm List.perm_middle
  cases hw with
  | quiet => exact hfront
  | event fd x e hfd hr hx he =>
      refine hfront.record ?_
      rcases he with rfl | ⟨d, rfl⟩ <;> trivial

/-- A step of the core loop before its end leaves the sockets alone that the program started with. -/
theorem CoreNext.outside (h : CoreNext env Scope.inOrder c c') (hreg : RegistryInv env c.sock c.world)
    (hi : OwnershipInv base c.sock c.world) (hd : c'.loc ≠ .done) {fd x : Nat}
    (hx : c.world.sockAt (some fd) = some x) (hlt : x < base) :
    c'.world.sockAt (some fd) = some x ∧ c'.world.Outside x := by
  have hrange (sock : List (Websocket φ)) (w : World) (hi : OwnershipInv base sock w) : w.Outside x := by
    intro conn hgiven
    have hrange := hi.range conn x hgiven.symm
    omega
  cases h with
  | round ready now => exact ⟨hx, hrange _ _ (hi.record (e := .selected _) trivial)⟩
  | accept ready now accepts =>
      refine ⟨accept_sockAt accepts hx, ?_⟩
      have hselected : (c.selected ready now).world.Outside x :=
        hrange _ _ (hi.record (e := .selected _) trivial)
      cases accepts with
      | false => exact hselected
      | true =>
          have hbase := hi.base_le
          have hne : x ≠ c.world.socks := by omega
          intro conn hgiven
          refine hselected conn ?_
          have hlog : (wsAccept now true (c.selected ready now)).world.log =
              (c.selected ready now).world.log ++ [.accepted c.world.conns c.world.socks] := rfl
          unfold GivenTo at hgiven ⊢
          rw [hlog] at hgiven
          simpa [hne] using hgiven
  | quit => exact absurd rfl hd
  | idle l => exact ⟨hx, hrange _ _ hi⟩
  | handler l₁ l₂ ws w t l hs hw ht =>
      rw [hs] at hi hreg
      have hheld : fd ∉ ws.held := by
        intro hm
        obtain ⟨y, hy, hxy⟩ := hi.held.2 fd (List.mem_flatMap.mpr ⟨ws, by simp, hm⟩)
        obtain rfl : x = y := Option.some.inj (hx.symm.trans hxy)
        omega
      obtain ⟨hst, hc, hother⟩ := hreg.served hw
      have hown := ht.ownershipInv Scope.inOrder_ordered hst hc hother (hi.served hw)
      exact ⟨(hw.isLocal.trans ht.isLocal).entry fd x hx hheld, hrange _ _ hown⟩

/-- The descriptors of the slots leave little room above those that the program did not open. -/
def Low (sock : List (Websocket φ)) (w : World) : Prop :=
  ∀ n, (∀ fd x, w.sockAt (some fd) = some x → w.Outside x → fd < n) →
    ∀ fd ∈ sock.flatMap (·.held), fd < n + 2 * sock.length

/-- **A step** of the core loop before its end. -/
theorem CoreNext.low (h : CoreNext env Scope.inOrder c c') (hreg : RegistryInv env c.sock c.world)
    (hi : OwnershipInv base c.sock c.world) (hg : GivenInv c.sock c.world) (hd : c'.loc ≠ .done)
    (hlow : Low c.sock c.world) : Low c'.sock c'.world := by
  intro n hn
  have hb : ∀ fd x, c.world.sockAt (some fd) = some x → x < base → fd < n := by
    intro fd x hx hlt
    obtain ⟨hx', hout⟩ := h.outside hreg hi hd hx hlt
    exact hn fd x hx' hout
  have hold : ∀ fd ∈ c.sock.flatMap (·.held), fd < n + 2 * c.sock.length :=
    hlow n fun fd x hx hout => hb fd x hx ((hi.outside_iff hg hx).mp hout)
  cases h with
  | round ready now => exact hold
  | accept ready now accepts =>
      intro fd hfd
      obtain ⟨ws, hws, hfd⟩ := List.mem_flatMap.mp hfd
      rw [wsAccept_eq] at hws ⊢
      rcases mem_clientRegister hws with rfl | hws
      · -- the number was free, and the client's slot held nothing
        cases accepts with
        | false => cases hfd
        | true =>
            obtain rfl : fd = lowest c.world.fds := List.mem_singleton.mp hfd
            have hlow := hi.lowest_le hb
            have hroom := heldAll_register hreg (acceptedConn now true (c.selected ready now).world)
            show _ < n + 2 * (clientRegister _ c.sock).length
            omega
      · have hlt := hold fd (List.mem_flatMap.mpr ⟨ws, hws, hfd⟩)
        have hle := length_le_clientRegister
          (acceptedConn now accepts (c.selected ready now).world) c.sock
        show _ < n + 2 * (clientRegister _ c.sock).length
        omega
  | quit => exact absurd rfl hd
  | idle l => exact hold
  | handler l₁ l₂ ws w t l hs hw ht =>
      rw [hs] at hi hreg hold
      obtain ⟨hst, hc, hother⟩ := hreg.served hw
      have hroom : n + 2 * ((l₁ ++ l₂).length + 1) ≤ n + 2 * (l₁ ++ ws :: l₂).length := by
        rw [List.length_append, List.length_append, List.length_cons]
        omega
      have hown : ∀ fd ∈ t.ws.held, fd < n + 2 * (l₁ ++ ws :: l₂).length := by
        refine ht.held_lt hst hc hother (hi.served hw) ?_ hroom ?_
        · intro fd x hx hlt
          refine hb fd x ?_ hlt
          cases hw <;> exact hx
        · intro fd hfd
          exact hold fd (List.mem_flatMap.mpr ⟨ws, by simp, hfd⟩)
      have hlen : (l₁ ++ t.ws :: l₂).length = (l₁ ++ ws :: l₂).length := by simp
      intro fd hfd
      dsimp only at hfd ⊢
      rw [hlen]
      obtain ⟨v, hv, hfd⟩ := List.mem_flatMap.mp hfd
      rcases mem_slots hv with rfl | hv
      · exact hown fd hfd
      · exact hold fd (List.mem_flatMap.mpr ⟨v, mem_slots_of hv, hfd⟩)

/-- What the program has opened, in every run in which no line follows one that ends the HTTP
phase in the same read. -/
theorem coreLoop_ownership (h : (coreLoop env).Reach LinesInOrder c) :
    ∃ base, OwnershipInv base c.sock c.world :=
  (ownershipRule env Scope.inOrder_ordered).reach Scope.inOrder_handles
    (fun _ _ _ _ _ _ _ _ _ _ _ => trivial) (fun _ _ ho => ho) (fun _ _ _ _ _ => trivial) h

/-- The step that a run in order makes. -/
theorem coreStep_inOrder {i : Input} (h : (coreLoop env).Reach LinesInOrder c) (hl : LinesInOrder c i)
    (hs : coreStep env i c = some c') : CoreNext env Scope.inOrder c c' :=
  coreStep_next Scope.inOrder_handles (fun _ _ _ _ _ _ _ _ _ _ _ => trivial)
    (coreLoop_registryInv h) hl (fun _ _ => trivial) hs

theorem coreLoop_low (h : (coreLoop env).Reach LinesInOrder c) : Low c.sock c.world := by
  refine h.invariant (P := fun c => Low c.sock c.world) ?_ ?_
  · intro c hc n hn
    rw [hc.1]
    simp
  · intro c i c' hreach hlow hl hs
    by_cases hd : c'.loc = .done
    · rw [coreLoop_done (hreach.step i hl hs) hd]
      intro n hn
      simp
    · obtain ⟨base, hi⟩ := coreLoop_ownership hreach
      exact (coreStep_inOrder hreach hl hs).low (coreLoop_registryInv hreach) hi
        (coreLoop_givenInv hreach) hd hlow

/-- The listening socket stays open, and is no client's and no peer's. -/
theorem coreLoop_listens (h : (coreLoop env).Reach LinesInOrder c) (hd : c.loc ≠ .done) :
    ∃ x, c.world.sockAt (some c.listenFd) = some x ∧ c.world.Outside x := by
  refine h.invariant (P := fun c => c.loc ≠ .done →
    ∃ x, c.world.sockAt (some c.listenFd) = some x ∧ c.world.Outside x) ?_ ?_ hd
  · intro c hc _
    obtain ⟨-, -, hlog, -, hlisten⟩ := hc
    obtain ⟨x, hx⟩ := Option.ne_none_iff_exists'.mp hlisten
    exact ⟨x, hx, fun conn => by simp [GivenTo, hlog]⟩
  · intro c i c' hreach hlisten hl hs hd
    have hnext := coreStep_inOrder hreach hl hs
    obtain ⟨base, hi⟩ := coreLoop_ownership hreach
    have hold : c.loc ≠ .done := by
      intro hdone
      have hnone : coreStep env i c = none := by
        unfold coreStep
        rw [hdone]
      cases hnone.symm.trans hs
    obtain ⟨x, hx, hout⟩ := hlisten hold
    have hlt := (hi.outside_iff (coreLoop_givenInv hreach) hx).mp hout
    have hfd : c'.listenFd = c.listenFd := by cases hnext <;> rfl
    rw [hfd]
    exact ⟨x, hnext.outside (coreLoop_registryInv hreach) hi hd hx hlt⟩

/-- What is put into the set for `select`: the listening socket, and all that the slots hold. -/
theorem selectFds_eq (hreg : RegistryInv env c.sock c.world) :
    selectFds c = c.listenFd :: c.sock.flatMap (·.held) := by
  have hslots : ∀ ws ∈ c.sock, ws.wsFd = none → ws.held = [] := fun ws => hreg.free
  unfold selectFds
  congr 1
  generalize c.sock = sock at hslots ⊢
  induction sock with
  | nil => rfl
  | cons ws sock ih =>
      rw [List.flatMap_cons, List.flatMap_cons,
        ih fun ws hm => hslots ws (List.mem_cons_of_mem _ hm)]
      congr 1
      cases hw : ws.wsFd with
      | none => rw [hslots ws List.mem_cons_self hw]
      | some fd => simp [Websocket.held, hw]

/-- **What `select` is asked about**: in every run with at most `n` clients at a time, in which no
line follows one that ends the HTTP phase in the same read, there are at most `n + 1` slots; the
descriptors for `select` are all open, no two of them the same, and at most `2 * (n + 1)` above
those that the program did not open itself. -/
theorem select_fits (env : Env φ) (c : Core φ) (n limit : Nat)
    (h : (coreLoop env).Reach (fun c i => LinesInOrder c i ∧ c.clients ≤ n) c)
    (hlimit : ∀ fd x, c.world.sockAt (some fd) = some x → c.world.Outside x → fd < limit) :
    c.sock.length ≤ n + 1 ∧ (c.loc ≠ .done → (selectFds c).Nodup ∧
      ∀ fd ∈ selectFds c, fd < limit + 2 * (n + 1) ∧ c.world.sockAt (some fd) ≠ none) := by
  have hslots : c.sock.length ≤ n + 1 := coreLoop_slots (h.mono fun c i ho => ho.2)
  refine ⟨hslots, ?_⟩
  intro hd
  have horder : (coreLoop env).Reach LinesInOrder c := h.mono fun c i ho => ho.1
  have hgiven := coreLoop_givenInv h
  obtain ⟨x, hx, hout⟩ := coreLoop_listens horder hd
  rw [selectFds_eq (coreLoop_registryInv h)]
  constructor
  · refine List.nodup_cons.mpr ⟨?_, hgiven.held.1⟩
    intro hm
    exact hgiven.held_given hm hx hout
  · intro fd hfd
    rcases List.mem_cons.mp hfd with rfl | hfd
    · have hlt := hlimit _ x hx hout
      refine ⟨by omega, ?_⟩
      rw [hx]
      exact Option.some_ne_none x
    · have hlt := coreLoop_low horder limit hlimit fd hfd
      obtain ⟨y, -, hy⟩ := hgiven.held.2 fd hfd
      refine ⟨by omega, ?_⟩
      show entry c.world.fds fd ≠ none
      rw [hy]
      exact Option.some_ne_none y

end

/-- The bound on what the program did not open, checked. -/
theorem outside_lt {w : World} {limit : Nat} (h : ∀ fd ∈ List.range w.fds.length, fd < limit ∨
      ∀ x ∈ entry w.fds fd, ∃ conn ∈ List.range w.conns,
        .accepted conn x ∈ w.log ∨ .opened conn x ∈ w.log) (fd x : Nat)
    (hx : w.sockAt (some fd) = some x) (hout : w.Outside x) : fd < limit := by
  rcases h fd (List.mem_range.mpr (entry_lt_length hx)) with hlt | hgiven
  · exact hlt
  · obtain ⟨conn, -, hconn⟩ := hgiven x hx
    exact absurd hconn (hout conn)

/-- One client comes, and goes; then there is another one, with a peer. -/
def sampleAnother : List Input :=
  sampleAccept ++ [.select [4] 1 false, .serve (some []) 0, .serve none 0, .serve none 0, .serve none 0] ++
    sampleBytes (lineBytes sampleLines)

theorem sampleAnother_runs : ((coreLoop sampleEnv).exec sampleAnother sampleCore).isSome := by
  decide +kernel

/-- Two clients after one another take one slot. -/
theorem select_fits_sample :
    let c := ((coreLoop sampleEnv).exec sampleAnother sampleCore).get sampleAnother_runs
    (c.world.conns = 2 ∧ selectFds c = [3, 4, 5]) ∧
    c.sock.length ≤ 2 ∧ (c.loc ≠ .done → (selectFds c).Nodup ∧
      ∀ fd ∈ selectFds c, fd < 4 + 2 * 2 ∧ c.world.sockAt (some fd) ≠ none) :=
  ⟨by decide +kernel, select_fits sampleEnv _ 1 4 (.exec (.init sampleCore_init) sampleAnother
    (by decide +kernel) (Option.some_get sampleAnother_runs).symm) (outside_lt (by decide +kernel))⟩

end Websocksy

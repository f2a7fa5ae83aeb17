import Websocksy.Ownership
import Websocksy.Readiness

/-!
# Readiness in all runs

Where no peer socket takes a number that `select` reported, `ws_data` and `ws_peer_data` are
only called for sockets that `select` itself reported, and a connection is closed with `Peer
connection failed` only when `recv` failed on such a socket (`ready_served`).
-/

namespace Websocksy

open Buffer CString Lines FdTable Machine

variable {φ : Type}

/-- What holds between two handler calls. -/
structure ReadyInv (c : Core φ) : Prop where
  listen : c.loc = .done ∨ (∃ x, c.world.sockAt (some c.listenFd) = some x) ∧
    ∀ ws ∈ c.sock, c.listenFd ∉ ws.held
  /-- a ready number that a connection has is that of a socket which `select` reported -/
  ready : ∀ ws ∈ c.sock, ∀ fd ∈ ws.held, fd ∈ c.readFds →
    ∃ x ∈ lastSelected c.world.log, c.world.sockAt (some fd) = some x

section

variable {env : Env φ} {c c' : Core φ} {s t : Conn φ} {w w' : World} {log es : List Event}

theorem lastSelected_append (h : ∀ xs, .selected xs ∉ es) :
    lastSelected (log ++ es) = lastSelected log := by
  induction es using List.reverseRecOn with
  | nil => rw [List.append_nil]
  | append_singleton es e ih =>
      have hes : ∀ xs, .selected xs ∉ es := fun xs hm => h xs (List.mem_append_left _ hm)
      have he : ∀ xs, e ≠ .selected xs := fun xs hx => h xs (by simp [hx])
      rw [← ih hes, ← List.append_assoc, lastSelected, List.foldl_append]
      cases e with
      | selected xs => exact absurd rfl (he xs)
      | _ => rfl

@[simp] theorem lastSelected_selected (log : List Event) (xs : List Nat) :
    lastSelected (log ++ [.selected xs]) = xs := by
  rw [lastSelected, List.foldl_append]
  rfl

/-- What `select` reported is open. -/
theorem ready_open (hi : ReadyInv c) (hh : HeldInv c.sock c.world) (hd : c.loc ≠ .done)
    {ready : List Nat} {fd : Nat} (hfd : fd ∈ c.ready ready) :
    ∃ x, c.world.sockAt (some fd) = some x := by
  have hset : fd ∈ selectFds c := by simpa using (List.mem_filter.mp hfd).2
  rcases List.mem_cons.mp hset with rfl | hm
  · exact (hi.listen.resolve_left hd).1
  · obtain ⟨ws, hws, hin⟩ := List.mem_flatMap.mp hm
    refine hh.is_open hws ?_
    cases hclient : ws.wsFd with
    | none =>
        rw [hclient] at hin
        cases hin
    | some gd =>
        rw [hclient] at hin
        simpa [Websocket.held, hclient] using hin

theorem ReadyInv.selected (hi : ReadyInv c) (hh : HeldInv c.sock c.world) (hd : c.loc ≠ .done)
    (ready : List Nat) (now : Int) : ReadyInv (c.selected ready now) := by
  refine ⟨.inr (hi.listen.resolve_left hd), ?_⟩
  intro ws hws fd hfd hr
  obtain ⟨x, hx⟩ := hh.is_open hws hfd
  refine ⟨x, ?_, hx⟩
  show x ∈ lastSelected (c.world.log ++ [.selected _])
  rw [lastSelected_selected]
  exact List.mem_filterMap.mpr ⟨fd, hr, hx⟩

theorem accept_lastSelected (w : World) (accepts : Bool) :
    lastSelected (w.accept accepts).log = lastSelected w.log := by
  cases accepts with
  | false => rfl
  | true =>
      show lastSelected (w.log ++ [.accepted w.conns w.socks]) = lastSelected w.log
      exact lastSelected_append (by simp)

/-- The new client's number was free when `select` reported the ready ones. -/
theorem ReadyInv.accept (hi : ReadyInv c) (hd : c.loc ≠ .done)
    (ho : ∀ fd ∈ c.readFds, ∃ x, c.world.sockAt (some fd) = some x) (now : Int) (accepts : Bool) :
    ReadyInv (wsAccept now accepts c) := by
  obtain ⟨⟨x, hx⟩, hfree⟩ := hi.listen.resolve_left hd
  have hnew : ∀ fd ∈ (acceptedConn now accepts c.world : Websocket φ).held,
      c.world.sockAt (some fd) = none := by
    intro fd hfd
    cases accepts with
    | false => cases hfd
    | true =>
        obtain rfl : fd = lowest c.world.fds := by simpa [Websocket.held, acceptedConn] using hfd
        exact entry_lowest c.world.fds
  rw [wsAccept_eq]
  refine ⟨.inr ⟨⟨x, accept_sockAt accepts hx⟩, ?_⟩, ?_⟩
  · intro ws hws hm
    rcases mem_clientRegister hws with rfl | hws
    · rw [hnew _ hm] at hx
      cases hx
    · exact hfree ws hws hm
  · intro ws hws fd hfd hr
    dsimp only at hr ⊢
    rw [accept_lastSelected]
    rcases mem_clientRegister hws with rfl | hws
    · obtain ⟨y, hy⟩ := ho fd hr
      rw [hnew fd hfd] at hy
      cases hy
    · obtain ⟨y, hm, hy⟩ := hi.ready ws hws fd hfd hr
      exact ⟨y, hm, accept_sockAt accepts hy⟩

/-- A handler's result put back into its slot. -/
theorem ReadyInv.put {n : Nat} {ws : Websocket φ} (hi : ReadyInv c) (hh : HeldInv c.sock c.world)
    (hd : c.loc ≠ .done) (hn : c.sock[n]? = some ws) (hw : s.world = c.world)
    (hheld : s.ws.held = ws.held) (hlocal : Local s t)
    (hu : ∀ fd ∈ t.ws.held, fd ∈ c.readFds →
      fd ∈ s.ws.held ∧ t.world.sockAt (some fd) = s.world.sockAt (some fd)) (loc : Loc) :
    ReadyInv (c.put n t loc) := by
  obtain ⟨⟨x, hx⟩, hfree⟩ := hi.listen.resolve_left hd
  have hws := List.mem_of_getElem? hn
  have hkept : ∀ fd y, c.world.sockAt (some fd) = some y → fd ∉ ws.held →
      t.world.sockAt (some fd) = some y := by
    intro fd y hy hfd
    exact hlocal.entry fd y (by rw [hw]; exact hy) (by rw [hheld]; exact hfd)
  have hselected : lastSelected t.world.log = lastSelected c.world.log := by
    obtain ⟨es, he, hes⟩ := hlocal.log
    rw [he, hw]
    exact lastSelected_append fun xs hm => hes _ hm
  obtain ⟨l₁, l₂, hsock, hput⟩ := put_split hn t loc
  rw [hsock] at hh
  have hfront := hh.front
  rw [hput]
  refine ⟨.inr ⟨⟨x, hkept _ x hx (hfree ws hws)⟩, ?_⟩, ?_⟩
  · intro v hv
    have hother : v ∈ l₁ ++ l₂ → c.listenFd ∉ v.held := by
      intro hm
      refine hfree v ?_
      rw [hsock]
      exact List.perm_middle.mem_iff.mpr (List.mem_cons_of_mem _ hm)
    rcases List.mem_cons.mp (List.perm_middle.mem_iff.mp hv) with rfl | hv
    · intro hm
      rcases hlocal.held _ hm with hm | hnone
      · exact hfree ws hws (hheld ▸ hm)
      · rw [hw, hx] at hnone
        cases hnone
    · exact hother hv
  · intro v hv fd hfd hr
    dsimp only at hr ⊢
    rw [hselected]
    rcases List.mem_cons.mp (List.perm_middle.mem_iff.mp hv) with rfl | hv
    · obtain ⟨hm, hsame⟩ := hu fd hfd hr
      rw [hsame, hw]
      exact hi.ready ws hws fd (hheld ▸ hm) hr
    · have hv' : v ∈ c.sock := by
        rw [hsock]
        exact List.perm_middle.mem_iff.mpr (List.mem_cons_of_mem _ hv)
      obtain ⟨y, hy, hopen⟩ := hi.ready v hv' fd hfd hr
      refine ⟨y, hy, hkept fd y hopen ?_⟩
      intro hm
      exact (List.nodup_append.mp hfront.1).2.2 fd hm fd (List.mem_flatMap.mpr ⟨v, hv, hfd⟩) rfl

/-- **A step keeps the ready numbers with their sockets.** -/
theorem coreStep_readyInv {i : Input} (hreg : RegistryInv env c.sock c.world)
    (hh : HeldInv c.sock c.world) (hi : ReadyInv c) (ho : PeerApart env c i)
    (h : coreStep env i c = some c') : ReadyInv c' := by
  have hd : c.loc ≠ .done := by
    intro hd
    unfold coreStep at h
    rw [hd] at h
    cases i <;> cases h
  cases coreStep_cases h with
  | round ready now accepts hl hlisten => exact hi.selected hh hd ready now
  | accept ready now accepts hl hlisten =>
      refine (hi.selected hh hd ready now).accept (by simp [Core.selected]) ?_ now accepts
      intro fd hfd
      exact ready_open hi hh hd hfd
  | quit hl => exact ⟨.inl rfl, by simp⟩
  | idle answer fuel l hl hl' => exact ⟨.inr (hi.listen.resolve_left hd), hi.ready⟩
  | client answer fuel n fd ws t hl hn hfd hr ht =>
      have hslot := hreg.slots ws (List.mem_of_getElem? hn)
      have hapart : DataApart env c.readFds answer ⟨{ ws with lastEvent := c.now }, c.world⟩ := by
        simp only [PeerApart, hl] at ho
        exact ho ws hn (by simp [hfd, hr])
      obtain ⟨-, -, hlocal⟩ := wsData_slotInv
        (s := ⟨{ ws with lastEvent := c.now }, c.world⟩) { hslot with } ht
      exact hi.put hh hd hn rfl rfl hlocal (wsData_unmixed hapart ht).held _
  | peer answer fuel n fd ws r hl hn hfd hr ht =>
      have hslot := hreg.slots ws (List.mem_of_getElem? hn)
      obtain ⟨-, -, hlocal⟩ := wsPeerData_slotInv (s := ⟨ws, c.world⟩) hslot hfd ht
      refine hi.put hh hd hn rfl rfl hlocal ?_ _
      rcases wsPeerData_unmixed ht with ⟨w, -, hclosed⟩ | hu
      · intro gd hgd
        rw [hclosed] at hgd
        cases hgd
      · exact hu.held
  | ping answer fuel n ws hl hn =>
      have hslot := hreg.slots ws (List.mem_of_getElem? hn)
      obtain ⟨-, -, hlocal⟩ := wsKeepAlive_slotInv (s := ⟨ws, c.world⟩) c.now hslot
      exact hi.put hh hd hn rfl rfl hlocal (wsKeepAlive_unmixed env c.now _).held _

/-- The ready numbers in every run in which no peer socket takes one. -/
theorem coreLoop_readyInv (h : (coreLoop env).Reach (PeerApart env) c) : ReadyInv c := by
  refine h.invariant (P := ReadyInv) ?_ ?_
  · intro c hc
    obtain ⟨hsock, -, -, -, hlisten⟩ := hc
    refine ⟨.inr ⟨Option.ne_none_iff_exists'.mp hlisten, ?_⟩, ?_⟩ <;> simp [hsock]
  · intro c i c' hreach hi ho hs
    exact coreStep_readyInv (coreLoop_registryInv hreach) (coreLoop_heldInv hreach) hi ho hs

/-! ## Failures of a peer -/

theorem clientCleanup_unfailed (env : Env φ) (sock : List (Websocket φ)) (w : World) :
    Unfailed w (clientCleanup env sock w) := by
  induction sock generalizing w with
  | nil => exact .refl w
  | cons ws sock ih =>
      have hclose : Unfailed w
          (wsClose env .shutdown (some (ascii "Shutting down")) ⟨ws, w⟩).world :=
        .close (s := ⟨ws, w⟩) .shutdown (by decide)
      exact hclose.trans (ih _)

theorem closeFd_unfailed (w : World) (fd : Option Nat) : Unfailed w (w.closeFd fd) := by
  refine ⟨_, closeFd_log w fd, ?_⟩
  simp

/-- Nothing is to be shown where no connection is closed because its peer failed. -/
theorem Unfailed.reported (h : Unfailed c.world c'.world) : PeerFailureReported c c' := by
  obtain ⟨es, he, hes⟩ := h
  intro conn hm
  rw [he, List.drop_left] at hm
  exact absurd hm (hes conn)

/-- **One step**: a connection that is closed because its peer failed is one whose peer was
reported ready, and its `recv` failed. -/
theorem coreStep_peerFailure {i : Input} (hreg : RegistryInv env c.sock c.world)
    (hi : ReadyInv c) (h : coreStep env i c = some c') :
    PeerFailureReported c c' := by
  cases coreStep_cases h with
  | round ready now accepts hl hlisten => exact Unfailed.reported ⟨_, rfl, by simp⟩
  | accept ready now accepts hl hlisten =>
      have hselected : Unfailed c.world (c.selected ready now).world := ⟨_, rfl, by simp⟩
      refine (hselected.trans ?_).reported
      rw [wsAccept_eq]
      cases accepts with
      | false => exact .refl _
      | true => exact ⟨_, rfl, by simp⟩
  | quit hl =>
      exact ((clientCleanup_unfailed env c.sock c.world).trans (closeFd_unfailed _ _)).reported
  | idle answer fuel l hl hl' => exact (Unfailed.refl c.world).reported
  | client answer fuel n fd ws t hl hn hfd hr ht => exact (wsData_unfailed ht).reported
  | ping answer fuel n ws hl hn =>
      have hping : Unmixed [] ⟨ws, c.world⟩ (wsKeepAlive env c.now ⟨ws, c.world⟩) :=
        wsKeepAlive_unmixed env c.now _
      exact hping.log.reported
  | peer answer fuel n fd ws r hl hn hfd hr ht =>
      have hws := List.mem_of_getElem? hn
      have hheld : fd ∈ ws.held := by simp [Websocket.held, hfd]
      obtain ⟨x, hx, hopen⟩ := hi.ready ws hws fd hheld hr
      rcases wsPeerData_unmixed ht with ⟨w, hrecv, hclosed⟩ | (hu : Unmixed [] _ _)
      · have hslot := hreg.slots ws hws
        obtain ⟨-, -, hlocal⟩ := wsPeerData_slotInv (s := ⟨ws, c.world⟩) hslot hfd ht
        obtain ⟨es, he, hes⟩ := hlocal.log
        intro conn hm
        rw [put_world, he, List.drop_left] at hm ⊢
        obtain rfl : conn = ws.conn := hes _ hm
        refine ⟨n, ws, fd, x, hl, hn, rfl, hfd, hopen, hx, ?_⟩
        rw [hclosed] at he
        rw [show (Conn.mk ws c.world).ws.peerFd = some fd from hfd] at hrecv
        cases hrecv with
        | closed hnone =>
            rw [hopen] at hnone
            cases hnone
        | failed y hy ha =>
            obtain rfl : x = y := Option.some.inj (hopen.symm.trans hy)
            obtain ⟨fs, hf, -⟩ := wsClose_log env .unexpected (some peerFailed)
              ⟨ws, c.world.record (.recvFailed x)⟩
            rw [he, World.record_log, List.append_assoc, List.append_cancel_left_eq] at hf
            rw [hf]
            simp
      · exact hu.log.reported

/-- **Readiness belongs to the socket**, in every run in which no peer socket takes a number that
`select` reported ready in the iteration. -/
theorem ready_served (env : Env φ) (c : Core φ) (h : (coreLoop env).Reach (PeerApart env) c) :
    ReadyServed c ∧ ∀ i c', coreStep env i c = some c' → PeerFailureReported c c' := by
  have hi := coreLoop_readyInv h
  constructor
  · intro fd hfd
    unfold Core.readCall at hfd
    split at hfd
    · obtain ⟨hslot, hr⟩ := Option.filter_eq_some_iff.mp hfd
      obtain ⟨ws, hn, hclient⟩ := Option.bind_eq_some_iff.mp hslot
      have hheld : fd ∈ ws.held := by simp [Websocket.held, hclient]
      exact hi.ready ws (List.mem_of_getElem? hn) fd hheld (by simpa using hr)
    · obtain ⟨hslot, hr⟩ := Option.filter_eq_some_iff.mp hfd
      obtain ⟨ws, hn, hpeer⟩ := Option.bind_eq_some_iff.mp hslot
      have hheld : fd ∈ ws.held := by simp [Websocket.held, hpeer]
      exact hi.ready ws (List.mem_of_getElem? hn) fd hheld (by simpa using hr)
    · cases hfd
  · intro i c' hs
    exact coreStep_peerFailure (coreLoop_registryInv h) hi hs

end

/-- Two clients connect. -/
def sampleClients : List Input :=
  sampleAccept ++ .select [3] 0 true :: List.replicate 7 (.serve none 0)

/-- One of them sends a whole request, and then its peer fails. -/
def samplePeerFails : List Input :=
  sampleClients ++ [.select [4] 1 false, .serve (some (lineBytes sampleLines)) 0] ++
    List.replicate 6 (.serve none 0) ++ [.select [6] 2 false, .serve none 0, .serve none 0]

theorem samplePeerFails_runs : ((coreLoop sampleEnv).exec samplePeerFails sampleCore).isSome := by
  decide +kernel

theorem ready_served_sample :
    let c := ((coreLoop sampleEnv).exec samplePeerFails sampleCore).get samplePeerFails_runs
    .wsClose 0 (some peerFailed) ∈ c.world.log ∧ ReadyServed c :=
  ⟨by decide +kernel, (ready_served sampleEnv _ (.exec (.init sampleCore_init) samplePeerFails
    (by decide +kernel) (Option.some_get samplePeerFails_runs).symm)).1⟩

/-- One client goes away, and in the same iteration the other sends a whole request: its peer
takes the number 4, which is still in `read_fds`. -/
def sampleReused : List Input :=
  sampleClients ++ [.select [4, 5] 1 false, .serve (some []) 0, .serve none 0, .serve none 0,
    .serve (some (lineBytes sampleLines)) 0]

theorem sampleReused_runs : ((coreLoop sampleEnv).exec sampleReused sampleCore).isSome := by
  decide +kernel

theorem ready_served_fails :
    ¬∀ c, (coreLoop sampleEnv).Reach (fun _ _ => True) c →
      ReadyServed c ∧ ∀ i c', coreStep sampleEnv i c = some c' → PeerFailureReported c c' := by
  intro h
  have hc := h _ (.exec (.init sampleCore_init) sampleReused (Machine.meets_true _ _)
    (Option.some_get sampleReused_runs).symm)
  exact absurd hc.1 (by decide +kernel)

end Websocksy

import Websocksy.Run

/-!
# `network.c`: sockets

What the calls to the outside come to is a parameter of each function; the sockets with their
options and the descriptors that refer to them are the state `NetWorld`.

Whatever the calls come to, `network_socket` and `network_socket_unix` either return the lowest free
descriptor, on a new socket that is connected or bound as asked, or leave all descriptors as they
were (`networkSocket_opens`, `networkSocketUnix_opens`).  So a run that opens and closes sockets has
the same descriptors in `World`, where a socket is opened by one call or not at all
(`sockets_refine`).
-/

namespace Websocksy

open Buffer CString FdTable

/-! ## Sockets -/

inductive SocketType
  | stream | dgram
  deriving DecidableEq, Repr

inductive SocketOption
  | reuseAddr
  /-- `IPV6_V6ONLY` is unset -/
  | dualStack
  deriving DecidableEq, Repr

inductive SockAddr
  /-- as `getaddrinfo` gives it -/
  | inet (addr : Bytes)
  | unix (path : Bytes)
  deriving DecidableEq, Repr

/-- A socket as the kernel has it. -/
structure NetSocket where
  socktype : SocketType
  options : List SocketOption := []
  bound : Option SockAddr := none
  connected : Option SockAddr := none
  nonblocking : Bool := false
  listening : Bool := false
  deriving DecidableEq

/-- The descriptors of the process and all sockets there ever were. -/
structure NetWorld where
  fds : Table
  socks : List NetSocket

namespace NetWorld

/-- `socket`, when it succeeds. -/
def socket (socktype : SocketType) (w : NetWorld) : NetWorld :=
  { fds := install w.fds w.socks.length, socks := w.socks ++ [{ socktype := socktype }] }

/-- Change the socket at a descriptor. -/
def modify (fd : Nat) (f : NetSocket → NetSocket) (w : NetWorld) : NetWorld :=
  match entry w.fds fd with
  | none => w
  | some x => { w with socks := w.socks.modify x f }

def close (fd : Nat) (w : NetWorld) : NetWorld := { w with fds := release w.fds fd }

end NetWorld

/-- An address that `getaddrinfo` gives, and whether the calls for it succeed: `socket`, the two
`setsockopt`, and `bind` or `connect`. -/
structure AddrInfo where
  addr : SockAddr
  socket : Bool
  reuseAddr : Bool
  dualStack : Bool
  attach : Bool

/-- What the calls of `network_socket` come to: the addresses, and whether the socket is set
nonblocking and `listen` succeeds. -/
structure NetworkCalls where
  getaddrinfo : Option (List AddrInfo)
  nonblock : Bool
  listen : Bool

/-- What the calls of `network_socket_unix` come to. -/
structure UnixCalls where
  socket : Bool
  nonblock : Bool
  /-- `bind` or `connect` -/
  attach : Bool
  listen : Bool

section

/-- `setsockopt`; a failure is reported and has no other effect. -/
def setsockopt (succeeds : Bool) (o : SocketOption) (fd : Nat) (w : NetWorld) : NetWorld :=
  if succeeds then w.modify fd fun s => { s with options := s.options ++ [o] } else w

/-- `bind` or `connect`. -/
def attach (listener : Bool) (addr : SockAddr) (fd : Nat) (w : NetWorld) : NetWorld :=
  if listener then w.modify fd fun s => { s with bound := some addr }
  else w.modify fd fun s => { s with connected := some addr }

/-- The loop of `network_socket` over the addresses. -/
def networkSocketLoop (socktype : SocketType) (listener : Bool) :
    List AddrInfo → NetWorld → Option Nat × NetWorld
  | [], w => (none, w)
  | a :: as, w =>
    if a.socket then
      let fd := lowest w.fds
      let w := setsockopt a.reuseAddr .reuseAddr fd (w.socket socktype)
      let w := setsockopt a.dualStack .dualStack fd w
      if a.attach then (some fd, attach listener a.addr fd w)
      else networkSocketLoop socktype listener as (w.close fd)
    else networkSocketLoop socktype listener as w

/-- `network_socket`; `none` for a result of -1. -/
def networkSocket (socktype : SocketType) (listener : Bool) (calls : NetworkCalls)
    (w : NetWorld) : Option Nat × NetWorld :=
  match calls.getaddrinfo with
  | none => (none, w)
  | some info =>
    match networkSocketLoop socktype listener info w with
    | (none, w) => (none, w)
    | (some fd, w) =>
      if calls.nonblock then
        let w := w.modify fd fun s => { s with nonblocking := true }
        if listener ∧ socktype = .stream then
          if calls.listen then (some fd, w.modify fd fun s => { s with listening := true })
          else (none, w.close fd)
        else (some fd, w)
      else (none, w.close fd)

/-- `sizeof(addr.sun_path)` -/
def sunPathSize : Nat := 108

/-- `network_socket_unix`; a path that is too long is cut. -/
def networkSocketUnix (path : Bytes) (socktype : SocketType) (listener : Bool) (calls : UnixCalls)
    (w : NetWorld) : Option Nat × NetWorld :=
  if calls.socket then
    let fd := lowest w.fds
    let w := w.socket socktype
    if calls.nonblock then
      let w := w.modify fd fun s => { s with nonblocking := true }
      let addr := SockAddr.unix (path.take (sunPathSize - 1))
      if calls.attach then
        let w := attach listener addr fd w
        if listener then
          if calls.listen then (some fd, w.modify fd fun s => { s with listening := true })
          else (none, w.close fd)
        else (some fd, w)
      else (none, w.close fd)
    else (none, w.close fd)
  else (none, w)

/-! ## What a call does to the descriptors -/

/-- There is one descriptor more, the lowest that was free, on the new socket `s`. -/
structure Opened (w w' : NetWorld) (s : NetSocket) : Prop where
  sockets : ∃ tried, w'.socks = w.socks ++ tried ++ [s] ∧
    ∀ fd, entry w'.fds fd = entry (install w.fds (w.socks ++ tried).length) fd

/-- All descriptors are as they were; sockets may have been tried. -/
structure Unopened (w w' : NetWorld) : Prop where
  sockets : ∃ tried, w'.socks = w.socks ++ tried
  fds : ∀ fd, entry w'.fds fd = entry w.fds fd

variable {w w' w'' : NetWorld} {s : NetSocket}

theorem Unopened.refl (w : NetWorld) : Unopened w w := ⟨⟨[], by simp⟩, fun _ => rfl⟩

theorem Unopened.lowest (h : Unopened w w') : lowest w'.fds = lowest w.fds :=
  SameOpen.lowest fun fd => by rw [h.fds]

theorem Unopened.trans (h : Unopened w w') (h' : Unopened w' w'') : Unopened w w'' := by
  obtain ⟨tried, hs⟩ := h.sockets
  obtain ⟨tried', hs'⟩ := h'.sockets
  refine ⟨⟨tried ++ tried', by rw [hs', hs, List.append_assoc]⟩, ?_⟩
  intro fd
  rw [h'.fds, h.fds]

theorem Unopened.opened (h : Unopened w w') (h' : Opened w' w'' s) : Opened w w'' s := by
  obtain ⟨tried, hs⟩ := h.sockets
  obtain ⟨tried', hs', hfds⟩ := h'.sockets
  refine ⟨⟨tried ++ tried', by rw [hs', hs]; simp, ?_⟩⟩
  intro fd
  rw [hfds, entry_install, entry_install, h.lowest, h.fds, hs]
  simp

theorem Opened.socket (socktype : SocketType) (w : NetWorld) :
    Opened w (w.socket socktype) { socktype := socktype } :=
  ⟨⟨[], by simp [NetWorld.socket], by simp [NetWorld.socket]⟩⟩

theorem modify_end {β : Type} (l : List β) (b : β) (f : β → β) :
    (l ++ [b]).modify l.length f = l ++ [f b] := by
  induction l with
  | nil => rfl
  | cons a l ih =>
      rw [List.cons_append, List.length_cons, List.modify_succ_cons, ih]
      rfl

/-- A call on the new descriptor is one on the new socket. -/
theorem Opened.modify (h : Opened w w' s) (f : NetSocket → NetSocket) :
    Opened w (w'.modify (FdTable.lowest w.fds) f) (f s) := by
  obtain ⟨tried, hs, hfds⟩ := h.sockets
  have hentry : entry w'.fds (FdTable.lowest w.fds) = some (w.socks ++ tried).length := by
    rw [hfds, entry_install, if_pos rfl]
  refine ⟨⟨tried, ?_, ?_⟩⟩
  · unfold NetWorld.modify
    rw [hentry]
    dsimp only
    rw [hs, modify_end]
  · intro fd
    unfold NetWorld.modify
    rw [hentry]
    exact hfds fd

theorem Opened.close (h : Opened w w' s) : Unopened w (w'.close (FdTable.lowest w.fds)) := by
  obtain ⟨tried, hs, hfds⟩ := h.sockets
  refine ⟨⟨tried ++ [s], ?_⟩, ?_⟩
  · show w'.socks = _
    rw [hs, List.append_assoc]
  · intro fd
    show entry (release w'.fds (FdTable.lowest w.fds)) fd = _
    rw [← entry_release_install w.fds (w.socks ++ tried).length fd, entry_release, entry_release, hfds]

/-! ## `network_socket` -/

/-- The socket for an address can be made and attached. -/
def AddrInfo.usable (a : AddrInfo) : Bool := a.socket && a.attach

/-- The socket that is attached to the address. -/
def AddrInfo.attached (socktype : SocketType) (listener : Bool) (a : AddrInfo) : NetSocket where
  socktype := socktype
  options := (if a.reuseAddr then [.reuseAddr] else []) ++ if a.dualStack then [.dualStack] else []
  bound := if listener then some a.addr else none
  connected := if listener then none else some a.addr

/-- The socket that `network_socket` should give: nonblocking, on the first address that is usable,
and listening if it is to accept connections. -/
def NetworkCalls.gives (socktype : SocketType) (listener : Bool) (calls : NetworkCalls) :
    Option NetSocket :=
  let listens := listener && socktype = .stream
  (calls.getaddrinfo.bind (·.find? AddrInfo.usable)).bind fun a =>
    if calls.nonblock && (!listens || calls.listen) then
      some { a.attached socktype listener with nonblocking := true, listening := listens }
    else none

/-- What a call came to that should have given `o`. -/
def Gave (o : Option NetSocket) (w : NetWorld) (r : Option Nat × NetWorld) : Prop :=
  match o with
  | some s => r.1 = some (lowest w.fds) ∧ Opened w r.2 s
  | none => r.1 = none ∧ Unopened w r.2

theorem Opened.setsockopt (h : Opened w w' s) (b : Bool) (o : SocketOption) :
    Opened w (Websocksy.setsockopt b o (lowest w.fds) w')
      { s with options := s.options ++ if b then [o] else [] } := by
  unfold Websocksy.setsockopt
  cases b with
  | true => exact h.modify _
  | false =>
      rw [if_neg (by simp), if_neg (by simp), List.append_nil]
      exact h

/-- **The loop** stops at the first address that is usable, and closes the sockets before. -/
theorem networkSocketLoop_gave (socktype : SocketType) (listener : Bool) (info : List AddrInfo)
    (w : NetWorld) :
    Gave ((info.find? AddrInfo.usable).map (AddrInfo.attached socktype listener)) w
      (networkSocketLoop socktype listener info w) := by
  induction info generalizing w with
  | nil => exact ⟨rfl, .refl w⟩
  | cons a info ih =>
      unfold networkSocketLoop
      cases hsocket : a.socket with
      | false =>
          have hno : a.usable = false := by simp [AddrInfo.usable, hsocket]
          rw [if_neg (by simp), List.find?_cons, hno]
          exact ih w
      | true =>
          rw [if_pos rfl]
          dsimp only
          have hopened := ((Opened.socket socktype w).setsockopt a.reuseAddr .reuseAddr).setsockopt
            a.dualStack .dualStack
          generalize Websocksy.setsockopt a.dualStack .dualStack (lowest w.fds)
            (Websocksy.setsockopt a.reuseAddr .reuseAddr (lowest w.fds) (w.socket socktype)) = w'
            at hopened ⊢
          cases hattach : a.attach with
          | true =>
              have hyes : a.usable = true := by simp [AddrInfo.usable, hsocket, hattach]
              rw [if_pos rfl, List.find?_cons, hyes]
              refine ⟨rfl, ?_⟩
              unfold attach
              cases listener with
              | true => exact hopened.modify _
              | false => exact hopened.modify _
          | false =>
              have hno : a.usable = false := by simp [AddrInfo.usable, hattach]
              rw [if_neg (by simp), List.find?_cons, hno]
              have hclosed := hopened.close
              have hrest := ih (w'.close (lowest w.fds))
              generalize networkSocketLoop socktype listener info (w'.close (lowest w.fds)) = r
                at hrest ⊢
              cases hfind : info.find? AddrInfo.usable with
              | none =>
                  rw [hfind] at hrest
                  exact ⟨hrest.1, hclosed.trans hrest.2⟩
              | some b =>
                  rw [hfind] at hrest
                  obtain ⟨hfd, hopen⟩ := hrest
                  rw [hclosed.lowest] at hfd
                  exact ⟨hfd, hclosed.opened hopen⟩

/-- **`network_socket`**: for every outcome of its calls. -/
theorem networkSocket_gave (socktype : SocketType) (listener : Bool) (calls : NetworkCalls)
    (w : NetWorld) :
    Gave (calls.gives socktype listener) w (networkSocket socktype listener calls w) := by
  unfold networkSocket NetworkCalls.gives
  cases calls.getaddrinfo with
  | none => exact ⟨rfl, .refl w⟩
  | some info =>
      have hloop := networkSocketLoop_gave socktype listener info w
      dsimp only
      rw [Option.bind_some]
      generalize networkSocketLoop socktype listener info w = r at hloop ⊢
      obtain ⟨fd, w'⟩ := r
      cases hfind : info.find? AddrInfo.usable with
      | none =>
          rw [hfind] at hloop
          obtain ⟨rfl, hsame⟩ := hloop
          exact ⟨rfl, hsame⟩
      | some a =>
          rw [hfind] at hloop
          obtain ⟨rfl, hopened⟩ := hloop
          rw [Option.bind_some]
          dsimp only
          cases calls.nonblock with
          | false => exact ⟨rfl, hopened.close⟩
          | true =>
              have hset := hopened.modify fun s => { s with nonblocking := true }
              rw [if_pos rfl, Bool.true_and]
              by_cases hlistens : listener = true ∧ socktype = .stream
              · rw [if_pos hlistens]
                obtain ⟨rfl, rfl⟩ := hlistens
                cases calls.listen with
                | true => exact ⟨rfl, hset.modify _⟩
                | false => exact ⟨rfl, hset.close⟩
              · have hno : (listener && decide (socktype = .stream)) = false := by
                  simpa using hlistens
                rw [if_neg hlistens, hno]
                exact ⟨rfl, hset⟩

/-! ## `network_socket_unix` -/

/-- The socket that `network_socket_unix` should give. -/
def UnixCalls.gives (path : Bytes) (socktype : SocketType) (listener : Bool) (calls : UnixCalls) :
    Option NetSocket :=
  let addr := SockAddr.unix (path.take (sunPathSize - 1))
  if calls.socket && calls.nonblock && calls.attach && (!listener || calls.listen) then
    some { socktype := socktype
           bound := if listener then some addr else none
           connected := if listener then none else some addr
           nonblocking := true
           listening := listener }
  else none

/-- **`network_socket_unix`**: for every outcome of its calls. -/
theorem networkSocketUnix_gave (path : Bytes) (socktype : SocketType) (listener : Bool)
    (calls : UnixCalls) (w : NetWorld) :
    Gave (calls.gives path socktype listener) w
      (networkSocketUnix path socktype listener calls w) := by
  obtain ⟨socket, nonblock, attached, listens⟩ := calls
  unfold networkSocketUnix UnixCalls.gives
  dsimp only
  have hopened := Opened.socket socktype w
  cases socket with
  | false => exact ⟨rfl, .refl w⟩
  | true =>
      cases nonblock with
      | false => exact ⟨rfl, hopened.close⟩
      | true =>
          have hset := hopened.modify fun s => { s with nonblocking := true }
          cases attached with
          | false => exact ⟨rfl, hset.close⟩
          | true =>
              cases listener with
              | false => exact ⟨rfl, hset.modify _⟩
              | true =>
                  have hbound := hset.modify fun s => { s with bound := some (.unix (path.take (sunPathSize - 1))) }
                  cases listens with
                  | false => exact ⟨rfl, hbound.close⟩
                  | true => exact ⟨rfl, hbound.modify _⟩

end

/-! ## Runs -/

/-- A call of `network_socket` or `network_socket_unix`. -/
inductive SocketCall
  | inet (socktype : SocketType) (listener : Bool) (calls : NetworkCalls)
  | unix (path : Bytes) (socktype : SocketType) (listener : Bool) (calls : UnixCalls)

/-- What the program does with descriptors. -/
inductive SocketOp
  /-- `accept`, which may fail -/
  | accept (accepts : Bool)
  | connect (call : SocketCall)
  | close (fd : Nat)

def SocketCall.perform : SocketCall → NetWorld → Option Nat × NetWorld
  | .inet socktype listener calls, w => networkSocket socktype listener calls w
  | .unix path socktype listener calls, w => networkSocketUnix path socktype listener calls w

def SocketCall.gives : SocketCall → Option NetSocket
  | .inet socktype listener calls => calls.gives socktype listener
  | .unix path socktype listener calls => calls.gives path socktype listener

/-- The socket that an operation should give. -/
def SocketOp.gives : SocketOp → Option NetSocket
  | .accept accepts => if accepts then some { socktype := .stream } else none
  | .connect call => call.gives
  | .close _ => none

/-- One operation, with the descriptor that it returns. -/
def SocketOp.perform : SocketOp → NetWorld → Option Nat × NetWorld
  | .accept accepts, w => if accepts then (some (lowest w.fds), w.socket .stream) else (none, w)
  | .connect call, w => call.perform w
  | .close fd, w => (none, w.close fd)

/-- The same where a socket is opened by one call, or not at all. -/
def SocketOp.performOnce : SocketOp → World → Option Nat × World
  | .close fd, w => (none, w.closeFd (some fd))
  | op, w => if op.gives.isSome then (some (lowest w.fds), w.openSock) else (none, w)

/-- Operations in turn, with the descriptors that they return. -/
def performAll {σ : Type} (f : SocketOp → σ → Option Nat × σ) :
    List SocketOp → σ → List (Option Nat) × σ
  | [], w => ([], w)
  | op :: ops, w =>
    let r := f op w
    let rest := performAll f ops r.2
    (r.1 :: rest.1, rest.2)

/-- Every descriptor above the first `base` sockets is on a socket that one of the operations should
give. -/
structure Established (base : NetWorld) (ops : List SocketOp) (w : NetWorld) : Prop where
  sockets : base.socks <+: w.socks
  numbers : ∀ fd x, entry w.fds fd = some x → x < w.socks.length
  given : ∀ fd x s, entry w.fds fd = some x → w.socks[x]? = some s →
    entry base.fds fd = some x ∨ ∃ op ∈ ops, op.gives = some s

section

variable {base w w' : NetWorld} {ops : List SocketOp} {op : SocketOp} {o : Option NetSocket}
  {r : Option Nat × NetWorld}

/-- An operation that opens a socket, or tries to. -/
theorem Established.gave (h : Established base ops w) (hop : op ∈ ops) (ho : op.gives = o)
    (hg : Gave o w r) : Established base ops r.2 := by
  cases o with
  | none =>
      obtain ⟨-, ⟨⟨tried, hs⟩, hfds⟩⟩ := hg
      refine ⟨?_, ?_, ?_⟩
      · rw [hs]
        exact h.sockets.trans (List.prefix_append _ _)
      · intro fd x hx
        rw [hfds] at hx
        rw [hs, List.length_append]
        exact Nat.lt_of_lt_of_le (h.numbers fd x hx) (Nat.le_add_right _ _)
      · intro fd x s hx hxs
        rw [hfds] at hx
        rw [hs, List.getElem?_append_left (h.numbers fd x hx)] at hxs
        exact h.given fd x s hx hxs
  | some s =>
      obtain ⟨-, ⟨tried, hs, hfds⟩⟩ := hg
      rw [List.append_assoc] at hs
      refine ⟨?_, ?_, ?_⟩
      · rw [hs]
        exact h.sockets.trans (List.prefix_append _ _)
      · intro fd x hx
        rw [hfds, entry_install] at hx
        rw [hs, List.length_append]
        split at hx
        · cases hx
          simp
        · exact Nat.lt_of_lt_of_le (h.numbers fd x hx) (Nat.le_add_right _ _)
      · intro fd x t hx hxt
        rw [hfds, entry_install] at hx
        split at hx
        · cases hx
          rw [hs, ← List.append_assoc, List.getElem?_append_right (Nat.le_refl _),
            Nat.sub_self] at hxt
          cases hxt
          exact .inr ⟨op, hop, ho⟩
        · rw [hs, List.getElem?_append_left (h.numbers fd x hx)] at hxt
          exact h.given fd x t hx hxt

theorem Established.close (h : Established base ops w) (fd : Nat) : Established base ops (w.close fd) := by
  have hkept : ∀ gd x, entry (w.close fd).fds gd = some x → entry w.fds gd = some x := by
    intro gd x hx
    have hx : entry (release w.fds fd) gd = some x := hx
    rw [entry_release] at hx
    split at hx
    · cases hx
    · exact hx
  exact ⟨h.sockets, fun gd x hx => h.numbers gd x (hkept gd x hx),
    fun gd x s hx hs => h.given gd x s (hkept gd x hx) hs⟩

/-- **One operation** gives a whole socket or none. -/
theorem SocketOp.perform_gave (hno : ∀ fd, op ≠ .close fd) (w : NetWorld) :
    Gave op.gives w (op.perform w) := by
  cases op with
  | accept accepts =>
      cases accepts with
      | true => exact ⟨rfl, .socket .stream w⟩
      | false => exact ⟨rfl, .refl w⟩
  | connect call =>
      cases call with
      | inet socktype listener calls => exact networkSocket_gave socktype listener calls w
      | unix path socktype listener calls =>
          exact networkSocketUnix_gave path socktype listener calls w
  | close fd => exact absurd rfl (hno fd)

theorem SocketOp.performOnce_eq (hno : ∀ fd, op ≠ .close fd) (v : World) :
    op.performOnce v = if op.gives.isSome then (some (lowest v.fds), v.openSock) else (none, v) := by
  cases op with
  | close fd => exact absurd rfl (hno fd)
  | accept accepts => rfl
  | connect call => rfl

theorem closeFd_entry (v : World) (fd gd : Nat) :
    (entry (v.closeFd (some fd)).fds gd).isSome = (entry (release v.fds fd) gd).isSome := by
  unfold World.closeFd
  cases hx : v.sockAt (some fd) with
  | some x => rfl
  | none =>
      have hx : entry v.fds fd = none := hx
      dsimp only
      rw [entry_release]
      split
      · next he => rw [he, hx]
      · rfl

/-- An operation returns the same descriptor where it is done at once. -/
theorem SocketOp.perform_same (op : SocketOp) {w : NetWorld} {v : World}
    (h : SameOpen w.fds v.fds) :
    (op.perform w).1 = (op.performOnce v).1 ∧
      SameOpen (op.perform w).2.fds (op.performOnce v).2.fds := by
  by_cases hno : ∀ fd, op ≠ .close fd
  · have hg := SocketOp.perform_gave hno w
    rw [SocketOp.performOnce_eq hno]
    cases ho : op.gives with
    | none =>
        rw [ho] at hg
        obtain ⟨hfd, hsame⟩ := hg
        refine ⟨hfd, ?_⟩
        intro gd
        rw [hsame.fds]
        exact h gd
    | some s =>
        rw [ho] at hg
        obtain ⟨hfd, tried, -, hfds⟩ := hg
        refine ⟨by rw [hfd, h.lowest]; rfl, ?_⟩
        intro gd
        rw [hfds]
        exact h.install _ _ gd
  · simp only [ne_eq, not_forall, not_not] at hno
    obtain ⟨fd, rfl⟩ := hno
    refine ⟨rfl, ?_⟩
    intro gd
    show (entry (release w.fds fd) gd).isSome = (entry (v.closeFd (some fd)).fds gd).isSome
    rw [closeFd_entry]
    exact h.release fd gd

/-- A run keeps what one operation keeps. -/
theorem Established.run (all : List SocketOp) (h : Established base all w) (hsub : ∀ op ∈ ops, op ∈ all)
    {v : World} (hsame : SameOpen w.fds v.fds) :
    (performAll SocketOp.perform ops w).1 = (performAll SocketOp.performOnce ops v).1 ∧
      SameOpen (performAll SocketOp.perform ops w).2.fds
        (performAll SocketOp.performOnce ops v).2.fds ∧
      Established base all (performAll SocketOp.perform ops w).2 := by
  induction ops generalizing w v with
  | nil => exact ⟨rfl, hsame, h⟩
  | cons op ops ih =>
      obtain ⟨hfd, hnext⟩ := op.perform_same hsame
      have hmem : op ∈ all := hsub op List.mem_cons_self
      have hcomplete : Established base all (op.perform w).2 := by
        by_cases hno : ∀ fd, op ≠ .close fd
        · exact h.gave hmem rfl (SocketOp.perform_gave hno w)
        · simp only [ne_eq, not_forall, not_not] at hno
          obtain ⟨fd, rfl⟩ := hno
          exact h.close fd
      obtain ⟨hrest, hlast, hc⟩ := ih hcomplete (fun o ho => hsub o (List.mem_cons_of_mem _ ho)) hnext
      refine ⟨?_, hlast, hc⟩
      show (op.perform w).1 :: _ = (op.performOnce v).1 :: _
      rw [hfd, hrest]

end

/-- **Sockets**: in every run of calls that open and close sockets, whatever the calls to the outside
come to, each call returns the descriptor that it returns where a socket is opened at once or not at
all, and the same descriptors are open in the end.  Every descriptor that is open in the end, and
was not before, is on a socket as one of the calls should give it. -/
theorem sockets_refine (ops : List SocketOp) (w : NetWorld) (v : World) (h : SameOpen w.fds v.fds)
    (hn : ∀ fd x, entry w.fds fd = some x → x < w.socks.length) :
    let r := performAll SocketOp.perform ops w
    let once := performAll SocketOp.performOnce ops v
    r.1 = once.1 ∧ SameOpen r.2.fds once.2.fds ∧
      ∀ fd x, entry r.2.fds fd = some x → entry w.fds fd = some x ∨
        ∃ op ∈ ops, ∃ s, r.2.socks[x]? = some s ∧ op.gives = some s := by
  have hstart : Established w ops w := ⟨List.prefix_refl _, hn, fun fd x s hx _ => .inl hx⟩
  obtain ⟨hfds, hsame, hc⟩ := hstart.run ops (fun _ => id) h
  refine ⟨hfds, hsame, ?_⟩
  intro fd x hx
  have hlt := hc.numbers fd x hx
  obtain ⟨s, hs⟩ : ∃ s, (performAll SocketOp.perform ops w).2.socks[x]? = some s :=
    ⟨_, List.getElem?_eq_getElem hlt⟩
  refine (hc.given fd x s hx hs).imp id ?_
  rintro ⟨op, hm, ho⟩
  exact ⟨op, hm, s, hs, ho⟩

/-- The second of two addresses accepts the connection; a client comes, the peer is closed, and a
path cannot be connected to. -/
def sampleOps : List SocketOp :=
  [.connect (.inet .stream false
      ⟨some [⟨.inet [1], true, true, true, false⟩, ⟨.inet [2], true, true, false, true⟩], true, true⟩),
    .accept true, .close 4, .connect (.unix (ascii "/run/peer") .dgram false ⟨true, true, false, true⟩)]

/-- The sockets of `sampleCore`. -/
def sampleNet : NetWorld :=
  { fds := [some 0, some 1, some 2, some 3], socks := List.replicate 4 { socktype := .stream } }

theorem sockets_refine_sample :
    let r := performAll SocketOp.perform sampleOps sampleNet
    let once := performAll SocketOp.performOnce sampleOps sampleCore.world
    r.1 = [some 4, some 5, none, none] ∧ r.1 = once.1 ∧ SameOpen r.2.fds once.2.fds ∧
      ∀ fd x, entry r.2.fds fd = some x → entry sampleNet.fds fd = some x ∨
        ∃ op ∈ sampleOps, ∃ s, r.2.socks[x]? = some s ∧ op.gives = some s :=
  ⟨by decide, sockets_refine sampleOps sampleNet sampleCore.world (fun _ => rfl) fun fd x h =>
    sampleCore_init.2.2.2.1.1 fd x h⟩

/-! ## `client_connect` -/

/-- What the calls for a peer come to. -/
structure PeerCalls where
  inet : Bytes → Bytes → NetworkCalls
  unix : Bytes → UnixCalls

/-- The call that `client_connect` makes for a peer. -/
def PeerAddress.call (calls : PeerCalls) : PeerAddress → SocketCall
  | .inet host port dgram =>
    .inet (if dgram then .dgram else .stream) false (calls.inet host port)
  | .unix path dgram => .unix path (if dgram then .dgram else .stream) false (calls.unix path)

/-- `client_connect` gets from the outside what the call for its peer gives. -/
theorem clientConnect_performs {φ : Type} (env : Env φ) (s : Conn φ) (calls : PeerCalls)
    {p : WsPeerInfo φ} {a : PeerAddress}
    (ha : clientResolve (env.query s.world.queries s.ws.requestPath s.ws.protocol s.ws.header) =
      (p, some a))
    (hc : env.connect s.world.connects a = (a.call calls).gives.isSome) :
    (clientConnect env s).2.ws.peerFd = ((SocketOp.connect (a.call calls)).performOnce s.world).1 ∧
      (clientConnect env s).2.world.fds =
        ((SocketOp.connect (a.call calls)).performOnce s.world).2.fds := by
  unfold clientConnect
  rw [SocketOp.performOnce_eq (by simp)]
  have hgives : (SocketOp.connect (a.call calls)).gives = (a.call calls).gives := rfl
  dsimp only [World.record]
  rw [ha, hgives]
  dsimp only
  rw [hc]
  cases (a.call calls).gives.isSome with
  | true => exact ⟨rfl, rfl⟩
  | false => exact ⟨rfl, rfl⟩

end Websocksy

import Websocksy.Websocket
import Websocksy.Lib.Machine

/-!
# `websocksy.c`: peer data, the client registry and the core loop

The core loop is a machine whose steps are the calls of handlers: `Loc` says
where in the loop body the program is, and between two steps it is between two
handler calls.  What the outside decides (which descriptors are ready, what
`recv` has, when to stop) is the input of a step.
-/

namespace Websocksy

open Buffer CString

variable {φ : Type}

/-! ## Data from the peer -/

/-- Send the bytes the framing function chose, unless they are to be discarded. -/
def wsForward (env : Env φ) (opcode : WsOperation) (segment : Bytes) (s : Conn φ) :
    Bool × Conn φ :=
  let sent :=
    if opcode = .discard then (false, s.world) else wsSendFrame env s.ws opcode segment s.world
  let w := if sent.1 then sent.2 else sent.2.record (.segment s.ws.conn opcode segment)
  (sent.1, { s with world := w })

/-- What one pass of the framing loop comes to: the return value of `ws_peer_data`,
or another pass with the locals `opcode` and `bytes_read`. -/
inductive FramingPass (φ : Type)
  | done (rv : Bool) (s : Conn φ)
  | again (opcode : WsOperation) (bytesRead : Nat) (s : Conn φ)

/-- The connection after the framing function was called and gave framing data. -/
def framingCalled (bytesRead : Nat) (framingData : Option φ) (s : Conn φ) : Conn φ :=
  { ws := { s.ws with peerFramingData := framingData }
    world := s.world.record (.framing s.ws.conn
      (slice s.ws.peerBuffer 0 (s.ws.peerBufferOffset + bytesRead)) bytesRead) }

/-- The `if` over `bytes_framed` in the framing loop. -/
def wsFramed (env : Env φ) (bytesFramed : Int) (opcode : WsOperation) (bytesRead : Nat)
    (s : Conn φ) : FramingPass φ :=
  let offset := s.ws.peerBufferOffset
  let length := offset + bytesRead
  if 0 < bytesFramed then
    let framed := bytesFramed.toNat
    if length < framed then
      .done false (wsClose env .unexpected (some (ascii "Internal error")) s)
    else
      let sent := wsForward env opcode (slice s.ws.peerBuffer 0 framed) s
      if sent.1 then .done true sent.2
      else
        let ws := { s.ws with peerBuffer := moveDown s.ws.peerBuffer framed (length - framed) }
        -- the frame ends before, or at or after, what was buffered by earlier reads
        if framed < offset then
          -- so bytes are left, and the loop goes on
          .again opcode bytesRead ⟨{ ws with peerBufferOffset := offset - framed }, sent.2.world⟩
        else
          let framed := framed - offset
          let bytesRead := bytesRead - framed
          if framed ≠ 0 ∧ 0 < bytesRead then
            .again opcode bytesRead ⟨{ ws with peerBufferOffset := 0 }, sent.2.world⟩
          else .done false ⟨{ ws with peerBufferOffset := bytesRead }, sent.2.world⟩
  else if bytesFramed < 0 ∧ 0 < length then .again opcode bytesRead s
  else .done false { s with ws := { s.ws with peerBufferOffset := length } }

/-- The framing loop of `ws_peer_data`; the fuel bounds the calls of the framing function. -/
def wsFraming (env : Env φ) : Nat → WsOperation → Nat → Conn φ → Option (Bool × Conn φ)
  | 0, _, _, _ => none
  | fuel + 1, opcode, bytesRead, s =>
    match s.ws.peer.framing with
    | none => none -- a call through NULL
    | some framing =>
      let r := framing (some s.ws.peerBuffer) (s.ws.peerBufferOffset + bytesRead) bytesRead
        (some opcode) s.ws.peerFramingData s.ws.peer.framingConfig
      match wsFramed env r.1 (r.2.1.getD opcode) bytesRead (framingCalled bytesRead r.2.2 s) with
      | .done rv s => some (rv, s)
      | .again opcode bytesRead s => wsFraming env fuel opcode bytesRead s

/-- `ws_peer_data`; the boolean is its return value. -/
def wsPeerData (env : Env φ) (fuel : Nat) (answer : Option Bytes) (s : Conn φ) :
    Option (Bool × Conn φ) :=
  let r := recv s.ws.peerFd (peerBufferSize - s.ws.peerBufferOffset - 1) answer s.world
  let s := { s with world := r.2 }
  match r.1 with
  | none => some (false, wsClose env .unexpected (some (ascii "Peer connection failed")) s)
  | some [] => some (false, wsClose env .normal (some (ascii "Peer closed connection")) s)
  | some data =>
    let buffer := write s.ws.peerBuffer s.ws.peerBufferOffset (data ++ [0])
    wsFraming env fuel .binary data.length { s with ws := { s.ws with peerBuffer := buffer } }

/-- The keep-alive check of the core loop. -/
def wsKeepAlive (env : Env φ) (now : Int) (s : Conn φ) : Conn φ :=
  if env.pingInterval ≠ 0 ∧ env.pingInterval < now - s.ws.lastEvent then
    let r := wsSendFrame env s.ws .ping (ascii "PING") s.world
    let s := { s with world := r.2 }
    if r.1 then wsClose env .unexpected none s else s
  else s

/-! ## The core loop -/

inductive Loc
  | select
  /-- before the test of `ws_fd` for slot `n` -/
  | client (n : Nat)
  /-- before the test of `peer_fd` for slot `n` -/
  | peer (n : Nat)
  /-- before the keep-alive check for slot `n` -/
  | ping (n : Nat)
  | done
  deriving DecidableEq, Repr

structure Core (φ : Type) where
  sock : List (Websocket φ)
  world : World
  listenFd : Nat
  /-- `read_fds` as `select` left it -/
  readFds : List Nat := []
  /-- `current_time.tv_sec` -/
  now : Int := 0
  loc : Loc := .select

inductive Input
  /-- `select` returns with these descriptors ready; whether `accept` succeeds -/
  | select (ready : List Nat) (now : Int) (accepts : Bool)
  /-- look at the next descriptor; what its socket has, if `recv` is called, and a
  bound on the calls of the framing function -/
  | serve (answer : Option Bytes) (fuel : Nat)
  /-- `shutdown_requested`, or `select` or `clock_gettime` fails -/
  | quit

/-- The descriptors put into the set for `select`. -/
def selectFds (c : Core φ) : List Nat :=
  c.listenFd :: c.sock.flatMap fun ws =>
    match ws.wsFd with
    | none => []
    | some fd => fd :: ws.peerFd.toList

/-- `client_register`: the first slot without a client, else a new one. -/
def clientRegister (ws : Websocket φ) (sock : List (Websocket φ)) : List (Websocket φ) :=
  let n := sock.findIdx (·.wsFd.isNone)
  if n < sock.length then sock.set n ws else sock ++ [ws]

/-- `ws_accept`. -/
def wsAccept (now : Int) (accepts : Bool) (c : Core φ) : Core φ :=
  let w := c.world
  let conn := w.conns
  let ws : Websocket φ :=
    { conn := conn, wsFd := if accepts then some (FdTable.lowest w.fds) else none, lastEvent := now }
  let w := { w with conns := conn + 1 }
  let w := if accepts then w.openSock.record (.accepted conn w.socks) else w
  { c with sock := clientRegister ws c.sock, world := w }

/-- `client_cleanup`: close every slot, then free them. -/
def clientCleanup (env : Env φ) : List (Websocket φ) → World → World
  | [], w => w
  | ws :: sock, w =>
    clientCleanup env sock
      (wsClose env .shutdown (some (ascii "Shutting down")) ⟨ws, w⟩).world

/-- Store a connection and the outside back after a handler. -/
def Core.put (c : Core φ) (n : Nat) (s : Conn φ) (loc : Loc) : Core φ :=
  { c with sock := c.sock.set n s.ws, world := s.world, loc := loc }

/-- One step of the core loop. -/
def coreStep (env : Env φ) (i : Input) (c : Core φ) : Option (Core φ) :=
  match c.loc, i with
  | .select, .select ready now accepts =>
    let ready := ready.filter (· ∈ selectFds c)
    let w := c.world.record (.selected (ready.filterMap fun fd => c.world.sockAt (some fd)))
    let c := { c with world := w, readFds := ready, now := now, loc := .client 0 }
    some (if c.listenFd ∈ ready then wsAccept now accepts c else c)
  | .select, .quit =>
    some { c with
      sock := [], world := (clientCleanup env c.sock c.world).closeFd (some c.listenFd), loc := .done }
  | .client n, .serve answer _ =>
    match c.sock[n]? with
    | none => some { c with loc := .select }
    | some ws =>
      match ws.wsFd with
      | none => some { c with loc := .client (n + 1) }
      | some fd =>
        if fd ∈ c.readFds then
          (wsData env answer ⟨{ ws with lastEvent := c.now }, c.world⟩).map (c.put n · (.peer n))
        else some { c with loc := .peer n }
  | .peer n, .serve answer fuel =>
    match c.sock[n]? with
    | none => none
    | some ws =>
      if ws.peerFd.any (· ∈ c.readFds) then
        (wsPeerData env fuel answer ⟨ws, c.world⟩).map fun r =>
          -- a nonzero result breaks out of the loop over the slots
          c.put n r.2 (if r.1 then .select else .ping n)
      else some { c with loc := .ping n }
  | .ping n, .serve _ _ =>
    match c.sock[n]? with
    | none => none
    | some ws => some (c.put n (wsKeepAlive env c.now ⟨ws, c.world⟩) (.client (n + 1)))
  | _, _ => none

/-- Before the first round: no clients, and a table of which the listening socket
and whatever else the process has open use the sockets below `socks`. -/
def coreInit (c : Core φ) : Prop :=
  c.sock = [] ∧ c.loc = .select ∧ c.world.log = [] ∧
  FdTable.Numbered c.world.fds c.world.socks ∧ c.world.sockAt (some c.listenFd) ≠ none

def coreLoop (env : Env φ) : Machine (Core φ) Input where
  init := coreInit
  step := coreStep env

end Websocksy

import Websocksy.Types

/-!
# The outside: sockets, sends and the backend

`Env` answers every call that leaves the program: `backend.query`, the
connection attempt of `network_socket`, each `send`, and the hash and encoding
functions of nettle.  An answer may depend on how many such calls came before,
so every behaviour of the outside is some `Env`.

`World` is what those calls change: the descriptor table, the counters the
answers depend on, and a log of the calls.  Sockets are numbered in the order of
their creation; the log speaks of these numbers, never of descriptors, since a
descriptor is used again after `close`.
-/

namespace Websocksy

open Buffer CString

/-- What `network_socket` and `network_socket_unix` are asked to connect to. -/
inductive PeerAddress
  | inet (host port : Bytes) (dgram : Bool)
  | unix (path : Bytes) (dgram : Bool)
  deriving DecidableEq, Repr

structure Env (φ : Type) where
  /-- `config.backend.query` -/
  query : Nat → Option Bytes → List Bytes → List WsHttpHeader → WsPeerInfo φ
  /-- whether a connection attempt gives a socket -/
  connect : Nat → PeerAddress → Bool
  /-- `send` on a socket, by the number of calls before: failure, or one byte more
  than the number, if there are so many -/
  send : Nat → Nat → Option Nat
  sha1 : Bytes → Bytes
  base64 : Bytes → Bytes
  /-- `config.ping_interval` -/
  pingInterval : Int

inductive Event
  /-- `accept` gave the connection its client socket -/
  | accepted (conn sock : Nat)
  /-- `client_connect` opened a peer socket for the connection -/
  | opened (conn sock : Nat)
  | closed (sock : Nat)
  | wrote (sock : Nat) (data : Bytes)
  | sendFailed (sock : Nat)
  | received (sock : Nat) (data : Bytes)
  | recvFailed (sock : Nat)
  /-- the sockets `select` reported ready -/
  | selected (socks : List Nat)
  /-- `read_buffer` up to the CRLF, handed to `ws_handle_new` or `ws_handle_http` -/
  | line (conn : Nat) (state : WsState) (data : Bytes)
  | query (conn : Nat) (state : WsState) (path : Option Bytes)
  | wsClose (conn : Nat) (reason : Option Bytes)
  /-- the framing function is called on `data`, its first `length` bytes -/
  | framing (conn : Nat) (data : Bytes) (lastRead : Nat)
  /-- bytes taken from the peer buffer, for a frame or to be discarded -/
  | segment (conn : Nat) (opcode : WsOperation) (data : Bytes)
  deriving DecidableEq, Repr

structure World where
  fds : FdTable.Table
  socks : Nat
  conns : Nat := 0
  sends : Nat := 0
  queries : Nat := 0
  connects : Nat := 0
  log : List Event := []

namespace World

def record (w : World) (e : Event) : World := { w with log := w.log ++ [e] }

/-- The socket at a descriptor. -/
def sockAt (w : World) (fd : Option Nat) : Option Nat := fd.bind (FdTable.entry w.fds)

/-- `socket` or `accept`: the lowest-numbered free descriptor and a new socket. -/
def openSock (w : World) : World :=
  { w with fds := FdTable.install w.fds w.socks, socks := w.socks + 1 }

/-- `if(fd >= 0) close(fd)`. -/
def closeFd (w : World) (fd : Option Nat) : World :=
  match fd, w.sockAt fd with
  | some n, some x => { w with fds := FdTable.release w.fds n }.record (.closed x)
  | _, _ => w

end World

/-- A connection and the outside: what a handler reads and changes. -/
structure Conn (φ : Type) where
  ws : Websocket φ
  world : World

variable {φ : Type}

/-- The loop of `network_send` on the socket `x`; true when it failed. -/
def networkSendLoop (env : Env φ) (x : Nat) : Nat → Bytes → World → Bool × World
  | 0, _, w => (false, w)
  | fuel + 1, data, w =>
    if data.isEmpty then (false, w)
    else match env.send x w.sends with
      | none => (true, { w with sends := w.sends + 1 }.record (.sendFailed x))
      | some k =>
        networkSendLoop env x fuel (data.drop (k + 1))
          ({ w with sends := w.sends + 1 }.record (.wrote x (data.take (k + 1))))

/-- `network_send`, true for a nonzero result.  A descriptor that is not open fails. -/
def networkSend (env : Env φ) (fd : Option Nat) (data : Bytes) (w : World) : Bool × World :=
  if data.isEmpty then (false, w)
  else match w.sockAt fd with
    | none => (true, w)
    | some x => networkSendLoop env x data.length data w

/-- Calls of `network_send_str` joined by `||`. -/
def networkSendAll (env : Env φ) (fd : Option Nat) : List Bytes → World → Bool × World
  | [], w => (false, w)
  | d :: ds, w =>
    let r := networkSend env fd d w
    if r.1 then r else networkSendAll env fd ds r.2

/-- `recv` of at most `len` bytes: `none` for an error.  `answer` is what the socket has. -/
def recv (fd : Option Nat) (len : Nat) (answer : Option Bytes) (w : World) :
    Option Bytes × World :=
  match w.sockAt fd with
  | none => (none, w)
  | some x =>
    match answer with
    | none => (none, w.record (.recvFailed x))
    | some b => (some (b.take len), w.record (.received x (b.take len)))

end Websocksy

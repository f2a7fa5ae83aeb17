import Websocksy.Lib.CString
import Websocksy.Lib.FdTable

/-!
# The data of `websocksy.h`

`Websocket` keeps the fields of the C structure.  A descriptor is an
`Option Nat`, with `none` for -1.  A `char*` is an `Option Bytes`, with `none`
for NULL, and an array with its element count is a list.  `void*` framing data
is an `Option φ` for a type `φ` that the framing functions choose.  Allocation
always succeeds.

`Websocket.conn` is not in the C structure: it is the number of the `ws_accept`
call that filled the slot, and only names the connection in the log of a run.
-/

namespace Websocksy

open Buffer CString

/-- `WS_MAX_LINE`: HTTP/WS read buffer size and limit. -/
def wsMaxLine : Nat := 16384
/-- `PEER_BUFFER_SIZE`. -/
def peerBufferSize : Nat := 16384
/-- `WS_HEADER_LIMIT`. -/
def wsHeaderLimit : Nat := 10

inductive WsState
  | wsNew | wsHttp | wsOpen | wsClosed
  deriving DecidableEq, Repr

inductive WsOperation
  | continuation | text | binary | close | ping | pong
  | discard -- special opcode to discard bytes from the peer buffer
  deriving DecidableEq, Repr

def WsOperation.code : WsOperation → UInt8
  | .continuation => 0
  | .text => 1
  | .binary => 2
  | .close => 8
  | .ping => 9
  | .pong => 10
  | .discard => 11

inductive WsCloseReason
  | http | normal | shutdown | proto | data | format | policy | limit | unexpected
  deriving DecidableEq, Repr

structure WsHttpHeader where
  tag : Bytes
  value : Bytes
  deriving DecidableEq, Repr

inductive PeerTransport
  | detect | tcpClient | udpClient | fifoTx | fifoRx | unixStream | unixDgram
  deriving DecidableEq, Repr

/-- `ws_framing`: data (NULL at teardown), `length`, `last_read`, `opcode`, the
framing data and the configuration; returns the number of bytes to frame, the
opcode and the framing data.  `data` is the array from its start on, so that a
function can look at what stands at and behind `length`. -/
abbrev WsFraming (φ : Type) :=
  Option Bytes → Nat → Nat → Option WsOperation → Option φ → Option Bytes →
    Int × Option WsOperation × Option φ

structure WsPeerInfo (φ : Type) where
  transport : PeerTransport := .detect
  host : Option Bytes := none
  port : Option Bytes := none
  framing : Option (WsFraming φ) := none
  framingConfig : Option Bytes := none
  protocol : Nat := 0

structure Websocket (φ : Type) where
  conn : Nat
  wsFd : Option Nat
  readBuffer : Bytes := []
  readBufferOffset : Nat := 0
  state : WsState := .wsNew
  lastEvent : Int := 0
  header : List WsHttpHeader := []
  requestPath : Option Bytes := none
  websocketVersion : Nat := 0
  socketKey : Option Bytes := none
  wantUpgrade : Nat := 0
  protocol : List Bytes := []
  peer : WsPeerInfo φ := {}
  peerFd : Option Nat := none
  peerBuffer : Bytes := []
  peerBufferOffset : Nat := 0
  peerFramingData : Option φ := none

end Websocksy

import Websocksy.Client
import Websocksy.Lib.BigEndian
import Websocksy.Lib.Splitter

/-!
# `websocket.c`

The handlers of a WebSocket connection.  Their edits inside the line they
handle are not kept: the line is dropped from the buffer right after.  A result
`none` means that the handler does not come back (`wsFrame`: it writes outside
of `read_buffer`).
-/

namespace Websocksy

open Buffer CString

variable {φ : Type}

/-! ## Sending frames and closing -/

/-- The frame header `ws_send_frame` builds. -/
def wsFrameHeader (opcode : WsOperation) (len : Nat) : Bytes :=
  (0x80 ||| opcode.code) ::
    if len ≤ 125 then [len.toUInt8]
    else if len ≤ 0xFFFF then 126 :: bigEndian 2 len
    else 127 :: bigEndian 8 len

/-- `ws_send_frame`, true for a nonzero result. -/
def wsSendFrame (env : Env φ) (ws : Websocket φ) (opcode : WsOperation) (data : Bytes)
    (w : World) : Bool × World :=
  networkSendAll env ws.wsFd [wsFrameHeader opcode data.length, data] w

/-- What `ws_close` sends before it closes the descriptors. -/
def wsCloseSend (env : Env φ) (ws : Websocket φ) (code : WsCloseReason) (reason : Option Bytes)
    (w : World) : World :=
  match reason with
  | none => w
  | some r =>
    if ws.state = .wsOpen then (wsSendFrame env ws .close r w).2
    else if ws.state = .wsHttp ∧ code = .http then
      let w := (networkSend env ws.wsFd (ascii "HTTP/1.1 ") w).2
      let w := (networkSend env ws.wsFd r w).2
      (networkSend env ws.wsFd (ascii "\r\n\r\n") w).2
    else w

/-- `ws_close`.  The teardown call of the framing function frees its data; what
it returns is not used. -/
def wsClose (env : Env φ) (code : WsCloseReason) (reason : Option Bytes) (s : Conn φ) : Conn φ :=
  let w := wsCloseSend env s.ws code reason (s.world.record (.wsClose s.ws.conn reason))
  { ws := { s.ws with
      state := .wsClosed, wsFd := none, peerFd := none
      peerFramingData := if s.ws.peerFd.isSome then none else s.ws.peerFramingData
      header := [], protocol := [], readBufferOffset := 0, peerBufferOffset := 0
      requestPath := none, socketKey := none, websocketVersion := 0, wantUpgrade := 0
      peer := {} }
    world := (w.closeFd s.ws.wsFd).closeFd s.ws.peerFd }

/-! ## The HTTP phase -/

/-- The path of a request line `GET <path> HTTP/...` at the start of `b`.  The
bytes behind the line count too: `proto` can stand behind the NUL that ends it. -/
def requestPath (b : Bytes) : Option Bytes :=
  if strncmp b (ascii "GET ") then
    let path := (b.drop 4).takeWhile fun c => c != 0 && !isspace c
    if strncmp (b.drop (4 + path.length + 1)) (ascii "HTTP/") then some path else none
  else none

/-- `ws_handle_new`, true for a nonzero result. -/
def wsHandleNew (s : Conn φ) : Bool × Conn φ :=
  match requestPath s.ws.readBuffer with
  | none => (true, s)
  | some path => (false, { s with ws := { s.ws with state := .wsHttp, requestPath := some path } })

def rfc6455MagicKey : Bytes := ascii "258EAFA5-E914-47DA-95CA-C5AB0DC85B11"

def acceptKey (env : Env φ) (key : Bytes) : Bytes := env.base64 (env.sha1 (key ++ rfc6455MagicKey))

/-- `websocket_version == 13 && socket_key && want_upgrade == 3`. -/
def Websocket.ready (ws : Websocket φ) : Bool :=
  ws.websocketVersion == 13 && ws.socketKey.isSome && ws.wantUpgrade == 3

/-- `ws_upgrade_http`, true for a nonzero result. -/
def wsUpgradeHttp (env : Env φ) (s : Conn φ) : Bool × Conn φ :=
  if s.ws.ready then
    let c := clientConnect env s
    if c.1 then (false, wsClose env .http (some (ascii "500 Peer connection failed")) c.2)
    else
      let s := c.2
      let r := networkSendAll env s.ws.wsFd [ascii "HTTP/1.1 101 Upgrading\r\n",
        ascii "Upgrade: websocket\r\n", ascii "Connection: Upgrade\r\n"] s.world
      let s := { s with world := r.2 }
      if r.1 then (false, wsClose env .http none s)
      else
        let r := networkSendAll env s.ws.wsFd [ascii "Sec-WebSocket-Accept: ",
          acceptKey env (s.ws.socketKey.getD []) ++ ascii "\r\n"] s.world
        let s := { s with world := r.2 }
        if r.1 then (false, wsClose env .http none s)
        else
          let r := if s.ws.peer.protocol < s.ws.protocol.length then
              networkSendAll env s.ws.wsFd [ascii "Sec-WebSocket-Protocol: ",
                s.ws.protocol.getD s.ws.peer.protocol [], ascii "\r\n"] s.world
            else (false, s.world)
          let s := { s with world := r.2 }
          if r.1 then (false, wsClose env .http none s)
          else
            let s := { s with ws := { s.ws with state := .wsOpen } }
            let r := networkSend env s.ws.wsFd (ascii "\r\n") s.world
            let s := { s with world := r.2 }
            if r.1 then (false, wsClose env .http none s) else (false, s)
  else if s.ws.websocketVersion ≠ 13 then
    (false, wsClose env .http (some (ascii "426 Unsupported protocol version")) s)
  else (true, s)

/-- One token of `Sec-WebSocket-Protocol`. -/
def addProtocol (protocol : List Bytes) (token : Bytes) : List Bytes :=
  let value := rtrim (ltrim token)
  if value ∈ protocol then protocol else protocol ++ [value]

/-- The chain of header comparisons in `ws_handle_http`. -/
def wsHeader (header value : Bytes) (ws : Websocket φ) : Websocket φ :=
  if header = ascii "Sec-WebSocket-Version" then
    { ws with websocketVersion := strtoul10 value % 2 ^ 32 }
  else if header = ascii "Sec-WebSocket-Key" then { ws with socketKey := some (rtrim value) }
  else if header = ascii "Upgrade" ∧ strcasecmp value (ascii "websocket") then
    { ws with wantUpgrade := ws.wantUpgrade ||| 1 }
  else
    -- `xstr_lower` lowers the value in place, also where it is stored below
    let value := if header = ascii "Connection" then value.map tolower else value
    if header = ascii "Connection" ∧ strstr value (ascii "upgrade") then
      { ws with wantUpgrade := ws.wantUpgrade ||| 2 }
    else if header = ascii "Sec-WebSocket-Protocol" then
      { ws with protocol := (strtok 44 value).foldl addProtocol ws.protocol }
    else if ws.header.length < wsHeaderLimit then
      { ws with header := ws.header ++ [⟨header, value⟩] }
    else ws

/-- `ws_handle_http` on the line `line`, true for a nonzero result. -/
def wsHandleLine (env : Env φ) (line : Bytes) (s : Conn φ) : Bool × Conn φ :=
  match line with
  | [] => wsUpgradeHttp env s
  | c :: _ =>
    if isspace c then (false, wsClose env .http (some (ascii "500 Header folding")) s)
    else match strchr 58 line with
      | none => (false, wsClose env .http (some (ascii "500 Header format")) s)
      | some (header, value) => (false, { s with ws := wsHeader header (ltrim value) s.ws })

/-- `ws_handle_http`: the line is the C string at the start of the read buffer. -/
def wsHandleHttp (env : Env φ) (s : Conn φ) : Bool × Conn φ :=
  wsHandleLine env (cstr s.ws.readBuffer) s

/-- The end of a line was found at `read_buffer_offset + n`: terminate the line
and hand it to a handler, whose result is not looked at. -/
def wsHandOver (env : Env φ) (n : Nat) (s : Conn φ) : Conn φ :=
  let at_ := s.ws.readBufferOffset + n
  let s := { ws := { s.ws with readBuffer := write s.ws.readBuffer at_ [0] }
             world := s.world.record (.line s.ws.conn s.ws.state (slice s.ws.readBuffer 0 at_)) }
  if s.ws.state = .wsNew then (wsHandleNew s).2 else (wsHandleHttp env s).2

/-- Remove the line from the buffer; `left` bytes follow it.  The offset is read
again here, after the handler. -/
def wsDropLine (n left : Nat) (s : Conn φ) : Conn φ :=
  { s with ws := { s.ws with
      readBuffer := moveDown s.ws.readBuffer (s.ws.readBufferOffset + n + 2) left
      readBufferOffset := 0 } }

/-- The line loop of `ws_data`, from `n` and `bytes_read`; returns `bytes_read`. -/
def wsScan (env : Env φ) : Nat → Nat → Nat → Conn φ → Nat × Conn φ
  | 0, _, bytesRead, s => (bytesRead, s)
  | fuel + 1, n, bytesRead, s =>
    if n + 1 < bytesRead then
      if slice s.ws.readBuffer (s.ws.readBufferOffset + n) 2 = Lines.crlf then
        let left := bytesRead - (n + 2)
        wsScan env fuel 0 left (wsDropLine n left (wsHandOver env n s))
      else wsScan env fuel (n + 1) bytesRead s
    else (bytesRead, s)

/-! ## The open phase -/

def wsGetOp (a : UInt8) : Nat := (a &&& 0x0F).toNat
def wsGetMask (a : UInt8) : Bool := a &&& 0x80 != 0
def wsGetLen (a : UInt8) : Nat := (a &&& 0x7F).toNat

/-- Payload length and start of the payload of the frame in `b`, of which `offset`
bytes are there; `none` while the header is incomplete. -/
def wsFrameLayout (b : Bytes) (offset : Nat) : Option (Nat × Nat) :=
  let masked := wsGetMask (b.getD 1 0)
  let len := wsGetLen (b.getD 1 0)
  if offset < 2 then none
  else if masked ∧ offset < 6 then none
  else if len = 126 then
    if offset < 4 then none
    else if masked ∧ offset < 8 then none
    else some (ofBigEndian (slice b 2 2), if masked then 8 else 4)
  else if len = 127 then
    if offset < 10 then none
    else if masked ∧ offset < 14 then none
    else some (ofBigEndian (slice b 2 8), if masked then 14 else 10)
  else some (len, if masked then 6 else 2)

/-- Masking and unmasking a payload. -/
def maskBytes (key : Bytes) (payload : Bytes) : Bytes :=
  payload.mapIdx fun i x => x ^^^ key.getD (i % 4) 0

/-- The switch over the opcode in `ws_frame`. -/
def wsDispatch (env : Env φ) (op : Nat) (payload : Bytes) (s : Conn φ) : Conn φ :=
  if op = 1 ∨ op = 2 then
    if s.ws.peerFd.isSome then
      let r := networkSend env s.ws.peerFd payload s.world
      let s := { s with world := r.2 }
      if r.1 then wsClose env .unexpected (some (ascii "Failed to forward")) s else s
    else s
  else if op = 8 then wsClose env .normal (some (ascii "Client requested termination")) s
  else if op = 9 then
    let r := wsSendFrame env s.ws .pong payload s.world
    let s := { s with world := r.2 }
    if r.1 then wsClose env .unexpected (some (ascii "Failed to send pong")) s else s
  else if op = 10 then s
  else wsClose env .proto (some (ascii "Invalid opcode")) s

/-- `ws_frame`: the number of bytes handled. -/
def wsFrame (env : Env φ) (s : Conn φ) : Option (Nat × Conn φ) :=
  match wsFrameLayout s.ws.readBuffer s.ws.readBufferOffset with
  | none => some (0, s)
  | some (len, start) =>
    -- a sum of 64-bit numbers, so it is taken modulo 2^64
    if s.ws.readBufferOffset < (start + len) % 2 ^ 64 then some (0, s)
    else if !wsGetMask (s.ws.readBuffer.getD 1 0) then
      some (0, wsClose env .proto (some (ascii "Unmasked client frame")) s)
    else if wsMaxLine < start + len then none
    else
      let payload := maskBytes (slice s.ws.readBuffer (start - 4) 4) (slice s.ws.readBuffer start len)
      let op := wsGetOp (s.ws.readBuffer.getD 0 0)
      let s := { s with ws := { s.ws with readBuffer := write s.ws.readBuffer start payload } }
      some ((start + len) % 2 ^ 64, wsDispatch env op payload s)

/-- The frame loop of `ws_data`. -/
def wsFrames (env : Env φ) : Nat → Conn φ → Option (Conn φ)
  | 0, s => some s
  | fuel + 1, s =>
    match wsFrame env s with
    | none => none
    | some (n, s) =>
      if 0 < n ∧ 0 < s.ws.readBufferOffset then
        let left := s.ws.readBufferOffset - n
        wsFrames env fuel { s with ws := { s.ws with
          readBuffer := moveDown s.ws.readBuffer n left, readBufferOffset := left } }
      else some s

/-! ## Incoming data -/

/-- The `switch(ws->state)` of `ws_data` once `bytesRead` bytes are in the buffer. -/
def wsDataSwitch (env : Env φ) (bytesRead : Nat) (s : Conn φ) : Option (Conn φ) :=
  match s.ws.state with
  | .wsNew | .wsHttp =>
    let r := wsScan env bytesRead 0 bytesRead s
    some { r.2 with ws := { r.2.ws with readBufferOffset := r.1 } }
  | .wsOpen =>
    let offset := s.ws.readBufferOffset + bytesRead
    wsFrames env (offset + 1) { s with ws := { s.ws with readBufferOffset := offset } }
  | .wsClosed => some s

/-- `ws_data`, which always returns 0.  `answer` is what the socket has for `recv`. -/
def wsData (env : Env φ) (answer : Option Bytes) (s : Conn φ) : Option (Conn φ) :=
  let r := recv s.ws.wsFd (wsMaxLine - s.ws.readBufferOffset - 1) answer s.world
  let s := { s with world := r.2 }
  match r.1 with
  | none | some [] => some (wsClose env .unexpected none s)
  | some data =>
    let buffer := write s.ws.readBuffer s.ws.readBufferOffset (data ++ [0])
    (wsDataSwitch env data.length { s with ws := { s.ws with readBuffer := buffer } }).map fun s =>
      if wsMaxLine - s.ws.readBufferOffset < 2 then
        wsClose env .limit (some (ascii "Receive size limit exceeded")) s
      else s

end Websocksy

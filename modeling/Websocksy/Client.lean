import Websocksy.World

/-!
# Choosing and opening a peer: `client_connect`

`clientResolve` is `client_connect` from the query's result to the socket call:
the default framing, the scheme of the host, its port, the transport switch.
-/

namespace Websocksy

open Buffer CString

variable {φ : Type}

def utf8Byte (a : UInt8) : Bool := a &&& 0xC0 == 0x80

/-- The loop of `framing_auto` from position `p`: is the rest of the data UTF-8. -/
def framingAutoLoop (data : Bytes) (length : Nat) : Nat → Nat → Bool
  | 0, _ => true
  | fuel + 1, p =>
    let d := fun i => data.getD (p + i) 0
    if length ≤ p then true
    else if d 0 &&& 0xF8 == 0xF0 then
      if length ≤ p + 3 || !utf8Byte (d 1) || !utf8Byte (d 2) || !utf8Byte (d 3) then false
      else framingAutoLoop data length fuel (p + 4)
    else if d 0 &&& 0xF0 == 0xE0 then
      if length ≤ p + 2 || !utf8Byte (d 1) || !utf8Byte (d 2) then false
      else framingAutoLoop data length fuel (p + 3)
    else if d 0 &&& 0xE0 == 0xC0 then
      if length ≤ p + 1 || !utf8Byte (d 1) then false
      else framingAutoLoop data length fuel (p + 2)
    else if d 0 &&& 0x80 != 0 then false
    else framingAutoLoop data length fuel (p + 1)

/-- `framing_auto`: everything at once, as text if it is UTF-8. -/
def framingAuto : WsFraming φ := fun data length _ opcode framingData _ =>
  (length,
    if framingAutoLoop (data.getD []) length length 0 then opcode.map fun _ => .text else opcode,
    framingData)

/-- The transport the scheme names, and the host without the scheme. -/
def clientDetectTransport (host : Bytes) : PeerTransport × Bytes :=
  if strncmp host (ascii "tcp://") then (.tcpClient, host.drop 6)
  else if strncmp host (ascii "udp://") then (.udpClient, host.drop 6)
  else if strncmp host (ascii "fifotx://") then (.fifoTx, host.drop 9)
  else if strncmp host (ascii "fiforx://") then (.fifoRx, host.drop 9)
  else if strncmp host (ascii "unix://") then (.unixStream, host.drop 7)
  else if strncmp host (ascii "unix-dgram://") then (.unixDgram, host.drop 13)
  else (.tcpClient, host)

/-- The host before the first colon and the port after it. -/
def clientDetectPort (host : Bytes) : Option (Bytes × Bytes) := strchr 58 host

def clientResolve (peer : WsPeerInfo φ) : WsPeerInfo φ × Option PeerAddress :=
  match peer.host with
  | none => (peer, none)
  | some host =>
    let peer := if peer.framing.isNone then { peer with framing := some framingAuto } else peer
    let t := if peer.transport = .detect then clientDetectTransport host else (peer.transport, host)
    let peer := { peer with transport := t.1, host := some t.2 }
    let inet := t.1 = .tcpClient ∨ t.1 = .udpClient
    let split := if inet ∧ peer.port.isNone then clientDetectPort t.2 else none
    let peer := match split with
      | some (h, p) => { peer with host := some h, port := some p }
      | none => peer
    match t.1, peer.host, peer.port with
    | .tcpClient, some h, some p => (peer, some (.inet h p false))
    | .udpClient, some h, some p => (peer, some (.inet h p true))
    | .unixStream, some h, _ => (peer, some (.unix h false))
    | .unixDgram, some h, _ => (peer, some (.unix h true))
    | _, _, _ => (peer, none)

/-- `client_connect`, true for a nonzero result. -/
def clientConnect (env : Env φ) (s : Conn φ) : Bool × Conn φ :=
  let w := s.world.record (.query s.ws.conn s.ws.state s.ws.requestPath)
  let r := clientResolve (env.query w.queries s.ws.requestPath s.ws.protocol s.ws.header)
  let ws := { s.ws with peer := r.1 }
  let w := { w with queries := w.queries + 1 }
  match r.2 with
  | none => (true, ⟨ws, w⟩)
  | some a =>
    let up := env.connect w.connects a
    let w := { w with connects := w.connects + 1 }
    match up with
    | true =>
      (false, ⟨{ ws with peerFd := some (FdTable.lowest w.fds) },
        w.openSock.record (.opened s.ws.conn w.socks)⟩)
    | false => (true, ⟨{ ws with peerFd := none }, w⟩)

end Websocksy

import Websocksy.BackendFile

/-!
# The default backend: `backend_defaultpeer` of `builtins.c`

`DefaultPeer` is its global data.  A query copies the strings of the default peer, so what is
done to the answer leaves the default peer as it is.
-/

namespace Websocksy

open Buffer CString

variable {φ : Type}

structure DefaultPeer (φ : Type) where
  defaultPeer : WsPeerInfo φ := {}
  defaultPeerProto : Option Bytes := none

/-- `backend_defaultpeer_init` -/
def DefaultPeer.init (d : DefaultPeer φ) : DefaultPeer φ :=
  { d with defaultPeer :=
    { transport := .detect
      host := some (d.defaultPeer.host.getD (ascii "tcp://localhost"))
      port := some (d.defaultPeer.port.getD (ascii "5900")) } }

/-- `backend_defaultpeer_configure`, true for a nonzero result. -/
def DefaultPeer.configure (l : FramingLibrary φ) (key value : Bytes) (d : DefaultPeer φ) :
    Bool × DefaultPeer φ :=
  if key = ascii "host" then
    (false, { d with defaultPeer :=
      { d.defaultPeer with host := some value, transport := .detect } })
  else if key = ascii "port" then
    (false, { d with defaultPeer := { d.defaultPeer with port := some value } })
  else if key = ascii "protocol" then (false, { d with defaultPeerProto := some value })
  else if key = ascii "framing" then
    (false, { d with defaultPeer := { d.defaultPeer with framing := l.framing (some value) } })
  else if key = ascii "framing-config" then
    (false, { d with defaultPeer := { d.defaultPeer with framingConfig := some value } })
  else (true, d)

/-- `backend_defaultpeer_query` -/
def DefaultPeer.query (protocol : List Bytes) (d : DefaultPeer φ) : WsPeerInfo φ :=
  { d.defaultPeer with
    protocol := match d.defaultPeerProto with
      | none => protocol.length
      | some name =>
        let index := (protocol.findIdx? (strcasecmp · name)).getD protocol.length
        if name = ascii "*" then 0 else index }

/-- The backend after the start of the program and calls of `configure`, whatever they return. -/
def DefaultPeer.configured (l : FramingLibrary φ) (calls : List (Bytes × Bytes)) : DefaultPeer φ :=
  calls.foldl (fun d call => (d.configure l call.1 call.2).2) (DefaultPeer.init {})

end Websocksy

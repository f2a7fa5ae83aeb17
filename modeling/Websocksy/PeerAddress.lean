import Websocksy.DefaultPeer
import Websocksy.PeerSelection
import Websocksy.Run

/-!
# The address of a peer

A backend names its peer by a scheme, a host and a port, or by a scheme and a path, and leaves it
to `client_connect` to take these apart.  A port that is set already is not looked for in the
host, and the default backend always has one.
-/

namespace Websocksy

open Buffer CString

variable {φ : Type}

/-- An address with its scheme. -/
inductive SchemeAddress
  | tcp (host : {h : Bytes // 58 ∉ h}) (port : Bytes)
  | udp (host : {h : Bytes // 58 ∉ h}) (port : Bytes)
  | unix (path : Bytes)
  | unixDgram (path : Bytes)

namespace SchemeAddress

def text : SchemeAddress → Bytes
  | .tcp host port => ascii "tcp://" ++ (host.val ++ 58 :: port)
  | .udp host port => ascii "udp://" ++ (host.val ++ 58 :: port)
  | .unix path => ascii "unix://" ++ path
  | .unixDgram path => ascii "unix-dgram://" ++ path

/-- What `network_socket` or `network_socket_unix` is to be called with. -/
def target : SchemeAddress → PeerAddress
  | .tcp host port => .inet host.val port false
  | .udp host port => .inet host.val port true
  | .unix path => .unix path false
  | .unixDgram path => .unix path true

/-- The address has no port. -/
def Local : SchemeAddress → Prop
  | .unix _ => True
  | .unixDgram _ => True
  | _ => False

end SchemeAddress

/-- The call of `network_socket` or `network_socket_unix` that `client_connect` comes to. -/
def ConnectsTo (env : Env φ) (s : Conn φ) (a : PeerAddress) : Prop :=
  (clientResolve (env.query s.world.queries s.ws.requestPath s.ws.protocol s.ws.header)).2 = some a

/-- Every connection is made to the address, however many came before it. -/
def AddressResolved (env : Env φ) (a : SchemeAddress) : Prop :=
  ∀ s : Conn φ, ConnectsTo env s a.target

/-- The host that is set last. -/
def lastHost (calls : List (Bytes × Bytes)) : Option Bytes :=
  (calls.reverse.find? fun call => decide (call.1 = ascii "host")).map Prod.snd

/-- The backend supplies the address, and no port was configured: some backend that answers with
the address alone, or the default backend with a host that was set and a port that never was. -/
inductive Supplies (a : SchemeAddress) (env : Env φ) : Prop
  | backend (h : ∀ n path protocol header,
      (env.query n path protocol header).host = some a.text ∧
        (env.query n path protocol header).transport = .detect ∧
          (env.query n path protocol header).port = none)
  | defaultpeer (l : FramingLibrary φ) (calls : List (Bytes × Bytes))
      (hhost : lastHost calls = some a.text) (hport : ∀ call ∈ calls, call.1 ≠ ascii "port")
      (h : ∀ n path protocol header,
        env.query n path protocol header = (DefaultPeer.configured l calls).query protocol)

section

variable {env : Env φ} {s : Conn φ} {peer : WsPeerInfo φ}

/-- The address that is connected to is the one that was resolved. -/
theorem clientConnect_asks {a : PeerAddress} (h : ConnectsTo env s a) :
    (clientConnect env s).1 = !env.connect s.world.connects a := by
  unfold ConnectsTo at h
  unfold clientConnect
  dsimp only [World.record]
  rw [h]
  dsimp only
  generalize env.connect s.world.connects a = up
  cases up with
  | true => rfl
  | false => rfl

/-! ## Taking an address apart -/

theorem clientDetectTransport_text (a : SchemeAddress) :
    clientDetectTransport a.text = match a with
      | .tcp host port => (.tcpClient, host.val ++ 58 :: port)
      | .udp host port => (.udpClient, host.val ++ 58 :: port)
      | .unix path => (.unixStream, path)
      | .unixDgram path => (.unixDgram, path) := by
  cases a with
  | tcp host port => rfl
  | udp host port => rfl
  | unix path => rfl
  | unixDgram path => rfl

/-- Without a port the address is taken apart as it was put together. -/
theorem clientResolve_text {a : SchemeAddress} (hhost : peer.host = some a.text)
    (ht : peer.transport = .detect) (hp : peer.port = none) :
    (clientResolve peer).2 = some a.target := by
  obtain ⟨transport, host, port, framing, config, protocol⟩ := peer
  obtain rfl : transport = .detect := ht
  obtain rfl : host = some a.text := hhost
  obtain rfl : port = none := hp
  have hsplit (h : {h : Bytes // 58 ∉ h}) (p : Bytes) :
      clientDetectPort (h.val ++ 58 :: p) = some (h.val, p) := strchr_append h.property p
  cases framing <;> cases a <;>
    simp [clientResolve, clientDetectTransport_text, hsplit, SchemeAddress.target]

/-- With a port it is left in the host. -/
theorem clientResolve_port {a : SchemeAddress} {port : Bytes} (hhost : peer.host = some a.text)
    (ht : peer.transport = .detect) (hp : peer.port = some port) :
    (clientResolve peer).2 = some a.target ↔ a.Local := by
  obtain ⟨transport, host, port', framing, config, protocol⟩ := peer
  obtain rfl : transport = .detect := ht
  obtain rfl : host = some a.text := hhost
  obtain rfl : port' = some port := hp
  cases framing <;> cases a <;>
    simp [clientResolve, clientDetectTransport_text, SchemeAddress.target, SchemeAddress.Local]

/-! ## The default backend -/

theorem lastHost_concat (calls : List (Bytes × Bytes)) (call : Bytes × Bytes) :
    lastHost (calls ++ [call]) = if call.1 = ascii "host" then some call.2 else lastHost calls := by
  unfold lastHost
  rw [List.reverse_concat, List.find?_cons]
  split <;> simp_all

/-- A call that does not set the port. -/
theorem configure_peer (l : FramingLibrary φ) (d : DefaultPeer φ) (key value : Bytes)
    (hport : key ≠ ascii "port") (ht : d.defaultPeer.transport = .detect) :
    let peer := (d.configure l key value).2.defaultPeer
    peer.transport = .detect ∧ peer.port = d.defaultPeer.port ∧
      peer.host = if key = ascii "host" then some value else d.defaultPeer.host := by
  unfold DefaultPeer.configure
  dsimp only
  by_cases hhost : key = ascii "host"
  · rw [if_pos hhost, if_pos hhost]
    exact ⟨rfl, rfl, rfl⟩
  rw [if_neg hhost, if_neg hport, if_neg hhost]
  split
  · exact ⟨ht, rfl, rfl⟩
  split
  · exact ⟨ht, rfl, rfl⟩
  split
  · exact ⟨ht, rfl, rfl⟩
  · exact ⟨ht, rfl, rfl⟩

/-- What calls of `configure` leave of the default peer, if none of them sets the port. -/
theorem configured_peer (l : FramingLibrary φ) (calls : List (Bytes × Bytes))
    (hport : ∀ call ∈ calls, call.1 ≠ ascii "port") :
    let peer := (DefaultPeer.configured l calls).defaultPeer
    peer.transport = .detect ∧ peer.port = some (ascii "5900") ∧
      peer.host = some ((lastHost calls).getD (ascii "tcp://localhost")) := by
  induction calls using List.reverseRecOn with
  | nil => exact ⟨rfl, rfl, rfl⟩
  | append_singleton calls call ih =>
      obtain ⟨ht, hp, hh⟩ := ih fun c hc => hport c (List.mem_append_left _ hc)
      have hcall : call.1 ≠ ascii "port" := hport call (by simp)
      obtain ⟨ht', hp', hh'⟩ :=
        configure_peer l (DefaultPeer.configured l calls) call.1 call.2 hcall ht
      have hstep : DefaultPeer.configured l (calls ++ [call]) =
          ((DefaultPeer.configured l calls).configure l call.1 call.2).2 := List.foldl_concat _ _ _ _
      rw [hstep]
      refine ⟨ht', hp'.trans hp, hh'.trans ?_⟩
      rw [lastHost_concat, hh]
      split <;> rfl

end

/-- **Addresses are resolved** if the backend leaves the port open, and addresses without a port
always: the default backend never leaves it open. -/
theorem address_resolved_iff (env : Env φ) (a : SchemeAddress) (h : Supplies a env) :
    AddressResolved env a ↔
      a.Local ∨ ∀ n path protocol header, (env.query n path protocol header).port = none := by
  cases h with
  | backend h =>
      refine ⟨fun _ => .inr fun n path protocol header => (h n path protocol header).2.2, fun _ s => ?_⟩
      obtain ⟨hhost, ht, hp⟩ := h s.world.queries s.ws.requestPath s.ws.protocol s.ws.header
      exact clientResolve_text hhost ht hp
  | defaultpeer l calls hhost hport h =>
      obtain ⟨ht, hp, hh⟩ := configured_peer l calls hport
      rw [hhost, Option.getD_some] at hh
      have hquery (n : Nat) (path : Option Bytes) (protocol : List Bytes) (header : List WsHttpHeader) :
          (env.query n path protocol header).port = some (ascii "5900") := by
        rw [h]
        exact hp
      have hresolve (s : Conn φ) : ConnectsTo env s a.target ↔ a.Local := by
        show (clientResolve (env.query _ _ s.ws.protocol _)).2 = _ ↔ _
        rw [h]
        generalize hpeer : (DefaultPeer.configured l calls).query s.ws.protocol = peer
        have hport : peer.port = some (ascii "5900") := by rw [← hpeer]; exact hp
        refine clientResolve_port ?_ ?_ hport <;> rw [← hpeer]
        · exact hh
        · exact ht
      constructor
      · intro hall
        exact .inl ((hresolve ⟨{ conn := 0, wsFd := none }, { fds := [], socks := 0 }⟩).mp (hall _))
      · rintro (hlocal | hnone)
        · exact fun s => (hresolve s).mpr hlocal
        · have := hnone 0 none [] []
          rw [hquery] at this
          cases this

/-- The default backend with a host and nothing else. -/
def sampleDefaultEnv (host : Bytes) : Env Unit :=
  { sampleEnv with query := fun _ _ protocol _ =>
      (DefaultPeer.configured sampleLibrary [(ascii "host", host)]).query protocol }

theorem sampleDefaultEnv_supplies (a : SchemeAddress) : Supplies a (sampleDefaultEnv a.text) := by
  refine .defaultpeer sampleLibrary [(ascii "host", a.text)] rfl ?_ fun _ _ _ _ => rfl
  intro call hcall
  rw [List.mem_singleton.mp hcall]
  show ascii "host" ≠ ascii "port"
  decide

theorem address_resolved_sample :
    AddressResolved (sampleDefaultEnv (ascii "unix:///tmp/a:b")) (.unix (ascii "/tmp/a:b")) :=
  (address_resolved_iff _ (.unix (ascii "/tmp/a:b")) (sampleDefaultEnv_supplies _)).mpr
    (.inl trivial)

/-- The host `tcp://example.com:80` is taken for the host `example.com:80`, with port 5900. -/
theorem address_resolved_fails :
    ¬∀ (env : Env Unit) (a : SchemeAddress), Supplies a env → AddressResolved env a := by
  intro h
  have hall := h _ (.tcp ⟨ascii "example.com", by decide⟩ (ascii "80")) (sampleDefaultEnv_supplies _)
  have hresolved := hall sampleConn
  unfold ConnectsTo at hresolved
  exact absurd hresolved (by decide +kernel)

end Websocksy

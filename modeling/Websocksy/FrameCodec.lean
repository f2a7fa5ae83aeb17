import Websocksy.ClientFrame
import Websocksy.Run
import Websocksy.Lib.Rfc6455

/-!
# Encoding and decoding agree

What `ws_send_frame` writes is a frame of RFC 6455 (`decode_frameBytes`), and what it writes,
masked as a client would, `ws_frame` takes for the same opcode and payload
(`frame_codec_agrees`).  The opcode is any byte below 16 here, not only one of the enumeration.
-/

namespace Websocksy

open Buffer CString Rfc6455

variable {φ : Type}

/-- The frame header for any opcode. -/
def wsFrameHeaderRaw (opcode : UInt8) (len : Nat) : Bytes :=
  (0x80 ||| opcode) ::
    if len ≤ 125 then [len.toUInt8]
    else if len ≤ 0xFFFF then 126 :: bigEndian 2 len
    else 127 :: bigEndian 8 len

/-- `ws_send_frame` for any opcode. -/
def wsSendFrameRaw (env : Env φ) (ws : Websocket φ) (opcode : UInt8) (data : Bytes) (w : World) :
    Bool × World :=
  networkSendAll env ws.wsFd [wsFrameHeaderRaw opcode data.length, data] w

theorem wsSendFrame_raw (env : Env φ) (ws : Websocket φ) (opcode : WsOperation) (data : Bytes)
    (w : World) : wsSendFrame env ws opcode data w = wsSendFrameRaw env ws opcode.code data w := rfl

/-- The header and the payload. -/
def frameBytes (opcode : UInt8) (payload : Bytes) : Bytes :=
  wsFrameHeaderRaw opcode payload.length ++ payload

/-- The same frame from a client: the mask bit is set, and the mask inserted. -/
def maskedBytes (opcode : UInt8) (key payload : Bytes) : Bytes :=
  let header := wsFrameHeaderRaw opcode payload.length
  header.modify 1 (0x80 ||| ·) ++ (key ++ maskBytes key payload)

section

variable {opcode : UInt8} {payload key : Bytes}

theorem wsGetOp_first : ∀ n < 16, wsGetOp (0x80 ||| n.toUInt8) = n := by decide

theorem first_toNat : ∀ n < 16, (0x80 ||| n.toUInt8).toNat = 128 + n := by decide

/-- **What `ws_send_frame` writes is one frame**, whatever follows it: the FIN bit is set, the
reserved bits and the MASK bit are not, and the length has its shortest form. -/
theorem decode_frameBytes (hop : opcode < 16) (hlen : payload.length < 2 ^ 64) (rest : Bytes) :
    decode (frameBytes opcode payload ++ rest) =
      some (⟨true, 0, opcode.toNat, none, payload⟩, rest) := by
  have hop' : opcode.toNat < 16 := UInt8.lt_iff_toNat_lt.mp hop
  have hfirst : (0x80 ||| opcode).toNat = 128 + opcode.toNat := by
    have := first_toNat opcode.toNat hop'
    rwa [show opcode.toNat.toUInt8 = opcode by simp] at this
  have hframe : ∀ {second : UInt8} (ext : Bytes), second.toNat < 128 →
      payloadLength second.toNat (ext ++ (payload ++ rest)) = some (payload.length, payload ++ rest) →
      decode ((0x80 ||| opcode) :: second :: (ext ++ (payload ++ rest))) =
        some (⟨true, 0, opcode.toNat, none, payload⟩, rest) := by
    intro second ext hs hl
    rw [decode_unmasked hs hl, hfirst, show (128 + opcode.toNat) / 16 % 8 = 0 by omega,
      show (128 + opcode.toNat) % 16 = opcode.toNat by omega]
    simp
  unfold frameBytes wsFrameHeaderRaw
  split
  · next hshort =>
    have hsecond : payload.length.toUInt8.toNat = payload.length := by
      simp
      omega
    refine hframe [] (by omega) ?_
    rw [hsecond, payloadLength, if_pos hshort]
    rfl
  · split
    · next hword =>
      simp only [List.cons_append, List.append_assoc]
      refine hframe _ (by decide) ?_
      rw [payloadLength, if_neg (by decide), if_pos (by decide)]
      exact extendedLength_bigEndian _ (by omega) (by omega)
    · next hquad =>
      simp only [List.cons_append, List.append_assoc]
      refine hframe _ (by decide) ?_
      rw [payloadLength, if_neg (by decide), if_neg (by decide)]
      exact extendedLength_bigEndian _ (by omega) (by omega)

/-- The form in which `ws_send_frame` writes a length. -/
def shortestForm (len : Nat) : LengthForm :=
  if len ≤ 125 then .short else if len ≤ 0xFFFF then .word else .quad

theorem shortestForm_limit {len : Nat} (h : len < 2 ^ 64) : len ≤ (shortestForm len).limit := by
  unfold shortestForm
  split
  · assumption
  · split
    · next h2 => exact h2
    · show len ≤ 2 ^ 64 - 1
      omega

/-- The masked frame, as a frame of a client. -/
def clientFrame (opcode : UInt8) (key payload : Bytes) (hkey : key.length = 4)
    (hlen : payload.length < 2 ^ 64) : ClientFrame where
  first := 0x80 ||| opcode
  form := shortestForm payload.length
  key := key
  payload := payload
  key_length := hkey
  payload_length := shortestForm_limit hlen

theorem clientFrame_encode (hkey : key.length = 4) (hlen : payload.length < 2 ^ 64) :
    (clientFrame opcode key payload hkey hlen).encode = maskedBytes opcode key payload := by
  unfold clientFrame ClientFrame.encode ClientFrame.header maskedBytes wsFrameHeaderRaw shortestForm
  dsimp only
  split
  · rfl
  · split <;> rfl

/-- The highest bit of a length in 64 bits is not set. -/
theorem topBitClear_frameBytes (hlen : payload.length < 2 ^ 63) :
    TopBitClear (frameBytes opcode payload) := by
  unfold TopBitClear frameBytes wsFrameHeaderRaw
  split
  · next hshort =>
    intro h
    have : payload.length.toUInt8.toNat % 128 = 127 := h
    simp at this
    omega
  · split
    · intro h
      have : (126 : UInt8).toNat % 128 = 127 := h
      cases this
    · intro _
      show (payload.length / 256 ^ 7).toUInt8.toNat < 128
      simp
      omega

end

/-- **Encoding and decoding agree**: what `ws_send_frame` sends is one frame with its opcode and
payload, and where the same frame comes masked `ws_frame` reads the length, unmasks the payload,
dispatches both and returns the size. -/
theorem frame_codec_agrees (opcode : UInt8) (hop : opcode < 16) (payload : Bytes)
    (hlen : payload.length < 2 ^ 64) :
    (∀ (φ : Type) (env : Env φ) (ws : Websocket φ) (w : World) (x : Nat),
      w.sockAt ws.wsFd = some x → Sent env x w (frameBytes opcode payload)
        (wsSendFrameRaw env ws opcode payload w).1 (wsSendFrameRaw env ws opcode payload w).2) ∧
    (∀ rest, decode (frameBytes opcode payload ++ rest) =
      some (⟨true, 0, opcode.toNat, none, payload⟩, rest)) ∧
    (payload.length < 2 ^ 63 → TopBitClear (frameBytes opcode payload)) ∧
    (∀ key : Bytes, key.length = 4 → (maskedBytes opcode key payload).length ≤ wsMaxLine →
      ∀ (φ : Type) (env : Env φ) (s : Conn φ) (rest : Bytes),
        slice s.ws.readBuffer 0 s.ws.readBufferOffset = maskedBytes opcode key payload ++ rest →
        ∃ start, wsFrameLayout s.ws.readBuffer s.ws.readBufferOffset =
            some (payload.length, start) ∧
          wsFrame env s = some ((maskedBytes opcode key payload).length,
            wsDispatch env opcode.toNat payload
              ⟨{ s.ws with readBuffer := write s.ws.readBuffer start payload }, s.world⟩)) := by
  refine ⟨?_, fun rest => decode_frameBytes hop hlen rest, topBitClear_frameBytes, ?_⟩
  · intro φ env ws w x hx
    have := networkSendAll_sent env [wsFrameHeaderRaw opcode payload.length, payload] hx
    rwa [show [wsFrameHeaderRaw opcode payload.length, payload].flatten = frameBytes opcode payload by
      simp [frameBytes]] at this
  · intro key hkey hfits φ env s rest hbuffer
    have hencode : (clientFrame opcode key payload hkey hlen).encode =
        maskedBytes opcode key payload := clientFrame_encode hkey hlen
    have hop' : (clientFrame opcode key payload hkey hlen).opcode = opcode.toNat := by
      have := wsGetOp_first opcode.toNat (UInt8.lt_iff_toNat_lt.mp hop)
      rwa [show opcode.toNat.toUInt8 = opcode by simp] at this
    rw [← hencode] at hbuffer hfits ⊢
    refine ⟨_, wsFrameLayout_whole hbuffer, ?_⟩
    rw [wsFrame_whole hfits hbuffer, hop']
    rfl

theorem frame_codec_agrees_sample :
    decode ([0x81, 2, 104, 105] ++ [0x88]) = some (⟨true, 0, 1, none, [104, 105]⟩, [0x88]) ∧
    ∃ start, wsFrameLayout ([0x81, 0x82, 1, 2, 3, 4, 105, 107] ++ [0]) 8 = some (2, start) := by
  obtain ⟨-, hdecode, -, hframe⟩ := frame_codec_agrees 1 (by decide) [104, 105] (by decide)
  refine ⟨hdecode [0x88], ?_⟩
  obtain ⟨start, hlayout, -⟩ := hframe [1, 2, 3, 4] rfl (by decide) Unit sampleEnv
    ⟨{ conn := 0, wsFd := none, readBuffer := [0x81, 0x82, 1, 2, 3, 4, 105, 107] ++ [0]
       readBufferOffset := 8 }, sampleConn.world⟩ [] (by decide)
  exact ⟨start, hlayout⟩

end Websocksy

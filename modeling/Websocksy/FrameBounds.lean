import Websocksy.ClientFrame
import Websocksy.Run

/-!
# The completeness check of `ws_frame`

`ws_frame` compares the fill of the read buffer with the header size plus the length that
the client declared, a sum taken modulo 2^64.  While the sum itself stays below 2^64, a frame
that passes the check lies in the buffer, and `ws_frame` reads and writes nothing behind the
fill.
-/

namespace Websocksy

open Buffer CString

variable {φ : Type}

/-- A frame with a mask, `len` bytes of payload from `start` on, passes the check for a
complete frame: `ws_frame` goes on to unmask it. -/
structure Websocket.PassesCheck (ws : Websocket φ) (start len : Nat) : Prop where
  layout : wsFrameLayout ws.readBuffer ws.readBufferOffset = some (len, start)
  complete : (start + len) % 2 ^ 64 ≤ ws.readBufferOffset
  masked : wsGetMask (ws.readBuffer.getD 1 0) = true

/-- The payload once it is unmasked. -/
def Websocket.unmasked (ws : Websocket φ) (start len : Nat) : Bytes :=
  maskBytes (slice ws.readBuffer (start - 4) 4) (slice ws.readBuffer start len)

/-- A call of `ws_frame` that handles the `len` bytes of payload from `start` on, and stays
below the fill of the buffer. -/
structure HandlesInside (s : Conn φ) (start len : Nat) : Prop where
  /-- the frame is there, in exact arithmetic -/
  inside : start + len ≤ s.ws.readBufferOffset
  /-- the result counts header and payload -/
  count : ∀ env, ∃ t, wsFrame env s = some (start + len, t)
  /-- nothing at or behind the fill is written -/
  behind : ∀ env n t, wsFrame env s = some (n, t) →
    ∀ i, s.ws.readBufferOffset ≤ i → t.ws.readBuffer.getD i 0 = s.ws.readBuffer.getD i 0
  /-- nothing at or behind the fill is read: other bytes there change neither the result nor
  what is sent -/
  below : ∀ env b, slice b 0 s.ws.readBufferOffset = slice s.ws.readBuffer 0 s.ws.readBufferOffset →
    (wsFrame env ⟨{ s.ws with readBuffer := b }, s.world⟩).map (fun r => (r.1, r.2.world)) =
      (wsFrame env s).map fun r => (r.1, r.2.world)

section

variable {env : Env φ} {s : Conn φ} {start len : Nat}

/-- The payload starts behind at most 14 bytes of header, all of which are there, and its
length has at most 64 bits. -/
theorem wsFrameLayout_header {b : Bytes} {offset : Nat}
    (h : wsFrameLayout b offset = some (len, start)) (hm : wsGetMask (b.getD 1 0) = true) :
    4 ≤ start ∧ start ≤ 14 ∧ start ≤ offset ∧ len < 2 ^ 64 := by
  unfold wsFrameLayout at h
  simp only [hm, true_and, if_true] at h
  split at h
  · cases h
  split at h
  · cases h
  split at h
  · split at h
    · cases h
    split at h
    · cases h
    cases h
    have hlen := ofBigEndian_lt (slice b 2 2)
    rw [length_slice] at hlen
    omega
  split at h
  · split at h
    · cases h
    split at h
    · cases h
    cases h
    have hlen := ofBigEndian_lt (slice b 2 8)
    rw [length_slice] at hlen
    omega
  · cases h
    have hlen : wsGetLen (b.getD 1 0) < 2 ^ 8 := UInt8.toNat_lt _
    omega

/-- The switch over the opcode does not look at the read buffer. -/
theorem wsDispatch_buffer (env : Env φ) (op : Nat) (payload b : Bytes) (ws : Websocket φ) (w : World) :
    wsDispatch env op payload ⟨{ ws with readBuffer := b }, w⟩ =
      ⟨{ (wsDispatch env op payload ⟨ws, w⟩).ws with readBuffer := b },
        (wsDispatch env op payload ⟨ws, w⟩).world⟩ := by
  unfold wsDispatch
  by_cases hdata : op = 1 ∨ op = 2
  · simp only [if_pos hdata]
    by_cases hpeer : ws.peerFd.isSome
    · simp only [if_pos hpeer]
      cases (networkSend env ws.peerFd payload w).1 <;> rfl
    · simp only [if_neg hpeer]
  by_cases hclose : op = 8
  · simp only [if_neg hdata, if_pos hclose]
    rfl
  by_cases hping : op = 9
  · simp only [if_neg hdata, if_neg hclose, if_pos hping]
    show (if (wsSendFrame env ws .pong payload w).1 then _ else _) = _
    cases (wsSendFrame env ws .pong payload w).1 <;> rfl
  by_cases hpong : op = 10
  · simp only [if_neg hdata, if_neg hclose, if_neg hping, if_pos hpong]
  · simp only [if_neg hdata, if_neg hclose, if_neg hping, if_neg hpong]
    rfl

/-- A frame past the check whose end is no wrapped number. -/
theorem wsFrame_passes (h : s.ws.PassesCheck start len) (hexact : start + len < 2 ^ 64)
    (hoff : s.ws.readBufferOffset ≤ wsMaxLine - 1) (env : Env φ) :
    wsFrame env s = some (start + len,
      wsDispatch env (wsGetOp (s.ws.readBuffer.getD 0 0)) (s.ws.unmasked start len)
        ⟨{ s.ws with readBuffer := write s.ws.readBuffer start (s.ws.unmasked start len) }, s.world⟩) := by
  have hcomplete := h.complete
  rw [Nat.mod_eq_of_lt hexact] at hcomplete
  have hmax : wsMaxLine = 16384 := rfl
  unfold wsFrame
  rw [h.layout]
  dsimp only
  rw [Nat.mod_eq_of_lt hexact, if_neg (by omega), h.masked, if_neg (by simp), if_neg (by omega)]
  rfl

theorem HandlesInside.of_exact (h : s.ws.PassesCheck start len) (hexact : start + len < 2 ^ 64)
    (hoff : s.ws.readBufferOffset ≤ wsMaxLine - 1) : HandlesInside s start len := by
  have hinside := h.complete
  rw [Nat.mod_eq_of_lt hexact] at hinside
  obtain ⟨hkey, -, hhead, -⟩ := wsFrameLayout_header h.layout h.masked
  refine ⟨hinside, fun env => ⟨_, wsFrame_passes h hexact hoff env⟩, ?_, ?_⟩
  · intro env n t ht i hi
    rw [wsFrame_passes h hexact hoff env, wsDispatch_buffer] at ht
    cases ht
    rw [getD_write, if_neg]
    rw [Websocket.unmasked, length_maskBytes, length_slice]
    omega
  · intro env b hb
    have hsame : ∀ i k, i + k ≤ s.ws.readBufferOffset → slice b i k = slice s.ws.readBuffer i k :=
      fun i k hi => slice_of_slice hb hi
    have hbyte : ∀ i, i < s.ws.readBufferOffset → b.getD i 0 = s.ws.readBuffer.getD i 0 :=
      fun i hi => getD_of_slice hb hi
    have htwo : 1 < s.ws.readBufferOffset := by omega
    have hpasses : ({ s.ws with readBuffer := b } : Websocket φ).PassesCheck start len := by
      refine ⟨?_, h.complete, ?_⟩
      · rw [← h.layout]
        exact wsFrameLayout_congr hb
      · rw [← h.masked]
        exact congrArg wsGetMask (hbyte 1 htwo)
    rw [wsFrame_passes (s := ⟨{ s.ws with readBuffer := b }, s.world⟩) hpasses hexact hoff env,
      wsFrame_passes h hexact hoff env]
    have hpayload : ({ s.ws with readBuffer := b } : Websocket φ).unmasked start len =
        s.ws.unmasked start len := by
      unfold Websocket.unmasked
      rw [hsame (start - 4) 4 (by omega), hsame start len (by omega)]
    rw [hpayload]
    dsimp only
    rw [hbyte 0 (by omega)]
    have hworld : ∀ op payload c, (wsDispatch env op payload ⟨{ s.ws with readBuffer := c }, s.world⟩).world =
        (wsDispatch env op payload s).world := fun op payload c => by rw [wsDispatch_buffer]
    exact congrArg (fun w => some (start + len, w)) ((hworld _ _ _).trans (hworld _ _ _).symm)

/-- **A frame taken for complete lies in the buffer** exactly if no masked frame in it declares
a length with which header and payload come to 2^64 bytes or more. -/
theorem frame_inside_iff (s : Conn φ) (hoff : s.ws.readBufferOffset ≤ wsMaxLine - 1) :
    (∀ start len, s.ws.PassesCheck start len → HandlesInside s start len) ↔
      ∀ start len, wsFrameLayout s.ws.readBuffer s.ws.readBufferOffset = some (len, start) →
        wsGetMask (s.ws.readBuffer.getD 1 0) = true → start + len < 2 ^ 64 := by
  constructor
  · intro hall start len hlayout hmasked
    by_contra hwraps
    obtain ⟨-, hstart, hhead, hlen⟩ := wsFrameLayout_header hlayout hmasked
    -- what is left of the sum is less than the header
    have hmod : (start + len) % 2 ^ 64 = start + len - 2 ^ 64 := by omega
    have hinside := (hall start len ⟨hlayout, by omega, hmasked⟩).inside
    have hmax : wsMaxLine = 16384 := rfl
    omega
  · intro hexact start len h
    exact .of_exact h (hexact start len h.layout h.masked) hoff

end

/-- The first 14 bytes of a masked ping frame that declares `len` bytes of payload. -/
def samplePing (len : Nat) : Conn Unit :=
  { sampleOpen with ws := { sampleOpen.ws with
      readBuffer := [0x89, 0xFF] ++ bigEndian 8 len ++ [0, 0, 0, 0], readBufferOffset := 14 } }

theorem frame_inside_iff_sample :
    (samplePing 0).ws.readBufferOffset ≤ wsMaxLine - 1 ∧ HandlesInside (samplePing 0) 14 0 := by
  have hoff : (samplePing 0).ws.readBufferOffset ≤ wsMaxLine - 1 := by decide
  refine ⟨hoff, (frame_inside_iff (samplePing 0) hoff).mpr ?_ 14 0 ⟨by decide, by decide, by decide⟩⟩
  intro start len h _
  obtain ⟨rfl, rfl⟩ : len = 0 ∧ start = 14 := by
    simpa using ((show wsFrameLayout _ _ = some (0, 14) by decide).symm.trans h).symm
  decide

/-- The frame passes the check although almost all of it is missing, and `ws_frame` writes
behind the buffer. -/
theorem frame_inside_fails :
    (samplePing (2 ^ 64 - 14)).ws.PassesCheck 14 (2 ^ 64 - 14) ∧
    ¬HandlesInside (samplePing (2 ^ 64 - 14)) 14 (2 ^ 64 - 14) ∧
    wsFrame sampleEnv (samplePing (2 ^ 64 - 14)) = none := by
  refine ⟨⟨by decide, by decide, by decide⟩, fun h => ?_, by decide⟩
  have hinside := h.inside
  revert hinside
  decide

end Websocksy

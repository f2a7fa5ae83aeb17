import Websocksy.Effects

/-!
# Frames of a client

`ClientFrame` is a masked frame as a client writes it: any first byte, any key,
and any of the three ways to write the length that has room for it, the shortest
or not.  `ws_frame` takes a whole frame at the front of the buffer
(`wsFrame_whole`), and waits while a part of one is there (`wsFrame_part`).
-/

namespace Websocksy

open Buffer CString

variable {φ : Type}

/-! ## Encoding -/

/-- The three ways to write a payload length. -/
inductive LengthForm
  | short | word | quad
  deriving DecidableEq, Repr

/-- The largest length it can write. -/
def LengthForm.limit : LengthForm → Nat
  | .short => 125
  | .word => 2 ^ 16 - 1
  | .quad => 2 ^ 64 - 1

/-- The seven length bits of the second byte. -/
def LengthForm.field (len : Nat) : LengthForm → Nat
  | .short => len
  | .word => 126
  | .quad => 127

/-- The bytes of the length that follow the second byte. -/
def LengthForm.extension (len : Nat) : LengthForm → Bytes
  | .short => []
  | .word => bigEndian 2 len
  | .quad => bigEndian 8 len

structure ClientFrame where
  /-- the FIN bit, the reserved bits and the opcode -/
  first : UInt8
  form : LengthForm
  key : Bytes
  payload : Bytes
  key_length : key.length = 4
  payload_length : payload.length ≤ form.limit

namespace ClientFrame

def opcode (f : ClientFrame) : Nat := wsGetOp f.first

def header (f : ClientFrame) : Bytes :=
  f.first :: (0x80 ||| (f.form.field f.payload.length).toUInt8) :: f.form.extension f.payload.length

def encode (f : ClientFrame) : Bytes := f.header ++ (f.key ++ maskBytes f.key f.payload)

/-- The total size. -/
def size (f : ClientFrame) : Nat := f.encode.length

end ClientFrame

@[simp] theorem length_maskBytes (key payload : Bytes) :
    (maskBytes key payload).length = payload.length := by simp [maskBytes]

/-- Masking twice is nothing. -/
theorem maskBytes_maskBytes (key payload : Bytes) :
    maskBytes key (maskBytes key payload) = payload := by
  unfold maskBytes
  apply List.ext_getElem
  · simp
  · intro i h1 h2
    have hxor (k : UInt8) : payload[i] ^^^ k ^^^ k = payload[i] := by
      rw [UInt8.xor_assoc, UInt8.xor_self, UInt8.xor_zero]
    rw [List.getElem_mapIdx, List.getElem_mapIdx]
    exact hxor _

/-- The second byte of a masked frame. -/
theorem wsGet_masked :
    ∀ n < 128, wsGetMask (0x80 ||| n.toUInt8) = true ∧ wsGetLen (0x80 ||| n.toUInt8) = n := by
  decide

section

variable (f : ClientFrame)

theorem ClientFrame.size_eq : f.size = f.header.length + 4 + f.payload.length := by
  unfold size encode
  simp only [List.length_append, f.key_length, length_maskBytes]
  omega

theorem ClientFrame.field_lt : f.form.field f.payload.length < 128 := by
  have := f.payload_length
  cases h : f.form <;> rw [h] at this <;> simp only [LengthForm.limit, LengthForm.field] at this ⊢ <;>
    omega

end

/-! ## The layout -/

/-- Equal ranges have equal bytes. -/
theorem getD_of_slice {b c : Bytes} {n i : Nat} (h : slice b 0 n = slice c 0 n) (hi : i < n) :
    b.getD i 0 = c.getD i 0 := by
  have := congrArg (fun l : Bytes => l.getD i 0) h
  simpa only [getD_slice, if_pos hi, Nat.zero_add] using this

theorem slice_of_slice {b c : Bytes} {n i k : Nat} (h : slice b 0 n = slice c 0 n)
    (hi : i + k ≤ n) : slice b i k = slice c i k := by
  apply slice_ext
  intro j hj
  exact getD_of_slice h (by omega)

/-- The layout is read off the bytes that are there. -/
theorem wsFrameLayout_congr {b c : Bytes} {n : Nat} (h : slice b 0 n = slice c 0 n) :
    wsFrameLayout b n = wsFrameLayout c n := by
  unfold wsFrameLayout
  by_cases h2 : n < 2
  · simp [h2]
  · have h1 : b.getD 1 0 = c.getD 1 0 := getD_of_slice h (by omega)
    simp only [h1]
    by_cases h4 : n < 4
    · simp [h4, show n < 10 by omega]
    · rw [slice_of_slice h (i := 2) (k := 2) (by omega)]
      by_cases h10 : n < 10
      · simp [h10]
      · rw [slice_of_slice h (i := 2) (k := 8) (by omega)]

/-- More bytes do not change a layout already read. -/
theorem wsFrameLayout_mono {b : Bytes} {m n : Nat} {r : Nat × Nat} (hm : m ≤ n)
    (h : wsFrameLayout b m = some r) : wsFrameLayout b n = some r := by
  unfold wsFrameLayout at h ⊢
  dsimp only at h ⊢
  split at h
  · cases h
  · next h2 =>
    rw [if_neg (by omega)]
    split at h
    · cases h
    · next h6 =>
      rw [if_neg fun hn => h6 ⟨hn.1, by omega⟩]
      split at h
      · next h126 =>
        rw [if_pos h126]
        split at h
        · cases h
        · next h4 =>
          rw [if_neg (by omega)]
          split at h
          · cases h
          · next h8 =>
            rw [if_neg fun hn => h8 ⟨hn.1, by omega⟩]
            exact h
      · next h126 =>
        rw [if_neg h126]
        split at h
        · next h127 =>
          rw [if_pos h127]
          split at h
          · cases h
          · next h10 =>
            rw [if_neg (by omega)]
            split at h
            · cases h
            · next h14 =>
              rw [if_neg fun hn => h14 ⟨hn.1, by omega⟩]
              exact h
        · next h127 =>
          rw [if_neg h127]
          exact h

/-- A range of a buffer that begins with known bytes. -/
theorem slice_of_append {b p q : Bytes} {n : Nat} (h : slice b 0 n = p ++ q) :
    slice b p.length q.length = q := by
  have hlen : n = p.length + q.length := by
    have := congrArg List.length h
    simpa using this
  rw [hlen, slice_add, Nat.zero_add] at h
  exact (List.append_inj h (by simp)).2

theorem slice_prefix {b p q : Bytes} {n : Nat} (h : slice b 0 n = p ++ q) :
    slice b 0 p.length = p := by
  have hlen : n = p.length + q.length := by
    have := congrArg List.length h
    simpa using this
  rw [hlen, slice_add, Nat.zero_add] at h
  exact (List.append_inj h (by simp)).1

section

variable {f : ClientFrame} {b rest : Bytes} {n : Nat}

/-- The parts of a frame at the front of the buffer. -/
theorem ClientFrame.parts (h : slice b 0 n = f.encode ++ rest) :
    slice b 0 f.header.length = f.header ∧ slice b f.header.length 4 = f.key ∧
    slice b (f.header.length + 4) f.payload.length = maskBytes f.key f.payload ∧
    n = f.size + rest.length := by
  have hlen : n = f.size + rest.length := by
    have := congrArg List.length h
    simpa [ClientFrame.size] using this
  have h1 := slice_prefix h
  unfold encode at h1
  have h2 := slice_prefix h1
  have h3 := slice_of_append h1
  rw [List.length_append, f.key_length, slice_add] at h3
  obtain ⟨h4, h5⟩ := List.append_inj h3 (by rw [length_slice, f.key_length])
  rw [length_maskBytes] at h5
  exact ⟨h2, h4, h5, hlen⟩

/-- The layout of a whole frame. -/
theorem wsFrameLayout_whole (h : slice b 0 n = f.encode ++ rest) :
    wsFrameLayout b n = some (f.payload.length, f.header.length + 4) := by
  obtain ⟨hheader, -, -, hn⟩ := ClientFrame.parts h
  have hsize := f.size_eq
  have hlen : f.header.length = 2 + (f.form.extension f.payload.length).length := by
    simp [ClientFrame.header]
    omega
  have hsecond : b.getD 1 0 = 0x80 ||| (f.form.field f.payload.length).toUInt8 := by
    have := congrArg (fun l : Bytes => l.getD 1 0) hheader
    rwa [getD_slice, if_pos (by omega)] at this
  have hext : slice b 2 (f.form.extension f.payload.length).length =
      f.form.extension f.payload.length := by
    have hsplit : slice b 0 2 ++ slice b 2 (f.form.extension f.payload.length).length =
        [f.first, 0x80 ||| (f.form.field f.payload.length).toUInt8] ++
          f.form.extension f.payload.length := by
      rw [hlen, slice_add] at hheader
      exact hheader
    exact (List.append_inj hsplit (by simp)).2
  obtain ⟨hmask, hget⟩ := wsGet_masked _ f.field_lt
  have hp := f.payload_length
  cases hform : f.form with
  | short =>
      have hfield : f.form.field f.payload.length = f.payload.length := by rw [hform]; rfl
      have hlimit : f.payload.length ≤ 125 := by rw [hform] at hp; exact hp
      have hsix : f.header.length = 2 := by rw [hlen, hform]; rfl
      rw [hfield] at hsecond hmask hget
      unfold wsFrameLayout
      simp only [hsecond, hmask, hget, true_and, if_true]
      rw [if_neg (by omega), if_neg (by omega), if_neg (by omega), if_neg (by omega), hsix]
  | word =>
      have hfield : f.form.field f.payload.length = 126 := by rw [hform]; rfl
      have hlimit : f.payload.length ≤ 2 ^ 16 - 1 := by rw [hform] at hp; exact hp
      have hfour : f.header.length = 4 := by
        rw [hlen, hform]
        simp [LengthForm.extension]
      rw [hform] at hext
      simp only [LengthForm.extension, length_bigEndian] at hext
      rw [hfield] at hsecond hmask hget
      unfold wsFrameLayout
      simp only [hsecond, hmask, hget, true_and, if_true]
      rw [if_neg (by omega), if_neg (by omega), if_neg (by omega), if_neg (by omega), hext,
        ofBigEndian_bigEndian, Nat.mod_eq_of_lt (by omega), hfour]
  | quad =>
      have hfield : f.form.field f.payload.length = 127 := by rw [hform]; rfl
      have hlimit : f.payload.length ≤ 2 ^ 64 - 1 := by rw [hform] at hp; exact hp
      have hten : f.header.length = 10 := by
        rw [hlen, hform]
        simp [LengthForm.extension]
      rw [hform] at hext
      simp only [LengthForm.extension, length_bigEndian] at hext
      rw [hfield] at hsecond hmask hget
      unfold wsFrameLayout
      simp only [hsecond, hmask, hget, true_and, if_true]
      rw [if_neg (by omega), if_neg (by omega), if_neg (by decide), if_neg (by omega),
        if_neg (by omega), hext, ofBigEndian_bigEndian, Nat.mod_eq_of_lt (by omega), hten]

end

/-! ## `ws_frame` -/

section

variable {env : Env φ} {s : Conn φ} {f : ClientFrame}

/-- A whole frame at the front of the buffer is unmasked and dispatched. -/
theorem wsFrame_whole {rest : Bytes} (hsize : f.size ≤ wsMaxLine)
    (h : slice s.ws.readBuffer 0 s.ws.readBufferOffset = f.encode ++ rest) :
    wsFrame env s = some (f.size, wsDispatch env f.opcode f.payload
      ⟨{ s.ws with readBuffer := write s.ws.readBuffer (f.header.length + 4) f.payload }, s.world⟩) := by
  obtain ⟨hheader, hkey, hmasked, hn⟩ := ClientFrame.parts h
  have hsum := f.size_eq
  have hmax : wsMaxLine = 16384 := rfl
  have hlen : f.header.length = 2 + (f.form.extension f.payload.length).length := by
    simp [ClientFrame.header]
    omega
  have hfirst : s.ws.readBuffer.getD 0 0 = f.first := by
    have := congrArg (fun l : Bytes => l.getD 0 0) hheader
    rwa [getD_slice, if_pos (by omega)] at this
  have hsecond : s.ws.readBuffer.getD 1 0 = 0x80 ||| (f.form.field f.payload.length).toUInt8 := by
    have := congrArg (fun l : Bytes => l.getD 1 0) hheader
    rwa [getD_slice, if_pos (by omega)] at this
  have hmask := (wsGet_masked _ f.field_lt).1
  unfold wsFrame
  rw [wsFrameLayout_whole h]
  simp only [hsecond, hmask, hfirst, Nat.add_sub_cancel, hkey, hmasked, maskBytes_maskBytes]
  rw [Nat.mod_eq_of_lt (by omega), if_neg (by omega), if_neg (by simp), if_neg (by omega), ← hsum]
  rfl

/-- While a frame is not complete, nothing is done. -/
theorem wsFrame_part {p : Bytes} (hsize : f.size ≤ wsMaxLine) (hp : p <+: f.encode)
    (hlt : p.length < f.size) (h : slice s.ws.readBuffer 0 s.ws.readBufferOffset = p) :
    wsFrame env s = some (0, s) := by
  have hoff : s.ws.readBufferOffset = p.length := by rw [← h, length_slice]
  have hmax : wsMaxLine = 16384 := rfl
  unfold wsFrame
  cases hl : wsFrameLayout s.ws.readBuffer s.ws.readBufferOffset with
  | none => rfl
  | some r =>
      -- the header is there, so the length is that of the frame
      have hagree : slice s.ws.readBuffer 0 s.ws.readBufferOffset =
          slice f.encode 0 s.ws.readBufferOffset := by
        rw [h, hoff, slice_eq_take _ _ hp.length_le]
        exact List.prefix_iff_eq_take.mp hp
      rw [wsFrameLayout_congr hagree] at hl
      have hwhole := wsFrameLayout_mono (n := f.size) (by omega) hl
      have hself : slice f.encode 0 f.size = f.encode ++ [] := by simp [ClientFrame.size]
      rw [wsFrameLayout_whole hself] at hwhole
      cases hwhole
      have := f.size_eq
      dsimp only
      rw [Nat.mod_eq_of_lt (by omega), if_pos (by omega)]

end

end Websocksy

import Websocksy.FrameBounds

/-!
# What `ws_frame` accepts

`ws_frame` takes bytes from the buffer just if a frame of a client stands there, and then it takes
that frame (`frame_accepted_iff`).  No frame is the beginning of another, so the frames of a byte
string are given by the bytes (`streams_agree`).
-/

namespace Websocksy

open Buffer CString

variable {φ : Type}

/-! ## Frames tell each other apart -/

/-- A masked second byte is its mask bit and its seven length bits. -/
theorem wsGetLen_masked : ∀ n < 256, wsGetMask n.toUInt8 = true →
    (0x80 ||| (wsGetLen n.toUInt8).toUInt8) = n.toUInt8 := by
  decide +kernel

theorem second_byte (a : UInt8) (h : wsGetMask a = true) : (0x80 ||| (wsGetLen a).toUInt8) = a := by
  have hbyte := wsGetLen_masked a.toNat a.toNat_lt
  rw [show a.toNat.toUInt8 = a by simp] at hbyte
  exact hbyte h

theorem ClientFrame.length_header (f : ClientFrame) :
    f.header.length = 2 + (f.form.extension f.payload.length).length := by
  simp [ClientFrame.header]
  omega

/-- The form of a length is known from the size of the header. -/
theorem form_of_length {p q : LengthForm} {m n : Nat}
    (h : (p.extension m).length = (q.extension n).length) : p = q := by
  cases p <;> cases q <;> simp_all [LengthForm.extension]

/-- **No frame begins another**: what begins with a frame begins with no other frame. -/
theorem encode_append_inj {f g : ClientFrame} {a b : Bytes}
    (h : f.encode ++ a = g.encode ++ b) : f = g ∧ a = b := by
  have hf := wsFrameLayout_whole (f := f) (slice_self (f.encode ++ a))
  have hg := wsFrameLayout_whole (f := g) ((slice_self (f.encode ++ a)).trans h)
  rw [hf, Option.some.injEq, Prod.mk.injEq] at hg
  obtain ⟨hpayload, hstart⟩ := hg
  have hsize : f.encode.length = g.encode.length := by
    show f.size = g.size
    rw [f.size_eq, g.size_eq]
    omega
  obtain ⟨hencode, hrest⟩ := List.append_inj h hsize
  unfold ClientFrame.encode at hencode
  obtain ⟨hheader, hbody⟩ := List.append_inj hencode (by omega)
  obtain ⟨hkey, hmasked⟩ := List.append_inj hbody (by rw [f.key_length, g.key_length])
  have hplain : f.payload = g.payload := by
    have := congrArg (maskBytes f.key) hmasked
    rwa [maskBytes_maskBytes, hkey, maskBytes_maskBytes] at this
  have hform : f.form = g.form := by
    have hlen := congrArg List.length hheader
    rw [f.length_header, g.length_header] at hlen
    exact form_of_length (m := f.payload.length) (n := g.payload.length) (by omega)
  have hfirst : f.first = g.first := by
    unfold ClientFrame.header at hheader
    exact (List.cons.inj hheader).1
  refine ⟨?_, hrest⟩
  obtain ⟨first, form, key, payload, _, _⟩ := f
  obtain ⟨first', form', key', payload', _, _⟩ := g
  dsimp only at hfirst hform hkey hplain
  subst hfirst hform hkey hplain
  rfl

/-- No whole frame stands at the front. -/
def NoFrame (b : Bytes) : Prop := ∀ f : ClientFrame, ¬f.encode <+: b

/-- **The frames of a stream are given by its bytes**, where what follows them is not one more. -/
theorem streams_agree {fs gs : List ClientFrame} {a b : Bytes} (ha : NoFrame a) (hb : NoFrame b)
    (h : fs.flatMap (·.encode) ++ a = gs.flatMap (·.encode) ++ b) : fs = gs ∧ a = b := by
  induction fs generalizing gs with
  | nil =>
      cases gs with
      | nil => exact ⟨rfl, h⟩
      | cons g gs =>
          rw [List.flatMap_cons, List.append_assoc] at h
          exact absurd ⟨_, h.symm⟩ (ha g)
  | cons f fs ih =>
      cases gs with
      | nil =>
          rw [List.flatMap_cons, List.append_assoc] at h
          exact absurd ⟨_, h⟩ (hb f)
      | cons g gs =>
          rw [List.flatMap_cons, List.flatMap_cons, List.append_assoc, List.append_assoc] at h
          obtain ⟨rfl, hrest⟩ := encode_append_inj h
          obtain ⟨rfl, hab⟩ := ih hrest
          exact ⟨rfl, hab⟩

/-! ## A frame from its layout -/

section

variable {b : Bytes} {n len start : Nat}

/-- The frame whose header gives the layout, in the bytes of which `len` from `start` on are the
payload. -/
theorem frame_of_header (form : LengthForm) (hlen : len ≤ form.limit)
    (hstart : start = 2 + (form.extension len).length + 4)
    (hsecond : b.getD 1 0 = 0x80 ||| (form.field len).toUInt8)
    (hext : slice b 2 (form.extension len).length = form.extension len) :
    ∃ f : ClientFrame, f.encode = slice b 0 (start + len) := by
  refine ⟨⟨b.getD 0 0, form, slice b (start - 4) 4,
    maskBytes (slice b (start - 4) 4) (slice b start len), by simp, by simpa using hlen⟩, ?_⟩
  have hheader : slice b 0 (start - 4) =
      b.getD 0 0 :: (0x80 ||| (form.field len).toUInt8) :: form.extension len := by
    rw [show start - 4 = (form.extension len).length + 1 + 1 by omega, slice_succ, slice_succ,
      ← hsecond, hext]
  unfold ClientFrame.encode ClientFrame.header
  dsimp only
  rw [length_maskBytes, length_slice, maskBytes_maskBytes, ← hheader,
    show start + len = start - 4 + (4 + len) by omega, slice_add, slice_add, Nat.zero_add,
    show start - 4 + 4 = start by omega]

/-- What the check for a complete frame lets through is a frame. -/
theorem frame_of_layout (h : wsFrameLayout b n = some (len, start))
    (hm : wsGetMask (b.getD 1 0) = true) :
    ∃ f : ClientFrame, f.encode = slice b 0 (start + len) := by
  have hbyte := second_byte _ hm
  unfold wsFrameLayout at h
  simp only [hm, true_and, if_true] at h
  split at h
  · cases h
  split at h
  · cases h
  split at h
  · next h126 =>
    split at h
    · cases h
    split at h
    · cases h
    cases h
    rw [h126] at hbyte
    have hlt := ofBigEndian_lt (slice b 2 2)
    have hback := bigEndian_ofBigEndian (slice b 2 2)
    rw [length_slice] at hlt hback
    refine frame_of_header .word ?_ ?_ hbyte.symm ?_
    · show ofBigEndian (slice b 2 2) ≤ 2 ^ 16 - 1
      omega
    · simp [LengthForm.extension]
    · simp only [LengthForm.extension, length_bigEndian]
      exact hback.symm
  split at h
  · next h127 =>
    split at h
    · cases h
    split at h
    · cases h
    cases h
    rw [h127] at hbyte
    have hlt := ofBigEndian_lt (slice b 2 8)
    have hback := bigEndian_ofBigEndian (slice b 2 8)
    rw [length_slice] at hlt hback
    refine frame_of_header .quad ?_ ?_ hbyte.symm ?_
    · show ofBigEndian (slice b 2 8) ≤ 2 ^ 64 - 1
      omega
    · simp [LengthForm.extension]
    · simp only [LengthForm.extension, length_bigEndian]
      exact hback.symm
  · next h126 h127 =>
    cases h
    have hseven : ∀ n < 256, wsGetLen n.toUInt8 < 128 := by decide +kernel
    have hlt := hseven (b.getD 1 0).toNat (b.getD 1 0).toNat_lt
    rw [show (b.getD 1 0).toNat.toUInt8 = b.getD 1 0 by simp] at hlt
    refine frame_of_header .short ?_ rfl hbyte.symm rfl
    show wsGetLen (b.getD 1 0) ≤ 125
    omega

end

/-! ## A call of `ws_frame` -/

/-- What a call of `ws_frame` comes to. -/
inductive FrameTaken (env : Env φ) (s : Conn φ) : Nat × Conn φ → Prop
  | taken (f : ClientFrame) (rest : Bytes) (h : s.ws.live = f.encode ++ rest) :
      FrameTaken env s (f.size, wsDispatch env f.opcode f.payload
        ⟨{ s.ws with readBuffer := write s.ws.readBuffer (f.header.length + 4) f.payload }, s.world⟩)
  | waits (h : NoFrame s.ws.live) : FrameTaken env s (0, s)
  | refused (h : NoFrame s.ws.live) :
      FrameTaken env s (0, wsClose env .proto (some (ascii "Unmasked client frame")) s)

section

variable {env : Env φ} {s t : Conn φ} {n : Nat}

/-- The layout of a frame at the front of the buffer. -/
theorem layout_of_frame {f : ClientFrame} (h : f.encode <+: s.ws.live) :
    wsFrameLayout s.ws.readBuffer s.ws.readBufferOffset =
      some (f.payload.length, f.header.length + 4) ∧
    wsGetMask (s.ws.readBuffer.getD 1 0) = true ∧ f.size ≤ s.ws.readBufferOffset := by
  obtain ⟨rest, hrest⟩ := h
  obtain ⟨hheader, -, -, hn⟩ := ClientFrame.parts hrest.symm
  have hlen := f.length_header
  refine ⟨wsFrameLayout_whole hrest.symm, ?_, by omega⟩
  have hsecond := congrArg (fun l : Bytes => l.getD 1 0) hheader
  rw [getD_slice, if_pos (by omega), Nat.zero_add] at hsecond
  rw [hsecond]
  exact (wsGet_masked _ f.field_lt).1

theorem wsFrame_taken (hoff : s.ws.readBufferOffset ≤ wsMaxLine - 1)
    (h : wsFrame env s = some (n, t)) : FrameTaken env s (n, t) := by
  have hmax : wsMaxLine = 16384 := rfl
  have hsmall : s.ws.readBufferOffset < 2 ^ 64 := Nat.lt_of_le_of_lt hoff (by decide)
  have h0 := h
  unfold wsFrame at h
  split at h
  · next hl =>
    cases h
    refine .waits ?_
    intro f hf
    rw [(layout_of_frame hf).1] at hl
    cases hl
  · next len start hl =>
    split at h
    · next hpart =>
      cases h
      refine .waits ?_
      intro f hf
      obtain ⟨hlayout, -, hsize⟩ := layout_of_frame hf
      rw [hl] at hlayout
      cases hlayout
      have := f.size_eq
      rw [Nat.mod_eq_of_lt (by omega)] at hpart
      omega
    · next hwhole =>
      split at h
      · next hmask =>
        cases h
        refine .refused ?_
        intro f hf
        rw [(layout_of_frame hf).2.1] at hmask
        cases hmask
      · next hmask =>
        split at h
        · cases h
        · next hfits =>
          have hmask : wsGetMask (s.ws.readBuffer.getD 1 0) = true := by simpa using hmask
          rw [Nat.mod_eq_of_lt (by omega)] at hwhole
          obtain ⟨f, hf⟩ := frame_of_layout hl hmask
          have hlive : s.ws.live = f.encode ++
              slice s.ws.readBuffer (start + len) (s.ws.readBufferOffset - (start + len)) := by
            unfold Websocket.live
            conv => lhs; rw [show s.ws.readBufferOffset =
              start + len + (s.ws.readBufferOffset - (start + len)) by omega, slice_add, Nat.zero_add]
            rw [hf]
          have hsize : f.size = start + len := by
            unfold ClientFrame.size
            rw [hf, length_slice]
          rw [wsFrame_whole (by omega) hlive] at h0
          cases h0
          exact .taken f _ hlive

/-- **`ws_frame` accepts frames and nothing else**: it takes bytes from the buffer exactly if they
are a masked frame of a client, of which there is then one at the front, and it does what the
opcode and the payload of this frame say. -/
theorem frame_accepted_iff (env : Env φ) (s : Conn φ)
    (hoff : s.ws.readBufferOffset ≤ wsMaxLine - 1) (n : Nat) (t : Conn φ) :
    wsFrame env s = some (n, t) ∧ 0 < n ↔
      ∃ f rest, s.ws.live = f.encode ++ rest ∧
        (∀ g rest', s.ws.live = ClientFrame.encode g ++ rest' → g = f ∧ rest' = rest) ∧
        n = f.size ∧ t = wsDispatch env f.opcode f.payload
          ⟨{ s.ws with readBuffer := write s.ws.readBuffer (f.header.length + 4) f.payload },
            s.world⟩ := by
  constructor
  · rintro ⟨h, hn⟩
    have htaken := wsFrame_taken hoff h
    generalize hr : (n, t) = r at htaken
    cases htaken with
    | taken f rest hlive =>
        cases hr
        refine ⟨f, rest, hlive, ?_, rfl, rfl⟩
        intro g rest' hg
        exact encode_append_inj (hg.symm.trans hlive)
    | waits h =>
        cases hr
        omega
    | refused h =>
        cases hr
        omega
  · rintro ⟨f, rest, hlive, -, rfl, rfl⟩
    have hsize : f.size ≤ s.ws.readBufferOffset := (layout_of_frame ⟨rest, hlive.symm⟩).2.2
    have hsum := f.size_eq
    refine ⟨wsFrame_whole (by omega) hlive, by omega⟩

end

/-- A ping frame without a payload. -/
theorem frame_accepted_iff_sample :
    ∃ f rest, (samplePing 0).ws.live = ClientFrame.encode f ++ rest ∧ 14 = f.size := by
  have hoff : (samplePing 0).ws.readBufferOffset ≤ wsMaxLine - 1 := by decide
  have hpass : (samplePing 0).ws.PassesCheck 14 0 := ⟨by decide, by decide, by decide⟩
  have htaken : ∃ t, wsFrame sampleEnv (samplePing 0) = some (14, t) :=
    (HandlesInside.of_exact hpass (by decide) hoff).count sampleEnv
  obtain ⟨t, ht⟩ := htaken
  obtain ⟨f, rest, hlive, -, hsize, -⟩ :=
    (frame_accepted_iff sampleEnv (samplePing 0) hoff 14 t).mp ⟨ht, by decide⟩
  exact ⟨f, rest, hlive, hsize⟩

end Websocksy

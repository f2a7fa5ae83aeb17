import Websocksy.Dynamic32
import Websocksy.Framed
import Websocksy.Lib.Greedy

/-!
# Framing by length

A framing function may know the length of a segment from its first bytes.  Then
`ws_peer_data` cuts the peer's stream greedily, whatever the reads are
(`length_framing_segmented`).  `fixedlength` and `dynamic32` are such functions.
-/

namespace Websocksy

open Buffer CString Greedy

variable {φ : Type}

/-- On the stream, `f` frames a piece that starts where the greedy segmentation cuts exactly if
all of it is there.  `I` is what the framing data is kept to. -/
structure LengthDetermined (f : WsFraming φ) (config : Option Bytes) (I : Option φ → Prop)
    (stream : Nat → UInt8) (size : Nat → Nat) : Prop where
  pos : ∀ m, 0 < size (cut size m)
  fits : ∀ m, size (cut size m) ≤ peerBufferSize - 1
  value : ∀ m buffer length lastRead opcode framingData, I framingData →
    length ≤ peerBufferSize - 1 → slice buffer 0 length = window stream (cut size m) length →
    (f (some buffer) length lastRead (some opcode) framingData config).1 =
      if size (cut size m) ≤ length then (size (cut size m) : Int) else 0
  keeps : ∀ m buffer length lastRead opcode framingData, I framingData →
    length ≤ peerBufferSize - 1 → slice buffer 0 length = window stream (cut size m) length →
    I (f (some buffer) length lastRead (some opcode) framingData config).2.2

/-- The bytes received up to `n` are cut into the pieces before `m` and what is in the buffer. -/
structure CutAt (I : Option φ → Prop) (stream : Nat → UInt8) (size : Nat → Nat) (y : Nat)
    (head : Bytes) (n m : Nat) (s : Conn φ) : Prop where
  starts : cut size m ≤ n
  ends : n < cut size (m + 1)
  segments : (segments s.ws.conn s.world.log).map (·.2) = pieces stream size m
  written : written y s.world.log = head ++ framesSent (Websocksy.segments s.ws.conn s.world.log)
  live : s.ws.peerLive = window stream (cut size m) (n - cut size m)
  offset : s.ws.peerBufferOffset = n - cut size m
  framingData : I s.ws.peerFramingData

section

variable {env : Env φ} {f : WsFraming φ} {config : Option Bytes} {I : Option φ → Prop}
  {stream : Nat → UInt8} {size : Nat → Nat} {c : FramingCall φ} {x y : Nat} {s t : Conn φ}

/-- From the start of a piece on, the complete pieces are taken. -/
theorem LengthDetermined.framed (h : LengthDetermined f config I stream size) (m : Nat)
    (hlive : c.live = window stream (cut size m) c.length) (hoff : c.offset < size (cut size m))
    (hlen : c.length ≤ peerBufferSize - 1) (hI : I c.framingData) :
    ∃ segs rest m', c.Framed f config segs rest ∧ 
      (pieces stream size m ++ segs.map (·.2)) = pieces stream size m' ∧
      cut size m + c.length = cut size m' + rest.length ∧ rest.length < size (cut size m') ∧
      rest.live = window stream (cut size m') rest.length ∧ I rest.framingData := by
  induction hn : c.length using Nat.strongRecOn generalizing c m with
  | ind n ih =>
      have hvalue := h.value m c.buffer c.length c.bytesRead c.opcode c.framingData hI hlen hlive
      have hkeeps := h.keeps m c.buffer c.length c.bytesRead c.opcode c.framingData hI hlen hlive
      by_cases hle : size (cut size m) ≤ c.length
      · rw [if_pos hle] at hvalue
        obtain ⟨op, seg, rest, again, htake, hk⟩ :=
          FramingCall.take_pos hvalue (h.pos m) hle
        have hcount := hk.length
        have hseg : seg.length = size (cut size m) := by rw [hk.data, length_slice]
        rw [hk.live] at hlive
        obtain ⟨hpiece, hrest, -⟩ := window_append hlive
        rw [hseg] at hpiece hrest
        have hlen' : rest.live.length = rest.length := length_slice _ _ _
        rw [hlen'] at hrest
        have hI' : I rest.framingData := by
          rw [hk.framingData]
          exact hkeeps
        cases again with
        | false =>
            have hlast := hk.again
            simp only [Bool.false_eq_true, false_iff] at hlast
            refine ⟨_, rest, m + 1, .last c op seg rest htake, ?_, ?_, ?_, hrest, hI'⟩
            · rw [pieces_succ, hpiece]
              rfl
            · rw [cut]
              omega
            · have := h.pos (m + 1)
              omega
        | true =>
            have hoff' := hk.offset
            have := h.pos (m + 1)
            obtain ⟨segs, last, m', hframed, hsegs, hcut, hless, hlive', hlast⟩ :=
              ih rest.length (by have := h.pos m; omega) (c := rest) (m + 1) hrest (by omega)
                (by omega) hI' rfl
            refine ⟨_, last, m', .again c op seg rest segs last htake hframed, ?_, ?_, hless, hlive',
              hlast⟩
            · rw [← hsegs, pieces_succ, hpiece]
              simp [piece]
            · rw [cut] at hcut
              omega
      · rw [if_neg hle] at hvalue
        refine ⟨[], _, m, .declined _ _ (FramingCall.take_zero hvalue), by simp, ?_, ?_, hlive, hkeeps⟩
        · rw [← hn]
          rfl
        · exact Nat.lt_of_not_le hle

/-- The `recv` of the call gives the next bytes of the stream. -/
def StreamRead (stream : Nat → UInt8) (x : Nat) (s : Conn φ) (b : Bytes) : Prop :=
  let data := b.take (peerBufferSize - s.ws.peerBufferOffset - 1)
  data ≠ [] ∧ data = window stream (received x s.world.log).length data.length

/-- One read: the pieces that are now complete are sent. -/
theorem CutAt.read {head : Bytes} {n m : Nat} (h : LengthDetermined f config I stream size)
    (hs : CutAt I stream size y head n m s) (hsend : ∀ k, env.send y k ≠ none) (hp : Peered f x y s)
    (hconfig : s.ws.peer.framingConfig = config) {fuel : Nat} (hfuel : peerBufferSize ≤ fuel)
    {b data : Bytes} (hd : b.take (peerBufferSize - s.ws.peerBufferOffset - 1) = data)
    (hne : data ≠ []) (hdata : data = window stream n data.length) :
    ∃ t, wsPeerData env fuel (some b) s = some (false, t) ∧ Peered f x y t ∧
      t.ws.peer = s.ws.peer ∧ t.ws.conn = s.ws.conn ∧
      received x t.world.log = received x s.world.log ++ data ∧
      ∃ m', CutAt I stream size y head (n + data.length) m' t := by
  have hsize : peerBufferSize = 16384 := rfl
  have hless := hs.ends
  rw [cut] at hless
  have hfits := h.fits m
  have hstarts := hs.starts
  have hoff := hs.offset
  have hlen : data.length ≤ peerBufferSize - s.ws.peerBufferOffset - 1 := by
    rw [← hd, List.length_take]
    omega
  have hcount : (s.firstCall data).length = n - cut size m + data.length := by
    rw [← hoff]
    rfl
  have hlive : (s.firstCall data).live = window stream (cut size m) (s.firstCall data).length := by
    rw [firstCall_live, hs.live, hcount, window_add, Nat.add_sub_cancel' hstarts, ← hdata]
  obtain ⟨segs, rest, m', hframed, hsegs, hcut, hrest, hlive', hI⟩ := h.framed m hlive
    (by show s.ws.peerBufferOffset < _; omega) (by omega) hs.framingData
  rw [← hconfig] at hframed
  obtain ⟨t, ht, hread⟩ := wsPeerData_framed hsend hp fuel hd hne (by omega) hframed
  refine ⟨t, ht, hread.peered, hread.peer, hread.conn, by simpa using hread.received, m', ?_⟩
  refine ⟨by omega, by rw [cut]; omega, ?_, ?_, ?_, ?_, ?_⟩
  · rw [hread.conn, hread.segments, List.map_append, hs.segments, hsegs]
  · rw [hread.written, hread.conn, hread.segments, hs.written]
    simp [framesSent]
  · rw [hread.live, hlive']
    congr 1
    omega
  · rw [hread.offset]
    omega
  · rw [hread.framingData]
    exact hI

/-- In every run of reads of the stream, the frames sent after each of them are those of the
pieces complete by then in the greedy segmentation, and the incomplete tail is in the buffer,
with room for more. -/
def GreedilyCut (env : Env φ) (fuel : Nat) (f : WsFraming φ) (config : Option Bytes)
    (I : Option φ → Prop) (stream : Nat → UInt8) (size : Nat → Nat) : Prop :=
  ∀ x y, (∀ k, env.send y k ≠ none) → ∀ start : Conn φ, FreshPeer f x y start →
    start.ws.peer.framingConfig = config → I start.ws.peerFramingData →
    ∀ s, (peerCalls env fuel start).Reach (StreamRead stream x) s →
      let n := (received x s.world.log).length
      received x s.world.log = window stream 0 n ∧
      (∃ m, CutAt I stream size y (written y start.world.log) n m s) ∧
      s.ws.peerBufferOffset < peerBufferSize - 1 ∧
      ∀ b, StreamRead stream x s b → ∃ t, wsPeerData env fuel (some b) s = some (false, t)

theorem LengthDetermined.greedilyCut (hf : LengthDetermined f config I stream size) (env : Env φ)
    {fuel : Nat} (hfuel : peerBufferSize ≤ fuel) :
    GreedilyCut env fuel f config I stream size := by
  intro x y hsend start hstart hconfig hI s h
  have hinv : Peered f x y s ∧ s.ws.peer.framingConfig = config ∧
      received x s.world.log = window stream 0 (received x s.world.log).length ∧
      ∃ m, CutAt I stream size y (written y start.world.log) (received x s.world.log).length m s := by
    refine h.invariant (P := fun s => Peered f x y s ∧ s.ws.peer.framingConfig = config ∧
      received x s.world.log = window stream 0 (received x s.world.log).length ∧
      ∃ m, CutAt I stream size y (written y start.world.log) (received x s.world.log).length m s)
      ?_ ?_
    · rintro s rfl
      have hnone : received x s.world.log = [] := by rw [received, hstart.recvs, List.flatten_nil]
      refine ⟨hstart.toPeered, hconfig, by rw [hnone]; rfl, 0, ?_⟩
      rw [hnone]
      refine ⟨Nat.le_refl _, ?_, ?_, ?_, ?_, hstart.offset, hI⟩
      · have := hf.pos 0
        rw [cut]
        simpa [cut] using this
      · rw [hstart.segments]
        rfl
      · rw [hstart.segments]
        simp [framesSent]
      · rw [Websocket.peerLive, hstart.offset]
        rfl
    · rintro s b t - ⟨hp, hc, hcarried, m, hcut⟩ ⟨hne, hdata⟩ hstep
      obtain ⟨u, hu, hpu, hpeer, hconn, hreceived, m', hcut'⟩ :=
        hcut.read hf hsend hp hc hfuel rfl hne hdata
      simp only [peerCalls, hu, Option.map_some, Option.some.injEq] at hstep
      subst hstep
      refine ⟨hpu, by rw [hpeer]; exact hc, ?_, m', ?_⟩
      · rw [hreceived, List.length_append, window_add, ← hcarried, Nat.zero_add, ← hdata]
      · rw [hreceived, List.length_append]
        exact hcut'
  obtain ⟨hp, hc, hcarried, m, hcut⟩ := hinv
  refine ⟨hcarried, ⟨m, hcut⟩, ?_, fun b hb => ?_⟩
  · have h1 := hcut.offset
    have h2 := hcut.ends
    have h3 := hcut.starts
    have h4 := hf.fits m
    rw [cut] at h2
    omega
  · obtain ⟨t, ht, -⟩ := hcut.read hf hsend hp hc hfuel rfl hb.1 hb.2
    exact ⟨t, ht⟩

end

/-! ## `fixedlength` and `dynamic32` -/

theorem framingFixedlen_lengthDetermined (config : Bytes) (hpos : 1 ≤ strtoul0 (cstr config))
    (hle : strtoul0 (cstr config) ≤ peerBufferSize - 1) (stream : Nat → UInt8) :
    LengthDetermined framingFixedlen.total (some config)
      (fun d => d = none ∨ d = some (strtoul0 (cstr config))) stream
      fun _ => strtoul0 (cstr config) := by
  have hcall : ∀ buffer length lastRead opcode framingData,
      framingData = none ∨ framingData = some (strtoul0 (cstr config)) →
      framingFixedlen.total (some buffer) length lastRead opcode framingData (some config) =
        (fixedlenFrame (strtoul0 (cstr config)) length, opcode, some (strtoul0 (cstr config))) := by
    rintro buffer length lastRead opcode framingData (rfl | rfl) <;> rfl
  refine ⟨fun _ => hpos, fun _ => hle, ?_, ?_⟩
  · intro m buffer length lastRead opcode framingData hI hlen hslice
    rw [hcall _ _ _ _ _ hI]
    unfold fixedlenFrame
    rw [if_neg (by omega)]
  · intro m buffer length lastRead opcode framingData hI hlen hslice
    rw [hcall _ _ _ _ _ hI]
    exact .inr rfl

/-- The size field of a segment that starts at `i`. -/
def dynamic32Field (c : Dynamic32Config) (stream : Nat → UInt8) (i : Nat) : Nat :=
  let field := window stream (i + c.offset.toNat) 4
  ofBigEndian (if c.endian then field else field.reverse)

/-- The exact size of a segment that starts at `i`. -/
def dynamic32Exact (c : Dynamic32Config) (stream : Nat → UInt8) (i : Nat) : Nat :=
  c.offset.toNat + 4 + c.fixed.toInt.toNat + dynamic32Field c stream i

theorem sizeField_window (c : Dynamic32Config) (stream : Nat → UInt8) (i : Nat) (buffer : Bytes)
    (length : Nat) (hle : c.offset.toNat + 4 ≤ length)
    (hslice : slice buffer 0 length = window stream i length) :
    c.sizeField buffer = dynamic32Field c stream i := by
  have hfield : slice buffer c.offset.toNat 4 = window stream (i + c.offset.toNat) 4 := by
    obtain ⟨r, rfl⟩ : ∃ r, length = c.offset.toNat + (4 + r) := ⟨length - (c.offset.toNat + 4), by omega⟩
    rw [slice_add, slice_add, window_add, window_add, Nat.zero_add] at hslice
    have h1 := (List.append_inj hslice (by simp)).2
    exact (List.append_inj h1 (by simp)).1
  unfold Dynamic32Config.sizeField
  rw [hfield]
  rfl

/-- Where the exact size fits the buffer, the sums of 32-bit numbers are exact. -/
theorem dynamic32Frame_exact (c : Dynamic32Config) (hfixed : 0 ≤ c.fixed.toInt)
    (stream : Nat → UInt8) (i : Nat) (hle : dynamic32Exact c stream i ≤ peerBufferSize - 1)
    (buffer : Bytes) (length : Nat) (hslice : slice buffer 0 length = window stream i length) :
    dynamic32Frame c (some buffer) length =
      some (if dynamic32Exact c stream i ≤ length then (dynamic32Exact c stream i : Int) else 0) := by
  have hsize : peerBufferSize = 16384 := rfl
  have hsum := hle
  rw [dynamic32Exact] at hsum
  have hend : c.fieldEnd = c.offset.toNat + 4 := rfl
  rw [dynamic32Frame_eq, hend]
  by_cases hlen : c.offset.toNat + 4 ≤ length
  · have hexact : c.segmentSize buffer = dynamic32Exact c stream i := by
      rw [Dynamic32Config.segmentSize, sizeField_window c stream i buffer length hlen hslice, hend,
        dynamic32Exact]
      omega
    rw [if_neg (by omega), if_neg (by omega), hexact]
    refine congrArg some (if_congr ?_ ?_ rfl) <;> omega
  · rw [if_pos (by omega), if_neg (by rw [dynamic32Exact]; omega)]

theorem framingDynamic32_lengthDetermined (config : Bytes) (c : Dynamic32Config)
    (hc : dynamic32Parse config = some c) (hfixed : 0 ≤ c.fixed.toInt) (stream : Nat → UInt8)
    (hle : ∀ m, dynamic32Exact c stream (cut (dynamic32Exact c stream) m) ≤ peerBufferSize - 1) :
    LengthDetermined framingDynamic32.total (some config) (fun d => d = none ∨ d = some c) stream
      (dynamic32Exact c stream) := by
  have hcall : ∀ buffer length lastRead opcode framingData,
      framingData = none ∨ framingData = some c →
      framingDynamic32 (some buffer) length lastRead opcode framingData (some config) =
        (dynamic32Frame c (some buffer) length).map (·, opcode, some c) := by
    intro buffer length lastRead opcode framingData hI
    refine framingDynamic32_frame ?_ buffer length lastRead opcode
    rcases hI with rfl | rfl
    · exact .inr ⟨rfl, hc⟩
    · exact .inl rfl
  refine ⟨fun _ => by unfold dynamic32Exact; omega, hle, ?_, ?_⟩
  · intro m buffer length lastRead opcode framingData hI hlen hslice
    rw [WsFraming?.total, hcall _ _ _ _ _ hI,
      dynamic32Frame_exact c hfixed stream _ (hle m) buffer length hslice]
    rfl
  · intro m buffer length lastRead opcode framingData hI hlen hslice
    rw [WsFraming?.total, hcall _ _ _ _ _ hI,
      dynamic32Frame_exact c hfixed stream _ (hle m) buffer length hslice]
    exact .inr rfl

instance (stream : Nat → UInt8) (x : Nat) (s : Conn φ) (b : Bytes) :
    Decidable (StreamRead stream x s b) := inferInstanceAs (Decidable (_ ∧ _))

/-- Reads of the stream 0, 1, 2, .. -/
def sampleCounted : List Bytes := [[0], [1, 2, 3, 4], [5, 6]]

theorem sampleCounted_run :
    ((peerCalls sendingEnv peerBufferSize sampleFixed).exec sampleCounted sampleFixed).isSome := by
  decide

theorem sampleFixed_freshPeer : FreshPeer framingFixedlen.total 5 4 sampleFixed :=
  { framing := rfl, peer := rfl, client := rfl, offset := rfl, recvs := rfl, segments := rfl
    calls := fun _ _ h => by cases h }

end Websocksy

import Websocksy.PeerStream
import Mathlib.Logic.Relation

/-!
# The framing loop as a sequence of calls

`FramingCall` is what the framing function is given, and `FramingCall.take` what its
answer comes to: the client, the log and the rest of the connection are not in it.
The loop of `ws_peer_data` is one equation over `take` (`wsFraming_take`); what it calls
the framing function with, and how often, is a matter of `take` alone as long as no
send fails.
-/

namespace Websocksy

open Buffer CString Relation

variable {φ : Type}

structure FramingCall (φ : Type) where
  buffer : Bytes
  offset : Nat
  bytesRead : Nat
  opcode : WsOperation
  framingData : Option φ

/-- What an answer of the framing function comes to, and the call that follows if the
loop goes on. -/
inductive FramingStep (φ : Type)
  /-- more bytes than there are -/
  | overrun
  | segment (opcode : WsOperation) (data : Bytes) (rest : FramingCall φ) (again : Bool)
  /-- no frame yet -/
  | declined (rest : FramingCall φ)
  /-- a negative value, after which the loop goes on with the same bytes -/
  | failed (rest : FramingCall φ)

namespace FramingCall

variable (f : WsFraming φ) (config : Option Bytes)

def length (c : FramingCall φ) : Nat := c.offset + c.bytesRead

/-- The bytes that are not framed yet. -/
def live (c : FramingCall φ) : Bytes := slice c.buffer 0 c.length

/-- The value, the opcode and the framing data after the call. -/
def answer (c : FramingCall φ) : Int × WsOperation × Option φ :=
  let r := f (some c.buffer) c.length c.bytesRead (some c.opcode) c.framingData config
  (r.1, r.2.1.getD c.opcode, r.2.2)

def take (c : FramingCall φ) : FramingStep φ :=
  let r := c.answer f config
  let rest := { c with opcode := r.2.1, framingData := r.2.2 }
  if 0 < r.1 then
    let framed := r.1.toNat
    if c.length < framed then .overrun
    else
      let rest := { rest with buffer := moveDown c.buffer framed (c.length - framed) }
      let data := slice c.buffer 0 framed
      if framed < c.offset then .segment r.2.1 data { rest with offset := c.offset - framed } true
      else
        let left := c.bytesRead - (framed - c.offset)
        .segment r.2.1 data { rest with offset := 0, bytesRead := left }
          (framed - c.offset ≠ 0 ∧ 0 < left)
  else if r.1 < 0 ∧ 0 < c.length then .failed rest
  else .declined rest

/-- The call that follows if no send fails. -/
def next (c : FramingCall φ) : Option (FramingCall φ) :=
  match c.take f config with
  | .segment _ _ rest true | .failed rest => some rest
  | _ => none

/-- The calls that follow each other. -/
def Leads (c c' : FramingCall φ) : Prop :=
  ReflTransGen (fun a b => a.next f config = some b) c c'

/-- The first `n` calls. -/
def calls : Nat → FramingCall φ → List (FramingCall φ)
  | 0, _ => []
  | n + 1, c => c :: (c.next f config).elim [] (calls n)

/-- Store the buffer in a connection, of which `offset` bytes are kept. -/
def put (c : FramingCall φ) (offset : Nat) (s : Conn φ) : Conn φ :=
  { s with ws := { s.ws with peerBuffer := c.buffer, peerBufferOffset := offset } }

end FramingCall

/-- The call of the framing function from the top of the loop. -/
def Conn.framingCall (s : Conn φ) (opcode : WsOperation) (bytesRead : Nat) : FramingCall φ :=
  ⟨s.ws.peerBuffer, s.ws.peerBufferOffset, bytesRead, opcode, s.ws.peerFramingData⟩

section

variable {f : WsFraming φ} {config : Option Bytes} {c c' : FramingCall φ} {s t : Conn φ}

/-- The framing loop only comes back where there is a framing function to call. -/
theorem wsFraming_some {env : Env φ} {fuel : Nat} {opcode : WsOperation} {bytesRead : Nat}
    {r : Bool × Conn φ} (h : wsFraming env fuel opcode bytesRead s = some r) :
    ∃ f, s.ws.peer.framing = some f := by
  cases fuel with
  | zero => cases h
  | succ fuel =>
      unfold wsFraming at h
      split at h
      · cases h
      · next f hf => exact ⟨f, hf⟩

/-- **The framing loop**: one call of the framing function, and what its answer comes to. -/
theorem wsFraming_take (env : Env φ) (fuel : Nat) (opcode : WsOperation) (bytesRead : Nat)
    (hf : s.ws.peer.framing = some f) :
    wsFraming env (fuel + 1) opcode bytesRead s =
      let c := s.framingCall opcode bytesRead
      let t := framingCalled bytesRead (c.answer f s.ws.peer.framingConfig).2.2 s
      match c.take f s.ws.peer.framingConfig with
      | .overrun => some (false, wsClose env .unexpected (some (ascii "Internal error")) t)
      | .segment op data rest again =>
        let sent := wsForward env op data t
        if sent.1 then some (true, sent.2)
        else if again then wsFraming env fuel rest.opcode rest.bytesRead (rest.put rest.offset sent.2)
        else some (false, rest.put rest.length sent.2)
      | .declined rest => some (false, rest.put rest.length t)
      | .failed rest => wsFraming env fuel rest.opcode rest.bytesRead t := by
  conv => lhs; unfold wsFraming
  rw [hf]
  dsimp only [FramingCall.answer, Conn.framingCall, FramingCall.length]
  generalize hr : f (some s.ws.peerBuffer) (s.ws.peerBufferOffset + bytesRead) bytesRead (some opcode)
    s.ws.peerFramingData s.ws.peer.framingConfig = r
  generalize ht : framingCalled bytesRead r.2.2 s = t
  have hb : t.ws.peerBuffer = s.ws.peerBuffer := by rw [← ht]; rfl
  have ho : t.ws.peerBufferOffset = s.ws.peerBufferOffset := by rw [← ht]; rfl
  simp only [FramingCall.take, FramingCall.answer, FramingCall.length, hr, wsFramed, hb, ho]
  by_cases hpos : 0 < r.1
  · simp only [if_pos hpos]
    by_cases hover : s.ws.peerBufferOffset + bytesRead < r.1.toNat
    · simp only [if_pos hover]
    · simp only [if_neg hover]
      have hsent := wsForward_ws env (r.2.1.getD opcode) (slice s.ws.peerBuffer 0 r.1.toNat) t
      by_cases hbefore : r.1.toNat < s.ws.peerBufferOffset
      · simp only [if_pos hbefore, FramingCall.put]
        generalize wsForward env (r.2.1.getD opcode) (slice s.ws.peerBuffer 0 r.1.toNat) t = sent
          at hsent ⊢
        obtain ⟨failed, ws, w⟩ := sent
        cases hsent
        cases failed with
        | true => rfl
        | false => simp only [Bool.false_eq_true, if_false, if_true]
      · simp only [if_neg hbefore, FramingCall.put]
        generalize wsForward env (r.2.1.getD opcode) (slice s.ws.peerBuffer 0 r.1.toNat) t = sent
          at hsent ⊢
        obtain ⟨failed, ws, w⟩ := sent
        cases hsent
        cases failed with
        | true => rfl
        | false =>
            simp only [Bool.false_eq_true, if_false, decide_eq_true_eq, Nat.zero_add]
            by_cases hleft : r.1.toNat - s.ws.peerBufferOffset ≠ 0 ∧
                0 < bytesRead - (r.1.toNat - s.ws.peerBufferOffset)
            · simp only [if_pos hleft]
            · simp only [if_neg hleft]
  · simp only [if_neg hpos]
    by_cases hneg : r.1 < 0 ∧ 0 < s.ws.peerBufferOffset + bytesRead
    · simp only [if_pos hneg]
    · simp only [if_neg hneg, FramingCall.put]

/-! ## One call -/

/-- A segment is taken: `k` bytes from the front, as the answer says. -/
structure FramingCall.Takes (f : WsFraming φ) (config : Option Bytes) (c : FramingCall φ)
    (op : WsOperation) (seg : Bytes) (rest : FramingCall φ) (again : Bool) (k : Nat) : Prop where
  taken : c.take f config = .segment op seg rest again
  value : (c.answer f config).1 = k
  pos : 0 < k
  opcode : op = (c.answer f config).2.1
  framingData : rest.framingData = (c.answer f config).2.2
  keep : rest.opcode = op
  offset : rest.offset = c.offset - k
  data : seg = slice c.buffer 0 k
  live : c.live = seg ++ rest.live
  length : rest.length + k = c.length
  again : again = true ↔ k ≠ c.offset ∧ 0 < rest.length

theorem FramingCall.take_segment {op : WsOperation} {data : Bytes} {rest : FramingCall φ}
    {again : Bool} (h : c.take f config = .segment op data rest again) :
    ∃ k, c.Takes f config op data rest again k := by
  have htaken := h
  unfold FramingCall.take at h
  dsimp only at h
  split at h
  · next hpos =>
    obtain ⟨k, hk⟩ : ∃ k : Nat, (c.answer f config).1 = k := ⟨_, (Int.toNat_of_nonneg (Int.le_of_lt hpos)).symm⟩
    rw [hk] at hpos
    simp only [hk, Int.toNat_natCast] at h
    split at h
    · cases h
    · next hover =>
      have hlive : c.live = slice c.buffer 0 k ++
          slice (moveDown c.buffer k (c.length - k)) 0 (c.length - k) :=
        slice_segment c.buffer k (by omega)
      have hlen : c.length = c.offset + c.bytesRead := rfl
      split at h
      · next hbefore =>
        cases h
        have hrest : c.offset - k + c.bytesRead = c.length - k := by omega
        refine ⟨k, htaken, hk, by omega, rfl, rfl, rfl, rfl, rfl, ?_, ?_, ?_⟩
        · show _ = _ ++ slice _ 0 (c.offset - k + c.bytesRead)
          rw [hrest, hlive]
        · show c.offset - k + c.bytesRead + k = c.length
          omega
        · show true = true ↔ k ≠ c.offset ∧ 0 < c.offset - k + c.bytesRead
          simp only [true_iff]
          omega
      · next hbefore =>
        cases h
        have hrest : 0 + (c.bytesRead - (k - c.offset)) = c.length - k := by omega
        refine ⟨k, htaken, hk, by omega, rfl, rfl, rfl, ?_, rfl, ?_, ?_, ?_⟩
        · show 0 = c.offset - k
          omega
        · show _ = _ ++ slice _ 0 (0 + (c.bytesRead - (k - c.offset)))
          rw [hrest, hlive]
        · show 0 + (c.bytesRead - (k - c.offset)) + k = c.length
          omega
        · show decide _ = true ↔ k ≠ c.offset ∧ 0 < 0 + (c.bytesRead - (k - c.offset))
          rw [decide_eq_true_eq]
          omega
  · split at h <;> cases h

theorem FramingCall.take_pos {k : Nat} (h : (c.answer f config).1 = k) (hpos : 0 < k)
    (hle : k ≤ c.length) :
    ∃ op data rest again, c.take f config = .segment op data rest again ∧
      c.Takes f config op data rest again k := by
  cases htake : c.take f config with
  | segment op data rest again =>
      obtain ⟨k', hk⟩ := take_segment htake
      obtain rfl : k' = k := by
        have := hk.value
        omega
      exact ⟨op, data, rest, again, rfl, hk⟩
  | _ =>
      unfold FramingCall.take at htake
      dsimp only at htake
      rw [h, if_pos (by omega), Int.toNat_natCast, if_neg (by omega)] at htake
      split at htake <;> cases htake

theorem FramingCall.take_zero (h : (c.answer f config).1 = 0) :
    c.take f config = .declined
      { c with opcode := (c.answer f config).2.1, framingData := (c.answer f config).2.2 } := by
  unfold FramingCall.take
  simp [h]

theorem FramingCall.take_overrun (h : c.take f config = .overrun) :
    (c.length : Int) < (c.answer f config).1 := by
  unfold FramingCall.take at h
  dsimp only at h
  split at h
  · split at h
    · omega
    · split at h <;> cases h
  · split at h <;> cases h

theorem FramingCall.take_declined {rest : FramingCall φ} (h : c.take f config = .declined rest) :
    (c.answer f config).1 ≤ 0 ∧ ((c.answer f config).1 = 0 ∨ c.length = 0) ∧
    rest = { c with opcode := (c.answer f config).2.1, framingData := (c.answer f config).2.2 } := by
  unfold FramingCall.take at h
  dsimp only at h
  split at h
  · split at h
    · cases h
    · split at h <;> cases h
  · next hpos =>
    split at h
    · cases h
    · next hneg =>
      cases h
      exact ⟨by omega, by omega, rfl⟩

theorem FramingCall.take_failed {rest : FramingCall φ} (h : c.take f config = .failed rest) :
    (c.answer f config).1 < 0 ∧ 0 < c.length ∧
    rest = { c with opcode := (c.answer f config).2.1, framingData := (c.answer f config).2.2 } := by
  unfold FramingCall.take at h
  dsimp only at h
  split at h
  · split at h
    · cases h
    · split at h <;> cases h
  · split at h
    · next hneg =>
      cases h
      exact ⟨hneg.1, hneg.2, rfl⟩
    · cases h

/-- A segment is forwarded: its frame is sent, and then it is noted, unless a send fails. -/
theorem wsForward_sent (env : Env φ) (op : WsOperation) (data : Bytes) (s : Conn φ) :
    ∃ w, OnlySends s.ws.wsFd s.world w ∧
      ((wsForward env op data s).1 = true ∧ (wsForward env op data s).2 = ⟨s.ws, w⟩ ∨
      (wsForward env op data s).1 = false ∧
        (wsForward env op data s).2 = ⟨s.ws, w.record (.segment s.ws.conn op data)⟩) := by
  unfold wsForward
  by_cases hop : op = .discard
  · exact ⟨s.world, .refl _ _, .inr ⟨by simp [hop], by simp [hop]⟩⟩
  · refine ⟨_, wsSendFrame_onlySends env s.ws op data s.world, ?_⟩
    cases hsent : (wsSendFrame env s.ws op data s.world).1 with
    | true => exact .inl ⟨by simp [hop, hsent], by simp [hop, hsent]⟩
    | false => exact .inr ⟨by simp [hop, hsent], by simp [hop, hsent]⟩

/-- The connection after the call, before what its answer comes to. -/
def FramingCall.called (f : WsFraming φ) (c : FramingCall φ) (s : Conn φ) : Conn φ :=
  framingCalled c.bytesRead (c.answer f s.ws.peer.framingConfig).2.2 s

/-- The connection after a segment was taken; the sends led to `w`. -/
def FramingCall.taken (f : WsFraming φ) (c : FramingCall φ) (op : WsOperation) (seg : Bytes)
    (rest : FramingCall φ) (offset : Nat) (w : World) (s : Conn φ) : Conn φ :=
  rest.put offset ⟨(c.called f s).ws, w.record (.segment s.ws.conn op seg)⟩

/-- The call after a segment was taken. -/
theorem FramingCall.Takes.framingCall {op : WsOperation} {seg : Bytes} {rest : FramingCall φ}
    {again : Bool} {k : Nat} (hk : c.Takes f s.ws.peer.framingConfig op seg rest again k) (w : World) :
    (rest.put rest.offset ⟨(c.called f s).ws, w⟩).framingCall rest.opcode rest.bytesRead = rest := by
  have hdata : (c.called f s).ws.peerFramingData = rest.framingData := hk.framingData.symm
  unfold Conn.framingCall FramingCall.put
  dsimp only
  rw [hdata]

/-- The rest of the loop after a pass. -/
def FramingPass.resume (env : Env φ) (fuel : Nat) : FramingPass φ → Option (Bool × Conn φ)
  | .done rv s => some (rv, s)
  | .again op bytesRead s => wsFraming env fuel op bytesRead s

/-- What a pass of the framing loop comes to for the call `c`: the loop is left, or it goes on
with the call that follows. -/
inductive FramingPassed (env : Env φ) (f : WsFraming φ) (s : Conn φ) (c : FramingCall φ) :
    FramingPass φ → Prop
  | overrun (h : (c.length : Int) < (c.answer f s.ws.peer.framingConfig).1)
      (hn : c.next f s.ws.peer.framingConfig = none) :
      FramingPassed env f s c
        (.done false (wsClose env .unexpected (some (ascii "Internal error")) (c.called f s)))
  | unsent (op : WsOperation) (seg : Bytes) (rest : FramingCall φ) (again : Bool) (k : Nat)
      (hk : c.Takes f s.ws.peer.framingConfig op seg rest again k) (w : World)
      (hw : OnlySends s.ws.wsFd (c.called f s).world w)
      (hs : wsForward env op seg (c.called f s) = (true, ⟨(c.called f s).ws, w⟩)) :
      FramingPassed env f s c (.done true ⟨(c.called f s).ws, w⟩)
  | last (op : WsOperation) (seg : Bytes) (rest : FramingCall φ) (k : Nat)
      (hk : c.Takes f s.ws.peer.framingConfig op seg rest false k)
      (hn : c.next f s.ws.peer.framingConfig = none) (w : World)
      (hw : OnlySends s.ws.wsFd (c.called f s).world w) :
      FramingPassed env f s c (.done false (c.taken f op seg rest rest.length w s))
  | again (op : WsOperation) (seg : Bytes) (rest : FramingCall φ) (k : Nat)
      (hk : c.Takes f s.ws.peer.framingConfig op seg rest true k)
      (hn : c.next f s.ws.peer.framingConfig = some rest) (w : World)
      (hw : OnlySends s.ws.wsFd (c.called f s).world w)
      (hc : (c.taken f op seg rest rest.offset w s).framingCall rest.opcode rest.bytesRead = rest) :
      FramingPassed env f s c
        (.again rest.opcode rest.bytesRead (c.taken f op seg rest rest.offset w s))
  | declined (hz : (c.answer f s.ws.peer.framingConfig).1 ≤ 0)
      (hd : (c.answer f s.ws.peer.framingConfig).1 = 0 ∨ c.length = 0)
      (hn : c.next f s.ws.peer.framingConfig = none) :
      FramingPassed env f s c (.done false (c.put c.length (c.called f s)))
  | failed (rest : FramingCall φ) (hz : (c.answer f s.ws.peer.framingConfig).1 < 0)
      (hl : 0 < c.length) (hn : c.next f s.ws.peer.framingConfig = some rest)
      (hc : (c.called f s).framingCall rest.opcode rest.bytesRead = rest)
      (hr : rest = { c with
        opcode := (c.answer f s.ws.peer.framingConfig).2.1
        framingData := (c.answer f s.ws.peer.framingConfig).2.2 }) :
      FramingPassed env f s c (.again rest.opcode rest.bytesRead (c.called f s))

theorem wsFraming_passed (env : Env φ) (opcode : WsOperation) (bytesRead : Nat)
    (hf : s.ws.peer.framing = some f) :
    ∃ p, FramingPassed env f s (s.framingCall opcode bytesRead) p ∧
      ∀ fuel, wsFraming env (fuel + 1) opcode bytesRead s = p.resume env fuel := by
  have htake := fun fuel => wsFraming_take (f := f) env fuel opcode bytesRead hf
  dsimp only at htake
  generalize hc : s.framingCall opcode bytesRead = c at htake ⊢
  have hcalled : framingCalled bytesRead (c.answer f s.ws.peer.framingConfig).2.2 s = c.called f s := by
    rw [FramingCall.called, ← hc]
    rfl
  have hbuffer : c.buffer = s.ws.peerBuffer ∧ c.offset = s.ws.peerBufferOffset := by
    rw [← hc]
    exact ⟨rfl, rfl⟩
  simp only [hcalled] at htake
  cases hstep : c.take f s.ws.peer.framingConfig with
  | overrun =>
      simp only [hstep] at htake
      refine ⟨_, .overrun (FramingCall.take_overrun hstep) ?_, htake⟩
      unfold FramingCall.next
      rw [hstep]
  | declined rest =>
      simp only [hstep] at htake
      obtain ⟨hz, hd, rfl⟩ := FramingCall.take_declined hstep
      exact ⟨_, .declined hz hd (by unfold FramingCall.next; rw [hstep]), htake⟩
  | failed rest =>
      simp only [hstep] at htake
      obtain ⟨hz, hlen, hr⟩ := FramingCall.take_failed hstep
      refine ⟨_, .failed rest hz hlen (by unfold FramingCall.next; rw [hstep]) ?_ hr, htake⟩
      rw [hr]
      unfold FramingCall.called framingCalled Conn.framingCall
      rw [← hbuffer.1, ← hbuffer.2]
  | segment o seg rest again =>
      simp only [hstep] at htake
      obtain ⟨k, hk⟩ := FramingCall.take_segment hstep
      obtain ⟨w, hw, ⟨hfail, hsent⟩ | ⟨hok, hsent⟩⟩ := wsForward_sent env o seg (c.called f s)
      · simp only [hfail, hsent, if_true] at htake
        exact ⟨_, .unsent o seg rest again k hk w hw (Prod.ext hfail hsent), htake⟩
      · simp only [hok, hsent, Bool.false_eq_true, if_false] at htake
        cases again with
        | false =>
            simp only [Bool.false_eq_true, if_false] at htake
            exact ⟨_, .last o seg rest k hk (by unfold FramingCall.next; rw [hstep]) w hw, htake⟩
        | true =>
            simp only [if_true] at htake
            exact ⟨_, .again o seg rest k hk (by unfold FramingCall.next; rw [hstep]) w hw
              (hk.framingCall _), htake⟩

/-! ## The call that `recv` leads to -/

/-- The connection with bytes from its peer in the buffer. -/
def Conn.peerReceived (s : Conn φ) (x : Nat) (data : Bytes) : Conn φ :=
  ⟨{ s.ws with peerBuffer := write s.ws.peerBuffer s.ws.peerBufferOffset (data ++ [0]) },
    s.world.record (.received x data)⟩

/-- `peer_buffer[0 .. peer_buffer_offset)` -/
def Websocket.peerLive (ws : Websocket φ) : Bytes := slice ws.peerBuffer 0 ws.peerBufferOffset

/-- The first call of the framing function after `data` was received. -/
def Conn.firstCall (s : Conn φ) (data : Bytes) : FramingCall φ :=
  ⟨write s.ws.peerBuffer s.ws.peerBufferOffset (data ++ [0]), s.ws.peerBufferOffset, data.length,
    .binary, s.ws.peerFramingData⟩

theorem firstCall_live (s : Conn φ) (data : Bytes) :
    (s.firstCall data).live = s.ws.peerLive ++ data := by
  have h := slice_write_end s.ws.peerBuffer s.ws.peerBufferOffset (data ++ [0])
  rw [List.length_append, ← Nat.add_assoc, slice_add] at h
  rw [FramingCall.live, FramingCall.length, Websocket.peerLive]
  rw [← List.append_assoc] at h
  exact (List.append_inj' h (by simp)).1

/-- The first call of the framing function, if the `recv` that has `answer` gives bytes. -/
def Conn.firstCall? (s : Conn φ) (answer : Option Bytes) : Option (FramingCall φ) :=
  match (recv s.ws.peerFd (peerBufferSize - s.ws.peerBufferOffset - 1) answer s.world).1 with
  | none | some [] => none
  | some data => some (s.firstCall data)

theorem wsPeerData_received (env : Env φ) (fuel : Nat) {x : Nat} {b data : Bytes}
    (hx : s.world.sockAt s.ws.peerFd = some x)
    (hd : b.take (peerBufferSize - s.ws.peerBufferOffset - 1) = data) (hne : data ≠ []) :
    wsPeerData env fuel (some b) s =
      wsFraming env fuel .binary data.length (s.peerReceived x data) := by
  unfold wsPeerData recv Conn.peerReceived
  rw [hx]
  dsimp only
  rw [hd]
  cases data with
  | nil => exact absurd rfl hne
  | cons z zs => rfl

/-- A call of `ws_peer_data` ends with the connection, or it enters the framing loop. -/
theorem wsPeerData_firstCall (env : Env φ) (answer : Option Bytes) (s : Conn φ) :
    s.firstCall? answer = none ∧
      (∃ code reason w, ∀ fuel, wsPeerData env fuel answer s =
        some (false, wsClose env code (some reason) ⟨s.ws, w⟩)) ∨
    ∃ x b data, s.world.sockAt s.ws.peerFd = some x ∧ answer = some b ∧
      b.take (peerBufferSize - s.ws.peerBufferOffset - 1) = data ∧ data ≠ [] ∧
      s.firstCall? answer = some (s.firstCall data) ∧
      ∀ fuel, wsPeerData env fuel answer s =
        wsFraming env fuel .binary data.length (s.peerReceived x data) := by
  unfold Conn.firstCall?
  cases hx : s.world.sockAt s.ws.peerFd with
  | none => exact .inl ⟨by rw [recv, hx], _, _, s.world, fun fuel => by rw [wsPeerData, recv, hx]⟩
  | some x =>
      cases answer with
      | none =>
          exact .inl ⟨by rw [recv, hx], _, _, s.world.record (.recvFailed x),
            fun fuel => by rw [wsPeerData, recv, hx]⟩
      | some b =>
          cases hd : b.take (peerBufferSize - s.ws.peerBufferOffset - 1) with
          | nil =>
              refine .inl ⟨?_, .normal, ascii "Peer closed connection",
                s.world.record (.received x []), fun fuel => ?_⟩
              · unfold recv
                rw [hx]
                dsimp only
                rw [hd]
              · unfold wsPeerData recv
                rw [hx]
                dsimp only
                rw [hd]
          | cons z zs =>
              refine .inr ⟨x, b, z :: zs, rfl, rfl, hd, by simp, ?_,
                fun fuel => wsPeerData_received env fuel hx hd (by simp)⟩
              unfold recv
              rw [hx]
              dsimp only
              rw [hd]

end

end Websocksy

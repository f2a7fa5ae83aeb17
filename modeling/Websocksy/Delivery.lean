import Websocksy.ClientFrame
import Websocksy.Log
import Websocksy.Run

/-!
# Delivery of the client's frames

A client sends frames with data, pings and pongs, and then a part of a frame or
a frame that ends the connection (`Ending`).  However these bytes are cut into
reads, the peer gets the payloads of the data frames and the client gets one
pong for each ping (`frames_delivered`).

Between two reads the buffer holds a part of the frame that comes next, so that
the bytes in it and those to come are a stream of the same kind.
-/

namespace Websocksy

open Buffer CString

variable {φ : Type}

/-! ## The stream -/

/-- A frame that does not end the connection and fits into the buffer. -/
def ClientFrame.Carried (f : ClientFrame) : Prop :=
  f.opcode ∈ [1, 2, 9, 10] ∧ f.size ≤ wsMaxLine - 1

/-- How the stream ends: with the first `n` bytes of a frame, or with a close frame or a
frame whose opcode is not known. -/
inductive Ending
  | part (next : ClientFrame) (n : Nat)
  | last (f : ClientFrame)

def Ending.bytes : Ending → Bytes
  | .part next n => next.encode.take n
  | .last f => f.encode

def Ending.Fits : Ending → Prop
  | .part next n => n < next.size ∧ next.size ≤ wsMaxLine - 1
  | .last f => f.opcode ∉ [1, 2, 9, 10] ∧ f.size ≤ wsMaxLine - 1

def stream (fs : List ClientFrame) (e : Ending) : Bytes := fs.flatMap (·.encode) ++ e.bytes

/-- The frame the stream begins with. -/
def firstFrame : List ClientFrame → Ending → ClientFrame
  | f :: _, _ => f
  | [], .part next _ => next
  | [], .last f => f

/-- What the peer gets. -/
def toPeer (fs : List ClientFrame) : Bytes :=
  fs.flatMap fun f => if f.opcode = 1 ∨ f.opcode = 2 then f.payload else []

/-- What the client gets. -/
def toClient (fs : List ClientFrame) : Bytes :=
  fs.flatMap fun f => if f.opcode = 9 then wsEncode .pong f.payload else []

/-- The close frame that answers a frame which ends the connection. -/
def closeAnswer (f : ClientFrame) : Bytes :=
  wsEncode .close
    (if f.opcode = 8 then ascii "Client requested termination" else ascii "Invalid opcode")

theorem firstFrame_size {fs : List ClientFrame} {e : Ending} (hfs : ∀ f ∈ fs, f.Carried)
    (he : e.Fits) : (firstFrame fs e).size ≤ wsMaxLine - 1 := by
  cases fs with
  | cons f fs => exact (hfs f List.mem_cons_self).2
  | nil => cases e <;> exact he.2

/-- The stream's beginning, as long as it is shorter than the first frame, is part of it. -/
theorem prefix_firstFrame {fs : List ClientFrame} {e : Ending} {p : Bytes}
    (h : p <+: stream fs e) (hlt : p.length < (firstFrame fs e).size) :
    p <+: (firstFrame fs e).encode := by
  have hle : p.length ≤ (firstFrame fs e).encode.length := Nat.le_of_lt hlt
  cases fs with
  | cons f fs =>
      refine List.prefix_of_prefix_length_le h ?_ hle
      simp [stream, firstFrame]
  | nil =>
      cases e with
      | part next n => exact h.trans (List.take_prefix n next.encode)
      | last f => exact h

/-! ## What a frame does -/

/-- An open connection, its client on the socket `y` and its peer on the socket `x`. -/
structure OpenConn (x y : Nat) (s : Conn φ) : Prop where
  state : s.ws.state = .wsOpen
  peer : s.world.sockAt s.ws.peerFd = some x
  client : s.world.sockAt s.ws.wsFd = some y

/-- What was sent since `s`: `a` to the socket `x`, `b` to the socket `y`. -/
structure SentBoth (x y : Nat) (a b : Bytes) (s t : Conn φ) : Prop where
  peer : written x t.world.log = written x s.world.log ++ a
  client : written y t.world.log = written y s.world.log ++ b

theorem SentBoth.trans {x y : Nat} {a b a' b' : Bytes} {s t u : Conn φ}
    (h : SentBoth x y a b s t) (h' : SentBoth x y a' b' t u) :
    SentBoth x y (a ++ a') (b ++ b') s u :=
  ⟨by rw [h'.peer, h.peer, List.append_assoc], by rw [h'.client, h.client, List.append_assoc]⟩

theorem written_closeFd (x : Nat) (fd : Option Nat) (w : World) :
    written x (w.closeFd fd).log = written x w.log := by
  unfold World.closeFd
  split
  · simp [written]
  · rfl

section

variable {env : Env φ} {x y : Nat} {s : Conn φ} {f : ClientFrame}

/-- A frame with data or a ping is passed on, and the connection stays as it is. -/
theorem wsDispatch_carried (env : Env φ) (hx : ∀ k, env.send x k ≠ none) (hy : ∀ k, env.send y k ≠ none)
    (hne : x ≠ y) (h : OpenConn x y s) (hf : f.Carried) :
    ∃ w, wsDispatch env f.opcode f.payload s = ⟨s.ws, w⟩ ∧ OpenConn x y ⟨s.ws, w⟩ ∧
      SentBoth x y (toPeer [f]) (toClient [f]) s ⟨s.ws, w⟩ := by
  obtain ⟨hstate, hpeer, hclient⟩ := h
  have hop := hf.1
  unfold wsDispatch
  by_cases hdata : f.opcode = 1 ∨ f.opcode = 2
  · have hfd : s.ws.peerFd.isSome := by
      cases hfd : s.ws.peerFd with
      | none => rw [hfd] at hpeer; cases hpeer
      | some fd => rfl
    obtain ⟨hb, ds, hd, hw⟩ := (networkSend_sent env f.payload hpeer).whole_of hx
    have hping : f.opcode ≠ 9 := by omega
    refine ⟨s.world.wrote x ds, by simp [hdata, hfd, hb, hw], ⟨hstate, hpeer, hclient⟩, ⟨?_, ?_⟩⟩
    · rw [World.wrote_log, written_append, written_wrote, hd]
      simp [toPeer, hdata]
    · rw [World.wrote_log, written_append, written_wrote_ne y hne]
      simp [toClient, hping]
  · by_cases hping : f.opcode = 9
    · obtain ⟨hb, ds, hd, hw⟩ := (wsSendFrame_sent env .pong f.payload hclient).whole_of hy
      refine ⟨s.world.wrote y ds, ?_, ⟨hstate, hpeer, hclient⟩, ⟨?_, ?_⟩⟩
      · rw [if_neg hdata, if_neg (by omega), if_pos hping]
        simp [hb, hw]
      · rw [World.wrote_log, written_append, written_wrote_ne x hne.symm]
        simp [toPeer, hdata]
      · rw [World.wrote_log, written_append, written_wrote, hd]
        simp [toClient, hping]
    · have hpong : f.opcode = 10 := by
        simp only [List.mem_cons, List.not_mem_nil, or_false] at hop
        omega
      refine ⟨s.world, ?_, ⟨hstate, hpeer, hclient⟩, ⟨?_, ?_⟩⟩
      · rw [if_neg hdata, if_neg (by omega), if_neg hping, if_pos hpong]
      · simp [toPeer, hdata]
      · simp [toClient, hping]

/-- `ws_close` on an open connection sends a close frame to the client and nothing to the
peer. -/
theorem wsClose_open (hy : ∀ k, env.send y k ≠ none) (hne : x ≠ y) (h : OpenConn x y s)
    (code : WsCloseReason) (reason : Bytes) :
    SentBoth x y [] (wsEncode .close reason) s (wsClose env code (some reason) s) := by
  have hworld : wsCloseWorld env code (some reason) s =
      (wsSendFrame env s.ws .close reason
        (s.world.record (.wsClose s.ws.conn (some reason)))).2 := by
    unfold wsCloseWorld wsCloseSend
    simp [h.state]
  obtain ⟨-, ds, hd, hw⟩ := (wsSendFrame_sent env .close reason
    (w := s.world.record (.wsClose s.ws.conn (some reason))) h.client).whole_of hy
  constructor
  · rw [wsClose_world, written_closeFd, written_closeFd, hworld, hw, World.wrote_log, written_append,
      written_wrote_ne x hne.symm]
    simp [written]
  · rw [wsClose_world, written_closeFd, written_closeFd, hworld, hw, World.wrote_log, written_append,
      written_wrote, hd]
    simp [written]

/-- A frame that ends the connection is answered, and the connection is closed. -/
theorem wsDispatch_last (env : Env φ) (hy : ∀ k, env.send y k ≠ none) (hne : x ≠ y) (h : OpenConn x y s)
    (hf : f.opcode ∉ [1, 2, 9, 10]) :
    (wsDispatch env f.opcode f.payload s).ws.state = .wsClosed ∧
    (wsDispatch env f.opcode f.payload s).ws.readBufferOffset = 0 ∧
    SentBoth x y [] (closeAnswer f) s (wsDispatch env f.opcode f.payload s) := by
  simp only [List.mem_cons, List.not_mem_nil, or_false, not_or] at hf
  unfold wsDispatch closeAnswer
  rw [if_neg (by omega)]
  by_cases h8 : f.opcode = 8
  · rw [if_pos h8, if_pos h8]
    exact ⟨rfl, rfl, wsClose_open hy hne h _ _⟩
  · rw [if_neg h8, if_neg (by omega), if_neg (by omega), if_neg h8]
    exact ⟨rfl, rfl, wsClose_open hy hne h _ _⟩

/-! ## The frame loop -/

/-- The frames of the stream `fs`, `e` that were complete when `q` was still to come
are delivered: the rest of the stream waits in the buffer, or the last frame closed
the connection. -/
inductive Delivered (x y : Nat) (fs : List ClientFrame) (e : Ending) (q : Bytes) (s t : Conn φ) :
    Prop
  | waiting (fs₁ fs₂ : List ClientFrame) (hfs : fs = fs₁ ++ fs₂) (h : OpenConn x y t)
      (hrest : t.ws.live ++ q = stream fs₂ e) (hpart : t.ws.live.length < (firstFrame fs₂ e).size)
      (hsent : SentBoth x y (toPeer fs₁) (toClient fs₁) s t) : Delivered x y fs e q s t
  | ended (f : ClientFrame) (he : e = .last f) (hq : q = []) (h : t.ws.state = .wsClosed)
      (ho : t.ws.readBufferOffset = 0)
      (hsent : SentBoth x y (toPeer fs) (toClient fs ++ closeAnswer f) s t) :
      Delivered x y fs e q s t

/-- One more frame in front. -/
theorem Delivered.cons {fs : List ClientFrame} {e : Ending} {q : Bytes} {s' t : Conn φ}
    (hf : SentBoth x y (toPeer [f]) (toClient [f]) s s') (h : Delivered x y fs e q s' t) :
    Delivered x y (f :: fs) e q s t := by
  have hp : ∀ gs, toPeer (f :: gs) = toPeer [f] ++ toPeer gs := fun gs => by simp [toPeer]
  have hc : ∀ gs, toClient (f :: gs) = toClient [f] ++ toClient gs := fun gs => by simp [toClient]
  cases h with
  | waiting fs₁ fs₂ hfs h hrest hpart hsent =>
      refine .waiting (f :: fs₁) fs₂ (by rw [hfs]; rfl) h hrest hpart ?_
      rw [hp, hc]
      exact hf.trans hsent
  | ended g he hq h ho hsent =>
      refine .ended g he hq h ho ?_
      rw [hp, hc, List.append_assoc]
      exact hf.trans hsent

/-- After a frame was handled, the bytes that follow it are at the front of the buffer. -/
theorem live_moveDown (ws : Websocket φ) {b p rest : Bytes}
    (h : slice b 0 ws.readBufferOffset = p ++ rest) (k : Nat) (payload : Bytes)
    (hk : k + payload.length ≤ p.length) :
    ({ ws with
      readBuffer := moveDown (write b k payload) p.length (ws.readBufferOffset - p.length)
      readBufferOffset := ws.readBufferOffset - p.length } : Websocket φ).live = rest := by
  have hlen : ws.readBufferOffset = p.length + rest.length := by
    have := congrArg List.length h
    simpa using this
  unfold Websocket.live
  dsimp only
  rw [slice_moveDown, slice_write_above _ _ _ _ _ hk, hlen, Nat.add_sub_cancel_left]
  exact slice_of_append h

/-- Where the first frame is not complete, the loop waits for the rest of it. -/
theorem wsFrames_waits {fs : List ClientFrame} {e : Ending} {q : Bytes} (fuel : Nat)
    (h : OpenConn x y s) (hfs : ∀ f ∈ fs, f.Carried) (he : e.Fits)
    (hstream : s.ws.live ++ q = stream fs e) (hlt : s.ws.live.length < (firstFrame fs e).size) :
    ∃ t, wsFrames env (fuel + 1) s = some t ∧ Delivered x y fs e q s t := by
  have hmax : wsMaxLine = 16384 := rfl
  have hsize := firstFrame_size hfs he
  have hp := prefix_firstFrame ⟨q, hstream⟩ hlt
  unfold wsFrames
  rw [wsFrame_part (by omega) hp hlt rfl]
  exact ⟨s, by simp, .waiting [] fs rfl h hstream hlt ⟨by simp [toPeer], by simp [toClient]⟩⟩

/-- **The frame loop** delivers the frames that are complete. -/
theorem wsFrames_delivers (env : Env φ) (hx : ∀ k, env.send x k ≠ none) (hy : ∀ k, env.send y k ≠ none)
    (hne : x ≠ y) (fs : List ClientFrame) (e : Ending) (q : Bytes) (fuel : Nat) (h : OpenConn x y s)
    (hfs : ∀ f ∈ fs, f.Carried) (he : e.Fits) (hstream : s.ws.live ++ q = stream fs e)
    (hfuel : s.ws.live.length < fuel) :
    ∃ t, wsFrames env fuel s = some t ∧ Delivered x y fs e q s t := by
  have hmax : wsMaxLine = 16384 := rfl
  induction fs generalizing s fuel with
  | nil =>
      obtain ⟨fuel, rfl⟩ : ∃ k, fuel = k + 1 := ⟨fuel - 1, by omega⟩
      by_cases hlt : s.ws.live.length < (firstFrame [] e).size
      · exact wsFrames_waits fuel h hfs he hstream hlt
      · unfold wsFrames
        cases e with
        | part next n =>
            have hle := congrArg List.length hstream
            simp only [stream, List.flatMap_nil, List.nil_append, Ending.bytes, List.length_append,
              List.length_take] at hle
            have := he.1
            simp only [firstFrame] at hlt
            omega
        | last f =>
            have hwhole : s.ws.live ++ q = f.encode := by simpa [stream, Ending.bytes] using hstream
            have hlen := congrArg List.length hwhole
            rw [List.length_append] at hlen
            simp only [firstFrame, ClientFrame.size] at hlt
            have hq : q = [] := List.length_eq_zero_iff.mp (by omega)
            subst hq
            have hfront : s.ws.live = f.encode ++ [] := by rw [← hwhole]; simp
            have hsize : f.size ≤ wsMaxLine := he.2.trans (by omega)
            rw [wsFrame_whole hsize hfront]
            obtain ⟨h1, h2, h3⟩ := wsDispatch_last env
              (s := ⟨{ s.ws with
                readBuffer := write s.ws.readBuffer (f.header.length + 4) f.payload }, s.world⟩)
              hy hne ⟨h.state, h.peer, h.client⟩ he.1
            refine ⟨_, ?_, .ended f rfl rfl h1 h2 ⟨h3.peer, h3.client⟩⟩
            dsimp only
            rw [if_neg (by rw [h2]; omega)]
  | cons f fs ih =>
      obtain ⟨fuel, rfl⟩ : ∃ k, fuel = k + 1 := ⟨fuel - 1, by omega⟩
      have hf := hfs f List.mem_cons_self
      by_cases hlt : s.ws.live.length < (firstFrame (f :: fs) e).size
      · exact wsFrames_waits fuel h hfs he hstream hlt
      · -- the first frame is complete, and `rest` follows it in the buffer
        unfold wsFrames
        simp only [firstFrame, ClientFrame.size] at hlt
        have hsplit : s.ws.live ++ q = f.encode ++ stream fs e := by
          rw [hstream, stream, stream, List.flatMap_cons, List.append_assoc]
        obtain ⟨rest, hlive⟩ : ∃ rest, s.ws.live = f.encode ++ rest := by
          have hp : f.encode <+: s.ws.live :=
            List.prefix_of_prefix_length_le ⟨_, hsplit.symm⟩ ⟨q, rfl⟩ (by omega)
          exact ⟨_, hp.choose_spec.symm⟩
        have hrest : rest ++ q = stream fs e := by
          rw [hlive, List.append_assoc] at hsplit
          exact List.append_cancel_left hsplit
        have hoff : s.ws.readBufferOffset = f.size + rest.length := by
          have := congrArg List.length hlive
          simpa [Websocket.live, ClientFrame.size] using this
        have hpos : 0 < f.size := by rw [f.size_eq]; omega
        rw [wsFrame_whole (by have := hf.2; omega) hlive]
        obtain ⟨w, hw, hopen, hsent⟩ := wsDispatch_carried env
          (s := ⟨{ s.ws with
            readBuffer := write s.ws.readBuffer (f.header.length + 4) f.payload }, s.world⟩)
          hx hy hne ⟨h.state, h.peer, h.client⟩ hf
        rw [hw]
        dsimp only
        rw [if_pos ⟨hpos, by omega⟩]
        have hnext := live_moveDown s.ws hlive (f.header.length + 4) f.payload
          (by rw [← f.size_eq]; rfl)
        have hless : rest.length < fuel := by
          rw [hlive, List.length_append] at hfuel
          unfold ClientFrame.size at hpos
          omega
        obtain ⟨s', hs'⟩ : ∃ s' : Conn φ, s' = ⟨{ s.ws with
            readBuffer := moveDown (write s.ws.readBuffer (f.header.length + 4) f.payload) f.size
              (s.ws.readBufferOffset - f.size)
            readBufferOffset := s.ws.readBufferOffset - f.size }, w⟩ := ⟨_, rfl⟩
        have hlive' : s'.ws.live = rest := by rw [hs']; exact hnext
        have hopen' : OpenConn x y s' := by rw [hs']; exact ⟨h.state, hopen.peer, hopen.client⟩
        have hsent' : SentBoth x y (toPeer [f]) (toClient [f]) s s' := by
          rw [hs']
          exact ⟨hsent.peer, hsent.client⟩
        obtain ⟨t, ht, hdel⟩ := ih fuel hopen' (fun g hg => hfs g (List.mem_cons_of_mem _ hg))
          (by rw [hlive']; exact hrest) (by rw [hlive']; exact hless)
        rw [← hs']
        exact ⟨t, ht, hdel.cons hsent'⟩

/-! ## Calls of `ws_data` -/

/-- One call of `ws_data` on an open connection. -/
theorem wsData_delivers (hx : ∀ k, env.send x k ≠ none) (hy : ∀ k, env.send y k ≠ none)
    (hne : x ≠ y) (fs : List ClientFrame) (e : Ending) (b q : Bytes) (h : OpenConn x y s)
    (hfs : ∀ f ∈ fs, f.Carried) (he : e.Fits) (hb : ReadFits s b)
    (hstream : s.ws.live ++ b ++ q = stream fs e) :
    ∃ t, wsData env (some b) s = some t ∧ Delivered x y fs e q s t := by
  have hmax : wsMaxLine = 16384 := rfl
  have hrecv : recv s.ws.wsFd (wsMaxLine - s.ws.readBufferOffset - 1) (some b) s.world =
      (some b, s.world.record (.received y b)) := by
    unfold recv
    rw [h.client]
    dsimp only
    rw [List.take_of_length_le hb.2]
  obtain ⟨hlive, hdata⟩ := slice_filled s.ws b
  have hfilled : ({ s.ws.filled b with
      readBufferOffset := s.ws.readBufferOffset + b.length } : Websocket φ).live =
        s.ws.live ++ b := by
    unfold Websocket.live at hlive ⊢
    dsimp only
    rw [slice_add, hlive, Nat.zero_add, hdata]
  have hlog : ∀ z, written z (s.world.record (.received y b)).log = written z s.world.log := by
    intro z
    simp [written]
  obtain ⟨t, ht, hdel⟩ := wsFrames_delivers env (s := ⟨{ s.ws.filled b with
      readBufferOffset := s.ws.readBufferOffset + b.length }, s.world.record (.received y b)⟩)
    hx hy hne fs e q (s.ws.readBufferOffset + b.length + 1) ⟨h.state, h.peer, h.client⟩ hfs he
    (by rw [hfilled]; exact hstream)
    (by rw [hfilled, List.length_append, Websocket.live, length_slice]; omega)
  have hdel' : Delivered x y fs e q s t := by
    cases hdel with
    | waiting fs₁ fs₂ hfs h hrest hpart hsent =>
        exact .waiting fs₁ fs₂ hfs h hrest hpart
          ⟨by rw [hsent.peer, hlog], by rw [hsent.client, hlog]⟩
    | ended g he hq h ho hsent =>
        exact .ended g he hq h ho ⟨by rw [hsent.peer, hlog], by rw [hsent.client, hlog]⟩
  -- the part of a frame that is left is below the size limit
  have hlimit : ¬wsMaxLine - t.ws.readBufferOffset < 2 := by
    cases hdel' with
    | waiting fs₁ fs₂ hsplit h hrest hpart hsent =>
        have hsize : (firstFrame fs₂ e).size ≤ wsMaxLine - 1 := firstFrame_size
          (fun g hg => hfs g (by rw [hsplit]; exact List.mem_append_right _ hg)) he
        rw [Websocket.live, length_slice] at hpart
        omega
    | ended g he hq h ho hsent => omega
  refine ⟨t, ?_, hdel'⟩
  have hswitch : wsDataSwitch env b.length ⟨s.ws.filled b, s.world.record (.received y b)⟩ = some t := by
    unfold wsDataSwitch
    rw [show (s.ws.filled b).state = .wsOpen from h.state]
    exact ht
  unfold wsData
  rw [hrecv]
  cases hbe : b with
  | nil => exact absurd hbe hb.1
  | cons z zs =>
      rw [hbe] at hswitch
      dsimp only
      rw [show Conn.mk { s.ws with
          readBuffer := write s.ws.readBuffer s.ws.readBufferOffset (z :: zs ++ [0]) }
          (s.world.record (.received y (z :: zs))) =
        ⟨s.ws.filled (z :: zs), s.world.record (.received y (z :: zs))⟩ from rfl, hswitch,
        Option.map_some, if_neg hlimit]

/-- The connection after the whole stream came: closed by the last frame, or open with
the part of a frame in its buffer. -/
def StreamEnd (x y : Nat) (fs : List ClientFrame) (s t : Conn φ) : Ending → Prop
  | .part next n =>
    OpenConn x y t ∧ t.ws.live = next.encode.take n ∧ SentBoth x y (toPeer fs) (toClient fs) s t
  | .last f =>
    t.ws.state = .wsClosed ∧ SentBoth x y (toPeer fs) (toClient fs ++ closeAnswer f) s t

/-- The stream in reads, from a connection that may hold some of it in its buffer. -/
theorem reads_deliver (hx : ∀ k, env.send x k ≠ none) (hy : ∀ k, env.send y k ≠ none)
    (hne : x ≠ y) (fs : List ClientFrame) (e : Ending) (chunks : List Bytes) (h : OpenConn x y s)
    (hfs : ∀ f ∈ fs, f.Carried) (he : e.Fits)
    (hpart : s.ws.live.length < (firstFrame fs e).size)
    (hstream : s.ws.live ++ chunks.flatten = stream fs e)
    (hfit : (dataCalls env).Meets ReadFits chunks s) :
    ∃ t, (dataCalls env).exec chunks s = some t ∧ StreamEnd x y fs s t e := by
  induction chunks generalizing s fs with
  | nil =>
      refine ⟨s, rfl, ?_⟩
      rw [List.flatten_nil, List.append_nil] at hstream
      cases fs with
      | cons f fs =>
          have := congrArg List.length hstream
          simp only [stream, List.flatMap_cons, List.length_append, firstFrame, ClientFrame.size]
            at this hpart
          omega
      | nil =>
          cases e with
          | part next n =>
              refine ⟨h, hstream, ⟨by simp [toPeer], by simp [toClient]⟩⟩
          | last f =>
              have := congrArg List.length hstream
              simp only [stream, List.flatMap_nil, List.nil_append, Ending.bytes, firstFrame,
                ClientFrame.size] at this hpart
              omega
  | cons b chunks ih =>
      obtain ⟨hb, hfit⟩ := hfit
      rw [List.flatten_cons, ← List.append_assoc] at hstream
      obtain ⟨t, ht, hdel⟩ := wsData_delivers hx hy hne fs e b chunks.flatten h hfs he hb hstream
      have hstep : (dataCalls env).step b s = some t := ht
      rw [hstep] at hfit
      simp only [Machine.exec, hstep, Option.bind_some]
      cases hdel with
      | waiting fs₁ fs₂ hsplit hopen hrest hpart' hsent =>
          obtain ⟨u, hu, hend⟩ := ih fs₂ hopen
            (fun g hg => hfs g (by rw [hsplit]; exact List.mem_append_right _ hg)) hpart' hrest hfit
          refine ⟨u, hu, ?_⟩
          have hp : toPeer fs = toPeer fs₁ ++ toPeer fs₂ := by rw [hsplit]; simp [toPeer]
          have hc : toClient fs = toClient fs₁ ++ toClient fs₂ := by rw [hsplit]; simp [toClient]
          cases e with
          | part next n =>
              obtain ⟨h1, h2, h3⟩ := hend
              exact ⟨h1, h2, by rw [hp, hc]; exact hsent.trans h3⟩
          | last f =>
              obtain ⟨h1, h2⟩ := hend
              refine ⟨h1, ?_⟩
              rw [hp, hc, List.append_assoc]
              exact hsent.trans h2
      | ended f hlast hq hclosed ho hsent =>
          -- nothing is left to read
          cases chunks with
          | nil =>
              subst hlast
              exact ⟨t, rfl, hclosed, hsent⟩
          | cons c cs =>
              obtain ⟨hc, -⟩ := hfit
              rw [List.flatten_cons, List.append_eq_nil_iff] at hq
              exact absurd hq.1 hc.1

/-- **Delivery**: a client sends frames that each fit into the buffer, then a part of a
frame or one that ends the connection.  In whatever reads these bytes come, as long
as each fits into the free buffer, the peer gets the payloads of the text and binary
frames in order, the client gets the pongs in order, and the connection stays open
with the part in its buffer, or is closed after the last frame. -/
theorem frames_delivered (env : Env φ) (x y : Nat) (hx : ∀ k, env.send x k ≠ none)
    (hy : ∀ k, env.send y k ≠ none) (hne : x ≠ y) (s : Conn φ) (h : OpenConn x y s)
    (hempty : s.ws.readBufferOffset = 0) (fs : List ClientFrame) (hfs : ∀ f ∈ fs, f.Carried)
    (e : Ending) (he : e.Fits) (chunks : List Bytes) (hstream : chunks.flatten = stream fs e)
    (hfit : (dataCalls env).Meets ReadFits chunks s) :
    ∃ t, (dataCalls env).exec chunks s = some t ∧ StreamEnd x y fs s t e := by
  have hlive : s.ws.live = [] := by rw [Websocket.live, hempty, slice_zero]
  refine reads_deliver hx hy hne fs e chunks h hfs he ?_ (by rw [hlive]; exact hstream) hfit
  rw [hlive, ClientFrame.size_eq]
  simp only [List.length_nil]
  omega

end

/-- A text frame, a ping whose length is not written in the shortest way, a close frame. -/
def sampleFrames : ClientFrame × ClientFrame × ClientFrame :=
  (⟨0x81, .short, [1, 2, 3, 4], ascii "hello", rfl, by decide⟩,
    ⟨0x89, .word, [9, 9, 0, 1], ascii "?", rfl, by decide⟩,
    ⟨0x88, .short, [0, 0, 0, 7], [], rfl, by decide⟩)

/-- The three frames in reads of seven bytes. -/
def sampleChunks : List Bytes :=
  let b := stream [sampleFrames.1, sampleFrames.2.1] (.last sampleFrames.2.2)
  [b.take 7, (b.drop 7).take 7, (b.drop 14).take 7, b.drop 21]

theorem frames_delivered_sample :
    toPeer [sampleFrames.1, sampleFrames.2.1] = ascii "hello" ∧
    toClient [sampleFrames.1, sampleFrames.2.1] = wsEncode .pong (ascii "?") ∧
    ∃ t, (dataCalls sampleEnv).exec sampleChunks sampleOpen = some t ∧
      StreamEnd 5 4 [sampleFrames.1, sampleFrames.2.1] sampleOpen t (.last sampleFrames.2.2) := by
  refine ⟨by decide, by decide, frames_delivered sampleEnv 5 4 (fun _ => by simp [sampleEnv])
    (fun _ => by simp [sampleEnv]) (by decide) sampleOpen ⟨rfl, rfl, rfl⟩ rfl _ ?_ _ ?_ sampleChunks
    (by decide) (by decide)⟩
  · intro f hf
    simp only [List.mem_cons, List.not_mem_nil, or_false] at hf
    rcases hf with rfl | rfl <;> exact ⟨by decide, by decide⟩
  · exact ⟨by decide, by decide⟩

end Websocksy

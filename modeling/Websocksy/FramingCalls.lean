import Websocksy.Builtins
import Websocksy.FramingLoop

/-!
# When the framing function is called again

The loop of `ws_peer_data` goes on as long as `bytes_framed` is not 0, but one branch of
its accounting has changed that variable before the test.  So the loop ends too early
when a frame ends where the bytes of earlier reads ended (`called_again_iff`), and it does
not end when the framing function reports errors for ever, or does not come back itself
(`peer_data_returns_iff`).
The opcode is a variable of the call, not of the pass (`opcode_independent_iff`).
-/

namespace Websocksy

open Buffer CString Relation

variable {φ : Type}

/-! ## What the log says of the framing function -/

inductive FramingNote
  | called (data : Bytes)
  | taken (data : Bytes)
  deriving DecidableEq

/-- The calls of the framing function of a connection and the segments taken. -/
def framingNotes (conn : Nat) (log : List Event) : List FramingNote :=
  log.flatMap fun
    | .framing c data _ => if c = conn then [.called data] else []
    | .segment c _ data => if c = conn then [.taken data] else []
    | _ => []

@[simp] theorem framingNotes_append (conn : Nat) (l m : List Event) :
    framingNotes conn (l ++ m) = framingNotes conn l ++ framingNotes conn m := List.flatMap_append

/-- The framing function is called on the bytes `data`, and again on what is left after a
segment, until it declines or nothing is left; `left` is what stays. -/
inductive FramedAll : Bytes → List FramingNote → Bytes → Prop
  | declined (data : Bytes) : FramedAll data [.called data] data
  | all (data : Bytes) : FramedAll data [.called data, .taken data] []
  | again (seg data : Bytes) (notes : List FramingNote) (left : Bytes) (hne : data ≠ [])
      (h : FramedAll data notes left) :
      FramedAll (seg ++ data) (.called (seg ++ data) :: .taken seg :: notes) left

/-- A frame ends where the bytes that earlier reads left end, and more bytes follow. -/
def FramingCall.Stalls (f : WsFraming φ) (config : Option Bytes) (c : FramingCall φ) : Prop :=
  (c.answer f config).1 = c.offset ∧ 0 < c.offset ∧ 0 < c.bytesRead

section

variable {env : Env φ} {f : WsFraming φ} {config : Option Bytes} {c c' : FramingCall φ}
  {s t : Conn φ}

theorem FramedAll.ne_nil {data left : Bytes} {notes : List FramingNote}
    (h : FramedAll data notes left) : notes ≠ [] := by
  cases h <;> simp

theorem FramedAll.last {seg data left : Bytes}
    (h : FramedAll (seg ++ data) [.called (seg ++ data), .taken seg] left) : data = [] := by
  generalize hd : seg ++ data = whole at h
  generalize hn : [FramingNote.called whole, .taken seg] = notes at h
  cases h with
  | declined => cases hn
  | all =>
      cases hn
      simpa using hd
  | again seg' data' notes left hne h =>
      cases hn
      exact absurd rfl h.ne_nil

theorem FramedAll.again_iff {seg data left : Bytes} {notes : List FramingNote} (hne : data ≠ []) :
    FramedAll (seg ++ data) (.called (seg ++ data) :: .taken seg :: notes) left ↔
      FramedAll data notes left := by
  refine ⟨fun h => ?_, .again seg data notes left hne⟩
  generalize hd : seg ++ data = whole at h
  generalize hn : FramingNote.called whole :: .taken seg :: notes = all at h
  cases h with
  | declined => cases hn
  | all =>
      cases hn
      exact absurd (by simpa using hd) hne
  | again seg' data' notes' left hne' h =>
      rw [List.cons.injEq, List.cons.injEq, FramingNote.taken.injEq] at hn
      obtain ⟨-, rfl, rfl⟩ := hn
      rw [List.append_cancel_left hd]
      exact h

theorem OnlySends.framingNotes {fd : Option Nat} {w w' : World} (h : OnlySends fd w w')
    (conn : Nat) : framingNotes conn w'.log = framingNotes conn w.log := by
  obtain ⟨es, he, hes⟩ := h.log
  have hnil : Websocksy.framingNotes conn es = [] := by
    unfold Websocksy.framingNotes
    rw [List.flatMap_eq_nil_iff]
    intro e hm
    obtain ⟨x, -, rfl | ⟨d, rfl⟩⟩ := hes e hm <;> rfl
  rw [he, framingNotes_append, hnil, List.append_nil]

theorem OnlySends.segments {fd : Option Nat} {w w' : World} (h : OnlySends fd w w')
    (conn : Nat) : segments conn w'.log = segments conn w.log := by
  obtain ⟨es, he, hes⟩ := h.log
  have hnil : Websocksy.segments conn es = [] := by
    unfold Websocksy.segments
    rw [List.flatMap_eq_nil_iff]
    intro e hm
    obtain ⟨x, -, rfl | ⟨d, rfl⟩⟩ := hes e hm <;> rfl
  rw [he, segments_append, hnil, List.append_nil]

/-! ## Calls again -/

theorem Leads_of_next (h : c.next f config = some c') {P : FramingCall φ → Prop} :
    (∀ d, c.Leads f config d → P d) ↔ P c ∧ ∀ d, c'.Leads f config d → P d := by
  constructor
  · intro hall
    exact ⟨hall c .refl, fun d hd => hall d (.head h hd)⟩
  · rintro ⟨hc, hall⟩ d hd
    rcases ReflTransGen.cases_head hd with rfl | ⟨e, he, hed⟩
    · exact hc
    · rw [h] at he
      cases he
      exact hall d hed

theorem Leads_of_last (h : c.next f config = none) {P : FramingCall φ → Prop} :
    (∀ d, c.Leads f config d → P d) ↔ P c := by
  constructor
  · exact fun hall => hall c .refl
  · intro hc d hd
    rcases ReflTransGen.cases_head hd with rfl | ⟨e, he, -⟩
    · exact hc
    · rw [h] at he
      cases he

theorem framingNotes_called (f : WsFraming φ) (op : WsOperation) (bytesRead : Nat) (s : Conn φ) :
    framingNotes s.ws.conn ((s.framingCall op bytesRead).called f s).world.log =
      framingNotes s.ws.conn s.world.log ++ [.called (s.framingCall op bytesRead).live] := by
  unfold FramingCall.called framingCalled
  rw [World.record_log, framingNotes_append]
  simp [framingNotes, FramingCall.live, FramingCall.length, Conn.framingCall]

/-- **The framing loop calls the framing function as often as it should**, unless it stalls. -/
theorem wsFraming_notes (hb : Framing.Bounded f s.ws.peer.framingConfig) (fuel : Nat) (op : WsOperation) (bytesRead : Nat)
    (hf : s.ws.peer.framing = some f) (h : wsFraming env fuel op bytesRead s = some (false, t)) :
    ∃ notes, framingNotes s.ws.conn t.world.log = framingNotes s.ws.conn s.world.log ++ notes ∧
      (FramedAll (s.framingCall op bytesRead).live notes t.ws.peerLive ↔
        ∀ c, (s.framingCall op bytesRead).Leads f s.ws.peer.framingConfig c →
          ¬c.Stalls f s.ws.peer.framingConfig) := by
  induction fuel generalizing s op bytesRead with
  | zero => cases h
  | succ fuel ih =>
      obtain ⟨p, hpass, hp⟩ := wsFraming_passed env op bytesRead hf
      rw [hp] at h
      have hcalled := framingNotes_called f op bytesRead s
      generalize s.framingCall op bytesRead = c at hpass hcalled ⊢
      obtain ⟨hge, hle⟩ : 0 ≤ (c.answer f s.ws.peer.framingConfig).1 ∧
          (c.answer f s.ws.peer.framingConfig).1 ≤ c.length :=
        hb c.buffer c.length c.bytesRead c.opcode c.framingData (Nat.le_add_left _ _)
      have hlen : c.length = c.offset + c.bytesRead := rfl
      -- after a segment, the notes and what it means to stall here
      have htaken : ∀ {o : WsOperation} {seg : Bytes} {w : World},
          OnlySends s.ws.wsFd (c.called f s).world w →
          framingNotes s.ws.conn (w.record (.segment s.ws.conn o seg)).log =
            framingNotes s.ws.conn s.world.log ++ [.called c.live, .taken seg] := by
        intro o seg w hw
        rw [World.record_log, framingNotes_append, hw.framingNotes, hcalled]
        simp [framingNotes]
      have hstall : ∀ {o : WsOperation} {seg : Bytes} {rest : FramingCall φ} {again : Bool} {k : Nat},
          c.Takes f s.ws.peer.framingConfig o seg rest again k →
          (c.Stalls f s.ws.peer.framingConfig ↔ k = c.offset ∧ 0 < rest.length) := by
        intro o seg rest again k hk
        have h1 := hk.value
        have h2 := hk.pos
        have h3 := hk.length
        unfold FramingCall.Stalls
        omega
      cases hpass with
      | overrun hover hn => omega
      | unsent o seg rest again k hk w hw hs => cases h
      | failed rest hz hl hn hc hrest => omega
      | declined hz hd hn =>
          cases h
          refine ⟨[.called c.live], hcalled, ?_⟩
          rw [Leads_of_last hn]
          refine ⟨fun _ hs => ?_, fun _ => .declined _⟩
          obtain ⟨h1, h2, h3⟩ := hs
          omega
      | last o seg rest k hk hn w hw =>
          cases h
          refine ⟨_, htaken hw, ?_⟩
          rw [Leads_of_last hn, hstall hk]
          have hlast := hk.again
          simp only [Bool.false_eq_true, false_iff] at hlast
          have hnil : rest.live = [] ↔ rest.length = 0 := by
            rw [← List.length_eq_zero_iff, FramingCall.live, length_slice]
          rw [hk.live]
          constructor
          · intro hall
            have := hnil.mp hall.last
            omega
          · intro hno
            have hzero : rest.live = [] := hnil.mpr (by omega)
            show FramedAll _ _ rest.live
            rw [hzero, List.append_nil]
            exact .all seg
      | again o seg rest k hk hn w hw hc =>
          obtain ⟨notes, hlog, hiff⟩ := ih (by exact hb) _ _ (by exact hf) h
          rw [hc] at hiff
          have hgoes := hk.again.mp rfl
          have hne : rest.live ≠ [] := by
            rw [ne_eq, ← List.length_eq_zero_iff, FramingCall.live, length_slice]
            omega
          refine ⟨.called c.live :: .taken seg :: notes, ?_, ?_⟩
          · refine hlog.trans ?_
            show framingNotes s.ws.conn (w.record _).log ++ notes = _
            rw [htaken hw]
            simp
          · rw [hk.live, FramedAll.again_iff hne, Leads_of_next hn, hstall hk]
            refine hiff.trans ⟨fun hall => ⟨fun h => hgoes.1 h.1, hall⟩, And.right⟩

/-- **Framing is repeated until it declines** exactly if no frame ends where the bytes of
earlier reads end while more bytes follow it. -/
theorem called_again_iff (env : Env φ) (fuel : Nat) (f : WsFraming φ) (s t : Conn φ)
    (hb : Framing.Bounded f s.ws.peer.framingConfig) (hf : s.ws.peer.framing = some f) (x : Nat)
    (hx : s.world.sockAt s.ws.peerFd = some x) (b data : Bytes)
    (hd : b.take (peerBufferSize - s.ws.peerBufferOffset - 1) = data) (hne : data ≠ [])
    (h : wsPeerData env fuel (some b) s = some (false, t)) :
    ∃ notes, framingNotes s.ws.conn t.world.log = framingNotes s.ws.conn s.world.log ++ notes ∧
      (FramedAll (s.ws.peerLive ++ data) notes t.ws.peerLive ↔
        ∀ c, (s.firstCall data).Leads f s.ws.peer.framingConfig c →
          ¬c.Stalls f s.ws.peer.framingConfig) := by
  rw [wsPeerData_received env fuel hx hd hne] at h
  obtain ⟨notes, hlog, hiff⟩ := wsFraming_notes (s := s.peerReceived x data) (by exact hb) fuel .binary
    data.length hf h
  refine ⟨notes, ?_, ?_⟩
  · refine hlog.trans ?_
    unfold Conn.peerReceived
    rw [World.record_log, framingNotes_append]
    simp [framingNotes]
  · rw [← firstCall_live]
    exact hiff

end

/-- An open connection whose peer's bytes are framed by `f`. -/
def framedOpen (f : WsFraming φ) (config : Option Bytes) : Conn φ where
  ws :=
    { conn := 0, wsFd := some 4, state := .wsOpen, peerFd := some 5
      peer := { framing := some f, framingConfig := config } }
  world := { fds := [some 0, some 1, some 2, some 3, some 4, some 5], socks := 6, conns := 1 }

/-- An outside without backend, whose sends succeed. -/
def sendingEnv : Env φ where
  query _ _ _ _ := {}
  connect _ _ := true
  send _ _ := some 1000
  sha1 b := b
  base64 b := b
  pingInterval := 30

/-- One byte at a time, as long as another one follows it. -/
def framingByte : WsFraming Unit := fun _ length _ opcode framingData _ =>
  (if 2 ≤ length then 1 else 0, opcode, framingData)

theorem framingByte_bounded (config : Option Bytes) : Framing.Bounded framingByte config := by
  intro buffer length lastRead opcode framingData hlast
  unfold framingByte
  dsimp only
  split <;> omega

/-- The connection after "a" came from the peer. -/
def sampleByte : Conn Unit :=
  ((wsPeerData sendingEnv 2 (some (ascii "a")) (framedOpen framingByte none)).map (·.2)).get (by decide)

theorem called_again_iff_sample :
    ∃ t notes, wsPeerData sendingEnv 4 (some (ascii "abc")) (framedOpen framingByte none) =
        some (false, t) ∧
      (FramedAll (ascii "abc") notes t.ws.peerLive ↔
        ∀ c, ((framedOpen framingByte none).firstCall (ascii "abc")).Leads framingByte none c →
          ¬c.Stalls framingByte none) := by
  have hsome : (wsPeerData sendingEnv 4 (some (ascii "abc"))
      (framedOpen framingByte none)).isSome := by decide
  have hrun : wsPeerData sendingEnv 4 (some (ascii "abc")) (framedOpen framingByte none) =
      some (false, ((wsPeerData sendingEnv 4 (some (ascii "abc"))
        (framedOpen framingByte none)).get hsome).2) := by rfl
  obtain ⟨notes, -, hiff⟩ := called_again_iff sendingEnv 4 framingByte (framedOpen framingByte none)
    _ (framingByte_bounded none) rfl 5 rfl (ascii "abc") (ascii "abc") (by decide) (by decide) hrun
  exact ⟨_, notes, hrun, hiff⟩

/-- "a" and then "bc" come: the frame "a" ends where the first read ended, and the function is
not called on "bc". -/
theorem called_again_fails :
    ∃ t, wsPeerData sendingEnv 4 (some (ascii "bc")) sampleByte = some (false, t) ∧
      framingNotes 0 t.world.log = framingNotes 0 sampleByte.world.log ++
        [.called (ascii "abc"), .taken (ascii "a")] ∧
      t.ws.peerLive = ascii "bc" ∧
      ¬FramedAll (ascii "abc") [.called (ascii "abc"), .taken (ascii "a")] t.ws.peerLive := by
  refine ⟨_, rfl, by decide, by decide, fun h => ?_⟩
  have hlast : FramedAll (ascii "a" ++ ascii "bc") [.called _, .taken (ascii "a")] _ := h
  cases hlast.last

section

variable {env : Env φ} {f : WsFraming φ} {config : Option Bytes} {c c' : FramingCall φ}
  {s t : Conn φ}

/-! ## Errors -/

/-- The call after `n` errors in a row. -/
def FramingCall.afterErrors (f : WsFraming φ) (config : Option Bytes) :
    Nat → FramingCall φ → FramingCall φ
  | 0, c => c
  | n + 1, c => afterErrors f config n
    { c with opcode := (c.answer f config).2.1, framingData := (c.answer f config).2.2 }

/-- The framing function reports an error, and then for ever. -/
def FramingCall.Spins (f : WsFraming φ) (config : Option Bytes) (c : FramingCall φ) : Prop :=
  0 < c.length ∧ ∀ n, ((c.afterErrors f config n).answer f config).1 < 0

theorem FramingCall.Spins.next (h : c.Spins f config) :
    FramingCall.Spins f config
      { c with opcode := (c.answer f config).2.1, framingData := (c.answer f config).2.2 } :=
  ⟨h.1, fun n => h.2 (n + 1)⟩

/-- The loop does not end where the framing function fails for ever. -/
theorem wsFraming_spins (env : Env φ) (fuel : Nat) (op : WsOperation) (bytesRead : Nat)
    (hf : s.ws.peer.framing = some f)
    (h : (s.framingCall op bytesRead).Spins f s.ws.peer.framingConfig) :
    wsFraming env fuel op bytesRead s = none := by
  induction fuel generalizing s op bytesRead with
  | zero => rfl
  | succ fuel ih =>
      obtain ⟨p, hpass, hp⟩ := wsFraming_passed env op bytesRead hf
      rw [hp]
      have hneg := h.2 0
      have hnext := FramingCall.Spins.next h
      have hlen := h.1
      rw [FramingCall.afterErrors] at hneg
      generalize s.framingCall op bytesRead = c at hpass hneg hlen hnext
      cases hpass with
      | overrun hover hn => omega
      | unsent o seg rest again k hk w hw hs =>
          have := hk.value
          omega
      | last o seg rest k hk hn w hw =>
          have := hk.value
          omega
      | again o seg rest k hk hn w hw hc =>
          have := hk.value
          omega
      | declined hz hd hn => omega
      | failed rest hz hl hn hc hr =>
          refine ih _ _ hf ?_
          rw [hc, hr]
          exact hnext

/-- The loop ends if the framing function does not fail for ever on any bytes it is given. -/
theorem wsFraming_returns (env : Env φ) (op : WsOperation) (bytesRead : Nat)
    (hf : s.ws.peer.framing = some f)
    (h : ∀ c, (s.framingCall op bytesRead).Leads f s.ws.peer.framingConfig c →
      ¬c.Spins f s.ws.peer.framingConfig) :
    ∃ fuel, (wsFraming env fuel op bytesRead s).isSome := by
  generalize hlen : (s.framingCall op bytesRead).length = len
  induction len using Nat.strongRecOn generalizing s op bytesRead with
  | ind len ih =>
      obtain ⟨n, hn⟩ : ∃ n, 0 < len → 0 ≤ (((s.framingCall op bytesRead).afterErrors f
          s.ws.peer.framingConfig n).answer f s.ws.peer.framingConfig).1 := by
        by_contra hno
        simp only [not_exists, Classical.not_imp] at hno
        exact h _ .refl ⟨hlen ▸ (hno 0).1, fun n => Int.not_le.mp (hno n).2⟩
      -- the errors that come first leave the bytes as they are
      induction n using Nat.strongRecOn generalizing s op bytesRead with
      | ind n ihn =>
          obtain ⟨p, hpass, hp⟩ := wsFraming_passed env op bytesRead hf
          generalize s.framingCall op bytesRead = c at hpass hlen hn h
          cases hpass with
          | again o seg rest k hk hnext w hw hc =>
              have hless := hk.length
              have hpos := hk.pos
              obtain ⟨fuel, hfuel⟩ := ih rest.length (by omega)
                (s := c.taken f o seg rest rest.offset w s) rest.opcode rest.bytesRead hf
                (by rw [hc]; exact fun d hd => h d (.head hnext hd)) (by rw [hc])
              exact ⟨fuel + 1, by rw [hp]; exact hfuel⟩
          | failed rest hz hl hnext hc hr =>
              cases n with
              | zero =>
                  rw [FramingCall.afterErrors] at hn
                  omega
              | succ n =>
                  obtain ⟨fuel, hfuel⟩ := ihn n (by omega) (s := c.called f s) rest.opcode
                    rest.bytesRead hf (by rw [hc]; exact fun d hd => h d (.head hnext hd))
                    (by rw [hc, hr]; exact hlen) (by rw [hc, hr]; exact hn)
                  exact ⟨fuel + 1, by rw [hp]; exact hfuel⟩
          | _ => exact ⟨1, by rw [hp]; rfl⟩

/-- Where no send fails, the loop makes every call, and so it does not end if one of
them fails for ever. -/
theorem wsFraming_diverges {y : Nat} (hsend : ∀ k, env.send y k ≠ none) (fuel : Nat)
    (op : WsOperation) (bytesRead : Nat) (hf : s.ws.peer.framing = some f)
    (hy : s.world.sockAt s.ws.wsFd = some y)
    (hl : (s.framingCall op bytesRead).Leads f s.ws.peer.framingConfig c)
    (hs : c.Spins f s.ws.peer.framingConfig) : wsFraming env fuel op bytesRead s = none := by
  induction fuel generalizing s op bytesRead with
  | zero => rfl
  | succ fuel ih =>
      rcases ReflTransGen.cases_head hl with rfl | ⟨d, hd, hdc⟩
      · exact wsFraming_spins env (fuel + 1) op bytesRead hf hs
      obtain ⟨p, hpass, hp⟩ := wsFraming_passed env op bytesRead hf
      rw [hp]
      generalize s.framingCall op bytesRead = e at hpass hd
      cases hpass with
      | overrun hover hn =>
          rw [hn] at hd
          cases hd
      | unsent o seg rest again k hk w hw hfail =>
          obtain ⟨ds, -, hok⟩ := wsForward_sends (s := e.called f s) hsend o seg hy
          rw [hok] at hfail
          cases hfail
      | last o seg rest k hk hn w hw =>
          rw [hn] at hd
          cases hd
      | declined hz hdec hn =>
          rw [hn] at hd
          cases hd
      | again o seg rest k hk hn w hw hc =>
          obtain rfl := Option.some.inj (hn.symm.trans hd)
          have hopen : w.sockAt s.ws.wsFd = some y := (hw.sockAt _).trans hy
          exact ih (s := e.taken f o seg rest rest.offset w s) _ _ hf hopen (by rw [hc]; exact hdc) hs
      | failed rest hz hpos hn hc hr =>
          obtain rfl := Option.some.inj (hn.symm.trans hd)
          exact ih (s := e.called f s) _ _ hf hy (by rw [hc]; exact hdc) hs

/-- Every call of the loop is made on some bytes. -/
theorem FramingCall.Leads.length_pos (h : c.Leads f config c') (hpos : 0 < c.length) :
    0 < c'.length := by
  induction h with
  | refl => exact hpos
  | tail hleads hnext ih =>
      rename_i d e
      unfold FramingCall.next at hnext
      split at hnext
      · next htake =>
        cases hnext
        obtain ⟨k, hk⟩ := FramingCall.take_segment htake
        exact (hk.again.mp rfl).2
      · next htake =>
        cases hnext
        obtain ⟨-, hlen, hrest⟩ := FramingCall.take_failed htake
        rw [hrest]
        exact hlen
      · cases hnext

/-! ## Calls that do not come back -/

/-- The framing loop, where a call of the framing function may not come back. -/
def wsFraming? (env : Env φ) (f : WsFraming? φ) :
    Nat → WsOperation → Nat → Conn φ → Option (Bool × Conn φ)
  | 0, _, _, _ => none
  | fuel + 1, opcode, bytesRead, s =>
    match f (some s.ws.peerBuffer) (s.ws.peerBufferOffset + bytesRead) bytesRead (some opcode)
        s.ws.peerFramingData s.ws.peer.framingConfig with
    | none => none
    | some r =>
      match wsFramed env r.1 (r.2.1.getD opcode) bytesRead (framingCalled bytesRead r.2.2 s) with
      | .done rv s => some (rv, s)
      | .again opcode bytesRead s => wsFraming? env f fuel opcode bytesRead s

/-- `ws_peer_data` with this framing function. -/
def wsPeerData? (env : Env φ) (f : WsFraming? φ) (fuel : Nat) (answer : Option Bytes) (s : Conn φ) :
    Option (Bool × Conn φ) :=
  let r := recv s.ws.peerFd (peerBufferSize - s.ws.peerBufferOffset - 1) answer s.world
  let s := { s with world := r.2 }
  match r.1 with
  | none => some (false, wsClose env .unexpected (some (ascii "Peer connection failed")) s)
  | some [] => some (false, wsClose env .normal (some (ascii "Peer closed connection")) s)
  | some data =>
    let buffer := write s.ws.peerBuffer s.ws.peerBufferOffset (data ++ [0])
    wsFraming? env f fuel .binary data.length { s with ws := { s.ws with peerBuffer := buffer } }

/-- The call comes back. -/
def FramingCall.ComesBack (f : WsFraming? φ) (config : Option Bytes) (c : FramingCall φ) : Prop :=
  (f (some c.buffer) c.length c.bytesRead (some c.opcode) c.framingData config).isSome

/-- A call that does not come back is made again for ever. -/
theorem FramingCall.spins_of_lost {f : WsFraming? φ} (hpos : 0 < c.length)
    (h : ¬c.ComesBack f config) : c.Spins f.total config := by
  rw [FramingCall.ComesBack, Option.not_isSome_iff_eq_none] at h
  have hanswer : c.answer f.total config = (-1, c.opcode, c.framingData) := by
    unfold FramingCall.answer WsFraming?.total
    rw [h]
    rfl
  have hsame (n : Nat) : c.afterErrors f.total config n = c := by
    induction n with
    | zero => rfl
    | succ n ih =>
        rw [FramingCall.afterErrors, hanswer]
        exact ih
  refine ⟨hpos, fun n => ?_⟩
  rw [hsame, hanswer]
  exact Int.negSucc_lt_zero 0

/-- Another pass has the same peer, and bytes to frame. -/
theorem wsFramed_again {n : Int} {op op' : WsOperation} {bytesRead m : Nat}
    (h : wsFramed env n op bytesRead s = .again op' m t) :
    t.ws.peer = s.ws.peer ∧ 0 < (t.framingCall op' m).length := by
  have hsent := wsForward_ws env op (slice s.ws.peerBuffer 0 n.toNat) s
  unfold wsFramed at h
  dsimp only at h
  split at h
  · split at h
    · cases h
    split at h
    · cases h
    split at h
    · next hbefore =>
      cases h
      refine ⟨rfl, ?_⟩
      show 0 < s.ws.peerBufferOffset - n.toNat + bytesRead
      omega
    · split at h
      · next hleft =>
        cases h
        refine ⟨rfl, ?_⟩
        show 0 < 0 + (bytesRead - (n.toNat - s.ws.peerBufferOffset))
        omega
      · cases h
  · split at h
    · next hneg =>
      cases h
      exact ⟨rfl, hneg.2⟩
    · cases h

/-- **The loop does not come back from such a call**, as the model of the core loop has it. -/
theorem wsFraming_total {f : WsFraming? φ} (fuel : Nat) (op : WsOperation) (bytesRead : Nat)
    (hf : s.ws.peer.framing = some f.total) (hpos : 0 < (s.framingCall op bytesRead).length) :
    wsFraming env fuel op bytesRead s = wsFraming? env f fuel op bytesRead s := by
  induction fuel generalizing s op bytesRead with
  | zero => rfl
  | succ fuel ih =>
      cases hcall : f (some s.ws.peerBuffer) (s.ws.peerBufferOffset + bytesRead) bytesRead (some op)
          s.ws.peerFramingData s.ws.peer.framingConfig with
      | none =>
          have hlost : ¬(s.framingCall op bytesRead).ComesBack f s.ws.peer.framingConfig :=
            Option.not_isSome_iff_eq_none.mpr hcall
          rw [wsFraming_spins env (fuel + 1) op bytesRead hf (FramingCall.spins_of_lost hpos hlost),
            wsFraming?, hcall]
      | some r =>
          have htotal : f.total (some s.ws.peerBuffer) (s.ws.peerBufferOffset + bytesRead) bytesRead
              (some op) s.ws.peerFramingData s.ws.peer.framingConfig = r := by
            rw [WsFraming?.total, hcall]
            rfl
          rw [wsFraming, wsFraming?, hf, hcall]
          dsimp only
          rw [htotal]
          cases hpass : wsFramed env r.1 (r.2.1.getD op) bytesRead (framingCalled bytesRead r.2.2 s) with
          | done rv t => rfl
          | again op' m t =>
              obtain ⟨hpeer, hlen⟩ := wsFramed_again hpass
              exact ih op' m (by rw [hpeer]; exact hf) hlen

theorem wsPeerData_total {f : WsFraming? φ} (env : Env φ) (fuel : Nat) (answer : Option Bytes)
    (hf : s.ws.peer.framing = some f.total) :
    wsPeerData env fuel answer s = wsPeerData? env f fuel answer s := by
  unfold wsPeerData wsPeerData?
  dsimp only
  generalize recv s.ws.peerFd (peerBufferSize - s.ws.peerBufferOffset - 1) answer s.world = r
  obtain ⟨data, w⟩ := r
  match data with
  | none => rfl
  | some [] => rfl
  | some (b :: data) =>
      refine wsFraming_total fuel .binary _ hf ?_
      show 0 < s.ws.peerBufferOffset + (b :: data).length
      rw [List.length_cons]
      omega

/-- **`ws_peer_data` returns** whatever the sends do exactly if each call of the framing function
that it makes comes back, and none is one from which on the function reports errors for ever. -/
theorem peer_data_returns_iff (f : WsFraming? φ) (s : Conn φ)
    (hf : s.ws.peer.framing = some f.total) (y : Nat) (hy : s.world.sockAt s.ws.wsFd = some y)
    (answer : Option Bytes) :
    (∀ env : Env φ, ∃ fuel, (wsPeerData? env f fuel answer s).isSome) ↔
      ∀ first, s.firstCall? answer = some first →
        ∀ c, first.Leads f.total s.ws.peer.framingConfig c →
          c.ComesBack f s.ws.peer.framingConfig ∧ ¬c.Spins f.total s.ws.peer.framingConfig := by
  simp only [← wsPeerData_total _ _ answer hf]
  constructor
  · intro hall first hfirst c hc
    obtain ⟨fuel, hreturns⟩ := hall sendingEnv
    obtain ⟨hnone, -⟩ | ⟨x, b, data, hx, -, -, hne, hcall, hloop⟩ :=
      wsPeerData_firstCall sendingEnv answer s
    · rw [hfirst] at hnone
      cases hnone
    rw [hfirst] at hcall
    cases hcall
    have hsend : ∀ k, (sendingEnv : Env φ).send y k ≠ none := fun _ => by simp [sendingEnv]
    have hends : ¬c.Spins f.total s.ws.peer.framingConfig := by
      intro hspins
      have hnever : wsFraming sendingEnv fuel .binary data.length (s.peerReceived x data) = none :=
        wsFraming_diverges hsend fuel .binary data.length hf hy hc hspins
      rw [hloop, hnever] at hreturns
      cases hreturns
    have hfirstPos : 0 < (s.firstCall data).length := by
      have := List.length_pos_iff.mpr hne
      show 0 < s.ws.peerBufferOffset + data.length
      omega
    refine ⟨?_, hends⟩
    by_contra hlost
    exact hends (FramingCall.spins_of_lost (hc.length_pos hfirstPos) hlost)
  · intro hno env
    obtain ⟨-, code, reason, w, hclose⟩ | ⟨x, b, data, hx, -, -, -, hcall, hloop⟩ :=
      wsPeerData_firstCall env answer s
    · exact ⟨0, by rw [hclose]; rfl⟩
    · obtain ⟨fuel, hreturns⟩ := wsFraming_returns (s := s.peerReceived x data) env .binary
        data.length hf fun c hc => (hno _ hcall c hc).2
      exact ⟨fuel, by rw [hloop]; exact hreturns⟩

end

/-- Frames of three bytes. -/
def sampleFixed : Conn Nat := framedOpen framingFixedlen.total (some (ascii "3"))

/-- Five bytes of them, in one read: the loop frames the first three, and comes back. -/
theorem peer_data_returns_iff_sample :
    (sampleFixed.firstCall? (some (ascii "abcde"))).isSome ∧ ∀ env : Env Nat, ∃ fuel,
      (wsPeerData? env framingFixedlen fuel (some (ascii "abcde")) sampleFixed).isSome := by
  refine ⟨rfl, (peer_data_returns_iff framingFixedlen sampleFixed rfl 4 rfl
    (some (ascii "abcde"))).mpr ?_⟩
  intro first hfirst c hc
  have hback : ∀ d : FramingCall Nat, d.ComesBack framingFixedlen (some (ascii "3")) ∧
      0 ≤ (d.answer framingFixedlen.total (some (ascii "3"))).1 := by
    rintro ⟨buffer, offset, bytesRead, opcode, framingData⟩
    have hvalue (size length : Nat) : 0 ≤ fixedlenFrame size length := by
      unfold fixedlenFrame
      split
      · omega
      · split <;> omega
    cases framingData with
    | none => exact ⟨rfl, hvalue (strtoul0 (cstr (ascii "3"))) (offset + bytesRead)⟩
    | some size => exact ⟨rfl, hvalue size (offset + bytesRead)⟩
  obtain ⟨hcomes, hge⟩ := hback c
  refine ⟨hcomes, fun hspins => ?_⟩
  have hneg := hspins.2 0
  rw [FramingCall.afterErrors] at hneg
  exact absurd hge (Int.not_le.mpr hneg)

/-- A configuration whose hexadecimal digits are missing. -/
def sampleEscape : Bytes := ascii "\\x"

theorem framingSeparator_escape (c : FramingCall Bytes) (hc : c.framingData = none) :
    c.answer framingSeparator.total (some sampleEscape) = (-1, c.opcode, none) := by
  have hparse : separatorParse (cstr sampleEscape) = none := by decide
  simp only [FramingCall.answer, WsFraming?.total, framingSeparator, hc, Option.map_some, hparse,
    Option.getD_some]

/-- `framing_separator` reports its configuration as an error on every call. -/
theorem framingSeparator_spins (c : FramingCall Bytes) (hpos : 0 < c.length)
    (hc : c.framingData = none) : c.Spins framingSeparator.total (some sampleEscape) := by
  refine ⟨hpos, fun n => ?_⟩
  induction n generalizing c with
  | zero =>
      rw [FramingCall.afterErrors, framingSeparator_escape c hc]
      exact Int.negSucc_lt_zero 0
  | succ n ih =>
      refine ih _ hpos ?_
      rw [framingSeparator_escape c hc]

/-- One byte from the peer, and `ws_peer_data` does not return. -/
theorem peer_data_returns_fails :
    ¬∃ fuel, (wsPeerData? sendingEnv framingSeparator fuel (some (ascii "a"))
      (framedOpen framingSeparator.total (some sampleEscape))).isSome := by
  rintro ⟨fuel, hreturns⟩
  have hnever : wsPeerData sendingEnv fuel (some (ascii "a"))
      (framedOpen framingSeparator.total (some sampleEscape)) = none := by
    rw [wsPeerData_received sendingEnv fuel (x := 5) rfl rfl (by decide)]
    exact wsFraming_spins sendingEnv fuel .binary 1 rfl (framingSeparator_spins _ (by decide) rfl)
  rw [← wsPeerData_total sendingEnv fuel (some (ascii "a")) rfl, hnever] at hreturns
  cases hreturns

end Websocksy

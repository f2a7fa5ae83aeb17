import Websocksy.ControlFrames
import Websocksy.FailuresEnd
import Websocksy.FrameCodec

/-!
# Runs with proper control frames

In every run whose steps send no reason in a close frame, no long pong and no improper control
frame of a framing function, all that a client is sent since it was accepted is proper
(`control_frames_proper`).  What a client sends is forwarded to another socket: no slot has the
socket of a client as its peer (`ClientsApart`).
-/

namespace Websocksy

open Buffer CString Lines FdTable Machine

variable {φ : Type}

/-- A socket that `accept` gave is at no slot's `peer_fd`. -/
structure ClientsApart (sock : List (Websocket φ)) (w : World) : Prop extends HeldInv sock w where
  apart : ∀ conn x, .accepted conn x ∈ w.log →
    x < w.socks ∧ ∀ ws ∈ sock, w.sockAt ws.peerFd ≠ some x

/-- The log grows, and not by an `accept`. -/
def Unaccepting (w w' : World) : Prop :=
  ∃ es, w'.log = w.log ++ es ∧ ∀ conn x, .accepted conn x ∉ es

section

variable {env : Env φ} {s t : Conn φ} {w w' w'' : World} {x : Nat}

theorem Unaccepting.refl (w : World) : Unaccepting w w := ⟨[], (List.append_nil _).symm, by simp⟩

theorem Unaccepting.trans (h : Unaccepting w w') (h' : Unaccepting w' w'') : Unaccepting w w'' := by
  obtain ⟨es, he, hes⟩ := h
  obtain ⟨fs, hf, hfs⟩ := h'
  refine ⟨es ++ fs, by rw [hf, he, List.append_assoc], ?_⟩
  intro conn x hm
  rcases List.mem_append.mp hm with hm | hm
  · exact hes conn x hm
  · exact hfs conn x hm

theorem Unaccepting.mem (h : Unaccepting w w') {conn : Nat} (hm : .accepted conn x ∈ w'.log) :
    .accepted conn x ∈ w.log := by
  obtain ⟨es, he, hes⟩ := h
  rw [he] at hm
  exact (List.mem_append.mp hm).resolve_right (hes conn x)

theorem Local.unaccepting (h : Local s t) : Unaccepting s.world t.world := by
  obtain ⟨es, he, hes⟩ := h.log
  exact ⟨es, he, fun conn x hm => hes _ hm⟩

/-- The sockets at the descriptors of a connection that is not at work stay. -/
theorem Local.sockAt_other {fds : List Nat} {v : Websocket φ} (h : Local s t)
    (hh : Held 0 s.world.fds (s.ws.held ++ fds)) (hv : ∀ fd ∈ v.held, fd ∈ fds) {fd : Nat}
    (hfd : fd ∈ v.held) : t.world.sockAt (some fd) = s.world.sockAt (some fd) := by
  have hm := hv fd hfd
  obtain ⟨y, -, hy⟩ := hh.2 fd (List.mem_append_right _ hm)
  have hfree : fd ∉ s.ws.held := by
    intro hself
    exact (List.nodup_append.mp hh.1).2.2 fd hself fd hm rfl
  exact (h.entry fd y hy hfree).trans hy.symm

/-- What a handler does leaves the sockets of the other slots alone. -/
theorem HeldInv.sockAt_other {l₁ l₂ : List (Websocket φ)} {ws v : Websocket φ} {w : World}
    (hi : HeldInv (l₁ ++ ws :: l₂) w) (hlocal : Local ⟨ws, w⟩ t) (hv : v ∈ l₁ ++ l₂) :
    t.world.sockAt v.wsFd = w.sockAt v.wsFd ∧ t.world.sockAt v.peerFd = w.sockAt v.peerFd := by
  have hsame : ∀ fd ∈ v.held, t.world.sockAt (some fd) = w.sockAt (some fd) := fun fd hfd =>
    hlocal.sockAt_other hi.front (fun gd hg => List.mem_flatMap.mpr ⟨v, hv, hg⟩) hfd
  constructor
  · cases hfd : v.wsFd with
    | none => rfl
    | some fd => exact hsame fd (by simp [Websocket.held, hfd])
  · cases hfd : v.peerFd with
    | none => rfl
    | some fd => exact hsame fd (by simp [Websocket.held, hfd])

/-! ## The clients' sockets -/

theorem clientsRule (env : Env φ) : CoreRule env Scope.all (ClientsApart (φ := φ)) where
  init c hc := by
    refine ⟨(heldRule env).init c hc, ?_⟩
    obtain ⟨-, -, hlog, -⟩ := hc
    intro conn x hm
    rw [hlog] at hm
    cases hm
  selected sock w xs hi := by
    refine ⟨(heldRule env).selected sock w xs hi.toHeldInv, ?_⟩
    intro conn x hm
    exact hi.apart conn x (by simpa using hm)
  accept l₁ old l₂ w now accepts hold hreg hi := by
    refine ⟨(heldRule env).accept l₁ old l₂ w now accepts hold hreg hi.toHeldInv, ?_⟩
    intro conn x hm
    have hbefore : x < w.socks ∧ (∀ ws ∈ l₁ ++ (old.toList ++ l₂), w.sockAt ws.peerFd ≠ some x) ∨
        accepts = true ∧ x = w.socks := by
      cases accepts with
      | false => exact .inl (hi.apart conn x hm)
      | true =>
          rcases List.mem_append.mp (show .accepted conn x ∈ w.log ++ [_] from hm) with hm | hm
          · exact .inl (hi.apart conn x hm)
          · cases List.mem_singleton.mp hm
            exact .inr ⟨rfl, rfl⟩
    constructor
    · rcases hbefore with ⟨hlt, -⟩ | ⟨rfl, rfl⟩
      · cases accepts with
        | false => exact hlt
        | true => exact Nat.lt_succ_of_lt hlt
      · exact Nat.lt_succ_self w.socks
    · intro ws hws
      rcases mem_accepted old hws with rfl | hws
      · intro he
        cases he
      · rw [(hi.toHeldInv.accept_sockAt hws accepts).2]
        rcases hbefore with ⟨-, hne⟩ | ⟨-, rfl⟩
        · exact hne ws hws
        · -- the new socket was open nowhere
          intro he
          obtain ⟨fd, -, hfd⟩ := Option.bind_eq_some_iff.mp he
          exact Nat.lt_irrefl _ (hi.numbered.1 fd _ hfd)
  serve l₁ l₂ ws w ready w' t hreg hi hw ht := by
    refine ⟨(heldRule env).serve l₁ l₂ ws w ready w' t hreg hi.toHeldInv hw ht, ?_⟩
    have hlocal : Local ⟨ws, w⟩ t := hw.isLocal.trans ht.isLocal
    intro conn x hm
    obtain ⟨hlt, hne⟩ := hi.apart conn x (hlocal.unaccepting.mem hm)
    have hself : Conn.Apart ⟨ws, w'⟩ x := by
      have hsame : w'.socks = w.socks ∧ w'.fds = w.fds := by cases hw <;> exact ⟨rfl, rfl⟩
      refine ⟨by rw [hsame.1]; exact hlt, ?_⟩
      rw [World.sockAt, hsame.2]
      exact hne ws (List.mem_append_right _ List.mem_cons_self)
    obtain ⟨hlt', hne'⟩ := ht.apart hself
    refine ⟨hlt', ?_⟩
    intro v hv
    rcases mem_slots hv with rfl | hv
    · exact hne'
    · rw [(hi.toHeldInv.sockAt_other hlocal hv).2]
      exact hne v (mem_slots_of hv)
  quit sock w fd hc hi := by
    refine ⟨(heldRule env).quit sock w fd hc hi.toHeldInv, ?_⟩
    intro conn x hm
    have hm' : .accepted conn x ∈ w.log := by
      rw [closeFd_log] at hm
      refine (List.mem_append.mp hm).resolve_right ?_
      intro h
      obtain ⟨y, -, he⟩ := List.mem_map.mp h
      cases he
    exact ⟨Nat.lt_of_lt_of_le (hi.apart conn x hm').1 (Later.closeFd w fd).socks, by simp⟩

/-! ## One step -/

/-- `client_cleanup` sends nothing to a connection that is not open. -/
theorem clientCleanup_proper (sock : List (Websocket φ)) (hopen : ∀ ws ∈ sock, ws.state ≠ .wsOpen) :
    Said (Message.Proper env) x w.log (clientCleanup env sock w).log := by
  induction sock generalizing w with
  | nil => exact .refl
  | cons ws sock ih =>
      have hne : ws.state ≠ .wsOpen := hopen ws List.mem_cons_self
      have hclose : Said (Message.Proper env) x w.log
          (wsClose env .shutdown (some (ascii "Shutting down")) ⟨ws, w⟩).world.log :=
        wsClose_proper (s := ⟨ws, w⟩) _ _ (fun h => absurd h hne) fun h => by cases h
      exact hclose.trans (ih fun v hv => hopen v (List.mem_cons_of_mem _ hv))

theorem clientCleanup_unaccepting (env : Env φ) (sock : List (Websocket φ)) (w : World) :
    Unaccepting w (clientCleanup env sock w) := by
  induction sock generalizing w with
  | nil => exact .refl w
  | cons ws sock ih =>
      have hclose : Local ⟨ws, w⟩ (wsClose env .shutdown (some (ascii "Shutting down")) ⟨ws, w⟩) :=
        wsClose_local _ _ _
      exact hclose.unaccepting.trans (ih _)

/-- **One step**: it sends nothing improper to a client, or it is a round that begins. -/
theorem coreStep_said {c c' : Core φ} {i : Input} (hi : RegistryInv env c.sock c.world)
    (ha : ClientsApart c.sock c.world) (ho : RepliesProper env c i) (h : coreStep env i c = some c') :
    (Unaccepting c.world c'.world ∧ ∀ conn x, .accepted conn x ∈ c.world.log →
      Said (Message.Proper env) x c.world.log c'.world.log) ∨
    ∃ es, c'.world.log = c.world.log ++ es ∧ ∀ x, ∀ e ∈ es, e.sendsTo x = false := by
  have hapart {n : Nat} {ws : Websocket φ} (hn : c.sock[n]? = some ws) {conn x : Nat}
      (hm : .accepted conn x ∈ c.world.log) : Conn.Apart ⟨ws, c.world⟩ x := by
    obtain ⟨hlt, hne⟩ := ha.apart conn x hm
    exact ⟨hlt, hne ws (List.mem_of_getElem? hn)⟩
  cases coreStep_cases h with
  | round ready now accepts hl hlisten =>
      exact .inr ⟨_, World.record_log _ _, by simp [Event.sendsTo]⟩
  | accept ready now accepts hl hlisten =>
      right
      have hselected : (c.selected ready now).world.log = c.world.log ++ _ := World.record_log _ _
      cases accepts with
      | false => exact ⟨_, hselected, by simp [Event.sendsTo]⟩
      | true =>
          have haccepted : (wsAccept now true (c.selected ready now)).world.log =
              (c.selected ready now).world.log ++
                [.accepted (c.selected ready now).world.conns (c.selected ready now).world.socks] := rfl
          rw [hselected, List.append_assoc] at haccepted
          exact ⟨_, haccepted, by simp [Event.sendsTo]⟩
  | quit hl =>
      left
      have hopen : ∀ ws ∈ c.sock, ws.state ≠ .wsOpen := by
        simpa only [RepliesProper, hl] using ho
      have hclosed : ∀ e ∈ ((clientCleanup env c.sock c.world).sockAt (some c.listenFd)).toList.map
          Event.closed, (∀ x, e.sendsTo x = false) ∧ ∀ conn x, e ≠ .accepted conn x := by
        intro e he
        obtain ⟨y, -, rfl⟩ := List.mem_map.mp he
        exact ⟨fun _ => rfl, fun _ _ h => by cases h⟩
      refine ⟨(clientCleanup_unaccepting env c.sock c.world).trans
        ⟨_, closeFd_log _ _, fun conn x hm => (hclosed _ hm).2 conn x rfl⟩, ?_⟩
      intro conn x _
      exact (clientCleanup_proper c.sock hopen).trans
        (.quiet (closeFd_log _ _) fun e he => (hclosed e he).1 x)
  | idle answer fuel l hl hl' => exact .inr ⟨[], (List.append_nil _).symm, by simp⟩
  | client answer fuel n fd ws t hl hn hfd hr ht =>
      left
      have hslot := hi.slots ws (List.mem_of_getElem? hn)
      have hproper : AnswersProper env answer ⟨{ ws with lastEvent := c.now }, c.world⟩ := by
        simp only [RepliesProper, hl] at ho
        exact ho ws hn (by simp [hfd, hr])
      obtain ⟨-, -, hlocal⟩ := wsData_slotInv
        (s := ⟨{ ws with lastEvent := c.now }, c.world⟩) { hslot with } ht
      refine ⟨hlocal.unaccepting, ?_⟩
      intro conn x hm
      have hx : Conn.Apart ⟨{ ws with lastEvent := c.now }, c.world⟩ x := hapart hn hm
      exact wsData_proper hx hproper ht
  | peer answer fuel n fd ws r hl hn hfd hr ht =>
      left
      have hslot := hi.slots ws (List.mem_of_getElem? hn)
      have hproper : ForwardsProper env fuel answer ⟨ws, c.world⟩ := by
        simp only [RepliesProper, hl] at ho
        exact ho ws hn (by simp [hfd, hr])
      obtain ⟨-, -, hlocal⟩ := wsPeerData_slotInv (s := ⟨ws, c.world⟩) hslot hfd ht
      obtain ⟨f, hf, -⟩ := hslot.framing (hslot.open_of_peer hfd)
      exact ⟨hlocal.unaccepting, fun conn x _ => wsPeerData_proper (s := ⟨ws, c.world⟩) hf hproper ht⟩
  | ping answer fuel n ws hl hn =>
      left
      have hslot := hi.slots ws (List.mem_of_getElem? hn)
      obtain ⟨-, -, hlocal⟩ := wsKeepAlive_slotInv (s := ⟨ws, c.world⟩) c.now hslot
      exact ⟨hlocal.unaccepting, fun conn x _ => wsKeepAlive_proper (s := ⟨ws, c.world⟩) c.now⟩

/-- **Control frames are proper** in every run in which `ws_close` is not called with a reason on
an open connection, no ping with more than 125 bytes is answered, and no framing function chooses
an improper control frame. -/
theorem control_frames_proper (env : Env φ) (c : Core φ)
    (h : (coreLoop env).Reach (RepliesProper env) c) : ControlFramesProper env c := by
  have hsaid : ∀ l conn x l', c.world.log = l ++ .accepted conn x :: l' →
      Said (Message.Proper env) x (l ++ [.accepted conn x]) c.world.log := by
    refine h.invariant (P := fun c => ∀ l conn x l', c.world.log = l ++ .accepted conn x :: l' →
      Said (Message.Proper env) x (l ++ [.accepted conn x]) c.world.log) ?_ ?_
    · intro c hc l conn x l' he
      obtain ⟨-, -, hlog, -⟩ := hc
      rw [hlog] at he
      simp at he
    · intro c i c' hr ih ho hs l conn x l' he
      have hstep := coreStep_said (coreLoop_registryInv hr) ((clientsRule env).reach_all hr) ho hs
      obtain ⟨es, hes, hcase⟩ : ∃ es, c'.world.log = c.world.log ++ es ∧
          ((∀ conn x, .accepted conn x ∉ es) ∧ (∀ conn x, .accepted conn x ∈ c.world.log →
            Said (Message.Proper env) x c.world.log c'.world.log) ∨
          ∀ x, ∀ e ∈ es, e.sendsTo x = false) := by
        rcases hstep with ⟨⟨es, hes, hno⟩, hall⟩ | ⟨es, hes, hquiet⟩
        · exact ⟨es, hes, .inl ⟨hno, hall⟩⟩
        · exact ⟨es, hes, .inr hquiet⟩
      -- a step with an `accept` sends nothing behind it
      have hnew (hin : .accepted conn x ∈ es) (hbehind : ∀ e ∈ l', e ∈ es) :
          Said (Message.Proper env) x (l ++ [.accepted conn x]) c'.world.log := by
        rcases hcase with ⟨hno, -⟩ | hquiet
        · exact absurd hin (hno conn x)
        · refine .quiet (by rw [he, List.append_cons]) ?_
          intro e hmem
          exact hquiet x e (hbehind e hmem)
      have hsplit := hes.symm.trans he
      rcases List.append_eq_append_iff.mp hsplit with ⟨m, -, hm⟩ | ⟨m, hl, hm⟩
      · rw [hm] at hnew
        exact hnew (by simp) fun e hmem => by simp [hmem]
      · cases m with
        | nil =>
            rw [List.nil_append] at hm
            rw [← hm] at hnew
            exact hnew List.mem_cons_self fun e hmem => List.mem_cons_of_mem _ hmem
        | cons a m =>
            obtain ⟨rfl, -⟩ := List.cons.inj hm
            have hbefore := ih l conn x m hl
            rcases hcase with ⟨-, hall⟩ | hquiet
            · refine hbefore.trans (hall conn x ?_)
              rw [hl]
              exact List.mem_append_right _ List.mem_cons_self
            · exact hbefore.trans (.quiet hes (hquiet x))
  intro l conn x l' he
  obtain ⟨ms, ⟨es, hlog, hspoken⟩, hm⟩ := hsaid l conn x l' he
  rw [he, List.append_cons, List.append_cancel_left_eq] at hlog
  exact ⟨ms, hlog ▸ hspoken, hm⟩

end

/-- A pong, and then a frame from the peer. -/
def samplePonged : List Input :=
  samplePinged ++ [.serve none 0, .serve none 0, .serve none 0, .select [5] 3 false,
    .serve none 0, .serve (some (ascii "ab")) 5]

theorem samplePonged_runs : ((coreLoop sampleEnv).exec samplePonged sampleCore).isSome := by
  decide +kernel

theorem control_frames_proper_sample :
    let c := ((coreLoop sampleEnv).exec samplePonged sampleCore).get samplePonged_runs
    (.accepted 0 4 ∈ c.world.log ∧ .wrote 4 (wsFrameHeader .pong 1) ∈ c.world.log) ∧
      ControlFramesProper sampleEnv c :=
  ⟨by decide +kernel, control_frames_proper sampleEnv _ (.exec (.init sampleCore_init) samplePonged
    (by decide +kernel) (Option.some_get samplePonged_runs).symm)⟩

/-! ## Frames that are not proper -/

theorem wsEncode_inj {op op' : WsOperation} {payload payload' : Bytes}
    (h : wsEncode op payload = wsEncode op' payload') (hlen : payload.length < 2 ^ 63) :
    op = op' ∧ payload = payload' := by
  have hheader (op : WsOperation) (n : Nat) : 0 < (wsFrameHeader op n).length ∧
      (wsFrameHeader op n).length ≤ 10 := by
    unfold wsFrameHeader
    split
    · simp
    · split <;> simp [length_bigEndian]
  have hlen' : payload'.length < 2 ^ 64 := by
    have hsize := congrArg List.length h
    unfold wsEncode at hsize
    rw [List.length_append, List.length_append] at hsize
    have := hheader op payload.length
    have := hheader op' payload'.length
    omega
  have hcode : ∀ op : WsOperation, op.code < 16 := by
    intro op
    cases op <;> decide
  have hdecode := decode_frameBytes (hcode op) (by omega : payload.length < 2 ^ 64) []
  have hdecode' := decode_frameBytes (hcode op') hlen' []
  have hsame : frameBytes op.code payload = frameBytes op'.code payload' := h
  rw [hsame, hdecode'] at hdecode
  injection hdecode with hpair
  injection hpair with hframe _
  injection hframe with _ _ hop _ hpayload
  refine ⟨?_, hpayload.symm⟩
  revert hop
  cases op <;> cases op' <;> decide

/-- Text messages end with one of these bytes. -/
theorem Message.Proper.text_getLast {env : Env φ} {b : Bytes} (h : (Message.text b).Proper env) :
    b.getLast? ∈ [some 32, some 10, some 100, some 110, some 103, some 116] := by
  rcases h with h | ⟨ws, rfl⟩
  · revert b
    decide
  · have hlast : ((upgradeResponse env ws).flatten).getLast? = some 10 := by
      unfold upgradeResponse
      rw [List.flatten_append, List.getLast?_append]
      rfl
    rw [hlast]
    decide

/-- Where a frame is the last message, and no other byte sent is the first of a frame, it has to be
proper. -/
theorem ProperFrame.of_last {env : Env φ} {x : Nat} {es : List Event} {first : UInt8}
    {before rest payload : Bytes} {op : WsOperation}
    (h : ∃ ms, Spoken x es ms ∧ ∀ m ∈ ms, m.Proper env) (hes : .sendFailed x ∉ es)
    (hframe : wsEncode op payload = first :: rest) (hlen : payload.length < 2 ^ 63)
    (hw : written x es = before ++ first :: rest)
    (hbefore : ∀ b ∈ before, b < 0x80) (hrest : ∀ b ∈ rest, b < 0x80)
    (hlast : (first :: rest).getLast? ∉ [some 32, some 10, some 100, some 110, some 103, some 116]) :
    ProperFrame op payload := by
  obtain ⟨ms, hspoken, hproper⟩ := h
  have hbytes := hspoken.written hes
  rw [hw] at hbytes
  rcases List.eq_nil_or_concat ms with rfl | ⟨ms, m, rfl⟩
  · simp at hbytes
  · rw [List.concat_eq_append, List.flatMap_append, List.flatMap_singleton] at hbytes
    have hm : m.Proper env := hproper m (by simp)
    generalize ms.flatMap Message.bytes = l at hbytes
    cases m with
    | text b =>
        exfalso
        have htext := hm.text_getLast
        obtain ⟨c, hc⟩ : ∃ c, b.getLast? = some c := by
          cases hb : b.getLast? with
          | some c => exact ⟨c, rfl⟩
          | none =>
              rw [hb] at htext
              simp at htext
        have hboth := congrArg List.getLast? hbytes
        rw [List.getLast?_append, List.getLast?_append, Message.bytes, hc,
          List.getLast?_eq_some_getLast (List.cons_ne_nil first rest)] at hboth
        rw [hc] at htext
        have hsame : some ((first :: rest).getLast (List.cons_ne_nil first rest)) = some c := hboth
        rw [List.getLast?_eq_some_getLast (List.cons_ne_nil first rest), hsame] at hlast
        exact hlast htext
    | frame op' payload' =>
        obtain ⟨first', rest', hbytes', hhigh⟩ : ∃ first' rest', wsEncode op' payload' =
            first' :: rest' ∧ ¬first' < 0x80 := by
          refine ⟨0x80 ||| op'.code, _, rfl, ?_⟩
          cases op' <;> decide
        rw [Message.bytes, hbytes'] at hbytes
        have hsame : first :: rest = first' :: rest' := by
          rcases List.append_eq_append_iff.mp hbytes with ⟨l', -, h⟩ | ⟨l', hl, h⟩
          · cases l' with
            | nil => exact h
            | cons y l' =>
                obtain ⟨-, hr⟩ := List.cons.inj h
                exact absurd (hrest first' (by rw [hr]; simp)) hhigh
          · cases l' with
            | nil => exact h.symm
            | cons y l' =>
                obtain ⟨rfl, -⟩ := List.cons.inj h
                exact absurd (hbefore first' (by rw [hl]; simp)) hhigh
        obtain ⟨rfl, rfl⟩ := wsEncode_inj (hframe.trans (hsame.trans hbytes'.symm)) hlen
        exact hm

/-- The client sends a ping with 126 bytes. -/
def sampleLongPing : List Input :=
  sampleOpened ++ [.select [4] 2 false,
    .serve (some (0x89 :: 0xFE :: bigEndian 2 126 ++ List.replicate 130 0)) 0]

/-- The client sends a frame with an opcode that is not known. -/
def sampleUnknown : List Input :=
  sampleOpened ++ [.select [4] 2 false, .serve (some [0x83, 0x80, 0, 0, 0, 0]) 0]

/-- The client was accepted first of all, and was sent the response `before` and then the frame. -/
def AnsweredBy (before : Bytes) (op : WsOperation) (payload : Bytes) (log : List Event) : Prop :=
  log = log.take 1 ++ .accepted 0 4 :: log.drop 2 ∧
  .sendFailed 4 ∉ sends 4 (log.drop 2) ∧
  written 4 (sends 4 (log.drop 2)) = before ++ wsEncode op payload

instance (before : Bytes) (op : WsOperation) (payload : Bytes) (log : List Event) :
    Decidable (AnsweredBy before op payload log) := inferInstanceAs (Decidable (_ ∧ _))

/-- The pong has 126 bytes; and the close frame has the reason, but no status code. -/
theorem control_frames_proper_fails :
    (¬∀ c, (coreLoop sampleEnv).Reach (fun _ _ => True) c → ControlFramesProper sampleEnv c) ∧
    (∃ c, (coreLoop sampleEnv).exec sampleLongPing sampleCore = some c ∧
      ¬ControlFramesProper sampleEnv c) ∧
    ∃ c, (coreLoop sampleEnv).exec sampleUnknown sampleCore = some c ∧
      ¬ControlFramesProper sampleEnv c := by
  generalize hbefore : (upgradeResponse sampleEnv { conn := 0, wsFd := none }).flatten = before
  have hlow : ∀ b ∈ before, b < 0x80 := by
    rw [← hbefore]
    exact forall_mem_of_all (by decide +kernel)
  have hrun (is : List Input) (op : WsOperation) (payload : Bytes)
      (hlen : payload.length < 2 ^ 63) (hbad : ¬ProperFrame op payload)
      (hrest : ∀ b ∈ (wsEncode op payload).tail, b < 0x80)
      (hlast : (wsEncode op payload).getLast? ∉
        [some 32, some 10, some 100, some 110, some 103, some 116])
      (h : ((coreLoop sampleEnv).exec is sampleCore).any fun c =>
        decide (AnsweredBy before op payload c.world.log)) :
      ∃ c, (coreLoop sampleEnv).exec is sampleCore = some c ∧ ¬ControlFramesProper sampleEnv c := by
    rw [Option.any_eq_true] at h
    obtain ⟨c, hc, hanswered⟩ := h
    obtain ⟨hlog, hes, hw⟩ := of_decide_eq_true hanswered
    refine ⟨c, hc, ?_⟩
    intro hproper
    exact hbad (.of_last (hproper _ 0 4 _ hlog) hes rfl hlen hw hlow hrest hlast)
  have hlong := hrun sampleLongPing .pong (List.replicate 126 0) (by decide +kernel)
    (by decide +kernel)
    (forall_mem_of_all (by decide +kernel)) (by decide +kernel) (by rw [← hbefore]; decide +kernel)
  have hunknown := hrun sampleUnknown .close (ascii "Invalid opcode") (by decide) (by decide)
    (forall_mem_of_all (by decide +kernel)) (by decide +kernel) (by rw [← hbefore]; decide +kernel)
  refine ⟨fun h => ?_, hlong, hunknown⟩
  obtain ⟨c, hc, hno⟩ := hlong
  exact hno (h c (.exec (.init sampleCore_init) sampleLongPing (Machine.meets_true _ _) hc))

end Websocksy

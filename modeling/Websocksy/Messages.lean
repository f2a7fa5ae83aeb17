import Websocksy.FailuresClosed

/-!
# Messages to a client

Everything that is written to a client's socket is a text of the HTTP phase or a frame, each
sent as a whole or cut short by a failed send.  `Spoken` reads the log of a socket that way, and
`Said` says that a handler added nothing but messages of a kind.
-/

namespace Websocksy

open Buffer CString Lines

variable {φ : Type}

inductive Message
  | text (b : Bytes)
  | frame (op : WsOperation) (payload : Bytes)
  deriving DecidableEq

def Message.bytes : Message → Bytes
  | .text b => b
  | .frame op payload => wsEncode op payload

/-- The event is a send to the socket, or the failure of one. -/
def Event.sendsTo (x : Nat) : Event → Bool
  | .wrote y _ | .sendFailed y => y == x
  | _ => false

def sends (x : Nat) (log : List Event) : List Event := log.filter (·.sendsTo x)

/-- The sends to a socket are those of the messages, one after the other. -/
inductive Spoken (x : Nat) : List Event → List Message → Prop
  | nil : Spoken x [] []
  | whole (m : Message) (ds : List Bytes) {es : List Event} {ms : List Message}
      (hd : ds.flatten = m.bytes) (h : Spoken x es ms) :
      Spoken x (ds.map (.wrote x) ++ es) (m :: ms)
  | cut (m : Message) (ds : List Bytes) {es : List Event} {ms : List Message}
      (hd : ds.flatten <+: m.bytes) (h : Spoken x es ms) :
      Spoken x (ds.map (.wrote x) ++ .sendFailed x :: es) (m :: ms)

/-- From one log to the next, the sends to the socket are those of the messages. -/
def Tells (x : Nat) (l l' : List Event) (ms : List Message) : Prop :=
  ∃ es, l' = l ++ es ∧ Spoken x (sends x es) ms

/-- The socket is sent nothing but messages with `P`. -/
def Said (P : Message → Prop) (x : Nat) (l l' : List Event) : Prop :=
  ∃ ms, Tells x l l' ms ∧ ∀ m ∈ ms, P m

section

variable {x : Nat} {es fs l l' l'' : List Event} {ms ns : List Message} {P : Message → Prop}

@[simp] theorem sends_append (x : Nat) (l m : List Event) :
    sends x (l ++ m) = sends x l ++ sends x m := List.filter_append ..

theorem sends_eq_nil (h : ∀ e ∈ es, e.sendsTo x = false) : sends x es = [] :=
  List.filter_eq_nil_iff.mpr fun e he => by simp [h e he]

theorem sends_wrote (x : Nat) (ds : List Bytes) :
    sends x (ds.map (.wrote x)) = ds.map (.wrote x) := by
  apply List.filter_eq_self.mpr
  intro e he
  obtain ⟨d, -, rfl⟩ := List.mem_map.mp he
  simp [Event.sendsTo]

/-- Only the sends of a log matter for what is written. -/
theorem written_sends (x : Nat) (l : List Event) : written x (sends x l) = written x l := by
  induction l with
  | nil => rfl
  | cons e l ih =>
      unfold sends written at ih ⊢
      rw [List.filter_cons, List.flatMap_cons]
      split
      · rw [List.flatMap_cons, ih]
      · next hs =>
        rw [ih]
        cases e with
        | wrote y d =>
            have hne : y ≠ x := by simpa [Event.sendsTo] using hs
            simp [hne]
        | _ => rfl

theorem Spoken.append (h : Spoken x es ms) (h' : Spoken x fs ns) : Spoken x (es ++ fs) (ms ++ ns) := by
  induction h with
  | nil => exact h'
  | whole m ds hd h ih =>
      rw [List.append_assoc]
      exact .whole m ds hd ih
  | cut m ds hd h ih =>
      rw [List.append_assoc]
      exact .cut m ds hd ih

/-- Where no send fails, the bytes written are those of the messages. -/
theorem Spoken.written (h : Spoken x es ms) (hes : .sendFailed x ∉ es) :
    written x es = ms.flatMap Message.bytes := by
  induction h with
  | nil => rfl
  | whole m ds hd h ih =>
      rw [List.mem_append, not_or] at hes
      rw [written_append, written_wrote, hd, ih hes.2, List.flatMap_cons]
  | cut m ds hd h ih => simp at hes

/-- Nothing was sent to the socket. -/
theorem Tells.quiet (he : l' = l ++ es) (hes : ∀ e ∈ es, e.sendsTo x = false) : Tells x l l' [] :=
  ⟨es, he, by rw [sends_eq_nil hes]; exact .nil⟩

theorem Tells.refl : Tells x l l [] := .quiet (List.append_nil l).symm (by simp)

theorem Tells.trans (h : Tells x l l' ms) (h' : Tells x l' l'' ns) : Tells x l l'' (ms ++ ns) := by
  obtain ⟨es, he, hs⟩ := h
  obtain ⟨fs, hf, ht⟩ := h'
  refine ⟨es ++ fs, by rw [hf, he, List.append_assoc], ?_⟩
  rw [sends_append]
  exact hs.append ht

theorem Tells.said (h : Tells x l l' ms) (hm : ∀ m ∈ ms, P m) : Said P x l l' := ⟨ms, h, hm⟩

theorem Said.refl : Said P x l l := Tells.refl.said (by simp)

theorem Said.quiet (he : l' = l ++ es) (hes : ∀ e ∈ es, e.sendsTo x = false) : Said P x l l' :=
  (Tells.quiet he hes).said (by simp)

theorem Said.trans (h : Said P x l l') (h' : Said P x l' l'') : Said P x l l'' := by
  obtain ⟨ms, hs, hm⟩ := h
  obtain ⟨ns, ht, hn⟩ := h'
  refine (hs.trans ht).said ?_
  intro m hmem
  rcases List.mem_append.mp hmem with h | h
  · exact hm m h
  · exact hn m h

end

/-! ## Sends -/

section

variable {env : Env φ} {x y : Nat} {w w' : World} {fd : Option Nat} {b : Bool} {data : Bytes}
  {P : Message → Prop}

theorem Sent.tells {m : Message} (h : Sent env x w m.bytes b w') : Tells x w.log w'.log [m] := by
  cases h with
  | whole ds hs hd =>
      refine ⟨_, rfl, ?_⟩
      rw [sends_wrote, ← List.append_nil (ds.map (Event.wrote x))]
      exact .whole m ds hd .nil
  | cut ds hs hd hf =>
      refine ⟨ds.map (.wrote x) ++ [.sendFailed x], by simp, ?_⟩
      have hfailed : sends x [.sendFailed x] = [.sendFailed x] := by simp [sends, Event.sendsTo]
      rw [sends_append, sends_wrote, hfailed]
      exact .cut m ds hd .nil

/-- Sends to another socket. -/
theorem OnlySends.tells_apart (h : OnlySends fd w w') (hx : w.sockAt fd ≠ some x) :
    Tells x w.log w'.log [] := by
  obtain ⟨es, he, hes⟩ := h.log
  refine .quiet he ?_
  intro e hmem
  obtain ⟨y, hy, hsend⟩ := hes e hmem
  have hne : y ≠ x := fun h => hx (h ▸ hy)
  rcases hsend with rfl | ⟨d, rfl⟩ <;> simpa [Event.sendsTo] using hne

theorem networkSendAll_tells {m : Message} {ds : List Bytes} (hx : w.sockAt fd = some x)
    (hd : ds.flatten = m.bytes) : Tells x w.log (networkSendAll env fd ds w).2.log [m] := by
  have hsent := networkSendAll_sent env ds hx
  rw [hd] at hsent
  exact hsent.tells

theorem networkSend_tells (env : Env φ) (m : Message) (hx : w.sockAt fd = some x) :
    Tells x w.log (networkSend env fd m.bytes w).2.log [m] :=
  (networkSend_sent env m.bytes hx).tells

theorem wsSendFrame_tells {ws : Websocket φ} (op : WsOperation) (data : Bytes)
    (hx : w.sockAt ws.wsFd = some x) :
    Tells x w.log (wsSendFrame env ws op data w).2.log [.frame op data] := by
  apply networkSendAll_tells hx
  simp [Message.bytes, wsEncode]

theorem closeFd_tells (w : World) (fd : Option Nat) : Tells x w.log (w.closeFd fd).log [] := by
  refine .quiet (closeFd_log w fd) ?_
  intro e he
  obtain ⟨y, -, rfl⟩ := List.mem_map.mp he
  rfl

/-- What `ws_close` sends: a close frame, or the three parts of an error response. -/
def closeMessages (ws : Websocket φ) (code : WsCloseReason) (reason : Option Bytes) : List Message :=
  match reason with
  | none => []
  | some r =>
    if ws.state = .wsOpen then [.frame .close r]
    else if ws.state = .wsHttp ∧ code = .http then
      [.text (ascii "HTTP/1.1 "), .text r, .text (ascii "\r\n\r\n")]
    else []

theorem wsClose_tells {s : Conn φ} (code : WsCloseReason) (reason : Option Bytes)
    (hx : s.world.sockAt s.ws.wsFd = some x) :
    Tells x s.world.log (wsClose env code reason s).world.log
      (closeMessages s.ws code reason) := by
  have hnote : Tells x s.world.log (s.world.record (.wsClose s.ws.conn reason)).log [] :=
    .quiet (World.record_log _ _) (by simp [Event.sendsTo])
  have hx' : (s.world.record (.wsClose s.ws.conn reason)).sockAt s.ws.wsFd = some x := hx
  have hsends : Tells x (s.world.record (.wsClose s.ws.conn reason)).log
      (wsCloseWorld env code reason s).log (closeMessages s.ws code reason) := by
    unfold wsCloseWorld wsCloseSend closeMessages
    split
    · exact .refl
    · next r =>
      split
      · exact wsSendFrame_tells .close r hx'
      · split
        · -- a send leaves the socket at the descriptor
          have hnext (w : World) (data : Bytes) (hw : w.sockAt s.ws.wsFd = some x) :
              (networkSend env s.ws.wsFd data w).2.sockAt s.ws.wsFd = some x := by
            rw [(networkSend_onlySends env s.ws.wsFd data w).sockAt, hw]
          have hfirst := hnext _ (ascii "HTTP/1.1 ") hx'
          have hreason := hnext _ r hfirst
          exact ((networkSend_tells env (.text (ascii "HTTP/1.1 ")) hx').trans
            (networkSend_tells env (.text r) hfirst)).trans
              (networkSend_tells env (.text (ascii "\r\n\r\n")) hreason)
        · exact .refl
  have hclosed : Tells x (wsCloseWorld env code reason s).log
      (wsClose env code reason s).world.log [] := by
    rw [wsClose_world]
    exact (closeFd_tells _ _).trans (closeFd_tells _ _)
  have h := (hnote.trans hsends).trans hclosed
  rwa [List.append_nil] at h

theorem wsClose_tells_apart {s : Conn φ} (code : WsCloseReason) (reason : Option Bytes)
    (hx : s.world.sockAt s.ws.wsFd ≠ some x) :
    Tells x s.world.log (wsClose env code reason s).world.log [] := by
  have hnote : Tells x s.world.log (s.world.record (.wsClose s.ws.conn reason)).log [] :=
    .quiet (World.record_log _ _) (by simp [Event.sendsTo])
  have hsends := (wsCloseSend_onlySends env s.ws code reason
    (s.world.record (.wsClose s.ws.conn reason))).tells_apart hx
  rw [wsClose_world]
  exact ((hnote.trans hsends).trans (closeFd_tells _ _)).trans (closeFd_tells _ _)

/-! ## Messages of a kind -/

theorem networkSendAll_said {m : Message} {ds : List Bytes} (hd : ds.flatten = m.bytes) (hm : P m) :
    Said P x w.log (networkSendAll env fd ds w).2.log := by
  by_cases hx : w.sockAt fd = some x
  · exact (networkSendAll_tells hx hd).said (by simpa using hm)
  · exact ((networkSendAll_onlySends env fd ds w).tells_apart hx).said (by simp)

theorem wsSendFrame_said {ws : Websocket φ} {op : WsOperation} (hm : P (.frame op data)) :
    Said P x w.log (wsSendFrame env ws op data w).2.log := by
  apply networkSendAll_said _ hm
  simp [Message.bytes, wsEncode]

/-- `ws_close`, if what it sends are messages with `P`. -/
theorem wsClose_said {s : Conn φ} (code : WsCloseReason) (reason : Option Bytes)
    (hm : ∀ m ∈ closeMessages s.ws code reason, P m) :
    Said P x s.world.log (wsClose env code reason s).world.log := by
  by_cases hx : s.world.sockAt s.ws.wsFd = some x
  · exact (wsClose_tells code reason hx).said hm
  · exact (wsClose_tells_apart code reason hx).said (by simp)

end

end Websocksy

import Websocksy.Websocket

/-!
# What sends and closes do to the outside

`Sent` is the effect of sending data to a socket: the pieces that went out, and
the failure that cut them short if there was one.  Everything that is sent to a
client is `Sent` of one byte list, however many `network_send` calls it takes.
-/

namespace Websocksy

open Buffer CString

variable {φ : Type}

/-! ## Pieces on the wire -/

namespace World

/-- The outside after the pieces `ds` were sent to the socket `x`. -/
def wrote (w : World) (x : Nat) (ds : List Bytes) : World :=
  { w with sends := w.sends + ds.length, log := w.log ++ ds.map (.wrote x) }

/-- The outside after a send to the socket `x` failed. -/
def sendFails (w : World) (x : Nat) : World :=
  { w with sends := w.sends + 1 }.record (.sendFailed x)

section

variable (w : World) (x : Nat) (ds : List Bytes) (e : Event)

@[simp] theorem wrote_nil : w.wrote x [] = w := by simp [wrote]

theorem wrote_wrote (es : List Bytes) : (w.wrote x ds).wrote x es = w.wrote x (ds ++ es) := by
  simp [wrote, Nat.add_assoc]

@[simp] theorem record_fds : (w.record e).fds = w.fds := rfl
@[simp] theorem record_socks : (w.record e).socks = w.socks := rfl
@[simp] theorem record_queries : (w.record e).queries = w.queries := rfl
@[simp] theorem record_connects : (w.record e).connects = w.connects := rfl
@[simp] theorem record_sockAt (fd : Option Nat) : (w.record e).sockAt fd = w.sockAt fd := rfl
@[simp] theorem record_log : (w.record e).log = w.log ++ [e] := rfl
@[simp] theorem wrote_log : (w.wrote x ds).log = w.log ++ ds.map (.wrote x) := rfl
@[simp] theorem sendFails_log : (w.sendFails x).log = w.log ++ [.sendFailed x] := rfl

end

end World

/-- Sending `data` to the socket `x` leads from `w` to the result: either all of it
went out, in some pieces, or a send failed after the pieces of a prefix. -/
inductive Sent (env : Env φ) (x : Nat) (w : World) (data : Bytes) : Bool → World → Prop
  | whole (ds : List Bytes) (hs : ∀ j < ds.length, env.send x (w.sends + j) ≠ none)
      (hd : ds.flatten = data) : Sent env x w data false (w.wrote x ds)
  | cut (ds : List Bytes) (hs : ∀ j < ds.length, env.send x (w.sends + j) ≠ none)
      (hd : ds.flatten <+: data) (hf : env.send x (w.sends + ds.length) = none) :
      Sent env x w data true ((w.wrote x ds).sendFails x)

section

variable {env : Env φ} {x : Nat} {w w' : World} {data : Bytes} {b : Bool}

/-- One piece went out before the rest. -/
theorem Sent.cons {d : Bytes} (hs : env.send x w.sends ≠ none)
    (h : Sent env x (w.wrote x [d]) data b w') : Sent env x w (d ++ data) b w' := by
  have key : ∀ ds : List Bytes, (∀ j < ds.length, env.send x ((w.wrote x [d]).sends + j) ≠ none) →
      ∀ j < (d :: ds).length, env.send x (w.sends + j) ≠ none := by
    intro ds hds j hj
    cases j with
    | zero => exact hs
    | succ j =>
        have := hds j (by simpa using hj)
        rwa [show (w.wrote x [d]).sends + j = w.sends + (j + 1) by simp [World.wrote]; omega] at this
  cases h with
  | whole ds hds hd =>
      rw [World.wrote_wrote]
      exact .whole _ (key ds hds) (by simp [hd])
  | cut ds hds hd hf =>
      rw [World.wrote_wrote]
      refine .cut _ (key ds hds) ?_ ?_
      · simpa using hd
      · rw [← hf]
        congr 1
        simp [World.wrote]
        omega

theorem Sent.nothing (env : Env φ) (x : Nat) (w : World) : Sent env x w [] false w := by
  have h : Sent env x w [] false (w.wrote x []) := .whole [] (by simp) rfl
  rwa [World.wrote_nil] at h

/-- Sends that follow each other are one send. -/
theorem Sent.append {w'' : World} {data' : Bytes} (h : Sent env x w data false w')
    (h' : Sent env x w' data' b w'') : Sent env x w (data ++ data') b w'' := by
  cases h with
  | whole ds hds hd =>
      subst hd
      induction ds generalizing w with
      | nil => simpa using h'
      | cons d ds ih =>
          rw [List.flatten_cons, List.append_assoc]
          refine Sent.cons (by simpa using hds 0 (by simp)) (ih (fun j hj => ?_) ?_)
          · have := hds (j + 1) (by simpa using hj)
            rwa [show (w.wrote x [d]).sends + j = w.sends + (j + 1) by simp [World.wrote]; omega]
          · rwa [World.wrote_wrote]

/-- What is not sent after a failure was cut off. -/
theorem Sent.extend {data' : Bytes} (h : Sent env x w data true w') :
    Sent env x w (data ++ data') true w' := by
  cases h with
  | cut ds hds hd hf => exact .cut ds hds (hd.trans (List.prefix_append data data')) hf

theorem Sent.fds (h : Sent env x w data b w') : w'.fds = w.fds := by
  cases h <;> rfl

theorem Sent.socks (h : Sent env x w data b w') : w'.socks = w.socks := by
  cases h <;> rfl

end

theorem networkSendLoop_sent (env : Env φ) (x : Nat) (fuel : Nat) (data : Bytes) (w : World)
    (h : data.length ≤ fuel) :
    Sent env x w data (networkSendLoop env x fuel data w).1
      (networkSendLoop env x fuel data w).2 := by
  induction fuel generalizing data w with
  | zero =>
      have : data = [] := List.length_eq_zero_iff.mp (by omega)
      subst this
      exact .nothing env x w
  | succ fuel ih =>
      unfold networkSendLoop
      split
      · next he =>
        have : data = [] := by simpa using he
        subst this
        exact .nothing env x w
      · next he =>
        split
        · next hs =>
          have hcut : Sent env x w data true ((w.wrote x []).sendFails x) :=
            .cut [] (by simp) List.nil_prefix (by simpa using hs)
          rwa [World.wrote_nil] at hcut
        · next k hs =>
          have hrest := ih (data.drop (k + 1)) (w.wrote x [data.take (k + 1)])
            (by rw [List.length_drop]; omega)
          have := hrest.cons (by rw [hs]; simp)
          rwa [List.take_append_drop] at this

theorem networkSend_sent (env : Env φ) {fd : Option Nat} {x : Nat} (data : Bytes) {w : World}
    (h : w.sockAt fd = some x) :
    Sent env x w data (networkSend env fd data w).1 (networkSend env fd data w).2 := by
  unfold networkSend
  split
  · next he =>
    have : data = [] := by simpa using he
    subst this
    exact .nothing env x w
  · rw [h]
    exact networkSendLoop_sent env x _ data w (Nat.le_refl _)

theorem networkSend_closed (env : Env φ) {fd : Option Nat} (data : Bytes) {w : World}
    (h : w.sockAt fd = none) : networkSend env fd data w = (!data.isEmpty, w) := by
  unfold networkSend
  rw [h]
  cases data <;> rfl

theorem networkSendAll_sent (env : Env φ) {fd : Option Nat} {x : Nat} (ds : List Bytes) {w : World}
    (h : w.sockAt fd = some x) :
    Sent env x w ds.flatten (networkSendAll env fd ds w).1 (networkSendAll env fd ds w).2 := by
  induction ds generalizing w with
  | nil => exact .nothing env x w
  | cons d ds ih =>
      have hd := networkSend_sent env d h
      simp only [networkSendAll, List.flatten_cons]
      cases hr : (networkSend env fd d w).1 with
      | true =>
          rw [hr] at hd
          simpa [hr] using hd.extend
      | false =>
          rw [hr] at hd
          have hs : (networkSend env fd d w).2.sockAt fd = some x := by
            rw [← h, World.sockAt, World.sockAt, hd.fds]
          simpa using hd.append (ih hs)

theorem networkSendAll_closed (env : Env φ) {fd : Option Nat} (ds : List Bytes) {w : World}
    (h : w.sockAt fd = none) : networkSendAll env fd ds w = (!ds.flatten.isEmpty, w) := by
  induction ds with
  | nil => rfl
  | cons d ds ih =>
      simp only [networkSendAll, networkSend_closed env d h, ih]
      cases d <;> simp

theorem networkSendAll_append (env : Env φ) (fd : Option Nat) (ds es : List Bytes) (w : World) :
    networkSendAll env fd (ds ++ es) w =
      if (networkSendAll env fd ds w).1 then networkSendAll env fd ds w
      else networkSendAll env fd es (networkSendAll env fd ds w).2 := by
  induction ds generalizing w with
  | nil => simp [networkSendAll]
  | cons d ds ih =>
      simp only [List.cons_append, networkSendAll]
      split
      · rfl
      · rw [ih]

end Websocksy

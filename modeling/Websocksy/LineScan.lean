import Websocksy.Effects

/-!
# The line scanner

`wsTakeLine` handles one line given as a byte list, apart from any buffer, and
`lineEnds` and `lineQuiet` say in terms of the connection and the line alone
whether the line ends the HTTP phase and what it does if not.

`wsScan` is then a loop over the lines of the received bytes (`wsScan_line`).
As long as no line but the last ends the HTTP phase (`EndsLast`), it handles
these lines one after the other and nothing else (`wsScan_lines`).
-/

namespace Websocksy

open Buffer CString Lines

variable {φ : Type}

/-! ## One line -/

/-- Hand a line to the handler for the state. -/
def wsTakeLine (env : Env φ) (line : Bytes) (s : Conn φ) : Conn φ :=
  let s := { s with world := s.world.record (.line s.ws.conn s.ws.state line) }
  if s.ws.state = .wsNew then
    match requestPath line with
    | none => s
    | some path => { s with ws := { s.ws with state := .wsHttp, requestPath := some path } }
  else (wsHandleLine env (cstr line) s).2

/-- Does the line end the HTTP phase: it closes the connection or upgrades it. -/
def lineEnds (ws : Websocket φ) (line : Bytes) : Bool :=
  if ws.state = .wsNew then false
  else match cstr line with
    | [] => ws.ready || ws.websocketVersion != 13
    | c :: _ => isspace c || (strchr 58 (cstr line)).isNone

/-- What a line that does not end the HTTP phase does. -/
def lineQuiet (ws : Websocket φ) (line : Bytes) : Websocket φ :=
  if ws.state = .wsNew then
    match requestPath line with
    | none => ws
    | some path => { ws with state := .wsHttp, requestPath := some path }
  else match strchr 58 (cstr line) with
    | none => ws
    | some (header, value) => wsHeader header (ltrim value) ws

/-- Only the last of the lines may end the HTTP phase, and that one is a whole line:
there is no CRLF in it that was not seen. -/
def EndsLast (ws : Websocket φ) : List Bytes → Prop
  | [] => True
  | l :: ls => if lineEnds ws l then ls = [] ∧ cutLine l = none else EndsLast (lineQuiet ws l) ls

instance decidableEndsLast (ws : Websocket φ) : (ls : List Bytes) → Decidable (EndsLast ws ls)
  | [] => isTrue trivial
  | l :: ls =>
    have := decidableEndsLast (lineQuiet ws l) ls
    inferInstanceAs (Decidable (if lineEnds ws l then ls = [] ∧ cutLine l = none
      else EndsLast (lineQuiet ws l) ls))

theorem wsTakeLine_quiet (env : Env φ) {line : Bytes} {s : Conn φ}
    (h : lineEnds s.ws line = false) :
    wsTakeLine env line s =
      ⟨lineQuiet s.ws line, s.world.record (.line s.ws.conn s.ws.state line)⟩ := by
  unfold lineEnds at h
  unfold wsTakeLine lineQuiet
  by_cases hn : s.ws.state = .wsNew
  · simp only [hn, if_true]
    split <;> rfl
  · simp only [hn, if_false] at h ⊢
    cases hl : cstr line with
    | nil =>
        simp only [hl, Bool.or_eq_false_iff, bne_eq_false_iff_eq] at h
        simp only [wsHandleLine, strchr]
        rw [wsUpgradeHttp_incomplete env (by exact h.1) (by exact h.2)]
    | cons c cs =>
        simp only [hl, Bool.or_eq_false_iff] at h
        simp only [wsHandleLine, h.1, Bool.false_eq_true, if_false]
        cases hc : strchr 58 (c :: cs) with
        | none => rw [hc] at h; simp at h
        | some p => rfl

/-- A line that ends the HTTP phase: the upgrade, or one of the closes. -/
inductive Ended (env : Env φ) (s : Conn φ) : Conn φ → Prop
  | upgrade (h : s.ws.ready = true) : Ended env s (wsUpgradeHttp env s).2
  | version (h : s.ws.ready = false) :
      Ended env s (wsClose env .http (some (ascii "426 Unsupported protocol version")) s)
  | folding : Ended env s (wsClose env .http (some (ascii "500 Header folding")) s)
  | format : Ended env s (wsClose env .http (some (ascii "500 Header format")) s)

theorem wsTakeLine_ends (env : Env φ) {line : Bytes} {s : Conn φ} (h : lineEnds s.ws line = true) :
    Ended env ⟨s.ws, s.world.record (.line s.ws.conn s.ws.state line)⟩ (wsTakeLine env line s) := by
  unfold lineEnds at h
  unfold wsTakeLine
  by_cases hn : s.ws.state = .wsNew
  · simp [hn] at h
  · simp only [hn, if_false] at h ⊢
    cases hl : cstr line with
    | nil =>
        simp only [hl, Bool.or_eq_true, bne_iff_ne] at h
        simp only [wsHandleLine]
        cases hr : s.ws.ready with
        | true => exact .upgrade hr
        | false =>
            rw [wsUpgradeHttp_version env (by exact hr) (by exact h.resolve_left (by simp [hr]))]
            exact .version hr
    | cons c cs =>
        simp only [hl, Bool.or_eq_true] at h
        simp only [wsHandleLine]
        split
        · exact .folding
        · next hs =>
          have := h.resolve_left hs
          rw [Option.isNone_iff_eq_none] at this
          rw [this]
          exact .format

/-! ## Handing over -/

theorem nul_notMem_get : (0 : UInt8) ∉ ascii "GET " := by decide

theorem nul_notMem_http : (0 : UInt8) ∉ ascii "HTTP/" := by decide

/-- A literal is a prefix of a C string that goes on behind its NUL, or of none. -/
theorem strncmp_append_nul {lit : Bytes} (hl : 0 ∉ lit) (l r : Bytes) :
    strncmp (l ++ 0 :: r) lit = strncmp l lit := by
  unfold strncmp
  induction lit generalizing l with
  | nil => simp
  | cons x xs ih =>
      have hx : x ≠ 0 := fun e => hl (e ▸ List.mem_cons_self)
      have hxs : 0 ∉ xs := fun e => hl (List.mem_cons_of_mem _ e)
      cases l with
      | nil => simp [List.isPrefixOf, hx]
      | cons y ys => simp [List.isPrefixOf, ih hxs ys]

theorem takeWhile_append_nul {p : UInt8 → Bool} (hp : p 0 = false) (l r : Bytes) :
    (l ++ 0 :: r).takeWhile p = l.takeWhile p := by
  induction l with
  | nil => simp [hp]
  | cons x xs ih =>
      simp only [List.cons_append, List.takeWhile_cons, ih]

/-- What is compared with the protocol name begins behind the path and one more byte:
inside the line, or with the LF. -/
theorem strncmp_drop_nul (l r : Bytes) {n : Nat} (hn : n ≤ l.length) :
    strncmp ((l ++ 0 :: 10 :: r).drop (n + 1)) (ascii "HTTP/") =
      strncmp (l.drop (n + 1)) (ascii "HTTP/") := by
  rcases Nat.lt_or_ge n l.length with h | h
  · rw [List.drop_append_of_le_length (by omega), strncmp_append_nul nul_notMem_http]
  · have hnl : n = l.length := by omega
    rw [hnl, List.drop_of_length_le (show l.length ≤ l.length + 1 by omega), ← List.drop_drop,
      List.drop_left]
    rfl

/-- The request line is read the same in the buffer, where it ends with the NUL that
replaced the CR and the LF stands behind. -/
theorem requestPath_append_nul (l r : Bytes) : requestPath (l ++ 0 :: 10 :: r) = requestPath l := by
  unfold requestPath
  rw [strncmp_append_nul nul_notMem_get]
  cases hg : strncmp l (ascii "GET ") with
  | false => rfl
  | true =>
      have hlen : 4 ≤ l.length := (List.isPrefixOf_iff_prefix.mp hg).length_le
      obtain ⟨t, ht, hd⟩ : ∃ t, l.drop 4 = t ∧ (l ++ 0 :: 10 :: r).drop 4 = t ++ 0 :: 10 :: r :=
        ⟨l.drop 4, rfl, List.drop_append_of_le_length hlen⟩
      have hpath := takeWhile_append_nul (p := fun c => c != 0 && !isspace c) rfl t (10 :: r)
      have hle : (t.takeWhile fun c => c != 0 && !isspace c).length ≤ t.length :=
        (List.takeWhile_prefix _).length_le
      simp only [if_true, Nat.add_assoc, ← List.drop_drop, ht, hd, hpath]
      have hproto := strncmp_drop_nul t r hle
      rw [← List.drop_drop, ← List.drop_drop] at hproto
      rw [hproto]

theorem write_nul (b : Bytes) (at_ : Nat) :
    write b at_ [0] = slice b 0 at_ ++ 0 :: b.drop (at_ + 1) := by
  simp [write]

theorem slice_two (b : Bytes) (off : Nat) : slice b off 2 = [b.getD off 0, b.getD (off + 1) 0] := rfl

/-- `wsHandOver` handles the line that ends at the CRLF found. -/
theorem wsHandOver_eq (env : Env φ) {n : Nat} {s : Conn φ}
    (h : slice s.ws.readBuffer (s.ws.readBufferOffset + n) 2 = crlf) :
    wsHandOver env n s =
      wsTakeLine env (slice s.ws.readBuffer 0 (s.ws.readBufferOffset + n))
        { s with ws := { s.ws with
          readBuffer := write s.ws.readBuffer (s.ws.readBufferOffset + n) [0] } } := by
  have hlf : ∃ r, s.ws.readBuffer.drop (s.ws.readBufferOffset + n + 1) = 10 :: r := by
    rw [slice_two, crlf, List.cons.injEq, List.cons.injEq] at h
    have hget := h.2.1
    rw [List.getD_eq_getElem?_getD] at hget
    cases hd : s.ws.readBuffer[s.ws.readBufferOffset + n + 1]? with
    | none => rw [hd] at hget; cases hget
    | some x =>
        rw [hd] at hget
        cases hget
        obtain ⟨hlt, hx⟩ := List.getElem?_eq_some_iff.mp hd
        exact ⟨_, by rw [List.drop_eq_getElem_cons hlt, hx]; rfl⟩
  obtain ⟨r, hr⟩ := hlf
  unfold wsHandOver wsTakeLine wsHandleNew wsHandleHttp
  simp only [write_nul, hr, requestPath_append_nul, cstr_append_nul]
  split
  · cases requestPath (slice s.ws.readBuffer 0 (s.ws.readBufferOffset + n)) <;> rfl
  · rfl

/-! ## The loop -/

/-- The scan from `n` on finds the first CRLF of the bytes not looked at. -/
theorem wsScan_eq (env : Env φ) (fuel n bytesRead : Nat) (s : Conn φ) (hn : n ≤ bytesRead)
    (hf : bytesRead - n ≤ fuel) :
    wsScan env fuel n bytesRead s =
      match cutLine (slice s.ws.readBuffer (s.ws.readBufferOffset + n) (bytesRead - n)) with
      | none => (bytesRead, s)
      | some (l, r) =>
        wsScan env (fuel - l.length - 1) 0 r.length
          (wsDropLine (n + l.length) r.length (wsHandOver env (n + l.length) s)) := by
  induction fuel generalizing n with
  | zero =>
      have : bytesRead - n = 0 := by omega
      rw [this, slice_zero]
      rfl
  | succ fuel ih =>
      conv => lhs; unfold wsScan
      by_cases hlt : n + 1 < bytesRead
      · obtain ⟨k, hk⟩ : ∃ k, bytesRead - n = k + 2 := ⟨bytesRead - n - 2, by omega⟩
        have hrest : slice s.ws.readBuffer (s.ws.readBufferOffset + (n + 1)) (bytesRead - (n + 1)) =
            s.ws.readBuffer.getD (s.ws.readBufferOffset + n + 1) 0 ::
              slice s.ws.readBuffer (s.ws.readBufferOffset + n + 1 + 1) k := by
          rw [show bytesRead - (n + 1) = k + 1 by omega, slice_succ]
          rfl
        have hwindow : slice s.ws.readBuffer (s.ws.readBufferOffset + n) (bytesRead - n) =
            s.ws.readBuffer.getD (s.ws.readBufferOffset + n) 0 ::
              s.ws.readBuffer.getD (s.ws.readBufferOffset + n + 1) 0 ::
                slice s.ws.readBuffer (s.ws.readBufferOffset + n + 1 + 1) k := by
          rw [hk, slice_succ, slice_succ]
        rw [if_pos hlt, hwindow]
        simp only [cutLine]
        by_cases hc : slice s.ws.readBuffer (s.ws.readBufferOffset + n) 2 = crlf
        · have hxy := hc
          rw [slice_two, crlf, List.cons.injEq, List.cons.injEq] at hxy
          rw [if_pos hc, if_pos ⟨hxy.1, hxy.2.1⟩]
          simp only [length_slice, List.length_nil, Nat.add_zero, Nat.sub_zero, Nat.add_sub_cancel]
          rw [show bytesRead - (n + 2) = k by omega]
        · have hxy : ¬(s.ws.readBuffer.getD (s.ws.readBufferOffset + n) 0 = 13 ∧
              s.ws.readBuffer.getD (s.ws.readBufferOffset + n + 1) 0 = 10) := by
            intro h
            exact hc (by rw [slice_two, h.1, h.2]; rfl)
          rw [if_neg hc, if_neg hxy, ih (n + 1) (by omega) (by omega), hrest]
          cases cutLine _ with
          | none => rfl
          | some p =>
              simp only [Option.map_some, List.length_cons]
              rw [show n + (p.1.length + 1) = n + 1 + p.1.length by omega,
                show fuel + 1 - (p.1.length + 1) - 1 = fuel - p.1.length - 1 by omega]
      · rw [if_neg hlt]
        have : bytesRead - n = 0 ∨ bytesRead - n = 1 := by omega
        rcases this with h | h <;> rw [h] <;> rfl

/-- Enough fuel is as good as any. -/
theorem wsScan_fuel (env : Env φ) (fuel bytesRead : Nat) (s : Conn φ) (hf : bytesRead ≤ fuel) :
    wsScan env fuel 0 bytesRead s = wsScan env bytesRead 0 bytesRead s := by
  induction hb : bytesRead using Nat.strongRecOn generalizing fuel bytesRead s with
  | ind b ih =>
      subst hb
      rw [wsScan_eq env fuel 0 bytesRead s (by omega) (by omega),
        wsScan_eq env bytesRead 0 bytesRead s (by omega) (by omega)]
      cases hc : cutLine (slice s.ws.readBuffer (s.ws.readBufferOffset + 0) (bytesRead - 0)) with
      | none => rfl
      | some p =>
          have hlen := congrArg List.length (cutLine_eq_some hc).1
          simp only [length_slice, List.length_append, List.length_cons] at hlen
          simp only
          rw [ih p.2.length (by omega) _ _ _ (by omega) rfl,
            ih p.2.length (by omega) (bytesRead - p.1.length - 1) _ _ (by omega) rfl]

/-- **The line loop, a line at a time.** -/
theorem wsScan_line (env : Env φ) (bytesRead : Nat) (s : Conn φ) :
    wsScan env bytesRead 0 bytesRead s =
      match cutLine (slice s.ws.readBuffer s.ws.readBufferOffset bytesRead) with
      | none => (bytesRead, s)
      | some (l, r) =>
        wsScan env r.length 0 r.length (wsDropLine l.length r.length (wsHandOver env l.length s)) := by
  rw [wsScan_eq env bytesRead 0 bytesRead s (by omega) (by omega)]
  simp only [Nat.add_zero, Nat.sub_zero, Nat.zero_add]
  cases hc : cutLine (slice s.ws.readBuffer s.ws.readBufferOffset bytesRead) with
  | none => rfl
  | some p =>
      have hlen := congrArg List.length (cutLine_eq_some hc).1
      simp only [length_slice, List.length_append, List.length_cons] at hlen
      exact wsScan_fuel env _ _ _ (by omega)

end Websocksy

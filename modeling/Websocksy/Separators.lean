import Websocksy.Framed
import Websocksy.FrameType
import Websocksy.Lib.Separator

/-!
# Framing by separators

`framing_separator` looks for its separator only in the bytes of the last read, so a
separator that comes with two reads is not found (`separator_segmented_iff`).  The same
holds of `framing_newline`, which calls it.
-/

namespace Websocksy

open Buffer CString Separator

variable {φ : Type}

/-- `f` frames up to the first separator in the bytes of the last read.  `I` is what the framing
data is kept to. -/
structure SearchesRead (f : WsFraming φ) (config : Option Bytes) (I : Option φ → Prop)
    (sep : Bytes) : Prop where
  value : ∀ buffer length lastRead opcode framingData, I framingData → lastRead ≤ length →
    (f (some buffer) length lastRead (some opcode) framingData config).1 =
      (((cutAfter sep (slice buffer (length - lastRead) lastRead)).map
        fun p => length - lastRead + p.1.length).getD 0 : Nat)
  opcode : ∀ buffer length lastRead opcode framingData, I framingData → opcode ≠ .discard →
    (f (some buffer) length lastRead (some opcode) framingData config).2.1.getD opcode ≠ .discard
  keeps : ∀ buffer length lastRead opcode framingData, I framingData →
    I (f (some buffer) length lastRead (some opcode) framingData config).2.2

/-! ## The search -/

theorem cutAfter_short {sep xs : Bytes} (h : xs.length < sep.length) : cutAfter sep xs = none := by
  cases hc : cutAfter sep xs with
  | none => rfl
  | some p =>
      obtain ⟨hx, hp⟩ := cutAfter_some hc
      have := hp.length_le
      rw [hx, List.length_append] at h
      omega

theorem separatorSearch_eq (sep data : Bytes) (hne : sep ≠ []) (left i : Nat) :
    separatorSearch sep data left i =
      (cutAfter sep (slice data i left)).map fun p => i + p.1.length := by
  induction left generalizing i with
  | zero => rfl
  | succ left ih =>
      unfold separatorSearch
      by_cases hshort : left + 1 < sep.length
      · rw [if_pos hshort, cutAfter_short (by rw [length_slice]; exact hshort)]
        rfl
      · rw [if_neg hshort]
        have hsplit : slice data i (left + 1) =
            slice data i sep.length ++ slice data (i + sep.length) (left + 1 - sep.length) := by
          rw [← slice_add, Nat.add_sub_cancel' (by omega)]
        by_cases hfound : slice data i sep.length = sep
        · rw [if_pos hfound, hsplit, hfound, cutAfter_of_prefix hne]
          rfl
        · have hno : ¬sep <+: slice data i (left + 1) := by
            intro hpre
            refine hfound ((List.prefix_of_prefix_length_le hpre ?_ ?_).eq_of_length ?_).symm
            · exact ⟨_, hsplit.symm⟩
            · simp
            · simp
          rw [if_neg hfound, ih, slice_succ, cutAfter, if_neg (by rwa [← slice_succ])]
          cases cutAfter sep (slice data (i + 1) left) with
          | none => rfl
          | some p => simp [Nat.add_assoc, Nat.add_comm 1]

/-! ## `separator` and `newline` search the last read -/

theorem separatorFrame_eq (sep data : Bytes) (hne : sep ≠ []) (length lastRead : Nat) :
    separatorFrame sep data length lastRead =
      (((cutAfter sep (slice data (length - lastRead) lastRead)).map
        fun p => length - lastRead + p.1.length).getD 0 : Nat) := by
  unfold separatorFrame
  rw [if_neg (by rwa [List.length_eq_zero_iff]), separatorSearch_eq sep data hne]

theorem framingSeparator_call {config sep : Bytes} (hparse : separatorParse (cstr config) = some sep)
    (buffer : Bytes) (length lastRead : Nat) (opcode : Option WsOperation)
    {framingData : Option Bytes} (hI : framingData = none ∨ framingData = some sep) :
    framingSeparator (some buffer) length lastRead opcode framingData (some config) =
      some (separatorFrame sep buffer length lastRead, opcode, some sep) := by
  rcases hI with rfl | rfl
  · unfold framingSeparator
    simp only [Option.map_some, hparse]
  · rfl

theorem framingSeparator_searches {config sep : Bytes}
    (hparse : separatorParse (cstr config) = some sep) (hne : sep ≠ []) :
    SearchesRead framingSeparator.total (some config) (fun d => d = none ∨ d = some sep) sep := by
  refine ⟨?_, ?_, ?_⟩
  · intro buffer length lastRead opcode framingData hI hle
    rw [WsFraming?.total, framingSeparator_call hparse _ _ _ _ hI, Option.getD_some]
    exact separatorFrame_eq sep buffer hne length lastRead
  · intro buffer length lastRead opcode framingData hI hop
    rw [WsFraming?.total, framingSeparator_call hparse _ _ _ _ hI]
    exact hop
  · intro buffer length lastRead opcode framingData hI
    rw [WsFraming?.total, framingSeparator_call hparse _ _ _ _ hI]
    exact .inr rfl

/-- The bytes that `framing_newline` takes for a newline. -/
def newlineBytes (config : Bytes) : Bytes :=
  if cstr config = ascii "lfcr" then [10, 13]
  else if cstr config = ascii "lf" then [10]
  else if cstr config = ascii "cr" then [13]
  else [13, 10]

theorem separatorParse_newline (config : Bytes) :
    separatorParse (cstr (newlineExpression config)) = some (newlineBytes config) := by
  unfold newlineExpression newlineBytes
  split_ifs <;> decide

theorem newlineBytes_ne_nil (config : Bytes) : newlineBytes config ≠ [] := by
  unfold newlineBytes
  split_ifs <;> simp

theorem framingNewline_call (config buffer : Bytes) (length lastRead : Nat) (opcode : WsOperation)
    {framingData : Option Bytes}
    (hI : framingData = none ∨ framingData = some (newlineBytes config)) :
    ∃ op, (op = .text ∨ op = opcode) ∧
      framingNewline (some buffer) length lastRead (some opcode) framingData (some config) =
        some (separatorFrame (newlineBytes config) buffer length lastRead, some op,
          some (newlineBytes config)) := by
  have hnat := separatorFrame_eq _ buffer (newlineBytes_ne_nil config) length lastRead
  have hseparated : framingNewline (some buffer) length lastRead (some opcode) framingData
      (some config) = (some (separatorFrame (newlineBytes config) buffer length lastRead, some opcode,
        some (newlineBytes config))).map fun r =>
          if r.1 < 0 then ((length : Int), r.2)
          else
            let framed := framingAuto (φ := Bytes) (some buffer) r.1.toNat 0 r.2.1 none none
            (framed.1, framed.2.1, r.2.2) := by
    unfold framingNewline
    rcases hI with rfl | rfl
    · rw [if_pos ⟨rfl, rfl⟩, Option.bind_some,
        framingSeparator_call (separatorParse_newline config) _ _ _ _ (.inl rfl)]
    · rw [if_neg (by simp)]
      rfl
  rw [hseparated, hnat, Option.map_some, if_neg (by simp)]
  unfold framingAuto
  split
  · exact ⟨.text, .inl rfl, rfl⟩
  · exact ⟨opcode, .inr rfl, rfl⟩

theorem framingNewline_searches (config : Bytes) :
    SearchesRead framingNewline.total (some config)
      (fun d => d = none ∨ d = some (newlineBytes config)) (newlineBytes config) := by
  refine ⟨?_, ?_, ?_⟩
  · intro buffer length lastRead opcode framingData hI hle
    obtain ⟨op, -, hcall⟩ := framingNewline_call config buffer length lastRead opcode hI
    rw [WsFraming?.total, hcall, Option.getD_some]
    exact separatorFrame_eq _ buffer (newlineBytes_ne_nil config) length lastRead
  · intro buffer length lastRead opcode framingData hI hop
    obtain ⟨op, hset, hcall⟩ := framingNewline_call config buffer length lastRead opcode hI
    rw [WsFraming?.total, hcall]
    rcases hset with rfl | rfl
    · simp
    · exact hop
  · intro buffer length lastRead opcode framingData hI
    obtain ⟨op, -, hcall⟩ := framingNewline_call config buffer length lastRead opcode hI
    rw [WsFraming?.total, hcall]
    exact .inr rfl

/-! ## The loop -/

section

variable {env : Env φ} {f : WsFraming φ} {config : Option Bytes} {I : Option φ → Prop}
  {sep : Bytes} {c : FramingCall φ} {x y : Nat} {s : Conn φ}

/-- The pieces of the bytes of the last read are taken, the first of them with what was kept. -/
theorem SearchesRead.framed (h : SearchesRead f config I sep) (hne : sep ≠ []) (c : FramingCall φ)
    (hI : I c.framingData) (hop : c.opcode ≠ .discard) {kept new : Bytes}
    (hlive : c.live = kept ++ new) (hkept : kept.length = c.offset) :
    ∃ segs rest, c.Framed f config segs rest ∧
      segs.map (·.2) = (prepend kept ((pieces sep hne).drain new)).1 ∧
      rest.live = (prepend kept ((pieces sep hne).drain new)).2 ∧
      (∀ p ∈ segs, p.1 ≠ .discard) ∧ I rest.framingData := by
  induction hn : c.length using Nat.strongRecOn generalizing c kept new with
  | ind n ih =>
      have hlen : c.length = c.offset + c.bytesRead := rfl
      have hnew : slice c.buffer (c.length - c.bytesRead) c.bytesRead = new := by
        have hparts : c.live = slice c.buffer 0 c.offset ++ slice c.buffer c.offset c.bytesRead := by
          rw [FramingCall.live, hlen, slice_add, Nat.zero_add]
        rw [hlen, Nat.add_sub_cancel]
        rw [hparts] at hlive
        exact (List.append_inj hlive (by simp [hkept])).2
      have hvalue := h.value c.buffer c.length c.bytesRead c.opcode c.framingData hI (by omega)
      have hopcode := h.opcode c.buffer c.length c.bytesRead c.opcode c.framingData hI hop
      have hkeeps := h.keeps c.buffer c.length c.bytesRead c.opcode c.framingData hI
      rw [hnew] at hvalue
      cases hc : (pieces sep hne).next new with
      | none =>
          rw [show cutAfter sep new = none from hc] at hvalue
          refine ⟨[], _, .declined _ _ (FramingCall.take_zero hvalue), ?_, ?_, by simp, hkeeps⟩
          · rw [Splitter.drain_none _ hc]
            rfl
          · rw [Splitter.drain_none _ hc]
            exact hlive
      | some p =>
          obtain ⟨hx, hp⟩ := cutAfter_some (show cutAfter sep new = some (p.1, p.2) from hc)
          have hpos := List.length_pos_iff.mpr hne
          have hlong := hp.length_le
          rw [show cutAfter sep new = some p from hc, Option.map_some, Option.getD_some, hlen,
            Nat.add_sub_cancel] at hvalue
          have hcount : new.length = c.bytesRead := by rw [← hnew, length_slice]
          have htotal := congrArg List.length hx
          rw [List.length_append] at htotal
          obtain ⟨op, seg, rest, again, htake, hk⟩ :=
            FramingCall.take_pos hvalue (by omega) (by omega)
          have hop' : op ≠ .discard := by
            rw [hk.opcode]
            exact hopcode
          have hI' : I rest.framingData := by
            rw [hk.framingData]
            exact hkeeps
          obtain ⟨rfl, hrest⟩ : seg = kept ++ p.1 ∧ rest.live = p.2 := by
            rw [hk.live, hx, ← List.append_assoc] at hlive
            refine List.append_inj hlive ?_
            rw [hk.data, length_slice, List.length_append, hkept]
          have hlive' : rest.live.length = rest.length := length_slice _ _ _
          have hcut : (prepend kept ((pieces sep hne).drain new)) =
              ((kept ++ p.1) :: ((pieces sep hne).drain p.2).1, ((pieces sep hne).drain p.2).2) := by
            rw [Splitter.drain_some _ hc]
            rfl
          have hoff := hk.offset
          have hless := hk.length
          rw [hcut]
          cases again with
          | false =>
              have hlast := hk.again
              simp only [Bool.false_eq_true, false_iff] at hlast
              have hnil : p.2 = [] := by
                rw [← List.length_eq_zero_iff, ← hrest]
                omega
              have hdone : (pieces sep hne).drain p.2 = ([], []) := by
                rw [hnil]
                exact Splitter.drain_none _ rfl
              rw [hdone]
              exact ⟨_, rest, .last c op _ rest htake, rfl, by rw [hrest, hnil], by simpa using hop', hI'⟩
          | true =>
              have hnone : rest.live = [] ++ p.2 := hrest
              obtain ⟨segs, last, hframed, hsegs, htail, hops, hlast⟩ :=
                ih rest.length (by omega) rest hI' (by rw [hk.keep]; exact hop') hnone
                  (by rw [hoff]; simp) rfl
              have hsame : ∀ r : List Bytes × Bytes, prepend [] r = r := by
                rintro ⟨_ | ⟨q, qs⟩, r⟩ <;> rfl
              rw [hsame] at hsegs htail
              refine ⟨_, last, .again c op _ rest segs last htake hframed, ?_, htail, ?_, hlast⟩
              · rw [List.map_cons, hsegs]
              · intro q hq
                rcases List.mem_cons.mp hq with rfl | hq
                · exact hop'
                · exact hops q hq

/-- What was found and what is in the buffer, after the reads. -/
structure Searched (I : Option φ → Prop) (sep : Bytes) (hne : sep ≠ []) (x y : Nat) (head : Bytes)
    (s : Conn φ) : Prop where
  found : (segments s.ws.conn s.world.log).map (·.2) = (drainEach sep hne (recvs x s.world.log)).1
  kept : s.ws.peerLive = (drainEach sep hne (recvs x s.world.log)).2
  kinds : ∀ p ∈ segments s.ws.conn s.world.log, p.1 ≠ .discard
  written : written y s.world.log = head ++ framesSent (segments s.ws.conn s.world.log)
  framingData : I s.ws.peerFramingData
  offset : s.ws.peerBufferOffset ≤ peerBufferSize - 1

/-- One read: its bytes alone are searched. -/
theorem Searched.read {head : Bytes} (h : SearchesRead f config I sep) (hne : sep ≠ [])
    (hs : Searched I sep hne x y head s) (hsend : ∀ k, env.send y k ≠ none) (hp : Peered f x y s)
    (hconfig : s.ws.peer.framingConfig = config) {fuel : Nat} (hfuel : peerBufferSize ≤ fuel)
    {b : Bytes} (hb : PeerReads s b) :
    ∃ t, wsPeerData env fuel (some b) s = some (false, t) ∧ Peered f x y t ∧
      t.ws.peer = s.ws.peer ∧ Searched I sep hne x y head t := by
  have hsize : peerBufferSize = 16384 := rfl
  generalize hd : b.take (peerBufferSize - s.ws.peerBufferOffset - 1) = data
  have hne' : data ≠ [] := by
    rw [← hd]
    exact hb
  have hlen : data.length ≤ peerBufferSize - s.ws.peerBufferOffset - 1 := by
    rw [← hd, List.length_take]
    omega
  have hoff := hs.offset
  obtain ⟨segs, rest, hframed, hsegs, htail, hops, hI⟩ := h.framed hne (s.firstCall data)
    hs.framingData (by simp [Conn.firstCall]) (firstCall_live s data) (length_slice _ _ _)
  have hstep : drainEach sep hne (recvs x s.world.log ++ [data]) =
      eachStep sep hne (drainEach sep hne (recvs x s.world.log)) data := by
    unfold drainEach
    rw [List.foldl_append]
    rfl
  have hcount := hframed.length_le
  have hfirst : (s.firstCall data).length = s.ws.peerBufferOffset + data.length := rfl
  rw [← hconfig] at hframed
  rw [hs.kept] at hsegs htail
  obtain ⟨t, ht, hread⟩ := wsPeerData_framed hsend hp fuel hd hne' (by omega) hframed
  refine ⟨t, ht, hread.peered, hread.peer, ?_, ?_, ?_, ?_, ?_, ?_⟩
  · rw [hread.conn, hread.segments, hread.recvs, hstep, List.map_append, hs.found, hsegs]
    rfl
  · rw [hread.live, htail, hread.recvs, hstep]
    rfl
  · rw [hread.conn, hread.segments]
    intro p hp
    rcases List.mem_append.mp hp with hp | hp
    · exact hs.kinds p hp
    · exact hops p hp
  · rw [hread.written, hread.conn, hread.segments, hs.written]
    simp [framesSent]
  · rw [hread.framingData]
    exact hI
  · rw [hread.offset]
    omega

/-- In every run of reads the frames sent are the pieces of the whole stream and the rest is in
the buffer, exactly if no read ends inside of a separator at which the stream is cut; and then
there is room for more, if the rest is short enough. -/
def CutAtSeparators (env : Env φ) (fuel : Nat) (f : WsFraming φ) (config : Option Bytes)
    (sep : Bytes) (hne : sep ≠ []) : Prop :=
  ∀ x y, (∀ k, env.send y k ≠ none) → ∀ start : Conn φ, FreshPeer f x y start →
    start.ws.peer.framingConfig = config → start.ws.peerFramingData = none →
    ∀ s, (peerCalls env fuel start).Reach PeerReads s →
      let segs := segments s.ws.conn s.world.log
      let cut := (pieces sep hne).drain (received x s.world.log)
      (segs.map (·.2) = cut.1 ∧ s.ws.peerLive = cut.2 ↔
        Unparted sep.length (recvs x s.world.log) cut.1) ∧
      written y s.world.log = written y start.world.log ++ segs.flatMap (fun p => wsEncode p.1 p.2) ∧
      (s.ws.peerLive = cut.2 → cut.2.length < peerBufferSize - 1 →
        s.ws.peerBufferOffset < peerBufferSize - 1) ∧
      ∀ b, PeerReads s b → ∃ t, wsPeerData env fuel (some b) s = some (false, t)

theorem SearchesRead.cutAtSeparators (h : SearchesRead f config I sep) (hI : I none)
    (hne : sep ≠ []) (env : Env φ) {fuel : Nat} (hfuel : peerBufferSize ≤ fuel) :
    CutAtSeparators env fuel f config sep hne := by
  intro x y hsend start hstart hconfig hdata s hreach
  have hinv : Peered f x y s ∧ s.ws.peer.framingConfig = config ∧
      Searched I sep hne x y (written y start.world.log) s := by
    refine hreach.invariant (P := fun s => Peered f x y s ∧ s.ws.peer.framingConfig = config ∧
      Searched I sep hne x y (written y start.world.log) s) ?_ ?_
    · rintro s rfl
      refine ⟨hstart.toPeered, hconfig, ?_, ?_, ?_, ?_, by rwa [hdata], by rw [hstart.offset]; simp⟩
      · rw [hstart.segments, hstart.recvs]
        rfl
      · rw [Websocket.peerLive, hstart.offset, hstart.recvs]
        rfl
      · rw [hstart.segments]
        simp
      · rw [hstart.segments]
        simp [framesSent]
    · rintro s b t - ⟨hp, hc, hs⟩ hb hstep
      obtain ⟨u, hu, hpu, hpeer, hs'⟩ := hs.read h hne hsend hp hc hfuel hb
      simp only [peerCalls, hu, Option.map_some, Option.some.injEq] at hstep
      subst hstep
      exact ⟨hpu, by rw [hpeer]; exact hc, hs'⟩
  obtain ⟨hp, hc, hs⟩ := hinv
  have hoff : s.ws.peerLive.length = s.ws.peerBufferOffset := length_slice _ _ _
  refine ⟨?_, ?_, fun hlive hlt => by rwa [← hoff, hlive], fun b hb => ?_⟩
  · rw [hs.found, hs.kept, received, ← drainEach_eq_iff hne, Prod.ext_iff]
  · rw [hs.written, framesSent]
    congr 1
    exact List.flatMap_congr fun p hp => if_neg (hs.kinds p hp)
  · obtain ⟨t, ht, -⟩ := hs.read h hne hsend hp hc hfuel hb
    exact ⟨t, ht⟩

end

/-- **Framing by separators does not depend on the reads** exactly if none of them ends inside of
a separator at which the stream is cut. -/
theorem separator_segmented_iff (fuel : Nat) (hfuel : peerBufferSize ≤ fuel) (env : Env Bytes)
    (config : Bytes) :
    (∀ sep (hne : sep ≠ []), separatorParse (cstr config) = some sep →
      CutAtSeparators env fuel framingSeparator.total (some config) sep hne) ∧
    CutAtSeparators env fuel framingNewline.total (some config) (newlineBytes config)
      (newlineBytes_ne_nil config) := by
  constructor
  · intro sep hne hparse
    exact (framingSeparator_searches hparse hne).cutAtSeparators (.inl rfl) hne env hfuel
  · exact (framingNewline_searches config).cutAtSeparators (.inl rfl) _ env hfuel

/-- A connection whose peer's lines end in CRLF. -/
def sampleCrlf : Conn Bytes := framedOpen framingSeparator.total (some (ascii "\\r\\n"))

theorem sampleCrlf_freshPeer : FreshPeer framingSeparator.total 5 4 sampleCrlf :=
  { framing := rfl, peer := rfl, client := rfl, offset := rfl, recvs := rfl, segments := rfl
    calls := fun _ _ h => by cases h }

/-- Two lines, of which the second comes with two reads. -/
def sampleWhole : List Bytes := [[97, 13, 10, 98], [99, 13, 10]]

/-- A line whose CR and LF come with two reads. -/
def sampleParted : List Bytes := [[97, 13], [10]]

theorem sampleWhole_run :
    ((peerCalls sendingEnv peerBufferSize sampleCrlf).exec sampleWhole sampleCrlf).isSome := by decide

theorem sampleParted_run :
    ((peerCalls sendingEnv peerBufferSize sampleCrlf).exec sampleParted sampleCrlf).isSome := by decide

theorem separator_segmented_iff_sample :
    let s := ((peerCalls sendingEnv peerBufferSize sampleCrlf).exec sampleWhole sampleCrlf).get
      sampleWhole_run
    let cut := (pieces [13, 10] (by simp)).drain (received 5 s.world.log)
    segments 0 s.world.log = [(.binary, [97, 13, 10]), (.binary, [98, 99, 13, 10])] ∧
    ((segments 0 s.world.log).map (·.2) = cut.1 ∧ s.ws.peerLive = cut.2 ↔
      Unparted 2 (recvs 5 s.world.log) cut.1) :=
  ⟨by decide, (((separator_segmented_iff peerBufferSize (Nat.le_refl _) sendingEnv
    (ascii "\\r\\n")).1 [13, 10] (by simp) (by decide)) 5 4 (fun _ => by simp [sendingEnv])
    sampleCrlf sampleCrlf_freshPeer rfl rfl _
    (.exec (.init rfl) sampleWhole (by decide) (Option.some_get sampleWhole_run).symm)).1⟩

/-- The stream is one piece, but no frame is sent and all of it stays in the buffer. -/
theorem separator_segmented_fails :
    let s := ((peerCalls sendingEnv peerBufferSize sampleCrlf).exec sampleParted sampleCrlf).get
      sampleParted_run
    received 5 s.world.log = [97, 13, 10] ∧
    cutAfter [13, 10] [97, 13, 10] = some ([97, 13, 10], []) ∧
    segments 0 s.world.log = [] ∧ s.ws.peerLive = [97, 13, 10] ∧ written 4 s.world.log = [] := by
  decide

end Websocksy

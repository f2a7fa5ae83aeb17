import Websocksy.Outbound
import Websocksy.FrameType
import Websocksy.FramingJson

/-!
# What clients are sent in a run

In every run in which no send is followed by another after it failed, no handshake is answered
twice, and no ping goes to a client in the HTTP phase, every client is sent what `Outbound` says
(`outbound_protocol`).
-/

namespace Websocksy

open Buffer CString Lines FdTable Machine

variable {φ : Type}

/-- Since the log was `l`, the socket was sent what goes with the state of the slot that has it. -/
def Sequel (env : Env φ) (sock : List (Websocket φ)) (w : World) (l : List Event) (x : Nat) : Prop :=
  ∃ ms, Tells x l w.log ms ∧ Stage env .wsClosed ms ∧
    ∀ ws ∈ sock, w.sockAt ws.wsFd = some x → Stage env ws.state ms

/-- The invariant of a run. -/
structure OutboundInv (env : Env φ) (sock : List (Websocket φ)) (w : World) : Prop
    extends ClientsApart sock w where
  sequel : ∀ l conn x l', w.log = l ++ .accepted conn x :: l' →
    Sequel env sock w (l ++ [.accepted conn x]) x

section

variable {env : Env φ} {A : Scope} {s t : Conn φ} {w w' : World} {x : Nat} {l : List Event}
  {l₁ l₂ : List (Websocket φ)} {ws : Websocket φ}

theorem Act.toAll (h : Act env A s t) : Act env Scope.all s t := by
  cases h with
  | bare ws h hr => exact .bare ws h trivial
  | peerBuffer b k fd h => exact .peerBuffer b k fd h
  | note e h => exact .note e h
  | line data h => exact .line data trivial
  | path p h => exact .path p h
  | header tag value h hn => exact .header tag value trivial hn
  | upgrade h hn hr => exact .upgrade trivial hn hr
  | close code reason h => exact .close code reason h
  | forward data h => exact .forward data h
  | frame op data h ho => exact .frame op data trivial trivial

theorem Acts.toAll (h : Acts env A s t) : Acts env Scope.all s t := Relation.ReflTransGen.mono (fun _ _ ha => Act.toAll ha) _ _ h

theorem Unaccepting.split (h : Unaccepting w w') {conn : Nat} {l' : List Event}
    (he : w'.log = l ++ .accepted conn x :: l') : ∃ l'', w.log = l ++ .accepted conn x :: l'' := by
  obtain ⟨es, hes, hno⟩ := h
  have hp : l ++ [.accepted conn x] <+: w.log ++ es := by
    rw [← hes, he]
    exact ⟨l', by simp⟩
  obtain ⟨l'', hl⟩ := prefix_of_notMem hp (hno conn x)
  exact ⟨l'', by simp [← hl]⟩

/-- Nothing is sent, and the slots are the same. -/
theorem Sequel.quiet {sock sock' : List (Websocket φ)} (h : Sequel env sock w l x)
    (ht : Tells x w.log w'.log [])
    (hs : ∀ v ∈ sock', w'.sockAt v.wsFd = some x → v ∈ sock ∧ w.sockAt v.wsFd = some x) :
    Sequel env sock' w' l x := by
  obtain ⟨ms, hms, hclosed, hstage⟩ := h
  have hall := hms.trans ht
  rw [List.append_nil] at hall
  refine ⟨ms, hall, hclosed, ?_⟩
  intro v hv hfd
  obtain ⟨hm, hfd'⟩ := hs v hv hfd
  exact hstage v hm hfd'

/-- What a handler does to the connection in one slot. -/
theorem Sequel.serve (hi : HeldInv (l₁ ++ ws :: l₂) w) (hlocal : Local ⟨ws, w⟩ t)
    (hx : Conn.Apart ⟨ws, w⟩ x) (hc : Course env x l ⟨ws, w⟩ → Course env x l t)
    (h : Sequel env (l₁ ++ ws :: l₂) w l x) : Sequel env (l₁ ++ t.ws :: l₂) t.world l x := by
  have hself : ws ∈ l₁ ++ ws :: l₂ := List.mem_append_right _ List.mem_cons_self
  -- the other slots have the sockets that they had
  have hother {v : Websocket φ} (hv : v ∈ l₁ ++ l₂) (hfd : t.world.sockAt v.wsFd = some x) :
      v ∈ l₁ ++ ws :: l₂ ∧ w.sockAt v.wsFd = some x := by
    rw [(hi.sockAt_other hlocal hv).1] at hfd
    exact ⟨mem_slots_of hv, hfd⟩
  by_cases hfd : w.sockAt ws.wsFd = some x
  · obtain ⟨ms, hms, hclosed, hstage⟩ := h
    obtain ⟨ns, hns, hnclosed, hnstage⟩ := hc ⟨ms, hms, hclosed, hstage ws hself⟩
    refine ⟨ns, hns, hnclosed, ?_⟩
    intro v hv hvx
    rcases mem_slots hv with rfl | hv
    · exact hnstage hvx
    · -- two slots do not have one socket
      exfalso
      obtain ⟨-, hvfd⟩ := hother hv hvx
      cases hg : v.wsFd with
      | none =>
          rw [hg] at hvfd
          cases hvfd
      | some gd =>
          cases hf : ws.wsFd with
          | none =>
              rw [hf] at hfd
              cases hfd
          | some fd =>
              rw [hg] at hvfd
              rw [hf] at hfd
              obtain rfl := hi.numbered.2 fd gd x hfd hvfd
              have hnodup := hi.front.1
              rw [List.nodup_append] at hnodup
              exact hnodup.2.2 fd (by simp [Websocket.held, hf]) fd
                (List.mem_flatMap.mpr ⟨v, hv, by simp [Websocket.held, hg]⟩) rfl
  · obtain ⟨htells, hne⟩ := hlocal.tells_apart hx hfd
    refine h.quiet htells ?_
    intro v hv hvx
    rcases mem_slots hv with rfl | hv
    · exact absurd hvx hne
    · exact hother hv hvx

/-- The invariant after a handler. -/
theorem OutboundInv.serve (hi : OutboundInv env (l₁ ++ ws :: l₂) w)
    (ha : ClientsApart (l₁ ++ t.ws :: l₂) t.world) (hlocal : Local ⟨ws, w⟩ t)
    (hc : ∀ l x, Conn.Apart ⟨ws, w⟩ x → Course env x l ⟨ws, w⟩ → Course env x l t) :
    OutboundInv env (l₁ ++ t.ws :: l₂) t.world := by
  refine ⟨ha, ?_⟩
  intro l conn x l' he
  obtain ⟨l'', hold⟩ := hlocal.unaccepting.split he
  obtain ⟨hlt, hne⟩ := hi.apart conn x (by
    rw [show w.log = _ from hold]
    exact List.mem_append_right _ List.mem_cons_self)
  have hx : Conn.Apart ⟨ws, w⟩ x := ⟨hlt, hne ws (List.mem_append_right _ List.mem_cons_self)⟩
  exact (hi.sequel l conn x l'' hold).serve hi.toHeldInv hlocal hx (hc _ x hx)

theorem outboundRule (env : Env φ) : CoreRule env Scope.outbound (OutboundInv env) where
  init c hc := by
    refine ⟨(clientsRule env).init c hc, ?_⟩
    obtain ⟨-, -, hlog, -⟩ := hc
    intro l conn x l' he
    rw [hlog] at he
    simp at he
  selected sock w xs hi := by
    refine ⟨(clientsRule env).selected sock w xs hi.toClientsApart, ?_⟩
    intro l conn x l' he
    have hselected : Unaccepting w (w.record (.selected xs)) := ⟨_, World.record_log _ _, by simp⟩
    obtain ⟨l'', hold⟩ := hselected.split he
    exact (hi.sequel l conn x l'' hold).quiet
      (.quiet (World.record_log _ _) (by simp [Event.sendsTo])) fun v hv hfd => ⟨hv, hfd⟩
  accept l₁ old l₂ w now accepts hold hreg hi := by
    refine ⟨(clientsRule env).accept l₁ old l₂ w now accepts hold hreg hi.toClientsApart, ?_⟩
    cases accepts with
    | false =>
        intro l conn x l' he
        refine (hi.sequel l conn x l' he).quiet .refl ?_
        intro v hv hfd
        rcases mem_accepted old hv with rfl | hv
        · cases hfd
        · exact ⟨hv, hfd⟩
    | true =>
        -- the slots that are left have the sockets that they had
        have hsame {v : Websocket φ} (hv : v ∈ l₁ ++ (old.toList ++ l₂)) :
            (w.accept true).sockAt v.wsFd = w.sockAt v.wsFd :=
          (hi.toHeldInv.accept_sockAt hv true).1
        have hnew : (w.accept true).sockAt (some (lowest w.fds)) = some w.socks :=
          (entry_install w.fds w.socks _).trans (if_pos rfl)
        have hlog : (w.accept true).log = w.log ++ [.accepted w.conns w.socks] := rfl
        intro l conn x l' he
        rw [hlog] at he
        rcases List.eq_nil_or_concat l' with rfl | ⟨m, e, rfl⟩
        · obtain ⟨rfl, hlast⟩ := List.append_inj' he rfl
          obtain ⟨rfl, rfl⟩ : w.conns = conn ∧ w.socks = x := by simpa using hlast
          refine ⟨[], .refl, .nothing, ?_⟩
          intro v hv hfd
          rcases mem_accepted old hv with rfl | hv
          · exact .new
          · rw [hsame hv] at hfd
            cases hg : v.wsFd with
            | none =>
                rw [hg] at hfd
                cases hfd
            | some fd =>
                rw [hg] at hfd
                exact absurd (hi.numbered.1 fd _ hfd) (Nat.lt_irrefl _)
        · rw [List.concat_eq_append, ← List.cons_append, ← List.append_assoc] at he
          obtain ⟨hbefore, -⟩ := List.append_inj' he rfl
          have hlt : x < w.socks := (hi.apart conn x (by
            rw [hbefore]
            exact List.mem_append_right _ List.mem_cons_self)).1
          refine (hi.sequel l conn x m hbefore).quiet
            (.quiet hlog (by simp [Event.sendsTo])) ?_
          intro v hv hfd
          rcases mem_accepted old hv with rfl | hv
          · rw [show (acceptedConn (φ := φ) now true w).wsFd = some (lowest w.fds) from rfl, hnew] at hfd
            have := Option.some.inj hfd
            omega
          · rw [hsame hv] at hfd
            exact ⟨hv, hfd⟩
  serve l₁ l₂ ws w ready w' t hreg hi hw ht := by
    have ha := (clientsRule env).serve l₁ l₂ ws w ready w' t hreg hi.toClientsApart hw ht.toAll
    refine hi.serve ha (hw.isLocal.trans ht.isLocal) ?_
    intro l x hx hc
    have hst : StateInv env ws :=
      (hreg.slots ws (List.mem_append_right _ List.mem_cons_self)).toStateInv
    cases hw with
    | quiet => exact ht.course hst hx hc
    | event fd y e hfd hr hy he =>
        refine ht.course hst hx (hc.record e ?_)
        rcases he with rfl | ⟨d, rfl⟩ <;> rfl
  quit sock w fd hc hi := by
    refine ⟨(clientsRule env).quit sock w fd hc hi.toClientsApart, ?_⟩
    intro l conn x l' he
    have hclosed : Unaccepting w (w.closeFd fd) := ⟨_, closeFd_log _ _, by simp⟩
    obtain ⟨l'', hold⟩ := hclosed.split he
    exact (hi.sequel l conn x l'' hold).quiet (closeFd_tells _ _) (by simp)

/-! ## Steps -/

/-- **One step** keeps the invariant. -/
theorem coreStep_outbound {c c' : Core φ} {i : Input}
    (hf : ∀ f, env.Offers f → Scope.outbound.Allows f) (hr : RegistryInv env c.sock c.world)
    (hi : OutboundInv env c.sock c.world) (ho : OutboundKept env c i)
    (h : coreStep env i c = some c') : OutboundInv env c'.sock c'.world := by
  obtain ⟨-, hlines, hping⟩ := ho
  have hrest (hno : ∀ n, c.loc ≠ .client n) : OutboundInv env c'.sock c'.world :=
    (outboundRule env).next hr hi (coreStep_next_of trivial (by simp [Scope.outbound]) hf hr
      (fun answer fuel n fd ws hinput hloc => absurd hloc (hno n)) hping h)
  cases coreStep_cases h with
  | idle answer fuel loc hloc hl' => exact hi
  | client answer fuel n fd ws t hloc hn hfd hready ht =>
      have hslot := hr.slots ws (List.mem_of_getElem? hn)
      have honce : AnswersOnce env answer ⟨{ ws with lastEvent := c.now }, c.world⟩ := by
        simp only [hloc] at hlines
        exact hlines ws hn (by simp [hfd, hready])
      obtain ⟨l₁, l₂, hs, hput⟩ := put_split hn t (.peer n)
      have hbare : Local ⟨ws, c.world⟩ ⟨{ ws with lastEvent := c.now }, c.world⟩ := .of_ws rfl rfl rfl
      obtain ⟨-, -, hlocal⟩ := wsData_slotInv
        (s := ⟨{ ws with lastEvent := c.now }, c.world⟩) { hslot with } ht
      have ha : ClientsApart (c.put n t (.peer n)).sock (c.put n t (.peer n)).world :=
        (clientsRule env).next hr hi.toClientsApart (coreStep_next_all hr h)
      rw [hput] at ha ⊢
      rw [hs] at hi
      refine hi.serve ha (hbare.trans hlocal) ?_
      intro l x hx hc
      exact wsData_course (s := ⟨{ ws with lastEvent := c.now }, c.world⟩) { hslot.toStateInv with } hx
        honce ht (hc.quiet .refl id rfl)
  | round ready now accepts hloc hlisten => exact hrest (by simp [hloc])
  | accept ready now accepts hloc hlisten => exact hrest (by simp [hloc])
  | quit hloc => exact hrest (by simp [hloc])
  | peer answer fuel n fd ws r hloc hn hfd hready hr' => exact hrest (by simp [hloc])
  | ping answer fuel n ws hloc hn => exact hrest (by simp [hloc])

/-- **Every client is sent** nothing, or one error response, or one 101 response and then frames
of which only the last closes the connection; a failed send may cut it short. -/
theorem outbound_protocol (env : Env φ) (hf : ∀ f, env.Offers f → Scope.outbound.Allows f)
    (c : Core φ) (h : (coreLoop env).Reach (OutboundKept env) c) : OutboundProtocol env c := by
  have hinv : OutboundInv env c.sock c.world := by
    refine h.invariant (P := fun c => OutboundInv env c.sock c.world) ?_ ?_
    · intro c hc
      rw [hc.1]
      exact (outboundRule env).init c hc
    · intro c i c' hr hi ho hs
      exact coreStep_outbound hf (coreLoop_registryInv hr) hi ho hs
  have hresume : NoResume c.world.log :=
    (failed_sends_end env c (h.mono fun _ _ ho => ho.1)).1.resume
  intro l conn x l' he
  obtain ⟨ms, ⟨es, hes, hspoken⟩, hclosed, -⟩ := hinv.sequel l conn x l' he
  obtain rfl : l' = es := by
    rw [he, List.append_cons, List.append_cancel_left_eq] at hes
    exact hes
  have hno : NoResume (sends x l') := by
    refine hresume.sublist (List.filter_sublist.trans ?_)
    rw [he]
    exact (List.sublist_cons_self _ _).trans (List.sublist_append_right _ _)
  have hcut := spoken_cutShort hspoken hno
  rw [written_sends] at hcut
  refine ⟨_, hclosed.outbound, hcut.imp_right fun h => ⟨?_, h.2⟩⟩
  exact List.mem_of_mem_filter h.1

end

/-! ## The framing functions -/

theorem Framing.SetsText.allows {A : Scope} {f : WsFraming φ} (hf : Framing.SetsText f)
    (ht : A.opcode .text) : A.Allows f := by
  intro data length lastRead opcode framingData config op ho he
  rw [(hf data length lastRead opcode framingData config).2] at he
  dsimp only at he
  split at he
  · rwa [← Option.some.inj he]
  · rwa [← Option.some.inj he]

/-- A function that leaves the opcode alone. -/
theorem Framing.setsText_of_opcode {f : WsFraming φ}
    (hf : ∀ data length lastRead opcode framingData config,
      f data length lastRead (some opcode) framingData config =
        ((f data length lastRead (some .binary) framingData config).1, some opcode,
          (f data length lastRead (some .binary) framingData config).2.2)) :
    Framing.SetsText f := by
  intro data length lastRead opcode framingData config
  have hbinary : (f data length lastRead (some .binary) framingData config).2.1 = some .binary := by
    rw [hf]
  refine ⟨.inr hbinary, ?_⟩
  rw [hf data length lastRead opcode, hbinary, if_neg (by decide)]

theorem framingSeparator_setsText : Framing.SetsText framingSeparator.total := by
  refine Framing.setsText_of_opcode ?_
  intro data length lastRead opcode framingData config
  unfold WsFraming?.total
  rw [framingSeparator_opcode data length lastRead (some opcode),
    framingSeparator_opcode data length lastRead (some .binary)]
  cases framingSeparator data length lastRead none framingData config <;> rfl

theorem framingFixedlen_setsText : Framing.SetsText framingFixedlen.total := by
  refine Framing.setsText_of_opcode ?_
  intro data length lastRead opcode framingData config
  unfold WsFraming?.total framingFixedlen
  cases data <;> cases framingData <;> cases config <;> rfl

theorem framingDynamic32_setsText : Framing.SetsText framingDynamic32.total := by
  refine Framing.setsText_of_opcode ?_
  intro data length lastRead opcode framingData config
  unfold WsFraming?.total framingDynamic32
  cases data with
  | none =>
      cases framingData with
      | none => rfl
      | some c =>
          dsimp only
          cases dynamic32Frame c none length <;> rfl
  | some data =>
      cases framingData with
      | some c =>
          dsimp only
          cases dynamic32Frame c (some data) length <;> rfl
      | none =>
          dsimp only
          cases config.bind dynamic32Parse with
          | none => rfl
          | some c =>
              simp only [Option.bind_some]
              cases dynamic32Frame c (some data) length <;> rfl

theorem framingJson_setsText : Framing.SetsText (framingJson (φ := φ)) := by
  intro data length lastRead opcode framingData config
  unfold framingJson
  dsimp only
  split
  · simp
  · split <;> simp

/-- No framing function of the repository closes the connection. -/
theorem framings_outbound :
    Scope.outbound.Allows (framingAuto (φ := φ)) ∧ Scope.outbound.Allows (framingBinary (φ := φ)) ∧
    Scope.outbound.Allows framingSeparator.total ∧ Scope.outbound.Allows framingNewline.total ∧
    Scope.outbound.Allows framingFixedlen.total ∧ Scope.outbound.Allows framingDynamic32.total ∧
    Scope.outbound.Allows (framingJson (φ := φ)) := by
  have ht : Scope.outbound.opcode .text := by
    intro h
    cases h
  have hbinary : Framing.SetsText (framingBinary (φ := φ)) :=
    Framing.setsText_of_opcode fun _ _ _ _ _ _ => rfl
  exact ⟨framingAuto_setsText.allows ht, hbinary.allows ht, framingSeparator_setsText.allows ht,
    framingNewline_setsText.allows ht, framingFixedlen_setsText.allows ht,
    framingDynamic32_setsText.allows ht, framingJson_setsText.allows ht⟩

theorem outbound_protocol_sample :
    let c := ((coreLoop sampleEnv).exec samplePonged sampleCore).get samplePonged_runs
    (.accepted 0 4 ∈ c.world.log ∧ .wrote 4 (wsFrameHeader .pong 1) ∈ c.world.log) ∧
      OutboundProtocol sampleEnv c := by
  have hf : ∀ f, sampleEnv.Offers f → Scope.outbound.Allows f := by
    rintro f (rfl | ⟨n, path, ps, hs, h⟩)
    · exact framings_outbound.1
    · cases h
  exact ⟨by decide +kernel, outbound_protocol sampleEnv hf _ (.exec (.init sampleCore_init)
    samplePonged (by decide +kernel) (Option.some_get samplePonged_runs).symm)⟩

/-- A ping is due before the client has sent anything. -/
def sampleEarly : List Input :=
  sampleAccept ++ [.select [] 100 false, .serve none 0, .serve none 0, .serve none 0]

theorem sampleEarly_runs : ((coreLoop sampleEnv).exec sampleEarly sampleCore).isSome := by
  decide +kernel

/-- The ping is sent in the HTTP phase. -/
theorem outbound_protocol_fails :
    ¬∀ c, (coreLoop sampleEnv).Reach (fun _ _ => True) c → OutboundProtocol sampleEnv c := by
  intro h
  have hprotocol := h _ (.exec (.init sampleCore_init) sampleEarly (Machine.meets_true _ _)
    (Option.some_get sampleEarly_runs).symm)
  generalize hc : ((coreLoop sampleEnv).exec sampleEarly sampleCore).get sampleEarly_runs = c
    at hprotocol
  have hlog : c.world.log = c.world.log.take 1 ++ .accepted 0 4 :: c.world.log.drop 2 := by
    rw [← hc]
    decide +kernel
  have hsent : .sendFailed 4 ∉ c.world.log.drop 2 ∧ (written 4 (c.world.log.drop 2)).head? = some 0x89 := by
    rw [← hc]
    decide +kernel
  obtain ⟨b, hb, he | ⟨hfailed, -⟩⟩ := hprotocol _ 0 4 _ hlog
  · rw [he] at hsent
    cases hb with
    | nothing => exact absurd hsent.2 (by decide)
    | refused r hr => exact absurd hsent.2 (by simp [ascii])
    | upgraded ws hp fs hf => exact absurd hsent.2 (by simp [upgradeResponse, ascii])
  · exact hsent.1 hfailed

end Websocksy

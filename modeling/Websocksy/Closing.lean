import Websocksy.CoreRule

/-!
# `ws_close` is final

Once `ws_close` was called on a connection, no line is handed to its handlers, the
backend is not asked about it and no peer is opened for it (`CloseFinal`).  This
holds in every run in which no line follows one that ends the HTTP phase in the
same read: only the line loop of `ws_data` goes on after a close.
-/

namespace Websocksy

open Buffer CString Lines

variable {φ : Type}

/-- A line handler of the connection was called, or what it calls. -/
def Event.OfHandler (conn : Nat) : Event → Prop
  | .line c _ _ | .query c _ _ | .opened c _ => c = conn
  | _ => False

/-- After a close of a connection there is nothing of its line handlers. -/
def FinalLog (log : List Event) : Prop :=
  log.Pairwise fun e e' => ∀ conn reason, e = .wsClose conn reason → ¬e'.OfHandler conn

/-- The backend is asked only about requests whose path is known. -/
def QueriesKnown (log : List Event) : Prop :=
  ∀ conn state path, .query conn state path ∈ log → state = .wsHttp ∧ path.isSome

structure CloseFinal (c : Core φ) : Prop where
  final : FinalLog c.world.log
  queries : QueriesKnown c.world.log
  closed : ∀ ws ∈ c.sock, ∀ reason, .wsClose ws.conn reason ∈ c.world.log →
    ws.state = .wsClosed ∧ ws.NoRequest ∧ ws.peerFd = none

/-- Lines only in the HTTP phase, an upgrade only when the request line is there. -/
structure Scope.Ordered (A : Scope) : Prop where
  line : ∀ st, A.line st → st = .wsNew ∨ st = .wsHttp
  upgrade : ∀ st, A.upgrade st → st = .wsHttp

/-- The scope of runs in which no line follows one that ends the HTTP phase. -/
def Scope.inOrder : Scope :=
  { Scope.all with line := fun st => st = .wsNew ∨ st = .wsHttp, upgrade := fun st => st = .wsHttp }

theorem Scope.inOrder_ordered : Scope.inOrder.Ordered := ⟨fun _ h => h, fun _ h => h⟩

theorem Scope.inOrder_handles : Scope.inOrder.Handles := ⟨trivial, .inl rfl, .inr rfl, rfl, trivial⟩

/-! ## Logs -/

theorem FinalLog.append {log hs qs : List Event} (h : FinalLog log)
    (hh : ∀ e ∈ hs, ∀ conn reason, e ≠ .wsClose conn reason)
    (hq : ∀ e ∈ qs, ∀ conn, ¬e.OfHandler conn)
    (hold : ∀ conn reason, .wsClose conn reason ∈ log → ∀ e ∈ hs, ¬e.OfHandler conn) :
    FinalLog (log ++ (hs ++ qs)) := by
  unfold FinalLog at h ⊢
  rw [List.pairwise_append, List.pairwise_append]
  refine ⟨h, ⟨?_, ?_, ?_⟩, ?_⟩
  · refine List.pairwise_of_forall_mem_list fun a ha b hb conn reason he => ?_
    exact absurd he (hh a ha conn reason)
  · exact List.pairwise_of_forall_mem_list fun a ha b hb conn reason he => hq b hb conn
  · exact fun a ha b hb conn reason he => hq b hb conn
  · rintro a ha b hb conn reason rfl
    rcases List.mem_append.mp hb with hb | hb
    · exact hold conn reason ha b hb
    · exact hq b hb conn

/-- Nothing of a handler is added. -/
theorem FinalLog.quiet {log qs : List Event} (h : FinalLog log)
    (hq : ∀ e ∈ qs, ∀ conn, ¬e.OfHandler conn) : FinalLog (log ++ qs) := by
  have happend : FinalLog (log ++ ([] ++ qs)) := h.append (by simp) hq (by simp)
  simpa using happend

theorem QueriesKnown.append {log es : List Event} (h : QueriesKnown log) (h' : QueriesKnown es) :
    QueriesKnown (log ++ es) := by
  intro conn state path hm
  rcases List.mem_append.mp hm with hm | hm
  · exact h conn state path hm
  · exact h' conn state path hm

section

variable {env : Env φ} {A : Scope} {s t : Conn φ}

/-- Sends are nothing of a handler, and not a close. -/
theorem OnlySends.quiet {fd : Option Nat} {w w' : World} (h : OnlySends fd w w') :
    ∃ es, w'.log = w.log ++ es ∧ (∀ e ∈ es, ∀ conn, ¬e.OfHandler conn) ∧ QueriesKnown es ∧
      ∀ conn reason, .wsClose conn reason ∉ es := by
  obtain ⟨es, he, hes⟩ := h.log
  refine ⟨es, he, fun e hm conn => ?_, fun conn state path hm => ?_, fun conn reason hm => ?_⟩
  · obtain ⟨x, -, rfl | ⟨d, rfl⟩⟩ := hes e hm <;> exact id
  · obtain ⟨x, -, h | ⟨d, h⟩⟩ := hes _ hm <;> cases h
  · obtain ⟨x, -, h | ⟨d, h⟩⟩ := hes _ hm <;> cases h

/-- What `ws_close` leaves in the log is nothing of a handler. -/
theorem wsClose_quiet (env : Env φ) (code : WsCloseReason) (reason : Option Bytes) (s : Conn φ) :
    ∃ es, (wsClose env code reason s).world.log = s.world.log ++ es ∧
      (∀ e ∈ es, ∀ conn, ¬e.OfHandler conn) ∧ QueriesKnown es := by
  obtain ⟨es, he, hes⟩ := wsClose_log env code reason s
  have hall : ∀ e ∈ Event.wsClose s.ws.conn reason :: (es ++ s.closing.map .closed),
      (∀ conn, ¬e.OfHandler conn) ∧ ∀ conn state path, e ≠ .query conn state path := by
    intro e hm
    rw [List.mem_cons, List.mem_append] at hm
    rcases hm with rfl | hm | hm
    · exact ⟨fun _ h => h, fun _ _ _ h => by cases h⟩
    · obtain ⟨x, -, rfl | ⟨d, rfl⟩⟩ := hes e hm <;>
        exact ⟨fun _ h => h, fun _ _ _ h => by cases h⟩
    · obtain ⟨x, -, rfl⟩ := List.mem_map.mp hm
      exact ⟨fun _ h => h, fun _ _ _ h => by cases h⟩
  exact ⟨_, he, fun e hm => (hall e hm).1, fun conn state path hm =>
    absurd rfl ((hall _ hm).2 conn state path)⟩

/-- What an upgrade leaves in the log: its question and the socket it opened, then
nothing of a handler. -/
theorem wsUpgradeHttp_log (h : s.ws.ready = true) :
    ∃ hs qs, (wsUpgradeHttp env s).2.world.log = s.world.log ++ (hs ++ qs) ∧
      (∀ e ∈ hs, e = .query s.ws.conn s.ws.state s.ws.requestPath ∨ ∃ x, e = .opened s.ws.conn x) ∧
      (∀ e ∈ qs, ∀ conn, ¬e.OfHandler conn) ∧ QueriesKnown qs ∧
      ((wsUpgradeHttp env s).2.ws.state = .wsOpen → ∀ conn reason, .wsClose conn reason ∉ qs) := by
  have hu := wsUpgradeHttp_cases env h
  generalize (wsUpgradeHttp env s).2 = t at hu ⊢
  have hask : ∀ e ∈ [Event.query s.ws.conn s.ws.state s.ws.requestPath],
      e = .query s.ws.conn s.ws.state s.ws.requestPath ∨ ∃ x, e = .opened s.ws.conn x :=
    fun e hm => .inl (List.mem_singleton.mp hm)
  have hopen : ∀ e ∈ [Event.query s.ws.conn s.ws.state s.ws.requestPath,
      .opened s.ws.conn s.world.socks],
      e = .query s.ws.conn s.ws.state s.ws.requestPath ∨ ∃ x, e = .opened s.ws.conn x := by
    intro e hm
    rw [List.mem_cons, List.mem_singleton] at hm
    rcases hm with rfl | rfl
    · exact .inl rfl
    · exact .inr ⟨_, rfl⟩
  have hpeer : s.peerWorld.log = s.world.log ++
      [.query s.ws.conn s.ws.state s.ws.requestPath, .opened s.ws.conn s.world.socks] := by
    simp [Conn.peerWorld]
  cases hu with
  | refused p =>
      obtain ⟨es, he, hq, hk⟩ := wsClose_quiet env .http (some (ascii "500 Peer connection failed"))
        ⟨s.ws.connected p s.ws.peerFd, s.world.asked s.ws s.world.connects⟩
      exact ⟨_, es, by rw [he]; simp, hask, hq, hk, fun h => by cases h⟩
  | failed p =>
      obtain ⟨es, he, hq, hk⟩ := wsClose_quiet env .http (some (ascii "500 Peer connection failed"))
        ⟨s.ws.connected p none, s.world.asked s.ws (s.world.connects + 1)⟩
      exact ⟨_, es, by rw [he]; simp, hask, hq, hk, fun h => by cases h⟩
  | dropped p w hs =>
      have hsends := networkSendAll_onlySends env s.ws.wsFd
        (upgradeResponse env (s.ws.connected p (some (FdTable.lowest s.world.fds)))) s.peerWorld
      rw [hs] at hsends
      obtain ⟨es, he, hq, hk, -⟩ := hsends.quiet
      obtain ⟨es', he', hq', hk'⟩ := wsClose_quiet env .http none
        ⟨s.ws.connected p (some (FdTable.lowest s.world.fds)), w⟩
      refine ⟨_, es ++ es', by rw [he', he, hpeer]; simp, hopen, fun e hm => ?_, hk.append hk',
        fun h => by cases h⟩
      exact (List.mem_append.mp hm).elim (hq e) (hq' e)
  | opened p f hf ho w hs =>
      have hsends := networkSendAll_onlySends env s.ws.wsFd
        (upgradeResponse env (s.ws.connected p (some (FdTable.lowest s.world.fds)))) s.peerWorld
      rw [hs] at hsends
      obtain ⟨es, he, hq, hk, hc⟩ := hsends.quiet
      exact ⟨_, es, by rw [he, hpeer]; simp, hopen, hq, hk, fun _ => hc⟩

/-! ## Acts -/

/-- The part of `CloseFinal` that speaks of one connection, with the log. -/
structure CloseInv (s : Conn φ) : Prop where
  final : FinalLog s.world.log
  queries : QueriesKnown s.world.log
  closed : ∀ reason, .wsClose s.ws.conn reason ∈ s.world.log → s.ws.state = .wsClosed
  empty : s.ws.state = .wsClosed → s.ws.NoRequest

/-- Where the state is not closed, what a handler adds is not behind a close. -/
theorem CloseInv.fresh (hi : CloseInv s) (hs : s.ws.state ≠ .wsClosed) {hs' : List Event}
    (hw : ∀ e ∈ hs', ∀ conn, e.OfHandler conn → conn = s.ws.conn) :
    ∀ conn reason, .wsClose conn reason ∈ s.world.log → ∀ e ∈ hs', ¬e.OfHandler conn := by
  intro conn reason hm e he ho
  rw [hw e he conn ho] at hm
  exact hs (hi.closed reason hm)

/-- Something that is nothing of a handler and no close is added to the log. -/
theorem CloseInv.quiet (hi : CloseInv s) {w : World} {es : List Event}
    (he : w.log = s.world.log ++ es) (hq : ∀ e ∈ es, ∀ conn, ¬e.OfHandler conn)
    (hk : QueriesKnown es) (hc : ∀ conn reason, .wsClose conn reason ∉ es) : CloseInv ⟨s.ws, w⟩ := by
  refine ⟨?_, ?_, fun reason hm => ?_, hi.empty⟩
  · dsimp only
    rw [he]
    exact hi.final.quiet hq
  · dsimp only
    rw [he]
    exact hi.queries.append hk
  · dsimp only at hm
    rw [he] at hm
    exact hi.closed reason ((List.mem_append.mp hm).resolve_right (hc _ _))

theorem CloseInv.sends (hi : CloseInv s) {fd : Option Nat} {w : World}
    (h : OnlySends fd s.world w) : CloseInv ⟨s.ws, w⟩ := by
  obtain ⟨es, he, hq, hk, hc⟩ := h.quiet
  exact hi.quiet he hq hk hc

theorem Act.closeInv (hA : A.Ordered) (h : Act env A s t) (hst : StateInv env s.ws)
    (hi : CloseInv s) : CloseInv t := by
  cases h with
  | bare ws h hr =>
      obtain ⟨rb, ro, le, rfl⟩ := bare_eq h.symm
      refine ⟨hi.final, hi.queries, hi.closed, fun hs => ?_⟩
      obtain ⟨h1, h2, h3, h4, h5, h6⟩ := hi.empty hs
      exact ⟨h1, h2, h3, h4, h5, h6⟩
  | peerBuffer b k fd h =>
      refine ⟨hi.final, hi.queries, hi.closed, fun hs => ?_⟩
      obtain ⟨h1, h2, h3, h4, h5, h6⟩ := hi.empty hs
      exact ⟨h1, h2, h3, h4, h5, h6⟩
  | note e h =>
      refine hi.quiet (World.record_log _ e) ?_ ?_ ?_
      · intro e' hm conn
        rw [List.mem_singleton.mp hm]
        cases e <;> first | exact id | cases h
      · intro conn state path hm
        rw [← List.mem_singleton.mp hm] at h
        cases h
      · intro conn reason hm
        rw [← List.mem_singleton.mp hm] at h
        cases h
  | line data h =>
      have hopen : s.ws.state ≠ .wsClosed := by rcases hA.line _ h with e | e <;> rw [e] <;> simp
      refine ⟨?_, hi.queries.append fun conn state path hm => ?_, fun reason hm => ?_, hi.empty⟩
      · have happend : FinalLog (s.world.log ++ ([.line s.ws.conn s.ws.state data] ++ [])) :=
          hi.final.append (by simp) (by simp) (hi.fresh hopen (by simp [Event.OfHandler, eq_comm]))
        simpa using happend
      · simp at hm
      · simp only [World.record_log, List.mem_append, List.mem_singleton, reduceCtorEq, or_false] at hm
        exact hi.closed reason hm
  | path p h =>
      refine ⟨hi.final, hi.queries, fun reason hm => ?_, fun hs => by cases hs⟩
      have := hi.closed reason hm
      rw [h] at this
      cases this
  | header tag value h hn =>
      have hopen : s.ws.state ≠ .wsClosed := by rcases hA.line _ h with e | e <;> rw [e] <;> simp
      obtain ⟨hs, ver, key, up, ps, he⟩ := wsHeader_eq tag value s.ws
      rw [he]
      exact ⟨hi.final, hi.queries, hi.closed, fun h => absurd h hopen⟩
  | upgrade h hn hr =>
      have hhttp := hA.upgrade _ h
      have hopen : s.ws.state ≠ .wsClosed := by rw [hhttp]; simp
      have hconn : (wsUpgradeHttp env s).2.ws.conn = s.ws.conn := (wsUpgradeHttp_local hr).conn
      obtain ⟨hs, qs, he, hh, hq, hk, hc⟩ : ∃ hs qs, (wsUpgradeHttp env s).2.world.log = _ ∧ _ :=
        wsUpgradeHttp_log hr
      refine ⟨?_, ?_, fun reason hm => ?_, fun hclosed => ?_⟩
      · rw [he]
        refine hi.final.append (fun e hm conn reason he => ?_) hq (hi.fresh hopen fun e hm conn ho => ?_)
        · rcases hh e hm with h | ⟨x, h⟩ <;> rw [h] at he <;> cases he
        · rcases hh e hm with h | ⟨x, h⟩ <;> rw [h] at ho <;> exact ho.symm
      · rw [he]
        refine hi.queries.append (QueriesKnown.append (fun conn state path hm => ?_) hk)
        rcases hh _ hm with h | ⟨x, h⟩
        · cases h
          exact ⟨hhttp, hst.path hhttp⟩
        · cases h
      · rcases (wsUpgradeHttp_buffer env hr).2 with ⟨h, -⟩ | ⟨h, -⟩
        · exact h
        · rw [he, hconn, List.mem_append, List.mem_append] at hm
          rcases hm with hm | hm | hm
          · exact absurd (hi.closed reason hm) hopen
          · rcases hh _ hm with h | ⟨x, h⟩ <;> cases h
          · exact absurd hm (hc h _ _)
      · have hu := wsUpgradeHttp_cases env hr
        generalize (wsUpgradeHttp env s).2 = t at hu hclosed ⊢
        cases hu with
        | opened p f hf ho w hs => cases hclosed
        | _ => exact (wsClose_cleared env _ _ _).toNoRequest
  | close code reason h =>
      obtain ⟨es, he, hq, hk⟩ := wsClose_quiet env code reason s
      refine ⟨?_, ?_, fun _ _ => rfl, fun _ => (wsClose_cleared env _ _ _).toNoRequest⟩
      · rw [he]
        exact hi.final.quiet hq
      · rw [he]
        exact hi.queries.append hk
  | forward data h => exact hi.sends (networkSend_onlySends env _ _ _)
  | frame op data h ho => exact hi.sends (wsSendFrame_onlySends env _ _ _ _)

theorem Acts.closeInv (hA : A.Ordered) (h : Acts env A s t) (hst : StateInv env s.ws)
    (hi : CloseInv s) : CloseInv t :=
  (h.invariant (P := fun s => StateInv env s.ws ∧ CloseInv s)
    (fun _ _ ha hs => ⟨ha.stateInv hs.1, ha.closeInv hA hs.1 hs.2⟩) ⟨hst, hi⟩).2

/-! ## Runs -/

/-- The invariant of a run: it also says that no connection is in the log that is not
yet accepted. -/
structure ClosingInv (sock : List (Websocket φ)) (w : World) : Prop where
  conns : ∀ ws ∈ sock, CloseInv ⟨ws, w⟩
  final : FinalLog w.log
  queries : QueriesKnown w.log
  later : ∀ conn reason, .wsClose conn reason ∈ w.log → conn < w.conns

/-- A handler leaves in the log no close of another connection. -/
theorem Local.wsClose_mem (h : Local s t) {conn : Nat} {reason : Option Bytes}
    (hm : .wsClose conn reason ∈ t.world.log) :
    .wsClose conn reason ∈ s.world.log ∨ conn = s.ws.conn := by
  obtain ⟨es, he, hes⟩ := h.log
  rw [he] at hm
  rcases List.mem_append.mp hm with hm | hm
  · exact .inl hm
  · exact .inr (hes _ hm)

theorem closingRule (env : Env φ) (hA : A.Ordered) : CoreRule env A (ClosingInv (φ := φ)) where
  init c hc := by
    obtain ⟨-, -, hlog, -⟩ := hc
    refine ⟨by simp, ?_, ?_, ?_⟩
    · rw [hlog]
      exact List.Pairwise.nil
    · rw [hlog]
      exact fun _ _ _ hm => by cases hm
    · rw [hlog]
      exact fun _ _ hm => by cases hm
  selected sock w xs hi := by
    have hquiet : ∀ e ∈ [Event.selected xs], ∀ conn, ¬e.OfHandler conn := by
      intro e hm conn
      rw [List.mem_singleton.mp hm]
      exact id
    have hk : QueriesKnown [Event.selected xs] := fun _ _ _ hm => by simp at hm
    exact ⟨fun ws hm => (hi.conns ws hm).quiet rfl hquiet hk (by simp), hi.final.quiet hquiet,
      hi.queries.append hk, fun conn reason hm => hi.later conn reason (by simpa using hm)⟩
  accept l₁ old l₂ w now accepts hold hreg hi := by
    obtain ⟨es, he, hes⟩ : ∃ es, (w.accept accepts).log = w.log ++ es ∧
        ∀ e ∈ es, e = .accepted w.conns w.socks := by
      cases accepts with
      | true => exact ⟨[.accepted w.conns w.socks], rfl, by simp⟩
      | false => exact ⟨[], by simp [World.accept], by simp⟩
    have hconns : (w.accept accepts).conns = w.conns + 1 := by cases accepts <;> rfl
    have hquiet : ∀ e ∈ es, ∀ conn, ¬e.OfHandler conn := by
      intro e hm conn
      rw [hes e hm]
      exact id
    have hk : QueriesKnown es := fun _ _ _ hm => by cases hes _ hm
    have hc : ∀ conn reason, .wsClose conn reason ∉ es := fun _ _ hm => by cases hes _ hm
    have hmem : ∀ conn reason, .wsClose conn reason ∈ (w.accept accepts).log →
        .wsClose conn reason ∈ w.log := by
      intro conn reason hm
      rw [he] at hm
      exact (List.mem_append.mp hm).resolve_right (hc conn reason)
    have hfinal : FinalLog (w.accept accepts).log := by
      rw [he]
      exact hi.final.quiet hquiet
    have hqueries : QueriesKnown (w.accept accepts).log := by
      rw [he]
      exact hi.queries.append hk
    refine ⟨fun ws hm => ?_, hfinal, hqueries, fun conn reason hm => ?_⟩
    · rcases mem_accepted old hm with rfl | hm
      · refine ⟨hfinal, hqueries, fun reason hm => ?_, fun h => by cases h⟩
        exact absurd (hi.later _ reason (hmem _ _ hm)) (Nat.lt_irrefl _)
      · exact (hi.conns ws hm).quiet he hquiet hk hc
    · rw [hconns]
      exact Nat.lt_succ_of_lt (hi.later conn reason (hmem conn reason hm))
  serve l₁ l₂ ws w ready w' t hreg hi hw ht := by
    have hself : ws ∈ l₁ ++ ws :: l₂ := by simp
    have hrecv : CloseInv ⟨ws, w'⟩ := by
      cases hw with
      | quiet => exact hi.conns ws hself
      | event fd x e hfd hr hx he =>
          refine (hi.conns ws hself).quiet (World.record_log _ e) ?_ ?_ ?_
          · intro e' hm conn
            rw [List.mem_singleton.mp hm]
            rcases he with rfl | ⟨d, rfl⟩ <;> exact id
          · intro conn state path hm
            rw [← List.mem_singleton.mp hm] at he
            rcases he with he | ⟨d, he⟩ <;> cases he
          · intro conn reason hm
            rw [← List.mem_singleton.mp hm] at he
            rcases he with he | ⟨d, he⟩ <;> cases he
    have hinv := ht.closeInv hA (hreg.slots ws hself).toStateInv hrecv
    have hlocal : Local ⟨ws, w⟩ t := hw.isLocal.trans ht.isLocal
    have hdistinct := hreg.distinct
    rw [List.map_append, List.map_cons, List.nodup_middle, List.nodup_cons] at hdistinct
    have hother : ∀ v ∈ l₁ ++ l₂, CloseInv ⟨v, t.world⟩ := by
      intro v hv
      have hne : v.conn ≠ ws.conn := by
        intro e
        refine hdistinct.1 (e ▸ ?_)
        rw [← List.map_append]
        exact List.mem_map_of_mem hv
      have hold := hi.conns v (mem_slots_of hv)
      refine ⟨hinv.final, hinv.queries, fun reason hm => ?_, hold.empty⟩
      exact hold.closed reason ((hlocal.wsClose_mem hm).resolve_right hne)
    refine ⟨fun v hm => ?_, hinv.final, hinv.queries, fun conn reason hm => ?_⟩
    · rcases mem_slots hm with rfl | hm
      · exact hinv
      · exact hother v hm
    · rw [hlocal.conns]
      rcases hlocal.wsClose_mem hm with hm | rfl
      · exact hi.later conn reason hm
      · exact hreg.numbers ws hself
  quit sock w fd hc hi := by
    have hlog := closeFd_log w fd
    have hquiet : ∀ e ∈ (w.sockAt fd).toList.map Event.closed, ∀ conn, ¬e.OfHandler conn := by
      intro e hm conn
      obtain ⟨x, -, rfl⟩ := List.mem_map.mp hm
      exact id
    have hk : QueriesKnown ((w.sockAt fd).toList.map .closed) := fun _ _ _ hm => by simp at hm
    have hconns : (w.closeFd fd).conns = w.conns := by
      unfold World.closeFd
      split <;> rfl
    refine ⟨by simp, ?_, ?_, fun conn reason hm => ?_⟩
    · rw [hlog]
      exact hi.final.quiet hquiet
    · rw [hlog]
      exact hi.queries.append hk
    · rw [hlog] at hm
      rw [hconns]
      exact hi.later conn reason ((List.mem_append.mp hm).resolve_right (by simp))

/-- **`ws_close` is final** in every run in which no line follows one that ends the HTTP
phase in the same read. -/
theorem close_final (env : Env φ) (c : Core φ) (h : (coreLoop env).Reach LinesInOrder c) :
    CloseFinal c := by
  have hi : ClosingInv c.sock c.world := (closingRule env Scope.inOrder_ordered).reach
    Scope.inOrder_handles (fun _ _ _ _ _ _ _ _ _ _ _ => trivial) (fun _ _ ho => ho)
    (fun _ _ _ _ _ => trivial) h
  refine ⟨hi.final, hi.queries, fun ws hm reason hr => ?_⟩
  have hclosed := (hi.conns ws hm).closed reason hr
  exact ⟨hclosed, (hi.conns ws hm).empty hclosed,
    (((coreLoop_registryInv h).slots ws hm).closed hclosed).2⟩

end

/-- The inputs of two rounds: a client connects, and the bytes `b` arrive. -/
def sampleBytes (b : Bytes) : List Input :=
  sampleAccept ++ [.select [4] 1 false, .serve (some b) 0]

/-- A request line and a folded header. -/
def sampleFolded : List Input := sampleBytes (ascii "GET / HTTP/1.1\r\n x\r\n")

theorem sampleFolded_runs : ((coreLoop sampleEnv).exec sampleFolded sampleCore).isSome := by decide

theorem close_final_sample :
    let c := ((coreLoop sampleEnv).exec sampleFolded sampleCore).get sampleFolded_runs
    c.sock.map (·.state) = [.wsClosed] ∧ CloseFinal c :=
  ⟨by decide, close_final sampleEnv _ (.exec (.init sampleCore_init) sampleFolded
    (by decide +kernel) (Option.some_get sampleFolded_runs).symm)⟩

/-- The same with a header line in the same read, which a closed connection stores. -/
def sampleStored : List Input := sampleBytes (ascii "GET / HTTP/1.1\r\n x\r\nA: b\r\n")

theorem sampleStored_runs : ((coreLoop sampleEnv).exec sampleStored sampleCore).isSome := by decide

theorem close_final_fails :
    ¬∀ c, (coreLoop sampleEnv).Reach (fun _ _ => True) c → CloseFinal c := by
  intro h
  have hc := h _ (.exec (.init sampleCore_init) sampleStored (Machine.meets_true _ _)
    (Option.some_get sampleStored_runs).symm)
  have hslot := List.getElem_mem (l := (((coreLoop sampleEnv).exec sampleStored sampleCore).get
    sampleStored_runs).sock) (n := 0) (by decide)
  have hempty := (hc.closed _ hslot (some (ascii "500 Header folding")) (by decide)).2.1.header
  revert hempty
  decide

end Websocksy

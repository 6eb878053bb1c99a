import TinyMuduo.Http.ClosingAnswer

/-!
# The answers on the wire

What the kernel has taken and what is still buffered, over a whole run of a
connection on which only `MessageCallback` sends. Up to `HandleClose` or
`ConnectionDestructor` the output buffer and `EPOLLOUT` go together; behind them
the channel does not write any more.
-/

namespace TinyMuduo

open Transition

/-! ## The answer of a callback -/

/-- Someone outside of `MessageCallback` sends. -/
def ConnectionLabel.sends : ConnectionLabel → Bool
  | .sendString _ | .sendBuffer _ => true
  | _ => false

namespace HttpServer

variable (srv : HttpServer)

/-- What the callback of a move hands to `Send`. -/
def answer (m : Move ServedConnection ConnectionLabel) : Bytes :=
  (srv.seen m).calls.flatMap Operation.message

/-- The answer, unless the kernel refused it on the direct path. -/
def keptAnswer (m : Move ServedConnection ConnectionLabel) : Bytes :=
  if m.pre.session.Drops then [] else srv.answer m

end HttpServer

/-- At most the first call has a message. -/
def OneMessage : List Operation → Prop
  | [] => True
  | _ :: calls => ∀ op ∈ calls, op.message = []

theorem CallbackCase.oneMessage {srv : HttpServer} {now : Timestamp} {s t : Session}
    {report : Report} (h : CallbackCase srv now s report t) : OneMessage report.calls := by
  cases h with
  | shut _ => trivial
  | waits _ _ _ => trivial
  | rejected _ _ =>
      intro op hop
      obtain rfl := List.mem_singleton.mp hop
      rfl
  | dispatched _ _ _ =>
      intro op hop
      split at hop
      · obtain rfl := List.mem_singleton.mp hop
        rfl
      · cases hop

/-! ## The write side of a session -/

namespace Session

theorem foldl_silent : ∀ (calls : List Operation) {s : Session}, s.Live →
    (∀ op ∈ calls, op.message = []) →
    (calls.foldl perform s).Live ∧
      (calls.foldl perform s).socket.accepted ++ (calls.foldl perform s).output =
        s.socket.accepted ++ s.output := by
  intro calls
  induction calls with
  | nil =>
      intro s hs _
      exact ⟨hs, rfl⟩
  | cons op calls ih =>
      intro s hs hsilent
      obtain ⟨hlive, hstream⟩ := perform_stream hs op
      rw [hsilent op List.mem_cons_self, ite_self, List.append_nil] at hstream
      obtain ⟨hlive', hstream'⟩ := ih hlive fun op' hop' => hsilent op' (List.mem_cons_of_mem _ hop')
      exact ⟨hlive', hstream'.trans hstream⟩

/-- **The calls of a callback** add their message to the stream, or drop it. -/
theorem foldl_stream {s : Session} (hs : s.Live) {calls : List Operation}
    (hone : OneMessage calls) :
    (calls.foldl perform s).Live ∧
      (calls.foldl perform s).socket.accepted ++ (calls.foldl perform s).output =
        s.socket.accepted ++ s.output ++
          if s.Drops then [] else calls.flatMap Operation.message := by
  cases calls with
  | nil =>
      refine ⟨hs, ?_⟩
      rw [List.flatMap_nil, ite_self, List.append_nil]
      rfl
  | cons op calls =>
      obtain ⟨hlive, hstream⟩ := perform_stream hs op
      obtain ⟨hlive', hstream'⟩ := foldl_silent calls hlive hone
      refine ⟨hlive', ?_⟩
      have htail : calls.flatMap Operation.message = [] := List.flatMap_eq_nil_iff.mpr hone
      rw [List.flatMap_cons, htail, List.append_nil]
      exact hstream'.trans hstream

theorem handleWrite_quiet {s : Session} (h : s.isWriting = false) : s.handleWrite = s := by
  unfold handleWrite
  rw [if_neg (by rw [h]; decide)]

theorem shutdown_quiet {s : Session} (h : s.isWriting = false) :
    s.shutdown.isWriting = false ∧ s.shutdown.output = s.output ∧
      s.shutdown.socket.accepted = s.socket.accepted := by
  have hshut : s.shutdown = { s with
      conn := { s.conn with state := .kDisconnecting }
      socket := s.socket.shutdown s.output } := by
    unfold shutdown
    exact if_neg (by rw [show Session.isWriting _ = s.isWriting from rfl, h]; decide)
  rw [hshut]
  refine ⟨h, rfl, ?_⟩
  simp [Socket.accepted, Socket.shutdown, SysCall.accepted]

theorem SameWrite.stream {s t : Session} (h : s.SameWrite t) :
    t.socket = s.socket ∧ t.output = s.output ∧ t.isWriting = s.isWriting ∧
      t.conn.outputBuffer = s.conn.outputBuffer := by
  obtain ⟨c, b, time, rfl⟩ := h
  exact ⟨rfl, rfl, rfl, rfl⟩

end Session

theorem Channel.isWriting_enableReading {ι : Type} [DecidableEq ι] (p : ι) (c : Channel)
    (e : Epoller ι) : (c.enableReading p e).1.isWriting = c.isWriting := by
  have hbits : (EPOLLIN ||| EPOLLPRI) &&& EPOLLOUT = 0#32 := by decide
  simp only [enableReading, isWriting, Epoller.update_events]
  rw [BitVec.and_or_distrib_right, hbits, BitVec.or_zero]

/-! ## One step -/

namespace ServedConnection

/-- Before the connection is closed its write side is coupled, and behind it does
not write. -/
structure WriteSide (s : ServedConnection) : Prop where
  coupled : s.stage = .made ∨ s.stage = .established → s.session.Coupled
  quiet : s.stage = .closed ∨ s.stage = .removed → s.session.isWriting = false

/-- The bytes that have been sent or wait in the output buffer. -/
def stream (s : ServedConnection) : Bytes := s.session.socket.accepted ++ s.session.output

theorem new_writeSide (fd : ℕ) (answers : ℕ → WriteAnswer) :
    (new fd answers).WriteSide ∧ (new fd answers).stream = [] := by
  refine ⟨⟨fun _ => ⟨Buffer.new_inv, ?_⟩, ?_⟩, ?_⟩
  · have hquiet : (new fd answers).session.isWriting = false :=
      show decide ((0 : Events) &&& EPOLLOUT ≠ 0) = false by decide
    have hout : (new fd answers).session.output = [] := Buffer.readable_new
    rw [hquiet, hout]
    simp
  · rintro (⟨⟨⟩⟩ | ⟨⟨⟩⟩)
  · show [] ++ Buffer.new.readable = []
    rw [Buffer.readable_new, List.append_nil]

variable {srv : HttpServer} {s t : ServedConnection} {l : ConnectionLabel}

theorem answer_of_quiet (h : l.arriving = []) : srv.answer ⟨s, l, t⟩ = [] := by
  rw [HttpServer.answer, show srv.seen ⟨s, l, t⟩ = .nothing from if_pos h]
  rfl

theorem keptAnswer_of_quiet (h : l.arriving = []) : srv.keptAnswer ⟨s, l, t⟩ = [] := by
  rw [HttpServer.keptAnswer, answer_of_quiet h, ite_self]

/-- **A callback adds its answer to the stream.** -/
theorem Callback.stream {now : Timestamp} (h : Callback srv s l t now) (hs : s.Sound)
    (hw : s.WriteSide) : t.WriteSide ∧ t.stream = s.stream ++ srv.keptAnswer ⟨s, l, t⟩ := by
  have hlive : s.session.Live := by
    refine ⟨hw.coupled (Or.inr h.pre), ?_⟩
    rcases hs.up h.pre with hup | hup <;> rw [show s.session.conn.state = _ from hup] <;> decide
  obtain ⟨hlive', hstream⟩ := Session.foldl_stream hlive h.effect.oneMessage
  obtain ⟨hsocket, hout, hwriting, hbuffer⟩ := h.effect.sameWrite.afterRead.stream
  constructor
  · refine ⟨fun _ => ⟨hbuffer ▸ hlive'.buffer, ?_⟩, ?_⟩
    · rw [hwriting, hout]
      exact hlive'.writing
    · rw [h.post]
      rintro (⟨⟨⟩⟩ | ⟨⟨⟩⟩)
  · rw [ServedConnection.stream, hsocket, hout]
    exact hstream

theorem WriteSide.shutdown (hw : s.WriteSide) :
    WriteSide { s with session := s.session.shutdown } ∧
      stream { s with session := s.session.shutdown } = s.stream := by
  by_cases hup : s.stage = .made ∨ s.stage = .established
  · obtain ⟨hc, -, hout, hacc, -⟩ := Session.shutdown_spec (hw.coupled hup)
    refine ⟨⟨fun _ => hc, ?_⟩, ?_⟩
    · intro hdown
      rcases hup with hup | hup <;> rcases hdown with hdown | hdown <;>
      · rw [hup] at hdown
        cases hdown
    · rw [stream, hout, hacc]
      rfl
  · have hdown : s.stage = .closed ∨ s.stage = .removed := by
      cases hstage : s.stage with
      | made => exact absurd (Or.inl hstage) hup
      | established => exact absurd (Or.inr hstage) hup
      | closed => exact Or.inl rfl
      | removed => exact Or.inr rfl
    obtain ⟨hquiet, hout, hacc⟩ := Session.shutdown_quiet (hw.quiet hdown)
    refine ⟨⟨fun h => absurd h hup, fun _ => hquiet⟩, ?_⟩
    rw [stream, hout, hacc]
    rfl

theorem Steps.quiet_stream (h : Steps srv s l t) (hs : s.Sound) (hw : s.WriteSide)
    (hl : l.sends = false) (hquiet : l.arriving = []) : t.WriteSide ∧ t.stream = s.stream := by
  cases h with
  | connectionEstablished hstage =>
      have hc := hw.coupled (Or.inl hstage)
      refine ⟨⟨fun _ => ⟨hc.buffer, ?_⟩, by rintro (⟨⟨⟩⟩ | ⟨⟨⟩⟩)⟩, rfl⟩
      have hwriting : (establish s.session).isWriting = s.session.isWriting :=
        Channel.isWriting_enableReading () s.session.conn.channel s.session.poller
      rw [hwriting]
      exact hc.writing
  | @handleMessage _ result _ _ hstage hcall =>
      cases HttpServer.handleMessage_cases hcall with
      | callback hne _ => exact absurd hquiet hne
      | endOfFile =>
          rw [s.stageAfter_endOfFile]
          refine ⟨⟨by rintro (⟨⟨⟩⟩ | ⟨⟨⟩⟩), fun _ => ?_⟩, rfl⟩
          exact Channel.isWriting_disableAll () s.session.conn.channel s.session.poller
      | error =>
          rw [s.stageAfter_error]
          exact ⟨⟨fun _ => hw.coupled (Or.inr hstage), by rintro (⟨⟨⟩⟩ | ⟨⟨⟩⟩)⟩, rfl⟩
  | handleWrite hstage =>
      rcases hstage with hup | hdown
      · obtain ⟨hc, -, hstream, -⟩ := Session.handleWrite_spec (hw.coupled (Or.inr hup))
        refine ⟨⟨fun _ => hc, ?_⟩, hstream⟩
        intro hdown
        rcases hdown with hdown | hdown <;>
        · rw [hup] at hdown
          cases hdown
      · rw [Session.handleWrite_quiet (hw.quiet (Or.inl hdown))]
        exact ⟨hw, rfl⟩
  | sendString _ => cases hl
  | sendBuffer _ => cases hl
  | shutdown _ => exact hw.shutdown
  | handleIdleConnection _ _ =>
      unfold HttpServer.handleIdleConnection
      split
      · exact hw.shutdown
      · exact ⟨hw, rfl⟩
  | connectionDestructor hstage =>
      obtain ⟨hsocket, -, -, hend⟩ := destroy_spec s.session
      have hout : (destroy s.session).output = s.session.output := by
        unfold destroy TcpConnection.connectionDestructor
        by_cases hup : s.session.conn.state = .kDisconnecting ∨ s.session.conn.state = .kConnected
        · simp only [if_pos hup]
        · simp only [if_neg hup]
      refine ⟨⟨by rintro (⟨⟨⟩⟩ | ⟨⟨⟩⟩), fun _ => ?_⟩, ?_⟩
      · split at hend
        · exact hend.quiet
        · next hdown =>
            rcases hstage with hup | hclosed
            · exact absurd (hs.up hup).symm hdown
            · exact hend.2.trans (hw.quiet (Or.inl hclosed))
      · rw [stream, hsocket, hout]
        rfl

/-- **One step** on which nobody else sends. -/
theorem Steps.stream (h : Steps srv s l t) (hs : s.Sound) (hw : s.WriteSide)
    (hl : l.sends = false) :
    t.WriteSide ∧ t.stream = s.stream ++ srv.keptAnswer ⟨s, l, t⟩ := by
  rcases h.observed hs with hquiet | ⟨now, hcallback⟩
  · rw [keptAnswer_of_quiet hquiet.arriving, List.append_nil]
    exact h.quiet_stream hs hw hl hquiet.arriving
  · exact hcallback.stream hs hw

end ServedConnection

/-- **Every answer is in the stream whole or not at all, in order.** What the kernel
has taken and what is buffered are the answers of the callbacks, but for those the
kernel refused on the direct path. -/
theorem run_answers {srv : HttpServer} {fd : ℕ} {answers : ℕ → WriteAnswer}
    {ms : List (Move ServedConnection ConnectionLabel)} {s : ServedConnection}
    (h : Run (servedConnection srv fd answers) ms s) (hl : ∀ m ∈ ms, m.label.sends = false) :
    s.WriteSide ∧ s.stream = ms.flatMap srv.keptAnswer := by
  refine Run.history (I := fun ms s => (∀ m ∈ ms, m.label.sends = false) →
    s.WriteSide ∧ s.stream = ms.flatMap srv.keptAnswer) ?_ ?_ h hl
  · rintro s rfl -
    exact ServedConnection.new_writeSide fd answers
  · intro ms s l t hr ih hstep hl
    have hall := List.forall_mem_append.mp hl
    obtain ⟨hw, hstream⟩ := ih hall.1
    obtain ⟨hw', hstream'⟩ := (ServedConnection.step_cases hstep).stream (run_sound hr) hw
      (hall.2 _ (List.mem_singleton_self _))
    refine ⟨hw', ?_⟩
    rw [hstream', hstream, List.flatMap_append, List.flatMap_singleton]

/-! ## Which answers these are -/

/-- The answer of a callback: the response to what it dispatched, or the 400. -/
theorem CallbackCase.answer {srv : HttpServer} {now : Timestamp} {s t : Session}
    {report : Report} (h : CallbackCase srv now s report t) :
    report.calls.flatMap Operation.message =
      report.dispatched.toList.flatMap srv.responseBytes ++
        if report.parsed = some false then badRequest else [] := by
  cases h with
  | shut _ => rfl
  | waits _ _ _ => rfl
  | rejected _ _ =>
      have hbad : cString badRequest = badRequest := by decide
      simp [Operation.message, hbad]
  | dispatched _ _ _ =>
      unfold HttpServer.dealCalls
      split <;> simp [Operation.message, HttpServer.responseBytes]

section

variable {srv : HttpServer} {fd : ℕ} {answers : ℕ → WriteAnswer}
  {ms : List (Move ServedConnection ConnectionLabel)} {s : ServedConnection}

/-- **The answers are the responses, and at the end a 400** if there was a parse
error. -/
theorem flatMap_answer (h : Run (servedConnection srv fd answers) ms s) :
    ms.flatMap srv.answer = (srv.dispatches ms).flatMap srv.responseBytes ++
      if ∃ m ∈ ms, srv.ParseError m then badRequest else [] := by
  refine Run.history (I := fun ms _ => ms.flatMap srv.answer =
    (srv.dispatches ms).flatMap srv.responseBytes ++
      if ∃ m ∈ ms, srv.ParseError m then badRequest else []) ?_ ?_ h
  · rintro s rfl
    rw [if_neg]
    · rfl
    · rintro ⟨m, hm, -⟩
      cases hm
  · intro ms s l t hr ih hstep
    have hs := run_sound hr
    have hstep := ServedConnection.step_cases hstep
    have herrors : (∃ m ∈ ms ++ [⟨s, l, t⟩], srv.ParseError m) ↔
        (∃ m ∈ ms, srv.ParseError m) ∨ (srv.observe s l).parsed = some false := by
      simp [HttpServer.ParseError]
    rw [dispatches_snoc, List.flatMap_append, List.flatMap_append, List.flatMap_singleton, ih]
    simp only [herrors]
    by_cases herror : ∃ m ∈ ms, srv.ParseError m
    · -- behind the error nothing is answered
      obtain ⟨-, hnothing⟩ := hstep.shut hs ((run_balance hr).2 herror)
      have hseen : srv.seen ⟨s, l, t⟩ = .nothing := hnothing
      rw [if_pos herror, if_pos (Or.inl herror), HttpServer.answer, hseen]
      simp [Report.nothing]
    · rw [if_neg herror, List.append_nil, List.append_assoc]
      congr 1
      simp only [herror, false_or]
      rcases hstep.observed hs with hquiet | ⟨now, hcallback⟩
      · have hseen : srv.seen ⟨s, l, t⟩ = .nothing := hquiet.observe
        rw [HttpServer.answer, hseen, hquiet.observe]
        rfl
      · exact hcallback.effect.answer

theorem flatMap_keptAnswer (hwrites : ∀ m ∈ ms, srv.answer m ≠ [] → ¬ m.pre.session.Drops) :
    ms.flatMap srv.keptAnswer = ms.flatMap srv.answer := by
  apply List.flatMap_congr
  intro m hm
  by_cases hnil : srv.answer m = []
  · rw [HttpServer.keptAnswer, hnil, ite_self]
  · rw [HttpServer.keptAnswer, if_neg (hwrites m hm hnil)]

/-- **The answers are on the wire**: one response for each request, in order, and at
the end a 400 if there was a parse error. The kernel has the beginning of this
stream, and the output buffer the rest. -/
theorem answers_on_wire (h : Run (servedConnection srv fd answers) ms s)
    (hsends : ∀ m ∈ ms, m.label.sends = false)
    (hwrites : ∀ m ∈ ms, srv.answer m ≠ [] → ¬ m.pre.session.Drops) :
    s.session.socket.accepted ++ s.session.output =
        (srv.dispatches ms).flatMap srv.responseBytes ++
          (if ∃ m ∈ ms, srv.ParseError m then badRequest else []) ∧
      ((s.stage = .made ∨ s.stage = .established) →
        (s.session.isWriting = true ↔ s.session.output ≠ [])) := by
  obtain ⟨hw, hstream⟩ := run_answers h hsends
  constructor
  · rw [← flatMap_answer h, ← flatMap_keptAnswer hwrites]
    exact hstream
  · intro hup
    exact (hw.coupled hup).writing

end

/-- A request, a bad request line and another request, while the kernel takes ten
bytes at a time. -/
theorem answers_on_wire_rejected :
    let srv : HttpServer := ⟨false, fun _ response => { response with statusCode := 200 }, 0⟩
    ∃ ms s, Run (servedConnection srv 5 fun _ => .atMost 10) ms s ∧
      (srv.dispatches ms).length = 1 ∧ s.session.socket.accepted.length = 20 ∧
      s.session.socket.accepted ++ s.session.output =
        (srv.dispatches ms).flatMap srv.responseBytes ++ badRequest := by
  intro srv
  have hrun : ((moves (ServedConnection.step srv) (.new 5 fun _ => .atMost 10)
      [.connectionEstablished, .handleMessage ⟨1⟩ (.data (ascii "GET / HTTP/1.1\r\n\r\n")),
        .handleMessage ⟨2⟩ (.data (ascii "x\r\n")), .handleWrite,
        .handleMessage ⟨3⟩ (.data (ascii "GET / HTTP/1.1\r\n\r\n"))]).any fun p =>
      (srv.dispatches p.1).length = 1 ∧ p.2.session.socket.accepted.length = 20 ∧
        (p.1.all fun m => !m.label.sends) = true ∧
        (p.1.all fun m => srv.answer m = [] ∨ ¬ m.pre.session.Drops) = true ∧
        (p.1.any fun m => srv.ParseError m) = true) = true := by
    decide +kernel
  obtain ⟨p, hp, hseen⟩ := (Option.any_eq_true _ _).mp hrun
  obtain ⟨hdispatches, haccepted, hsends, hwrites, herror⟩ := of_decide_eq_true hseen
  have h := (Run.start (T := servedConnection srv 5 fun _ => .atMost 10) rfl).moves _ hp
  rw [List.nil_append] at h
  have hkept : ∀ m ∈ p.1, srv.answer m ≠ [] → ¬ m.pre.session.Drops := by
    intro m hm hne
    exact (of_decide_eq_true (List.all_eq_true.mp hwrites m hm)).resolve_left hne
  have herror' : ∃ m ∈ p.1, srv.ParseError m := by simpa using herror
  have hwire := (answers_on_wire h (by simpa using hsends) hkept).1
  rw [if_pos herror'] at hwire
  exact ⟨p.1, p.2, h, hdispatches, haccepted, hwire⟩

end TinyMuduo

import TinyMuduo.Http.AnswerStream
import TinyMuduo.Http.Framing
import TinyMuduo.Http.RoundTrip
import TinyMuduo.Http.Segmentation

/-!
# What a client makes of its connection

A client sends well-formed requests, pipelined or not, and reads responses off
the stream that comes back. Whatever the cuts, the partial writes and the timers,
what it reads are the responses to the first so many of its requests
(`client_reads`). A client that waits for each response before it sends the next
request gets all of them (`client_answered`).
-/

namespace TinyMuduo

open Transition ResponseReader

/-! ## Reading a stream of responses -/

/-- The client reads these responses off the stream, and nothing is left. -/
inductive ReadAs : Bytes → List ResponseMessage → Prop where
  | nil : ReadAs [] []
  | cons {s rest : Bytes} {message : ResponseMessage} {messages : List ResponseMessage} :
      readResponse s = some (message, rest) → ReadAs rest messages →
      ReadAs s (message :: messages)

namespace HttpResponse

structure Deliverable (r : HttpResponse) : Prop where
  plain : r.Plain
  fits : r.FitsInt Buffer.new
  body : ¬ Bodyless r.statusCode.toNat

def message (r : HttpResponse) : ResponseMessage where
  status := r.statusCode.toNat
  reason := r.statusMessage
  fields := r.connectionFields.map Field.pair ++
    [(ascii "Content-Type", r.type), (ascii "Server", serverName)]
  body := r.body

def bytes (r : HttpResponse) : Bytes := (r.appendToBuffer Buffer.new).readable

/-- One response is read, and what follows it is left, or is nothing. -/
theorem readResponse_bytes {r : HttpResponse} (h : r.Deliverable) {rest : Bytes}
    (hrest : r.closeConnection = true → rest = []) :
    readResponse (r.bytes ++ rest) = some (r.message, rest) := by
  obtain ⟨n, hn, -, -⟩ := status_natCast h.plain
  have hbytes : r.bytes = r.encoding h.plain := by
    rw [bytes, (appendToBuffer_adds Buffer.new_inv h.plain h.fits).readable, Buffer.readable_new]
    rfl
  have hbody := h.body
  rw [hn, Int.toNat_natCast] at hbody
  have hfields : (r.fields h.plain).map Field.pair = r.message.fields := by
    rw [fields, List.map_append]
    rfl
  have hstatus : r.message.status = n := by
    rw [message, hn, Int.toNat_natCast]
  rw [hbytes, readResponse_encoding h.plain hn, framed, if_neg hbody, hfields, ← hstatus]
  by_cases hclose : r.closeConnection = true
  · rw [if_pos hclose, hrest hclose, List.append_nil]
    rfl
  · have hlen : r.body.length ≤ (r.body ++ rest).length := by simp
    simp only [if_neg hclose, Framing.cut, if_pos hlen, List.take_left, List.drop_left]
    rfl

/-- **Responses are read back one after the other** when only the last one closes. -/
theorem readAs_bytes : ∀ {rs : List HttpResponse}, (∀ r ∈ rs, r.Deliverable) →
    (∀ r ∈ rs.dropLast, r.closeConnection = false) →
    ReadAs (rs.flatMap bytes) (rs.map message) := by
  intro rs
  induction rs with
  | nil =>
      intro _ _
      exact .nil
  | cons r rs ih =>
      intro hall hopen
      have hrest : r.closeConnection = true → rs.flatMap bytes = [] := by
        intro hclose
        cases rs with
        | nil => rfl
        | cons r' rs =>
            have hr := hopen r (by simp)
            rw [hclose] at hr
            cases hr
      refine .cons (readResponse_bytes (hall r List.mem_cons_self) hrest) ?_
      apply ih
      · intro r' hr'
        exact hall r' (List.mem_cons_of_mem _ hr')
      · intro r' hr'
        apply hopen
        cases rs with
        | nil => cases hr'
        | cons r'' rs => exact List.mem_cons_of_mem _ hr'

end HttpResponse

/-! ## The requests of a client -/

theorem parse_client {waiting : List WellFormedRequest} {p rest : Bytes} {r : Bool}
    {c : HttpContent} (hp : p <+: waiting.flatMap WellFormedRequest.encode)
    (h : parseBytes HttpContent.new p = .ok (r, c, rest)) :
    Waits r c ∨ ∃ q later, waiting = q :: later ∧ p = q.encode ++ rest ∧ r = true ∧
      c = ⟨q.request, .kParseGotCompleteRequest⟩ := by
  by_cases hw : Waits r c
  · exact Or.inl hw
  obtain ⟨x, hx⟩ := hp
  cases waiting with
  | nil =>
      obtain ⟨rfl, -⟩ := List.append_eq_nil_iff.mp hx
      exact absurd ⟨r, c, rest, h, hw⟩ idle_new.not_decided
  | cons q later =>
      have hdecided := parseBytes_decided x h hw
      rw [hx, List.flatMap_cons, q.parseBytes_encode] at hdecided
      obtain ⟨rfl, rfl, hrest⟩ : true = r ∧ ⟨q.request, .kParseGotCompleteRequest⟩ = c ∧
          later.flatMap WellFormedRequest.encode = rest ++ x := by
        simpa using hdecided
      rw [List.flatMap_cons, hrest, ← List.append_assoc] at hx
      exact Or.inr ⟨q, later, rfl, List.append_cancel_right hx, rfl, rfl⟩

theorem decodes_client {segments : List Bytes} {requests : List HttpRequest}
    (h : List.Forall₂ Decodes segments requests) :
    ∀ {rs : List WellFormedRequest} {pending : Bytes},
      segments.flatten ++ pending <+: rs.flatMap WellFormedRequest.encode →
      ∃ done waiting, rs = done ++ waiting ∧
        segments.flatten = done.flatMap WellFormedRequest.encode ∧
        requests = done.map WellFormedRequest.request ∧
        pending <+: waiting.flatMap WellFormedRequest.encode := by
  induction h with
  | nil =>
      intro rs pending hsent
      exact ⟨[], rs, rfl, rfl, rfl, hsent⟩
  | @cons segment request segments requests hdecodes _ ih =>
      intro rs pending hsent
      rw [List.flatten_cons, List.append_assoc] at hsent
      have hcomplete : ¬ Waits true ⟨request, .kParseGotCompleteRequest⟩ :=
        not_waits_of_complete rfl
      have hdecided := parseBytes_decided (segments.flatten ++ pending) hdecodes hcomplete
      rcases parse_client hsent hdecided with hw | ⟨q, later, rfl, hseg, -, hq⟩
      · exact absurd hw hcomplete
      · have hsegment : segment = q.encode := List.append_cancel_right hseg
        rw [hsegment, List.flatMap_cons, List.prefix_append_right_inj] at hsent
        obtain ⟨done, waiting, rfl, hdone, rfl, hpending⟩ := ih hsent
        refine ⟨q :: done, waiting, rfl, ?_, ?_, hpending⟩
        · rw [List.flatten_cons, hdone, hsegment]
          rfl
        · rw [List.map_cons, (HttpContent.mk.inj hq).1]

/-! ## One callback -/

variable {srv : HttpServer} {fd : ℕ} {answers : ℕ → WriteAnswer} {rs : List WellFormedRequest}

/-- Where a connection stands with its client: `done` have been dispatched, and the
parser has the effect of one that reads what has come of the `waiting` ones. -/
structure Standing (received : Bytes) (requests : List HttpRequest) (s : ServedConnection)
    (done waiting : List WellFormedRequest) (pending : Bytes) : Prop where
  received_eq : received = done.flatMap WellFormedRequest.encode ++ pending
  requests_eq : requests = done.map WellFormedRequest.request
  prefix_waiting : pending <+: waiting.flatMap WellFormedRequest.encode
  parser : s.Open → ∀ later, parseBytes HttpContent.new (pending ++ later) =
    parseBytes s.session.conn.content (s.session.conn.inputBuffer.readable ++ later)

/-- **A client always stands somewhere in its list.** -/
theorem Segmented.standing {received arriving : Bytes} {requests : List HttpRequest}
    {s : ServedConnection} (h : Segmented received requests s)
    (hsent : received ++ arriving <+: rs.flatMap WellFormedRequest.encode) :
    ∃ done waiting pending, rs = done ++ waiting ∧
      Standing received requests s done waiting pending ∧
      pending ++ arriving <+: waiting.flatMap WellFormedRequest.encode := by
  obtain ⟨segments, pending, rfl, hdecodes, hparser⟩ := h
  rw [List.append_assoc] at hsent
  obtain ⟨done, waiting, rfl, hdone, hrequests, hpending⟩ := decodes_client hdecodes hsent
  refine ⟨done, waiting, pending, rfl, ⟨?_, hrequests, ?_, hparser⟩, hpending⟩
  · rw [hdone]
  · exact (List.prefix_append pending arriving).trans hpending

theorem Standing.parse {received pending : Bytes} {requests : List HttpRequest}
    {s t : ServedConnection} {done waiting : List WellFormedRequest} {l : ConnectionLabel}
    {now : Timestamp} {r : Bool} {c : HttpContent} {b : Buffer}
    (h : Standing received requests s done waiting pending) (hs : s.Sound)
    (hcallback : ServedConnection.Callback srv s l t now)
    (hopen : (s.session.afterRead (.data l.arriving)).conn.state ≠ .kDisconnecting)
    (hparse : (s.session.afterRead (.data l.arriving)).conn.content.parseContent
      (s.session.afterRead (.data l.arriving)).conn.inputBuffer = .ok (r, c, b)) :
    parseBytes HttpContent.new (pending ++ l.arriving) = .ok (r, c, b.readable) := by
  obtain ⟨-, hinput, hread⟩ := Buffer.readFd_spec hs.input l.arriving
  rw [h.parser (Or.inr ((hs.up hcallback.pre).resolve_right hopen)), ← hread]
  exact (HttpContent.parseBytes_of_parseContent hinput hparse).2

/-! ## Runs -/

section Runs

variable {ms : List (Move ServedConnection ConnectionLabel)} {s : ServedConnection}

theorem standing_before (h : Run (servedConnection srv fd answers) ms s)
    (hsent : receivedBytes ms <+: rs.flatMap WellFormedRequest.encode)
    {before after : List (Move ServedConnection ConnectionLabel)}
    {m : Move ServedConnection ConnectionLabel} (hms : ms = before ++ m :: after) :
    m.pre.Sound ∧ ServedConnection.Steps srv m.pre m.label m.post ∧
      ∃ done waiting pending, rs = done ++ waiting ∧
        Standing (receivedBytes before) (srv.dispatches before) m.pre done waiting pending ∧
        pending ++ m.label.arriving <+: waiting.flatMap WellFormedRequest.encode := by
  obtain ⟨hbefore, hstep⟩ := h.split hms
  refine ⟨run_sound hbefore, ServedConnection.step_cases hstep, ?_⟩
  apply (run_segmented hbefore).standing
  refine List.IsPrefix.trans ?_ hsent
  rw [hms, receivedBytes, receivedBytes, List.flatMap_append, List.flatMap_cons,
    ← List.append_assoc]
  exact List.prefix_append _ _

/-- **A client's requests are never refused.** -/
theorem no_parseError (h : Run (servedConnection srv fd answers) ms s)
    (hsent : receivedBytes ms <+: rs.flatMap WellFormedRequest.encode) :
    ∀ m ∈ ms, ¬ srv.ParseError m := by
  intro m hm herror
  obtain ⟨before, after, hms⟩ := List.append_of_mem hm
  obtain ⟨hs, hstep, done, waiting, pending, -, hstanding, hpending⟩ :=
    standing_before h hsent hms
  rcases hstep.observed hs with hquiet | ⟨now, hcallback⟩
  · rw [HttpServer.ParseError, HttpServer.seen, hquiet.observe] at herror
    cases herror
  · have heffect := hcallback.effect
    have herror : (srv.observe m.pre m.label).parsed = some false := herror
    generalize srv.observe m.pre m.label = report, m.post.session = session at heffect herror
    cases heffect with
    | rejected hopen hparse =>
        rcases parse_client hpending (hstanding.parse hs hcallback hopen hparse) with
          ⟨hw, -⟩ | ⟨_, _, _, _, hr, _⟩
        · cases hw
        · cases hr
    | _ => cases herror

/-- **Only the last response of a connection closes it.** -/
theorem closes_last (h : Run (servedConnection srv fd answers) ms s) :
    (∀ request ∈ (srv.dispatches ms).dropLast, ¬ srv.Closes request) ∧
      ((∃ request ∈ srv.dispatches ms, srv.Closes request) → s.Shut) := by
  refine Run.history (I := fun ms s =>
    (∀ request ∈ (srv.dispatches ms).dropLast, ¬ srv.Closes request) ∧
      ((∃ request ∈ srv.dispatches ms, srv.Closes request) → s.Shut)) ?_ ?_ h
  · rintro s rfl
    constructor
    · intro request hmem
      cases hmem
    · rintro ⟨request, hmem, -⟩
      cases hmem
  · rintro ms s l t hr ⟨hopen, hshut⟩ hstep
    have hs := run_sound hr
    have hstep := ServedConnection.step_cases hstep
    rw [dispatches_snoc]
    rcases hstep.observed hs with hquiet | ⟨now, hcallback⟩
    · rw [show srv.seen ⟨s, l, t⟩ = .nothing from hquiet.observe]
      simp only [Report.nothing, Option.toList_none, List.append_nil]
      exact ⟨hopen, fun hclosing => hquiet.shut (hshut hclosing)⟩
    · by_cases hclosing : ∃ request ∈ srv.dispatches ms, srv.Closes request
      · obtain ⟨hshut', hnothing⟩ := hstep.shut hs (hshut hclosing)
        rw [show srv.seen ⟨s, l, t⟩ = .nothing from hnothing]
        simp only [Report.nothing, Option.toList_none, List.append_nil]
        exact ⟨hopen, fun _ => hshut'⟩
      · cases hdispatched : (srv.seen ⟨s, l, t⟩).dispatched with
        | none =>
            simp only [Option.toList_none, List.append_nil]
            exact ⟨hopen, fun hclosing' => absurd hclosing' hclosing⟩
        | some request =>
            simp only [Option.toList_some, List.dropLast_concat]
            constructor
            · intro request' hmem hcloses
              exact hclosing ⟨request', hmem, hcloses⟩
            · rintro ⟨request', hmem, hcloses⟩
              have hlast : request' = request := by
                rcases List.mem_append.mp hmem with hmem | hmem
                · exact absurd ⟨request', hmem, hcloses⟩ hclosing
                · exact List.mem_singleton.mp hmem
              have hstate := (hcallback.effect.closing
                (Or.inr ⟨request, hdispatched, hlast ▸ hcloses⟩)).2
              refine ⟨?_, fun _ => hstate⟩
              rw [hcallback.post]
              rintro ⟨⟩

end Runs

/-- **What a client reads are the responses to its first requests**, in order and
one for each, of which only the last one may close. -/
theorem client_reads (hsrv : ∀ r : WellFormedRequest, (srv.respond r.request).Deliverable)
    {ms : List (Move ServedConnection ConnectionLabel)} {s : ServedConnection}
    (h : Run (servedConnection srv fd answers) ms s)
    (hsent : receivedBytes ms <+: rs.flatMap WellFormedRequest.encode)
    (hsends : ∀ m ∈ ms, m.label.sends = false)
    (hwrites : ∀ m ∈ ms, srv.answer m ≠ [] → ¬ m.pre.session.Drops) :
    ∃ done waiting, rs = done ++ waiting ∧
      srv.dispatches ms = done.map WellFormedRequest.request ∧
      (∀ r ∈ done.dropLast, ¬ srv.Closes r.request) ∧
      ReadAs s.stream (done.map fun r => (srv.respond r.request).message) := by
  have hsent' : receivedBytes ms ++ [] <+: rs.flatMap WellFormedRequest.encode := by
    rw [List.append_nil]
    exact hsent
  obtain ⟨done, waiting, pending, hrs, hstanding, -⟩ := (run_segmented h).standing hsent'
  have hdispatches := hstanding.requests_eq
  have hclosing := (closes_last h).1
  rw [hdispatches, ← List.map_dropLast] at hclosing
  refine ⟨done, waiting, hrs, hdispatches, fun r hr => hclosing _ (List.mem_map_of_mem hr), ?_⟩
  have herror : ¬ ∃ m ∈ ms, srv.ParseError m := by
    rintro ⟨m, hm, hfalse⟩
    exact no_parseError h hsent m hm hfalse
  have hstream := (run_answers h hsends).2
  rw [flatMap_keptAnswer hwrites, flatMap_answer h, if_neg herror, List.append_nil, hdispatches,
    List.flatMap_map] at hstream
  have hread : ReadAs ((done.map fun r => srv.respond r.request).flatMap HttpResponse.bytes)
      ((done.map fun r => srv.respond r.request).map HttpResponse.message) := by
    apply HttpResponse.readAs_bytes
    · intro response hmem
      obtain ⟨r, -, rfl⟩ := List.mem_map.mp hmem
      exact hsrv r
    · intro response hmem
      rw [← List.map_dropLast] at hmem
      obtain ⟨r, hr, rfl⟩ := List.mem_map.mp hmem
      exact Bool.eq_false_iff.mpr (hclosing _ (List.mem_map_of_mem hr))
  rw [List.flatMap_map, List.map_map] at hread
  rw [hstream]
  exact hread

/-! ## A client that waits its turn -/

/-- The bytes of a request come in when all requests before it have been
dispatched. -/
def InTurn (srv : HttpServer) (rs : List WellFormedRequest)
    (ms : List (Move ServedConnection ConnectionLabel)) : Prop :=
  ∀ before m after, ms = before ++ m :: after →
    receivedBytes (before ++ [m]) <+:
      (rs.take ((srv.dispatches before).length + 1)).flatMap WellFormedRequest.encode

section

variable {ms : List (Move ServedConnection ConnectionLabel)} {s : ServedConnection}

theorem InTurn.of_append {later : List (Move ServedConnection ConnectionLabel)}
    (h : InTurn srv rs (ms ++ later)) : InTurn srv rs ms := by
  rintro before m after rfl
  exact h before m (after ++ later) (by simp)

theorem InTurn.sent (h : InTurn srv rs ms) :
    receivedBytes ms <+: rs.flatMap WellFormedRequest.encode := by
  rcases List.eq_nil_or_concat ms with rfl | ⟨before, m, rfl⟩
  · exact List.nil_prefix
  · rw [List.concat_eq_append] at h ⊢
    refine (h before m [] rfl).trans ?_
    exact (List.take_prefix _ rs).flatMap _

/-- In its turn a request leaves nothing behind it in the buffer. -/
theorem Standing.rest_eq_nil {received arriving pending rest : Bytes} {requests : List HttpRequest}
    {done later : List WellFormedRequest} {q : WellFormedRequest}
    (h : Standing received requests s done (q :: later) pending)
    (hrs : rs = done ++ q :: later)
    (hturn : received ++ arriving <+:
      (rs.take (requests.length + 1)).flatMap WellFormedRequest.encode)
    (hrest : pending ++ arriving = q.encode ++ rest) : rest = [] := by
  have htake : rs.take (requests.length + 1) = done ++ [q] := by
    rw [h.requests_eq, List.length_map, hrs, List.take_append]
    simp
  rw [htake, h.received_eq, List.flatMap_append, List.append_assoc,
    List.prefix_append_right_inj, hrest, List.flatMap_singleton] at hturn
  have hlen := hturn.length_le
  rw [List.length_append] at hlen
  exact List.eq_nil_of_length_eq_zero (by omega)

/-- **Nothing decided is left in the buffer** between two callbacks. -/
theorem nothing_left (h : Run (servedConnection srv fd answers) ms s) (hturn : InTurn srv rs ms) :
    s.Open → ¬ Decided s.session.conn.content s.session.conn.inputBuffer.readable := by
  refine Run.history (I := fun ms s => InTurn srv rs ms → s.Open →
    ¬ Decided s.session.conn.content s.session.conn.inputBuffer.readable) ?_ ?_ h hturn
  · rintro s rfl - -
    show ¬ Decided HttpContent.new Buffer.new.readable
    rw [Buffer.readable_new]
    exact idle_new.not_decided
  · intro ms s l t hr ih hstep hturn ht
    have hrun := hr.next hstep
    obtain ⟨hs, hstep, done, waiting, pending, hrs, hstanding, hpending⟩ :=
      standing_before hrun hturn.sent rfl
    rcases hstep.observed hs with hquiet | ⟨now, hcallback⟩
    · rw [hquiet.content, hquiet.readable]
      exact ih hturn.of_append (hquiet.opened ht)
    · have heffect := hcallback.effect
      generalize srv.observe s l = report, hsession : t.session = session at heffect
      have hclosed : session.conn.state = .kDisconnecting → False := by
        intro hstate
        refine ServedConnection.not_open (Or.inl ?_) ht
        rw [ServedConnection.state, hsession]
        exact hstate
      cases heffect with
      | shut hstate => exact (hclosed (((srv.stamp_fields now _).1).trans hstate)).elim
      | rejected _ _ => exact (hclosed (Session.shutdown_read _).1).elim
      | @waits c b hopen hparse hc =>
          have hparsed := hstanding.parse hs hcallback hopen hparse
          exact (idle_of_waits hparsed ⟨rfl, hc⟩).not_decided
      | @dispatched c b hopen hparse hc =>
          have hparsed := hstanding.parse hs hcallback hopen hparse
          rcases parse_client hpending hparsed with hw | ⟨q, later, rfl, hrest, -, -⟩
          · exact absurd hw (not_waits_of_complete hc)
          have hnil : b.readable = [] := by
            refine hstanding.rest_eq_nil hrs ?_ hrest
            have hreceived := hturn ms ⟨s, l, t⟩ [] rfl
            rw [receivedBytes_snoc] at hreceived
            exact hreceived
          have hread := (srv.dealWithRequest_read c.request
            (srv.parsed now (s.session.afterRead (.data l.arriving)) c b)).2.2
          show ¬ Decided HttpContent.new
            (srv.dealWithRequest c.request _).conn.inputBuffer.readable
          rw [hread]
          show ¬ Decided HttpContent.new b.readable
          rw [hnil]
          exact idle_new.not_decided

/-- **A client that waits its turn has every request answered** that has come in
whole, for as long as the connection is open. -/
theorem client_answered (h : Run (servedConnection srv fd answers) ms s)
    (hturn : InTurn srv rs ms) (hopen : s.Open) {front back : List WellFormedRequest}
    (hrs : rs = front ++ back)
    (hfront : front.flatMap WellFormedRequest.encode <+: receivedBytes ms) :
    front.map WellFormedRequest.request <+: srv.dispatches ms := by
  have hsent : receivedBytes ms ++ [] <+: rs.flatMap WellFormedRequest.encode := by
    rw [List.append_nil]
    exact hturn.sent
  obtain ⟨done, waiting, pending, hdone, hstanding, -⟩ := (run_segmented h).standing hsent
  rw [hstanding.requests_eq]
  rcases List.append_eq_append_iff.mp (hrs.symm.trans hdone) with ⟨x, rfl, -⟩ | ⟨x, rfl, hx⟩
  · rw [List.map_append]
    exact List.prefix_append _ _
  cases x with
  | nil => rw [List.append_nil]
  | cons q x =>
      -- the next request would be in the buffer
      exfalso
      apply nothing_left h hturn hopen
      rw [hstanding.received_eq, List.flatMap_append, List.prefix_append_right_inj,
        List.flatMap_cons] at hfront
      obtain ⟨y, hy⟩ := hfront
      have hparser := hstanding.parser hopen []
      rw [List.append_nil, List.append_nil, ← hy, List.append_assoc, q.parseBytes_encode] at hparser
      exact ⟨_, _, _, hparser.symm, not_waits_of_complete rfl⟩

end

end TinyMuduo

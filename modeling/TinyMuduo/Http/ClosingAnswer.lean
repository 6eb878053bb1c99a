import TinyMuduo.Http.Grammar
import TinyMuduo.Http.ServedConnection

/-!
# A closing answer is the last one

Each move of a connection is observed: what `MessageCallback` was told and which
calls it made (`HttpServer.observe`). The bytes received so far fall into one
segment for each dispatched request and the bytes that wait for more, and a
parser that reads a segment from the start finds the request in it
(`run_segmented`). Behind a closing answer the connection is `kDisconnecting` for
as long as it is established, and a callback returns at once
(`closing_answer_last`).
-/

namespace TinyMuduo

open Transition

/-! ## Observing the moves -/

def ConnectionLabel.arriving : ConnectionLabel → Bytes
  | .handleMessage _ (.data bytes) => bytes
  | _ => []

def Operation.isSend : Operation → Bool
  | .handleWrite => false
  | .shutdown => false
  | _ => true

namespace HttpServer

variable (srv : HttpServer)

/-- What the `MessageCallback` of a step does. -/
def observe (s : ServedConnection) (l : ConnectionLabel) : Report :=
  if l.arriving = [] then .nothing
  else
    match srv.report (s.session.afterRead (.data l.arriving)) with
    | .ok report => report
    | .error _ => .nothing

/-- What it did in a move. -/
abbrev seen (m : Move ServedConnection ConnectionLabel) : Report := srv.observe m.pre m.label

/-- The requests given to the response callback, in order. -/
def dispatches (ms : List (Move ServedConnection ConnectionLabel)) : List HttpRequest :=
  ms.filterMap fun m => (srv.seen m).dispatched

/-- The number of responses `MessageCallback` sent. -/
def responses (ms : List (Move ServedConnection ConnectionLabel)) : ℕ :=
  (ms.flatMap fun m => (srv.seen m).calls).countP Operation.isSend

def ParseError (m : Move ServedConnection ConnectionLabel) : Prop :=
  (srv.seen m).parsed = some false

instance (m : Move ServedConnection ConnectionLabel) : Decidable (srv.ParseError m) := by
  unfold ParseError
  infer_instance

/-- The callback sent a 400 response, or one that closes the connection. -/
def SendsClosing (m : Move ServedConnection ConnectionLabel) : Prop :=
  .sendCString badRequest ∈ (srv.seen m).calls ∨
    ∃ request, (srv.seen m).dispatched = some request ∧ srv.Closes request

end HttpServer

def receivedBytes (ms : List (Move ServedConnection ConnectionLabel)) : Bytes :=
  ms.flatMap fun m => m.label.arriving

/-! ## The calls are what a callback does to the write side -/

namespace Session

/-- The same session with other members on the read side. -/
def withRead (c : HttpContent) (b : Buffer) (time : Timestamp) (s : Session) : Session :=
  { s with conn := { s.conn with content := c, inputBuffer := b, timestamp := time } }

variable (s : Session) (c : HttpContent) (b : Buffer) (time : Timestamp)

theorem keep_withRead (message : Bytes) (n : ℕ) :
    (s.withRead c b time).keep message n = (s.keep message n).withRead c b time := by
  unfold keep
  rw [apply_ite (withRead c b time)]
  congr 1
  dsimp only
  rw [apply_ite (withRead c b time)]
  rfl

theorem send_withRead (message : Bytes) :
    (s.withRead c b time).send message = (s.send message).withRead c b time := by
  unfold send
  rw [apply_ite (withRead c b time), ← keep_withRead]
  congr 1
  refine Eq.trans ?_ (apply_ite (withRead c b time) _ _ _).symm
  rw [← keep_withRead]
  rfl

theorem shutdown_withRead :
    (s.withRead c b time).shutdown = s.shutdown.withRead c b time := by
  unfold shutdown
  dsimp only
  rw [apply_ite (withRead c b time)]
  rfl

theorem sendBuffer_withRead (buffer : Buffer) :
    ((s.withRead c b time).sendBuffer buffer).1 = (s.sendBuffer buffer).1.withRead c b time := by
  unfold sendBuffer
  by_cases hdown : s.conn.state = .kDisconnected
  · rw [if_pos hdown]
    exact congrArg Prod.fst (if_pos hdown)
  · rw [if_neg hdown, ← send_withRead]
    exact congrArg Prod.fst (if_neg hdown)

theorem drained_withRead : (s.withRead c b time).drained = s.drained.withRead c b time := by
  unfold drained
  dsimp only
  rw [apply_ite (withRead c b time), ← shutdown_withRead]
  rfl

theorem handleWrite_withRead :
    (s.withRead c b time).handleWrite = s.handleWrite.withRead c b time := by
  unfold handleWrite
  rw [apply_ite (withRead c b time)]
  congr 1
  dsimp only
  rw [apply_ite (withRead c b time), apply_ite (withRead c b time), ← drained_withRead]
  rfl

theorem perform_withRead (op : Operation) :
    (s.withRead c b time).perform op = (s.perform op).withRead c b time := by
  cases op with
  | send message => exact send_withRead s c b time message
  | sendCString message => exact send_withRead s c b time (cString message)
  | sendString message =>
      unfold perform sendString
      rw [apply_ite (withRead c b time), ← send_withRead]
      rfl
  | sendBuffer buffer => exact sendBuffer_withRead s c b time buffer
  | handleWrite => exact handleWrite_withRead s c b time
  | shutdown => exact shutdown_withRead s c b time

theorem foldl_withRead (calls : List Operation) : ∀ s : Session,
    calls.foldl perform (s.withRead c b time) = (calls.foldl perform s).withRead c b time := by
  induction calls with
  | nil =>
      intro s
      rfl
  | cons op calls ih =>
      intro s
      rw [List.foldl_cons, perform_withRead, ih]
      rfl

/-- The two sessions differ in the read side only. -/
def SameWrite (s t : Session) : Prop := ∃ c b time, t = s.withRead c b time

end Session

/-- **The calls are the whole effect of a callback on the write side.** -/
theorem CallbackCase.sameWrite {srv : HttpServer} {now : Timestamp} {s t : Session}
    {report : Report} (h : CallbackCase srv now s report t) :
    (report.calls.foldl Session.perform s).SameWrite t := by
  obtain ⟨time, hstamp⟩ := srv.stamp_spec now s
  have hparsed : ∀ c b, srv.parsed now s c b = s.withRead c b time := by
    intro c b
    simp only [HttpServer.parsed, hstamp]
    rfl
  cases h with
  | shut _ => exact ⟨s.conn.content, s.conn.inputBuffer, time, hstamp⟩
  | @waits c b _ _ _ => exact ⟨c, b, time, hparsed c b⟩
  | @rejected c b _ _ =>
      refine ⟨c, b, time, ?_⟩
      rw [hparsed, ← Session.foldl_withRead]
      rfl
  | @dispatched c b _ _ _ =>
      refine ⟨c.resetContentState, b, time, ?_⟩
      have hcalls : srv.dealWithRequest c.request (s.withRead c b time) =
          ((srv.dealCalls c.request).foldl Session.perform s).withRead c b time := by
        rw [← Session.foldl_withRead]
        unfold HttpServer.dealWithRequest HttpServer.dealCalls
        dsimp only
        split <;> rfl
      rw [hparsed, hcalls]
      rfl

theorem Session.SameWrite.afterRead {s t : Session} {calls : List Operation}
    {result : Buffer.ReadResult}
    (h : (calls.foldl Session.perform (s.afterRead result)).SameWrite t) :
    (calls.foldl Session.perform s).SameWrite t := by
  obtain ⟨c, b, time, rfl⟩ := h
  refine ⟨c, b, time, ?_⟩
  show (calls.foldl Session.perform (s.withRead s.conn.content _ s.conn.timestamp)).withRead
    c b time = _
  rw [Session.foldl_withRead]
  rfl

/-! ## What one move is -/

namespace ServedConnection

/-- Not shut down and not closed. -/
def Open (s : ServedConnection) : Prop := s.state = .kConnecting ∨ s.state = .kConnected

/-- `Shutdown` has been called, and no callback will get past its guard. -/
structure Shut (s : ServedConnection) : Prop where
  begun : s.stage ≠ .made
  state : s.stage = .established → s.state = .kDisconnecting

/-- A move without a `MessageCallback`. -/
structure Quiet (s : ServedConnection) (l : ConnectionLabel) (t : ServedConnection) : Prop where
  arriving : l.arriving = []
  content : t.session.conn.content = s.session.conn.content
  readable : t.session.conn.inputBuffer.readable = s.session.conn.inputBuffer.readable
  opened : t.Open → s.Open
  shut : s.Shut → t.Shut

/-- A move that is one `MessageCallback`. -/
structure Callback (srv : HttpServer) (s : ServedConnection) (l : ConnectionLabel)
    (t : ServedConnection) (now : Timestamp) : Prop where
  label : l = .handleMessage now (.data l.arriving)
  arriving : l.arriving ≠ []
  pre : s.stage = .established
  post : t.stage = .established
  call : srv.handleMessage now (.data l.arriving) s.session =
    .ok ((srv.observe s l).dispatched, t.session)
  effect : CallbackCase srv now (s.session.afterRead (.data l.arriving)) (srv.observe s l)
    t.session

variable {srv : HttpServer} {s t : ServedConnection} {l : ConnectionLabel}

theorem Quiet.observe (h : Quiet s l t) : srv.observe s l = .nothing :=
  if_pos h.arriving

theorem not_open (h : s.state = .kDisconnecting ∨ s.state = .kDisconnected) : ¬ s.Open := by
  rintro (h' | h') <;> rcases h with h | h <;>
  · rw [h] at h'
    cases h'

theorem quiet_of_sameRead {session : Session} (hl : l.arriving = [])
    (h : Session.SameRead s.session session) : Quiet s l { s with session := session } where
  arriving := hl
  content := h.content
  readable := by rw [h.inputBuffer]
  opened := fun ht => ht.imp h.state.symm.trans h.state.symm.trans
  shut := fun hs => ⟨hs.begun, fun hstage => h.state.trans (hs.state hstage)⟩

theorem quiet_shutdown (hl : l.arriving = []) :
    Quiet s l { s with session := s.session.shutdown } := by
  obtain ⟨hstate, hcontent, hinput⟩ := Session.shutdown_read s.session
  constructor
  · exact hl
  · exact hcontent
  · rw [hinput]
  · intro ht
    exact absurd ht (not_open (Or.inl hstate))
  · intro hs
    exact ⟨hs.begun, fun _ => hstate⟩

/-- **Each move is quiet or one callback.** -/
theorem Steps.observed (h : Steps srv s l t) (hs : s.Sound) :
    Quiet s l t ∨ ∃ now, Callback srv s l t now := by
  cases h with
  | connectionEstablished hstage =>
      left
      refine ⟨rfl, rfl, rfl, fun _ => Or.inl (hs.made hstage), ?_⟩
      intro hshut
      exact absurd hstage hshut.begun
  | @handleMessage now result request session hstage hcall =>
      cases HttpServer.handleMessage_cases hcall with
      | @callback bytes _ _ hne hcallback =>
          right
          obtain ⟨-, hinput, -⟩ := Buffer.readFd_spec hs.input bytes
          obtain ⟨report, hreport, hdispatched, hcase⟩ :=
            HttpServer.messageCallback_cases hinput hcallback
          have hobserve : srv.observe s (.handleMessage now (.data bytes)) = report := by
            simp only [HttpServer.observe, ConnectionLabel.arriving, if_neg hne, hreport]
          refine ⟨now, rfl, hne, hstage, s.stageAfter_data hne, ?_, ?_⟩
          · rw [hobserve, hdispatched]
            exact hcall
          · rw [hobserve]
            exact hcase
      | endOfFile =>
          left
          rw [s.stageAfter_endOfFile]
          refine ⟨rfl, rfl, ?_, fun ht => absurd ht (not_open (Or.inr rfl)), ?_⟩
          · exact (Buffer.readFd_spec hs.input []).2.2.trans (List.append_nil _)
          · intro _
            exact ⟨by rintro ⟨⟩, by rintro ⟨⟩⟩
      | error =>
          left
          rw [s.stageAfter_error, ← hstage]
          exact ⟨rfl, rfl, rfl, id, id⟩
  | handleWrite _ => exact Or.inl (quiet_of_sameRead rfl (Session.handleWrite_sameRead _))
  | sendString _ => exact Or.inl (quiet_of_sameRead rfl (Session.sendString_sameRead _ _))
  | sendBuffer _ => exact Or.inl (quiet_of_sameRead rfl (Session.sendBuffer_sameRead _ _))
  | shutdown _ => exact Or.inl (quiet_shutdown rfl)
  | handleIdleConnection _ _ =>
      left
      unfold HttpServer.handleIdleConnection
      split
      · exact quiet_shutdown rfl
      · exact ⟨rfl, rfl, rfl, id, id⟩
  | connectionDestructor _ =>
      left
      obtain ⟨-, hcontent, hinput, hend⟩ := destroy_spec s.session
      refine ⟨rfl, hcontent, by rw [hinput], ?_, fun _ => ⟨by rintro ⟨⟩, by rintro ⟨⟩⟩⟩
      intro ht
      split at hend
      · exact absurd ht (not_open (Or.inr hend.state))
      · exact ht.imp hend.1.symm.trans hend.1.symm.trans

/-- **Behind `Shutdown` a callback does nothing.** -/
theorem Steps.shut (h : Steps srv s l t) (hs : s.Sound) (hshut : s.Shut) :
    t.Shut ∧ srv.observe s l = .nothing := by
  rcases h.observed hs with hquiet | ⟨now, hcallback⟩
  · exact ⟨hquiet.shut hshut, hquiet.observe⟩
  · have hstate : (s.session.afterRead (.data l.arriving)).conn.state = .kDisconnecting :=
      hshut.state hcallback.pre
    have heffect := hcallback.effect
    generalize srv.observe s l = report, hsession : t.session = session at heffect
    cases heffect with
    | shut _ =>
        refine ⟨⟨by rw [hcallback.post]; rintro ⟨⟩, fun _ => ?_⟩, rfl⟩
        rw [state, hsession, (srv.stamp_fields now _).1]
        exact hstate
    | waits hopen _ _ => exact absurd hstate hopen
    | rejected hopen _ => exact absurd hstate hopen
    | dispatched hopen _ _ => exact absurd hstate hopen

end ServedConnection

/-! ## Where the dispatched requests come from -/

/-- A fresh parser that reads the segment completes the request with its last
byte. -/
def Decodes (segment : Bytes) (request : HttpRequest) : Prop :=
  parseBytes HttpContent.new segment =
    .ok (true, ⟨request, .kParseGotCompleteRequest⟩, [])

theorem complete_eq {c : HttpContent} (hc : c.getCompleteRequest = true) :
    c = ⟨c.request, .kParseGotCompleteRequest⟩ := by
  have hstate : c.parseState = .kParseGotCompleteRequest := of_decide_eq_true hc
  rw [← hstate]

/-- What has been received makes up the dispatched requests and the bytes behind
them. The parser of an open connection has the effect of a fresh one that reads
these bytes at once. -/
def Segmented (received : Bytes) (requests : List HttpRequest) (s : ServedConnection) : Prop :=
  ∃ segments pending, received = segments.flatten ++ pending ∧
    List.Forall₂ Decodes segments requests ∧
    (s.Open → ∀ later, parseBytes HttpContent.new (pending ++ later) =
      parseBytes s.session.conn.content (s.session.conn.inputBuffer.readable ++ later))

theorem new_segmented (fd : ℕ) (answers : ℕ → WriteAnswer) :
    Segmented [] [] (ServedConnection.new fd answers) := by
  refine ⟨[], [], rfl, .nil, fun _ later => ?_⟩
  show _ = parseBytes HttpContent.new (Buffer.new.readable ++ later)
  rw [Buffer.readable_new]

variable {srv : HttpServer} {fd : ℕ} {answers : ℕ → WriteAnswer}

theorem Segmented.step {received : Bytes} {requests : List HttpRequest}
    {s t : ServedConnection} {l : ConnectionLabel} (h : Segmented received requests s)
    (hs : s.Sound) (hstep : ServedConnection.Steps srv s l t) :
    Segmented (received ++ l.arriving) (requests ++ (srv.observe s l).dispatched.toList) t := by
  obtain ⟨segments, pending, rfl, hdecodes, hparser⟩ := h
  rcases hstep.observed hs with hquiet | ⟨now, hcallback⟩
  · rw [Segmented, hquiet.observe, hquiet.arriving, hquiet.content, hquiet.readable]
    refine ⟨segments, pending, List.append_nil _, ?_, fun ht => hparser (hquiet.opened ht)⟩
    exact (List.append_nil requests).symm ▸ hdecodes
  · obtain ⟨-, hinput, hread⟩ := Buffer.readFd_spec hs.input l.arriving
    have heffect := hcallback.effect
    have hup := hs.up hcallback.pre
    -- the parser past the guard
    have hbytes : ∀ {r c b}, s.state ≠ .kDisconnecting →
        (s.session.afterRead (.data l.arriving)).conn.content.parseContent
          (s.session.afterRead (.data l.arriving)).conn.inputBuffer = .ok (r, c, b) →
        parseBytes HttpContent.new (pending ++ l.arriving) = .ok (r, c, b.readable) := by
      intro r c b hopen hparse
      rw [hparser (Or.inr (hup.resolve_right hopen)), ← hread]
      exact (HttpContent.parseBytes_of_parseContent hinput hparse).2
    -- a callback that dispatches nothing
    have hkeep : ∀ u : ServedConnection, (u.Open → ∀ later,
        parseBytes HttpContent.new (pending ++ l.arriving ++ later) =
          parseBytes u.session.conn.content (u.session.conn.inputBuffer.readable ++ later)) →
        Segmented (segments.flatten ++ pending ++ l.arriving) (requests ++ []) u := by
      intro u hu
      refine ⟨segments, pending ++ l.arriving, List.append_assoc _ _ _, ?_, hu⟩
      exact (List.append_nil requests).symm ▸ hdecodes
    generalize srv.observe s l = report, hsession : t.session = session at heffect
    cases heffect with
    | shut hstate =>
        refine hkeep t fun ht => absurd ht (ServedConnection.not_open (Or.inl ?_))
        rw [ServedConnection.state, hsession, (srv.stamp_fields now _).1]
        exact hstate
    | @waits c b hopen hparse hc =>
        refine hkeep t fun _ later => ?_
        rw [hsession]
        exact parseBytes_resume later (hbytes hopen hparse) ⟨rfl, hc⟩
    | @rejected c b hopen hparse =>
        refine hkeep t fun ht => absurd ht (ServedConnection.not_open (Or.inl ?_))
        rw [ServedConnection.state, hsession]
        exact (Session.shutdown_read _).1
    | @dispatched c b hopen hparse hc =>
        -- the request is decided by the bytes it consumes
        obtain ⟨p, hp, hdecoded⟩ := parseBytes_consumed (hbytes hopen hparse) hc
        rw [complete_eq hc] at hdecoded
        refine ⟨segments ++ [p], b.readable, ?_, ?_, fun _ later => ?_⟩
        · rw [List.append_assoc, hp, List.flatten_append, List.flatten_singleton,
            List.append_assoc]
        · exact List.rel_append hdecodes (.cons hdecoded .nil)
        · rw [hsession]
          have hrest := (srv.dealWithRequest_read c.request
            (srv.parsed now (s.session.afterRead (.data l.arriving)) c b)).2.2
          show _ = parseBytes HttpContent.new ((srv.dealWithRequest c.request _).conn.inputBuffer.readable
            ++ later)
          rw [hrest]
          rfl

/-! ## The request line of a dispatched request -/

/-- The line names the method and the version of the request. -/
def NamedBy (line : Bytes) (request : HttpRequest) : Prop :=
  ∃ name target d, line = name ++ space :: (target ++ space :: (http ++ [d])) ∧
    request.method = methodOf name ∧ request.method ≠ none ∧
    (d = 48 ∧ request.version = some .kHttp10 ∨ d = 49 ∧ request.version = some .kHttp11)

theorem versionLine_named {name target tail : Bytes} {method : Method} {req req' : HttpRequest}
    (hm : methodOf name = some method) (hreq : req.method = some method)
    (h : versionLine tail req = (true, req')) :
    NamedBy (name ++ space :: (target ++ space :: tail)) req' := by
  unfold versionLine at h
  split at h
  · next htail =>
      cases h
      exact ⟨name, target, 48, by rw [htail], hreq.trans hm.symm, by rw [hreq]; rintro ⟨⟩,
        Or.inl ⟨rfl, rfl⟩⟩
  split at h
  · next htail =>
      cases h
      exact ⟨name, target, 49, by rw [htail], hreq.trans hm.symm, by rw [hreq]; rintro ⟨⟩,
        Or.inr ⟨rfl, rfl⟩⟩
  · cases h

theorem requestLine_named {line : Bytes} {req req' : HttpRequest}
    (h : requestLine line req = .ok (true, req')) : NamedBy line req' := by
  unfold requestLine at h
  rcases hcut : Search.cut [space] line with _ | ⟨name, rest⟩
  · rw [hcut] at h
    cases h
  obtain ⟨rfl, -⟩ := Search.cut_singleton_some.mp hcut
  rw [hcut] at h
  rcases hm : methodOf name with _ | method
  · simp only [hm] at h
    cases h
  simp only [hm, targetLine] at h
  rcases htarget : Search.cut [space] rest with _ | ⟨target, tail⟩
  · simp only [htarget] at h
    cases h
  obtain ⟨rfl, -⟩ := Search.cut_singleton_some.mp htarget
  simp only [htarget] at h
  split at h
  · exact versionLine_named hm rfl (Except.ok.inj h)
  · split at h
    · cases h
    · exact versionLine_named hm rfl (Except.ok.inj h)

theorem headerLines_named {req : HttpRequest} {s : Bytes} :
    ∀ {req' : HttpRequest} {rest : Bytes} {done : Bool}, headerLines req s = (req', rest, done) →
      req'.method = req.method ∧ req'.version = req.version := by
  induction req, s using headerLines.induct with
  | case1 req s hcut =>
      intro req' rest done h
      rw [headerLines_none hcut] at h
      cases h
      exact ⟨rfl, rfl⟩
  | case2 req s line rest hcut hcolon =>
      intro req' rest' done h
      rw [headerLines_blank hcut (Search.cut_singleton_none.mp hcolon)] at h
      cases h
      exact ⟨rfl, rfl⟩
  | case3 req s line rest hcut name value hcolon ih =>
      intro req' rest' done h
      rw [headerLines_header hcut hcolon] at h
      exact ih h

theorem Decodes.named {segment : Bytes} {request : HttpRequest} (h : Decodes segment request) :
    ∃ line rest, segment = line ++ kCRLF ++ rest ∧ ¬ kCRLF <:+: line ∧ NamedBy line request := by
  have hcase := parseBytes_cases HttpContent.new segment
  rw [h] at hcase
  generalize hc : HttpContent.mk request .kParseGotCompleteRequest = c at hcase
  cases hcase with
  | noLine _ _ => cases hc
  | @accepted line tail _ req req' done _ hcut hreq hheaders =>
      obtain rfl : request = req' := (HttpContent.mk.inj hc).1
      obtain ⟨hs, hline⟩ := line_of_cut hcut
      obtain ⟨name, target, d, hparts, hm, hsome, hversion⟩ := requestLine_named hreq
      obtain ⟨hm', hv'⟩ := headerLines_named hheaders
      refine ⟨line, tail, hs, hline, name, target, d, hparts, hm'.trans hm, hm' ▸ hsome, ?_⟩
      rw [hv']
      exact hversion
  | headers hstate _ => cases hstate
  | complete hstate => cases hstate

/-! ## Runs -/

theorem dispatches_snoc (ms : List (Move ServedConnection ConnectionLabel))
    (m : Move ServedConnection ConnectionLabel) :
    srv.dispatches (ms ++ [m]) = srv.dispatches ms ++ (srv.seen m).dispatched.toList :=
  visible_snoc _ ms m

theorem receivedBytes_snoc (ms : List (Move ServedConnection ConnectionLabel))
    (m : Move ServedConnection ConnectionLabel) :
    receivedBytes (ms ++ [m]) = receivedBytes ms ++ m.label.arriving := by
  simp [receivedBytes]

theorem run_segmented {ms : List (Move ServedConnection ConnectionLabel)} {s : ServedConnection}
    (h : Run (servedConnection srv fd answers) ms s) :
    Segmented (receivedBytes ms) (srv.dispatches ms) s := by
  refine Run.history (I := fun ms s => Segmented (receivedBytes ms) (srv.dispatches ms) s) ?_ ?_ h
  · rintro s rfl
    exact new_segmented fd answers
  · intro ms s l t hr ih hstep
    rw [receivedBytes_snoc, dispatches_snoc]
    exact ih.step (run_sound hr) (ServedConnection.step_cases hstep)

/-- A report with one answer for each dispatched request and each parse error. -/
def Report.Balanced (report : Report) : Prop :=
  report.calls.countP Operation.isSend =
    report.dispatched.toList.length + if report.parsed = some false then 1 else 0

theorem CallbackCase.balanced {now : Timestamp} {s t : Session} {report : Report}
    (h : CallbackCase srv now s report t) : report.Balanced := by
  cases h with
  | shut _ => rfl
  | waits _ _ _ => rfl
  | rejected _ _ => rfl
  | dispatched _ _ _ =>
      unfold Report.Balanced HttpServer.dealCalls
      split <;> rfl

theorem CallbackCase.rejection {now : Timestamp} {s t : Session} {report : Report}
    (h : CallbackCase srv now s report t) (herror : report.parsed = some false) :
    report.calls = [.sendCString badRequest, .shutdown] ∧ report.dispatched = none := by
  cases h with
  | rejected _ _ => exact ⟨rfl, rfl⟩
  | _ => cases herror

/-- **A closing answer shuts the connection down.** -/
theorem CallbackCase.closing {now : Timestamp} {s t : Session} {report : Report}
    (h : CallbackCase srv now s report t)
    (hclosing : .sendCString badRequest ∈ report.calls ∨
      ∃ request, report.dispatched = some request ∧ srv.Closes request) :
    .shutdown ∈ report.calls ∧ t.conn.state = .kDisconnecting := by
  cases h with
  | shut _ =>
      rcases hclosing with h | ⟨_, h, -⟩ <;> cases h
  | waits _ _ _ =>
      rcases hclosing with h | ⟨_, h, -⟩ <;> cases h
  | rejected _ _ => exact ⟨by simp, (Session.shutdown_read _).1⟩
  | @dispatched c b _ _ _ =>
      have hcloses : srv.Closes c.request := by
        rcases hclosing with h | ⟨request, h, hcloses⟩
        · unfold HttpServer.dealCalls at h
          split at h <;> simp at h
        · cases h
          exact hcloses
      have hstate := (srv.dealWithRequest_read c.request (srv.parsed now s c b)).1
      rw [if_pos hcloses] at hstate
      refine ⟨?_, hstate⟩
      rw [HttpServer.dealCalls, if_pos (show (srv.respond c.request).closeConnection = true
        from hcloses)]
      simp

/-- What holds of all moves of a connection when a closing answer is the last one.
-/
structure ClosingAnswerLast (srv : HttpServer)
    (ms : List (Move ServedConnection ConnectionLabel)) : Prop where
  /-- What is seen of a callback is what it did. -/
  seen : ∀ m ∈ ms, m.label.arriving ≠ [] →
    ∃ now, m.label = .handleMessage now (.data m.label.arriving) ∧
      srv.handleMessage now (.data m.label.arriving) m.pre.session =
        .ok ((srv.seen m).dispatched, m.post.session) ∧
      ((srv.seen m).calls.foldl Session.perform m.pre.session).SameWrite m.post.session
  /-- No `Send` is skipped. -/
  carried : ∀ m ∈ ms, (srv.seen m).calls ≠ [] → m.pre.state = .kConnected
  balance : srv.responses ms =
    (srv.dispatches ms).length + if ∃ m ∈ ms, srv.ParseError m then 1 else 0
  rejection : ∀ m ∈ ms, srv.ParseError m →
    (srv.seen m).calls = [.sendCString badRequest, .shutdown] ∧ (srv.seen m).dispatched = none
  last : ∀ before m after, ms = before ++ m :: after → srv.SendsClosing m →
    .shutdown ∈ (srv.seen m).calls ∧
      ∀ x ∈ after, srv.seen x = .nothing ∧
        (x.label.arriving ≠ [] → x.pre.session.SameWrite x.post.session)
  /-- The requests come one after the other out of the bytes received, each with
  its own request line in front. -/
  own : ∃ segments pending, receivedBytes ms = segments.flatten ++ pending ∧
    List.Forall₂ (fun segment request =>
      ∃ line rest, segment = line ++ kCRLF ++ rest ∧ ¬ kCRLF <:+: line ∧ NamedBy line request)
      segments (srv.dispatches ms)

section

variable {ms : List (Move ServedConnection ConnectionLabel)} {s : ServedConnection}

theorem move_sound (h : Run (servedConnection srv fd answers) ms s) :
    ∀ m ∈ ms, m.pre.Sound ∧ ServedConnection.Steps srv m.pre m.label m.post := by
  intro m hm
  obtain ⟨⟨_, hr⟩, hstep⟩ := h.move m hm
  exact ⟨run_sound hr, ServedConnection.step_cases hstep⟩

theorem move_callback (h : Run (servedConnection srv fd answers) ms s) :
    ∀ m ∈ ms, m.label.arriving ≠ [] →
      ∃ now, ServedConnection.Callback srv m.pre m.label m.post now := by
  intro m hm hne
  obtain ⟨hs, hstep⟩ := move_sound h m hm
  rcases hstep.observed hs with hquiet | hcallback
  · exact absurd hquiet.arriving hne
  · exact hcallback

theorem arriving_of_seen {m : Move ServedConnection ConnectionLabel}
    (h : srv.seen m ≠ .nothing) : m.label.arriving ≠ [] := fun hnil => h (if_pos hnil)

theorem run_balance (h : Run (servedConnection srv fd answers) ms s) :
    srv.responses ms =
        (srv.dispatches ms).length + (if ∃ m ∈ ms, srv.ParseError m then 1 else 0) ∧
      ((∃ m ∈ ms, srv.ParseError m) → s.Shut) := by
  refine Run.history (I := fun ms s => srv.responses ms =
      (srv.dispatches ms).length + (if ∃ m ∈ ms, srv.ParseError m then 1 else 0) ∧
    ((∃ m ∈ ms, srv.ParseError m) → s.Shut)) ?_ ?_ h
  · rintro s rfl
    refine ⟨rfl, ?_⟩
    rintro ⟨m, hm, -⟩
    cases hm
  · rintro ms s l t hr ⟨hbalance, hshut⟩ hstep
    have hs := run_sound hr
    have hstep := ServedConnection.step_cases hstep
    have hresponses : srv.responses (ms ++ [⟨s, l, t⟩]) =
        srv.responses ms + (srv.observe s l).calls.countP Operation.isSend := by
      simp [HttpServer.responses]
    have herrors : (∃ m ∈ ms ++ [⟨s, l, t⟩], srv.ParseError m) ↔
        (∃ m ∈ ms, srv.ParseError m) ∨ (srv.observe s l).parsed = some false := by
      simp [HttpServer.ParseError]
    rw [hresponses, dispatches_snoc, List.length_append, hbalance]
    simp only [herrors]
    by_cases herror : ∃ m ∈ ms, srv.ParseError m
    · obtain ⟨hshut', hnothing⟩ := hstep.shut hs (hshut herror)
      simp only [hnothing, herror, true_or, if_true]
      exact ⟨rfl, fun _ => hshut'⟩
    · simp only [herror, false_or, if_false]
      rcases hstep.observed hs with hquiet | ⟨now, hcallback⟩
      · have hnothing : srv.seen ⟨s, l, t⟩ = .nothing := hquiet.observe
        rw [hquiet.observe, hnothing]
        exact ⟨rfl, by rintro ⟨⟩⟩
      · have hbalanced := hcallback.effect.balanced
        unfold Report.Balanced at hbalanced
        constructor
        · show _ = (srv.dispatches ms).length + (srv.observe s l).dispatched.toList.length + _
          omega
        · intro hfalse
          have hclosing : .sendCString badRequest ∈ (srv.observe s l).calls := by
            rw [(hcallback.effect.rejection hfalse).1]
            exact List.mem_cons_self
          exact ⟨by rw [hcallback.post]; rintro ⟨⟩,
            fun _ => (hcallback.effect.closing (Or.inl hclosing)).2⟩

/-- **A closing answer is the last one.** -/
theorem closing_answer_last (h : Run (servedConnection srv fd answers) ms s) :
    ClosingAnswerLast srv ms where
  seen := by
    intro m hm hne
    obtain ⟨now, hcallback⟩ := move_callback h m hm hne
    exact ⟨now, hcallback.label, hcallback.call, hcallback.effect.sameWrite.afterRead⟩
  carried := by
    intro m hm hcalls
    obtain ⟨hs, hstep⟩ := move_sound h m hm
    obtain ⟨now, hcallback⟩ := move_callback h m hm
      (arriving_of_seen (by intro hseen; rw [hseen] at hcalls; exact hcalls rfl))
    rcases hs.up hcallback.pre with hup | hup
    · exact hup
    · have hshut : m.pre.Shut := ⟨by rw [hcallback.pre]; rintro ⟨⟩, fun _ => hup⟩
      exact absurd (congrArg Report.calls (hstep.shut hs hshut).2) hcalls
  balance := (run_balance h).1
  rejection := by
    intro m hm herror
    have hseen : srv.seen m ≠ .nothing := by
      intro hseen
      rw [HttpServer.ParseError, hseen] at herror
      cases herror
    obtain ⟨now, hcallback⟩ := move_callback h m hm (arriving_of_seen hseen)
    exact hcallback.effect.rejection herror
  last := by
    intro before m after hms hclosing
    have hm : m ∈ ms := hms ▸ List.mem_append_right _ List.mem_cons_self
    have hseen : srv.seen m ≠ .nothing := by
      intro hseen
      rw [HttpServer.SendsClosing, hseen] at hclosing
      rcases hclosing with hclosing | ⟨_, hclosing, -⟩ <;> cases hclosing
    obtain ⟨now, hcallback⟩ := move_callback h m hm (arriving_of_seen hseen)
    obtain ⟨hcall, hstate⟩ := hcallback.effect.closing hclosing
    refine ⟨hcall, ?_⟩
    have hpost : m.post.Shut := ⟨by rw [hcallback.post]; rintro ⟨⟩, fun _ => hstate⟩
    -- from then on the connection stays shut
    have hpre := h.since_pre hms (I := fun t => t.Sound ∧ t.Shut)
      ⟨(move_sound h m hm).2.sound (move_sound h m hm).1, hpost⟩ ?_
    · intro x hx
      have hx' : x ∈ ms := hms ▸ List.mem_append_right _ (List.mem_cons_of_mem _ hx)
      obtain ⟨hs, hstep⟩ := move_sound h x hx'
      obtain ⟨-, hnothing⟩ := hstep.shut hs (hpre x hx).2
      refine ⟨hnothing, fun hne => ?_⟩
      obtain ⟨now, hlater⟩ := move_callback h x hx' hne
      have hwrite := hlater.effect.sameWrite.afterRead
      rw [hnothing] at hwrite
      exact hwrite
    · rintro x - ⟨hs, hshut⟩ hnext
      have hstep := ServedConnection.step_cases hnext
      exact ⟨hstep.sound hs, (hstep.shut hs hshut).1⟩
  own := by
    obtain ⟨segments, pending, hreceived, hdecodes, -⟩ := run_segmented h
    exact ⟨segments, pending, hreceived, hdecodes.imp fun _ _ => Decodes.named⟩

end

/-- A request, a bad request line and another request: two responses, the second
of them the last. -/
theorem closing_answer_last_rejected :
    let srv : HttpServer := ⟨false, fun _ response => { response with statusCode := 200 }, 0⟩
    ∃ ms s, Run (servedConnection srv 5 fun _ => .full) ms s ∧
      receivedBytes ms = ascii "GET / HTTP/1.1\r\n\r\nx\r\nGET / HTTP/1.1\r\n\r\n" ∧
      srv.responses ms = 2 ∧ (srv.dispatches ms).length = 1 ∧ ClosingAnswerLast srv ms := by
  intro srv
  have hrun : ((moves (ServedConnection.step srv) (.new 5 fun _ => .full)
      [.connectionEstablished, .handleMessage ⟨1⟩ (.data (ascii "GET / HTTP/1.1\r\n\r\n")),
        .handleMessage ⟨2⟩ (.data (ascii "x\r\n")),
        .handleMessage ⟨3⟩ (.data (ascii "GET / HTTP/1.1\r\n\r\n"))]).any fun p =>
      receivedBytes p.1 = ascii "GET / HTTP/1.1\r\n\r\nx\r\nGET / HTTP/1.1\r\n\r\n" ∧
        srv.responses p.1 = 2 ∧ (srv.dispatches p.1).length = 1) = true := by
    decide +kernel
  obtain ⟨p, hp, hseen⟩ := (Option.any_eq_true _ _).mp hrun
  obtain ⟨hreceived, hresponses, hdispatches⟩ := of_decide_eq_true hseen
  have h := (Run.start (T := servedConnection srv 5 fun _ => .full) rfl).moves _ hp
  exact ⟨_, _, h, hreceived, hresponses, hdispatches, closing_answer_last h⟩

end TinyMuduo

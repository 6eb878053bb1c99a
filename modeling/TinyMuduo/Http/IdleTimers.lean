import TinyMuduo.Http.ClosingAnswer
import TinyMuduo.Timer.TimerDelays
import TinyMuduo.Timer.TimerPending

/-!
# Idle connections and their timers

The connections of a server together with the timer queue of its loop. The
callback of an idle timer is `HandleIdleConnection` bound to a weak pointer, so a
timer stands for a connection that may be gone when it goes off. A callback is
one step; its readings of the clock are not before those of the step before it.
-/

namespace TinyMuduo

open Transition

/-- `loop_`, the connections by their number, and what the idle timers are bound
to. `alive` tells which weak pointers can be locked. -/
structure IdleServer where
  timers : ClockedState
  bound : TimerPtr → Option ℕ
  connections : ℕ → ServedConnection
  alive : ℕ → Bool

/-- The calls of a connection other than the two that set idle timers. -/
def ConnectionLabel.isServing : ConnectionLabel → Bool
  | .connectionEstablished => false
  | .handleIdleConnection _ => false
  | _ => true

def ConnectionLabel.reading : ConnectionLabel → Option Timestamp
  | .handleMessage now _ => some now
  | .handleIdleConnection now => some now
  | _ => none

/-- `called` is the reading of `RunAfter`, and `now` the one behind it. -/
inductive IdleLabel where
  /-- A step of `loop_` that is not the callback of an idle timer. -/
  | timer (l : TimerLabel) (now : Timestamp)
  /-- The callback of the next timer, when that is an idle timer. -/
  | handleIdleConnection (checked called now : Timestamp) (address : ℕ)
  /-- `ConnectionEstablished` and `ConnectionCallback`, in `loop_` or another loop. -/
  | connectionEstablished (c : ℕ) (called now : Timestamp) (address : ℕ) (inLoop : Bool)
  | connection (c : ℕ) (l : ConnectionLabel) (now : Timestamp)
  /-- The last reference to the connection goes. -/
  | destroyed (c : ℕ)

/-- The idle timer finds that the connection has been idle for too long. -/
def Session.Idle (s : Session) (now : Timestamp) : Prop :=
  (s.conn.timestamp.addTime kIdleConnectionTimeOuts).microSeconds < now.microSeconds

instance (s : Session) (now : Timestamp) : Decidable (s.Idle now) := by
  unfold Session.Idle
  infer_instance

namespace IdleServer

/-- The connection that the next timer is bound to. -/
def nextBound (s : IdleServer) : Option ℕ := s.timers.1.upNext.bind s.bound

def withConnection (s : IdleServer) (c : ℕ) (served : ServedConnection) : IdleServer :=
  { s with connections := Function.update s.connections c served }

@[simp] theorem connections_withConnection (s : IdleServer) (c : ℕ) (served : ServedConnection) :
    (s.withConnection c served).connections c = served :=
  Function.update_self ..

theorem connections_withConnection_ne (s : IdleServer) {c c' : ℕ} (served : ServedConnection)
    (h : c' ≠ c) : (s.withConnection c served).connections c' = s.connections c' :=
  Function.update_of_ne h ..

def stepTimers (s : IdleServer) (l : TimerLabel) (now : Timestamp) : Option IdleServer :=
  (s.timers.step (l, now)).map fun timers => { s with timers := timers }

/-- `loop_->RunAfter(kIdleConnectionTimeOuts, ...)` with the connection in the callback. -/
def runAfter (s : IdleServer) (c : ℕ) (called now : Timestamp) (address : ℕ) (inLoop : Bool) :
    Option IdleServer :=
  if s.timers.2.microSeconds ≤ called.microSeconds ∧ called.microSeconds ≤ now.microSeconds then
    (s.timers.step (.runAfter kIdleConnectionTimeOuts called address
      (if inLoop then some now else none), now)).map fun timers =>
        { s with
          timers := timers
          bound := fun p =>
            if p.id = s.timers.1.nextId ∧ p.address = address then some c else s.bound p }
  else none

def connectionCallback (srv : HttpServer) (s : IdleServer) (c : ℕ) (called now : Timestamp)
    (address : ℕ) (inLoop : Bool) : Option IdleServer :=
  if srv.autoCloseIdleConnection then s.runAfter c called now address inLoop else some s

/-- `HandleIdleConnection`, called by a timer that is bound to `c`: the calls it makes on
the connection, and the server it leaves. -/
def handleIdleConnection (s : IdleServer) (c : ℕ) (checked called now : Timestamp)
    (address : ℕ) : Option (List Operation × IdleServer) :=
  let served := s.connections c
  if s.alive c then
    if served.session.Idle checked then
      some ([.shutdown], s.withConnection c { served with session := served.session.shutdown })
    else (s.runAfter c called now address true).map fun s => ([], s)
  else some ([], s)

/-- The next timer is run, which is bound to a connection: that connection, the calls on
it, and the server behind the callback. -/
def runIdle (s : IdleServer) (checked called now : Timestamp) (address : ℕ) :
    Option (ℕ × List Operation × IdleServer) := do
  let c ← s.nextBound
  let s ← s.stepTimers .run checked
  let (calls, s) ← s.handleIdleConnection c checked called now address
  let s ← s.stepTimers .returned now
  return (c, calls, s)

def step (srv : HttpServer) (s : IdleServer) : IdleLabel → Option IdleServer
  | .timer l now =>
      if l = .run ∧ s.nextBound ≠ none then none else s.stepTimers l now
  | .handleIdleConnection checked called now address =>
      (s.runIdle checked called now address).map fun (_, _, s) => s
  | .connectionEstablished c called now address inLoop => do
      let served ← (s.connections c).step srv .connectionEstablished
      (s.withConnection c served).connectionCallback srv c called now address inLoop
  | .connection c l now =>
      if s.alive c ∧ l.isServing ∧ s.timers.2.microSeconds ≤ now.microSeconds ∧
          l.reading.getD now = now then
        ((s.connections c).step srv l).map fun served =>
          { s.withConnection c served with timers := (s.timers.1, now) }
      else none
  | .destroyed c =>
      if (s.connections c).stage = .removed then
        some { s with alive := Function.update s.alive c false }
      else none

end IdleServer

/-- Every run of a server with its connections, from a clock that reads anything. -/
def idleTimers (srv : HttpServer) (fd : ℕ → ℕ) (answers : ℕ → ℕ → WriteAnswer) :
    LTS IdleServer IdleLabel :=
  LTS.ofNext (fun s => s.timers.1 = TimerState.new ∧ (∀ p, s.bound p = none) ∧
    (∀ c, s.connections c = ServedConnection.new (fd c) (answers c)) ∧ ∀ c, s.alive c = true)
    (IdleServer.step srv)

/-! ## Who moves the timestamp -/

namespace Session

/-- What does not look at the read side leaves the timestamp alone. -/
theorem timestamp_of_withRead {f : Session → Session}
    (h : ∀ s c b time, f (withRead c b time s) = (f s).withRead c b time) (s : Session) :
    (f s).conn.timestamp = s.conn.timestamp := by
  have hsame : f s = (f s).withRead s.conn.content s.conn.inputBuffer s.conn.timestamp :=
    h s s.conn.content s.conn.inputBuffer s.conn.timestamp
  rw [hsame]
  rfl

theorem shutdown_timestamp (s : Session) : s.shutdown.conn.timestamp = s.conn.timestamp :=
  timestamp_of_withRead shutdown_withRead s

theorem send_timestamp (s : Session) (message : Bytes) :
    (s.send message).conn.timestamp = s.conn.timestamp :=
  timestamp_of_withRead (f := (send · message)) (send_withRead · · · · message) s

theorem sendBuffer_timestamp (s : Session) (buffer : Buffer) :
    (s.sendBuffer buffer).1.conn.timestamp = s.conn.timestamp :=
  timestamp_of_withRead (f := fun s => (s.sendBuffer buffer).1)
    (sendBuffer_withRead · · · · buffer) s

theorem sendString_timestamp (s : Session) (message : Bytes) :
    (s.sendString message).conn.timestamp = s.conn.timestamp := by
  unfold sendString
  split
  · rfl
  · exact s.send_timestamp message

end Session

namespace HttpServer

theorem dealWithRequest_timestamp (srv : HttpServer) (request : HttpRequest) (s : Session) :
    (srv.dealWithRequest request s).conn.timestamp = s.conn.timestamp := by
  unfold dealWithRequest
  simp only
  split
  · rw [Session.shutdown_timestamp, Session.sendBuffer_timestamp]
  · exact s.sendBuffer_timestamp _

/-- **`MessageCallback` stamps the connection**, whatever it does then. -/
theorem messageCallback_timestamp {srv : HttpServer} {now : Timestamp} {s t : Session}
    {request : Option HttpRequest} (hauto : srv.autoCloseIdleConnection = true)
    (h : srv.messageCallback now s = .ok (request, t)) : t.conn.timestamp = now := by
  have hstamp : (srv.stamp now s).conn.timestamp = now := by
    unfold stamp
    rw [if_pos hauto]
    rfl
  unfold messageCallback at h
  simp only at h
  split at h
  · obtain ⟨-, rfl⟩ := Prod.mk.inj (Except.ok.inj h)
    exact hstamp
  · rcases hparse : (srv.stamp now s).conn.content.parseContent (srv.stamp now s).conn.inputBuffer
      with f | ⟨parseok, c, b⟩
    · rw [hparse] at h
      cases h
    rw [hparse] at h
    simp only [bind, Except.bind, pure, Except.pure] at h
    have hread : ∀ s' : Session, s'.conn.timestamp = now →
        (if parseok then s' else (s'.sendCString badRequest).shutdown).conn.timestamp = now := by
      intro s' hs'
      split
      · exact hs'
      · rw [Session.shutdown_timestamp]
        exact (s'.send_timestamp _).trans hs'
    split at h
    · obtain ⟨-, rfl⟩ := Prod.mk.inj (Except.ok.inj h)
      exact (srv.dealWithRequest_timestamp c.request _).trans (hread _ hstamp)
    · obtain ⟨-, rfl⟩ := Prod.mk.inj (Except.ok.inj h)
      exact hread _ hstamp

end HttpServer

namespace ServedConnection

/-- **Only `MessageCallback` moves the timestamp.** -/
theorem Steps.timestamp {srv : HttpServer} {s t : ServedConnection} {l : ConnectionLabel}
    (hauto : srv.autoCloseIdleConnection = true) (h : Steps srv s l t) :
    t.session.conn.timestamp = s.session.conn.timestamp ∨
      ∃ bytes now, bytes ≠ [] ∧ l = .handleMessage now (.data bytes) ∧
        t.session.conn.timestamp = now := by
  cases h with
  | connectionEstablished _ => exact .inl rfl
  | @handleMessage now result request session hstage hcall =>
      cases HttpServer.handleMessage_cases hcall with
      | @callback bytes _ _ hne hcall =>
          exact .inr ⟨bytes, now, hne, rfl, HttpServer.messageCallback_timestamp hauto hcall⟩
      | endOfFile => exact .inl rfl
      | error => exact .inl rfl
  | handleWrite _ =>
      exact .inl (Session.timestamp_of_withRead Session.handleWrite_withRead s.session)
  | sendString _ => exact .inl (s.session.sendString_timestamp _)
  | sendBuffer _ => exact .inl (s.session.sendBuffer_timestamp _)
  | shutdown _ => exact .inl s.session.shutdown_timestamp
  | handleIdleConnection _ _ =>
      unfold HttpServer.handleIdleConnection
      split
      · exact .inl s.session.shutdown_timestamp
      · exact .inl rfl
  | connectionDestructor _ =>
      left
      show (destroy s.session).conn.timestamp = s.session.conn.timestamp
      unfold destroy TcpConnection.connectionDestructor
      by_cases hup : s.session.conn.state = .kDisconnecting ∨ s.session.conn.state = .kConnected
      · simp only [if_pos hup]
      · simp only [if_neg hup]

/-- A message is stamped with the time of its callback. -/
theorem Steps.timestamp_message {srv : HttpServer} {s t : ServedConnection} {now : Timestamp}
    {bytes : Bytes} (hauto : srv.autoCloseIdleConnection = true) (hne : bytes ≠ [])
    (h : Steps srv s (.handleMessage now (.data bytes)) t) :
    t.session.conn.timestamp = now := by
  cases h with
  | handleMessage hstage hcall =>
      cases HttpServer.handleMessage_cases hcall with
      | callback _ hcall => exact HttpServer.messageCallback_timestamp hauto hcall
      | endOfFile => exact absurd rfl hne

theorem Steps.stage {srv : HttpServer} {s t : ServedConnection} {l : ConnectionLabel}
    (h : Steps srv s l t) : t.stage ≠ .made ∧ (l.isServing → s.stage ≠ .made) := by
  cases h with
  | connectionEstablished _ => exact ⟨by rintro ⟨⟩, by rintro ⟨⟩⟩
  | handleMessage hstage _ =>
      refine ⟨?_, fun _ hmade => ?_⟩
      · unfold stageAfter
        split <;> rintro ⟨⟩
      · rw [hstage] at hmade
        cases hmade
  | handleWrite hstage =>
      have hmade : s.stage ≠ .made := by
        rcases hstage with hstage | hstage <;> rw [hstage] <;> rintro ⟨⟩
      exact ⟨hmade, fun _ => hmade⟩
  | sendString hstage => exact ⟨hstage, fun _ => hstage⟩
  | sendBuffer hstage => exact ⟨hstage, fun _ => hstage⟩
  | shutdown hstage => exact ⟨hstage, fun _ => hstage⟩
  | handleIdleConnection _ hstage => exact ⟨hstage, fun _ => hstage⟩
  | connectionDestructor hstage =>
      refine ⟨by rintro ⟨⟩, fun _ hmade => ?_⟩
      rcases hstage with hstage | hstage <;> rw [hstage] at hmade <;> cases hmade

end ServedConnection

/-! ## What a history shows -/

/-- The move is `ConnectionEstablished` of `c`, with this reading of the clock. -/
def Establishes (m : Move IdleServer IdleLabel) (c : ℕ) (time : Timestamp) : Prop :=
  ∃ now address inLoop, m.label = .connectionEstablished c time now address inLoop

/-- The move calls `MessageCallback` for `c`. -/
def Messages (m : Move IdleServer IdleLabel) (c : ℕ) (time : Timestamp) : Prop :=
  ∃ bytes now, bytes ≠ [] ∧ m.label = .connection c (.handleMessage time (.data bytes)) now

/-- The move is the `HandleIdleConnection` of a timer of `c`, which makes these calls. -/
def HandlesIdle (m : Move IdleServer IdleLabel) (c : ℕ) (time : Timestamp)
    (calls : List Operation) : Prop :=
  ∃ called now address, m.label = .handleIdleConnection time called now address ∧
    m.pre.runIdle time called now address = some (c, calls, m.post)

/-- The move is a `HandleIdleConnection` that calls `Shutdown` on `c`. -/
def ShutsIdle (m : Move IdleServer IdleLabel) (c : ℕ) (time : Timestamp) : Prop :=
  ∃ calls, HandlesIdle m c time calls ∧ .shutdown ∈ calls

namespace IdleServer

/-- The idle timers of a connection that are still to run. -/
def pendingOf (s : IdleServer) (c : ℕ) : List TimerPtr :=
  s.timers.1.pending.filter fun p => s.bound p = some c

/-- The idle timers are one-shot timers of the queue, of connections that have been
established. -/
structure Inv (s : IdleServer) : Prop where
  timers : s.timers.1.Inv
  suffix : s.timers.1.upcoming <:+ s.timers.1.inFlight
  ids : ∀ p c, s.bound p = some c → p.id < s.timers.1.nextId
  oneShot : ∀ p c, s.bound p = some c → ∀ timer, s.timers.1.heap.lookup p = some timer →
    timer.repeats = false
  made : ∀ p c, s.bound p = some c → (s.connections c).stage ≠ .made

/-! ## The steps of the queue -/

theorem stepTimers_cases {s t : IdleServer} {l : TimerLabel} {now : Timestamp}
    (h : s.stepTimers l now = some t) :
    ∃ timers, s.timers.Steps (l, now) timers ∧ t = { s with timers := timers } := by
  obtain ⟨timers, htimers, rfl⟩ := Option.map_eq_some_iff.mp h
  exact ⟨timers, ClockedState.step_cases htimers, rfl⟩

theorem Inv.of_timers {s : IdleServer} (hs : s.Inv) {timers : ClockedState} {l : ClockedLabel}
    (h : s.timers.Steps l timers) : Inv { s with timers := timers } where
  timers := h.timers.inv hs.timers
  suffix := h.timers.upcoming_suffix hs.suffix
  ids p c hp := lt_of_lt_of_le (hs.ids p c hp) h.timers.nextId_le
  oneShot p c hp timer' htimer' := by
    obtain ⟨timer, htimer, -, hrepeats⟩ := h.timers.lookup_old (hs.ids p c hp) htimer'
    exact hrepeats.trans (hs.oneShot p c hp timer htimer)
  made := hs.made

/-- **A step of the queue** takes an idle timer out when it runs it, and makes none. -/
theorem Inv.pendingOf_timers {s : IdleServer} (hs : s.Inv) {timers : ClockedState}
    {l : ClockedLabel} (h : s.timers.Steps l timers) (c : ℕ) :
    (s.pendingOf c).length = (pendingOf { s with timers := timers } c).length +
      if l.1 = .run ∧ s.nextBound = some c then 1 else 0 := by
  unfold pendingOf
  have hnot : ∀ p, s.bound p ≠ some c → ∀ ps : List TimerPtr,
      (p :: ps).filter (fun q => s.bound q = some c) = ps.filter fun q => s.bound q = some c := by
    intro p hp ps
    exact List.filter_cons_of_neg (by simpa using hp)
  obtain ⟨l, now⟩ := l
  cases h.timers.pending_case hs.timers with
  | @created _ p hl hfresh hperm =>
      have hne : s.bound p ≠ some c := fun hbound =>
        absurd hfresh.id (Nat.ne_of_lt (hs.ids p c hbound))
      rw [if_neg (fun hif => hl hif.1), (hperm.filter _).length_eq, hnot p hne]
      rfl
  | @ran p hp hperm =>
      rw [(hperm.filter _).length_eq]
      have hnext : s.nextBound = s.bound p := by rw [nextBound, hp, Option.bind_some]
      by_cases hbound : s.bound p = some c
      · rw [List.filter_cons_of_pos (by simpa using hbound), if_pos ⟨rfl, hnext.trans hbound⟩]
        rfl
      · rw [hnot p hbound, if_neg (fun hif => hbound (hnext.symm.trans hif.2))]
        rfl
  | @restarted p timer now htimer hrepeats hperm =>
      have hne : s.bound p ≠ some c := by
        intro hbound
        rw [hs.oneShot p c hbound timer htimer] at hrepeats
        cases hrepeats
      rw [if_neg (by rintro ⟨⟨⟩, -⟩), (hperm.filter _).length_eq, hnot p hne]
      rfl
  | same hl hperm =>
      rw [if_neg (fun hif => hl hif.1), (hperm.filter _).length_eq]
      rfl

/-! ## Setting an idle timer -/

/-- What `RunAfter` does for an idle timer: the timer is due in eight seconds. -/
structure SetsIdle (s : IdleServer) (c : ℕ) (called : Timestamp) (t : IdleServer) : Prop where
  called_le : s.timers.2.microSeconds ≤ called.microSeconds
  clock : called.microSeconds ≤ t.timers.2.microSeconds
  inv : (s.connections c).stage ≠ .made → t.Inv
  pendingOf : ∀ c', (t.pendingOf c').length = (s.pendingOf c').length + if c' = c then 1 else 0
  due : ∀ p c', t.bound p = some c' → s.bound p = some c' ∨
    c' = c ∧ ClockedState.NotBefore p (called.addTime kIdleConnectionTimeOuts) t.timers
  kept : ∀ p due, ClockedState.NotBefore p due s.timers → ClockedState.NotBefore p due t.timers
  connections : t.connections = s.connections
  alive : t.alive = s.alive

theorem bind_eq_update {s : IdleServer} {c address : ℕ} {p : TimerPtr}
    (hp : p.id = s.timers.1.nextId ∧ p.address = address) :
    (fun q : TimerPtr => if q.id = s.timers.1.nextId ∧ q.address = address then some c
      else s.bound q) = Function.update s.bound p (some c) := by
  funext q
  by_cases hq : q = p
  · rw [hq, Function.update_self, if_pos hp]
  · rw [Function.update_of_ne hq, if_neg]
    rintro ⟨hid, haddress⟩
    exact hq (TimerState.eq_of_touches hp.1 ⟨hid, haddress.trans hp.2.symm⟩)

theorem length_filter_bound {bound : TimerPtr → Option ℕ} {p : TimerPtr} {ps qs : List TimerPtr}
    (hp : p ∉ ps) (hperm : qs.Perm (p :: ps)) (c c' : ℕ) :
    (qs.filter fun q => Function.update bound p (some c) q = some c').length =
      (ps.filter fun q => bound q = some c').length + if c' = c then 1 else 0 := by
  have hsame : (ps.filter fun q => Function.update bound p (some c) q = some c') =
      ps.filter fun q => bound q = some c' := by
    apply List.filter_congr
    intro q hq
    rw [Function.update_of_ne (ne_of_mem_of_not_mem hq hp)]
  rw [(hperm.filter _).length_eq, List.filter_cons, hsame, Function.update_self]
  by_cases hc : c' = c
  · simp [hc]
  · simp [hc, Ne.symm hc]

/-- **`RunAfter` with a connection in its callback.** -/
theorem runAfter_spec {s t : IdleServer} (hs : s.Inv) {c : ℕ} {called now : Timestamp}
    {address : ℕ} {inLoop : Bool} (h : s.runAfter c called now address inLoop = some t) :
    s.SetsIdle c called t := by
  obtain ⟨⟨hcalled, hnow⟩, h⟩ := Option.ite_none_right_eq_some.mp h
  obtain ⟨timers, htimers, rfl⟩ := Option.map_eq_some_iff.mp h
  have hsteps := ClockedState.step_cases htimers
  obtain ⟨p, htouches, hfresh, hperm⟩ := hsteps.timers.pending_add hs.timers
  have hclock : timers.2 = now := hsteps.time
  have hself : p.id = s.timers.1.nextId ∧ p.address = address := by
    cases inLoop <;> exact htouches
  rw [bind_eq_update hself]
  have hp : Function.update s.bound p (some c) p = some c := Function.update_self ..
  have hothers : ∀ q, q ≠ p → Function.update s.bound p (some c) q = s.bound q :=
    fun q hq => Function.update_of_ne hq ..
  obtain ⟨hdue, hnew⟩ := ClockedState.notBefore_add (c := timers.2) hs.timers hs.suffix
    hsteps.timers htouches fun hpos => absurd hpos (lt_irrefl 0)
  have hrest := hs.of_timers hsteps
  refine ⟨hcalled, hclock ▸ hnow, ?_, ?_, ?_, ?_, rfl, rfl⟩
  · intro hstage
    refine ⟨hrest.timers, hrest.suffix, ?_, ?_, ?_⟩
    · intro q c' hq
      by_cases heq : q = p
      · exact heq ▸ hdue.id
      · exact hrest.ids q c' ((hothers q heq).symm.trans hq)
    · intro q c' hq timer htimer
      by_cases heq : q = p
      · subst heq
        rw [hnew timer htimer]
        rfl
      · exact hrest.oneShot q c' ((hothers q heq).symm.trans hq) timer htimer
    · intro q c' hq
      by_cases heq : q = p
      · subst heq
        obtain rfl : c = c' := Option.some.inj (hp.symm.trans hq)
        exact hstage
      · exact hrest.made q c' ((hothers q heq).symm.trans hq)
  · have hout : p ∉ s.timers.1.pending := fun hmem =>
      hfresh.notMem (hs.timers.pending_mem hs.suffix hmem)
    exact length_filter_bound hout hperm c
  · intro q c' hq
    by_cases heq : q = p
    · subst heq
      obtain rfl : c = c' := Option.some.inj (hp.symm.trans hq)
      exact .inr ⟨rfl, hdue⟩
    · exact .inl ((hothers q heq).symm.trans hq)
  · intro q due hq
    exact hsteps.notBefore hs.timers hq

/-! ## The steps of the server -/

/-- The ways through `HandleIdleConnection`: the calls it makes, and the server behind it. -/
inductive Fires (s : IdleServer) (checked called now : Timestamp) (address c : ℕ) :
    List Operation → IdleServer → Prop where
  /-- The connection is gone. -/
  | forgotten {timers timers' : ClockedState}
      (hbound : s.nextBound = some c) (hrun : s.timers.Steps (.run, checked) timers)
      (halive : s.alive c = false) (hreturn : timers.Steps (.returned, now) timers') :
      Fires s checked called now address c [] { s with timers := timers' }
  | shut {timers timers' : ClockedState}
      (hbound : s.nextBound = some c) (hrun : s.timers.Steps (.run, checked) timers)
      (halive : s.alive c = true) (hidle : (s.connections c).session.Idle checked)
      (hreturn : timers.Steps (.returned, now) timers') :
      Fires s checked called now address c [.shutdown]
        { s.withConnection c { s.connections c with session := (s.connections c).session.shutdown }
          with timers := timers' }
  | again {timers timers' : ClockedState} {u : IdleServer}
      (hbound : s.nextBound = some c) (hrun : s.timers.Steps (.run, checked) timers)
      (halive : s.alive c = true) (hidle : ¬ (s.connections c).session.Idle checked)
      (hset : runAfter { s with timers := timers } c called now address true = some u)
      (hreturn : u.timers.Steps (.returned, now) timers') :
      Fires s checked called now address c [] { u with timers := timers' }

theorem runIdle_cases {s t : IdleServer} {checked called now : Timestamp} {address c : ℕ}
    {calls : List Operation} (h : s.runIdle checked called now address = some (c, calls, t)) :
    Fires s checked called now address c calls t := by
  obtain ⟨c', hbound, h⟩ := Option.bind_eq_some_iff.mp h
  obtain ⟨s₁, hrun, h⟩ := Option.bind_eq_some_iff.mp h
  obtain ⟨⟨calls', s₂⟩, hhandle, h⟩ := Option.bind_eq_some_iff.mp h
  obtain ⟨s₃, hreturn, h⟩ := Option.bind_eq_some_iff.mp h
  obtain ⟨timers, htimers, rfl⟩ := stepTimers_cases hrun
  obtain ⟨timers', hreturn', rfl⟩ := stepTimers_cases hreturn
  cases h
  unfold handleIdleConnection at hhandle
  simp only at hhandle
  split_ifs at hhandle with halive hidle
  · cases hhandle
    exact .shut hbound htimers halive hidle hreturn'
  · obtain ⟨u, hset, hu⟩ := Option.map_eq_some_iff.mp hhandle
    cases hu
    exact .again hbound htimers halive hidle hset hreturn'
  · cases hhandle
    exact .forgotten hbound htimers (Bool.eq_false_iff.mpr halive) hreturn'

/-- What a step of the server does, in the terms of its timers and connections. -/
inductive Steps (srv : HttpServer) (s : IdleServer) : IdleLabel → IdleServer → Prop where
  | timer {l : TimerLabel} {now : Timestamp} {timers : ClockedState}
      (hrun : l = .run → s.nextBound = none) (h : s.timers.Steps (l, now) timers) :
      Steps srv s (.timer l now) { s with timers := timers }
  | idle {checked called now : Timestamp} {address c : ℕ} {calls : List Operation}
      {t : IdleServer} (hcalls : s.runIdle checked called now address = some (c, calls, t)) :
      Steps srv s (.handleIdleConnection checked called now address) t
  | established {c : ℕ} {called now : Timestamp} {address : ℕ} {inLoop : Bool}
      {served : ServedConnection} {u : IdleServer} (hmade : (s.connections c).stage = .made)
      (h : (s.connections c).Steps srv .connectionEstablished served)
      (hset : (s.withConnection c served).connectionCallback srv c called now address inLoop =
        some u) :
      Steps srv s (.connectionEstablished c called now address inLoop) u
  | connection {c : ℕ} {l : ConnectionLabel} {now : Timestamp} {served : ServedConnection}
      (halive : s.alive c = true) (hserving : l.isServing = true)
      (hnow : s.timers.2.microSeconds ≤ now.microSeconds)
      (hreading : ∀ time ∈ l.reading, time = now)
      (h : (s.connections c).Steps srv l served) :
      Steps srv s (.connection c l now)
        { s.withConnection c served with timers := (s.timers.1, now) }
  | destroyed {c : ℕ} (h : (s.connections c).stage = .removed) :
      Steps srv s (.destroyed c) { s with alive := Function.update s.alive c false }

theorem step_cases {srv : HttpServer} {s t : IdleServer} {l : IdleLabel}
    (h : s.step srv l = some t) : Steps srv s l t := by
  cases l with
  | timer l now =>
      obtain ⟨hnot, h⟩ := Option.ite_none_left_eq_some.mp h
      obtain ⟨timers, htimers, rfl⟩ := stepTimers_cases h
      refine .timer ?_ htimers
      intro hrun
      by_contra hbound
      exact hnot ⟨hrun, hbound⟩
  | handleIdleConnection checked called now address =>
      obtain ⟨⟨c, calls, t⟩, hcalls, rfl⟩ := Option.map_eq_some_iff.mp h
      exact .idle hcalls
  | connectionEstablished c called now address inLoop =>
      obtain ⟨served, hserved, h⟩ := Option.bind_eq_some_iff.mp h
      have hsteps := ServedConnection.step_cases hserved
      have hmade : (s.connections c).stage = .made := by
        cases hsteps with
        | connectionEstablished hmade => exact hmade
      exact .established hmade hsteps h
  | connection c l now =>
      obtain ⟨⟨halive, hserving, hnow, hreading⟩, h⟩ := Option.ite_none_right_eq_some.mp h
      obtain ⟨served, hserved, rfl⟩ := Option.map_eq_some_iff.mp h
      refine .connection halive hserving hnow ?_ (ServedConnection.step_cases hserved)
      intro time htime
      rw [Option.mem_def.mp htime] at hreading
      exact hreading
  | destroyed c =>
      obtain ⟨hstage, h⟩ := Option.ite_none_right_eq_some.mp h
      exact Option.some.inj h ▸ .destroyed hstage

/-! ### The idle timers stay what they are -/

theorem Inv.of_same {s t : IdleServer} (hs : s.Inv) (htimers : t.timers.1 = s.timers.1)
    (hbound : t.bound = s.bound)
    (hmade : ∀ c, (s.connections c).stage ≠ .made → (t.connections c).stage ≠ .made) : t.Inv where
  timers := htimers ▸ hs.timers
  suffix := htimers ▸ hs.suffix
  ids := by
    rw [htimers, hbound]
    exact hs.ids
  oneShot := by
    rw [htimers, hbound]
    exact hs.oneShot
  made p c hp := hmade c (hs.made p c (hbound ▸ hp))

theorem stage_withConnection {s : IdleServer} {c : ℕ} {served : ServedConnection}
    (hstage : (s.connections c).stage ≠ .made → served.stage ≠ .made) (c' : ℕ)
    (h : (s.connections c').stage ≠ .made) :
    ((s.withConnection c served).connections c').stage ≠ .made := by
  by_cases heq : c' = c
  · subst heq
    rw [connections_withConnection]
    exact hstage h
  · rw [connections_withConnection_ne _ _ heq]
    exact h

theorem nextBound_mem {s : IdleServer} {c : ℕ} (h : s.nextBound = some c) :
    ∃ p, s.timers.1.upNext = some p ∧ s.bound p = some c := by
  obtain ⟨p, hp, hbound⟩ := Option.bind_eq_some_iff.mp h
  exact ⟨p, hp, hbound⟩

/-- A connection that an idle timer is bound to has been established. -/
theorem Inv.stage_nextBound {s : IdleServer} (hs : s.Inv) {c : ℕ} (h : s.nextBound = some c) :
    (s.connections c).stage ≠ .made := by
  obtain ⟨p, -, hbound⟩ := nextBound_mem h
  exact hs.made p c hbound

theorem established_sets {srv : HttpServer} (hauto : srv.autoCloseIdleConnection = true)
    {s t : IdleServer} (hs : s.Inv) {c : ℕ} {called now : Timestamp} {address : ℕ} {inLoop : Bool}
    {served : ServedConnection} (h : (s.connections c).Steps srv .connectionEstablished served)
    (hset : (s.withConnection c served).connectionCallback srv c called now address inLoop =
      some t) :
    (s.withConnection c served).Inv ∧ (s.withConnection c served).SetsIdle c called t ∧ t.Inv := by
  have hserved : (s.withConnection c served).Inv :=
    hs.of_same rfl rfl (stage_withConnection fun _ => h.stage.1)
  rw [connectionCallback, if_pos hauto] at hset
  have hsets := runAfter_spec hserved hset
  refine ⟨hserved, hsets, hsets.inv ?_⟩
  rw [connections_withConnection]
  exact h.stage.1

theorem again_sets {s t : IdleServer} (hs : s.Inv) {c : ℕ} {checked called now : Timestamp}
    {address : ℕ} {timers : ClockedState} (hbound : s.nextBound = some c)
    (hrun : s.timers.Steps (.run, checked) timers)
    (hset : runAfter { s with timers := timers } c called now address true = some t) :
    SetsIdle { s with timers := timers } c called t ∧ t.Inv := by
  have hsets := runAfter_spec (hs.of_timers hrun) hset
  exact ⟨hsets, hsets.inv (hs.stage_nextBound hbound)⟩

theorem Steps.inv {srv : HttpServer} (hauto : srv.autoCloseIdleConnection = true)
    {s t : IdleServer} {l : IdleLabel} (h : Steps srv s l t) (hs : s.Inv) : t.Inv := by
  cases h with
  | timer _ h => exact hs.of_timers h
  | idle hcalls =>
      cases runIdle_cases hcalls with
      | forgotten _ hrun _ hreturn => exact (hs.of_timers hrun).of_timers hreturn
      | shut _ hrun _ _ hreturn =>
          refine ((hs.of_timers hrun).of_timers hreturn).of_same rfl rfl ?_
          exact stage_withConnection fun hstage => hstage
      | again hbound hrun _ _ hset hreturn =>
          exact (again_sets hs hbound hrun hset).2.of_timers hreturn
  | established _ h hset => exact (established_sets hauto hs h hset).2.2
  | connection _ _ _ _ h =>
      exact hs.of_same rfl rfl (stage_withConnection fun _ => h.stage.1)
  | destroyed _ => exact hs.of_same rfl rfl fun _ hstage => hstage

/-! ### One pending timer -/

theorem not_next {s : IdleServer} {c c' : ℕ} (hbound : s.nextBound = some c') (hne : c' ≠ c) :
    ¬ (TimerLabel.run = .run ∧ s.nextBound = some c) := by
  rintro ⟨-, hnext⟩
  exact hne (Option.some.inj (hbound.symm.trans hnext))

/-- **One step** keeps the one idle timer of a connection, unless it shuts it down. -/
theorem Steps.pendingOf {srv : HttpServer} (hauto : srv.autoCloseIdleConnection = true)
    {s t : IdleServer} {l : IdleLabel} (h : Steps srv s l t) (hs : s.Inv) {c : ℕ}
    (halive : t.alive c = true) (hstage : (t.connections c).stage ≠ .made)
    (hshut : ∀ time, ¬ ShutsIdle ⟨s, l, t⟩ c time)
    (ih : s.alive c = true → (s.connections c).stage ≠ .made → (s.pendingOf c).length = 1) :
    (t.pendingOf c).length = 1 := by
  cases h with
  | @timer l now timers hrun h =>
      have hcount := hs.pendingOf_timers h c
      rw [if_neg, ih halive hstage] at hcount
      · omega
      · rintro ⟨hl, hbound⟩
        rw [hrun hl] at hbound
        cases hbound
  | @idle checked called now address c₀ calls t hcalls =>
      cases runIdle_cases hcalls with
      | @forgotten timers timers' hbound hrun hdead hreturn =>
          have hne : c₀ ≠ c := by
            rintro rfl
            exact absurd (halive.symm.trans hdead) (by decide)
          have hfirst := hs.pendingOf_timers hrun c
          have hlast := (hs.of_timers hrun).pendingOf_timers hreturn c
          rw [if_neg (not_next hbound hne), ih halive hstage] at hfirst
          rw [if_neg (by rintro ⟨⟨⟩, -⟩)] at hlast
          exact (hfirst.trans hlast).symm
      | @shut timers timers' hbound hrun halive₀ hidle hreturn =>
          have hne : c₀ ≠ c := by
            rintro rfl
            exact hshut checked ⟨_, ⟨called, now, address, rfl, hcalls⟩, List.mem_singleton_self _⟩
          have hsame := s.connections_withConnection_ne { s.connections c₀ with
            session := (s.connections c₀).session.shutdown } hne.symm
          have hfirst := hs.pendingOf_timers hrun c
          have hlast := (hs.of_timers hrun).pendingOf_timers hreturn c
          rw [if_neg (not_next hbound hne), ih halive (hsame ▸ hstage)] at hfirst
          rw [if_neg (by rintro ⟨⟨⟩, -⟩)] at hlast
          exact (hfirst.trans hlast).symm
      | @again timers timers' u hbound hrun halive₀ hidle hset hreturn =>
          obtain ⟨hsets, hu⟩ := again_sets hs hbound hrun hset
          have hfirst := hs.pendingOf_timers hrun c
          have hmiddle := hsets.pendingOf c
          have hlast := hu.pendingOf_timers hreturn c
          rw [ih (hsets.alive ▸ halive) (hsets.connections ▸ hstage)] at hfirst
          rw [if_neg (by rintro ⟨⟨⟩, -⟩)] at hlast
          refine hlast.symm.trans (hmiddle.trans ?_)
          by_cases heq : c = c₀
          · rw [if_pos ⟨rfl, heq ▸ hbound⟩] at hfirst
            rw [if_pos heq]
            exact hfirst.symm
          · rw [if_neg (not_next hbound (Ne.symm heq))] at hfirst
            rw [if_neg heq]
            exact hfirst.symm
  | @established c₀ called now address inLoop served u hmade h hset =>
      obtain ⟨hserved, hsets, -⟩ := established_sets hauto hs h hset
      rw [hsets.pendingOf c]
      by_cases heq : c = c₀
      · subst heq
        have hnone : s.pendingOf c = [] := by
          apply List.filter_eq_nil_iff.mpr
          intro p _ hp
          exact hs.made p c (of_decide_eq_true hp) hmade
        have hsame : (s.withConnection c served).pendingOf c = s.pendingOf c := rfl
        rw [hsame, hnone, if_pos rfl]
        rfl
      · rw [if_neg heq]
        apply ih (hsets.alive ▸ halive)
        rw [hsets.connections, connections_withConnection_ne _ _ heq] at hstage
        exact hstage
  | @connection c₀ l now served halive₀ hserving hnow hreading h =>
      apply ih halive
      by_cases heq : c = c₀
      · exact heq ▸ h.stage.2 hserving
      · have hother := s.connections_withConnection_ne served heq
        exact hother ▸ hstage
  | @destroyed c₀ hremoved =>
      have hne : c ≠ c₀ := by
        rintro rfl
        have hdead : Function.update s.alive c false c = false := Function.update_self ..
        exact absurd (hdead.symm.trans halive) (by decide)
      have hother : Function.update s.alive c₀ false c = s.alive c := Function.update_of_ne hne ..
      exact ih (hother.symm.trans halive) hstage

end IdleServer

end TinyMuduo

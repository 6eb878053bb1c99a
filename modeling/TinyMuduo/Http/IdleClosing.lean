import TinyMuduo.Http.IdleTimers

/-!
# Idle closing

A connection is shut down by its idle timer only when it has been idle for eight
seconds: no timer bound to it goes off earlier than eight seconds after it was
established, and its timestamp, which is that of its last message, is compared
with the clock. Until then one idle timer is always pending (`idle_closing`).
-/

namespace TinyMuduo

open Transition

namespace IdleServer

/-- No idle timer of the connection goes off within eight seconds of `time`. -/
structure DueFrom (s : IdleServer) (c : ℕ) (time : Timestamp) : Prop where
  clock : time.microSeconds ≤ s.timers.2.microSeconds
  due : ∀ p, s.bound p = some c →
    ClockedState.NotBefore p (time.addTime kIdleConnectionTimeOuts) s.timers

/-! ## No idle timer is early -/

theorem Steps.forward {srv : HttpServer} {s t : IdleServer} {l : IdleLabel} (h : Steps srv s l t)
    (hauto : srv.autoCloseIdleConnection = true) (hs : s.Inv) :
    s.timers.2.microSeconds ≤ t.timers.2.microSeconds := by
  cases h with
  | timer _ h => exact h.forward
  | idle hcalls =>
      cases runIdle_cases hcalls with
      | forgotten _ hrun _ hreturn => exact le_trans hrun.forward hreturn.forward
      | shut _ hrun _ _ hreturn => exact le_trans hrun.forward hreturn.forward
      | again hbound hrun _ _ hset hreturn =>
          have hsets := (again_sets hs hbound hrun hset).1
          exact le_trans (le_trans hrun.forward (le_trans hsets.called_le hsets.clock)) hreturn.forward
  | established _ h hset =>
      have hsets := (established_sets hauto hs h hset).2.1
      exact le_trans hsets.called_le hsets.clock
  | connection _ _ hnow _ _ => exact hnow
  | destroyed _ => exact le_refl _

/-- The callback of a timer looks at the clock when the timer is run. -/
theorem Steps.checked_le {srv : HttpServer} {s t : IdleServer} {checked called now : Timestamp}
    {address : ℕ} (h : Steps srv s (.handleIdleConnection checked called now address) t) :
    s.timers.2.microSeconds ≤ checked.microSeconds := by
  have hchecked : ∀ timers, s.timers.Steps (.run, checked) timers →
      s.timers.2.microSeconds ≤ checked.microSeconds := by
    intro timers hrun
    have htime : timers.2 = checked := hrun.time
    exact htime ▸ hrun.forward
  cases h with
  | idle hcalls =>
      cases runIdle_cases hcalls with
      | forgotten _ hrun _ _ => exact hchecked _ hrun
      | shut _ hrun _ _ _ => exact hchecked _ hrun
      | again _ hrun _ _ _ _ => exact hchecked _ hrun

theorem Steps.begins {srv : HttpServer} (hauto : srv.autoCloseIdleConnection = true)
    {s t : IdleServer} {l : IdleLabel} (h : Steps srv s l t) (hs : s.Inv) {c : ℕ}
    (hmade : (s.connections c).stage = .made) (hstage : (t.connections c).stage ≠ .made) :
    ∃ called now address inLoop, l = .connectionEstablished c called now address inLoop := by
  have hother : ∀ c₀ served, c ≠ c₀ →
      ((s.withConnection c₀ served).connections c).stage = .made := by
    intro c₀ served hne
    rw [connections_withConnection_ne _ _ hne]
    exact hmade
  cases h with
  | timer _ _ => exact absurd hmade hstage
  | @idle checked called now address c₀ calls t hcalls =>
      cases runIdle_cases hcalls with
      | forgotten _ _ _ _ => exact absurd hmade hstage
      | @shut timers timers' hbound hrun halive hidle hreturn =>
          have hne : c ≠ c₀ := by
            rintro rfl
            exact hs.stage_nextBound hbound hmade
          exact absurd (hother c₀ _ hne) hstage
      | again hbound hrun _ _ hset _ =>
          have hsame := (again_sets hs hbound hrun hset).1.connections
          exact absurd ((congrArg (fun f => (f c).stage) hsame).trans hmade) hstage
  | @established c₀ called now address inLoop served u hmade₀ h hset =>
      by_cases heq : c = c₀
      · exact ⟨called, now, address, inLoop, by rw [heq]⟩
      · rw [(established_sets hauto hs h hset).2.1.connections] at hstage
        exact absurd (hother c₀ served heq) hstage
  | @connection c₀ l now served halive hserving hnow hreading h =>
      have hne : c ≠ c₀ := by
        rintro rfl
        exact h.stage.2 hserving hmade
      exact absurd (hother c₀ served hne) hstage
  | destroyed _ => exact absurd hmade hstage

theorem DueFrom.of_timers {s : IdleServer} {c : ℕ} {time : Timestamp} (hd : s.DueFrom c time)
    (hs : s.Inv) {timers : ClockedState} {l : ClockedLabel} (h : s.timers.Steps l timers) :
    DueFrom { s with timers := timers } c time where
  clock := le_trans hd.clock h.forward
  due p hp := h.notBefore hs.timers (hd.due p hp)

theorem DueFrom.of_sets {s t : IdleServer} {c c' : ℕ} {time called : Timestamp}
    (hd : s.DueFrom c time) (h : s.SetsIdle c' called t) : t.DueFrom c time where
  clock := le_trans hd.clock (le_trans h.called_le h.clock)
  due p hp := by
    rcases h.due p c hp with hold | ⟨-, hnew⟩
    · exact h.kept p _ (hd.due p hold)
    · exact hnew.mono (ClockedState.addTime_mono (le_trans hd.clock h.called_le) _)

theorem Steps.dueFrom {srv : HttpServer} (hauto : srv.autoCloseIdleConnection = true)
    {s t : IdleServer} {l : IdleLabel} (h : Steps srv s l t) (hs : s.Inv) {c : ℕ}
    {time : Timestamp} (hd : s.DueFrom c time) : t.DueFrom c time := by
  cases h with
  | timer _ h => exact hd.of_timers hs h
  | idle hcalls =>
      cases runIdle_cases hcalls with
      | forgotten _ hrun _ hreturn => exact (hd.of_timers hs hrun).of_timers (hs.of_timers hrun) hreturn
      | shut _ hrun _ _ hreturn =>
          have hlast := (hd.of_timers hs hrun).of_timers (hs.of_timers hrun) hreturn
          exact ⟨hlast.clock, hlast.due⟩
      | again hbound hrun _ _ hset hreturn =>
          obtain ⟨hsets, hu⟩ := again_sets hs hbound hrun hset
          exact ((hd.of_timers hs hrun).of_sets hsets).of_timers hu hreturn
  | @established c₀ called now address inLoop served u hmade h hset =>
      have hsets := (established_sets hauto hs h hset).2.1
      have hserved : DueFrom (s.withConnection c₀ served) c time := ⟨hd.clock, hd.due⟩
      exact hserved.of_sets hsets
  | connection _ _ hnow _ _ =>
      refine ⟨le_trans hd.clock hnow, ?_⟩
      intro p hp
      exact (hd.due p hp).of_same hnow (le_refl _) rfl id id
  | destroyed _ => exact ⟨hd.clock, hd.due⟩

/-- The first idle timer of a connection is due eight seconds after it is established. -/
theorem dueFrom_established {srv : HttpServer} (hauto : srv.autoCloseIdleConnection = true)
    {s t : IdleServer} {c : ℕ} {called now : Timestamp} {address : ℕ} {inLoop : Bool}
    (h : Steps srv s (.connectionEstablished c called now address inLoop) t) (hs : s.Inv) :
    t.DueFrom c called := by
  cases h with
  | established hmade h hset =>
      have hsets := (established_sets hauto hs h hset).2.1
      refine ⟨hsets.clock, ?_⟩
      intro p hp
      rcases hsets.due p c hp with hold | ⟨-, hnew⟩
      · exact absurd hmade (hs.made p c hold)
      · exact hnew

/-! ## The timestamp does not go back -/

/-- The connection had its last message at `time` or later. -/
structure StampedFrom (s : IdleServer) (c : ℕ) (time : Timestamp) : Prop where
  clock : time.microSeconds ≤ s.timers.2.microSeconds
  stamp : time.microSeconds ≤ (s.connections c).session.conn.timestamp.microSeconds

theorem stamp_withConnection {s : IdleServer} {c c₀ : ℕ} {served : ServedConnection}
    {time : Timestamp}
    (hold : time.microSeconds ≤ (s.connections c).session.conn.timestamp.microSeconds)
    (hnew : c = c₀ → time.microSeconds ≤ served.session.conn.timestamp.microSeconds) :
    time.microSeconds ≤
      ((s.withConnection c₀ served).connections c).session.conn.timestamp.microSeconds := by
  by_cases heq : c = c₀
  · rw [heq, connections_withConnection]
    exact hnew heq
  · rw [connections_withConnection_ne _ _ heq]
    exact hold

theorem Steps.stampedFrom {srv : HttpServer} (hauto : srv.autoCloseIdleConnection = true)
    {s t : IdleServer} {l : IdleLabel} (h : Steps srv s l t) (hs : s.Inv) {c : ℕ}
    {time : Timestamp} (hd : s.StampedFrom c time) : t.StampedFrom c time := by
  refine ⟨le_trans hd.clock (h.forward hauto hs), ?_⟩
  cases h with
  | timer _ _ => exact hd.stamp
  | idle hcalls =>
      cases runIdle_cases hcalls with
      | forgotten _ _ _ _ => exact hd.stamp
      | shut _ _ _ _ _ =>
          apply stamp_withConnection hd.stamp
          rintro rfl
          rw [Session.shutdown_timestamp]
          exact hd.stamp
      | @again timers timers' u hbound hrun halive hidle hset hreturn =>
          have hsame : u.connections = s.connections := (again_sets hs hbound hrun hset).1.connections
          show time.microSeconds ≤ (u.connections c).session.conn.timestamp.microSeconds
          rw [hsame]
          exact hd.stamp
  | @established c₀ called now address inLoop served u hmade h hset =>
      rw [(established_sets hauto hs h hset).2.1.connections]
      apply stamp_withConnection hd.stamp
      rintro rfl
      rcases h.timestamp hauto with hsame | ⟨_, _, _, hlabel, _⟩
      · rw [hsame]
        exact hd.stamp
      · cases hlabel
  | @connection c₀ l now served halive hserving hnow hreading h =>
      apply stamp_withConnection hd.stamp
      rintro rfl
      rcases h.timestamp hauto with hsame | ⟨bytes, time', _, rfl, hstamp⟩
      · rw [hsame]
        exact hd.stamp
      · rw [hstamp, hreading time' rfl]
        exact le_trans hd.clock hnow
  | destroyed _ => exact hd.stamp

theorem stampedFrom_message {srv : HttpServer} (hauto : srv.autoCloseIdleConnection = true)
    {s t : IdleServer} {c : ℕ} {time now : Timestamp} {bytes : Bytes} (hne : bytes ≠ [])
    (h : Steps srv s (.connection c (.handleMessage time (.data bytes)) now) t) :
    t.StampedFrom c time := by
  cases h with
  | @connection _ _ _ served halive hserving hnow hreading h =>
      obtain rfl : time = now := hreading time rfl
      refine ⟨le_refl _, ?_⟩
      have hstamp : ((s.withConnection c served).connections c).session.conn.timestamp = time := by
        rw [connections_withConnection]
        exact h.timestamp_message hauto hne
      exact le_of_eq (congrArg Timestamp.microSeconds hstamp.symm)

end IdleServer

/-! ## The calls of `HandleIdleConnection` -/

namespace IdleServer

/-- On a connection that still exists the calls do what `HandleIdleConnection` does to the
session in the runs of one connection. -/
theorem handleIdleConnection_session {s t : IdleServer} {c address : ℕ}
    {checked called now : Timestamp} {calls : List Operation}
    (h : s.handleIdleConnection c checked called now address = some (calls, t))
    (halive : s.alive c = true) :
    calls.foldl Session.perform (s.connections c).session =
      HttpServer.handleIdleConnection checked (s.connections c).session := by
  rw [handleIdleConnection, if_pos halive] at h
  rw [HttpServer.handleIdleConnection]
  by_cases hidle : (s.connections c).session.Idle checked
  · rw [if_pos hidle] at h
    rw [if_pos (show _ < _ from hidle)]
    cases h
    rfl
  · rw [if_neg hidle] at h
    rw [if_neg (show ¬ _ < _ from hidle)]
    obtain ⟨u, -, hu⟩ := Option.map_eq_some_iff.mp h
    cases hu
    rfl

/-- `Shutdown` is called only on a connection that has been idle for too long. -/
theorem Fires.idle {s t : IdleServer} {checked called now : Timestamp} {address c : ℕ}
    {calls : List Operation} (h : Fires s checked called now address c calls t)
    (hcall : .shutdown ∈ calls) :
    s.nextBound = some c ∧ (s.connections c).session.Idle checked := by
  cases h with
  | forgotten _ _ _ _ => exact absurd hcall List.not_mem_nil
  | shut hbound _ _ hidle _ => exact ⟨hbound, hidle⟩
  | again _ _ _ _ _ _ => exact absurd hcall List.not_mem_nil

/-- **What is called is done**, and nothing else happens to a connection. -/
theorem Fires.connections {s t : IdleServer} {checked called now : Timestamp} {address c : ℕ}
    {calls : List Operation} (h : Fires s checked called now address c calls t) (hs : s.Inv) :
    t.connections = Function.update s.connections c { s.connections c with
      session := calls.foldl Session.perform (s.connections c).session } := by
  cases h with
  | forgotten _ _ _ _ => exact (Function.update_eq_self c s.connections).symm
  | shut _ _ _ _ _ => rfl
  | again hbound hrun _ _ hset _ =>
      have hsame := (again_sets hs hbound hrun hset).1.connections
      exact hsame.trans (Function.update_eq_self c s.connections).symm

end IdleServer

theorem ShutsIdle.idle {m : Move IdleServer IdleLabel} {c : ℕ} {checked : Timestamp}
    (h : ShutsIdle m c checked) :
    (∃ called now address, m.label = .handleIdleConnection checked called now address) ∧
      m.pre.nextBound = some c ∧ (m.pre.connections c).session.Idle checked := by
  obtain ⟨calls, ⟨called, now, address, hlabel, hrun⟩, hcall⟩ := h
  exact ⟨⟨called, now, address, hlabel⟩, (IdleServer.runIdle_cases hrun).idle hcall⟩

theorem HandlesIdle.unique {m : Move IdleServer IdleLabel} {c c' : ℕ} {time time' : Timestamp}
    {calls calls' : List Operation} (h : HandlesIdle m c time calls)
    (h' : HandlesIdle m c' time' calls') : c = c' ∧ calls = calls' := by
  obtain ⟨called, now, address, hlabel, hrun⟩ := h
  obtain ⟨called', now', address', hlabel', hrun'⟩ := h'
  cases hlabel.symm.trans hlabel'
  cases hrun.symm.trans hrun'
  exact ⟨rfl, rfl⟩

/-! ## Runs -/

theorem addTime_idle (time : Timestamp) :
    (time.addTime kIdleConnectionTimeOuts).microSeconds = time.microSeconds + 8 * 10 ^ 6 := by
  have hfloor : toInt64 kIdleConnectionTimeOuts = 8 := by
    rw [kIdleConnectionTimeOuts, toInt64_eq_floor (by norm_num)]
    norm_num
  rw [Timestamp.addTime, hfloor]
  rfl

theorem run_idle_inv {srv : HttpServer} (hauto : srv.autoCloseIdleConnection = true)
    {fd : ℕ → ℕ} {answers : ℕ → ℕ → WriteAnswer} {ms : List (Move IdleServer IdleLabel)}
    {s : IdleServer} (h : Run (idleTimers srv fd answers) ms s) : s.Inv := by
  apply h.invariant
  · rintro s ⟨htimers, hbound, -, -⟩
    have hnone : ∀ p c, s.bound p ≠ some c := by
      intro p c hp
      rw [hbound p] at hp
      cases hp
    refine ⟨?_, ?_, fun p c hp => absurd hp (hnone p c), fun p c hp => absurd hp (hnone p c),
      fun p c hp => absurd hp (hnone p c)⟩
    · rw [htimers]
      exact TimerState.new_inv
    · rw [htimers]
      exact List.nil_suffix
  · intro s l t hs hstep
    exact (IdleServer.step_cases hstep).inv hauto hs

/-- An invariant of the server that a move of the run brings about holds before every
later move. -/
theorem idle_later {srv : HttpServer} (hauto : srv.autoCloseIdleConnection = true)
    {fd : ℕ → ℕ} {answers : ℕ → ℕ → WriteAnswer} {ms : List (Move IdleServer IdleLabel)}
    {s : IdleServer} (h : Run (idleTimers srv fd answers) ms s) {x m : Move IdleServer IdleLabel}
    (hlater : Later ms x m) {I : IdleServer → Prop} (hx : I x.post)
    (hstep : ∀ s l t, IdleServer.Steps srv s l t → s.Inv → I s → I t) : I m.pre := by
  refine (h.later (I := fun s => s.Inv ∧ I s) hlater ⟨?_, hx⟩ ?_).2
  · obtain ⟨⟨ms', hrun⟩, hmove⟩ := h.move x hlater.mem.1
    exact run_idle_inv hauto (hrun.next hmove)
  · intro s l t ⟨hs, hi⟩ hmove
    have hsteps := IdleServer.step_cases hmove
    exact ⟨hsteps.inv hauto hs, hstep s l t hsteps hs hi⟩

/-- **Eight seconds after it was established**, and not earlier, a timer goes off. -/
theorem idle_established {srv : HttpServer} (hauto : srv.autoCloseIdleConnection = true)
    {fd : ℕ → ℕ} {answers : ℕ → ℕ → WriteAnswer} {ms : List (Move IdleServer IdleLabel)}
    {s : IdleServer} (h : Run (idleTimers srv fd answers) ms s) {x m : Move IdleServer IdleLabel}
    {c : ℕ} {time checked : Timestamp} (hlater : Later ms x m) (hx : Establishes x c time)
    (hm : ShutsIdle m c checked) :
    (time.addTime kIdleConnectionTimeOuts).microSeconds ≤ checked.microSeconds := by
  obtain ⟨now, address, inLoop, hlabel⟩ := hx
  obtain ⟨⟨ms', hrun⟩, hmove⟩ := h.move x hlater.mem.1
  have hfirst := IdleServer.step_cases hmove
  rw [hlabel] at hfirst
  have hdue := idle_later hauto h hlater (I := fun s => s.DueFrom c time)
    (IdleServer.dueFrom_established hauto hfirst (run_idle_inv hauto hrun))
    fun s l t hsteps hs hd => hsteps.dueFrom hauto hs hd
  obtain ⟨⟨called, now', address', hlabel'⟩, hbound, -⟩ := hm.idle
  obtain ⟨p, hnext, hp⟩ := IdleServer.nextBound_mem hbound
  have hupcoming : p ∈ m.pre.timers.1.upcoming.map Prod.snd := TimerState.mem_upcoming hnext
  have hlast := IdleServer.step_cases (h.move m hlater.mem.2).2
  rw [hlabel'] at hlast
  exact le_trans ((hdue.due p hp).upcoming hupcoming) hlast.checked_le

/-- **Eight seconds after a message** the timestamp does not count as idle. -/
theorem idle_message {srv : HttpServer} (hauto : srv.autoCloseIdleConnection = true)
    {fd : ℕ → ℕ} {answers : ℕ → ℕ → WriteAnswer} {ms : List (Move IdleServer IdleLabel)}
    {s : IdleServer} (h : Run (idleTimers srv fd answers) ms s) {x m : Move IdleServer IdleLabel}
    {c : ℕ} {time checked : Timestamp} (hlater : Later ms x m) (hx : Messages x c time)
    (hm : ShutsIdle m c checked) :
    (time.addTime kIdleConnectionTimeOuts).microSeconds ≤ checked.microSeconds := by
  obtain ⟨bytes, now, hne, hlabel⟩ := hx
  have hfirst := IdleServer.step_cases (h.move x hlater.mem.1).2
  rw [hlabel] at hfirst
  have hstamp := idle_later hauto h hlater (I := fun s => s.StampedFrom c time)
    (IdleServer.stampedFrom_message hauto hne hfirst)
    fun s l t hsteps hs hd => hsteps.stampedFrom hauto hs hd
  obtain ⟨-, -, hidle⟩ := hm.idle
  exact le_trans (ClockedState.addTime_mono hstamp.stamp _) (le_of_lt hidle)

theorem idle_begun {srv : HttpServer} (hauto : srv.autoCloseIdleConnection = true)
    {fd : ℕ → ℕ} {answers : ℕ → ℕ → WriteAnswer} {ms : List (Move IdleServer IdleLabel)}
    {s : IdleServer} (h : Run (idleTimers srv fd answers) ms s) :
    ∀ c, (s.connections c).stage ≠ .made → ∃ x ∈ ms, ∃ time, Establishes x c time := by
  refine h.history (I := fun ms s => ∀ c, (s.connections c).stage ≠ .made →
    ∃ x ∈ ms, ∃ time, Establishes x c time) ?_ ?_
  · rintro s ⟨-, -, hnew, -⟩ c hstage
    rw [hnew c] at hstage
    exact absurd rfl hstage
  · intro ms s l t hrun ih hmove c hstage
    by_cases hmade : (s.connections c).stage = .made
    · obtain ⟨called, now, address, inLoop, hlabel⟩ :=
        (IdleServer.step_cases hmove).begins hauto (run_idle_inv hauto hrun) hmade hstage
      exact ⟨_, List.mem_append_right _ (List.mem_singleton_self _), called, now, address, inLoop,
        hlabel⟩
    · obtain ⟨x, hx, hestablished⟩ := ih c hmade
      exact ⟨x, List.mem_append_left _ hx, hestablished⟩

/-- **One idle timer**, until it shuts the connection down. -/
theorem idle_pending {srv : HttpServer} (hauto : srv.autoCloseIdleConnection = true)
    {fd : ℕ → ℕ} {answers : ℕ → ℕ → WriteAnswer} {ms : List (Move IdleServer IdleLabel)}
    {s : IdleServer} (h : Run (idleTimers srv fd answers) ms s) :
    ∀ c, s.alive c = true → (s.connections c).stage ≠ .made →
      (∀ m ∈ ms, ∀ time, ¬ ShutsIdle m c time) → (s.pendingOf c).length = 1 := by
  refine (h.history (I := fun ms s => ∀ c, s.alive c = true → (s.connections c).stage ≠ .made →
    (∀ m ∈ ms, ∀ time, ¬ ShutsIdle m c time) → (s.pendingOf c).length = 1) ?_ ?_)
  · rintro s ⟨-, -, hnew, -⟩ c _ hstage _
    rw [hnew c] at hstage
    exact absurd rfl hstage
  · intro ms s l t hrun ih hmove c halive hstage hshut
    have hsteps := IdleServer.step_cases hmove
    refine hsteps.pendingOf hauto (run_idle_inv hauto hrun) halive hstage
      (hshut _ (List.mem_append_right _ (List.mem_singleton_self _))) ?_
    intro halive' hstage'
    exact ih c halive' hstage' fun m hm => hshut m (List.mem_append_left _ hm)

/-- **Idle closing is sound, and forgets no connection.** What `HandleIdleConnection`
calls on a connection is all that happens to it then. It calls `Shutdown` at least eight
seconds after the connection was established, and after each of its `MessageCallback`s. A
connection that exists, has been established and has not been shut down so has one idle
timer that is still to run. -/
theorem idle_closing {srv : HttpServer} (hauto : srv.autoCloseIdleConnection = true)
    {fd : ℕ → ℕ} {answers : ℕ → ℕ → WriteAnswer} {ms : List (Move IdleServer IdleLabel)}
    {s : IdleServer} (h : Run (idleTimers srv fd answers) ms s) :
    (∀ m ∈ ms, ∀ checked called now address,
      m.label = .handleIdleConnection checked called now address →
        ∃ c calls, HandlesIdle m c checked calls ∧
          m.post.connections = Function.update m.pre.connections c { m.pre.connections c with
            session := calls.foldl Session.perform (m.pre.connections c).session }) ∧
    (∀ m ∈ ms, ∀ c checked, ShutsIdle m c checked →
      (∃ x time, Later ms x m ∧ Establishes x c time) ∧
      ∀ x time, Later ms x m → Establishes x c time ∨ Messages x c time →
        time.microSeconds + 8 * 10 ^ 6 ≤ checked.microSeconds) ∧
    ∀ c, s.alive c = true → (s.connections c).stage ≠ .made →
      (∀ m ∈ ms, ∀ time, ¬ ShutsIdle m c time) → (s.pendingOf c).length = 1 := by
  refine ⟨?_, ?_, idle_pending hauto h⟩
  · intro m hm checked called now address hlabel
    obtain ⟨⟨ms', hrun⟩, hmove⟩ := h.move m hm
    have hsteps := IdleServer.step_cases hmove
    rw [hlabel] at hsteps
    cases hsteps with
    | @idle _ _ _ _ c calls _ hcalls =>
        exact ⟨c, calls, ⟨called, now, address, hlabel, hcalls⟩,
          (IdleServer.runIdle_cases hcalls).connections (run_idle_inv hauto hrun)⟩
  intro m hm c checked hshut
  constructor
  · obtain ⟨before, after, rfl⟩ := List.append_of_mem hm
    have hrun := (h.split rfl).1
    obtain ⟨-, hbound, -⟩ := hshut.idle
    have hstage := (run_idle_inv hauto hrun).stage_nextBound hbound
    obtain ⟨x, hx, time, hestablished⟩ := idle_begun hauto hrun c hstage
    obtain ⟨first, mid, rfl⟩ := List.append_of_mem hx
    exact ⟨x, time, ⟨first, mid, after, by simp⟩, hestablished⟩
  · intro x time hlater hx
    rw [← addTime_idle]
    rcases hx with hx | hx
    · exact idle_established hauto h hlater hx hshut
    · exact idle_message hauto h hlater hx hshut

def idleSample : HttpServer where
  autoCloseIdleConnection := true
  responseCallback := fun _ response => response
  indeterminate := 0

set_option maxRecDepth 20000 in
/-- The connection 0 is established at nine seconds and sends a byte at twelve. Its timer
goes off at eighteen, when it is set again, and at twenty-seven. -/
theorem idleSample_run : ∃ x y m m' r₁ r₂ r₃ r₄ r₅ s,
    Run (idleTimers idleSample id fun _ _ => .full) [x, y, r₁, m, r₂, r₃, r₄, r₅, m'] s ∧
    Establishes x 0 ⟨9000000⟩ ∧ Messages y 0 ⟨12000000⟩ ∧
    r₁.label = .timer (.handleRead ⟨18000000⟩) ⟨18000000⟩ ∧
    HandlesIdle m 0 ⟨18000000⟩ [] ∧ HandlesIdle m' 0 ⟨27000000⟩ [.shutdown] ∧
    m.post.alive 0 = true ∧ (m.post.connections 0).stage = .established := by
  have hstart : (idleTimers idleSample id fun _ _ => .full).init
      ⟨(TimerState.new, ⟨0⟩), fun _ => none, fun c => ServedConnection.new c fun _ => .full,
        fun _ => true⟩ :=
    ⟨rfl, fun _ => rfl, fun _ => rfl, fun _ => rfl⟩
  have hrun := (Run.start hstart).moves
    [.connectionEstablished 0 ⟨9000000⟩ ⟨9000000⟩ 16 true,
      .connection 0 (.handleMessage ⟨12000000⟩ (.data [71])) ⟨12000000⟩,
      .timer (.handleRead ⟨18000000⟩) ⟨18000000⟩,
      .handleIdleConnection ⟨18000000⟩ ⟨18000000⟩ ⟨18000000⟩ 32,
      .timer .resetTimers ⟨18000000⟩, .timer (.settle ⟨18000000⟩) ⟨18000000⟩,
      .timer (.rearm ⟨18000000⟩) ⟨18000000⟩, .timer (.handleRead ⟨27000000⟩) ⟨27000000⟩,
      .handleIdleConnection ⟨27000000⟩ ⟨27000000⟩ ⟨27000000⟩ 48] rfl
  exact ⟨_, _, _, _, _, _, _, _, _, _, hrun, ⟨_, _, _, rfl⟩, ⟨_, _, List.cons_ne_nil _ _, rfl⟩,
    rfl, ⟨_, _, _, rfl, rfl⟩, ⟨_, _, _, rfl, rfl⟩, rfl, rfl⟩

/-- Its first timer is set again, its second one shuts it down. -/
theorem idle_closing_rearmed : ∃ ms s x y m m',
    Run (idleTimers idleSample id fun _ _ => .full) ms s ∧
    Later ms x m' ∧ Establishes x 0 ⟨9000000⟩ ∧ Later ms y m' ∧ Messages y 0 ⟨12000000⟩ ∧
    Later ms m m' ∧ HandlesIdle m 0 ⟨18000000⟩ [] ∧ (m.post.pendingOf 0).length = 1 ∧
    ShutsIdle m' 0 ⟨27000000⟩ ∧
    (m'.post.connections 0).session = (m'.pre.connections 0).session.shutdown ∧
    (9000000 : ℤ) + 8 * 10 ^ 6 ≤ 27000000 ∧ (12000000 : ℤ) + 8 * 10 ^ 6 ≤ 27000000 := by
  obtain ⟨x, y, m, m', r₁, r₂, r₃, r₄, r₅, s, hrun, hestablished, hmessage, hread, hagain, hlast,
    halive, hstage⟩ := idleSample_run
  have hshut : ShutsIdle m' 0 ⟨27000000⟩ := ⟨_, hlast, List.mem_singleton_self _⟩
  have hx : Later [x, y, r₁, m, r₂, r₃, r₄, r₅, m'] x m' :=
    ⟨[], [y, r₁, m, r₂, r₃, r₄, r₅], [], rfl⟩
  have hy : Later [x, y, r₁, m, r₂, r₃, r₄, r₅, m'] y m' := ⟨[x], [r₁, m, r₂, r₃, r₄, r₅], [], rfl⟩
  have hm : Later [x, y, r₁, m, r₂, r₃, r₄, r₅, m'] m m' := ⟨[x, y, r₁], [r₂, r₃, r₄, r₅], [], rfl⟩
  obtain ⟨hperforms, hsound, -⟩ := idle_closing rfl hrun
  have hsession : m'.post.connections 0 = { m'.pre.connections 0 with
      session := (m'.pre.connections 0).session.shutdown } := by
    obtain ⟨called, now, address, hlabel, -⟩ := id hlast
    obtain ⟨c, calls, hcalls, hpost⟩ := hperforms m' hm.mem.2 _ called now address hlabel
    obtain ⟨rfl, rfl⟩ := hlast.unique hcalls
    rw [hpost, Function.update_self]
    rfl
  obtain ⟨-, hlate⟩ := hsound m' hm.mem.2 0 _ hshut
  -- the run up to the first timer
  obtain ⟨hbefore, hstep⟩ := hrun.split (show _ = [x, y, r₁] ++ m :: _ from rfl)
  have hpending := (idle_closing rfl (hbefore.next hstep)).2.2 0 halive (by rw [hstage]; decide) (by
    intro u hu time hshuts
    have hlabel := hshuts.idle.1
    obtain ⟨now, address, inLoop, hlabelx⟩ := hestablished
    obtain ⟨bytes, now', -, hlabely⟩ := hmessage
    simp only [List.cons_append, List.nil_append, List.mem_cons, List.not_mem_nil, or_false] at hu
    rcases hu with rfl | rfl | rfl | rfl
    · simp [hlabelx] at hlabel
    · simp [hlabely] at hlabel
    · simp [hread] at hlabel
    · obtain ⟨calls, hcalls, hcall⟩ := hshuts
      obtain ⟨-, rfl⟩ := hagain.unique hcalls
      exact List.not_mem_nil hcall)
  exact ⟨_, s, x, y, m, m', hrun, hx, hestablished, hy, hmessage, hm, hagain, hpending, hshut,
    congrArg ServedConnection.session hsession, hlate x ⟨9000000⟩ hx (.inl hestablished),
    hlate y ⟨12000000⟩ hy (.inr hmessage)⟩

end TinyMuduo

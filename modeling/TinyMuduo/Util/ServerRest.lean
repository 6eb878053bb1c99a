import Mathlib.Algebra.Order.BigOperators.Group.Finset
import TinyMuduo.Util.ConnectionRuns

/-!
# A server at rest

Whatever the threads have just done, the loops can run the functors that are due
(`Refines.runs_one`), and this comes to an end, since a connection that is being
established or torn down has at most two functors to come. So the server can come to
rest; and at rest nothing knows a connection that was closed, so that it is gone unless
somebody outside holds it (`rest_leaks_nothing`).
-/

namespace TinyMuduo

open Transition

/-- What the loops do without a new connection, an end of stream or a user of the
connections. -/
def ServerStep.Own : ServerStep → Prop
  | .poll _ _ => True
  | .handleEvent _ => True
  | .callFunctors _ => True
  | .runFunctor _ => True
  | .runInline _ => True
  | .returnToPoll _ => True
  | _ => False

/-- The functors still to be run for a connection. -/
def LifePhase.duties : LifePhase → ℕ
  | .connecting => 1
  | .closing => 2
  | .erased => 1
  | _ => 0

theorem Life.Step.duties {life life' : Life} {f : Functor} (h : life.Step f.lifeCall life') :
    life'.phase.duties + 1 = life.phase.duties := by
  cases f with
  | connectionEstablished p =>
      cases h
      rfl
  | handleCloseInLoop p =>
      cases h
      rfl
  | connectionDestructor p =>
      cases h
      rfl

namespace TcpServer

variable {s t : TcpServer} {L : ℕ}

def AtRest (s : TcpServer) : Prop := ∀ L, (s.loops L).pending = []

theorem At.setStage {stage : LoopStage} (h : s.At L stage) (stage' : LoopStage) :
    (s.setStage L stage').At L stage' where
  stage := by rw [TcpServer.setStage, updateLoop_self]
  inline := by
    rw [TcpServer.setStage, updateLoop_self]
    exact h.inline

theorem toDoList_setStage (stage : LoopStage) :
    ((s.setStage L stage).loops L).toDoList = (s.loops L).toDoList := by
  rw [setStage, updateLoop_self]

theorem exists_withPoller {p : ConnectionId} {c : ConnectionObject} (hc : s.objects p = some c)
    (member : TcpConnection → Epoller ConnectionId → TcpConnection × Epoller ConnectionId) :
    ∃ t, s.withPoller p member = some t := by
  unfold withPoller
  rw [hc]
  exact ⟨_, rfl⟩

end TcpServer

/-! ## Every loop gets on -/

namespace Refines

variable {n : ℕ} {s : TcpServer} {a : ConnectionId → Life} {L : ℕ}

theorem exists_call (h : Refines s a) {f : Functor} (hf : f ∈ (s.loops L).pending)
    {u : TcpServer} (hobjects : u.objects = s.objects) (hmap : u.connections = s.connections) :
    ∃ t, u.call f = some t := by
  obtain ⟨c, hc, hmeets⟩ := h.meets_functor hf
  rw [← hobjects] at hc
  cases f with
  | connectionEstablished p =>
      exact TcpServer.exists_withPoller hc (TcpConnection.connectionEstablished p)
  | handleCloseInLoop p =>
      obtain ⟨-, hconnection⟩ := hmeets
      rw [← hmap] at hconnection
      exact ⟨_, Option.bind_eq_some_iff.mpr ⟨c, hc, Option.bind_eq_some_iff.mpr
        ⟨_, hconnection, rfl⟩⟩⟩
  | connectionDestructor p =>
      exact TcpServer.exists_withPoller hc (TcpConnection.connectionDestructor p)

/-- **The first functor of the batch** is run. -/
theorem runs_calling (h : Refines s a) {f : Functor} {functors ran : List Functor}
    (hat : s.At L (.calling (f :: functors) ran)) :
    ∃ t life, Leads (tcpServer n) ServerStep.Own s t ∧
      Refines t (Function.update a f.connection life) ∧
      life.phase.duties + 1 = (a f.connection).phase.duties := by
  have hf : f ∈ (s.loops L).pending := by
    rw [ServerLoop.pending, hat.stage, hat.inline]
    exact List.mem_cons_self
  obtain ⟨t, ht⟩ := h.exists_call hf (u := s.setStage L (.calling functors (ran ++ [f]))) rfl rfl
  obtain ⟨life, hlife, href⟩ := h.runFunctor hat ht
  have hstep : (tcpServer n).step s (.runFunctor L) t := .runFunctor hat ht
  exact ⟨t, life, .of_step hstep trivial, href, hlife.duties⟩

theorem runs_inline (h : Refines s a) {f : Functor} (hinline : (s.loops L).inline = some f) :
    ∃ t life, Leads (tcpServer n) ServerStep.Own s t ∧
      Refines t (Function.update a f.connection life) ∧
      life.phase.duties + 1 = (a f.connection).phase.duties := by
  have hf : f ∈ (s.loops L).pending := by
    rw [ServerLoop.pending, hinline]
    exact List.mem_cons_self
  obtain ⟨t, ht⟩ := h.exists_call hf
    (u := s.updateLoop L fun l => { l with inline := none }) rfl rfl
  obtain ⟨life, hlife, href⟩ := h.runInline hinline ht
  have hstep : (tcpServer n).step s (.runInline L) t := .runInline hinline ht
  exact ⟨t, life, .of_step hstep trivial, href, hlife.duties⟩

theorem leads_handling {active : List ConnectionId} : ∀ {s : TcpServer}, Refines s a →
    s.At L (.handling active) → ∃ t, Leads (tcpServer n) ServerStep.Own s t ∧ Refines t a ∧
      t.At L (.calling (s.loops L).toDoList []) := by
  induction active with
  | nil =>
      intro s h hat
      have hstep : (tcpServer n).step s (.callFunctors L) _ := .callFunctors hat
      refine ⟨_, .of_step hstep trivial, h.callFunctors hat, ?_, ?_⟩
      · rw [TcpServer.updateLoop_self]
      · rw [TcpServer.updateLoop_self]
        exact hat.inline
  | cons p active ih =>
      intro s h hat
      have hstep : (tcpServer n).step s (.handleEvent L) _ := .handleEvent hat
      have hattends := h.active L
      rw [hat.stage] at hattends
      have href : Refines (s.setStage L (.handling active)) a :=
        h.setStage (by rw [hat.stage]; rfl) ⟨(List.nodup_cons.mp hattends.1).2,
          fun q hq => hattends.2 q (List.mem_cons_of_mem _ hq)⟩
      obtain ⟨t, hleads, href', hat'⟩ := ih href (hat.setStage _)
      rw [TcpServer.toDoList_setStage] at hat'
      exact ⟨t, (Leads.of_step hstep trivial).trans hleads, href', hat'⟩

theorem leads_polling (h : Refines s a) (hat : s.At L .polling) :
    ∃ t, Leads (tcpServer n) ServerStep.Own s t ∧ Refines t a ∧
      t.At L (.calling (s.loops L).toDoList []) := by
  have hstep : (tcpServer n).step s (.poll L []) _ :=
    .poll hat List.nodup_nil fun p hp => absurd hp List.not_mem_nil
  have href : Refines (s.setStage L (.handling [])) a :=
    h.setStage (by rw [hat.stage]; rfl) attends_nil
  obtain ⟨t, hleads, href', hat'⟩ := leads_handling href (hat.setStage _)
  rw [TcpServer.toDoList_setStage] at hat'
  exact ⟨t, (Leads.of_step hstep trivial).trans hleads, href', hat'⟩

/-- **A loop in which a functor is due can run one.** -/
theorem runs_one (h : Refines s a) (hdue : (s.loops L).pending ≠ []) :
    ∃ t p life, Leads (tcpServer n) ServerStep.Own s t ∧ Refines t (Function.update a p life) ∧
      life.phase.duties + 1 = (a p).phase.duties := by
  cases hinline : (s.loops L).inline with
  | some f =>
      obtain ⟨t, life, hleads, href, hduties⟩ := h.runs_inline (n := n) hinline
      exact ⟨t, f.connection, life, hleads, href, hduties⟩
  | none =>
      -- the loop gets to `DoToDoList` with what is queued now
      have hqueued : (s.loops L).stage.functors = [] →
          (∃ u, Leads (tcpServer n) ServerStep.Own s u ∧ Refines u a ∧
            u.At L (.calling (s.loops L).toDoList [])) →
          ∃ t p life, Leads (tcpServer n) ServerStep.Own s t ∧
            Refines t (Function.update a p life) ∧
            life.phase.duties + 1 = (a p).phase.duties := by
        rintro hfunctors ⟨u, hleads, href, hat⟩
        rw [ServerLoop.pending, hinline, hfunctors] at hdue
        obtain ⟨f, functors, hqueue⟩ := List.exists_cons_of_ne_nil hdue
        replace hqueue : (s.loops L).toDoList = f :: functors := hqueue
        rw [hqueue] at hat
        obtain ⟨t, life, hleads', href', hduties⟩ := href.runs_calling (n := n) hat
        exact ⟨t, f.connection, life, hleads.trans hleads', href', hduties⟩
      cases hstage : (s.loops L).stage with
      | polling =>
          apply hqueued
          · rw [hstage]
            rfl
          · exact h.leads_polling ⟨hstage, hinline⟩
      | handling active =>
          apply hqueued
          · rw [hstage]
            rfl
          · exact h.leads_handling ⟨hstage, hinline⟩
      | calling functors ran =>
          cases functors with
          | cons f functors =>
              obtain ⟨t, life, hleads, href, hduties⟩ :=
                h.runs_calling (n := n) ⟨hstage, hinline⟩
              exact ⟨t, f.connection, life, hleads, href, hduties⟩
          | nil =>
              have hat : s.At L (.calling [] ran) := ⟨hstage, hinline⟩
              have hstep : (tcpServer n).step s (.returnToPoll L) _ := .returnToPoll hat
              have href : Refines (s.setStage L .polling) a :=
                h.setStage (by rw [hstage]; rfl) attends_nil
              apply hqueued
              · rw [hstage]
                rfl
              · obtain ⟨u, hleads, href', hat'⟩ := href.leads_polling (n := n) (hat.setStage _)
                rw [TcpServer.toDoList_setStage] at hat'
                exact ⟨u, (Leads.of_step hstep trivial).trans hleads, href', hat'⟩

/-- **The loops can come to rest.** -/
theorem leads_rest (h : Refines s a) :
    ∃ t, Leads (tcpServer n) ServerStep.Own s t ∧ t.AtRest := by
  -- the functors to come, over the connections that were made so far
  have hdown : ∀ k t, (∃ b, Refines t b ∧ (∀ p, s.made ≤ p → (b p).phase = .absent) ∧
        ∑ p ∈ Finset.range s.made, (b p).phase.duties = k) → ¬ t.AtRest →
      ∃ k' u, k' < k ∧ Leads (tcpServer n) ServerStep.Own t u ∧
        ∃ b, Refines u b ∧ (∀ p, s.made ≤ p → (b p).phase = .absent) ∧
          ∑ p ∈ Finset.range s.made, (b p).phase.duties = k' := by
    rintro k t ⟨b, href, hfresh, rfl⟩ hbusy
    obtain ⟨L, hdue⟩ := not_forall.mp hbusy
    obtain ⟨u, p, life, hleads, href', hduties⟩ := href.runs_one (n := n) hdue
    have hp : p < s.made := by
      by_contra hge
      rw [hfresh p (Nat.le_of_not_lt hge)] at hduties
      cases hduties
    refine ⟨_, u, ?_, hleads, Function.update b p life, href', ?_, rfl⟩
    · apply Finset.sum_lt_sum
      · intro q _
        by_cases hq : q = p
        · rw [hq, Function.update_self]
          omega
        · rw [Function.update_of_ne hq]
      · refine ⟨p, Finset.mem_range.mpr hp, ?_⟩
        rw [Function.update_self]
        omega
    · intro q hq
      have hqp : q ≠ p := (Nat.lt_of_lt_of_le hp hq).ne'
      rw [Function.update_of_ne hqp]
      exact hfresh q hq
  obtain ⟨_, t, hleads, -, hrest⟩ := Leads.of_measure hdown ⟨a, h, h.tables.fresh, rfl⟩
  exact ⟨t, hleads, hrest⟩

end Refines

/-! ## Nothing is left -/

/-- `connections_` and the poller of its loop have the connection. -/
structure TcpServer.Known (s : TcpServer) (p : ConnectionId) (c : ConnectionObject) : Prop where
  connections : s.connections c.conn.fd = some p
  channels : (s.loops c.loop).poller.channels c.conn.fd = some p
  interest : ∃ events, (s.loops c.loop).poller.interest c.conn.fd = some (p, events)

/-- Neither `connections_` nor a poller has it. -/
structure TcpServer.Forgotten (s : TcpServer) (p : ConnectionId) (c : ConnectionObject) :
    Prop where
  connections : ∀ fd, s.connections fd ≠ some p
  channels : ∀ L fd, (s.loops L).poller.channels fd ≠ some p
  interest : ∀ L, (s.loops L).poller.interest c.conn.fd = none

namespace Refines

variable {s : TcpServer} {a : ConnectionId → Life} {p : ConnectionId} {c : ConnectionObject}

theorem known (h : Refines s a) (hc : s.objects p = some c) (hp : (a p).phase = .connected) :
    s.Known p c := by
  obtain ⟨hloop, hfd, -⟩ := h.tables.object hc
  constructor
  · rw [hfd]
    exact h.tables.connections.get (by rw [hp]; trivial)
  · rw [hfd]
    exact (h.tables.pollers c.loop).channels.get ⟨by rw [hp]; trivial, hloop.symm⟩
  · have hregistered := (h.tables.pollers c.loop).interest.get (i := p) ⟨hp, hloop.symm⟩
    obtain ⟨⟨q, events⟩, hinterest, rfl⟩ := Option.map_eq_some_iff.mp hregistered
    rw [hfd]
    exact ⟨events, hinterest⟩

theorem forgotten (h : Refines s a) (hc : s.objects p = some c) (hp : (a p).phase = .removed) :
    s.Forgotten p c := by
  obtain ⟨-, hfd, -⟩ := h.tables.object hc
  constructor
  · intro fd hmap
    obtain ⟨hin, -⟩ := (h.tables.connections fd p).mp hmap
    rw [hp] at hin
    exact hin
  · intro L fd hchannels
    obtain ⟨⟨hpolled, -⟩, -⟩ := ((h.tables.pollers L).channels fd p).mp hchannels
    rw [hp] at hpolled
    exact hpolled
  · intro L
    rw [hfd]
    apply Option.map_eq_none_iff.mp
    apply h.tables.interest_free
    · rw [hp]
      rintro ⟨⟩
    · rw [hp]
      rintro ⟨⟩

/-- At rest a connection is connected or has everything behind it but its end. -/
theorem rest_cases (h : Refines s a) (hrest : s.AtRest) (hc : s.objects p = some c) :
    (a p).phase = .connected ∨ (a p).phase = .removed := by
  have hnone : (a p).due p = none := by
    cases hdue : (a p).due p with
    | none => rfl
    | some due =>
        obtain ⟨L, f⟩ := due
        have hf : f.connection = p := by
          rcases Life.of_due hdue with ⟨rfl, -⟩ | ⟨rfl, -⟩ | ⟨rfl, -⟩ <;> rfl
        have hmem : f ∈ (s.loops L).pending := ((h.mail L).2 f).mpr (hf.symm ▸ hdue)
        rw [hrest L] at hmem
        cases hmem
  obtain ⟨-, -, -, hstate⟩ := h.tables.object hc
  rw [Life.due] at hnone
  cases hphase : (a p).phase with
  | connected => exact .inl rfl
  | removed => exact .inr rfl
  | absent =>
      rw [hphase] at hstate
      cases hstate
  | closed =>
      rw [hphase] at hstate
      cases hstate
  | connecting =>
      rw [hphase] at hnone
      cases hnone
  | closing =>
      rw [hphase] at hnone
      cases hnone
  | erased =>
      rw [hphase] at hnone
      cases hnone

end Refines

/-- **The server can always come to rest, and at rest it leaks nothing.** From every
state the loops can by themselves run all functors that are due. Then each connection
object is either known to `connections_`, its poller and the kernel, or to none of
them; and in the latter case its destructor can run, unless a callback holds the
connection or the functors a loop has just run do, which it is about to destroy. -/
theorem rest_leaks_nothing {n : ℕ} {ms : List (Move TcpServer ServerStep)} {s : TcpServer}
    (h : Run (tcpServer n) ms s) :
    (∃ ms' t, Run (tcpServer n) (ms ++ ms') t ∧ t.AtRest ∧ ∀ m ∈ ms', m.label.Own) ∧
    (s.AtRest → ∀ p c, s.objects p = some c → s.Known p c ∨ (s.Forgotten p c ∧
      (0 < s.kept p ∨ (∃ L, ∃ f ∈ (s.loops L).stage.ran, f.connection = p) ∨
        ∃ t, Run (tcpServer n) (ms ++ [⟨s, .destroy p, t⟩]) t))) := by
  obtain ⟨a, href, -⟩ := run_refines h
  constructor
  · obtain ⟨t, hleads, hrest⟩ := href.leads_rest (n := n)
    obtain ⟨ms', hrun, hown⟩ := h.leads hleads
    exact ⟨ms', t, hrun, hrest, hown⟩
  · intro hrest p c hc
    rcases href.rest_cases hrest hc with hphase | hphase
    · exact .inl (href.known hc hphase)
    · have hforgotten := href.forgotten hc hphase
      refine .inr ⟨hforgotten, ?_⟩
      by_cases hreferenced : s.Referenced p
      · rcases hreferenced with ⟨fd, hmap⟩ | ⟨L, f, hf, hfp⟩ | hkept
        · exact absurd hmap (hforgotten.connections fd)
        · rw [ServerLoop.holding, hrest L] at hf
          exact .inr (.inl ⟨L, f, hf, hfp⟩)
        · exact .inl hkept
      · obtain ⟨t, ht⟩ : ∃ t, s.destroy p = some t := by
          unfold TcpServer.destroy
          rw [hc]
          exact ⟨_, rfl⟩
        exact .inr (.inr ⟨t, .next h (.destroy hreferenced ht)⟩)

/-- A connection of an IO loop that was closed. When the last functor has been run the
functors hold it, and when the loops are back in `Poll` it can go. -/
theorem rest_leaks_nothing_closed : ∃ ms s c, Run (tcpServer 1) ms s ∧
    labels ms = [.poll 0 [], .handleNewConnection 5, .poll 1 [], .callFunctors 1, .runFunctor 1,
      .returnToPoll 1, .poll 1 [0], .handleClose 1, .callFunctors 0, .runFunctor 0,
      .callFunctors 1, .runFunctor 1, .returnToPoll 0, .returnToPoll 1] ∧
    (∃ ms' t, Run (tcpServer 1) (ms ++ ms') t ∧ t.AtRest ∧ ∀ m ∈ ms', m.label.Own) ∧
    s.AtRest ∧ s.objects 0 = some c ∧ s.Forgotten 0 c ∧
    ∃ t, Run (tcpServer 1) (ms ++ [⟨s, .destroy 0, t⟩]) t := by
  obtain ⟨ms, s, c, hrun, hlabels, -, hbase, hio, hpending, hran, hc, hmap, hkept⟩ := crossing_run
  have h₁ := hrun.next (show TcpServer.Step 1 _ (.returnToPoll 0) _ from .returnToPoll hbase)
  have hio' : (s.setStage 0 .polling).At 1 (.calling [] [.connectionDestructor 0]) := by
    constructor
    · rw [TcpServer.setStage, TcpServer.updateLoop_of_ne _ (by decide)]
      exact hio.stage
    · rw [TcpServer.setStage, TcpServer.updateLoop_of_ne _ (by decide)]
      exact hio.inline
  have h₂ := h₁.next (show TcpServer.Step 1 _ (.returnToPoll 1) _ from .returnToPoll hio')
  have hlast : ∀ L, (((s.setStage 0 .polling).setStage 1 .polling).loops L).pending = [] ∧
      (((s.setStage 0 .polling).setStage 1 .polling).loops L).stage.ran = [] := by
    have hpolling : ∀ l : ServerLoop, l.pending = [] →
        ServerLoop.pending { l with stage := .polling } = [] := by
      intro l hl
      obtain ⟨hcalled, hqueued⟩ := List.append_eq_nil_iff.mp hl
      obtain ⟨hinline, -⟩ := List.append_eq_nil_iff.mp hcalled
      rw [ServerLoop.pending, hinline, hqueued]
      rfl
    rintro (_ | _ | L)
    · exact ⟨hpolling _ (hpending 0), rfl⟩
    · exact ⟨hpolling _ (hpending 1), rfl⟩
    · exact ⟨hpending (L + 2), hran L⟩
  obtain ⟨hleads, hrest⟩ := rest_leaks_nothing h₂
  refine ⟨_, _, c, h₂, ?_, hleads, fun L => (hlast L).1, hc, ?_⟩
  · rw [labels_snoc, labels_snoc, hlabels]
    rfl
  · rcases hrest (fun L => (hlast L).1) 0 c hc with hknown | ⟨hforgotten, hkept' | hran' | hgone⟩
    · exact absurd (hmap.symm.trans hknown.connections) (by rintro ⟨⟩)
    · exact absurd hkept (Nat.ne_of_gt hkept')
    · obtain ⟨L, f, hf, -⟩ := hran'
      rw [(hlast L).2] at hf
      cases hf
    · exact ⟨hforgotten, hgone⟩

end TinyMuduo

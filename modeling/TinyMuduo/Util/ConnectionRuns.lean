import TinyMuduo.Util.ServerTables

/-!
# Every run of the server is a run of lives

Each step of a loop is one call of one life or of none (`step_refines`). Since a
run keeps its moves, the state in which a call is made is at hand, and with it
what the call finds in `connections_` and in the pollers.
-/

namespace TinyMuduo

open Transition Accounts

/-! ## Queues -/

/-- The functors that are due, each in its loop and once. -/
def Mail (s : TcpServer) (due : ConnectionId → Option (ℕ × Functor)) : Prop :=
  Delivers (fun L => (s.loops L).pending) Functor.connection due

namespace Mail

variable {s t : TcpServer} {due : ConnectionId → Option (ℕ × Functor)}

theorem of_pending (h : Mail s due) (hpending : ∀ L, (t.loops L).pending = (s.loops L).pending) :
    Mail t due := by
  have hboxes : (fun L => (t.loops L).pending) = fun L => (s.loops L).pending := funext hpending
  rw [Mail, hboxes]
  exact h

theorem queueOneFunc (h : Mail s due) {f : Functor} (L : ℕ)
    (hnone : due f.connection = none) :
    Mail (s.queueOneFunc L f) (Function.update due f.connection (some (L, f))) := by
  refine h.put hnone ?_ ?_
  · show (ServerLoop.pending ((s.updateLoop L _).loops L)).Perm _
    rw [TcpServer.updateLoop_self, ServerLoop.pending, ← List.append_assoc]
    exact List.perm_append_singleton f _
  · intro M hM
    show ServerLoop.pending ((s.updateLoop L _).loops M) = _
    rw [TcpServer.updateLoop_of_ne _ hM]

theorem runOneFunc (h : Mail s due) {f : Functor} {caller L : ℕ}
    (hinline : (s.loops caller).inline = none) (hnone : due f.connection = none) :
    Mail (s.runOneFunc caller L f) (Function.update due f.connection (some (L, f))) := by
  unfold TcpServer.runOneFunc
  split
  · next hL =>
      subst hL
      refine h.put hnone ?_ ?_
      · show (ServerLoop.pending ((s.updateLoop caller _).loops caller)).Perm _
        rw [TcpServer.updateLoop_self]
        show (f :: ((s.loops caller).stage.functors ++ (s.loops caller).toDoList)).Perm
          (f :: (s.loops caller).pending)
        rw [ServerLoop.pending, hinline]
        exact List.Perm.refl _
      · intro M hM
        show ServerLoop.pending ((s.updateLoop caller _).loops M) = _
        rw [TcpServer.updateLoop_of_ne _ hM]
  · exact h.queueOneFunc L hnone

end Mail

theorem due_update (a : ConnectionId → Life) (p : ConnectionId) (life : Life) :
    (fun q => (Function.update a p life q).due q) =
      Function.update (fun q => (a q).due q) p (life.due p) := by
  funext q
  exact Function.apply_update (fun q (l : Life) => l.due q) a p life q

theorem Life.of_due {life : Life} {p : ConnectionId} {L : ℕ} {f : Functor}
    (h : life.due p = some (L, f)) :
    (f = .connectionEstablished p ∧ ∃ fd, life = ⟨.connecting, L, fd⟩) ∨
      (f = .handleCloseInLoop p ∧ L = 0 ∧ ∃ M fd, life = ⟨.closing, M, fd⟩) ∨
      (f = .connectionDestructor p ∧ ∃ fd, life = ⟨.erased, L, fd⟩) := by
  obtain ⟨phase, M, fd⟩ := life
  cases phase with
  | connecting =>
      cases h
      exact Or.inl ⟨rfl, fd, rfl⟩
  | closing =>
      cases h
      exact Or.inr (Or.inl ⟨rfl, rfl, M, fd, rfl⟩)
  | erased =>
      cases h
      exact Or.inr (Or.inr ⟨rfl, fd, rfl⟩)
  | _ => cases h

/-! ## Active channels -/

namespace Attends

variable {a : ConnectionId → Life} {L : ℕ} {active : List ConnectionId} {p : ConnectionId}

theorem update (h : Attends a L active) (hp : p ∉ active) (life : Life) :
    Attends (Function.update a p life) L active := by
  refine ⟨h.1, ?_⟩
  intro q hq
  have hqp : q ≠ p := by
    rintro rfl
    exact hp hq
  rw [Function.update_of_ne hqp]
  exact h.2 q hq

theorem not_mem (h : Attends a L active) (hp : (a p).phase ≠ .connected ∨ (a p).loop ≠ L) :
    p ∉ active := by
  intro hmem
  obtain ⟨hphase, hloop⟩ := h.2 p hmem
  rcases hp with hp | hp
  · exact hp hphase
  · exact hp hloop

end Attends

/-! ## One step -/

def Functor.lifeCall : Functor → LifeCall
  | .connectionEstablished _ => .connectionEstablished
  | .handleCloseInLoop _ => .handleCloseInLoop
  | .connectionDestructor _ => .connectionDestructor

/-- The call of a life that a move makes, and on which connection. -/
def performs (m : Move TcpServer ServerStep) : Option (ConnectionId × LifeCall) :=
  match m.label with
  | .handleNewConnection _ => some (m.pre.made, .handleNewConnection)
  | .handleClose L => (m.pre.loops L).stage.active.head?.map fun p => (p, .handleClose)
  | .runFunctor L =>
      (m.pre.loops L).stage.functors.head?.map fun f => (f.connection, f.lifeCall)
  | .runInline L => (m.pre.loops L).inline.map fun f => (f.connection, f.lifeCall)
  | .destroy p => some (p, .destructor)
  | _ => none

section

variable {s t : TcpServer} {L : ℕ}

theorem performs_handleClose {p : ConnectionId} {active : List ConnectionId}
    (hat : s.At L (.handling (p :: active))) :
    performs ⟨s, .handleClose L, t⟩ = some (p, .handleClose) := by
  show Option.map _ (s.loops L).stage.active.head? = _
  rw [hat.stage]
  rfl

theorem performs_runFunctor {f : Functor} {functors ran : List Functor}
    (hat : s.At L (.calling (f :: functors) ran)) :
    performs ⟨s, .runFunctor L, t⟩ = some (f.connection, f.lifeCall) := by
  show Option.map _ (s.loops L).stage.functors.head? = _
  rw [hat.stage]
  rfl

theorem performs_runInline {f : Functor} (hinline : (s.loops L).inline = some f) :
    performs ⟨s, .runInline L, t⟩ = some (f.connection, f.lifeCall) := by
  show Option.map _ (s.loops L).inline = _
  rw [hinline]
  rfl

end

/-- A member that works with the poller leaves queues and stages alone. -/
theorem TcpServer.withPoller_keeps {s t : TcpServer} {p : ConnectionId} {α : Type}
    {member : TcpConnection → Epoller ConnectionId → TcpConnection × Epoller ConnectionId}
    (h : s.withPoller p member = some t) (f : ServerLoop → α)
    (hf : ∀ l e, f { l with poller := e } = f l) (M : ℕ) : f (t.loops M) = f (s.loops M) := by
  obtain ⟨c, -, rfl⟩ := TcpServer.withPoller_cases h
  exact TcpServer.updateLoop_keeps f (hf _ _) M

theorem withPoller_refines {s t : TcpServer} {a : ConnectionId → Life} {p : ConnectionId}
    {member : TcpConnection → Epoller ConnectionId → TcpConnection × Epoller ConnectionId}
    {life : Life} (h : s.withPoller p member = some t)
    (htables : Tables t (Function.update a p life))
    (hmail : Mail s (Function.update (fun q => (a q).due q) p none)) (hdue : life.due p = none)
    (hactive : ∀ L, Attends a L (s.loops L).stage.active) (hp : (a p).phase ≠ .connected) :
    Refines t (Function.update a p life) where
  tables := htables
  mail := by
    rw [due_update, hdue]
    exact hmail.of_pending (TcpServer.withPoller_keeps h ServerLoop.pending fun _ _ => rfl)
  active L := by
    rw [TcpServer.withPoller_keeps h ServerLoop.stage (fun _ _ => rfl) L]
    exact (hactive L).update ((hactive L).not_mem (Or.inl hp)) life

theorem handleCloseInLoop_refines {s t : TcpServer} {a : ConnectionId → Life}
    {p : ConnectionId} {L fd : ℕ} (h : s.handleCloseInLoop p = some t) (htables : Tables s a)
    (hmail : Mail s (Function.update (fun q => (a q).due q) p none))
    (hactive : ∀ L, Attends a L (s.loops L).stage.active) (hp : a p = ⟨.closing, L, fd⟩) :
    Refines t (Function.update a p ⟨.erased, L, fd⟩) := by
  have htables' := htables.handleCloseInLoop hp h
  obtain ⟨c, hc, rfl⟩ := TcpServer.handleCloseInLoop_cases h
  obtain ⟨hloop, -⟩ := htables.object hc
  rw [hp] at hloop
  refine ⟨htables', ?_, ?_⟩
  · -- the destructor goes into the queue of the connection's own loop
    have hput := Mail.queueOneFunc (f := .connectionDestructor p) hmail c.loop
      (Function.update_self ..)
    rw [Functor.connection, Function.update_idem] at hput
    rw [due_update]
    exact hloop ▸ hput
  · intro M
    have hstage : LoopStage.active ((TcpServer.queueOneFunc c.loop (.connectionDestructor p)
        { s with connections := Function.update s.connections c.conn.fd none }).loops M).stage =
          (s.loops M).stage.active :=
      TcpServer.updateLoop_keeps (fun l => l.stage.active) rfl M
    rw [hstage]
    refine (hactive M).update ((hactive M).not_mem (Or.inl ?_)) _
    rw [hp]
    rintro ⟨⟩

/-- **A functor that is taken out of its queue and run advances its life.** -/
theorem functor_refines {s t : TcpServer} {a : ConnectionId → Life} {L : ℕ} {f : Functor}
    (htables : Tables s a) (hdue : (a f.connection).due f.connection = some (L, f))
    (hmail : Mail s (Function.update (fun q => (a q).due q) f.connection none))
    (hactive : ∀ M, Attends a M (s.loops M).stage.active) (ht : s.call f = some t) :
    ∃ life, (a f.connection).Step f.lifeCall life ∧
      Refines t (Function.update a f.connection life) := by
  cases f with
  | connectionEstablished p =>
      rcases Life.of_due hdue with ⟨-, fd, hp⟩ | ⟨⟨⟩, -⟩ | ⟨⟨⟩, -⟩
      have hwork : s.withPoller p (TcpConnection.connectionEstablished p) = some t := ht
      replace hp : a p = ⟨.connecting, L, fd⟩ := hp
      refine ⟨⟨.connected, L, fd⟩, ?_, ?_⟩
      · rw [Functor.connection, hp]
        exact .connectionEstablished
      · apply withPoller_refines hwork (htables.connectionEstablished hp ht) hmail rfl hactive
        rw [hp]
        rintro ⟨⟩
  | handleCloseInLoop p =>
      rcases Life.of_due hdue with ⟨⟨⟩, -⟩ | ⟨-, -, M, fd, hp⟩ | ⟨⟨⟩, -⟩
      replace hp : a p = ⟨.closing, M, fd⟩ := hp
      refine ⟨⟨.erased, M, fd⟩, ?_, handleCloseInLoop_refines ht htables hmail hactive hp⟩
      rw [Functor.connection, hp]
      exact .handleCloseInLoop
  | connectionDestructor p =>
      rcases Life.of_due hdue with ⟨⟨⟩, -⟩ | ⟨⟨⟩, -⟩ | ⟨-, fd, hp⟩
      have hwork : s.withPoller p (TcpConnection.connectionDestructor p) = some t := ht
      replace hp : a p = ⟨.erased, L, fd⟩ := hp
      refine ⟨⟨.removed, L, fd⟩, ?_, ?_⟩
      · rw [Functor.connection, hp]
        exact .connectionDestructor
      · apply withPoller_refines hwork (htables.connectionDestructor hp ht) hmail rfl hactive
        rw [hp]
        rintro ⟨⟩

/-! ### Moving on in a loop -/

section

variable {s : TcpServer} {a : ConnectionId → Life} {L : ℕ} {stage : LoopStage}

theorem Tables.setStage (h : Tables s a) : Tables (s.setStage L stage) a :=
  h.of_pollers rfl rfl rfl rfl (TcpServer.updateLoop_keeps ServerLoop.poller rfl)

theorem setStage_active (h : ∀ M, Attends a M (s.loops M).stage.active)
    (hstage : Attends a L stage.active) (M : ℕ) :
    Attends a M ((s.setStage L stage).loops M).stage.active := by
  by_cases hM : M = L
  · subst hM
    rw [TcpServer.setStage, TcpServer.updateLoop_self]
    exact hstage
  · rw [TcpServer.setStage, TcpServer.updateLoop_of_ne _ hM]
    exact h M

theorem attends_nil : Attends a L [] := ⟨List.nodup_nil, fun _ hp => absurd hp List.not_mem_nil⟩

theorem Refines.setStage (h : Refines s a)
    (hfunctors : stage.functors = (s.loops L).stage.functors)
    (hactive : Attends a L stage.active) : Refines (s.setStage L stage) a where
  tables := h.tables.setStage
  mail := by
    refine Mail.of_pending h.mail (TcpServer.updateLoop_keeps ServerLoop.pending ?_)
    rw [ServerLoop.pending, hfunctors, ServerLoop.pending]
  active := setStage_active h.active hactive

theorem Refines.callFunctors (h : Refines s a) (hat : s.At L (.handling [])) :
    Refines (s.updateLoop L fun l => { l with toDoList := [], stage := .calling l.toDoList [] })
      a where
  tables := h.tables.of_pollers rfl rfl rfl rfl (TcpServer.updateLoop_keeps ServerLoop.poller rfl)
  mail := by
    refine Mail.of_pending h.mail (TcpServer.updateLoop_keeps ServerLoop.pending ?_)
    rw [ServerLoop.pending, ServerLoop.pending, hat.stage, List.append_nil]
    show _ = _ ++ [] ++ _
    rw [List.append_nil]
    rfl
  active M := by
    have hkeep := TcpServer.updateLoop_keeps (s := s) (L := L)
      (g := fun l => { l with toDoList := [], stage := .calling l.toDoList [] })
      (fun l => l.stage.active) (by rw [hat.stage]; rfl) M
    rw [hkeep]
    exact h.active M

theorem Refines.runFunctor {t : TcpServer} {f : Functor} {functors ran : List Functor}
    (h : Refines s a) (hat : s.At L (.calling (f :: functors) ran))
    (ht : (s.setStage L (.calling functors (ran ++ [f]))).call f = some t) :
    ∃ life, (a f.connection).Step f.lifeCall life ∧
      Refines t (Function.update a f.connection life) := by
  have hpending : (s.loops L).pending = [] ++ f :: (functors ++ (s.loops L).toDoList) := by
    rw [ServerLoop.pending, hat.stage, hat.inline]
    rfl
  have hdue := h.mail.due_of_mem (k := L) (x := f)
    (by rw [hpending]; exact List.mem_cons_self)
  refine functor_refines h.tables.setStage hdue ?_ (setStage_active h.active attends_nil) ht
  refine h.mail.take hpending ?_ ?_
  · show ((s.updateLoop L _).loops L).pending = _
    rw [TcpServer.updateLoop_self, ServerLoop.pending, hat.inline]
    rfl
  · intro M hM
    show ((s.updateLoop L _).loops M).pending = _
    rw [TcpServer.updateLoop_of_ne _ hM]

theorem Refines.runInline {t : TcpServer} {f : Functor} (h : Refines s a)
    (hinline : (s.loops L).inline = some f)
    (ht : (s.updateLoop L fun l => { l with inline := none }).call f = some t) :
    ∃ life, (a f.connection).Step f.lifeCall life ∧
      Refines t (Function.update a f.connection life) := by
  have hpending : (s.loops L).pending =
      [] ++ f :: ((s.loops L).stage.functors ++ (s.loops L).toDoList) := by
    rw [ServerLoop.pending, hinline]
    rfl
  have hdue := h.mail.due_of_mem (k := L) (x := f)
    (by rw [hpending]; exact List.mem_cons_self)
  refine functor_refines ?_ hdue ?_ ?_ ht
  · exact h.tables.of_pollers rfl rfl rfl rfl (TcpServer.updateLoop_keeps ServerLoop.poller rfl)
  · refine h.mail.take hpending ?_ ?_
    · show ((s.updateLoop L _).loops L).pending = _
      rw [TcpServer.updateLoop_self]
      rfl
    · intro M hM
      show ((s.updateLoop L _).loops M).pending = _
      rw [TcpServer.updateLoop_of_ne _ hM]
  · intro M
    have hkeep := TcpServer.updateLoop_keeps (s := s) (L := L)
      (g := fun l => { l with inline := none }) (fun l => l.stage.active) rfl M
    rw [hkeep]
    exact h.active M

end

/-! ### The first and the last call of a life -/

namespace TcpServer

variable {s : TcpServer} {caller L : ℕ} {f : Functor}

theorem runOneFunc_stage (M : ℕ) :
    ((s.runOneFunc caller L f).loops M).stage = (s.loops M).stage := by
  unfold runOneFunc
  split
  · exact updateLoop_keeps ServerLoop.stage rfl M
  · exact updateLoop_keeps ServerLoop.stage rfl M

theorem runOneFunc_openFds (openFds : ℕ → Bool) :
    { s.runOneFunc caller L f with openFds := openFds } =
      { s with openFds := openFds }.runOneFunc caller L f := by
  unfold runOneFunc
  split <;> rfl

/-- The server with the new connection `p` of loop `L`, before anything is run. -/
def withNew (connfd L next : ℕ) (s : TcpServer) : TcpServer :=
  { s with
    next := next
    objects := Function.update s.objects s.made (some ⟨L, TcpConnection.new connfd⟩)
    made := s.made + 1
    connections := Function.update s.connections connfd (some s.made)
    openFds := Function.update s.openFds connfd true }

theorem nextLoop_eq (n : ℕ) (s : TcpServer) :
    ∃ L next, s.nextLoop n = (L, { s with next := next }) := by
  unfold nextLoop
  split
  · exact ⟨0, s.next, rfl⟩
  · exact ⟨_, _, rfl⟩

theorem handleNewConnection_eq (n connfd : ℕ) (s : TcpServer) :
    ∃ L next, { s.handleNewConnection n connfd with
        openFds := Function.update s.openFds connfd true } =
      (s.withNew connfd L next).runOneFunc 0 L (.connectionEstablished s.made) := by
  obtain ⟨L, next, hnext⟩ := s.nextLoop_eq n
  refine ⟨L, next, ?_⟩
  rw [handleNewConnection, hnext]
  exact runOneFunc_openFds _

end TcpServer

theorem Refines.handleNewConnection {s : TcpServer} {a : ConnectionId → Life} {connfd L next : ℕ}
    (h : Refines s a) (hinline : (s.loops 0).inline = none) (hfd : s.openFds connfd = false) :
    Refines ((s.withNew connfd L next).runOneFunc 0 L (.connectionEstablished s.made))
      (Function.update a s.made ⟨.connecting, L, connfd⟩) := by
  have habsent := h.tables.fresh s.made (Nat.le_refl _)
  have hnone : (a s.made).due s.made = none := by
    rw [Life.due, habsent]
  refine ⟨?_, ?_, ?_⟩
  · apply Tables.runOneFunc
    exact h.tables.create hfd L rfl rfl rfl rfl fun _ => rfl
  · rw [due_update]
    have hmail : Mail (s.withNew connfd L next) fun p => (a p).due p := h.mail
    exact hmail.runOneFunc (f := .connectionEstablished s.made) hinline hnone
  · intro M
    rw [TcpServer.runOneFunc_stage]
    refine (h.active M).update ((h.active M).not_mem (Or.inl ?_)) _
    rw [habsent]
    rintro ⟨⟩

theorem Refines.handleClose {s t : TcpServer} {a : ConnectionId → Life} {L : ℕ}
    {p : ConnectionId} {active : List ConnectionId} (h : Refines s a)
    (hat : s.At L (.handling (p :: active)))
    (ht : (s.setStage L (.handling active)).handleClose L p = some t) :
    ∃ life, (a p).Step .handleClose life ∧ Refines t (Function.update a p life) := by
  have hattends := h.active L
  rw [hat.stage] at hattends
  obtain ⟨hnotin, hnodup⟩ := List.nodup_cons.mp hattends.1
  obtain ⟨hphase, hloop⟩ := hattends.2 p List.mem_cons_self
  obtain ⟨fd, hp⟩ : ∃ fd, a p = ⟨.connected, L, fd⟩ := by
    refine ⟨(a p).fd, ?_⟩
    rw [← hphase, ← hloop]
  have hrest : Attends a L active :=
    ⟨hnodup, fun q hq => hattends.2 q (List.mem_cons_of_mem _ hq)⟩
  have hmoved : Refines (s.setStage L (.handling active)) a :=
    h.setStage (by rw [hat.stage]; rfl) hrest
  obtain ⟨u, hu, ht⟩ := Option.bind_eq_some_iff.mp ht
  obtain rfl := Option.some.inj ht
  refine ⟨⟨.closing, L, fd⟩, hp ▸ .handleClose, ?_, ?_, ?_⟩
  · apply Tables.runOneFunc
    exact hmoved.tables.handleClose hp hu
  · have hmail : Mail u fun q => (a q).due q :=
      Mail.of_pending hmoved.mail
        (TcpServer.withPoller_keeps hu ServerLoop.pending fun _ _ => rfl)
    have hinline : (u.loops L).inline = none := by
      rw [TcpServer.withPoller_keeps hu ServerLoop.inline (fun _ _ => rfl) L,
        TcpServer.setStage, TcpServer.updateLoop_self]
      exact hat.inline
    rw [due_update]
    apply hmail.runOneFunc (f := .handleCloseInLoop p) hinline
    show (a p).due p = none
    rw [hp]
    rfl
  · intro M
    rw [TcpServer.runOneFunc_stage, TcpServer.withPoller_keeps hu ServerLoop.stage
      (fun _ _ => rfl) M]
    refine (hmoved.active M).update ?_ _
    by_cases hM : M = L
    · subst hM
      rw [TcpServer.setStage, TcpServer.updateLoop_self]
      exact hnotin
    · refine (hmoved.active M).not_mem (Or.inr ?_)
      rw [hloop]
      exact fun he => hM he.symm

/-- **A connection nobody refers to is removed everywhere.** -/
theorem Refines.removed_of_unreferenced {s : TcpServer} {a : ConnectionId → Life}
    {p : ConnectionId} (h : Refines s a) {c : ConnectionObject} (hc : s.objects p = some c)
    (href : ¬ s.Referenced p) : (a p).phase = .removed := by
  obtain ⟨-, -, -, hstate⟩ := h.tables.object hc
  have hmap : ¬ (a p).phase.inMap := by
    intro hin
    exact href (Or.inl ⟨_, h.tables.connections.get hin⟩)
  have hdue : ∀ L f, (a p).due p = some (L, f) → f.connection ≠ p := by
    intro L f hdue hf
    have hmem : f ∈ (s.loops L).pending := by
      apply ((h.mail L).2 f).mpr
      rw [hf]
      exact hdue
    exact href (Or.inr (Or.inl ⟨L, f, List.mem_append_left _ hmem, hf⟩))
  cases hphase : (a p).phase with
  | absent =>
      rw [hphase] at hstate
      cases hstate
  | connecting =>
      rw [hphase] at hmap
      exact absurd trivial hmap
  | connected =>
      rw [hphase] at hmap
      exact absurd trivial hmap
  | closing =>
      rw [hphase] at hmap
      exact absurd trivial hmap
  | erased =>
      exfalso
      refine hdue (a p).loop (.connectionDestructor p) ?_ rfl
      rw [Life.due, hphase]
  | removed => rfl
  | closed =>
      rw [hphase] at hstate
      cases hstate

theorem Refines.destroy {s t : TcpServer} {a : ConnectionId → Life} {p : ConnectionId}
    (h : Refines s a) (href : ¬ s.Referenced p) (ht : s.destroy p = some t) :
    ∃ life, (a p).Step .destructor life ∧ Refines t (Function.update a p life) := by
  obtain ⟨c, hc, -⟩ := TcpServer.destroy_cases ht
  have hphase := h.removed_of_unreferenced hc href
  obtain ⟨L, fd, hp⟩ : ∃ L fd, a p = ⟨.removed, L, fd⟩ := ⟨(a p).loop, (a p).fd, by rw [← hphase]⟩
  refine ⟨⟨.closed, L, fd⟩, hp ▸ .destructor, h.tables.destroy hp ht, ?_, ?_⟩
  · obtain ⟨_, -, rfl⟩ := TcpServer.destroy_cases ht
    have hnone : (a p).due p = none := by
      rw [hp]
      rfl
    rw [due_update]
    show Mail _ (Function.update (fun q => (a q).due q) p none)
    rw [← hnone, Function.update_eq_self]
    exact Mail.of_pending h.mail fun _ => rfl
  · obtain ⟨_, -, rfl⟩ := TcpServer.destroy_cases ht
    intro M
    refine (h.active M).update ((h.active M).not_mem (Or.inl ?_)) _
    rw [hp]
    rintro ⟨⟩

/-! ### All steps -/

theorem Refines.shutdown {s t : TcpServer} {a : ConnectionId → Life} {p : ConnectionId}
    (h : Refines s a) (ht : s.shutdown p = some t) : Refines t a := by
  refine ⟨h.tables.shutdown ht, ?_, ?_⟩
  · obtain ⟨_, -, rfl⟩ := TcpServer.shutdown_cases ht
    exact h.mail
  · obtain ⟨_, -, rfl⟩ := TcpServer.shutdown_cases ht
    exact h.active

/-- **Every step of the server is one call of one life, or of none.** -/
theorem step_refines {n : ℕ} {s t : TcpServer} {a : ConnectionId → Life} {l : ServerStep}
    (h : Refines s a) (hstep : TcpServer.Step n s l t) :
    Follows lives Refines t a (performs ⟨s, l, t⟩) := by
  cases hstep with
  | @handleNewConnection connfd _ hat hfd =>
      obtain ⟨L, next, heq⟩ := s.handleNewConnection_eq n connfd
      refine ⟨_, ⟨⟨.connecting, L, connfd⟩, ?_, rfl⟩, ?_⟩
      · exact .handleNewConnection (h.tables.fresh s.made (Nat.le_refl _)) L connfd
      · rw [heq]
        exact h.handleNewConnection hat.inline hfd
  | @poll L active hat hnodup hregistered =>
      refine h.setStage (by rw [hat.stage]; rfl) ⟨hnodup, ?_⟩
      intro p hp
      obtain ⟨fd, events, hinterest⟩ := hregistered p hp
      have hreg : (s.loops L).poller.registered fd = some p := by
        rw [Epoller.registered, hinterest]
        rfl
      exact (((h.tables.pollers L).interest fd p).mp hreg).1
  | @handleEvent L p active hat =>
      have hattends := h.active L
      rw [hat.stage] at hattends
      exact h.setStage (by rw [hat.stage]; rfl)
        ⟨(List.nodup_cons.mp hattends.1).2,
          fun q hq => hattends.2 q (List.mem_cons_of_mem _ hq)⟩
  | @handleClose L p active _ hat ht =>
      obtain ⟨life, hlife, href⟩ := h.handleClose hat ht
      rw [performs_handleClose hat]
      exact ⟨_, ⟨life, hlife, rfl⟩, href⟩
  | callFunctors hat => exact h.callFunctors hat
  | @runFunctor L f functors ran _ hat ht =>
      obtain ⟨life, hlife, href⟩ := h.runFunctor hat ht
      rw [performs_runFunctor hat]
      exact ⟨_, ⟨life, hlife, rfl⟩, href⟩
  | @runInline L f _ hinline ht =>
      obtain ⟨life, hlife, href⟩ := h.runInline hinline ht
      rw [performs_runInline hinline]
      exact ⟨_, ⟨life, hlife, rfl⟩, href⟩
  | returnToPoll hat => exact h.setStage (by rw [hat.stage]; rfl) attends_nil
  | shutdown _ ht => exact h.shutdown ht
  | keep _ => exact ⟨⟨h.tables.objects, h.tables.fresh, h.tables.openFds, h.tables.distinct,
      h.tables.connections, h.tables.pollers⟩, h.mail, h.active⟩
  | release _ => exact ⟨⟨h.tables.objects, h.tables.fresh, h.tables.openFds, h.tables.distinct,
      h.tables.connections, h.tables.pollers⟩, h.mail, h.active⟩
  | @destroy p _ href ht =>
      obtain ⟨life, hlife, href⟩ := h.destroy href ht
      exact ⟨_, ⟨life, hlife, rfl⟩, href⟩

/-! ## Runs -/

theorem new_refines : ∃ a, lives.init a ∧ Refines TcpServer.new a := by
  refine ⟨fun _ => ⟨.absent, 0, 0⟩, fun _ => rfl, ⟨?_, ?_, ?_, ?_, ?_, ?_⟩, ?_, ?_⟩
  · exact fun _ => rfl
  · exact fun _ _ => rfl
  · exact fun _ hp => absurd rfl hp
  · exact fun _ _ hp => absurd rfl hp
  · exact Indexes.empty fun _ => id
  · intro L
    refine ⟨Indexes.empty ?_, Indexes.empty ?_, rfl⟩
    · exact fun _ hl => hl.1
    · rintro _ ⟨⟨⟩, -⟩
  · exact Delivers.empty
  · exact fun _ => attends_nil

theorem run_refines {n : ℕ} {ms : List (Move TcpServer ServerStep)} {s : TcpServer}
    (h : Run (tcpServer n) ms s) :
    ∃ a, Refines s a ∧ ∀ p, callsOn p (visible performs ms) = (a p).phase.calls := by
  obtain ⟨as, a, hrun, href, hlabels⟩ := Run.simulate (R := Refines) performs
    (by rintro _ rfl; exact new_refines) (fun _ _ _ _ h hstep => step_refines h hstep) h
  refine ⟨a, href, fun p => ?_⟩
  rw [← hlabels]
  exact callsOn_lives hrun p

/-! ## What the server finds -/

/-- The call the thread of a loop makes next; the event in front of it may be
the end of the stream. -/
def ServerLoop.nextCall (l : ServerLoop) : Option (ConnectionId × LifeCall) :=
  match l.inline, l.stage with
  | some f, _ => some (f.connection, f.lifeCall)
  | none, .handling (p :: _) => some (p, .handleClose)
  | none, .calling (f :: _) _ => some (f.connection, f.lifeCall)
  | none, _ => none

/-- What a call on `p`, made by the thread of loop `L`, finds. -/
def Meets (s : TcpServer) (L : ℕ) (p : ConnectionId) (c : ConnectionObject) : LifeCall → Prop
  | .connectionEstablished => c.loop = L ∧ (s.loops L).poller.channels c.conn.fd = none ∧
      (s.loops L).poller.interest c.conn.fd = none
  | .handleClose => c.loop = L ∧ (s.loops L).poller.channels c.conn.fd = some p
  | .handleCloseInLoop => L = 0 ∧ s.connections c.conn.fd = some p
  | .connectionDestructor => c.loop = L ∧ (s.loops L).poller.channels c.conn.fd = some p
  | _ => False

/-- Nothing in the server is stale. -/
structure Coherent (s : TcpServer) : Prop where
  /-- The object of the next call exists, and the tables have it where the call
  looks. -/
  calls : ∀ L p call, (s.loops L).nextCall = some (p, call) →
    ∃ c, s.objects p = some c ∧ Meets s L p c call
  /-- When the last reference goes, `connections_`, `channels_` and the kernel do
  not know the connection any more. -/
  forgotten : ∀ p c, s.objects p = some c → ¬ s.Referenced p →
    (∀ fd, s.connections fd ≠ some p) ∧
      ∀ L, (∀ fd, (s.loops L).poller.channels fd ≠ some p) ∧
        (s.loops L).poller.interest c.conn.fd = none
  /-- A descriptor that may be returned by `accept` has no entry anywhere. -/
  unused : ∀ fd, s.openFds fd = false → s.connections fd = none ∧
    ∀ L, (s.loops L).poller.channels fd = none ∧ (s.loops L).poller.interest fd = none
  /-- No `assert` fired and no `epoll_ctl` failed. -/
  quiet : ∀ L, (s.loops L).poller.alarms = []

theorem Tables.exists_object {s : TcpServer} {a : ConnectionId → Life} {p : ConnectionId}
    (h : Tables s a) (hp : (a p).phase.alive) :
    ∃ c, s.objects p = some c ∧ c.loop = (a p).loop ∧ c.conn.fd = (a p).fd := by
  cases hc : s.objects p with
  | none =>
      have hobject := h.objects p
      rw [hc] at hobject
      exact absurd hobject hp
  | some c =>
      obtain ⟨hloop, hfd, -⟩ := h.object hc
      exact ⟨c, rfl, hloop, hfd⟩

theorem Refines.meets_functor {s : TcpServer} {a : ConnectionId → Life} (h : Refines s a)
    {L : ℕ} {f : Functor} (hf : f ∈ (s.loops L).pending) :
    ∃ c, s.objects f.connection = some c ∧ Meets s L f.connection c f.lifeCall := by
  have hdue := h.mail.due_of_mem (k := L) hf
  cases f with
  | connectionEstablished p =>
      rcases Life.of_due hdue with ⟨-, fd, hp⟩ | ⟨⟨⟩, -⟩ | ⟨⟨⟩, -⟩
      replace hp : a p = ⟨.connecting, L, fd⟩ := hp
      have halive : (a p).phase.alive := by
        rw [hp]
        rintro ⟨⟩
      obtain ⟨c, hc, hloop, hfd⟩ := h.tables.exists_object halive
      refine ⟨c, hc, ?_, ?_, ?_⟩
      · rw [hloop, hp]
      · rw [hfd]
        exact h.tables.channels_free halive (by rw [hp]; exact id) L
      · rw [hfd]
        exact Option.map_eq_none_iff.mp
          (h.tables.interest_free halive (by rw [hp]; rintro ⟨⟩) L)
  | handleCloseInLoop p =>
      rcases Life.of_due hdue with ⟨⟨⟩, -⟩ | ⟨-, hL, M, fd, hp⟩ | ⟨⟨⟩, -⟩
      replace hp : a p = ⟨.closing, M, fd⟩ := hp
      obtain ⟨c, hc, -, hfd⟩ := h.tables.exists_object (p := p) (by rw [hp]; rintro ⟨⟩)
      refine ⟨c, hc, hL, ?_⟩
      rw [hfd]
      exact h.tables.connections.get (by rw [hp]; trivial)
  | connectionDestructor p =>
      rcases Life.of_due hdue with ⟨⟨⟩, -⟩ | ⟨⟨⟩, -⟩ | ⟨-, fd, hp⟩
      replace hp : a p = ⟨.erased, L, fd⟩ := hp
      obtain ⟨c, hc, hloop, hfd⟩ := h.tables.exists_object (p := p) (by rw [hp]; rintro ⟨⟩)
      refine ⟨c, hc, ?_, ?_⟩
      · rw [hloop, hp]
      · rw [hfd]
        exact (h.tables.pollers L).channels.get (by rw [hp]; exact ⟨trivial, rfl⟩)

theorem Refines.meets_active {s : TcpServer} {a : ConnectionId → Life} (h : Refines s a)
    {L : ℕ} {p : ConnectionId} (hp : p ∈ (s.loops L).stage.active) :
    ∃ c, s.objects p = some c ∧ Meets s L p c .handleClose := by
  obtain ⟨hphase, hL⟩ := (h.active L).2 p hp
  obtain ⟨c, hc, hloop, hfd⟩ := h.tables.exists_object (p := p) (by rw [hphase]; rintro ⟨⟩)
  refine ⟨c, hc, hloop.trans hL, ?_⟩
  rw [hfd]
  exact (h.tables.pollers L).channels.get ⟨by rw [hphase]; trivial, hL⟩

theorem Refines.coherent {s : TcpServer} {a : ConnectionId → Life} (h : Refines s a) :
    Coherent s := by
  constructor
  · intro L p call hcall
    unfold ServerLoop.nextCall at hcall
    split at hcall
    · next hinline =>
        cases hcall
        apply h.meets_functor
        rw [ServerLoop.pending, hinline]
        exact List.mem_cons_self
    · next hstage =>
        cases hcall
        apply h.meets_active
        rw [hstage]
        exact List.mem_cons_self
    · next hinline hstage =>
        cases hcall
        apply h.meets_functor
        rw [ServerLoop.pending, hinline, hstage]
        exact List.mem_cons_self
    · cases hcall
  · intro p c hc href
    have hphase := h.removed_of_unreferenced hc href
    obtain ⟨-, hfd, -⟩ := h.tables.object hc
    refine ⟨?_, fun L => ⟨?_, ?_⟩⟩
    · intro fd hfd'
      obtain ⟨hin, -⟩ := (h.tables.connections fd p).mp hfd'
      rw [hphase] at hin
      exact hin
    · intro fd hfd'
      obtain ⟨⟨hpolled, -⟩, -⟩ := ((h.tables.pollers L).channels fd p).mp hfd'
      rw [hphase] at hpolled
      exact hpolled
    · rw [hfd]
      apply Option.map_eq_none_iff.mp
      refine h.tables.interest_free ?_ ?_ L
      · rw [hphase]
        rintro ⟨⟩
      · rw [hphase]
        rintro ⟨⟩
  · intro fd hfd
    refine ⟨h.tables.connections_free hfd, fun L => ⟨?_, ?_⟩⟩
    · apply (h.tables.pollers L).channels.free
      rintro q ⟨hq, -⟩
      exact h.tables.not_open hfd (LifePhase.alive_of_polled hq)
    · apply Option.map_eq_none_iff.mp
      apply (h.tables.pollers L).interest.free
      rintro q ⟨hq, -⟩
      apply h.tables.not_open hfd
      rw [hq]
      rintro ⟨⟩
  · exact fun L => (h.tables.pollers L).alarms

/-- **The lifecycle of a connection across loops**: in every interleaving the
calls on a connection are a beginning of one and the same sequence, each made
where it belongs, and no table has anything stale. -/
theorem connection_lifecycle {n : ℕ} {ms : List (Move TcpServer ServerStep)} {s : TcpServer}
    (h : Run (tcpServer n) ms s) :
    (∀ p, callsOn p (visible performs ms) <+:
      [.handleNewConnection, .connectionEstablished, .handleClose, .handleCloseInLoop,
        .connectionDestructor, .destructor]) ∧ Coherent s := by
  obtain ⟨a, href, hcalls⟩ := run_refines h
  refine ⟨fun p => ?_, href.coherent⟩
  rw [hcalls p]
  exact (a p).phase.calls_prefix

theorem crossing_run : ∃ ms s c, Run (tcpServer 1) ms s ∧
    labels ms = [.poll 0 [], .handleNewConnection 5, .poll 1 [], .callFunctors 1, .runFunctor 1,
      .returnToPoll 1, .poll 1 [0], .handleClose 1, .callFunctors 0, .runFunctor 0,
      .callFunctors 1, .runFunctor 1] ∧
    callsOn 0 (visible performs ms) = [.handleNewConnection, .connectionEstablished,
      .handleClose, .handleCloseInLoop, .connectionDestructor] ∧
    s.At 0 (.calling [] [.handleCloseInLoop 0]) ∧ s.At 1 (.calling [] [.connectionDestructor 0]) ∧
    (∀ L, (s.loops L).pending = []) ∧ (∀ L, (s.loops (L + 2)).stage.ran = []) ∧
    s.objects 0 = some c ∧ s.connections c.conn.fd = none ∧ s.kept 0 = 0 := by
  have h₁ : Run (tcpServer 1) _ _ := .next (.start rfl)
    (show TcpServer.Step 1 _ (.poll 0 []) _ from
      .poll ⟨rfl, rfl⟩ List.nodup_nil (fun _ h => absurd h List.not_mem_nil))
  have h₂ := Run.next h₁ (show TcpServer.Step 1 _ (.handleNewConnection 5) _ from
      .handleNewConnection ⟨rfl, rfl⟩ rfl)
  have h₃ := Run.next h₂ (show TcpServer.Step 1 _ (.poll 1 []) _ from
      .poll ⟨rfl, rfl⟩ List.nodup_nil (fun _ h => absurd h List.not_mem_nil))
  have h₄ := Run.next h₃ (show TcpServer.Step 1 _ (.callFunctors 1) _ from
      .callFunctors ⟨rfl, rfl⟩)
  have h₅ := Run.next h₄ (show TcpServer.Step 1 _ (.runFunctor 1) _ from
      .runFunctor ⟨rfl, rfl⟩ rfl)
  have h₆ := Run.next h₅ (show TcpServer.Step 1 _ (.returnToPoll 1) _ from
      .returnToPoll ⟨rfl, rfl⟩)
  have h₇ := Run.next h₆ (show TcpServer.Step 1 _ (.poll 1 [0]) _ from
      .poll ⟨rfl, rfl⟩ (List.nodup_singleton 0) (by
        intro p hp
        obtain rfl := List.mem_singleton.mp hp
        exact ⟨5, _, rfl⟩))
  have h₈ := Run.next h₇ (show TcpServer.Step 1 _ (.handleClose 1) _ from
      .handleClose ⟨rfl, rfl⟩ rfl)
  have h₉ := Run.next h₈ (show TcpServer.Step 1 _ (.callFunctors 0) _ from
      .callFunctors ⟨rfl, rfl⟩)
  have h₁₀ := Run.next h₉ (show TcpServer.Step 1 _ (.runFunctor 0) _ from
      .runFunctor ⟨rfl, rfl⟩ rfl)
  have h₁₁ := Run.next h₁₀ (show TcpServer.Step 1 _ (.callFunctors 1) _ from
      .callFunctors ⟨rfl, rfl⟩)
  have h₁₂ := Run.next h₁₁ (show TcpServer.Step 1 _ (.runFunctor 1) _ from
      .runFunctor ⟨rfl, rfl⟩ rfl)
  refine ⟨_, _, _, h₁₂, rfl, rfl, ⟨rfl, rfl⟩, ⟨rfl, rfl⟩, ?_, fun _ => rfl, rfl, rfl, rfl⟩
  rintro (_ | _ | L)
  · rfl
  · rfl
  · rfl

theorem connection_lifecycle_crossing : ∃ ms s, Run (tcpServer 1) ms s ∧
    labels ms = [.poll 0 [], .handleNewConnection 5, .poll 1 [], .callFunctors 1, .runFunctor 1,
      .returnToPoll 1, .poll 1 [0], .handleClose 1, .callFunctors 0, .runFunctor 0,
      .callFunctors 1, .runFunctor 1] ∧
    callsOn 0 (visible performs ms) = [.handleNewConnection, .connectionEstablished,
      .handleClose, .handleCloseInLoop, .connectionDestructor] ∧
    (∀ p, callsOn p (visible performs ms) <+:
      [.handleNewConnection, .connectionEstablished, .handleClose, .handleCloseInLoop,
        .connectionDestructor, .destructor]) ∧ Coherent s := by
  obtain ⟨ms, s, -, hrun, hlabels, hcalls, -⟩ := crossing_run
  exact ⟨ms, s, hrun, hlabels, hcalls, connection_lifecycle hrun⟩

end TinyMuduo

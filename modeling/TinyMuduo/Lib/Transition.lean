import Mathlib.Data.List.Induction
import Mathlib.Logic.Relation

/-!
# Labelled transition systems and their runs

A system is a set of initial states and a labelled step relation. A *run* keeps
every transition it took, with the states before and after it, so that a
property may speak about the moment of a step ("whenever the label is `l`, the
state before it satisfies `P`") and not only about the last state.

Four rules carry every proof over runs: an invariant of the states
(`Run.invariant`), an invariant of the history and the state together
(`Run.history`), an invariant from some move on (`Run.since`), and a forward
simulation that turns each run into a run of an abstract system with the same
visible labels (`Run.simulate`). A measure that goes down shows what the moves of
some threads can lead to (`Leads.of_measure`).
-/

namespace Transition

structure LTS (σ ι : Type*) where
  init : σ → Prop
  step : σ → ι → σ → Prop

structure Move (σ ι : Type*) where
  pre : σ
  label : ι
  post : σ

variable {σ ι α κ : Type*}

/-- `Run T ms s`: the moves `ms`, taken in this order from an initial state,
lead to `s`. -/
inductive Run (T : LTS σ ι) : List (Move σ ι) → σ → Prop where
  | start {s : σ} : T.init s → Run T [] s
  | next {ms : List (Move σ ι)} {s t : σ} {l : ι} :
      Run T ms s → T.step s l t → Run T (ms ++ [⟨s, l, t⟩]) t

def Reachable (T : LTS σ ι) (s : σ) : Prop := ∃ ms, Run T ms s

theorem Reachable.start {T : LTS σ ι} {s : σ} (h : T.init s) : Reachable T s := ⟨[], .start h⟩

theorem Reachable.next {T : LTS σ ι} {s t : σ} {l : ι} (h : Reachable T s) (hs : T.step s l t) :
    Reachable T t :=
  let ⟨_, hr⟩ := h
  ⟨_, .next hr hs⟩

/-- **Invariant rule for a history together with the state it leads to.** -/
theorem Run.history {T : LTS σ ι} {I : List (Move σ ι) → σ → Prop}
    (hinit : ∀ s, T.init s → I [] s)
    (hstep : ∀ ms s l t, Run T ms s → I ms s → T.step s l t → I (ms ++ [⟨s, l, t⟩]) t)
    {ms : List (Move σ ι)} {s : σ} (h : Run T ms s) : I ms s := by
  induction h with
  | start hs => exact hinit _ hs
  | next hr hs ih => exact hstep _ _ _ _ hr ih hs

/-- **Invariant rule for states.** -/
theorem Run.invariant {T : LTS σ ι} {I : σ → Prop}
    (hinit : ∀ s, T.init s → I s)
    (hstep : ∀ s l t, I s → T.step s l t → I t)
    {ms : List (Move σ ι)} {s : σ} (h : Run T ms s) : I s :=
  Run.history (I := fun _ s => I s) hinit
    (fun _ _ _ _ _ hi hs => hstep _ _ _ hi hs) h

/-- Every move of a run is a step between states the run reached. -/
theorem Run.move {T : LTS σ ι} {ms : List (Move σ ι)} {s : σ} (h : Run T ms s) :
    ∀ m ∈ ms, Reachable T m.pre ∧ T.step m.pre m.label m.post := by
  induction h with
  | start _ => simp
  | @next ms s t l hr hs ih =>
      intro m hm
      rcases List.mem_append.mp hm with hm | hm
      · exact ih m hm
      · obtain rfl := List.mem_singleton.mp hm
        exact ⟨⟨ms, hr⟩, hs⟩

/-- A run up to one of its moves. -/
theorem Run.split {T : LTS σ ι} {ms : List (Move σ ι)} {s : σ} (h : Run T ms s) :
    ∀ {before after : List (Move σ ι)} {m : Move σ ι}, ms = before ++ m :: after →
      Run T before m.pre ∧ T.step m.pre m.label m.post := by
  induction h with
  | start _ =>
      intro before after m hms
      exact absurd hms.symm (List.append_ne_nil_of_right_ne_nil _ (List.cons_ne_nil _ _))
  | @next ms s t l hr hs ih =>
      intro before after m hms
      rcases List.eq_nil_or_concat after with rfl | ⟨after, x, rfl⟩
      · obtain ⟨rfl, hm⟩ := List.append_inj' hms rfl
        obtain rfl := List.singleton_inj.mp hm
        exact ⟨hr, hs⟩
      · rw [List.concat_eq_append, ← List.cons_append, ← List.append_assoc] at hms
        exact ih (List.append_inj' hms rfl).1

/-- **Invariant rule for the history from a move on**: `I` speaks about the moves
made since and the state they led to. -/
theorem Run.after {T : LTS σ ι} {I : List (Move σ ι) → σ → Prop} {ms : List (Move σ ι)} {s : σ}
    (h : Run T ms s) : ∀ {before after : List (Move σ ι)} {m : Move σ ι},
      ms = before ++ m :: after → I [] m.post →
      (∀ xs, ∀ x ∈ after, I xs x.pre → T.step x.pre x.label x.post → I (xs ++ [x]) x.post) →
      I after s := by
  induction h with
  | start _ =>
      intro before after m hms
      exact absurd hms.symm (List.append_ne_nil_of_right_ne_nil _ (List.cons_ne_nil _ _))
  | @next ms s t l hr hs ih =>
      intro before after m hms hm hafter
      rcases List.eq_nil_or_concat after with rfl | ⟨after, x, rfl⟩
      · obtain ⟨-, rfl⟩ := List.append_inj' hms rfl |>.imp_right List.singleton_inj.mp
        exact hm
      · rw [List.concat_eq_append, ← List.cons_append, ← List.append_assoc] at hms
        obtain ⟨rfl, hx⟩ := List.append_inj' hms rfl
        obtain rfl := List.singleton_inj.mp hx
        rw [List.concat_eq_append] at hafter ⊢
        refine hafter _ _ (List.mem_append_right _ List.mem_cons_self) ?_ hs
        exact ih rfl hm fun xs y hy => hafter xs y (List.mem_append_left _ hy)

/-- **Invariant rule from a move on**: what holds behind a move of the run and is
kept by the later ones holds at the end. -/
theorem Run.since {T : LTS σ ι} {I : σ → Prop} {ms before after : List (Move σ ι)} {s : σ}
    {m : Move σ ι} (h : Run T ms s) (hms : ms = before ++ m :: after) (hm : I m.post)
    (hstep : ∀ x ∈ after, I x.pre → T.step x.pre x.label x.post → I x.post) : I s :=
  h.after (I := fun _ s => I s) hms hm fun _ x hx => hstep x hx

/-- It holds before each of the later moves, too. -/
theorem Run.since_pre {T : LTS σ ι} {I : σ → Prop} {ms before after : List (Move σ ι)} {s : σ}
    {m : Move σ ι} (h : Run T ms s) (hms : ms = before ++ m :: after) (hm : I m.post)
    (hstep : ∀ x ∈ after, I x.pre → T.step x.pre x.label x.post → I x.post) :
    ∀ x ∈ after, I x.pre := by
  intro x hx
  obtain ⟨a, b, rfl⟩ := List.append_of_mem hx
  rw [← List.cons_append, ← List.append_assoc] at hms
  exact (h.split hms).1.since rfl hm fun y hy => hstep y (List.mem_append_left _ hy)

/-- One move of a history comes after another. -/
def Later (ms : List (Move σ ι)) (m r : Move σ ι) : Prop :=
  ∃ before mid after, ms = before ++ m :: (mid ++ r :: after)

theorem Later.mem {ms : List (Move σ ι)} {m r : Move σ ι} (h : Later ms m r) : m ∈ ms ∧ r ∈ ms := by
  obtain ⟨before, mid, after, rfl⟩ := h
  simp

/-- **Invariant rule between two moves**: what holds behind the first one and is
kept holds before the second one. -/
theorem Run.later {T : LTS σ ι} {I : σ → Prop} {ms : List (Move σ ι)} {s : σ} {m r : Move σ ι}
    (h : Run T ms s) (hlater : Later ms m r) (hm : I m.post)
    (hstep : ∀ s l t, I s → T.step s l t → I t) : I r.pre := by
  obtain ⟨before, mid, after, rfl⟩ := hlater
  refine h.since_pre rfl hm ?_ r (List.mem_append_right _ List.mem_cons_self)
  intro x _ hx hmove
  exact hstep _ _ _ hx hmove

/-! ## Labels -/

/-- A run whose moves another system admits is a run of that one. -/
theorem Run.admitted {T U : LTS σ ι} {ms : List (Move σ ι)} {s : σ} (h : Run T ms s)
    (hinit : ∀ s, T.init s → U.init s)
    (hstep : ∀ m ∈ ms, T.step m.pre m.label m.post → U.step m.pre m.label m.post) :
    Run U ms s := by
  induction h with
  | start hs => exact .start (hinit _ hs)
  | @next ms s t l _ hs ih =>
      have hall := List.forall_mem_append.mp hstep
      exact .next (ih hall.1) (hall.2 ⟨s, l, t⟩ (List.mem_singleton_self _) hs)

def visible (view : Move σ ι → Option κ) (ms : List (Move σ ι)) : List κ :=
  ms.filterMap view

def labels (ms : List (Move σ ι)) : List ι := ms.map Move.label

theorem visible_snoc (view : Move σ ι → Option κ) (ms : List (Move σ ι)) (m : Move σ ι) :
    visible view (ms ++ [m]) = visible view ms ++ (view m).toList := by
  rw [visible, List.filterMap_append]
  congr 1

theorem labels_snoc (ms : List (Move σ ι)) (m : Move σ ι) :
    labels (ms ++ [m]) = labels ms ++ [m.label] := List.map_append

/-- **Potential rule**: when the labels that cost something use `w` up and each
other one brings in at most `gain`, the former are no more than what was there
and what was brought in. -/
theorem Run.potential {T : LTS σ ι} (w : σ → ℕ) (costs : ι → Bool) (start gain : ℕ)
    (hinit : ∀ s, T.init s → w s = start)
    (hcosts : ∀ s l t, Reachable T s → T.step s l t → costs l = true → w t < w s)
    (hgain : ∀ s l t, Reachable T s → T.step s l t → costs l = false → w t ≤ w s + gain)
    {ms : List (Move σ ι)} {s : σ} (h : Run T ms s) :
    (labels ms).countP costs + w s ≤ start + gain * (labels ms).countP (!costs ·) := by
  refine Run.history (I := fun ms s =>
    (labels ms).countP costs + w s ≤ start + gain * (labels ms).countP (!costs ·)) ?_ ?_ h
  · intro s hs
    simp [labels, hinit s hs]
  · intro ms s l t hr ih hs
    rw [labels_snoc, List.countP_append, List.countP_append, List.countP_singleton,
      List.countP_singleton, Nat.mul_add]
    cases hl : costs l with
    | true =>
        have hlt := hcosts s l t ⟨ms, hr⟩ hs hl
        simp only [if_true, Bool.not_true, Bool.false_eq_true, if_false, Nat.mul_zero]
        omega
    | false =>
        have hle := hgain s l t ⟨ms, hr⟩ hs hl
        simp only [if_true, Bool.not_false, Bool.false_eq_true, if_false, Nat.mul_one]
        omega

/-! ## Moves of some threads only -/

/-- Moves with labels of the kind `P` lead from one state to the other. -/
def Leads (T : LTS σ ι) (P : ι → Prop) : σ → σ → Prop :=
  Relation.ReflTransGen fun s t => ∃ l, P l ∧ T.step s l t

theorem Leads.refl {T : LTS σ ι} {P : ι → Prop} (s : σ) : Leads T P s s :=
  Relation.ReflTransGen.refl

theorem Leads.trans {T : LTS σ ι} {P : ι → Prop} {s t u : σ} (h : Leads T P s t)
    (h' : Leads T P t u) : Leads T P s u :=
  Relation.ReflTransGen.trans h h'

theorem Leads.of_step {T : LTS σ ι} {P : ι → Prop} {s t : σ} {l : ι} (h : T.step s l t)
    (hl : P l) : Leads T P s t :=
  Relation.ReflTransGen.single ⟨l, hl, h⟩

theorem Run.leads {T : LTS σ ι} {P : ι → Prop} {ms : List (Move σ ι)} {s t : σ}
    (h : Run T ms s) (hleads : Leads T P s t) :
    ∃ ms', Run T (ms ++ ms') t ∧ ∀ m ∈ ms', P m.label := by
  induction hleads with
  | refl => exact ⟨[], by rwa [List.append_nil], fun m hm => absurd hm List.not_mem_nil⟩
  | @tail t u _ hstep ih =>
      obtain ⟨l, hl, hstep⟩ := hstep
      obtain ⟨ms', hrun, hall⟩ := ih
      refine ⟨ms' ++ [⟨t, l, u⟩], ?_, ?_⟩
      · rw [← List.append_assoc]
        exact .next hrun hstep
      · rw [List.forall_mem_append, List.forall_mem_singleton]
        exact ⟨hall, hl⟩

/-- **Measure rule**: when from each state that is not `Done` moves of the kind `P` lead
to one of a smaller measure, they lead to one that is `Done`. -/
theorem Leads.of_measure {T : LTS σ ι} {P : ι → Prop} {I : ℕ → σ → Prop} {Done : σ → Prop}
    (hdown : ∀ k s, I k s → ¬ Done s → ∃ k' t, k' < k ∧ Leads T P s t ∧ I k' t)
    {k : ℕ} {s : σ} (hs : I k s) : ∃ k' t, Leads T P s t ∧ I k' t ∧ Done t := by
  induction k using Nat.strongRecOn generalizing s with
  | _ k ih =>
      by_cases hdone : Done s
      · exact ⟨k, s, .refl s, hs, hdone⟩
      · obtain ⟨k', t, hlt, hleads, ht⟩ := hdown k s hs hdone
        obtain ⟨k'', u, hleads', hu⟩ := ih k' hlt ht
        exact ⟨k'', u, hleads.trans hleads', hu⟩

/-- A system whose labels determine the next state. -/
def LTS.ofNext (init : σ → Prop) (next : σ → ι → Option σ) : LTS σ ι where
  init := init
  step s l t := next s l = some t

/-- Such a system is run by its labels. -/
theorem exists_run_of_labels {init : σ → Prop} {next : σ → ι → Option σ} {s : σ} (hs : init s)
    {ls : List ι} : ∀ {t : σ}, ls.foldlM next s = some t →
    ∃ ms, Run (LTS.ofNext init next) ms t ∧ labels ms = ls := by
  induction ls using List.reverseRecOn with
  | nil =>
      intro t h
      obtain rfl : s = t := Option.some.inj h
      exact ⟨[], .start hs, rfl⟩
  | append_singleton ls l ih =>
      intro t h
      rw [List.foldlM_append] at h
      obtain ⟨u, hu, hstep⟩ := Option.bind_eq_some_iff.mp h
      obtain ⟨ms, hrun, hlabels⟩ := ih hu
      have hstep' : (LTS.ofNext init next).step u l t := by
        show next u l = some t
        simpa using hstep
      exact ⟨ms ++ [⟨u, l, t⟩], .next hrun hstep', by simp [labels, ← hlabels]⟩

/-- From a reachable state, too, labels are enough. -/
theorem Reachable.steps {init : σ → Prop} {next : σ → ι → Option σ} {s : σ}
    (hs : Reachable (LTS.ofNext init next) s) (ls : List ι) :
    ∀ {t : σ}, ls.foldlM next s = some t → Reachable (LTS.ofNext init next) t := by
  induction ls generalizing s with
  | nil =>
      intro t h
      exact Option.some.inj h ▸ hs
  | cons l ls ih =>
      intro t h
      rw [List.foldlM_cons] at h
      obtain ⟨u, hu, h⟩ := Option.bind_eq_some_iff.mp h
      exact ih (hs.next hu) h

/-- The moves that labels make from a state, and where they end. -/
def moves (next : σ → ι → Option σ) : σ → List ι → Option (List (Move σ ι) × σ)
  | s, [] => some ([], s)
  | s, l :: ls => (next s l).bind fun t =>
      (moves next t ls).map fun p => (⟨s, l, t⟩ :: p.1, p.2)

theorem labels_of_moves {next : σ → ι → Option σ} : ∀ {ls : List ι} {s : σ}
    {p : List (Move σ ι) × σ}, moves next s ls = some p → labels p.1 = ls := by
  intro ls
  induction ls with
  | nil =>
      intro s p h
      obtain rfl := Option.some.inj h
      rfl
  | cons l ls ih =>
      intro s p h
      obtain ⟨t, -, h⟩ := Option.bind_eq_some_iff.mp h
      obtain ⟨q, hq, rfl⟩ := Option.map_eq_some_iff.mp h
      exact congrArg (l :: ·) (ih hq)

theorem Run.moves {init : σ → Prop} {next : σ → ι → Option σ} {ms : List (Move σ ι)} {s : σ}
    (hs : Run (LTS.ofNext init next) ms s) (ls : List ι) :
    ∀ {p : List (Move σ ι) × σ}, Transition.moves next s ls = some p →
      Run (LTS.ofNext init next) (ms ++ p.1) p.2 := by
  induction ls generalizing ms s with
  | nil =>
      intro p h
      obtain rfl := Option.some.inj h
      rw [List.append_nil]
      exact hs
  | cons l ls ih =>
      intro p h
      obtain ⟨t, ht, h⟩ := Option.bind_eq_some_iff.mp h
      obtain ⟨q, hq, rfl⟩ := Option.map_eq_some_iff.mp h
      have hrun := ih (hs.next (l := l) ht) hq
      rw [List.append_assoc] at hrun
      exact hrun

/-! ## Simulation -/

/-- The abstract state follows the concrete one to `t`: by a step with the label
an observer sees, or by standing still when there is none. -/
def Follows (A : LTS α κ) (R : σ → α → Prop) (t : σ) (a : α) : Option κ → Prop
  | none => R t a
  | some k => ∃ b, A.step a k b ∧ R t b

/-- **Forward simulation**: when each move of `T` is matched by one step of `A`
with the label an observer sees, or by none when the move is hidden, every run
of `T` is matched by a run of `A` whose labels are what the observer sees. -/
theorem Run.simulate {T : LTS σ ι} {A : LTS α κ} (view : Move σ ι → Option κ)
    {R : σ → α → Prop}
    (hinit : ∀ s, T.init s → ∃ a, A.init a ∧ R s a)
    (hstep : ∀ s l t a, R s a → T.step s l t → Follows A R t a (view ⟨s, l, t⟩))
    {ms : List (Move σ ι)} {s : σ} (h : Run T ms s) :
    ∃ as a, Run A as a ∧ R s a ∧ labels as = visible view ms := by
  induction h with
  | start hs =>
      obtain ⟨a, ha, hr⟩ := hinit _ hs
      exact ⟨[], a, .start ha, hr, rfl⟩
  | @next ms s t l _ hs ih =>
      obtain ⟨as, a, hrun, hr, hl⟩ := ih
      have hm := hstep s l t a hr hs
      rw [visible_snoc]
      cases hv : view ⟨s, l, t⟩ with
      | none =>
          rw [hv] at hm
          exact ⟨as, a, hrun, hm, by simpa using hl⟩
      | some k =>
          rw [hv] at hm
          obtain ⟨b, hab, hb⟩ := hm
          refine ⟨as ++ [⟨a, k, b⟩], b, .next hrun hab, hb, ?_⟩
          simp [labels, ← hl]

end Transition

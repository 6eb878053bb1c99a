import Mathlib.Data.List.Nodup
import Mathlib.Logic.Function.Basic

/-!
# Tables and mailboxes that account for their owners

Every owner has a record. A table *indexes* the owners whose record is listed
when each of them stands at the key of its record and nothing else stands
anywhere. Mailboxes *deliver* when every addressee has the message that is due to
it exactly once, in the right box, and no box holds anything else.

Both are kept by adding for one owner and by removing for one owner, and both
determine what is found: a lookup at the key of a listed owner finds that owner,
and a message taken out of a box was due.
-/

namespace Accounts

variable {κ ι α β : Type*}

/-! ## Tables -/

/-- The table `T` holds exactly the owners whose record is `listed`, each at the
key of its record. -/
def Indexes (T : κ → Option ι) (listed : β → Prop) (key : β → κ) (record : ι → β) : Prop :=
  ∀ k i, T k = some i ↔ listed (record i) ∧ key (record i) = k

namespace Indexes

variable {T : κ → Option ι} {listed : β → Prop} {key : β → κ} {record : ι → β}

theorem get (h : Indexes T listed key record) {i : ι} (hi : listed (record i)) :
    T (key (record i)) = some i :=
  (h (key (record i)) i).mpr ⟨hi, rfl⟩

theorem free (h : Indexes T listed key record) {k : κ}
    (hk : ∀ i, listed (record i) → key (record i) ≠ k) : T k = none := by
  cases hT : T k with
  | none => rfl
  | some i =>
      obtain ⟨hi, hki⟩ := (h k i).mp hT
      exact absurd hki (hk i hi)

theorem empty (h : ∀ i, ¬ listed (record i)) : Indexes (fun _ => none) listed key record := by
  intro k i
  constructor
  · rintro ⟨⟩
  · rintro ⟨hi, -⟩
    exact absurd hi (h i)

variable [DecidableEq ι]

theorem same (h : Indexes T listed key record) {i : ι} {r : β}
    (hlisted : listed r ↔ listed (record i)) (hkey : listed r → key r = key (record i)) :
    Indexes T listed key (Function.update record i r) := by
  intro k j
  rw [h k j]
  by_cases hj : j = i
  · subst hj
    rw [Function.update_self]
    constructor
    · rintro ⟨hi, hk⟩
      have hr := hlisted.mpr hi
      exact ⟨hr, (hkey hr).trans hk⟩
    · rintro ⟨hr, hk⟩
      exact ⟨hlisted.mp hr, (hkey hr).symm.trans hk⟩
  · rw [Function.update_of_ne hj]

variable [DecidableEq κ]

/-- **A new owner takes a free key.** -/
theorem insert (h : Indexes T listed key record) {i : ι} {r : β} (hfree : T (key r) = none)
    (hnew : ¬ listed (record i)) (hr : listed r) :
    Indexes (Function.update T (key r) (some i)) listed key (Function.update record i r) := by
  intro k j
  by_cases hj : j = i
  · subst hj
    rw [Function.update_self]
    by_cases hk : k = key r
    · rw [hk, Function.update_self]
      exact iff_of_true rfl ⟨hr, rfl⟩
    · rw [Function.update_of_ne hk, h k j]
      exact iff_of_false (fun h => hnew h.1) (fun h => hk h.2.symm)
  · rw [Function.update_of_ne hj, ← h k j]
    by_cases hk : k = key r
    · rw [hk, Function.update_self, hfree]
      exact iff_of_false (fun h => hj (Option.some.inj h).symm) (by rintro ⟨⟩)
    · rw [Function.update_of_ne hk]

/-- **An owner gives up its key.** -/
theorem erase (h : Indexes T listed key record) {i : ι} {r : β} (hi : listed (record i))
    (hgone : ¬ listed r) :
    Indexes (Function.update T (key (record i)) none) listed key
      (Function.update record i r) := by
  intro k j
  by_cases hj : j = i
  · subst hj
    rw [Function.update_self]
    refine iff_of_false ?_ (fun h => hgone h.1)
    intro hT
    by_cases hk : k = key (record j)
    · rw [hk, Function.update_self] at hT
      cases hT
    · rw [Function.update_of_ne hk] at hT
      exact hk ((h k j).mp hT).2.symm
  · rw [Function.update_of_ne hj, ← h k j]
    by_cases hk : k = key (record i)
    · rw [hk, Function.update_self, h.get hi]
      exact iff_of_false (by rintro ⟨⟩) (fun h => hj (Option.some.inj h).symm)
    · rw [Function.update_of_ne hk]

end Indexes

/-! ## Mailboxes -/

/-- Every box holds, once each, the messages that are due there. -/
def Delivers (boxes : κ → List α) (addressee : α → ι) (due : ι → Option (κ × α)) : Prop :=
  ∀ k, (boxes k).Nodup ∧ ∀ x, x ∈ boxes k ↔ due (addressee x) = some (k, x)

namespace Delivers

variable {boxes boxes' : κ → List α} {addressee : α → ι} {due : ι → Option (κ × α)}

theorem empty : Delivers (fun _ : κ => ([] : List α)) addressee fun _ => none := by
  intro k
  refine ⟨List.nodup_nil, fun x => iff_of_false (List.not_mem_nil) ?_⟩
  rintro ⟨⟩

/-- What lies in a box is due there. -/
theorem due_of_mem (h : Delivers boxes addressee due) {k : κ} {x : α} (hx : x ∈ boxes k) :
    due (addressee x) = some (k, x) :=
  ((h k).2 x).mp hx

variable [DecidableEq ι]

/-- **A message is taken out of its box.** -/
theorem take (h : Delivers boxes addressee due) {k : κ} {x : α} {before after : List α}
    (hbox : boxes k = before ++ x :: after) (hbox' : boxes' k = before ++ after)
    (hother : ∀ k', k' ≠ k → boxes' k' = boxes k') :
    Delivers boxes' addressee (Function.update due (addressee x) none) := by
  have hdue : due (addressee x) = some (k, x) := by
    apply h.due_of_mem
    rw [hbox]
    exact List.mem_append_right _ List.mem_cons_self
  obtain ⟨hnodup, hmem⟩ := h k
  rw [hbox, List.nodup_middle] at hnodup
  obtain ⟨hx, hrest⟩ := List.nodup_cons.mp hnodup
  intro k'
  by_cases hk : k' = k
  · subst hk
    rw [hbox']
    refine ⟨hrest, fun y => ?_⟩
    by_cases hy : addressee y = addressee x
    · rw [hy, Function.update_self]
      refine iff_of_false ?_ (by rintro ⟨⟩)
      intro hin
      -- nobody has two messages
      have hdue' : due (addressee y) = some (k', y) := by
        rw [← hmem, hbox]
        exact List.perm_middle.mem_iff.mpr (List.mem_cons_of_mem _ hin)
      rw [hy, hdue] at hdue'
      obtain rfl : x = y := congrArg Prod.snd (Option.some.inj hdue')
      exact hx hin
    · rw [Function.update_of_ne hy, ← hmem, hbox, List.perm_middle.mem_iff, List.mem_cons]
      exact ⟨Or.inr, fun h => h.resolve_left (fun he => hy (he ▸ rfl))⟩
  · rw [hother k' hk]
    refine ⟨(h k').1, fun y => ?_⟩
    rw [(h k').2 y]
    by_cases hy : addressee y = addressee x
    · rw [hy, Function.update_self, hdue]
      refine iff_of_false ?_ (by rintro ⟨⟩)
      intro he
      exact hk (congrArg Prod.fst (Option.some.inj he)).symm
    · rw [Function.update_of_ne hy]

/-- **A message is put into a box for someone who has none.** -/
theorem put (h : Delivers boxes addressee due) {k : κ} {x : α}
    (hnone : due (addressee x) = none) (hbox' : (boxes' k).Perm (x :: boxes k))
    (hother : ∀ k', k' ≠ k → boxes' k' = boxes k') :
    Delivers boxes' addressee (Function.update due (addressee x) (some (k, x))) := by
  intro k'
  -- so far there is no message for him anywhere
  have habsent : ∀ y, addressee y = addressee x → y ∉ boxes k' := by
    intro y hy hin
    have hdue := h.due_of_mem hin
    rw [hy, hnone] at hdue
    cases hdue
  by_cases hk : k' = k
  · subst hk
    refine ⟨hbox'.nodup_iff.mpr (List.nodup_cons.mpr ⟨habsent x rfl, (h k').1⟩), fun y => ?_⟩
    rw [hbox'.mem_iff, List.mem_cons]
    by_cases hy : addressee y = addressee x
    · rw [hy, Function.update_self]
      constructor
      · intro hin
        rw [hin.resolve_right (habsent y hy)]
      · intro he
        exact Or.inl (congrArg Prod.snd (Option.some.inj he)).symm
    · rw [Function.update_of_ne hy, (h k').2 y]
      exact ⟨fun hin => hin.resolve_left (fun he => hy (he ▸ rfl)), Or.inr⟩
  · rw [hother k' hk]
    refine ⟨(h k').1, fun y => ?_⟩
    by_cases hy : addressee y = addressee x
    · rw [hy, Function.update_self]
      refine iff_of_false (habsent y hy) ?_
      intro he
      exact hk (congrArg Prod.fst (Option.some.inj he)).symm
    · rw [Function.update_of_ne hy, (h k').2 y]

end Delivers

end Accounts

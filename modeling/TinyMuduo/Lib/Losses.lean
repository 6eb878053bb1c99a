import Mathlib.Data.List.Basic

/-!
# What arrives when some messages are lost

A sequence of messages, some of which vanish as a whole. What arrives is the
concatenation of the others; it is the concatenation of all of them exactly
when only empty messages were lost (`arriving_eq_iff`). Nothing can be made up
for later, since what arrives never gets longer than what was sent.
-/

namespace Losses

variable {α β : Type*} (lost : α → Prop) [DecidablePred lost] (payload : α → List β)

/-- The concatenation of the payloads that were not lost. -/
def arriving (l : List α) : List β := l.flatMap fun a => if lost a then [] else payload a

theorem arriving_snoc (l : List α) (a : α) :
    arriving lost payload (l ++ [a]) =
      arriving lost payload l ++ if lost a then [] else payload a := by
  rw [arriving, List.flatMap_append, List.flatMap_singleton]
  rfl

theorem length_arriving_le : ∀ l : List α,
    (arriving lost payload l).length ≤ (l.flatMap payload).length := by
  intro l
  induction l with
  | nil => exact Nat.le_refl _
  | cons a l ih =>
      rw [arriving, List.flatMap_cons, List.flatMap_cons, List.length_append, List.length_append]
      refine Nat.add_le_add ?_ ih
      by_cases ha : lost a
      · rw [if_pos ha]
        exact Nat.zero_le _
      · exact Nat.le_of_eq (congrArg List.length (if_neg ha))

/-- **Everything arrives exactly when only empty messages were lost.** -/
theorem arriving_eq_iff : ∀ l : List α,
    arriving lost payload l = l.flatMap payload ↔ ∀ a ∈ l, lost a → payload a = [] := by
  intro l
  induction l with
  | nil => simp [arriving]
  | cons a l ih =>
      have hcons : arriving lost payload (a :: l) =
          (if lost a then [] else payload a) ++ arriving lost payload l := rfl
      rw [hcons, List.flatMap_cons, List.forall_mem_cons, ← ih]
      by_cases ha : lost a
      · rw [if_pos ha, List.nil_append]
        constructor
        · intro h
          -- by length, the lost message was empty
          have hlen := congrArg List.length h
          have hle := length_arriving_le lost payload l
          rw [List.length_append] at hlen
          have hnil : payload a = [] := List.length_eq_zero_iff.mp (by omega)
          rw [hnil, List.nil_append] at h
          exact ⟨fun _ => hnil, h⟩
        · rintro ⟨hnil, h⟩
          rw [hnil ha, List.nil_append, h]
      · rw [if_neg ha, List.append_cancel_left_eq]
        constructor
        · intro h
          exact ⟨fun hl => absurd hl ha, h⟩
        · rintro ⟨-, h⟩
          exact h

end Losses

import Mathlib.Data.List.Induction

/-!
What has happened in a log and has not been undone since.
-/

namespace DCScan.Lib

variable {α : Type} {p q : α → Prop} {log more : List α} {x : α}

/-- `p` has happened, and `q` has not since. -/
def Since (p q : α → Prop) (log : List α) : Prop :=
  ∃ before x after, log = before ++ x :: after ∧ p x ∧ ∀ y ∈ after, ¬q y

@[simp] theorem since_nil : ¬Since p q [] := by
  rintro ⟨before, x, after, split, _⟩
  cases before <;> cases split

/-- The last entry decides, unless it concerns neither. -/
theorem since_concat : Since p q (log ++ [x]) ↔ p x ∨ (Since p q log ∧ ¬q x) := by
  constructor
  · rintro ⟨before, y, after, split, happened, kept⟩
    rcases List.eq_nil_or_concat after with rfl | ⟨after, z, rfl⟩
    · obtain ⟨rfl, same⟩ := List.append_inj' split rfl
      exact Or.inl ((List.cons.inj same).1 ▸ happened)
    · rw [List.concat_eq_append, ← List.cons_append, ← List.append_assoc] at split
      obtain ⟨rfl, same⟩ := List.append_inj' split rfl
      obtain rfl := (List.cons.inj same).1
      rw [List.concat_eq_append] at kept
      exact Or.inr ⟨⟨before, y, after, rfl, happened, fun z member =>
        kept z (List.mem_append_left _ member)⟩,
        kept x (List.mem_append_right _ List.mem_cons_self)⟩
  · rintro (happened | ⟨⟨before, y, after, rfl, happened, kept⟩, undone⟩)
    · exact ⟨log, x, [], rfl, happened, fun _ member => absurd member List.not_mem_nil⟩
    · refine ⟨before, y, after ++ [x], by simp, happened, fun z member => ?_⟩
      rw [List.mem_append, List.mem_singleton] at member
      rcases member with inside | rfl
      · exact kept z inside
      · exact undone

/-- What holds since something in the newer part of a log holds of the whole. -/
theorem Since.prepend (since : Since p q more) : Since p q (log ++ more) := by
  obtain ⟨before, x, after, rfl, happened, kept⟩ := since
  exact ⟨log ++ before, x, after, by simp, happened, kept⟩

/-- It still holds after entries by which it is not undone. -/
theorem Since.append (since : Since p q log) (kept : ¬Since q p more) :
    Since p q (log ++ more) := by
  induction more using List.reverseRecOn with
  | nil => rwa [List.append_nil]
  | append_singleton more x ih =>
    rw [since_concat, not_or, not_and, not_not] at kept
    rw [← List.append_assoc, since_concat]
    by_cases again : p x
    · exact Or.inl again
    · exact Or.inr ⟨ih fun undone => again (kept.2 undone), kept.1⟩

/-- Doing and undoing exclude each other. -/
theorem Since.not_undone (exclusive : ∀ x, p x → ¬q x) (since : Since p q log) :
    ¬Since q p log := by
  induction log using List.reverseRecOn with
  | nil => exact since_nil
  | append_singleton log x ih =>
    rw [since_concat] at since ⊢
    rintro (undone | ⟨undone, kept⟩)
    · rcases since with happened | ⟨_, kept⟩
      · exact exclusive x happened undone
      · exact kept undone
    · rcases since with happened | ⟨before, _⟩
      · exact kept happened
      · exact ih before undone

end DCScan.Lib

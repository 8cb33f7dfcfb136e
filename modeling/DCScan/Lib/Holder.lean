import Mathlib.Logic.Function.Basic

/-!
A slot that names the holder of something: the one client whose phase says that it holds it.
-/

namespace DCScan.Lib

variable {κ α : Type}

/-- The slot names exactly the client whose entry holds. -/
def Tracks (holds : α → Bool) (table : κ → α) (slot : Option κ) : Prop :=
  ∀ k, slot = some k ↔ holds (table k) = true

namespace Tracks

variable {holds : α → Bool} {table : κ → α} {slot : Option κ} {j k : κ} {p : α}

/-- At most one client holds. -/
theorem unique (tracks : Tracks holds table slot) (first : holds (table j) = true)
    (second : holds (table k) = true) :
    j = k := by
  rw [← tracks j] at first
  rw [← tracks k, first, Option.some.injEq] at second
  exact second

theorem none_holds (tracks : Tracks holds table none) : holds (table k) = false := by
  rw [← Bool.not_eq_true, ← tracks k]
  nofun

theorem eq_none (tracks : Tracks holds table slot) (nobody : ∀ k, holds (table k) = false) :
    slot = none := by
  cases named : slot with
  | none => rfl
  | some k =>
    have held := (tracks k).mp named
    rw [nobody k] at held
    cases held

/-- The slot is free when whoever holds must be active and nobody active holds. -/
theorem eq_none_of_active {active : α → Bool} {current : Option κ}
    (tracks : Tracks holds table slot)
    (runs : Tracks active table current) (within : ∀ p, holds p = true → active p = true)
    (idle : ∀ k, current = some k → holds (table k) = false) : slot = none := by
  apply tracks.eq_none
  intro k
  by_contra held
  rw [Bool.not_eq_false] at held
  rw [idle k ((runs k).mpr (within _ held))] at held
  cases held

variable [DecidableEq κ]

/-- A client moves on and holds as before. -/
theorem move (tracks : Tracks holds table slot) (same : holds p = holds (table k)) :
    Tracks holds (Function.update table k p) slot := by
  intro j
  by_cases own : j = k
  · rw [own, Function.update_self, same]
    exact tracks k
  · rw [Function.update_of_ne own]
    exact tracks j

/-- A client takes the free slot. -/
theorem take (tracks : Tracks holds table none) (held : holds p = true) :
    Tracks holds (Function.update table k p) (some k) := by
  intro j
  by_cases own : j = k
  · simp [own, held]
  · rw [Function.update_of_ne own, tracks.none_holds]
    simp [Ne.symm own]

/-- The holder frees the slot. -/
theorem release (tracks : Tracks holds table (some k)) (freed : holds p = false) :
    Tracks holds (Function.update table k p) none := by
  intro j
  by_cases own : j = k
  · simp [own, freed]
  · rw [Function.update_of_ne own, ← tracks j]
    simp [Ne.symm own]

end Tracks

end DCScan.Lib

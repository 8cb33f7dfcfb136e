import Mathlib.Algebra.Order.Ring.Int
import Mathlib.Data.List.Basic

/-!
A quantity in units, each of them taken of what the ones before it leave.
-/

namespace DCScan.Lib

variable {unit finer m n : Int} {units : List Int}

/-- How many of each unit, the first one first. -/
def inUnits : List Int → Int → List Int
  | [], _ => []
  | unit :: units, n => n / unit :: inUnits units (n % unit)

/-- What so many of each unit make together. -/
def ofUnits : List Int → List Int → Int
  | unit :: units, count :: counts => count * unit + ofUnits units counts
  | _, _ => 0

/-- Nothing is left where the last unit is one. -/
theorem ofUnits_inUnits (last : units.getLast? = some 1) (n : Int) :
    ofUnits units (inUnits units n) = n := by
  induction units generalizing n with
  | nil => cases last
  | cons unit units ih =>
    rw [inUnits, ofUnits]
    cases units with
    | nil =>
      obtain rfl : unit = 1 := Option.some.inj last
      simp [ofUnits]
    | cons next rest =>
      rw [List.getLast?_cons_cons] at last
      rw [ih last, Int.mul_comm]
      exact Int.mul_ediv_add_emod n unit

/-- A quotient decides, and the remainder where the quotients are the same. -/
theorem lt_iff_ediv (positive : 0 < unit) :
    m < n ↔ m / unit < n / unit ∨ m / unit = n / unit ∧ m % unit < n % unit := by
  have split := Int.mul_ediv_add_emod m unit
  have split' := Int.mul_ediv_add_emod n unit
  constructor
  · intro less
    rcases Int.lt_or_eq_of_le (Int.ediv_le_ediv positive less.le) with lower | same
    · exact Or.inl lower
    · refine Or.inr ⟨same, ?_⟩
      rw [same] at split
      omega
  · rintro (lower | ⟨same, rest⟩)
    · by_contra not_less
      exact absurd (Int.ediv_le_ediv positive (Int.not_lt.mp not_less)) (Int.not_le.mpr lower)
    · rw [same] at split
      omega

/-- **Quantities compare as their counts do**, from the first unit on. -/
theorem inUnits_lt_iff (positive : ∀ unit ∈ units, 0 < unit) (last : units.getLast? = some 1) :
    inUnits units m < inUnits units n ↔ m < n := by
  induction units generalizing m n with
  | nil => cases last
  | cons unit units ih =>
    obtain ⟨here, positive⟩ := List.forall_mem_cons.mp positive
    rw [inUnits, inUnits, List.cons_lt_cons_iff]
    cases units with
    | nil =>
      obtain rfl : unit = 1 := Option.some.inj last
      simp [inUnits]
    | cons next rest =>
      rw [List.getLast?_cons_cons] at last
      rw [ih positive last, ← lt_iff_ediv here]

/-- A unit's count is below the number of them that make one of the unit before it. -/
theorem emod_ediv_lt (coarser : 0 < unit) (positive : 0 < finer) (divides : finer ∣ unit) :
    0 ≤ n % unit / finer ∧ n % unit / finer < unit / finer := by
  have low := Int.emod_nonneg n coarser.ne'
  refine ⟨Int.ediv_nonneg low positive.le, Int.ediv_lt_of_lt_mul positive ?_⟩
  rw [Int.ediv_mul_cancel divides]
  exact Int.emod_lt_of_pos n coarser

/-- The count of a unit is what the units before it leave of the whole number of it. -/
theorem emod_ediv_eq (divides : finer ∣ unit) (positive : 0 < finer) :
    n % unit / finer = n / finer - n / unit * (unit / finer) := by
  obtain ⟨k, rfl⟩ := divides
  have whole : n / finer = n % (finer * k) / finer + k * (n / (finer * k)) := by
    conv_lhs => rw [← Int.emod_add_mul_ediv n (finer * k), Int.mul_assoc]
    exact Int.add_mul_ediv_left _ _ positive.ne'
  rw [Int.mul_ediv_cancel_left k positive.ne', whole, Int.mul_comm k, Int.add_sub_cancel]

end DCScan.Lib

import Mathlib.Algebra.Order.Field.Basic
import Mathlib.Data.Rat.Cast.Order
import DCScan.BasicStrings

/-!
`Core::PID` with its clock, and the turns of a motion that uses it, over the numbers that they
compute with: the code's own, where a quotient by zero is an infinity or no number, or exact ones,
where there is none.

The clock is read in nanoseconds, and the time between two calls is a number of whole milliseconds.
-/

namespace DCScan.Controller

open Lib

/-- What the controller needs beside sums, differences and products. -/
class Quantity (K : Type) where
  /-- `none` when there is no quotient. -/
  quotient : K → K → Option K
  abs : K → K
  /-- `count() / 1000.0f`, of a number of milliseconds. -/
  seconds : Int → K

instance : Quantity Float where
  quotient x y := some (x / y)
  abs := Float.abs
  seconds count := (Float32.ofInt count / 1000).toFloat

/-- Exact numbers. -/
instance {K : Type} [Field K] [LinearOrder K] : Quantity K where
  quotient x y := if y = 0 then none else some (x / y)
  abs x := |x|
  seconds count := count / 1000

/-- `Core::PID`. -/
structure PID (K : Type) where
  min : K
  max : K
  Kp : K
  Kd : K
  Ki : K
  target : K
  bias : K
  le : K
  integral : K
  /-- In nanoseconds since the clock's epoch. -/
  last_point : Int

section

variable {K : Type} [Add K] [Sub K] [Mul K] [LT K] [DecidableLT K] [OfScientific K] [Quantity K]

def PID.setTargetAndBias (pid : PID K) (target bias : K) : PID K :=
  if target > pid.max ∨ target < pid.min then { pid with target := 0.0, bias := 0.0 }
  else { pid with target, bias }

/-- The constructor. `last_point` is the epoch until the first call. -/
def PID.make (min max Kp Kd Ki : K) : PID K :=
  PID.setTargetAndBias ⟨min, max, Kp, Kd, Ki, 0.0, 0.0, 0.0, 0.0, 0⟩ 0.0 0.0

/-- `std::clamp`. -/
def clamp (v lo hi : K) : K := if v < lo then lo else if hi < v then hi else v

/-- `calculate`, `dt` seconds after the last time. -/
def PID.calculate (pid : PID K) (value dt : K) : PID K × Option K :=
  let e := pid.target - value
  let integral := pid.integral + e * dt
  let P := pid.Kp * e
  let I := pid.Ki * integral
  let D := (Quantity.quotient (e - pid.le) dt).map fun slope => pid.Kd * slope
  ({ pid with integral, le := e }, D.map fun D => clamp (P + I + D + pid.bias) pid.min pid.max)

/-- The seconds from the last call to this one. -/
def PID.dt (pid : PID K) (now : Int) : K :=
  Quantity.seconds ((now - pid.last_point).tdiv 1000000)

/-- `calculate` with the time that the clock shows. -/
def PID.calculateNow (pid : PID K) (value : K) (now : Int) : PID K × Option K :=
  PID.calculate { pid with last_point := now } value (pid.dt now)

/-- The controller of `SetPIDControlVariables`. -/
def PIDParams [Neg K] (Kp Ki Kd : K) : PID K := .make (-200.0) 200.0 Kp Kd Ki

/-- The loop variable and the controller of a motion thread. -/
structure Mover (K : Type) where
  i : Nat
  pid : PID K

/-- One turn of the two nested loops, and what is computed for a relative move if there is one. -/
def Mover.turn (m : Mover K) (target_position pos : K) (now : Int) : Mover K × Option (Option K) :=
  if m.i < 2 then
    let error := target_position - pos
    if Quantity.abs error > 0.00005 then
      let (pid, relative_move) := (m.pid.setTargetAndBias target_position 0.0).calculateNow pos now
      (⟨m.i, pid⟩, some relative_move)
    else (⟨m.i + 1, m.pid⟩, none)
  else (m, none)

variable {m : Mover K} {target_position pos : K} {now : Int}

omit [Add K] [Sub K] [Mul K] [Quantity K] in
@[simp] theorem PID.setTargetAndBias_last_point (pid : PID K) (target bias : K) :
    (pid.setTargetAndBias target bias).last_point = pid.last_point := by
  unfold PID.setTargetAndBias
  split <;> rfl

omit [Add K] [Sub K] [Mul K] [Quantity K] in
@[simp] theorem PID.setTargetAndBias_min (pid : PID K) (target bias : K) :
    (pid.setTargetAndBias target bias).min = pid.min := by
  unfold PID.setTargetAndBias
  split <;> rfl

omit [Add K] [Sub K] [Mul K] [Quantity K] in
@[simp] theorem PID.setTargetAndBias_max (pid : PID K) (target bias : K) :
    (pid.setTargetAndBias target bias).max = pid.max := by
  unfold PID.setTargetAndBias
  split <;> rfl

theorem Mover.turn_move (moving : m.i < 2) (off : Quantity.abs (target_position - pos) > 0.00005) :
    m.turn target_position pos now =
      (⟨m.i, ((m.pid.setTargetAndBias target_position 0.0).calculateNow pos now).1⟩,
        some ((m.pid.setTargetAndBias target_position 0.0).calculateNow pos now).2) := by
  rw [Mover.turn, if_pos moving]
  exact if_pos off

theorem Mover.turn_pass (moving : m.i < 2) (near : ¬ Quantity.abs (target_position - pos) > 0.00005) :
    m.turn target_position pos now = (⟨m.i + 1, m.pid⟩, none) := by
  rw [Mover.turn, if_pos moving]
  exact if_neg near

theorem Mover.turn_done (done : ¬ m.i < 2) : m.turn target_position pos now = (m, none) :=
  if_neg done

end

/-! ## The code's own numbers -/

/-- The controller, its clock left aside. -/
def PID.f64 (pid : PID Float) : BasicStrings.PID :=
  ⟨pid.min, pid.max, pid.Kp, pid.Kd, pid.Ki, pid.target, pid.bias, pid.le, pid.integral⟩

theorem PID.setTargetAndBias_f64 (pid : PID Float) (target bias : Float) :
    (pid.setTargetAndBias target bias).f64 = pid.f64.setTargetAndBias target bias := by
  unfold PID.setTargetAndBias BasicStrings.PID.setTargetAndBias
  split
  · rename_i outside
    exact (if_pos outside).symm
  · rename_i inside
    exact (if_neg inside).symm

theorem PID.calculate_f64 (pid : PID Float) (value dt : Float) :
    (pid.calculate value dt).1.f64 = (pid.f64.calculate value dt).1 ∧
      (pid.calculate value dt).2 = some (pid.f64.calculate value dt).2 := ⟨rfl, rfl⟩

/-- With them a turn is that of `BasicStrings`, at the time that the clock shows. -/
theorem Mover.turn_f64 (m : Mover Float) (target_position pos : Float) (now : Int) :
    let turned := (BasicStrings.Mover.mk m.i m.pid.f64).turn target_position pos (m.pid.dt now)
    (m.turn target_position pos now).1.i = turned.1.i ∧
      (m.turn target_position pos now).1.pid.f64 = turned.1.pid ∧
      (m.turn target_position pos now).2 = turned.2.map some := by
  have target := m.pid.setTargetAndBias_f64 target_position 0.0
  have clock : (m.pid.setTargetAndBias target_position 0.0).dt now = m.pid.dt now := by
    rw [PID.dt, PID.setTargetAndBias_last_point, PID.dt]
  by_cases moving : m.i < 2
  · by_cases off : Quantity.abs (target_position - pos) > 0.00005
    · rw [m.turn_move moving off, BasicStrings.Mover.turn_move moving off, ← target, ← clock]
      exact ⟨rfl, rfl, rfl⟩
    · rw [m.turn_pass moving off, BasicStrings.Mover.turn_pass moving off]
      exact ⟨rfl, rfl, rfl⟩
  · rw [m.turn_done moving, BasicStrings.Mover.turn_done moving]
    exact ⟨rfl, rfl, rfl⟩

/-! ## Calls of the controller -/

inductive Call (K : Type) where
  | setTargetAndBias (target bias : K)
  /-- `calculate(value)`, when the clock shows `now`. -/
  | calculate (value : K) (now : Int)
  deriving DecidableEq

/-- What each `calculate` divides by, and what it returns. -/
def outputs {K : Type} [Add K] [Sub K] [Mul K] [LT K] [DecidableLT K] [OfScientific K] [Quantity K]
    (pid : PID K) : List (Call K) → List (K × Option K)
  | [] => []
  | .setTargetAndBias target bias :: calls => outputs (pid.setTargetAndBias target bias) calls
  | .calculate value now :: calls =>
    (pid.dt now, (pid.calculateNow value now).2) :: outputs (pid.calculateNow value now).1 calls

/-- Nothing is divided by zero, and everything that is returned lies between the bounds. -/
def Bounded {K : Type} [Zero K] [LE K] (min max : K) (returned : List (K × Option K)) : Prop :=
  ∀ output ∈ returned, output.1 ≠ 0 ∧ ∃ v, output.2 = some v ∧ min ≤ v ∧ v ≤ max

/-- A `calculate` comes a millisecond after the one before, or after the clock's epoch. -/
def Spaced {K : Type} (last_point : Int) : List (Call K) → Prop
  | [] => True
  | .setTargetAndBias _ _ :: calls => Spaced last_point calls
  | .calculate _ now :: calls => 1000000 ≤ (now - last_point).natAbs ∧ Spaced now calls

section

variable {K : Type} [LinearOrder K] {pid : PID K} {min max lo hi v value dt : K} {now : Int}

theorem clamp_bounds (ordered : lo ≤ hi) : lo ≤ clamp v lo hi ∧ clamp v lo hi ≤ hi := by
  unfold clamp
  split
  · exact ⟨le_rfl, ordered⟩
  · rename_i above
    split
    · exact ⟨ordered, le_rfl⟩
    · rename_i below
      exact ⟨not_lt.mp above, not_lt.mp below⟩

variable [Field K]

theorem quotient_of_ne (other : dt ≠ 0) : Quantity.quotient v dt = some (v / dt) := if_neg other

theorem quotient_zero : Quantity.quotient v (0 : K) = none := if_pos rfl

/-- What is returned when there is a quotient. -/
theorem PID.calculate_output (pid : PID K) (value : K) (other : dt ≠ 0) :
    (pid.calculate value dt).2 = some (clamp (pid.Kp * (pid.target - value) +
      pid.Ki * (pid.integral + (pid.target - value) * dt) +
      pid.Kd * ((pid.target - value - pid.le) / dt) + pid.bias) pid.min pid.max) := by
  rw [PID.calculate]
  simp only [quotient_of_ne other, Option.map_some]

variable [IsStrictOrderedRing K]

/-- The time between two calls is not zero when it is a millisecond. -/
theorem dt_ne_zero_iff : pid.dt now ≠ 0 ↔ 1000000 ≤ (now - pid.last_point).natAbs := by
  have whole : (now - pid.last_point).tdiv 1000000 ≠ 0 ↔ 1000000 ≤ (now - pid.last_point).natAbs := by
    rw [ne_eq, ← Int.natAbs_eq_zero, Int.natAbs_tdiv]
    change ¬ (now - pid.last_point).natAbs / 1000000 = 0 ↔ _
    omega
  rw [← whole, PID.dt]
  change ((now - pid.last_point).tdiv 1000000 : K) / 1000 ≠ 0 ↔ _
  rw [div_ne_zero_iff, Int.cast_ne_zero]
  exact and_iff_left (by norm_num)

/-- A call returns a number between the bounds when it divides by a number that is not zero. -/
theorem PID.calculateNow_bounded (ordered : pid.min ≤ pid.max) (value : K)
    (spaced : 1000000 ≤ (now - pid.last_point).natAbs) :
    pid.dt now ≠ 0 ∧ ∃ v, (pid.calculateNow value now).2 = some v ∧ pid.min ≤ v ∧ v ≤ pid.max := by
  have other : pid.dt now ≠ 0 := dt_ne_zero_iff.mpr spaced
  exact ⟨other, _, PID.calculate_output _ value other, clamp_bounds ordered⟩

theorem outputs_bounded_iff (ordered : min ≤ max) (pid : PID K) (calls : List (Call K)) (lower : pid.min = min)
    (upper : pid.max = max) :
    Bounded min max (outputs pid calls) ↔ Spaced pid.last_point calls := by
  induction calls generalizing pid with
  | nil => simp [outputs, Bounded, Spaced]
  | cons call calls ih =>
    cases call with
    | setTargetAndBias target bias =>
      have kept := ih _ ((PID.setTargetAndBias_min pid target bias).trans lower)
        ((PID.setTargetAndBias_max pid target bias).trans upper)
      rw [PID.setTargetAndBias_last_point] at kept
      exact kept
    | calculate value now =>
      have kept := ih (pid.calculateNow value now).1 lower upper
      rw [outputs, Bounded, List.forall_mem_cons, Spaced]
      refine and_congr ⟨fun bounded => dt_ne_zero_iff.mp bounded.1, fun spaced => ?_⟩ kept
      subst lower upper
      exact pid.calculateNow_bounded ordered value spaced

/-- **What a controller returns is bounded**, and nothing is divided by zero, if and only if the calls
are spaced. -/
theorem controller_bounded_iff (min max Kp Kd Ki : K) (ordered : min ≤ max) (calls : List (Call K)) :
    Bounded min max (outputs (PID.make min max Kp Kd Ki) calls) ↔ Spaced 0 calls := by
  have made := outputs_bounded_iff ordered (PID.make min max Kp Kd Ki) calls
    (PID.setTargetAndBias_min _ _ _) (PID.setTargetAndBias_max _ _ _)
  rwa [PID.make, PID.setTargetAndBias_last_point] at made

end

/-- Two seconds, and one more. -/
theorem bounded_two : Bounded (0 : ℚ) 1 (outputs (PID.make 0 1 2 3 4)
    [.calculate 5 2000000000, .setTargetAndBias 1 0, .calculate 0 3000000000]) :=
  (controller_bounded_iff (0 : ℚ) 1 2 3 4 (by decide) _).mpr (by simp [Spaced])

/-- Two calls within a millisecond. -/
theorem divided_by_zero : ¬ Bounded (0 : ℚ) 1 (outputs (PID.make 0 1 2 3 4)
    [.calculate 5 2000000000, .calculate 5 2000500000]) := by
  intro bounded
  have both : outputs (PID.make (0 : ℚ) 1 2 3 4)
      [.calculate 5 2000000000, .calculate 5 2000500000] = [(2, some 0), (0, none)] := by
    decide +kernel
  exact (bounded (0, none) (both ▸ by simp)).1 rfl

end DCScan.Controller

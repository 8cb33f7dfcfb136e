import Mathlib.Tactic.FieldSimp
import Mathlib.Tactic.Linarith
import Mathlib.Tactic.NormNum
import Mathlib.Tactic.Ring
import DCScan.Controller

/-!
The motions of one positioner, one after another, with the controller that they share.

The integral, the last error and the time of the last call stay in the controller when a motion is
over. The first move of the next motion is computed with them, and its time step is the time that the
controller was idle.
-/

namespace DCScan.History

open Controller

/-- `GetTriggerPeriod() + 50000`, in nanoseconds. -/
def wait_interval : Nat := (100000 + 50000) * 1000

/-- A motion. It reads its positions at times that are counted from its start. -/
structure Motion (K : Type) where
  target_position : K
  start : Int
  pos : Nat → K
  elapsed : Nat → Nat

section

variable {K : Type} [Add K] [Sub K] [Mul K] [LT K] [DecidableLT K] [OfScientific K] [Quantity K]

/-- The thread before turn `k`. -/
def Motion.mover (m : Motion K) (pid : PID K) : Nat → Mover K
  | 0 => ⟨0, pid⟩
  | k + 1 => ((m.mover pid k).turn m.target_position (m.pos k) (m.start + m.elapsed k)).1

/-- What is computed for the relative move of turn `k`, if there is one. -/
def Motion.move (m : Motion K) (pid : PID K) (k : Nat) : Option (Option K) :=
  ((m.mover pid k).turn m.target_position (m.pos k) (m.start + m.elapsed k)).2

/-- The motion is over after so many turns. The thread sleeps between them. -/
structure Motion.Over (m : Motion K) (pid : PID K) (turns : Nat) : Prop where
  busy : ∀ k < turns, (m.mover pid k).i < 2
  ended : (m.mover pid turns).i = 2
  paced : ∀ k < turns, m.elapsed k + (if (m.move pid k).isSome then wait_interval else 500000000) ≤
    m.elapsed (k + 1)

/-- A controller with these gains, and the time since which it is idle. -/
inductive Idle [Neg K] (Kp Ki Kd : K) : PID K → Int → Prop
  /-- The clock has been running for a millisecond when the controller is made. -/
  | set (now : Int) (running : 1000000 ≤ now) : Idle Kp Ki Kd (PIDParams Kp Ki Kd) now
  | motion {pid : PID K} {since : Int} (idle : Idle Kp Ki Kd pid since) (m : Motion K) (turns : Nat)
      (later : since ≤ m.start) (ended : m.Over pid turns) :
      Idle Kp Ki Kd (m.mover pid turns).pid (m.start + m.elapsed turns)

/-- The moves are the same whatever was before, and however long ago. -/
def Independent [Neg K] (Kp Ki Kd target_position : K) (pos : Nat → K) (elapsed : Nat → Nat) : Prop :=
  ∀ pid pid' since since' start start', Idle Kp Ki Kd pid since → Idle Kp Ki Kd pid' since' →
    since ≤ start → since' ≤ start' → ∀ k,
      Motion.move ⟨target_position, start, pos, elapsed⟩ pid k =
        Motion.move ⟨target_position, start', pos, elapsed⟩ pid' k

/-- The positioner is where it shall be, and stays there for the second pass. -/
def There (target_position : K) (pos : Nat → K) : Prop :=
  ¬ Quantity.abs (target_position - pos 0) > 0.00005 ∧
    ¬ Quantity.abs (target_position - pos 1) > 0.00005

variable {m : Motion K} {pid : PID K} {k : Nat}

theorem mover_move (moving : (m.mover pid k).i < 2)
    (off : Quantity.abs (m.target_position - m.pos k) > 0.00005) :
    m.mover pid (k + 1) = ⟨(m.mover pid k).i, (((m.mover pid k).pid.setTargetAndBias
      m.target_position 0.0).calculateNow (m.pos k) (m.start + m.elapsed k)).1⟩ := by
  rw [Motion.mover, Mover.turn_move moving off]

theorem mover_pass (moving : (m.mover pid k).i < 2)
    (near : ¬ Quantity.abs (m.target_position - m.pos k) > 0.00005) :
    m.mover pid (k + 1) = ⟨(m.mover pid k).i + 1, (m.mover pid k).pid⟩ := by
  rw [Motion.mover, Mover.turn_pass moving near]

theorem mover_done (done : ¬ (m.mover pid k).i < 2) : m.mover pid (k + 1) = m.mover pid k := by
  rw [Motion.mover, Mover.turn_done done]

theorem move_move (moving : (m.mover pid k).i < 2)
    (off : Quantity.abs (m.target_position - m.pos k) > 0.00005) :
    m.move pid k = some (((m.mover pid k).pid.setTargetAndBias
      m.target_position 0.0).calculateNow (m.pos k) (m.start + m.elapsed k)).2 := by
  rw [Motion.move, Mover.turn_move moving off]

theorem move_pass (moving : (m.mover pid k).i < 2)
    (near : ¬ Quantity.abs (m.target_position - m.pos k) > 0.00005) : m.move pid k = none := by
  rw [Motion.move, Mover.turn_pass moving near]

theorem move_done (done : ¬ (m.mover pid k).i < 2) : m.move pid k = none := by
  rw [Motion.move, Mover.turn_done done]

end

/-! ## The controller of a positioner -/

section

variable {K : Type} [Field K] [LinearOrder K] {Kp Ki Kd target_position value : K} {pid pid' : PID K}
variable {m : Motion K} {pos : Nat → K} {elapsed : Nat → Nat} {now since since' start start' : Int}
variable {k : Nat}

/-- The parameters that are set and stay. -/
structure Tuned (Kp Ki Kd : K) (pid : PID K) : Prop where
  min : pid.min = -200.0
  max : pid.max = 200.0
  Kp : pid.Kp = Kp
  Ki : pid.Ki = Ki
  Kd : pid.Kd = Kd

theorem Tuned.setTargetAndBias (tuned : Tuned Kp Ki Kd pid) (target bias : K) :
    Tuned Kp Ki Kd (pid.setTargetAndBias target bias) := by
  unfold PID.setTargetAndBias
  split <;> exact ⟨tuned.min, tuned.max, tuned.Kp, tuned.Ki, tuned.Kd⟩

theorem Tuned.calculateNow (tuned : Tuned Kp Ki Kd pid) (value : K) (now : Int) :
    Tuned Kp Ki Kd (pid.calculateNow value now).1 :=
  ⟨tuned.min, tuned.max, tuned.Kp, tuned.Ki, tuned.Kd⟩

theorem Tuned.mover (tuned : Tuned Kp Ki Kd pid) (m : Motion K) (k : Nat) :
    Tuned Kp Ki Kd (m.mover pid k).pid := by
  induction k with
  | zero => exact tuned
  | succ k ih =>
    by_cases moving : (m.mover pid k).i < 2
    · by_cases off : Quantity.abs (m.target_position - m.pos k) > 0.00005
      · rw [mover_move moving off]
        exact (ih.setTargetAndBias _ _).calculateNow _ _
      · rwa [mover_pass moving off]
    · rwa [mover_done moving]

theorem Idle.tuned (idle : Idle Kp Ki Kd pid since) : Tuned Kp Ki Kd pid := by
  induction idle with
  | set now running =>
    have made : Tuned Kp Ki Kd ⟨-200.0, 200.0, Kp, Kd, Ki, 0.0, 0.0, 0.0, 0.0, 0⟩ :=
      ⟨rfl, rfl, rfl, rfl, rfl⟩
    exact made.setTargetAndBias 0.0 0.0
  | motion idle m turns later ended ih => exact ih.mover m turns

/-- The target that the controller takes. -/
def aim (target : K) : K := if target > 200.0 ∨ target < -200.0 then 0.0 else target

theorem Tuned.aims (tuned : Tuned Kp Ki Kd pid) (target : K) :
    (pid.setTargetAndBias target 0.0).target = aim target ∧
      (pid.setTargetAndBias target 0.0).bias = 0.0 := by
  unfold PID.setTargetAndBias aim
  rw [tuned.max, tuned.min]
  split <;> exact ⟨rfl, rfl⟩

theorem setTargetAndBias_integral (pid : PID K) (target bias : K) :
    (pid.setTargetAndBias target bias).integral = pid.integral ∧
      (pid.setTargetAndBias target bias).le = pid.le := by
  unfold PID.setTargetAndBias
  split <;> exact ⟨rfl, rfl⟩

theorem dt_setTargetAndBias (target bias : K) :
    (pid.setTargetAndBias target bias).dt now = pid.dt now := by
  rw [PID.dt, PID.setTargetAndBias_last_point, PID.dt]

/-- What a move is computed as. -/
theorem Tuned.output (tuned : Tuned Kp Ki Kd pid) (target_position value : K) (other : pid.dt now ≠ 0) :
    ((pid.setTargetAndBias target_position 0.0).calculateNow value now).2 =
      some (clamp (Kp * (aim target_position - value) +
        Ki * (pid.integral + (aim target_position - value) * pid.dt now) +
        Kd * ((aim target_position - value - pid.le) / pid.dt now) + 0.0) (-200.0) 200.0) := by
  have kept := tuned.setTargetAndBias target_position 0.0
  have aims := tuned.aims target_position
  have memory := setTargetAndBias_integral pid target_position 0.0
  rw [PID.calculateNow, PID.calculate_output _ _ (by rwa [dt_setTargetAndBias])]
  simp only [kept.min, kept.max, kept.Kp, kept.Ki, kept.Kd, aims.1, aims.2, memory.1, memory.2,
    dt_setTargetAndBias]

/-! ## Motions without moves -/

/-- A motion that begins at its target issues no move. -/
theorem still (there : There m.target_position m.pos) (pid : PID K) (k : Nat) : m.move pid k = none := by
  have first : m.mover pid 1 = ⟨1, pid⟩ := mover_pass (k := 0) Nat.two_pos there.1
  have second : m.mover pid 2 = ⟨2, pid⟩ := by
    rw [mover_pass (k := 1) (by rw [first]; exact Nat.one_lt_two) there.2, first]
  have ended (n : Nat) : m.mover pid (n + 2) = ⟨2, pid⟩ := by
    induction n with
    | zero => exact second
    | succ n ih =>
      rw [show n + 1 + 2 = n + 2 + 1 by omega, mover_done (by rw [ih]; exact Nat.lt_irrefl 2), ih]
  rcases k with _ | _ | k
  · exact move_pass Nat.two_pos there.1
  · exact move_pass (by rw [first]; exact Nat.one_lt_two) there.2
  · exact move_done (by rw [ended]; exact Nat.lt_irrefl 2)

/-- The first move is in one of the first two turns, with the controller as it was found. -/
theorem first_move (away : ¬ There target_position pos) :
    ∃ k < 2, Quantity.abs (target_position - pos k) > 0.00005 ∧ ∀ start elapsed pid,
      Motion.mover ⟨target_position, start, pos, elapsed⟩ pid k = ⟨k, pid⟩ := by
  by_cases off : Quantity.abs (target_position - pos 0) > 0.00005
  · exact ⟨0, Nat.two_pos, off, fun start elapsed pid => rfl⟩
  · have later : Quantity.abs (target_position - pos 1) > 0.00005 := by
      by_contra near
      exact away ⟨off, near⟩
    exact ⟨1, Nat.one_lt_two, later, fun start elapsed pid => mover_pass (k := 0) Nat.two_pos off⟩

/-- Between its turns a motion sleeps for more than a millisecond. -/
theorem mover_rested {turns : Nat} (ended : m.Over pid turns) (rested : pid.last_point + 1000000 ≤ m.start)
    (inside : k ≤ turns) : (m.mover pid k).pid.last_point + 1000000 ≤ m.start + m.elapsed k := by
  induction k with
  | zero => exact rested.trans (by omega)
  | succ k ih =>
    have before := ih (Nat.le_of_succ_le inside)
    have moving := ended.busy k inside
    have paced := ended.paced k inside
    by_cases off : Quantity.abs (m.target_position - m.pos k) > 0.00005
    · rw [mover_move moving off]
      rw [move_move moving off, Option.isSome_some, if_pos rfl, wait_interval] at paced
      change m.start + m.elapsed k + 1000000 ≤ _
      omega
    · rw [mover_pass moving off]
      rw [move_pass moving off] at paced
      simp only [Option.isSome_none, Bool.false_eq_true, if_false] at paced
      change (m.mover pid k).pid.last_point + 1000000 ≤ _
      omega

/-- An idle controller was last called a millisecond before, or never. -/
theorem Idle.rested (idle : Idle Kp Ki Kd pid since) : pid.last_point + 1000000 ≤ since := by
  induction idle with
  | set now running =>
    rw [PIDParams, PID.make, PID.setTargetAndBias_last_point]
    exact running
  | motion idle m turns later ended ih => exact mover_rested ended (ih.trans later) le_rfl

/-! ## Without integral and derivative -/

variable [IsStrictOrderedRing K]

theorem zero_value : (0.0 : K) = 0 := by norm_num

/-- Two runs of a motion: their controllers are called at the same times since its start, but for the
first time. -/
structure Alike (Kp : K) (elapsed : Nat → Nat) (start start' : Int) (a b : Mover K) : Prop where
  i : a.i = b.i
  left : Tuned Kp 0 0 a.pid
  right : Tuned Kp 0 0 b.pid
  clock : (a.pid.last_point + 1000000 ≤ start ∧ b.pid.last_point + 1000000 ≤ start') ∨
    ∃ j, a.pid.last_point = start + elapsed j ∧ b.pid.last_point = start' + elapsed j

/-- What is put out depends on whether there is a quotient. -/
theorem Tuned.output_proportional (tuned : Tuned Kp 0 0 pid) :
    ((pid.setTargetAndBias target_position 0.0).calculateNow value now).2 =
      if pid.dt now = 0 then none
      else some (clamp (Kp * (aim target_position - value)) (-200.0) 200.0) := by
  split
  · rename_i zero
    rw [PID.calculateNow, PID.calculate, dt_setTargetAndBias, zero]
    simp only [quotient_zero, Option.map_none]
  · rename_i other
    rw [tuned.output _ _ other]
    simp [zero_value]

theorem Alike.dt_iff {a b : Mover K} (alike : Alike Kp elapsed start start' a b) (k : Nat) :
    a.pid.dt (start + elapsed k) = 0 ↔ b.pid.dt (start' + elapsed k) = 0 := by
  rw [← not_iff_not, ← ne_eq, ← ne_eq, dt_ne_zero_iff, dt_ne_zero_iff]
  rcases alike.clock with ⟨left, right⟩ | ⟨j, left, right⟩ <;> omega

/-- The two runs stay alike, and issue the same move. -/
theorem Alike.turn {a b : Mover K} (alike : Alike Kp elapsed start start' a b) (k : Nat) :
    let turned := a.turn target_position (pos k) (start + elapsed k)
    let turned' := b.turn target_position (pos k) (start' + elapsed k)
    Alike Kp elapsed start start' turned.1 turned'.1 ∧ turned.2 = turned'.2 := by
  by_cases moving : a.i < 2
  · have moving' : b.i < 2 := alike.i ▸ moving
    by_cases off : Quantity.abs (target_position - pos k) > 0.00005
    · rw [Mover.turn_move moving off, Mover.turn_move moving' off]
      refine ⟨⟨alike.i, (alike.left.setTargetAndBias _ _).calculateNow _ _,
        (alike.right.setTargetAndBias _ _).calculateNow _ _, Or.inr ⟨k, rfl, rfl⟩⟩, ?_⟩
      rw [alike.left.output_proportional, alike.right.output_proportional]
      simp only [alike.dt_iff k]
    · rw [Mover.turn_pass moving off, Mover.turn_pass moving' off]
      exact ⟨⟨congrArg (· + 1) alike.i, alike.left, alike.right, alike.clock⟩, rfl⟩
  · have done : ¬ b.i < 2 := alike.i ▸ moving
    rw [Mover.turn_done moving, Mover.turn_done done]
    exact ⟨alike, rfl⟩

/-- A controller that is only proportional has no history. -/
theorem independent_proportional : Independent Kp 0 0 target_position pos elapsed := by
  intro pid pid' since since' start start' idle idle' later later' k
  have alike : Alike Kp elapsed start start'
      (Motion.mover ⟨target_position, start, pos, elapsed⟩ pid k)
      (Motion.mover ⟨target_position, start', pos, elapsed⟩ pid' k) := by
    induction k with
    | zero =>
      exact ⟨rfl, idle.tuned, idle'.tuned, Or.inl ⟨idle.rested.trans later, idle'.rested.trans later'⟩⟩
    | succ k ih => exact (ih.turn k).1
  exact (alike.turn k).2

/-! ## With integral or derivative -/

/-- `a` seconds after the epoch the positioner is moved once, and is then where it shall be. -/
def once (a : Nat) (error : K) : Motion K where
  target_position := 0
  start := a * 1000000000
  pos k := if k = 0 then -error else 0
  elapsed k := if k = 0 then 0 else wait_interval + (k - 1) * 500000000

omit [IsStrictOrderedRing K] in
theorem abs_eq (x : K) : Quantity.abs x = |x| := rfl

theorem once_mover (a : Nat) {error : K} (large : |error| > 0.00005) (pid : PID K) :
    (once a error).mover pid 1 = ⟨0, ((pid.setTargetAndBias 0 0.0).calculateNow (-error)
        (a * 1000000000 : Nat)).1⟩ ∧
      (once a error).mover pid 2 = ⟨1, ((once a error).mover pid 1).pid⟩ ∧
      (once a error).mover pid 3 = ⟨2, ((once a error).mover pid 1).pid⟩ := by
  have near (k : Nat) (later : k ≠ 0) :
      ¬ Quantity.abs ((once a error).target_position - (once a error).pos k) > 0.00005 := by
    rw [abs_eq]
    simp only [once, if_neg later, sub_zero, abs_zero]
    norm_num
  have off : Quantity.abs ((once a error).target_position - (once a error).pos 0) > 0.00005 := by
    rw [abs_eq]
    simpa [once] using large
  have first : (once a error).mover pid 1 = ⟨0, ((pid.setTargetAndBias 0 0.0).calculateNow (-error)
      (a * 1000000000 : Nat)).1⟩ := by
    rw [mover_move (k := 0) Nat.two_pos off]
    simp [once, Motion.mover]
  have second : (once a error).mover pid 2 = ⟨1, ((once a error).mover pid 1).pid⟩ := by
    rw [mover_pass (k := 1) (by rw [first]; exact Nat.two_pos) (near 1 (by decide)), first]
  refine ⟨first, second, ?_⟩
  rw [mover_pass (k := 2) (by rw [second]; exact Nat.one_lt_two) (near 2 (by decide)), second]

theorem once_over (a : Nat) {error : K} (large : |error| > 0.00005) (pid : PID K) :
    (once a error).Over pid 3 := by
  obtain ⟨first, second, third⟩ := once_mover a large pid
  have off : Quantity.abs ((once a error).target_position - (once a error).pos 0) > 0.00005 := by
    rw [abs_eq]
    simpa [once] using large
  refine ⟨fun k inside => ?_, by rw [third], fun k inside => ?_⟩
  · have cases : k = 0 ∨ k = 1 ∨ k = 2 := by omega
    rcases cases with rfl | rfl | rfl
    · exact Nat.two_pos
    · rw [first]
      exact Nat.two_pos
    · rw [second]
      exact Nat.one_lt_two
  · rcases k with _ | k
    · rw [move_move (k := 0) Nat.two_pos off, Option.isSome_some, if_pos rfl]
      simp [once]
    · have step : (once a error).elapsed (k + 1) + 500000000 = (once a error).elapsed (k + 1 + 1) := by
        simp only [once, Nat.succ_ne_zero, if_false, Nat.add_sub_cancel]
        omega
      rw [← step]
      refine Nat.add_le_add_left ?_ _
      split
      · unfold wait_interval
        omega
      · exact le_rfl

theorem aim_zero : aim (0 : K) = 0 := by
  unfold aim
  norm_num

/-- The controller that is found after it. -/
theorem once_controller (Kp Ki Kd : K) (a : Nat) {error : K} (large : |error| > 0.00005) :
    let pid := ((once a error).mover (PIDParams Kp Ki Kd) 3).pid
    pid.le = error ∧ pid.integral = error * a ∧ pid.last_point = (a * 1000000000 : Nat) := by
  obtain ⟨first, -, third⟩ := once_mover a large (PIDParams Kp Ki Kd)
  have tuned : Tuned Kp Ki Kd (PIDParams Kp Ki Kd) := (Idle.set 1000000 le_rfl).tuned
  have target : ((PIDParams Kp Ki Kd).setTargetAndBias 0 0.0).target = 0 :=
    (tuned.aims 0).1.trans aim_zero
  have integral : ((PIDParams Kp Ki Kd).setTargetAndBias 0 0.0).integral = 0 := by
    rw [(setTargetAndBias_integral _ 0 0.0).1, PIDParams, PID.make, (setTargetAndBias_integral _ _ _).1]
    exact zero_value
  have dt : ((PIDParams Kp Ki Kd).setTargetAndBias 0 0.0).dt (a * 1000000000 : Nat) = (a : K) := by
    rw [PID.dt, PID.setTargetAndBias_last_point, PIDParams, PID.make, PID.setTargetAndBias_last_point]
    have whole : (((a * 1000000000 : Nat) : Int) - 0).tdiv 1000000 = (a * 1000 : Nat) := by
      have parts : (((a * 1000000000 : Nat) : Int) - 0) = (a * 1000 : Nat) * 1000000 := by
        push_cast
        ring
      rw [parts, Int.mul_tdiv_cancel _ (by decide)]
    change (((((a * 1000000000 : Nat) : Int) - 0).tdiv 1000000 : Int) : K) / 1000 = a
    rw [whole]
    push_cast
    ring
  rw [third, first]
  refine ⟨?_, ?_, rfl⟩
  · change ((PIDParams Kp Ki Kd).setTargetAndBias 0 0.0).target - -error = error
    rw [target]
    ring
  · change ((PIDParams Kp Ki Kd).setTargetAndBias 0 0.0).integral +
      (((PIDParams Kp Ki Kd).setTargetAndBias 0 0.0).target - -error) *
        ((PIDParams Kp Ki Kd).setTargetAndBias 0 0.0).dt (a * 1000000000 : Nat) = error * a
    rw [target, integral, dt]
    ring

theorem idle_once {a : Nat} (later : 1 ≤ a) {error : K} (large : |error| > 0.00005) :
    Idle Kp Ki Kd ((once a error).mover (PIDParams Kp Ki Kd) 3).pid
      ((a * 1000000000 : Nat) + 1150000000) := by
  have made : Idle Kp Ki Kd (PIDParams Kp Ki Kd) 1000000 := .set 1000000 le_rfl
  have idle := made.motion (once a error) 3
    (by simp only [once]; omega) (once_over a large _)
  simpa [once, wait_interval] using idle

/-- The time step of the first move of the next motion. -/
def idleTime (K : Type) [Quantity K] (elapsed : Nat) : K :=
  Quantity.seconds ((1150000000 + (elapsed : Int)).tdiv 1000000)

theorem idleTime_pos (elapsed : Nat) : 0 < idleTime K elapsed := by
  have whole : 0 < (1150000000 + (elapsed : Int)).tdiv 1000000 := by
    rw [Int.tdiv_eq_ediv_of_nonneg (by omega)]
    omega
  have cast : (0 : K) < ((1150000000 + (elapsed : Int)).tdiv 1000000 : Int) := by exact_mod_cast whole
  exact div_pos cast (by norm_num)

/-- The motion that comes next, at once. -/
def next (a : Nat) (target_position : K) (pos : Nat → K) (elapsed : Nat → Nat) : Motion K :=
  ⟨target_position, (a * 1000000000 : Nat) + 1150000000, pos, elapsed⟩

/-- The first move of the next motion depends on the error of the one before. -/
theorem next_move (Kp Ki Kd : K) (a : Nat) {error : K} (large : |error| > 0.00005)
    (first : ∀ pid, (next a target_position pos elapsed).mover pid k = ⟨k, pid⟩) (early : k < 2)
    (off : Quantity.abs (target_position - pos k) > 0.00005) :
    (next a target_position pos elapsed).move ((once a error).mover (PIDParams Kp Ki Kd) 3).pid k =
      some (some (clamp (Kp * (aim target_position - pos k) +
          Ki * (aim target_position - pos k) * idleTime K (elapsed k) +
          Kd * (aim target_position - pos k) / idleTime K (elapsed k) +
          (Ki * a - Kd / idleTime K (elapsed k)) * error) (-200.0) 200.0)) := by
  obtain ⟨le, integral, last_point⟩ := once_controller Kp Ki Kd a large
  have tuned : Tuned Kp Ki Kd ((once a error).mover (PIDParams Kp Ki Kd) 3).pid :=
    (Idle.set 1000000 le_rfl).tuned.mover _ _
  generalize ((once a error).mover (PIDParams Kp Ki Kd) 3).pid = pid at le integral last_point tuned ⊢
  have dt : pid.dt ((a * 1000000000 : Nat) + 1150000000 + elapsed k) = idleTime K (elapsed k) := by
    rw [PID.dt, last_point, show ((a * 1000000000 : Nat) : Int) + 1150000000 + elapsed k -
      (a * 1000000000 : Nat) = 1150000000 + elapsed k by ring]
    rfl
  have positive := idleTime_pos (K := K) (elapsed k)
  have output := tuned.output target_position (pos k) (dt ▸ positive.ne')
  have moving : ((next a target_position pos elapsed).mover pid k).i < 2 := by
    rw [first]
    exact early
  have moved := move_move moving off
  rw [moved, first]
  change some ((pid.setTargetAndBias target_position 0.0).calculateNow (pos k)
    ((a * 1000000000 : Nat) + 1150000000 + elapsed k)).2 = _
  rw [output, dt, le, integral]
  congr 3
  field_simp
  rw [zero_value]
  ring

theorem clamp_above {v : K} (above : 200 < v) : clamp v (-200.0) 200.0 = 200 := by
  have upper : (200.0 : K) = 200 := by norm_num
  rw [clamp, upper, if_neg (by linarith), if_pos above]

theorem clamp_below {v : K} (below : v < -200) : clamp v (-200.0) 200.0 = -200 := by
  have lower : (-200.0 : K) = -200 := by norm_num
  rw [clamp, lower, if_pos below]

/-- For some time of the motion before, its error has a weight. -/
theorem exists_weight {d : K} (positive : 0 < d) (gains : ¬ (Ki = 0 ∧ Kd = 0)) :
    ∃ a : Nat, 1 ≤ a ∧ Ki * a - Kd / d ≠ 0 := by
  by_cases first : Ki * (1 : Nat) - Kd / d ≠ 0
  · exact ⟨1, le_rfl, first⟩
  · refine ⟨2, one_le_two, fun second => gains ?_⟩
    rw [not_not] at first
    push_cast at first second
    have Ki_zero : Ki = 0 := by linarith
    have quotient : Kd / d = 0 := by rw [Ki_zero] at first; linarith
    exact ⟨Ki_zero, (div_eq_zero_iff.mp quotient).resolve_right positive.ne'⟩

/-- An error that is large enough decides the move. -/
theorem exists_decisive (base : K) {weight : K} (other : weight ≠ 0) :
    ∃ error : K, |error| > 0.00005 ∧ |-error| > 0.00005 ∧
      200 < base + weight * error ∧ base + weight * -error < -200 := by
  have some_weight : 0 < |weight| := abs_pos.mpr other
  have up := neg_abs_le base
  have down := le_abs_self base
  have size : |(|base| + 201 + |weight|) / weight| > 0.00005 := by
    rw [abs_div, abs_of_nonneg (by positivity), gt_iff_lt, lt_div_iff₀ some_weight]
    have small : (0.00005 : K) * |weight| ≤ 1 * |weight| :=
      mul_le_mul_of_nonneg_right (by norm_num) some_weight.le
    have := abs_nonneg base
    linarith
  refine ⟨(|base| + 201 + |weight|) / weight, size, by rwa [abs_neg], ?_, ?_⟩
  · rw [mul_div_cancel₀ _ other]
    linarith
  · rw [mul_neg, mul_div_cancel₀ _ other]
    linarith

/-- **Motions are independent of history**, for all gains, targets, readings and times, if and only if
the controller has neither integral nor derivative, or the motion issues no move. -/
theorem independent_iff (Kp Ki Kd target_position : K) (pos : Nat → K) (elapsed : Nat → Nat) :
    Independent Kp Ki Kd target_position pos elapsed ↔
      (Ki = 0 ∧ Kd = 0) ∨ There target_position pos := by
  constructor
  · intro independent
    by_contra neither
    obtain ⟨gains, away⟩ := not_or.mp neither
    obtain ⟨k, early, off, first⟩ := first_move away
    obtain ⟨a, later, weighs⟩ := exists_weight (idleTime_pos (elapsed k)) gains
    obtain ⟨error, large, large', up, down⟩ := exists_decisive (Kp * (aim target_position - pos k) +
      Ki * (aim target_position - pos k) * idleTime K (elapsed k) +
      Kd * (aim target_position - pos k) / idleTime K (elapsed k)) weighs
    have same := independent _ _ _ _ _ _ (idle_once later large) (idle_once later large') le_rfl
      le_rfl k
    have above := next_move Kp Ki Kd a large (first _ elapsed) early off
    have below := next_move Kp Ki Kd a large' (first _ elapsed) early off
    rw [clamp_above up] at above
    rw [clamp_below down] at below
    rw [next] at above below
    rw [above, below] at same
    have equal : (200 : K) = -200 := Option.some.inj (Option.some.inj same)
    linarith
  · rintro (⟨rfl, rfl⟩ | there)
    · exact independent_proportional
    · intro pid pid' since since' start start' _ _ _ _ k
      rw [still (m := ⟨target_position, start, pos, elapsed⟩) there,
        still (m := ⟨target_position, start', pos, elapsed⟩) there]

end

/-- A controller with its proportional gain only. -/
theorem independent_two : Independent (2 : ℚ) 0 0 10 (fun _ => 0) (fun _ => 0) :=
  (independent_iff 2 0 0 10 (fun _ => 0) (fun _ => 0)).mpr (Or.inl ⟨rfl, rfl⟩)

/-- The same motion, one second after the clock's epoch and two seconds after it. -/
theorem idle_time_counts : ¬ Independent (0 : ℚ) 1 0 10 (fun _ => 0) (fun _ => 0) := by
  intro independent
  have idle : Idle (0 : ℚ) 1 0 (PIDParams 0 1 0) 1000000 := .set 1000000 le_rfl
  have same := independent _ _ _ _ 1000000000 2000000000 idle idle (by decide) (by decide) 0
  have first : Motion.move ⟨10, 1000000000, fun _ => 0, fun _ => 0⟩ (PIDParams (0 : ℚ) 1 0) 0 =
      some (some 10) := by decide +kernel
  have second : Motion.move ⟨10, 2000000000, fun _ => 0, fun _ => 0⟩ (PIDParams (0 : ℚ) 1 0) 0 =
      some (some 20) := by decide +kernel
  rw [first, second] at same
  exact absurd same (by decide)

/-- In the code's own numbers, with a time step of one second and of two. -/
example : let pid := (BasicStrings.PIDParams 0.0 1.0 0.0 (-200.0) 200.0).setTargetAndBias 10.0 0.0
    (pid.calculate 0.0 1.0).2 = 10.0 ∧ (pid.calculate 0.0 2.0).2 = 20.0 := by decide +kernel

end DCScan.History

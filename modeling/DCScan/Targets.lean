import DCScan.BasicStrings

/-!
What the motions of `MoveAbsolutePID` head for.

The loop measures its error against the requested position. The controller is given it as its target
before every move, and takes zero instead when it lies outside its bounds; that it has, nobody is told.
-/

namespace DCScan.Targets

open BasicStrings

/-- The controller takes the position for its target. -/
def Accepts (pid : PID) (target_position : Float) : Prop :=
  ¬ (target_position > pid.max ∨ target_position < pid.min)

/-- What the controller, as it stands, puts out for this target. -/
def output (pid : PID) (target_position pos dt : Float) : Float :=
  (PID.calculate { pid with target := target_position, bias := 0.0 } pos dt).2

/-- There is a move to be made. -/
def Off (target_position pos : Float) : Prop := (target_position - pos).abs > 0.00005

instance (target_position pos : Float) : Decidable (Off target_position pos) :=
  inferInstanceAs (Decidable (_ > _))

/-- `pid_targets_working` before turn `k`: it is cleared behind the loops. -/
def working (pid : PID) (target_position : Float) (around : Surroundings) (k : Nat) : Bool :=
  (moverAt pid target_position around k).i < 2

/-- A motion towards its target. -/
structure Towards (pid : PID) (target_position : Float) (around : Surroundings) : Prop where
  moves : ∀ k relative_move, relativeMove pid target_position around k = some relative_move →
    relative_move = output (moverAt pid target_position around k).pid target_position
      (around.calpos k) (around.dt k)
  /-- A position that is not accepted is refused, and another motion can start. -/
  refuses : ¬ Accepts pid target_position →
    (∀ k, relativeMove pid target_position around k = none) ∧
      ∃ k, working pid target_position around k = false

/-- The motion that the call starts, if it starts one. -/
def MovesTowards (host : Host) (target : Int32) (group : Argument) (target_position : Float)
    (around : Surroundings) : Prop :=
  ∀ pid, host.starts target group = some pid → Towards pid target_position around

/-- The positioner is where it shall be, and stays there for the second pass. -/
def There (target_position : Float) (around : Surroundings) : Prop :=
  ¬ Off target_position (around.calpos 0) ∧ ¬ Off target_position (around.calpos 1)

variable {pid : PID} {target_position : Float} {around : Surroundings} {k : Nat}

/-- A turn moves when there is a move to be made and the loops are not over. -/
theorem relativeMove_isSome_iff : (relativeMove pid target_position around k).isSome ↔
    working pid target_position around k ∧ Off target_position (around.calpos k) := by
  rw [relativeMove, working, decide_eq_true_iff, Off]
  by_cases moving : (moverAt pid target_position around k).i < 2
  · by_cases off : (target_position - around.calpos k).abs > 0.00005
    · simp [Mover.turn_move moving off, moving, off]
    · simp [Mover.turn_pass moving off, off]
  · simp [Mover.turn_done moving, moving]

/-- A turn without a move passes on. -/
theorem moverAt_pass (moving : (moverAt pid target_position around k).i < 2)
    (near : ¬ Off target_position (around.calpos k)) :
    moverAt pid target_position around (k + 1) =
      ⟨(moverAt pid target_position around k).i + 1, (moverAt pid target_position around k).pid⟩ := by
  rw [moverAt, Mover.turn_pass moving near]

/-- Once the loops are over, the thread is. -/
theorem working_done (done : (moverAt pid target_position around k).i = 2) (n : Nat) :
    working pid target_position around (k + n) = false := by
  have kept : moverAt pid target_position around (k + n) = moverAt pid target_position around k := by
    induction n with
    | zero => rfl
    | succ n ih => rw [← Nat.add_assoc, moverAt, ih, Mover.turn_done (by omega)]
  rw [working, kept, done]
  rfl

/-- A motion that begins at its target issues no move, and is over after two turns. -/
theorem still (pid : PID) (there : There target_position around) :
    (∀ k, relativeMove pid target_position around k = none) ∧
      working pid target_position around 2 = false := by
  have first : moverAt pid target_position around 1 = ⟨1, pid⟩ :=
    moverAt_pass (k := 0) Nat.two_pos there.1
  have second : moverAt pid target_position around 2 = ⟨2, pid⟩ := by
    rw [moverAt_pass (k := 1) (by rw [first]; exact Nat.one_lt_two) there.2, first]
  have ended (n : Nat) : working pid target_position around (2 + n) = false :=
    working_done (by rw [second]) n
  refine ⟨fun k => ?_, ended 0⟩
  rw [← Option.not_isSome_iff_eq_none, relativeMove_isSome_iff]
  rintro ⟨busy, off⟩
  rcases k with _ | _ | k
  · exact there.1 off
  · exact there.2 off
  · rw [show k + 1 + 1 = 2 + k by omega, ended k] at busy
    cases busy

/-- A motion without a move begins at its target. -/
theorem there_of_still (quiet : ∀ k, relativeMove pid target_position around k = none) :
    There target_position around := by
  have near (k : Nat) (busy : working pid target_position around k) :
      ¬ Off target_position (around.calpos k) := fun off => by
    have moved := relativeMove_isSome_iff.mpr ⟨busy, off⟩
    rw [quiet k] at moved
    cases moved
  have first := near 0 rfl
  have passed : moverAt pid target_position around 1 = ⟨1, pid⟩ :=
    moverAt_pass (k := 0) Nat.two_pos first
  exact ⟨first, near 1 (by rw [working, passed]; rfl)⟩

/-- The controller is given the target before it is asked. -/
theorem move_of_accepts (accepts : Accepts (moverAt pid target_position around k).pid target_position)
    {relative_move : Float} (moved : relativeMove pid target_position around k = some relative_move) :
    relative_move = output (moverAt pid target_position around k).pid target_position
      (around.calpos k) (around.dt k) := by
  have some_move : (relativeMove pid target_position around k).isSome := by
    rw [moved]
    rfl
  obtain ⟨busy, off⟩ := relativeMove_isSome_iff.mp some_move
  rw [working, decide_eq_true_iff] at busy
  rw [relativeMove, Mover.turn_move busy off, PID.setTargetAndBias, if_neg accepts] at moved
  exact (Option.some.inj moved).symm

/-- The bounds are the same at every turn. -/
theorem moverAt_bounds (k : Nat) : (moverAt pid target_position around k).pid.min = pid.min ∧
    (moverAt pid target_position around k).pid.max = pid.max := by
  induction k with
  | zero => exact ⟨rfl, rfl⟩
  | succ k ih =>
    rw [moverAt]
    by_cases moving : (moverAt pid target_position around k).i < 2
    · by_cases off : (target_position - around.calpos k).abs > 0.00005
      · rw [Mover.turn_move moving off, PID.setTargetAndBias]
        split <;> exact ih
      · rw [Mover.turn_pass moving off]
        exact ih
    · rw [Mover.turn_done moving]
      exact ih

/-- A motion is towards its target when the target is accepted, or the positioner is there. -/
theorem towards_iff : Towards pid target_position around ↔
    Accepts pid target_position ∨ There target_position around := by
  constructor
  · intro towards
    by_cases accepts : Accepts pid target_position
    · exact Or.inl accepts
    · exact Or.inr (there_of_still (towards.refuses accepts).1)
  · rintro (accepts | there)
    · refine ⟨fun k relative_move moved => move_of_accepts ?_ moved, fun refused => absurd accepts refused⟩
      rwa [Accepts, (moverAt_bounds k).1, (moverAt_bounds k).2]
    · have quiet := still pid there
      refine ⟨fun k relative_move moved => ?_, fun _ => ⟨quiet.1, 2, quiet.2⟩⟩
      rw [quiet.1 k] at moved
      cases moved

/-- **A motion moves only towards its requested target**, for every controller and every sequence of
readings, if and only if the controller accepts the target or there is no move to be made. -/
theorem movesTowards_iff (host : Host) (target : Int32) (group : Argument) (target_position : Float)
    (around : Surroundings) : MovesTowards host target group target_position around ↔
      ∀ pid, host.starts target group = some pid →
        Accepts pid target_position ∨ There target_position around :=
  forall₂_congr fun _ _ => towards_iff

/-! ## A target of 300 -/

theorem zero_size : (0 :: List.replicate 511 (0 : UInt8)).length = 512 := by
  rw [List.length_cons, List.length_replicate]

def noGroup : Argument := ⟨⟨0 :: List.replicate 511 0, zero_size⟩, ⟨[], nil_nul_free⟩⟩

/-- One controller, of gain 1, for every positioner. -/
def oneController : Host :=
  { sampleHost with pid_targets := fun _ => some (PIDParams 1.0 0.0 0.0 (-200.0) 200.0, 2) }

/-- The encoder reads 100, always. -/
def hundred : Surroundings := ⟨fun _ => 100.0, fun _ => 0.5, fun _ => sampleLocal, fun _ => []⟩

/-- It is moved away from its target, to zero. -/
theorem three_hundred_backwards :
    ¬ MovesTowards oneController 1 noGroup 300.0 hundred := by
  intro towards
  have motion := towards (PIDParams 1.0 0.0 0.0 (-200.0) 200.0) rfl
  have moved : relativeMove (PIDParams 1.0 0.0 0.0 (-200.0) 200.0) 300.0 hundred 0 = some (-100.0) := by
    decide +kernel
  have refused := (motion.refuses (by unfold Accepts; decide +kernel)).1 0
  rw [moved] at refused
  cases refused

end DCScan.Targets

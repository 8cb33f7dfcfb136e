import DCScan.Lib.Bytes
import DCScan.Lib.System
import DCScan.Lib.Table

/-!
The PID motions: the calls that configure and start them, and the threads that carry them out.

The calls come one after another; the motion threads run beside them and beside each other. A flag
for each target and group says that a motion is in progress. A motion thread clears it when it is
done, and `SetPIDControlVariables` clears it too, whether or not a motion is in progress.
-/

namespace DCScan.Motion

open Lib

inductive PIDStatus where
  | OFF | READY | WORKING
  deriving DecidableEq, Repr

/-- Where a motion thread is. -/
inductive Phase where
  /-- In the loop's round `i`, or behind the loop. -/
  | moving (i : Nat)
  /-- It has cleared the flag. -/
  | cleared
  | ended
  deriving DecidableEq, Repr

/-- A motion thread. -/
structure Thread where
  target : Int32
  group : List UInt8
  phase : Phase
  deriving DecidableEq

/-- `std::to_string(static_cast<int>(target)) + group.buffer`. -/
def targetId (target : Int32) (group : List UInt8) : List UInt8 :=
  ascii (toString target.toInt) ++ group

def Thread.id (thread : Thread) : List UInt8 := targetId thread.target thread.group

/-- The thread moves its positioner, or may. -/
def Thread.active (thread : Thread) : Prop := ∃ i, thread.phase = .moving i

/-- Where the thread of the calls is. -/
inductive Caller where
  | idle
  /-- `SetPIDControlVariables` has replaced the parameters. -/
  | setting (id : List UInt8) (ax : Int8)
  /-- `MoveAbsolutePID` has found the flag false. -/
  | starting (target : Int32) (group : List UInt8)
  /-- It has set the flag. -/
  | raised (target : Int32) (group : List UInt8)
  deriving DecidableEq, Repr

structure State where
  /-- The encoder axis of the parameters. -/
  pid_targets : List UInt8 → Option Int8
  pid_targets_working : List UInt8 → Bool
  caller : Caller
  threads : List Thread
  /-- What `MoveAbsolutePIDChanged` has emitted. -/
  emitted : List (Int32 × List UInt8 × PIDStatus)

inductive Action where
  | SetPIDControlVariables (target : Int32) (group : List UInt8) (encoder_axis : Int8)
  /-- The second assignment of `SetPIDControlVariables`. -/
  | reset
  | MoveAbsolutePID (target : Int32) (group : List UInt8)
  | raise
  | launch
  /-- Round `i` of the loop is over, after any number of relative moves. -/
  | settle (k : Nat)
  | clear (k : Nat)
  | announce (k : Nat)
  deriving DecidableEq, Repr

/-- The next state of a thread. -/
def State.enter (s : State) (k : Nat) (thread : Thread) (phase : Phase) : State :=
  { s with threads := s.threads.set k { thread with phase } }

def step (s : State) : Action → Option State
  | .SetPIDControlVariables target group encoder_axis =>
    if s.caller = .idle then
      some { s with
        pid_targets := Function.update s.pid_targets (targetId target group) (some encoder_axis)
        caller := .setting (targetId target group) encoder_axis }
    else none
  | .reset => match s.caller with
    | .setting id _ =>
      some { s with
        pid_targets_working := Function.update s.pid_targets_working id false
        caller := .idle }
    | _ => none
  | .MoveAbsolutePID target group =>
    if s.caller = .idle then
      match s.pid_targets (targetId target group) with
      | none => some s
      | some ax =>
        if ax = -1 then some s
        else if s.pid_targets_working (targetId target group) then some s
        else some { s with caller := .starting target group }
    else none
  | .raise => match s.caller with
    | .starting target group =>
      some { s with
        pid_targets_working := Function.update s.pid_targets_working (targetId target group) true
        caller := .raised target group }
    | _ => none
  | .launch => match s.caller with
    | .raised target group =>
      some { s with
        caller := .idle
        threads := s.threads ++ [⟨target, group, .moving 0⟩]
        emitted := s.emitted ++ [(target, group, .WORKING)] }
    | _ => none
  | .settle k => match s.threads[k]? with
    | some ⟨target, group, .moving i⟩ =>
      if i < 2 then some (s.enter k ⟨target, group, .moving i⟩ (.moving (i + 1))) else none
    | _ => none
  | .clear k => match s.threads[k]? with
    | some ⟨target, group, .moving i⟩ =>
      if i < 2 then none
      else some { s.enter k ⟨target, group, .moving i⟩ .cleared with
        pid_targets_working := Function.update s.pid_targets_working (targetId target group) false }
    | _ => none
  | .announce k => match s.threads[k]? with
    | some ⟨target, group, .cleared⟩ =>
      some { s.enter k ⟨target, group, .cleared⟩ .ended with
        emitted := s.emitted ++ [(target, group, .READY)] }
    | _ => none

def system : System State Action where
  init s := s = ⟨fun _ => none, fun _ => false, .idle, [], []⟩
  step := step

/-- At most one motion thread is active for each target and group. -/
def OneMotion (s : State) : Prop :=
  ∀ (j k : Nat) (a b : Thread), s.threads[j]? = some a → s.threads[k]? = some b → a.active → b.active →
    a.target = b.target → a.group = b.group → j = k

/-- No motion of the positioner is in progress. -/
def AtRest (s : State) (id : List UInt8) : Prop :=
  ∀ (k : Nat) (thread : Thread), s.threads[k]? = some thread → thread.active → thread.id ≠ id

/-- An encoder axis is set only for a positioner at rest. -/
def InTurn (s : State) : Action → Prop
  | .reset => ∀ id ax, s.caller = .setting id ax → ax ≠ -1 → AtRest s id
  | _ => True

/-! ## The invariant -/

-- no proof below needs the text of a key
attribute [local irreducible] targetId

variable {s t : State} {a : Action} {k : Nat} {thread : Thread} {phase : Phase} {id : List UInt8}
variable {ax : Int8}

/-- The positioner that `MoveAbsolutePID` is about to move. -/
def Caller.claims : Caller → Option (List UInt8)
  | .starting target group => some (targetId target group)
  | .raised target group => some (targetId target group)
  | _ => none

structure Inv (s : State) : Prop where
  lone : ∀ (j k : Nat) (a b : Thread), s.threads[j]? = some a → s.threads[k]? = some b → a.active →
    b.active → a.id = b.id → j = k
  /-- The flag of a motion is set, or no other can start. -/
  busy : ∀ (k : Nat) (thread : Thread), s.threads[k]? = some thread → thread.active →
    s.pid_targets_working thread.id = true ∨ s.pid_targets thread.id = some (-1) ∨
      ∃ ax, s.caller = .setting thread.id ax
  claimed : ∀ id, s.caller.claims = some id → AtRest s id
  raised : ∀ target group, s.caller = .raised target group →
    s.pid_targets_working (targetId target group) = true
  setting : ∀ id ax, s.caller = .setting id ax → s.pid_targets id = some ax

theorem Inv.oneMotion (inv : Inv s) : OneMotion s := by
  intro j k a b first second a_active b_active same_target same_group
  refine inv.lone j k a b first second a_active b_active ?_
  rw [Thread.id, Thread.id, same_target, same_group]

/-- What a step of a thread leaves active was active before. -/
theorem active_of_enter {other : Thread} {j : Nat} (found : s.threads[k]? = some thread)
    (was : phase ≠ .cleared → phase ≠ .ended → thread.active)
    (here : (s.enter k thread phase).threads[j]? = some other) (active : other.active) :
    ∃ before, s.threads[j]? = some before ∧ before.active ∧ before.id = other.id := by
  rcases set_cases here with ⟨rfl, rfl⟩ | ⟨_, old⟩
  · obtain ⟨i, moving⟩ := active
    have moving : phase = .moving i := moving
    refine ⟨thread, found, was ?_ ?_, rfl⟩
    · rw [moving]
      simp
    · rw [moving]
      simp
  · exact ⟨other, old, active, rfl⟩

/-- A thread that makes no new motion keeps the invariant. -/
theorem Inv.enter (inv : Inv s) (found : s.threads[k]? = some thread)
    (was : phase ≠ .cleared → phase ≠ .ended → thread.active) : Inv (s.enter k thread phase) where
  lone i j a b first second a_active b_active same := by
    obtain ⟨a', first, a_active, same_a⟩ := active_of_enter found was first a_active
    obtain ⟨b', second, b_active, same_b⟩ := active_of_enter found was second b_active
    exact inv.lone i j a' b' first second a_active b_active ((same_a.trans same).trans same_b.symm)
  busy j other here active := by
    obtain ⟨before, there, active, same⟩ := active_of_enter found was here active
    exact same ▸ inv.busy j before there active
  claimed id claims j other here active := by
    obtain ⟨before, there, active, same⟩ := active_of_enter found was here active
    exact same ▸ inv.claimed id claims j before there active
  raised := inv.raised
  setting := inv.setting

theorem inv_init (first : system.init s) : Inv s := by
  cases first
  constructor
  · intro j k a b found
    simp at found
  · intro k thread found
    simp at found
  · rintro id ⟨⟩
  · rintro target group ⟨⟩
  · rintro id ax ⟨⟩

/-- Outside of `SetPIDControlVariables` the flag of a motion is set, or no other can start. -/
theorem Inv.guarded (inv : Inv s) (calm : ∀ id ax, s.caller ≠ .setting id ax)
    (found : s.threads[k]? = some thread) (active : thread.active) :
    s.pid_targets_working thread.id = true ∨ s.pid_targets thread.id = some (-1) := by
  rcases inv.busy k thread found active with raised | off | ⟨ax, setting⟩
  · exact Or.inl raised
  · exact Or.inr off
  · exact absurd setting (calm _ ax)

/-- The parameters are replaced before the flag. -/
theorem Inv.set (inv : Inv s) (idle : s.caller = .idle) (id : List UInt8) (ax : Int8) :
    Inv { s with
      pid_targets := Function.update s.pid_targets id (some ax)
      caller := .setting id ax } where
  lone := inv.lone
  busy k thread found active := by
    by_cases own : thread.id = id
    · exact Or.inr (Or.inr ⟨ax, by rw [own]⟩)
    · rcases inv.guarded (by simp [idle]) found active with raised | off
      · exact Or.inl raised
      · have kept := Function.update_of_ne own (some ax) s.pid_targets
        exact Or.inr (Or.inl (kept.trans off))
  claimed := by rintro id ⟨⟩
  raised := by rintro target group ⟨⟩
  setting := by
    rintro id' ax' ⟨⟩
    exact Function.update_self _ _ _

/-- The flag is cleared of a positioner at rest, or of one that can start no motion. -/
theorem Inv.reset (inv : Inv s) (at_ : s.caller = .setting id ax) (rest : ax ≠ -1 → AtRest s id) :
    Inv { s with
      pid_targets_working := Function.update s.pid_targets_working id false
      caller := .idle } where
  lone := inv.lone
  busy k thread found active := by
    by_cases own : thread.id = id
    · by_cases off : ax = -1
      · have params := inv.setting id ax at_
        rw [off] at params
        exact Or.inr (Or.inl (own ▸ params))
      · exact absurd own (rest off k thread found active)
    · rcases inv.busy k thread found active with raised | off | ⟨_, setting⟩
      · have kept := Function.update_of_ne own false s.pid_targets_working
        exact Or.inl (kept.trans raised)
      · exact Or.inr (Or.inl off)
      · rw [at_] at setting
        cases setting
        exact absurd rfl own
  claimed := by rintro id ⟨⟩
  raised := by rintro target group ⟨⟩
  setting := by rintro id ax ⟨⟩

/-- `MoveAbsolutePID` goes on only for a positioner at rest. -/
theorem Inv.start {target : Int32} {group : List UInt8} (inv : Inv s) (idle : s.caller = .idle)
    (params : s.pid_targets (targetId target group) = some ax) (on : ax ≠ -1)
    (free : ¬ s.pid_targets_working (targetId target group) = true) :
    Inv { s with caller := .starting target group } where
  lone := inv.lone
  busy k thread found active :=
    (inv.guarded (by simp [idle]) found active).imp_right Or.inl
  claimed := by
    rintro id ⟨⟩ k thread found active same
    rcases inv.guarded (by simp [idle]) found active with raised | off
    · exact free (same ▸ raised)
    · rw [same, params] at off
      exact on (Option.some.inj off)
  raised := by rintro target group ⟨⟩
  setting := by rintro id ax ⟨⟩

theorem Inv.raise {target : Int32} {group : List UInt8} (inv : Inv s)
    (at_ : s.caller = .starting target group) :
    Inv { s with
      pid_targets_working := Function.update s.pid_targets_working (targetId target group) true
      caller := .raised target group } where
  lone := inv.lone
  busy k thread found active := by
    have rest : AtRest s (targetId target group) := inv.claimed _ (by rw [at_]; rfl)
    have other := rest k thread found active
    rcases inv.guarded (by simp [at_]) found active with raised | off
    · have kept := Function.update_of_ne other true s.pid_targets_working
      exact Or.inl (kept.trans raised)
    · exact Or.inr (Or.inl off)
  claimed := by
    rintro id ⟨⟩
    exact inv.claimed _ (by rw [at_]; rfl)
  raised := by
    rintro target group ⟨⟩
    exact Function.update_self _ _ _
  setting := by rintro id ax ⟨⟩

/-- The new thread is the only one of its positioner. -/
theorem Inv.launch {target : Int32} {group : List UInt8} (inv : Inv s)
    (at_ : s.caller = .raised target group) :
    Inv { s with
      caller := .idle
      threads := s.threads ++ [⟨target, group, .moving 0⟩]
      emitted := s.emitted ++ [(target, group, .WORKING)] } where
  lone j k a b first second a_active b_active same := by
    have rest : AtRest s (targetId target group) := inv.claimed _ (by rw [at_]; rfl)
    rcases concat_cases first with ⟨rfl, rfl⟩ | first
    · rcases concat_cases second with ⟨rfl, rfl⟩ | second
      · rfl
      · exact absurd same.symm (rest k b second b_active)
    · rcases concat_cases second with ⟨rfl, rfl⟩ | second
      · exact absurd same (rest j a first a_active)
      · exact inv.lone j k a b first second a_active b_active same
  busy k thread found active := by
    rcases concat_cases found with ⟨rfl, rfl⟩ | old
    · exact Or.inl (inv.raised target group at_)
    · exact (inv.guarded (by simp [at_]) old active).imp_right Or.inl
  claimed := by rintro id ⟨⟩
  raised := by rintro target group ⟨⟩
  setting := by rintro id ax ⟨⟩

/-- A motion that is over clears the flag of no other. -/
theorem Inv.clear {target : Int32} {group : List UInt8} {i : Nat} (inv : Inv s)
    (found : s.threads[k]? = some ⟨target, group, .moving i⟩) :
    Inv { s.enter k ⟨target, group, .moving i⟩ .cleared with
      pid_targets_working := Function.update s.pid_targets_working (targetId target group) false } := by
  have kept : Inv (s.enter k ⟨target, group, .moving i⟩ .cleared) :=
    inv.enter found fun no => absurd rfl no
  constructor
  · exact kept.lone
  · intro j thread here active
    have other : thread.id ≠ targetId target group := by
      intro same
      rcases set_cases here with ⟨_, rfl⟩ | ⟨apart, old⟩
      · obtain ⟨_, ⟨⟩⟩ := active
      · exact apart (inv.lone j k _ _ old found active ⟨i, rfl⟩ same)
    rcases kept.busy j thread here active with raised | off | setting
    · have flag := Function.update_of_ne other false s.pid_targets_working
      exact Or.inl (flag.trans raised)
    · exact Or.inr (Or.inl off)
    · exact Or.inr (Or.inr setting)
  · exact kept.claimed
  · intro target' group' at_
    have rest : AtRest s (targetId target' group') := inv.claimed _ (by
      rw [show s.caller = _ from at_]
      rfl)
    have other : targetId target group ≠ targetId target' group' := rest k _ found ⟨i, rfl⟩
    have flag := Function.update_of_ne other.symm false s.pid_targets_working
    exact flag.trans (inv.raised target' group' at_)
  · exact kept.setting

/-- A step in turn keeps the invariant. -/
theorem Inv.step (inv : Inv s) (inTurn : InTurn s a) (ran : Motion.step s a = some t) : Inv t := by
  cases a with
  | SetPIDControlVariables target group ax =>
    simp only [Motion.step, Option.ite_none_right_eq_some] at ran
    obtain ⟨idle, same⟩ := ran
    cases same
    exact inv.set idle _ ax
  | reset =>
    cases at_ : s.caller with
    | setting id ax =>
      simp only [Motion.step, at_, Option.some.injEq] at ran
      cases ran
      exact inv.reset at_ (inTurn id ax at_)
    | _ => simp [Motion.step, at_] at ran
  | MoveAbsolutePID target group =>
    simp only [Motion.step, Option.ite_none_right_eq_some] at ran
    obtain ⟨idle, ran⟩ := ran
    cases params : s.pid_targets (targetId target group) with
    | none =>
      rw [params] at ran
      cases ran
      exact inv
    | some ax =>
      simp only [params] at ran
      split at ran
      · cases ran
        exact inv
      · rename_i on
        split at ran
        · cases ran
          exact inv
        · rename_i free
          cases ran
          exact inv.start idle params on free
  | raise =>
    cases at_ : s.caller with
    | starting target group =>
      simp only [Motion.step, at_, Option.some.injEq] at ran
      cases ran
      exact inv.raise at_
    | _ => simp [Motion.step, at_] at ran
  | launch =>
    cases at_ : s.caller with
    | raised target group =>
      simp only [Motion.step, at_, Option.some.injEq] at ran
      cases ran
      exact inv.launch at_
    | _ => simp [Motion.step, at_] at ran
  | settle k =>
    simp only [Motion.step] at ran
    split at ran
    · rename_i target group i found
      split at ran
      · cases ran
        exact inv.enter found fun _ _ => ⟨i, rfl⟩
      · cases ran
    · cases ran
  | clear k =>
    simp only [Motion.step] at ran
    split at ran
    · rename_i target group i found
      split at ran
      · cases ran
      · cases ran
        exact inv.clear found
    · cases ran
  | announce k =>
    simp only [Motion.step] at ran
    split at ran
    · rename_i target group found
      cases ran
      have kept : Inv (s.enter k ⟨target, group, .cleared⟩ .ended) :=
        inv.enter found fun _ no => absurd rfl no
      exact ⟨kept.lone, kept.busy, kept.claimed, kept.raised, kept.setting⟩
    · cases ran

theorem inv_of_reachable (h : system.ReachableBy InTurn s) : Inv s :=
  h.invariant (fun _ => inv_init) fun _ _ _ => Inv.step

/-- After a reset during a motion the next call starts another one. -/
theorem two_motions (params : s.pid_targets thread.id = some ax) (on : ax ≠ -1)
    (free : s.pid_targets_working thread.id = false) (idle : s.caller = .idle)
    (found : s.threads[k]? = some thread) (active : thread.active) :
    ∃ u, system.run s [.MoveAbsolutePID thread.target thread.group, .raise, .launch] = some u ∧
      ¬ OneMotion u := by
  have params : s.pid_targets (targetId thread.target thread.group) = some ax := params
  have free : s.pid_targets_working (targetId thread.target thread.group) = false := free
  refine ⟨{ s with
    pid_targets_working := Function.update s.pid_targets_working thread.id true
    threads := s.threads ++ [⟨thread.target, thread.group, .moving 0⟩]
    emitted := s.emitted ++ [(thread.target, thread.group, .WORKING)]
    caller := .idle }, ?_, fun one => ?_⟩
  · simp [System.run, system, step, idle, params, on, free, Thread.id]
  · have inside : k < s.threads.length := (List.getElem?_eq_some_iff.mp found).1
    have kept : (s.threads ++ [⟨thread.target, thread.group, .moving 0⟩])[k]? = some thread := by
      rw [List.getElem?_append_left inside, found]
    have same := one k s.threads.length thread ⟨thread.target, thread.group, .moving 0⟩ kept
      List.getElem?_concat_length active ⟨0, rfl⟩ rfl rfl
    omega

/-- **One motion a positioner**: in every run that sets encoder axes only for positioners at rest at
most one motion thread is active for each target and group; and where one is set otherwise, two
motions can follow. -/
theorem one_motion (h : system.ReachableBy InTurn s) :
    OneMotion s ∧ ∀ a t, ¬ InTurn s a → step s a = some t →
      ∃ as u, system.run t as = some u ∧ ¬ OneMotion u := by
  have inv := inv_of_reachable h
  refine ⟨inv.oneMotion, fun a t early ran => ?_⟩
  cases a with
  | reset =>
    have early : ∃ id ax, s.caller = .setting id ax ∧ ax ≠ -1 ∧ ∃ (k : Nat) (thread : Thread),
        s.threads[k]? = some thread ∧ thread.active ∧ thread.id = id := by
      simpa [InTurn, AtRest] using early
    obtain ⟨id, ax, at_, on, k, thread, found, active, rfl⟩ := early
    simp only [step, at_, Option.some.injEq] at ran
    cases ran
    exact ⟨_, two_motions (inv.setting _ ax at_) on (Function.update_self _ _ _) rfl found active⟩
  | _ => exact absurd trivial early

/-- A positioner group. -/
def table : List UInt8 := [84]

/-- Parameters, a motion and a refused call, and parameters and a motion again when it is over. -/
def orderly : List Action :=
  [.SetPIDControlVariables 2 table 1, .reset, .MoveAbsolutePID 2 table, .raise, .launch,
    .MoveAbsolutePID 2 table, .settle 0, .settle 0, .clear 0, .SetPIDControlVariables 2 table 1,
    .reset, .MoveAbsolutePID 2 table, .raise, .launch]

theorem one_motion_orderly : ∃ s, (s.threads.length = 2 ∧ OneMotion s) ∧
    system.ReachableBy InTurn s := by
  have replayed : ∃ s, system.ReachableBy
      (fun s a => a = .reset → ∀ thread ∈ s.threads, thread.phase = .cleared) s ∧
      s.threads.length = 2 :=
    System.exists_reachableBy_of_replay rfl orderly (by decide +kernel)
  obtain ⟨s, reached, two⟩ := replayed
  have inTurn : system.ReachableBy InTurn s := reached.mono fun s a _ met => by
    cases a with
    | reset =>
      intro id ax _ _ k thread found active
      obtain ⟨i, moving⟩ := active
      rw [met rfl thread (List.mem_of_getElem? found)] at moving
      cases moving
    | _ => trivial
  exact ⟨s, ⟨two, (one_motion inTurn).1⟩, inTurn⟩

/-- The gains are changed during a motion, and a second motion is started. -/
theorem second_motion : ∃ s, system.Reachable s ∧ ¬ OneMotion s := by
  have replayed : ∃ s, system.Reachable s ∧
      s.threads = [⟨2, table, .moving 0⟩, ⟨2, table, .moving 0⟩] :=
    System.exists_reachable_of_replay rfl [.SetPIDControlVariables 2 table 1, .reset,
      .MoveAbsolutePID 2 table, .raise, .launch, .SetPIDControlVariables 2 table 1, .reset,
      .MoveAbsolutePID 2 table, .raise, .launch] (by decide +kernel)
  obtain ⟨s, reached, two⟩ := replayed
  refine ⟨s, reached, fun one => ?_⟩
  have same := one 0 1 ⟨2, table, .moving 0⟩ ⟨2, table, .moving 0⟩ (by rw [two]; rfl)
    (by rw [two]; rfl) ⟨0, rfl⟩ ⟨0, rfl⟩ rfl rfl
  cases same

end DCScan.Motion

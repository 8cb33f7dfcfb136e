import DCScan.Lib.Text
import DCScan.ControlService

/-!
`Coms::Command` and its `operator+`, over any bracketing of a sum.

A sum of two commands is built on `Command()`, whose target is the ESP301; the target of the two is
compared, and not copied. So what a sum is for depends on the default alone.
-/

namespace DCScan.Coms

open Lib

structure Command where
  full_cmd : List UInt8
  id : UInt64
  axis : UInt16
  /-- The number of a `UnitTarget`. -/
  target : UInt32
  wait_response : Bool
  deriving DecidableEq, Repr

/-- `Control::UnitTarget::ESP301`. -/
def ESP301 : UInt32 := 0

/-- `Command()`: an empty, invalid, command. Its `wait_response` is what the memory holds. -/
def Command.empty (memory : Bool) : Command := ⟨[], 0, 0, ESP301, memory⟩

/-- `operator+`, and what it logs. -/
def Command.plus (memory : Bool) (lhs rhs : Command) : Command × List Text :=
  if lhs.target ≠ rhs.target then
    (.empty memory, ["Cannot concatenate two commands for different targets.".toList])
  else
    let res := Command.empty memory
    ({ res with
        id := rhs.id
        axis := 0
        wait_response := lhs.wait_response || rhs.wait_response
        full_cmd := lhs.full_cmd ++ rhs.full_cmd }, [])

/-- What the service takes out of the buffer. -/
def Command.scheduled (c : Command) : DCScan.Command := ⟨c.target, c.full_cmd, c.wait_response⟩

/-- A sum of commands, with what the memory holds at each `+`. -/
inductive Bracketing where
  | one (c : Command)
  | plus (memory : Bool) (lhs rhs : Bracketing)

namespace Bracketing

/-- The commands in their order. -/
def commands : Bracketing → List Command
  | one c => [c]
  | plus _ lhs rhs => lhs.commands ++ rhs.commands

def eval : Bracketing → Command × List Text
  | one c => (c, [])
  | plus memory lhs rhs =>
    let sum := Command.plus memory lhs.eval.1 rhs.eval.1
    (sum.1, lhs.eval.2 ++ rhs.eval.2 ++ sum.2)

/-- It is the command for the target whose text is that of the commands in their order. -/
structure Concatenates (b : Bracketing) (target : UInt32) : Prop where
  accepted : b.eval.2 = []
  target : b.eval.1.target = target
  full_cmd : b.eval.1.full_cmd = b.commands.flatMap Command.full_cmd
  wait_response : b.eval.1.wait_response = b.commands.any Command.wait_response

end Bracketing

/-- An empty command is returned, which the service passes over. -/
def Refused (lhs rhs : Command) : Prop :=
  ∀ memory, (Command.plus memory lhs rhs).1 = .empty memory ∧
    (Command.plus memory lhs rhs).2 ≠ [] ∧
      ConsumerLoop.controlLoop.guard (Command.plus memory lhs rhs).1.scheduled = true

variable {lhs rhs : Command} {b : Bracketing} {target : UInt32} {memory : Bool}

theorem refused (different : lhs.target ≠ rhs.target) : Refused lhs rhs := by
  intro memory
  rw [Command.plus, if_pos different]
  exact ⟨rfl, List.cons_ne_nil _ _, rfl⟩

/-- Whatever is added, the sum is for the ESP301. -/
theorem plus_target (memory : Bool) (lhs rhs : Command) :
    (Command.plus memory lhs rhs).1.target = ESP301 := by
  unfold Command.plus
  split <;> rfl

namespace Bracketing

theorem commands_ne_nil (b : Bracketing) : b.commands ≠ [] := by
  induction b with
  | one c => exact List.cons_ne_nil _ _
  | plus memory lhs rhs left _ =>
    intro none_there
    exact left (List.append_eq_nil_iff.mp none_there).1

/-- A sum has more than one command. -/
theorem two_le_of_plus (memory : Bool) (lhs rhs : Bracketing) :
    2 ≤ (Bracketing.plus memory lhs rhs).commands.length := by
  have left := List.length_pos_iff.mpr lhs.commands_ne_nil
  have right := List.length_pos_iff.mpr rhs.commands_ne_nil
  rw [commands, List.length_append]
  omega

/-- Commands for the ESP301 add up, in any bracketing. -/
theorem concatenates_ESP301 (same : ∀ c ∈ b.commands, c.target = ESP301) :
    b.Concatenates ESP301 := by
  induction b with
  | one c =>
    refine ⟨rfl, same c List.mem_cons_self, ?_, ?_⟩
    · exact (List.append_nil _).symm
    · exact (Bool.or_false _).symm
  | plus memory lhs rhs left right =>
    have left := left fun c member => same c (List.mem_append_left _ member)
    have right := right fun c member => same c (List.mem_append_right _ member)
    have alike : ¬ lhs.eval.1.target ≠ rhs.eval.1.target := by
      rw [left.target, right.target]
      exact not_not.mpr rfl
    have sum : (Bracketing.plus memory lhs rhs).eval =
        (⟨lhs.eval.1.full_cmd ++ rhs.eval.1.full_cmd, rhs.eval.1.id, 0, ESP301,
          lhs.eval.1.wait_response || rhs.eval.1.wait_response⟩, []) := by
      simp only [eval, Command.plus, if_neg alike, left.accepted, right.accepted]
      rfl
    refine ⟨by rw [sum], by rw [sum], ?_, ?_⟩
    · rw [sum, commands, List.flatMap_append, left.full_cmd, right.full_cmd]
    · rw [sum, commands, List.any_append, left.wait_response, right.wait_response]

theorem concatenates_iff (same : ∀ c ∈ b.commands, c.target = target) :
    b.Concatenates target ↔ target = ESP301 ∨ b.commands.length = 1 := by
  constructor
  · intro concatenates
    cases b with
    | one c => exact Or.inr rfl
    | plus memory lhs rhs => exact Or.inl (concatenates.target.symm.trans (plus_target ..))
  · rintro (rfl | alone)
    · exact concatenates_ESP301 same
    · cases b with
      | one c =>
        exact ⟨rfl, same c List.mem_cons_self, (List.append_nil _).symm, (Bool.or_false _).symm⟩
      | plus memory lhs rhs =>
        have more := two_le_of_plus memory lhs rhs
        omega

end Bracketing

/-- **Concatenated commands keep their target**, in any bracketing, if and only if it is the ESP301 or
there is nothing to concatenate; those of different targets are refused. -/
theorem keeps_target_iff (b : Bracketing) (target : UInt32) (lhs rhs : Command) :
    ((∀ c ∈ b.commands, c.target = target) →
      (b.Concatenates target ↔ target = ESP301 ∨ b.commands.length = 1)) ∧
    (lhs.target ≠ rhs.target → Refused lhs rhs) :=
  ⟨Bracketing.concatenates_iff, refused⟩

/-- Two commands to the ESP301 add up. -/
theorem esp301_target_kept :
    (Bracketing.plus false (.one ⟨ascii "1MO;", 0, 1, ESP301, false⟩)
      (.one ⟨ascii "1TP?;", 1, 1, ESP301, true⟩)).Concatenates ESP301 :=
  ((keeps_target_iff _ ESP301 (.empty false) (.empty false)).1 (by decide)).mpr (Or.inl rfl)

/-- A query to the PMC8742. -/
def query (text : String) : Command := ⟨ascii text, 0, 0, 1, true⟩

/-- Two commands to the PMC8742 go to the ESP301, and three are refused. -/
theorem pmc8742_target_lost :
    ¬ (Bracketing.plus false (.one (query "1VE?")) (.one (query "2VE?"))).Concatenates 1 ∧
    (Bracketing.plus false (.plus false (.one (query "1VE?")) (.one (query "2VE?")))
      (.one (query "3VE?"))).eval.2 ≠ [] ∧
    UnitTarget.ofCode (Bracketing.plus false (.one (query "1VE?"))
      (.one (query "2VE?"))).eval.1.scheduled.target = some .ESP301 :=
  ⟨fun concatenates => absurd concatenates.target (by decide), by decide, by decide⟩

end DCScan.Coms

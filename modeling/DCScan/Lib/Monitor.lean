/-!
A thread inside `wait` on a condition variable.

`wait` gives up the mutex and goes to sleep in one step. A thread that has decided to wait still
holds the mutex; a notification sent without the mutex can fall into that moment, and reaches
nobody.
-/

namespace DCScan.Lib

/-- Where a thread stands inside `wait`. -/
inductive Waiter where
  /-- It has decided to wait and still holds the mutex. -/
  | blocking
  /-- It sleeps, and the mutex is free. -/
  | sleeping
  /-- It is to take the mutex again. -/
  | woken
  deriving DecidableEq, Repr

namespace Waiter

variable {w : Waiter}

/-- A notification reaches a thread that sleeps. -/
def wake : Waiter → Waiter
  | .sleeping => .woken
  | w => w

@[simp] theorem wake_ne_sleeping : wake w ≠ .sleeping := by cases w <;> simp [wake]

/-- A notification between the decision to wait and the sleep is lost. -/
@[simp] theorem wake_eq_blocking : wake w = .blocking ↔ w = .blocking := by
  cases w <;> simp [wake]

end Waiter

end DCScan.Lib

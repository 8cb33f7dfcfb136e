import DCScan.Lib.Since
import Mathlib.Logic.Function.Basic

/-!
Handles that are acquired, used and released.

A history is in turn when nothing is acquired that is held, and nothing used or released that is not.
`track` follows a history and has no answer when it is not in turn (`inTurn_iff_track`).
-/

namespace DCScan.Lib

inductive Access where
  | acquire | use | release
  deriving DecidableEq, Repr

section

variable {H : Type} {history more : List (H × Access)} {held held' : H → Bool} {h : H} {a : Access}

/-- It was acquired, and has not been released since. -/
def Held (h : H) (history : List (H × Access)) : Prop :=
  Since (· = (h, .acquire)) (· = (h, .release)) history

def InTurn (history : List (H × Access)) : Prop :=
  ∀ before h a after, history = before ++ (h, a) :: after → (a = .acquire ↔ ¬Held h before)

theorem inTurn_nil : InTurn ([] : List (H × Access)) := by
  intro before h a after split
  cases before <;> cases split

theorem inTurn_concat : InTurn (history ++ [(h, a)]) ↔
    InTurn history ∧ (a = .acquire ↔ ¬Held h history) := by
  constructor
  · intro turn
    refine ⟨fun before k b after split => turn before k b (after ++ [(h, a)]) (by simp [split]), ?_⟩
    exact turn history h a [] rfl
  · rintro ⟨turn, last⟩ before k b after split
    rcases List.eq_nil_or_concat after with rfl | ⟨after, z, rfl⟩
    · obtain ⟨rfl, same⟩ := List.append_inj' split rfl
      cases List.singleton_inj.mp same
      exact last
    · rw [List.concat_eq_append, ← List.cons_append, ← List.append_assoc] at split
      exact turn before k b after (List.append_inj' split rfl).1

variable [DecidableEq H]

/-- One access, when the handles in `held` are held. -/
def advance (held : H → Bool) : H × Access → Option (H → Bool)
  | (h, .acquire) => if held h then none else some (Function.update held h true)
  | (h, .use) => if held h then some held else none
  | (h, .release) => if held h then some (Function.update held h false) else none

/-- Which handles are held behind a history. -/
def track (history : List (H × Access)) : Option (H → Bool) :=
  history.foldlM advance fun _ => false

theorem track_append : track (history ++ more) = (track history).bind (more.foldlM advance) :=
  List.foldlM_append

theorem track_concat : track (history ++ [(h, a)]) =
    (track history).bind fun held => advance held (h, a) := by
  simp [track]

/-- What is out of turn stays so. -/
theorem track_append_none (out : track history = none) : track (history ++ more) = none := by
  rw [track_append, out]
  rfl

theorem held_advance (moved : advance held (h, a) = some held') (k : H) : held' k = true ↔
    (k = h ∧ a = .acquire) ∨ (held k = true ∧ ¬(k = h ∧ a = .release)) := by
  cases a with
  | acquire | release =>
    simp only [advance] at moved
    split at moved <;> cases moved
    by_cases same : k = h <;> simp [same]
  | use =>
    simp only [advance] at moved
    split at moved <;> cases moved
    simp

/-- A history that can be followed is in turn, and what is held is what was acquired and not
released since. -/
theorem track_spec (history : List (H × Access)) : (InTurn history ↔ (track history).isSome) ∧
    ∀ held, track history = some held → ∀ h, held h = true ↔ Held h history := by
  induction history using List.reverseRecOn with
  | nil => exact ⟨by simp [inTurn_nil, track], by rintro _ ⟨⟩ h; simp [Held]⟩
  | append_singleton history e ih =>
    obtain ⟨h, a⟩ := e
    obtain ⟨turn, meaning⟩ := ih
    rw [inTurn_concat, track_concat, turn]
    cases followed : track history with
    | none => simp
    | some held =>
      have known := meaning held followed
      refine ⟨?_, fun held' moved k => ?_⟩
      · rw [Option.bind_some, ← known h]
        cases a <;> cases there : held h <;> simp [advance, there]
      · rw [held_advance moved k, Held, since_concat, ← Held, known k]
        simp only [Prod.mk.injEq, eq_comm]

theorem inTurn_iff_track : InTurn history ↔ (track history).isSome := (track_spec history).1

theorem held_iff_track (followed : track history = some held) : held h = true ↔ Held h history :=
  (track_spec history).2 held followed h

/-- A handle that is held can be used. -/
theorem advance_uses (there : held h = true) (uses : ∀ e ∈ more, e = (h, .use)) :
    more.foldlM advance held = some held := by
  induction more with
  | nil => rfl
  | cons e more ih =>
    rw [List.foldlM_cons, uses e List.mem_cons_self]
    simp only [advance, there, if_true, Option.bind_eq_bind, Option.bind_some]
    exact ih fun e member => uses e (List.mem_cons_of_mem _ member)

/-! ## A handle that is not held -/

/-- The history is out of turn, or the handle is not held. -/
def Lost (h : H) (history : List (H × Access)) : Prop :=
  ∀ held, track history = some held → held h = false

theorem lost_release : Lost h (history ++ [(h, .release)]) := by
  intro held followed
  rw [track_concat, Option.bind_eq_some_iff] at followed
  obtain ⟨before, _, moved⟩ := followed
  simp only [advance] at moved
  split at moved <;> cases moved
  exact Function.update_self ..

/-- It is not held before it is acquired again. -/
theorem Lost.append (lost : Lost h history) (never : (h, .acquire) ∉ more) :
    Lost h (history ++ more) := by
  induction more using List.reverseRecOn with
  | nil => rwa [List.append_nil]
  | append_singleton more e ih =>
    obtain ⟨k, a⟩ := e
    have before := ih fun member => never (List.mem_append_left _ member)
    intro held followed
    rw [← List.append_assoc, track_concat, Option.bind_eq_some_iff] at followed
    obtain ⟨held', followed, moved⟩ := followed
    rw [Bool.eq_false_iff]
    intro there
    rcases (held_advance moved h).mp there with ⟨rfl, rfl⟩ | ⟨still, _⟩
    · exact never (by simp)
    · rw [before held' followed] at still
      cases still

/-- An access to it is out of turn. -/
theorem Lost.access (lost : Lost h history) (other : a ≠ .acquire) :
    track (history ++ [(h, a)]) = none := by
  rw [track_concat, Option.bind_eq_none_iff]
  intro held followed
  have gone := lost held followed
  cases a with
  | acquire => exact absurd rfl other
  | use => simp [advance, gone]
  | release => simp [advance, gone]

end

end DCScan.Lib

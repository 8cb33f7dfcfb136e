import Mathlib.Data.List.Basic

/-!
Text as a list of characters: the replacement of a pattern in it, and its pieces between the
occurrences of one.
-/

namespace DCScan.Lib

variable {α : Type} [DecidableEq α] {c x : α} {old new s : List α} {skip : Nat}

abbrev Text := List Char

/-- Replaces what matches `old` from left to right; `skip` characters of the last match are still
to be passed over. -/
def replaceFrom (old new : List α) : Nat → List α → List α
  | _, [] => []
  | skip + 1, _ :: s => replaceFrom old new skip s
  | 0, c :: s =>
    if old.isPrefixOf (c :: s) then new ++ replaceFrom old new (old.length - 1) s
    else c :: replaceFrom old new 0 s

/-- Replaces every occurrence of the non-empty pattern `old` that does not overlap one before it. -/
def replace (s old new : List α) : List α := replaceFrom old new 0 s

/-- A text without the pattern's first character is left as it is. -/
theorem replace_of_not_mem (absent : c ∉ s) : replace s (c :: old) new = s := by
  unfold replace
  induction s with
  | nil => rfl
  | cons d s ih =>
    rw [List.mem_cons, not_or] at absent
    have differs : (c :: old).isPrefixOf (d :: s) = false := by simp [List.isPrefixOf, absent.1]
    simp only [replaceFrom, differs, Bool.false_eq_true, ↓reduceIte, ih absent.2]

/-- Every character of the result was there before, or is one of the replacement's. -/
theorem mem_replaceFrom (member : x ∈ replaceFrom old new skip s) : x ∈ s ∨ x ∈ new := by
  induction s generalizing skip with
  | nil => cases skip <;> cases member
  | cons d s ih =>
    cases skip with
    | succ skip => exact (ih member).imp_left (List.mem_cons_of_mem d)
    | zero =>
      rw [replaceFrom] at member
      split at member
      · rcases List.mem_append.mp member with replaced | kept
        · exact Or.inr replaced
        · exact (ih kept).imp_left (List.mem_cons_of_mem d)
      · rcases List.mem_cons.mp member with rfl | kept
        · exact Or.inl List.mem_cons_self
        · exact (ih kept).imp_left (List.mem_cons_of_mem d)

theorem mem_replace (member : x ∈ replace s old new) : x ∈ s ∨ x ∈ new := mem_replaceFrom member

/-- A pattern of one character is replaced where it stands. -/
theorem replace_singleton (s : List α) (c : α) (new : List α) :
    replace s [c] new = s.flatMap fun d => if d = c then new else [d] := by
  unfold replace
  induction s with
  | nil => rfl
  | cons d s ih =>
    rw [replaceFrom, List.flatMap_cons]
    by_cases same : d = c
    · subst same
      simp only [List.isPrefixOf, beq_self_eq_true, Bool.and_self, ↓reduceIte]
      exact congrArg (new ++ ·) ih
    · have differs : [c].isPrefixOf (d :: s) = false := by
        simp [List.isPrefixOf, Ne.symm same]
      simp only [differs, Bool.false_eq_true, ↓reduceIte, if_neg same]
      exact congrArg (d :: ·) ih

/-- Splits at what matches `sep` from left to right; `skip` characters of the last match are still
to be passed over. -/
def splitFrom (sep : List α) : Nat → List α → List (List α)
  | _, [] => [[]]
  | skip + 1, _ :: s => splitFrom sep skip s
  | 0, c :: s =>
    if sep.isPrefixOf (c :: s) then [] :: splitFrom sep (sep.length - 1) s
    else (splitFrom sep 0 s).modifyHead (c :: ·)

/-- The pieces between the occurrences of the non-empty pattern `sep`. -/
def split (s sep : List α) : List (List α) := splitFrom sep 0 s

theorem splitFrom_ne_nil : splitFrom old skip s ≠ [] := by
  induction s generalizing skip with
  | nil =>
    cases skip <;> exact List.cons_ne_nil _ _
  | cons c s ih =>
    cases skip with
    | succ skip => exact ih
    | zero =>
      rw [splitFrom]
      split
      · exact List.cons_ne_nil _ _
      · cases pieces : splitFrom old 0 s with
        | nil => exact absurd pieces ih
        | cons first rest => exact List.cons_ne_nil _ _

theorem replaceFrom_eq_intercalate :
    replaceFrom old new skip s = new.intercalate (splitFrom old skip s) := by
  induction s generalizing skip with
  | nil =>
    cases skip <;> exact (List.append_nil _).symm
  | cons c s ih =>
    cases skip with
    | succ skip => exact ih
    | zero =>
      rw [replaceFrom, splitFrom]
      split
      · rw [List.intercalate_cons_of_ne_nil splitFrom_ne_nil, ih, List.nil_append]
      · rw [ih]
        cases pieces : splitFrom old 0 s with
        | nil => exact absurd pieces splitFrom_ne_nil
        | cons first rest => cases rest <;> rfl

/-- **Replacing is joining** the pieces with the replacement. -/
theorem replace_eq_intercalate : replace s old new = new.intercalate (split s old) :=
  replaceFrom_eq_intercalate

end DCScan.Lib

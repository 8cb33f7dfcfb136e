import Mathlib.Logic.Function.Basic

/-!
Tables: a map as the function that looks a key up, with the insertion that keeps an
entry already there and the removal of a key.
-/

namespace DCScan.Lib

variable {κ ν : Type} [DecidableEq κ] {table : κ → Option ν} {key other : κ} {value entry : ν}

/-- What is found after an update is the new entry, or was there before. -/
theorem update_cases {α : Type} {f : κ → α} {new found : α}
    (h : Function.update f key new other = found) :
    (other = key ∧ new = found) ∨ (other ≠ key ∧ f other = found) := by
  by_cases same : other = key
  · subst same
    exact Or.inl ⟨rfl, by simpa using h⟩
  · exact Or.inr ⟨same, by simpa [same] using h⟩

/-- What is found after an element of a list is replaced is the new one, or was there before. -/
theorem set_cases {α : Type} {l : List α} {i j : Nat} {new found : α}
    (h : (l.set i new)[j]? = some found) :
    (j = i ∧ new = found) ∨ (j ≠ i ∧ l[j]? = some found) := by
  by_cases same : i = j
  · subst same
    obtain ⟨_, inside⟩ := List.getElem?_eq_some_iff.mp h
    exact Or.inl ⟨rfl, by rw [← inside, List.getElem_set_self]⟩
  · rw [List.getElem?_set_ne same] at h
    exact Or.inr ⟨Ne.symm same, h⟩

/-- What holds of an element holds after a replacement that keeps it. -/
theorem set_keeps {α : Type} {p : α → Prop} {l : List α} {i j : Nat} {old new : α}
    (here : ∃ x, l[j]? = some x ∧ p x) (was : l[i]? = some old) (still : p old → p new) :
    ∃ x, (l.set i new)[j]? = some x ∧ p x := by
  obtain ⟨x, found, holds⟩ := here
  by_cases same : i = j
  · subst same
    obtain rfl := Option.some.inj (was.symm.trans found)
    exact ⟨new, List.getElem?_set_self (List.getElem?_eq_some_iff.mp was).1, still holds⟩
  · exact ⟨x, by rw [List.getElem?_set_ne same, found], holds⟩

/-- What is found after an element is added to a list is the new one, or was there before. -/
theorem concat_cases {α : Type} {l : List α} {j : Nat} {new found : α}
    (h : (l ++ [new])[j]? = some found) : (j = l.length ∧ new = found) ∨ l[j]? = some found := by
  rcases Nat.lt_trichotomy j l.length with inside | last | outside
  · rw [List.getElem?_append_left inside] at h
    exact Or.inr h
  · subst last
    rw [List.getElem?_concat_length, Option.some.injEq] at h
    exact Or.inl ⟨rfl, h⟩
  · rw [List.getElem?_eq_none (by rw [List.length_append]; exact outside)] at h
    cases h

/-- Inserts unless the key is present: an entry already there stays. -/
def emplace (table : κ → Option ν) (key : κ) (value : ν) : κ → Option ν :=
  Function.update table key (some ((table key).getD value))

/-- Removes the key. -/
def erase (table : κ → Option ν) (key : κ) : κ → Option ν := Function.update table key none

@[simp] theorem emplace_self : emplace table key value key = some ((table key).getD value) :=
  Function.update_self _ _ _

@[simp] theorem emplace_other (different : other ≠ key) :
    emplace table key value other = table other :=
  Function.update_of_ne different _ _

/-- Insertion drops no entry, and changes none. -/
theorem emplace_keeps (present : table other = some entry) :
    emplace table key value other = some entry := by
  by_cases same : other = key
  · subst same
    simp [present]
  · simpa [same] using present

/-- An entry found after an insertion was there before, or is the one inserted. -/
theorem emplace_eq_some (found : emplace table key value other = some entry) :
    table other = some entry ∨ (other = key ∧ entry = value ∧ table key = none) := by
  by_cases same : other = key
  · subst same
    rw [emplace_self] at found
    cases before : table other with
    | some old => exact Or.inl (by simpa [before] using found)
    | none => exact Or.inr ⟨rfl, by simpa [before] using found.symm, rfl⟩
  · exact Or.inl (by simpa [same] using found)

@[simp] theorem erase_self : erase table key key = none := Function.update_self _ _ _

@[simp] theorem erase_other (different : other ≠ key) : erase table key other = table other :=
  Function.update_of_ne different _ _

/-- An entry found after a removal was there before, under another key. -/
theorem erase_eq_some (found : erase table key other = some entry) :
    other ≠ key ∧ table other = some entry := by
  by_cases same : other = key
  · subst same
    simp at found
  · exact ⟨same, by simpa [same] using found⟩

end DCScan.Lib

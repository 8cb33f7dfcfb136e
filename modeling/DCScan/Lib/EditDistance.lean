import Mathlib.Data.List.Basic

/-!
The edit distance of two lists: the least number of insertions, deletions and substitutions of one
element that turn one into the other.
-/

namespace DCScan.Lib

variable {α : Type}

/-- One insertion, deletion or substitution. -/
inductive Edit : List α → List α → Prop where
  | insert (front : List α) (x : α) (back : List α) : Edit (front ++ back) (front ++ x :: back)
  | delete (front : List α) (x : α) (back : List α) : Edit (front ++ x :: back) (front ++ back)
  | substitute (front : List α) (x y : α) (back : List α) :
      Edit (front ++ x :: back) (front ++ y :: back)

/-- As many edits, one after the other. -/
inductive Edits : Nat → List α → List α → Prop where
  | none (a : List α) : Edits 0 a a
  | next {n : Nat} {a b c : List α} : Edits n a b → Edit b c → Edits (n + 1) a c

/-- The least number of edits. -/
structure IsEditDistance (a b : List α) (n : Nat) : Prop where
  edits : Edits n a b
  least : ∀ m, Edits m a b → n ≤ m

variable [DecidableEq α] {a b c : List α} {x y : α} {n m : Nat}

/-- The distances of `x :: a` from those of `a`. -/
def editRow (x : α) (row : List α → Nat) : List α → Nat
  | [] => row [] + 1
  | y :: b => min (row (y :: b) + 1) (min (editRow x row b + 1) (row b + if x = y then 0 else 1))

def editDistance : List α → List α → Nat
  | [] => List.length
  | x :: a => editRow x (editDistance a)

theorem editDistance_nil_left (b : List α) : editDistance [] b = b.length := rfl

theorem editDistance_nil_right (a : List α) : editDistance a [] = a.length := by
  induction a with
  | nil => rfl
  | cons x a ih => exact congrArg (· + 1) ih

theorem editDistance_cons (x y : α) (a b : List α) : editDistance (x :: a) (y :: b) =
    min (editDistance a (y :: b) + 1)
      (min (editDistance (x :: a) b + 1) (editDistance a b + if x = y then 0 else 1)) := rfl

omit [DecidableEq α] in
theorem Edit.cons (edit : Edit a b) (x : α) : Edit (x :: a) (x :: b) := by
  cases edit with
  | insert front y back => exact .insert (x :: front) y back
  | delete front y back => exact .delete (x :: front) y back
  | substitute front y z back => exact .substitute (x :: front) y z back

omit [DecidableEq α] in
theorem Edits.cons (edits : Edits n a b) (x : α) : Edits n (x :: a) (x :: b) := by
  induction edits with
  | none a => exact .none (x :: a)
  | next _ edit ih => exact .next ih (edit.cons x)

omit [DecidableEq α] in
theorem Edits.trans (first : Edits n a b) (second : Edits m b c) : Edits (n + m) a c := by
  induction second with
  | none => exact first
  | next _ edit ih => exact .next (ih first) edit

omit [DecidableEq α] in
theorem Edit.one (edit : Edit a b) : Edits 1 a b := .next (.none a) edit

omit [DecidableEq α] in
theorem edits_insert_all (b : List α) : Edits b.length [] b := by
  induction b with
  | nil => exact .none []
  | cons y b ih => exact .next ih (.insert [] y b)

omit [DecidableEq α] in
theorem edits_delete_all (a : List α) : Edits a.length a [] := by
  induction a with
  | nil => exact .none []
  | cons x a ih =>
    rw [List.length_cons, Nat.add_comm]
    exact (Edit.delete [] x a).one.trans ih

/-- The least of three numbers is one of them. -/
theorem least_of_three {p : Nat → Prop} {i j k : Nat} (hi : p i) (hj : p j) (hk : p k) :
    p (min i (min j k)) := by
  rw [Nat.min_def, Nat.min_def]
  split_ifs <;> assumption

/-- The recursion's edits. -/
theorem edits_editDistance (a b : List α) : Edits (editDistance a b) a b := by
  induction a generalizing b with
  | nil => exact edits_insert_all b
  | cons x a shorter =>
    induction b with
    | nil =>
      rw [editDistance_nil_right]
      exact edits_delete_all (x :: a)
    | cons y b narrower =>
      have deleted : Edits (editDistance a (y :: b) + 1) (x :: a) (y :: b) := by
        rw [Nat.add_comm]
        exact (Edit.delete [] x a).one.trans (shorter (y :: b))
      have inserted : Edits (editDistance (x :: a) b + 1) (x :: a) (y :: b) :=
        .next narrower (.insert [] y b)
      have substituted : Edits (editDistance a b + if x = y then 0 else 1) (x :: a) (y :: b) := by
        split
        · rename_i same
          exact same ▸ (shorter b).cons x
        · rw [Nat.add_comm]
          exact (Edit.substitute [] x y a).one.trans ((shorter b).cons y)
      rw [editDistance_cons]
      exact least_of_three (p := fun n => Edits n (x :: a) (y :: b)) deleted inserted substituted

theorem editDistance_self (a : List α) : editDistance a a = 0 := by
  induction a with
  | nil => rfl
  | cons x a ih =>
    rw [editDistance_cons, if_pos rfl, ih]
    omega

/-- An element more in front is one edit at most. -/
theorem editDistance_cons_left (x : α) (a b : List α) :
    editDistance (x :: a) b ≤ editDistance a b + 1 := by
  cases b with
  | nil => exact Nat.le_of_eq rfl
  | cons y b => exact Nat.min_le_left _ _

theorem editDistance_cons_right (y : α) (a b : List α) :
    editDistance a (y :: b) ≤ editDistance a b + 1 := by
  cases a with
  | nil => exact Nat.le_of_eq rfl
  | cons x a => exact Nat.le_trans (Nat.min_le_right _ _) (Nat.min_le_left _ _)

/-- An element less in front is one edit at most. -/
theorem editDistance_le_cons_right (y : α) (a b : List α) :
    editDistance a b ≤ editDistance a (y :: b) + 1 := by
  induction a with
  | nil =>
    simp only [editDistance_nil_left, List.length_cons]
    omega
  | cons x a ih =>
    have more := editDistance_cons_left x a b
    rw [editDistance_cons]
    omega

/-- Another element in front is one edit at most. -/
theorem editDistance_substitute (x y : α) (a b : List α) :
    editDistance a (y :: b) ≤ editDistance a (x :: b) + 1 := by
  induction a with
  | nil => exact Nat.le_succ _
  | cons z a ih =>
    rw [editDistance_cons, editDistance_cons]
    split_ifs <;> omega

/-- What lists behind the same element differ by, they differ by behind it. -/
theorem editDistance_behind {b b' : List α} (y : α)
    (near : ∀ a, editDistance a b' ≤ editDistance a b + 1) (a : List α) :
    editDistance a (y :: b') ≤ editDistance a (y :: b) + 1 := by
  induction a with
  | nil => exact Nat.succ_le_succ (near [])
  | cons x a ih =>
    have whole := near (x :: a)
    have rest := near a
    rw [editDistance_cons, editDistance_cons]
    split_ifs <;> omega

/-- An edit changes a distance by one at most. -/
theorem editDistance_edit (edit : Edit b c) (a : List α) :
    editDistance a c ≤ editDistance a b + 1 := by
  cases edit with
  | insert front x back =>
    induction front generalizing a with
    | nil => exact editDistance_cons_right x a back
    | cons y front ih => exact editDistance_behind y ih a
  | delete front x back =>
    induction front generalizing a with
    | nil => exact editDistance_le_cons_right x a back
    | cons y front ih => exact editDistance_behind y ih a
  | substitute front x y back =>
    induction front generalizing a with
    | nil => exact editDistance_substitute x y a back
    | cons z front ih => exact editDistance_behind z ih a

/-- **The recursion is the edit distance.** -/
theorem isEditDistance (a b : List α) : IsEditDistance a b (editDistance a b) := by
  refine ⟨edits_editDistance a b, fun m edits => ?_⟩
  induction edits with
  | none a => exact Nat.le_of_eq (editDistance_self a)
  | @next _ a _ _ _ edit ih => exact Nat.le_trans (editDistance_edit edit a) (Nat.succ_le_succ ih)

theorem isEditDistance_iff : IsEditDistance a b n ↔ n = editDistance a b := by
  constructor
  · intro distance
    exact Nat.le_antisymm (distance.least _ (edits_editDistance a b))
      ((isEditDistance a b).least n distance.edits)
  · rintro rfl
    exact isEditDistance a b

end DCScan.Lib

import Mathlib.Data.List.Nodup

/-!
Tables of rows with a unique key: what is selected by a key after a row was put in, in the place of
the one with its key, or after a key was deleted.
-/

namespace DCScan.Lib

section

variable {ρ κ : Type} [DecidableEq κ] (key : ρ → κ)

/-- The rows with a key. -/
def keyed (rows : List ρ) (k : κ) : List ρ := rows.filter fun r => key r = k

/-- The rows without those with a key. -/
def without (rows : List ρ) (k : κ) : List ρ := rows.filter fun r => key r ≠ k

/-- Puts a row in, in the place of those with its key. -/
def upsert (rows : List ρ) (row : ρ) : List ρ := without key rows (key row) ++ [row]

/-- No key is found twice. -/
def Distinct (rows : List ρ) : Prop := (rows.map key).Nodup

variable {key} {rows : List ρ} {row r : ρ} {k other : κ}

theorem mem_without : r ∈ without key rows k ↔ r ∈ rows ∧ key r ≠ k := by
  simp [without]

theorem mem_upsert : r ∈ upsert key rows row ↔ (r ∈ rows ∧ key r ≠ key row) ∨ r = row := by
  simp [upsert, mem_without]

@[simp] theorem keyed_without_self : keyed key (without key rows k) k = [] := by
  simp [keyed, without, List.filter_filter]

@[simp] theorem keyed_without_other (different : other ≠ k) :
    keyed key (without key rows k) other = keyed key rows other := by
  rw [keyed, without, List.filter_filter]
  apply List.filter_congr
  intro r _
  by_cases here : key r = other
  · simp [here, different]
  · simp [here]

@[simp] theorem keyed_upsert_self : keyed key (upsert key rows row) (key row) = [row] := by
  rw [upsert, keyed, List.filter_append]
  have gone : (without key rows (key row)).filter (fun r => key r = key row) = [] :=
    keyed_without_self
  rw [gone]
  simp

@[simp] theorem keyed_upsert_other (different : other ≠ key row) :
    keyed key (upsert key rows row) other = keyed key rows other := by
  rw [upsert, keyed, List.filter_append]
  have kept : (without key rows (key row)).filter (fun r => key r = other) = keyed key rows other :=
    keyed_without_other different
  rw [kept]
  simp [Ne.symm different]

omit [DecidableEq κ] in
theorem Distinct.filter (distinct : Distinct key rows) (p : ρ → Bool) :
    Distinct key (rows.filter p) :=
  List.Nodup.sublist (List.filter_sublist.map key) distinct

theorem Distinct.without (distinct : Distinct key rows) : Distinct key (without key rows k) :=
  distinct.filter _

theorem Distinct.upsert (distinct : Distinct key rows) : Distinct key (upsert key rows row) := by
  rw [Distinct, Lib.upsert, List.map_append, List.nodup_append]
  refine ⟨distinct.without, List.nodup_singleton _, fun k old new last => ?_⟩
  obtain ⟨r, member, rfl⟩ := List.mem_map.mp old
  rw [List.map_singleton, List.mem_singleton] at last
  rw [last]
  exact (mem_without.mp member).2

theorem Distinct.keyed_cases (distinct : Distinct key rows) (k : κ) :
    keyed key rows k = [] ∨ ∃ r, keyed key rows k = [r] := by
  have unique : Distinct key (keyed key rows k) := distinct.filter _
  have same : ∀ r ∈ keyed key rows k, key r = k := fun r member =>
    of_decide_eq_true (List.mem_filter.mp member).2
  cases found : keyed key rows k with
  | nil => exact Or.inl rfl
  | cons first rest =>
    rw [found] at unique same
    cases rest with
    | nil => exact Or.inr ⟨first, rfl⟩
    | cons second rest =>
      have apart : key first ≠ key second := fun equal =>
        (List.nodup_cons.mp unique).1 (equal ▸ List.mem_cons_self ..)
      have first_key := same first (List.mem_cons_self ..)
      have second_key := same second (List.mem_cons_of_mem _ (List.mem_cons_self ..))
      exact absurd (first_key.trans second_key.symm) apart

end

end DCScan.Lib

import Mathlib.Data.List.Basic

/-!
The pieces of a list between the occurrences of a separator.
-/

namespace DCScan.Lib

variable {α : Type} [DecidableEq α] {separator : α} {piece xs : List α}

/-- The pieces of a split of the text. -/
structure Splits (text : List α) (separator : α) (pieces : List (List α)) : Prop where
  without : ∀ piece ∈ pieces, separator ∉ piece
  count : pieces.length = text.count separator + 1
  join : [separator].intercalate pieces = text

/-- No piece has the separator in it. -/
theorem not_mem_of_mem_splitOn (member : piece ∈ xs.splitOn separator) : separator ∉ piece := by
  induction xs generalizing piece with
  | nil =>
    rw [List.splitOn_nil, List.mem_singleton] at member
    exact member ▸ List.not_mem_nil
  | cons c xs ih =>
    rw [List.splitOn_cons_eq_if_modifyHead] at member
    split at member
    · rcases List.mem_cons.mp member with rfl | later
      · exact List.not_mem_nil
      · exact ih later
    · rename_i other
      cases pieces : xs.splitOn separator with
      | nil => exact absurd pieces (List.splitOn_ne_nil _ _)
      | cons first rest =>
        rw [pieces, List.modifyHead_cons] at member
        rcases List.mem_cons.mp member with rfl | later
        · intro inside
          rcases List.mem_cons.mp inside with same | inside
          · exact other (beq_iff_eq.mpr same.symm)
          · exact ih (pieces ▸ List.mem_cons_self) inside
        · exact ih (pieces ▸ List.mem_cons_of_mem _ later)

/-- There is one more piece than separators. -/
theorem length_splitOn : (xs.splitOn separator).length = xs.count separator + 1 := by
  induction xs with
  | nil => rfl
  | cons c xs ih =>
    rw [List.splitOn_cons_eq_if_modifyHead, List.count_cons]
    split
    · rw [List.length_cons, ih]
    · rw [List.length_modifyHead, ih, Nat.add_zero]

/-- What stands behind the last separator ends the last piece. -/
theorem splitOn_append_of_not_mem {ys : List α} (xs : List α) (without : separator ∉ ys) :
    ∃ front last, (xs ++ ys).splitOn separator = front ++ [last ++ ys] := by
  by_cases inside : separator ∈ xs
  · obtain ⟨last, front, split, absent⟩ := List.eq_append_cons_of_mem (List.mem_reverse.mpr inside)
    have whole : xs = front.reverse ++ separator :: last.reverse := by
      rw [← List.reverse_reverse xs, split]
      simp
    have behind : separator ∉ last.reverse ++ ys := by
      rw [List.mem_append, List.mem_reverse]
      exact not_or.mpr ⟨absent, without⟩
    refine ⟨front.reverse.splitOn separator, last.reverse, ?_⟩
    rw [whole, List.append_assoc, List.cons_append, List.splitOn_append_cons_self,
      List.splitOn_eq_singleton behind]
  · refine ⟨[], xs, List.splitOn_eq_singleton ?_⟩
    rw [List.mem_append]
    exact not_or.mpr ⟨inside, without⟩

theorem splits_splitOn (text : List α) (separator : α) :
    Splits text separator (text.splitOn separator) :=
  ⟨fun _ => not_mem_of_mem_splitOn, length_splitOn, List.intercalate_splitOn separator⟩

/-! ## Pieces that end with a separator -/

omit [DecidableEq α] in
/-- A piece ends at the first separator. -/
theorem piece_unique {piece' ys : List α} (without : separator ∉ piece) (without' : separator ∉ piece')
    (same : piece ++ separator :: xs = piece' ++ separator :: ys) : piece = piece' ∧ xs = ys := by
  induction piece generalizing piece' with
  | nil =>
    cases piece' with
    | nil => exact ⟨rfl, (List.cons.inj same).2⟩
    | cons c rest => exact absurd (List.cons.inj same).1 (List.ne_of_not_mem_cons without')
  | cons c rest ih =>
    cases piece' with
    | nil => exact absurd (List.cons.inj same).1.symm (List.ne_of_not_mem_cons without)
    | cons c' rest' =>
      obtain ⟨rfl, later⟩ := List.cons.inj same
      obtain ⟨rfl, rest_same⟩ := ih (List.not_mem_of_not_mem_cons without)
        (List.not_mem_of_not_mem_cons without') later
      exact ⟨rfl, rest_same⟩

omit [DecidableEq α] in
/-- Pieces that each end with a separator, and the same behind it, can be told from what they make. -/
theorem pieces_unique {pieces pieces' : List (List α)} (behind : List α)
    (without : ∀ piece ∈ pieces, separator ∉ piece) (without' : ∀ piece ∈ pieces', separator ∉ piece)
    (same : pieces.flatMap (· ++ separator :: behind) = pieces'.flatMap (· ++ separator :: behind)) :
    pieces = pieces' := by
  induction pieces generalizing pieces' with
  | nil =>
    cases pieces' with
    | nil => rfl
    | cons piece' rest' => simp at same
  | cons piece rest ih =>
    cases pieces' with
    | nil => simp at same
    | cons piece' rest' =>
      simp only [List.flatMap_cons, List.append_assoc, List.cons_append] at same
      obtain ⟨rfl, later⟩ := piece_unique (without piece List.mem_cons_self)
        (without' piece' List.mem_cons_self) same
      rw [ih (fun p member => without p (List.mem_cons_of_mem _ member))
        (fun p member => without' p (List.mem_cons_of_mem _ member)) (List.append_cancel_left later)]

end DCScan.Lib

import Mathlib.Data.List.Forall2
import Mathlib.Tactic.Common

/-!
Writes to a stream that accepts a part of what it is offered, by a writer that does not look at how
much that was. A write of which nothing is accepted ends the stream.
-/

namespace DCScan.Lib

variable {α : Type} {pieces : List (List α)} {counts : List Nat}

/-- How much of a piece a working stream accepts: some of it, when there is any. -/
def Accepts (piece : List α) (n : Nat) : Prop := n ≤ piece.length ∧ (piece ≠ [] → 0 < n)

instance (piece : List α) (n : Nat) : Decidable (Accepts piece n) :=
  decidable_of_iff (n ≤ piece.length ∧ (piece.length ≠ 0 → 0 < n)) (by
    rw [Accepts, ne_eq, ne_eq, List.length_eq_zero_iff])

/-- What the stream has accepted when every piece was offered to it once. -/
def accepted : List (List α) → List Nat → List α
  | piece :: pieces, n :: counts => if n = 0 then [] else piece.take n ++ accepted pieces counts
  | _, _ => []

theorem accepted_length_le (accepts : List.Forall₂ Accepts pieces counts) :
    (accepted pieces counts).length ≤ pieces.flatten.length := by
  induction accepts with
  | nil => exact Nat.zero_le _
  | cons first rest ih =>
    rw [accepted, List.flatten_cons, List.length_append]
    split
    · exact Nat.zero_le _
    · rw [List.length_append, List.length_take]
      omega

/-- Of nothing, nothing is accepted. -/
theorem counts_of_empty (accepts : List.Forall₂ Accepts pieces counts)
    (empty : ∀ piece ∈ pieces, piece = []) : counts = pieces.map List.length := by
  induction accepts with
  | nil => rfl
  | cons first rest ih =>
    rw [List.map_cons, ← ih fun piece member => empty piece (List.mem_cons_of_mem _ member)]
    have here := first.1
    rw [empty _ List.mem_cons_self] at here ⊢
    rw [Nat.le_zero.mp here, List.length_nil]

/-- All is accepted exactly when every piece is, and no empty one comes before one that is not. -/
theorem accepted_eq_flatten_iff (accepts : List.Forall₂ Accepts pieces counts) :
    accepted pieces counts = pieces.flatten ↔
      counts = pieces.map List.length ∧ pieces.Pairwise fun p q => p = [] → q = [] := by
  induction accepts with
  | nil => exact ⟨fun _ => ⟨rfl, .nil⟩, fun _ => rfl⟩
  | @cons piece n pieces counts first rest ih =>
    rw [accepted, List.flatten_cons, List.map_cons, List.cons.injEq, List.pairwise_cons]
    by_cases none_accepted : n = 0
    · have empty : piece = [] := by
        by_contra some_offered
        exact absurd none_accepted (Nat.pos_iff_ne_zero.mp (first.2 some_offered))
      subst empty
      rw [if_pos none_accepted, List.nil_append, List.length_nil]
      constructor
      · intro all
        have empties : ∀ q ∈ pieces, q = [] := List.flatten_eq_nil_iff.mp all.symm
        refine ⟨⟨none_accepted, counts_of_empty rest empties⟩, fun q member _ => empties q member, ?_⟩
        exact List.pairwise_of_forall_mem_list fun _ _ q member _ => empties q member
      · rintro ⟨-, empties, -⟩
        exact (List.flatten_eq_nil_iff.mpr fun q member => empties q member rfl).symm
    · rw [if_neg none_accepted]
      have some_offered : piece ≠ [] := by
        rintro rfl
        exact none_accepted (Nat.le_zero.mp first.1)
      have within := accepted_length_le rest
      constructor
      · intro all
        have lengths := congrArg List.length all
        rw [List.length_append, List.length_append, List.length_take] at lengths
        have whole : n = piece.length := by
          have := first.1
          omega
        rw [whole, List.take_length, List.append_cancel_left_eq] at all
        obtain ⟨counted, ordered⟩ := ih.mp all
        exact ⟨⟨whole, counted⟩, fun q _ empty => absurd empty some_offered, ordered⟩
      · rintro ⟨⟨whole, counted⟩, -, ordered⟩
        rw [whole, List.take_length, ih.mpr ⟨counted, ordered⟩]

end DCScan.Lib

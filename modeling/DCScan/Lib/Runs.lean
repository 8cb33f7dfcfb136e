import Mathlib.Data.List.Basic
import Mathlib.Data.List.Induction
import Mathlib.Data.List.TakeWhile
import Mathlib.Order.Lattice
import Mathlib.Tactic.Common

/-!
The maximal runs of consecutive entries of a list that satisfy a predicate.

`runsFrom` computes them; `MaximalRun` says what they are. What is proved of a list by way of its
runs goes by `runs_induction`.
-/

namespace DCScan.Lib

variable {α : Type} {p : α → Bool} {i : Nat} {x : α} {xs run rest : List α}

/-- Consecutive entries of a list, and the number of the first. -/
structure Run (α : Type) where
  start : Nat
  entries : List α
  deriving DecidableEq, Repr

/-- An entry, put before the runs that begin behind it. -/
def extend (i : Nat) (x : α) : List (Run α) → List (Run α)
  | [] => [⟨i, [x]⟩]
  | r :: rs => if r.start = i + 1 then ⟨i, x :: r.entries⟩ :: rs else ⟨i, [x]⟩ :: r :: rs

/-- The runs of `p`, from left to right; the first entry has the number `i`. -/
def runsFrom (p : α → Bool) : Nat → List α → List (Run α)
  | _, [] => []
  | i, x :: xs => if p x then extend i x (runsFrom p (i + 1) xs) else runsFrom p (i + 1) xs

def runs (p : α → Bool) (xs : List α) : List (Run α) := runsFrom p 0 xs

/-- What comes next does not satisfy `p`. -/
def Ends (p : α → Bool) (rest : List α) : Prop := ∀ x ∈ rest.head?, p x = false

@[simp] theorem ends_nil : Ends p [] := by rintro x ⟨⟩

@[simp] theorem ends_cons : Ends p (x :: xs) ↔ p x = false := by simp [Ends]

theorem ends_dropWhile (p : α → Bool) (xs : List α) : Ends p (xs.dropWhile p) := by
  induction xs with
  | nil => exact ends_nil
  | cons x xs ih =>
    rw [List.dropWhile_cons]
    split
    · exact ih
    · rename_i stands
      exact ends_cons.mpr (eq_false_of_ne_true stands)

/-- What comes first and what is left, when the first entries satisfy `p`. -/
theorem takeWhile_append_of_ends (holds : ∀ x ∈ run, p x = true) (ends : Ends p rest) :
    (run ++ rest).takeWhile p = run := by
  rw [List.takeWhile_append_of_pos holds]
  cases rest with
  | nil => simp
  | cons x rest => simp [ends_cons.mp ends]

/-- A list is empty, or begins with an entry without `p`, or with a run of it, behind which one goes on
with what ends the run or after that. -/
theorem runs_induction (p : α → Bool) {motive : Nat → List α → Prop} (nil : ∀ i, motive i [])
    (single : ∀ i x xs, p x = false → motive (i + 1) xs → motive i (x :: xs))
    (run : ∀ i x run rest, p x = true → (∀ y ∈ run, p y = true) → Ends p rest →
      motive (i + (x :: run).length) rest → motive (i + (x :: run).length + 1) rest.tail →
        motive i (x :: run ++ rest))
    (i : Nat) (xs : List α) : motive i xs := by
  induction length : xs.length using Nat.strongRecOn generalizing i xs with
  | _ n ih =>
    cases xs with
    | nil => exact nil i
    | cons x xs =>
      rw [List.length_cons] at length
      by_cases holds : p x = true
      · have shorter : (xs.dropWhile p).length ≤ xs.length := (List.dropWhile_sublist p).length_le
        have split := run i x (xs.takeWhile p) (xs.dropWhile p) holds
          (fun y member => List.mem_takeWhile_imp member) (ends_dropWhile p xs)
          (ih _ (by omega) _ _ rfl) (ih _ (by rw [List.length_tail]; omega) _ _ rfl)
        rwa [List.cons_append, List.takeWhile_append_dropWhile] at split
      · exact single i x xs (eq_false_of_ne_true holds) (ih _ (by omega) _ _ rfl)

/-! ## The runs of a list -/

@[simp] theorem runsFrom_nil : runsFrom p i [] = [] := rfl

theorem runsFrom_cons_of_neg (fails : p x = false) :
    runsFrom p i (x :: xs) = runsFrom p (i + 1) xs := by
  simp [runsFrom, fails]

/-- No run begins before the first entry. -/
theorem le_start_of_mem {r : Run α} (member : r ∈ runsFrom p i xs) : i ≤ r.start := by
  induction xs generalizing i r with
  | nil => cases member
  | cons x xs ih =>
    rw [runsFrom] at member
    split at member
    · cases later : runsFrom p (i + 1) xs with
      | nil =>
        rw [later, extend, List.mem_singleton] at member
        exact member ▸ Nat.le_refl i
      | cons first others =>
        have behind : ∀ r ∈ first :: others, i + 1 ≤ r.start := fun r there => ih (later ▸ there)
        rw [later, extend] at member
        split at member <;> rcases List.mem_cons.mp member with rfl | there
        · exact Nat.le_refl i
        · exact Nat.le_of_succ_le (behind r (List.mem_cons_of_mem _ there))
        · exact Nat.le_refl i
        · exact Nat.le_of_succ_le (behind r there)
    · exact Nat.le_of_succ_le (ih member)

/-- Where a run begins the list, it is the first one. -/
theorem runsFrom_append (here : p x = true) (holds : ∀ y ∈ run, p y = true) (ends : Ends p rest) :
    runsFrom p i (x :: run ++ rest) =
      ⟨i, x :: run⟩ :: runsFrom p (i + (x :: run).length) rest := by
  rw [List.cons_append, runsFrom, if_pos here]
  induction run generalizing i x with
  | nil =>
    rw [List.nil_append, List.length_singleton]
    cases rest with
    | nil => rfl
    | cons y rest =>
      rw [runsFrom_cons_of_neg (ends_cons.mp ends)]
      cases later : runsFrom p (i + 1 + 1) rest with
      | nil => rfl
      | cons r rs =>
        have behind : i + 1 + 1 ≤ r.start := le_start_of_mem (later ▸ List.mem_cons_self)
        rw [extend, if_neg (by omega)]
  | cons y run ih =>
    rw [List.cons_append, runsFrom, if_pos (holds y List.mem_cons_self),
      ih (holds y List.mem_cons_self) fun z member => holds z (List.mem_cons_of_mem y member),
      extend, if_pos rfl]
    simp only [List.length_cons]
    congr 2
    omega

/-- A run that cannot be made longer, in entries of which the first has the number `i`. -/
def MaximalRun (p : α → Bool) (i : Nat) (xs : List α) (r : Run α) : Prop :=
  ∃ before after, xs = before ++ (r.entries ++ after) ∧ r.start = i + before.length ∧
    r.entries ≠ [] ∧ (∀ x ∈ r.entries, p x = true) ∧ (∀ x ∈ before.getLast?, p x = false) ∧
      Ends p after

theorem maximalRun_cons (fails : p x = false) {r : Run α} :
    MaximalRun p i (x :: xs) r ↔ MaximalRun p (i + 1) xs r := by
  constructor
  · rintro ⟨before, after, split, start, some_there, holds, left, right⟩
    cases before with
    | nil =>
      obtain ⟨y, run, entries⟩ := List.exists_cons_of_ne_nil some_there
      rw [List.nil_append, entries, List.cons_append] at split
      have first := holds y (entries ▸ List.mem_cons_self)
      rw [← (List.cons.inj split).1, fails] at first
      cases first
    | cons y before =>
      rw [List.cons_append] at split
      refine ⟨before, after, (List.cons.inj split).2, ?_, some_there, holds, ?_, right⟩
      · rw [start, List.length_cons]
        omega
      · intro z last
        apply left
        rw [List.getLast?_cons, last]
        rfl
  · rintro ⟨before, after, rfl, start, some_there, holds, left, right⟩
    refine ⟨x :: before, after, rfl, ?_, some_there, holds, ?_, right⟩
    · rw [start, List.length_cons]
      omega
    · intro z last
      rw [List.getLast?_cons, Option.mem_some_iff] at last
      cases before using List.reverseRecOn with
      | nil => exact last ▸ fails
      | append_singleton before y =>
        apply left
        rw [List.getLast?_concat] at last ⊢
        exact Option.mem_some_iff.mpr last

theorem maximalRun_append (here : p x = true) (holds : ∀ y ∈ run, p y = true) (ends : Ends p rest)
    {r : Run α} : MaximalRun p i (x :: run ++ rest) r ↔
      r = ⟨i, x :: run⟩ ∨ MaximalRun p (i + (x :: run).length) rest r := by
  have all : ∀ y ∈ x :: run, p y = true := by simpa [here] using holds
  constructor
  · rintro ⟨before, after, split, start, some_there, inside, left, right⟩
    rcases List.append_eq_append_iff.mp split with ⟨more, same, later⟩ | ⟨more, same, later⟩
    · refine Or.inr ⟨more, after, later, ?_, some_there, inside, fun z last => ?_, right⟩
      · rw [start, same, List.length_append, Nat.add_assoc]
      · exact left z (same ▸ List.mem_getLast?_append_of_mem_getLast? last)
    · -- the run that begins the list covers `before`, which is empty
      have none_before : before = [] := by
        cases before using List.reverseRecOn with
        | nil => rfl
        | append_singleton before y =>
          have fails := left y (by rw [List.getLast?_concat]; rfl)
          rw [all y (same ▸ by simp)] at fails
          cases fails
      subst none_before
      rw [List.nil_append] at split
      have entries := congrArg (List.takeWhile p) split
      rw [takeWhile_append_of_ends all ends, takeWhile_append_of_ends inside right] at entries
      refine Or.inl ?_
      rw [entries]
      cases r
      simp_all
  · rintro (rfl | ⟨before, after, rfl, start, some_there, inside, left, right⟩)
    · exact ⟨[], rest, rfl, rfl, by simp, all, by rintro z ⟨⟩, ends⟩
    · refine ⟨x :: run ++ before, after, by simp, ?_, some_there, inside, ?_, right⟩
      · rw [start, List.length_append, Nat.add_assoc]
      · intro z last
        cases before using List.reverseRecOn with
        | nil =>
          obtain ⟨y, entries, same⟩ := List.exists_cons_of_ne_nil some_there
          rw [List.nil_append, same, List.cons_append, ends_cons] at ends
          rw [inside y (same ▸ List.mem_cons_self)] at ends
          cases ends
        | append_singleton before y =>
          apply left
          rw [← List.append_assoc, List.getLast?_concat] at last
          rw [List.getLast?_concat]
          exact last

/-- **The runs of a list are its maximal runs.** -/
theorem mem_runsFrom {r : Run α} : r ∈ runsFrom p i xs ↔ MaximalRun p i xs r := by
  induction i, xs using runs_induction p with
  | nil i =>
    refine ⟨fun member => (by cases member), ?_⟩
    rintro ⟨before, after, split, -, some_there, -⟩
    simp [some_there] at split
  | single i x xs fails ih => rw [runsFrom_cons_of_neg fails, ih, maximalRun_cons fails]
  | run i x run rest here holds ends ih _ =>
    rw [runsFrom_append here holds ends, List.mem_cons, ih, maximalRun_append here holds ends]

/-- From left to right: between two runs there is an entry of neither. -/
theorem runsFrom_pairwise (p : α → Bool) (i : Nat) (xs : List α) :
    (runsFrom p i xs).Pairwise fun r s => r.start + r.entries.length < s.start := by
  induction i, xs using runs_induction p with
  | nil i => exact .nil
  | single i x xs fails ih => rwa [runsFrom_cons_of_neg fails]
  | run i x run rest here holds ends ih _ =>
    rw [runsFrom_append here holds ends, List.pairwise_cons]
    refine ⟨fun s member => ?_, ih⟩
    cases rest with
    | nil => cases member
    | cons y rest =>
      rw [runsFrom_cons_of_neg (ends_cons.mp ends)] at member
      exact le_start_of_mem member

/-! ## Greatest entries -/

section

variable [LT α] [LE α] {β : Type} [LinearOrder β]

/-- The comparisons between two entries of `s` are those of their ranks. -/
structure Ranked (rank : α → β) (s : α → Prop) : Prop where
  lt : ∀ {x y}, s x → s y → (x < y ↔ rank x < rank y)
  le : ∀ {x y}, s x → s y → (x ≤ y ↔ rank x ≤ rank y)

variable {rank : α → β} {s : α → Prop}

theorem Ranked.not_lt_iff (ranked : Ranked rank s) {x y : α} (hx : s x) (hy : s y) :
    ¬x < y ↔ y ≤ x := by
  rw [ranked.lt hx hy, ranked.le hy hx]
  exact not_lt

/-- `g` is the greatest entry, and number `j` is the first that is. -/
def FirstGreatest (xs : List α) (j : Nat) (g : α) : Prop :=
  xs[j]? = some g ∧ (∀ x ∈ xs, x ≤ g) ∧ ∀ x ∈ xs.take j, x < g

end

end DCScan.Lib

import Mathlib.Data.List.DropRight
import DCScan.Peaks

/-!
Peak counting over one buffer after another: `VoltageEvent` hands each buffer to `countArrayPeak`, which
keeps nothing of the buffers before it.

`gain` is what a cut between two buffers adds to the number of peaks.
-/

namespace DCScan.Math

open Lib Binary64

section

variable {α : Type} [LT α] [LE α] [DecidableLT α] [DecidableLE α] [OfNat α 0]
variable {vlo vhi x : α} {run before after : List α}

/-! ## Cuts -/

/-- The pulses that a cut adds: when it divides a run, its two parts count for themselves, and the run
no longer does. -/
def pulseGain (vhi : α) (last first : List α) : Int :=
  (!first.isEmpty && !(last.any (above vhi) && first.any (above vhi))).toNat

/-- A sample on neither side of the low limit is not counted right behind a run that is climbed; a cut
can take the beginning of that run away. -/
def strayGain (vlo vhi : α) (last first : List α) (next : Option α) : Int :=
  if next.any (stray vlo) then
    (first.isEmpty || beginsOver vhi first).toNat - (beginsOver vhi last).toNat
  else 0

/-- What a cut adds to the number of peaks: nothing, unless it is in a run or at the end of one. -/
def gain (vlo vhi : α) (before after : List α) : Int :=
  let last := before.rtakeWhile (above vlo)
  let first := after.takeWhile (above vlo)
  if last = [] then 0
  else pulseGain vhi last first + strayGain vlo vhi last first (after.dropWhile (above vlo)).head?

omit [LT α] [LE α] [DecidableLT α] [DecidableLE α] [OfNat α 0] in
/-- Only the run that ends `before` matters. -/
theorem rtakeWhile_append_cons {p : α → Bool} {z : α} (fails : p z = false) (xs ys : List α) :
    (xs ++ z :: ys).rtakeWhile p = ys.rtakeWhile p := by
  rw [List.rtakeWhile, List.rtakeWhile, List.reverse_append, List.reverse_cons, List.append_assoc,
    List.takeWhile_append]
  split
  · rename_i whole
    have all := (List.takeWhile_prefix p).eq_of_length whole
    simp [fails, all]
  · rfl

omit [OfNat α 0] in
theorem gain_append_cons (vhi : α) {z : α} (fails : above vlo z = false) (xs ys after : List α) :
    gain vlo vhi (xs ++ z :: ys) after = gain vlo vhi ys after := by
  rw [gain, gain, rtakeWhile_append_cons fails]

/-- A cut in a run, or at its end. -/
theorem detected_run_append (limits : Limits vlo vhi) (here : above vlo x = true)
    (holds : ∀ y ∈ run, above vlo y = true) (after : List α) :
    (detected vlo vhi (x :: run ++ after) : Int) + gain vlo vhi (x :: run) after =
      detected vlo vhi (x :: run) + detected vlo vhi after := by
  have all : ∀ y ∈ x :: run, above vlo y = true := List.forall_mem_cons.mpr ⟨here, holds⟩
  have inside : ∀ y ∈ after.takeWhile (above vlo), above vlo y = true :=
    fun y member => List.mem_takeWhile_imp member
  have ends := ends_dropWhile (above vlo) after
  have parts := List.takeWhile_append_dropWhile (p := above vlo) (l := after)
  rw [gain, List.rtakeWhile_eq_self_iff.mpr all]
  generalize after.takeWhile (above vlo) = first at *
  generalize after.dropWhile (above vlo) = later at *
  subst parts
  have joined : ∀ y ∈ run ++ first, above vlo y = true := by
    intro y member
    exact (List.mem_append.mp member).elim (holds y) (inside y)
  have alone : detected vlo vhi (x :: run) =
      if above vhi x then 0 else (!(x :: run).any (above vhi)).toNat := by
    simpa using detected_run limits here holds ends_nil
  have together : detected vlo vhi (x :: run ++ (first ++ later)) =
      if above vhi x then detected vlo vhi later
      else (!(x :: run ++ first).any (above vhi)).toNat + detected vlo vhi later.tail := by
    have joined_run := detected_run limits here joined ends
    rwa [List.cons_append, List.append_assoc] at joined_run
  have behind := detected_of_ends limits ends
  rw [alone, together]
  cases first with
  | nil =>
    rw [List.nil_append, behind, List.append_nil, List.any_cons]
    simp only [pulseGain, strayGain, beginsOver, List.head?_cons, Option.any_some]
    generalize above vhi x = exceeds, run.any (above vhi) = sat, later.head?.any (stray vlo) = next
    cases exceeds <;> cases sat <;> cases next <;> simp <;> omega
  | cons y first =>
    obtain ⟨y_above, rest_above⟩ := List.forall_mem_cons.mp inside
    rw [detected_run limits y_above rest_above ends, behind, List.any_append, List.any_cons,
      List.any_cons]
    simp only [pulseGain, strayGain, beginsOver, List.head?_cons, Option.any_some, List.any_cons]
    generalize above vhi x = exceeds, run.any (above vhi) = sat, above vhi y = exceeds',
      first.any (above vhi) = sat', later.head?.any (stray vlo) = next
    cases exceeds <;> cases sat <;> cases exceeds' <;> cases sat' <;> cases next <;> simp <;> omega

/-- **What a cut adds to the number of peaks is its gain.** -/
theorem detected_append (limits : Limits vlo vhi) (before after : List α) :
    (detected vlo vhi (before ++ after) : Int) + gain vlo vhi before after =
      detected vlo vhi before + detected vlo vhi after := by
  induction 0, before using runs_induction (above vlo) with
  | nil i => simp [gain]
  | single i x xs fails ih =>
    have same := gain_append_cons vhi fails [] xs after
    rw [List.nil_append] at same
    rw [List.cons_append, detected_cons limits fails, detected_cons limits fails, same]
    omega
  | run i x run rest here holds ends ih _ =>
    cases rest with
    | nil =>
      rw [List.append_nil]
      exact detected_run_append limits here holds after
    | cons z rest =>
      have fails := ends_cons.mp ends
      have ends' : Ends (above vlo) (z :: rest ++ after) := ends_cons.mpr fails
      have same := gain_append_cons vhi fails (x :: run) rest after
      have same' := gain_append_cons vhi fails [] rest after
      rw [List.nil_append] at same'
      rw [same'] at ih
      rw [same, List.append_assoc, detected_run limits here holds ends,
        detected_run limits here holds ends']
      split
      · exact ih
      · rw [List.cons_append, detected_cons limits fails, detected_cons limits fails] at ih
        rw [List.cons_append, List.tail_cons, List.tail_cons]
        omega

/-- The gains of all cuts, of which each is between a buffer and all that was before it. -/
def gains (vlo vhi : α) (before : List α) : List (List α) → Int
  | [] => 0
  | part :: parts => gain vlo vhi before part + gains vlo vhi (before ++ part) parts

theorem sum_detected (limits : Limits vlo vhi) (before : List α) (parts : List (List α)) :
    ((parts.map (detected vlo vhi)).sum : Int) + detected vlo vhi before =
      detected vlo vhi (before ++ parts.flatten) + gains vlo vhi before parts := by
  induction parts generalizing before with
  | nil => simp [gains]
  | cons part parts ih =>
    have later := ih (before ++ part)
    have here := detected_append limits before part
    rw [List.append_assoc] at later
    rw [List.map_cons, List.sum_cons, List.flatten_cons, gains, Nat.cast_add]
    omega

/-- A cut in a run leaves a part above the high limit on both sides. -/
def CleanCut (vlo vhi : α) (before after : List α) : Prop :=
  before.rtakeWhile (above vlo) ≠ [] → after.takeWhile (above vlo) ≠ [] →
    (before.rtakeWhile (above vlo)).any (above vhi) = true ∧
      (after.takeWhile (above vlo)).any (above vhi) = true

omit [OfNat α 0] in
/-- Of numbers, only a pulse can be gained. -/
theorem gain_of_ordered (vhi : α) (before : List α) (ordered : ∀ x ∈ after, vlo < x ∨ x ≤ vlo) :
    0 ≤ gain vlo vhi before after ∧
      (gain vlo vhi before after = 0 ↔ CleanCut vlo vhi before after) := by
  have next : (after.dropWhile (above vlo)).head?.any (stray vlo) = false := by
    cases later : after.dropWhile (above vlo) with
    | nil => rfl
    | cons z rest =>
      have member : z ∈ after := (List.dropWhile_subset _) (later ▸ List.mem_cons_self)
      rcases ordered z member with exceeds | low
      · simp [stray, above, exceeds]
      · simp [stray, low]
  rw [gain, strayGain, next, CleanCut, pulseGain]
  generalize before.rtakeWhile (above vlo) = last, after.takeWhile (above vlo) = first
  cases last with
  | nil => simp
  | cons x last =>
    cases first with
    | nil => simp
    | cons y first =>
      cases (x :: last).any (above vhi) <;> cases (y :: first).any (above vhi) <;> simp

omit [OfNat α 0] in
theorem gains_of_ordered (vhi : α) {parts : List (List α)}
    (ordered : ∀ x ∈ parts.flatten, vlo < x ∨ x ≤ vlo) (before : List α) :
    0 ≤ gains vlo vhi before parts ∧
      (gains vlo vhi before parts = 0 ↔ ∀ earlier part later, parts = earlier ++ part :: later →
        CleanCut vlo vhi (before ++ earlier.flatten) part) := by
  induction parts generalizing before with
  | nil =>
    refine ⟨le_rfl, fun _ earlier part later split => ?_, fun _ => rfl⟩
    simp at split
  | cons part parts ih =>
    rw [List.flatten_cons] at ordered
    obtain ⟨least, clean⟩ := gain_of_ordered vhi before
      fun x member => ordered x (List.mem_append_left _ member)
    obtain ⟨least', clean'⟩ := ih (fun x member => ordered x (List.mem_append_right _ member))
      (before ++ part)
    rw [gains]
    refine ⟨by omega, ?_⟩
    have both : gain vlo vhi before part + gains vlo vhi (before ++ part) parts = 0 ↔
        gain vlo vhi before part = 0 ∧ gains vlo vhi (before ++ part) parts = 0 := by omega
    rw [both, clean, clean']
    constructor
    · rintro ⟨here, rest⟩ earlier part' later split
      cases earlier with
      | nil =>
        cases split
        rwa [List.flatten_nil, List.append_nil]
      | cons first earlier =>
        cases split
        have there := rest earlier part' later rfl
        rwa [List.append_assoc] at there
    · intro all
      refine ⟨?_, fun earlier part' later split => ?_⟩
      · have here := all [] part parts rfl
        rwa [List.flatten_nil, List.append_nil] at here
      · have there := all (part :: earlier) part' later (by rw [split]; rfl)
        rwa [List.flatten_cons, ← List.append_assoc] at there

end

/-- **Cutting does not change the count exactly when the gains of the cuts cancel.** Of numbers nothing
is lost: every cut in a run has a sample above `vhi` on both sides of it. -/
theorem countArrayPeak_cut_iff (parts : List (List Float)) (vlo vhi vth : Float) (le : vlo ≤ vhi) :
    ((parts.map fun part => (countArrayPeak part vlo vhi vth).num_detected).sum =
        (countArrayPeak parts.flatten vlo vhi vth).num_detected ↔ gains vlo vhi [] parts = 0) ∧
      ((∀ x ∈ parts.flatten, x.isNaN = false) →
        (gains vlo vhi [] parts = 0 ↔ ∀ earlier part later, parts = earlier ++ part :: later →
          CleanCut vlo vhi earlier.flatten part)) := by
  constructor
  · have sums := sum_detected (limits_of_le le) [] parts
    rw [detected_nil, List.nil_append] at sums
    simp only [countArrayPeak_detected]
    show (parts.map (detected vlo vhi)).sum = _ ↔ _
    omega
  · intro numbers
    have ordered := ordered_of_numbers (number_of_le le).1 numbers
    have clean := (gains_of_ordered vhi ordered []).2
    simpa only [List.nil_append] using clean

/-- Two buffers, with a pulse across the cut that is above the high limit in both. -/
def saturatedParts : List (List Float) := [[0.0, 11.0], [10.5, 0.0]]

theorem countArrayPeak_cut_iff_saturated :
    ((saturatedParts.map fun part => (countArrayPeak part 0.2 10.0 0.0).num_detected).sum =
        (countArrayPeak saturatedParts.flatten 0.2 10.0 0.0).num_detected ↔
      gains 0.2 10.0 [] saturatedParts = 0) ∧
      ((∀ x ∈ saturatedParts.flatten, x.isNaN = false) →
        (gains 0.2 10.0 [] saturatedParts = 0 ↔
          ∀ earlier part later, saturatedParts = earlier ++ part :: later →
            CleanCut 0.2 10.0 earlier.flatten part)) :=
  countArrayPeak_cut_iff saturatedParts 0.2 10.0 0.0 (by decide)

/-- A pulse across the end of a buffer is counted in both. -/
theorem pulse_counted_twice : ¬∀ (parts : List (List Float)) (vlo vhi vth : Float), 0 ≤ vlo →
    vlo ≤ vhi → (parts.map fun part => (countArrayPeak part vlo vhi vth).num_detected).sum =
      (countArrayPeak parts.flatten vlo vhi vth).num_detected := by
  intro same
  have twice := same [[0.0, 1.0], [1.0, 0.0]] 0.2 10.0 0.0 (by decide) (by decide)
  exact absurd twice (by decide +kernel)

end DCScan.Math

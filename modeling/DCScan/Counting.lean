import DCScan.Lib.Binary64

/-!
`DCS::Math::countArrayPeak`: the peaks of a buffer of samples.

The samples are of any type with the two comparisons and a zero; of the comparisons nothing is
assumed until a result needs it, since of a sample that is no number neither `arr[i] > vlo` nor
`arr[i] <= vlo` holds.
-/

namespace DCScan.Math

open Lib

structure CountResult (α : Type) where
  num_detected : Nat
  maximizers : List Nat
  maxima : List α
  deriving DecidableEq, Repr

section

variable {α : Type} [LT α] [DecidableLT α] {vlo vhi : α} {run rest : List α}

/-- `arr[i] > limit`. -/
def above (limit x : α) : Bool := decide (limit < x)

@[simp] theorem above_eq_true {limit x : α} : above limit x = true ↔ limit < x := decide_eq_true_iff

@[simp] theorem above_eq_false {limit x : α} : above limit x = false ↔ ¬limit < x :=
  decide_eq_false_iff_not

/-- What the inner loop changes; `rest` are the samples from `arr[i]` on. -/
structure Climb (α : Type) where
  i : Nat
  rest : List α
  discard : Bool
  localMaximum : α
  localMaximizer : Nat

/-- `while(i < size && arr[i] > vlo)`. -/
def climb (vlo vhi : α) (i : Nat) (rest : List α) (discard : Bool) (localMaximum : α)
    (localMaximizer : Nat) : Climb α :=
  match rest with
  | [] => ⟨i, [], discard, localMaximum, localMaximizer⟩
  | x :: xs =>
    if vlo < x then
      climb vlo vhi (i + 1) xs (if vhi < x then true else discard)
        (if localMaximum < x then x else localMaximum)
        (if localMaximum < x then i + 1 else localMaximizer)
    else ⟨i, x :: xs, discard, localMaximum, localMaximizer⟩

/-- `result`, after the two `push_back`. -/
def CountResult.push (result : CountResult α) (localMaximum : α) (localMaximizer : Nat) :
    CountResult α :=
  { result with
    maxima := result.maxima ++ [localMaximum]
    maximizers := result.maximizers ++ [localMaximizer] }

/-- `localMaximum` and `localMaximizer` after some samples of a run. -/
def peakFrom (i : Nat) (best : α × Nat) : List α → α × Nat
  | [] => best
  | x :: xs => peakFrom (i + 1) (if best.1 < x then (x, i + 1) else best) xs

theorem climb_append (vhi : α) (holds : ∀ y ∈ run, above vlo y = true)
    (ends : Ends (above vlo) rest) (i : Nat) (discard : Bool) (m : α) (k : Nat) :
    climb vlo vhi i (run ++ rest) discard m k =
      ⟨i + run.length, rest, discard || run.any (above vhi), (peakFrom i (m, k) run).1,
        (peakFrom i (m, k) run).2⟩ := by
  induction run generalizing i discard m k with
  | nil =>
    cases rest with
    | nil => simp [climb, peakFrom]
    | cons y rest =>
      have low : ¬vlo < y := above_eq_false.mp (ends_cons.mp ends)
      simp [climb, peakFrom, low]
  | cons y run ih =>
    have here : vlo < y := above_eq_true.mp (holds y List.mem_cons_self)
    rw [List.cons_append, climb, if_pos here,
      ih fun z member => holds z (List.mem_cons_of_mem y member)]
    by_cases exceeds : vhi < y <;> by_cases higher : m < y <;>
      simp [peakFrom, above, exceeds, higher, Nat.add_assoc, Nat.add_comm 1]

/-- The inner loop goes over the samples above the low limit. -/
theorem climb_eq (vlo vhi : α) (i : Nat) (xs : List α) (discard : Bool) (m : α) (k : Nat) :
    climb vlo vhi i xs discard m k =
      ⟨i + (xs.takeWhile (above vlo)).length, xs.dropWhile (above vlo),
        discard || (xs.takeWhile (above vlo)).any (above vhi),
        (peakFrom i (m, k) (xs.takeWhile (above vlo))).1,
        (peakFrom i (m, k) (xs.takeWhile (above vlo))).2⟩ := by
  rw [← climb_append vhi (fun y member => List.mem_takeWhile_imp member) (ends_dropWhile _ xs),
    List.takeWhile_append_dropWhile]

theorem climb_shorter (vlo vhi : α) (i : Nat) (x : α) (xs : List α) (discard : Bool) (m : α)
    (k : Nat) :
    (climb vlo vhi i (x :: xs) discard m k).rest.tail.length < (x :: xs).length := by
  have shorter : ((x :: xs).dropWhile (above vlo)).length ≤ (x :: xs).length :=
    (List.dropWhile_sublist _).length_le
  rw [climb_eq]
  dsimp only
  rw [List.length_tail]
  rw [List.length_cons] at shorter ⊢
  omega

variable [LE α] [DecidableLE α] [OfNat α 0]

/-- The `for` loop, from `arr[i]` on. Where it is tested, `discard` is false and `localMaximum` is
zero; `localMaximizer` is what it was. -/
def countLoop (vlo vhi : α) (i : Nat) (rest : List α) (waitDescent : Bool) (localMaximizer : Nat)
    (result : CountResult α) : CountResult α :=
  match rest with
  | [] => result
  | x :: xs =>
    if waitDescent ∧ vlo < x then
      countLoop vlo vhi (i + 1) xs true localMaximizer result
    else if vhi < x then
      countLoop vlo vhi (i + 1) xs true localMaximizer result
    else if x ≤ vlo then
      countLoop vlo vhi (i + 1) xs false localMaximizer result
    else
      let c := climb vlo vhi i (x :: xs) false 0 localMaximizer
      countLoop vlo vhi (c.i + 1) c.rest.tail false c.localMaximizer
        (if c.discard then result else result.push c.localMaximum c.localMaximizer)
termination_by rest.length
decreasing_by
  · exact Nat.lt_succ_self _
  · exact Nat.lt_succ_self _
  · exact Nat.lt_succ_self _
  · exact climb_shorter vlo vhi i x xs false 0 localMaximizer

def countPacketCore (arr : List α) (vlo vhi _vth : α) : CountResult α :=
  let result := countLoop vlo vhi 0 arr false 0 ⟨0, [], []⟩
  { result with num_detected := result.maxima.length }

def countArrayPeak (arr : List α) (vlo vhi vth : α) : CountResult α :=
  countPacketCore arr vlo vhi vth

/-! ## The loops, a run at a time -/

/-- What the two limits have to do with each other. -/
structure Limits (vlo vhi : α) : Prop where
  high : ∀ x, vhi < x → vlo < x
  low : ∀ x, x ≤ vlo → ¬vlo < x

/-- A sample that is on neither side of the low limit. -/
def stray (vlo x : α) : Bool := !above vlo x && !decide (x ≤ vlo)

variable {x : α} {i k : Nat} {xs : List α} {result : CountResult α}

/-- After the descent it does not matter that it was waited for. -/
theorem countLoop_wait (ends : Ends (above vlo) rest) :
    countLoop vlo vhi i rest true k result = countLoop vlo vhi i rest false k result := by
  cases rest with
  | nil => simp [countLoop]
  | cons y rest =>
    have low : ¬vlo < y := above_eq_false.mp (ends_cons.mp ends)
    rw [countLoop, countLoop]
    simp [low]

/-- What is above the low limit is passed over while the descent is waited for. -/
theorem countLoop_skip (holds : ∀ y ∈ run, above vlo y = true) (ends : Ends (above vlo) rest) :
    countLoop vlo vhi i (run ++ rest) true k result =
      countLoop vlo vhi (i + run.length) rest false k result := by
  induction run generalizing i with
  | nil => exact countLoop_wait ends
  | cons y run ih =>
    have here : vlo < y := above_eq_true.mp (holds y List.mem_cons_self)
    rw [List.cons_append, countLoop, if_pos ⟨rfl, here⟩,
      ih fun z member => holds z (List.mem_cons_of_mem y member), List.length_cons]
    congr 1
    omega

/-- A run that begins above the high limit counts for nothing. -/
theorem countLoop_saturated (exceeds : above vhi x = true)
    (holds : ∀ y ∈ run, above vlo y = true) (ends : Ends (above vlo) rest) :
    countLoop vlo vhi i (x :: run ++ rest) false k result =
      countLoop vlo vhi (i + (x :: run).length) rest false k result := by
  rw [List.cons_append, countLoop, if_neg (by simp), if_pos (above_eq_true.mp exceeds),
    countLoop_skip holds ends, List.length_cons]
  congr 1
  omega

/-- Any other run is climbed. -/
theorem countLoop_climbed (limits : Limits vlo vhi) (here : above vlo x = true)
    (under : above vhi x = false) (holds : ∀ y ∈ run, above vlo y = true)
    (ends : Ends (above vlo) rest) :
    countLoop vlo vhi i (x :: run ++ rest) false k result =
      countLoop vlo vhi (i + (x :: run).length + 1) rest.tail false (peakFrom i (0, k) (x :: run)).2
        (if (x :: run).any (above vhi) then result
          else result.push (peakFrom i (0, k) (x :: run)).1 (peakFrom i (0, k) (x :: run)).2) := by
  have not_low : ¬x ≤ vlo := fun low => limits.low x low (above_eq_true.mp here)
  have all : ∀ y ∈ x :: run, above vlo y = true := List.forall_mem_cons.mpr ⟨here, holds⟩
  have climbed := climb_append vhi all ends i false 0 k
  rw [List.cons_append] at climbed ⊢
  rw [countLoop, if_neg (by simp), if_neg (above_eq_false.mp under), if_neg not_low]
  simp only [climbed, Bool.false_or]

/-- Any sample at or below the low limit is passed over. -/
theorem countLoop_low (limits : Limits vlo vhi) (low : x ≤ vlo) :
    countLoop vlo vhi i (x :: xs) false k result =
      countLoop vlo vhi (i + 1) xs false k result := by
  have under : ¬vhi < x := fun exceeds => limits.low x low (limits.high x exceeds)
  rw [countLoop, if_neg (by simp), if_neg under, if_pos low]

/-- A sample on neither side is counted, as one that is nothing high. -/
theorem countLoop_stray (limits : Limits vlo vhi) (is_stray : stray vlo x = true) :
    countLoop vlo vhi i (x :: xs) false k result =
      countLoop vlo vhi (i + 1) xs false k (result.push 0 k) := by
  simp only [stray, Bool.and_eq_true, Bool.not_eq_true', above_eq_false, decide_eq_false_iff_not]
    at is_stray
  obtain ⟨not_above, not_low⟩ := is_stray
  have under : ¬vhi < x := fun exceeds => not_above (limits.high x exceeds)
  rw [countLoop, if_neg (by simp), if_neg under, if_neg not_low]
  simp [climb, not_above]

/-! ## What is counted -/

section

variable {β : Type} [LinearOrder β] {rank : α → β} {s : α → Prop}

omit [DecidableLE α] [OfNat α 0] in
/-- Of samples that are compared by their ranks, the first greatest one is kept, if it is greater than
what is kept already. -/
theorem peakFrom_spec (ranked : Ranked rank s) {m : α} (hm : s m) (hs : ∀ y ∈ run, s y) :
    (∀ y ∈ run, y ≤ m) ∧ peakFrom i (m, k) run = (m, k) ∨
      ∃ j g, FirstGreatest run j g ∧ m < g ∧ peakFrom i (m, k) run = (g, i + j + 1) := by
  induction run generalizing i m k with
  | nil => exact Or.inl ⟨by rintro y ⟨⟩, rfl⟩
  | cons x run ih =>
    obtain ⟨hx, inside⟩ := List.forall_mem_cons.mp hs
    rw [peakFrom]
    by_cases higher : m < x
    · rw [if_pos higher]
      have rank_higher := (ranked.lt hm hx).mp higher
      rcases ih hx inside (i := i + 1) (k := i + 1) with ⟨below, same⟩ | ⟨j, g, greatest, exceeds, same⟩
      · refine Or.inr ⟨0, x, ⟨rfl, ?_, by rintro y ⟨⟩⟩, higher, same⟩
        exact List.forall_mem_cons.mpr ⟨(ranked.le hx hx).mpr le_rfl, below⟩
      · obtain ⟨there, most, first⟩ := greatest
        have hg := inside g (List.mem_of_getElem? there)
        have rank_over := (ranked.lt hx hg).mp exceeds
        refine Or.inr ⟨j + 1, g, ⟨there, ?_, ?_⟩, ?_, ?_⟩
        · exact List.forall_mem_cons.mpr ⟨(ranked.le hx hg).mpr rank_over.le, most⟩
        · exact List.forall_mem_cons.mpr ⟨exceeds, first⟩
        · exact (ranked.lt hm hg).mpr (rank_higher.trans rank_over)
        · rw [same]
          congr 1
          omega
    · rw [if_neg higher]
      have rank_below := (ranked.le hx hm).mp ((ranked.not_lt_iff hm hx).mp higher)
      rcases ih hm inside (i := i + 1) (k := k) with ⟨below, same⟩ | ⟨j, g, greatest, exceeds, same⟩
      · exact Or.inl ⟨List.forall_mem_cons.mpr ⟨(ranked.le hx hm).mpr rank_below, below⟩, same⟩
      · obtain ⟨there, most, first⟩ := greatest
        have hg := inside g (List.mem_of_getElem? there)
        have under := rank_below.trans_lt ((ranked.lt hm hg).mp exceeds)
        refine Or.inr ⟨j + 1, g, ⟨there, ?_, ?_⟩, exceeds, ?_⟩
        · exact List.forall_mem_cons.mpr ⟨(ranked.le hx hg).mpr under.le, most⟩
        · exact List.forall_mem_cons.mpr ⟨(ranked.lt hx hg).mpr under, first⟩
        · rw [same]
          congr 1
          omega

/-- The runs above the low limit of which no sample is above the high one. -/
def pulses (vlo vhi : α) (i : Nat) (xs : List α) : List (Run α) :=
  (runsFrom (above vlo) i xs).filter fun r => !r.entries.any (above vhi)

omit [LE α] [DecidableLE α] [OfNat α 0] in
theorem pulses_append (here : above vlo x = true) (holds : ∀ y ∈ run, above vlo y = true)
    (ends : Ends (above vlo) rest) : pulses vlo vhi i (x :: run ++ rest) =
      if (x :: run).any (above vhi) then pulses vlo vhi (i + (x :: run).length) rest
      else ⟨i, x :: run⟩ :: pulses vlo vhi (i + (x :: run).length) rest := by
  rw [pulses, runsFrom_append here holds ends, List.filter_cons]
  cases (x :: run).any (above vhi) <;> rfl

def Greatest (r : Run α) (m : α) : Prop := m ∈ r.entries ∧ ∀ x ∈ r.entries, x ≤ m

/-- One plus the index, in the buffer, at which the greatest sample of a run occurs first. -/
def Maximizer (r : Run α) (k : Nat) : Prop :=
  ∃ j g, FirstGreatest r.entries j g ∧ k = 1 + (r.start + j)

/-- What is recorded of the pulses of a buffer. -/
def Records (rs : List (Run α)) (result : CountResult α) : Prop :=
  List.Forall₂ Greatest rs result.maxima ∧ List.Forall₂ Maximizer rs result.maximizers

/-- The samples above the low limit are compared by their ranks, as zero is, which is below them. -/
structure Signal (rank : α → β) (s : α → Prop) (vlo : α) : Prop where
  ranked : Ranked rank s
  zero : s 0
  inside : ∀ x, vlo < x → s x
  positive : ∀ x, vlo < x → 0 < x

/-- What ends a run does not matter, when it is a number. -/
theorem countLoop_tail (limits : Limits vlo vhi) (ends : Ends (above vlo) rest)
    (ordered : ∀ x ∈ rest, vlo < x ∨ x ≤ vlo) :
    countLoop vlo vhi (i + 1) rest.tail false k result =
      countLoop vlo vhi i rest false k result := by
  cases rest with
  | nil => simp [countLoop]
  | cons z rest =>
    have not_above : ¬vlo < z := above_eq_false.mp (ends_cons.mp ends)
    have low := (ordered z List.mem_cons_self).resolve_left not_above
    rw [List.tail_cons, countLoop_low limits low]

omit [DecidableLE α] in
/-- What climbing a run records of it. -/
theorem peakFrom_run (signal : Signal rank s vlo) (holds : ∀ y ∈ x :: run, above vlo y = true) :
    Greatest ⟨i, x :: run⟩ (peakFrom i (0, k) (x :: run)).1 ∧
      Maximizer ⟨i, x :: run⟩ (peakFrom i (0, k) (x :: run)).2 := by
  have inside : ∀ y ∈ x :: run, s y := fun y member =>
    signal.inside y (above_eq_true.mp (holds y member))
  have positive := signal.positive x (above_eq_true.mp (holds x List.mem_cons_self))
  rcases peakFrom_spec signal.ranked signal.zero inside (i := i) (k := k) with
    ⟨below, -⟩ | ⟨j, g, greatest, -, same⟩
  · have rank_below := (signal.ranked.le (inside x List.mem_cons_self) signal.zero).mp
      (below x List.mem_cons_self)
    have rank_above := (signal.ranked.lt signal.zero (inside x List.mem_cons_self)).mp positive
    exact absurd rank_below (not_le.mpr rank_above)
  · rw [same]
    refine ⟨⟨List.mem_of_getElem? greatest.1, greatest.2.1⟩, j, g, greatest, ?_⟩
    show i + j + 1 = 1 + (i + j)
    omega

/-- **The loop records the pulses**, whatever it has recorded before. -/
theorem countLoop_records (limits : Limits vlo vhi) (signal : Signal rank s vlo) (i : Nat)
    (xs : List α) (ordered : ∀ x ∈ xs, vlo < x ∨ x ≤ vlo) (k : Nat) (result : CountResult α) :
    ∃ more, countLoop vlo vhi i xs false k result =
        ⟨result.num_detected, result.maximizers ++ more.maximizers, result.maxima ++ more.maxima⟩ ∧
      Records (pulses vlo vhi i xs) more := by
  induction i, xs using runs_induction (above vlo) generalizing k result with
  | nil i =>
    refine ⟨⟨0, [], []⟩, ?_, .nil, .nil⟩
    simp [countLoop]
  | single i x xs fails ih =>
    have low := (ordered x List.mem_cons_self).resolve_left (above_eq_false.mp fails)
    rw [countLoop_low limits low, pulses, runsFrom_cons_of_neg fails]
    exact ih (fun y member => ordered y (List.mem_cons_of_mem x member)) k result
  | run i x run rest here holds ends ih _ =>
    have ordered_rest : ∀ y ∈ rest, vlo < y ∨ y ≤ vlo := fun y member =>
      ordered y (List.mem_append_right _ member)
    have later := ih ordered_rest
    rw [pulses_append here holds ends]
    cases exceeds : above vhi x with
    | true =>
      have saturated : (x :: run).any (above vhi) = true := by simp [exceeds]
      rw [countLoop_saturated exceeds holds ends, saturated, if_pos rfl]
      exact later k result
    | false =>
      rw [countLoop_climbed limits here exceeds holds ends, countLoop_tail limits ends ordered_rest]
      cases saturated : (x :: run).any (above vhi) with
      | true =>
        rw [if_pos rfl, if_pos rfl]
        exact later _ result
      | false =>
        have all : ∀ y ∈ x :: run, above vlo y = true := List.forall_mem_cons.mpr ⟨here, holds⟩
        obtain ⟨greatest, maximizer⟩ := peakFrom_run signal all (i := i) (k := k)
        obtain ⟨more, same, maxima, maximizers⟩ := later (peakFrom i (0, k) (x :: run)).2
          (result.push (peakFrom i (0, k) (x :: run)).1 (peakFrom i (0, k) (x :: run)).2)
        rw [if_neg (by simp), if_neg (by simp), same]
        refine ⟨⟨0, (peakFrom i (0, k) (x :: run)).2 :: more.maximizers,
          (peakFrom i (0, k) (x :: run)).1 :: more.maxima⟩, ?_, .cons greatest maxima,
          .cons maximizer maximizers⟩
        simp [CountResult.push]

/-- **The pulses of a buffer are recorded, in order**, each with its greatest sample and where that
occurs first. -/
theorem countPacketCore_pulses (limits : Limits vlo vhi) (signal : Signal rank s vlo)
    (ordered : ∀ x ∈ xs, vlo < x ∨ x ≤ vlo) (vth : α) :
    Records (pulses vlo vhi 0 xs) (countPacketCore xs vlo vhi vth) ∧
      (countPacketCore xs vlo vhi vth).num_detected = (pulses vlo vhi 0 xs).length := by
  obtain ⟨more, same, maxima, maximizers⟩ := countLoop_records limits signal 0 xs ordered 0
    ⟨0, [], []⟩
  rw [countPacketCore, same]
  exact ⟨⟨maxima, maximizers⟩, maxima.length_eq.symm⟩

omit [LE α] [DecidableLE α] [OfNat α 0] in
theorem mem_pulses {r : Run α} : r ∈ pulses vlo vhi i xs ↔
    MaximalRun (above vlo) i xs r ∧ ∀ x ∈ r.entries, ¬vhi < x := by
  rw [pulses, List.mem_filter, mem_runsFrom]
  simp

omit [LE α] [DecidableLE α] [OfNat α 0] in
theorem pulses_pairwise (vlo vhi : α) (i : Nat) (xs : List α) :
    (pulses vlo vhi i xs).Pairwise fun r s => r.start + r.entries.length < s.start :=
  (runsFrom_pairwise (above vlo) i xs).filter _

end

end

/-! ## Samples of type `f64` -/

section

open Binary64

variable {vlo vhi : Float} {xs : List Float}

theorem limits_of_le (le : vlo ≤ vhi) : Limits vlo vhi where
  high x exceeds := by
    obtain ⟨number, number'⟩ := number_of_lt exceeds
    rw [ranked.lt (number_of_le le).1 number']
    exact ((ranked.le (number_of_le le).1 number).mp le).trans_lt ((ranked.lt number number').mp exceeds)
  low x low := by
    obtain ⟨number, number'⟩ := number_of_le low
    exact (ranked.not_lt_iff number' number).mpr low

theorem signal_of_nonneg (positive : 0 ≤ vlo) : Signal rank Number vlo where
  ranked := ranked
  zero := (number_of_le positive).1
  inside x exceeds := (number_of_lt exceeds).2
  positive x exceeds := by
    obtain ⟨zero, number⟩ := number_of_le positive
    obtain ⟨-, number'⟩ := number_of_lt exceeds
    rw [ranked.lt zero number']
    exact ((ranked.le zero number).mp positive).trans_lt ((ranked.lt number number').mp exceeds)

theorem ordered_of_numbers (number : vlo.isNaN = false) (numbers : ∀ x ∈ xs, x.isNaN = false) :
    ∀ x ∈ xs, vlo < x ∨ x ≤ vlo := by
  intro x member
  rcases Decidable.em (vlo < x) with exceeds | not_over
  · exact Or.inl exceeds
  · exact Or.inr ((ranked.not_lt_iff number (numbers x member)).mp not_over)

/-- **Peak counting.** Of a buffer of numbers, `countPacketCore` returns the maximal runs of samples
above `vlo` without one above `vhi`, from left to right. -/
theorem countPacketCore_detects (arr : List Float) (vlo vhi vth : Float)
    (numbers : ∀ x ∈ arr, x.isNaN = false) (positive : 0 ≤ vlo) (le : vlo ≤ vhi) :
    ∃ rs : List (Run Float),
      (∀ r, r ∈ rs ↔ MaximalRun (above vlo) 0 arr r ∧ ∀ x ∈ r.entries, ¬vhi < x) ∧
      (rs.Pairwise fun r s => r.start + r.entries.length < s.start) ∧
      List.Forall₂ Greatest rs (countPacketCore arr vlo vhi vth).maxima ∧
      List.Forall₂ Maximizer rs (countPacketCore arr vlo vhi vth).maximizers ∧
      (countPacketCore arr vlo vhi vth).num_detected = rs.length := by
  obtain ⟨⟨maxima, maximizers⟩, number⟩ := countPacketCore_pulses (limits_of_le le)
    (signal_of_nonneg positive) (ordered_of_numbers (number_of_le le).1 numbers) vth
  exact ⟨pulses vlo vhi 0 arr, fun r => mem_pulses, pulses_pairwise vlo vhi 0 arr, maxima,
    maximizers, number⟩

/-- A pulse, a saturated one, and one that the buffer cuts off. -/
theorem countPacketCore_detects_two : ∃ rs : List (Run Float),
    (∀ r, r ∈ rs ↔ MaximalRun (above 0.2) 0 [0.0, 1.0, 3.0, 3.0, 0.1, 9.0, 10.5, 0.2, 10.0] r ∧
      ∀ x ∈ r.entries, ¬10.0 < x) ∧
    (rs.Pairwise fun r s => r.start + r.entries.length < s.start) ∧
    List.Forall₂ Greatest rs
      (countPacketCore [0.0, 1.0, 3.0, 3.0, 0.1, 9.0, 10.5, 0.2, 10.0] 0.2 10.0 0.0).maxima ∧
    List.Forall₂ Maximizer rs
      (countPacketCore [0.0, 1.0, 3.0, 3.0, 0.1, 9.0, 10.5, 0.2, 10.0] 0.2 10.0 0.0).maximizers ∧
    (countPacketCore [0.0, 1.0, 3.0, 3.0, 0.1, 9.0, 10.5, 0.2, 10.0] 0.2 10.0 0.0).num_detected =
      rs.length :=
  countPacketCore_detects _ _ _ _ (by decide) (by decide) (by decide)

end

end DCScan.Math

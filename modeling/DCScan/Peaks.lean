import DCScan.Counting

/-!
What `countPacketCore` records of any samples, of which some may be no numbers: how many peaks, and which
maxima.
-/

namespace DCScan.Math

open Lib

section

variable {α : Type} [LT α] [LE α] [DecidableLT α] [DecidableLE α] [OfNat α 0]
variable {vlo vhi x : α} {i j k l : Nat} {run rest xs : List α}
variable {result result' : CountResult α}

/-! ## How many -/

/-- What has been recorded decides nothing. -/
theorem countLoop_length (vlo vhi : α) (xs : List α) (wait : Bool) (i j k l : Nat)
    (result result' : CountResult α) :
    (countLoop vlo vhi i xs wait k result).maxima.length + result'.maxima.length =
      (countLoop vlo vhi j xs wait l result').maxima.length + result.maxima.length := by
  induction length : xs.length using Nat.strongRecOn generalizing xs wait i j k l result result' with
  | ind n ih =>
    cases xs with
    | nil =>
      rw [countLoop, countLoop]
      exact Nat.add_comm _ _
    | cons x xs =>
      have shorter := climb_shorter vlo vhi i x xs false 0 k
      rw [List.length_cons] at length shorter
      rw [countLoop, countLoop]
      split
      · exact ih _ (by omega) _ _ _ _ _ _ _ _ rfl
      · split
        · exact ih _ (by omega) _ _ _ _ _ _ _ _ rfl
        · split
          · exact ih _ (by omega) _ _ _ _ _ _ _ _ rfl
          · simp only [climb_eq] at shorter ⊢
            cases (false || ((x :: xs).takeWhile (above vlo)).any (above vhi)) with
            | true => exact ih _ (by omega) _ _ _ _ _ _ _ _ rfl
            | false =>
              have later := ih _ (by omega) ((x :: xs).dropWhile (above vlo)).tail false
                (i + ((x :: xs).takeWhile (above vlo)).length + 1)
                (j + ((x :: xs).takeWhile (above vlo)).length + 1)
                (peakFrom i (0, k) ((x :: xs).takeWhile (above vlo))).2
                (peakFrom j (0, l) ((x :: xs).takeWhile (above vlo))).2
                (result.push (peakFrom i (0, k) ((x :: xs).takeWhile (above vlo))).1
                  (peakFrom i (0, k) ((x :: xs).takeWhile (above vlo))).2)
                (result'.push (peakFrom j (0, l) ((x :: xs).takeWhile (above vlo))).1
                  (peakFrom j (0, l) ((x :: xs).takeWhile (above vlo))).2) rfl
              simp only [CountResult.push, List.length_append, List.length_singleton] at later
              simp only [Bool.false_eq_true, if_false]
              simp only [CountResult.push]
              omega

/-- `num_detected` of a buffer. -/
def detected (vlo vhi : α) (xs : List α) : Nat :=
  (countLoop vlo vhi 0 xs false 0 ⟨0, [], []⟩).maxima.length

theorem countArrayPeak_detected (xs : List α) (vlo vhi vth : α) :
    (countArrayPeak xs vlo vhi vth).num_detected = detected vlo vhi xs := rfl

theorem countLoop_detected (i k : Nat) (result : CountResult α) :
    (countLoop vlo vhi i xs false k result).maxima.length =
      result.maxima.length + detected vlo vhi xs := by
  have same := countLoop_length vlo vhi xs false i 0 k 0 result ⟨0, [], []⟩
  rw [detected]
  simp only [List.length_nil] at same
  omega

@[simp] theorem detected_nil : detected vlo vhi ([] : List α) = 0 := by simp [detected, countLoop]

/-- A sample outside a run is counted when it is on neither side of the low limit. -/
theorem detected_cons (limits : Limits vlo vhi) (fails : above vlo x = false) :
    detected vlo vhi (x :: xs) = (stray vlo x).toNat + detected vlo vhi xs := by
  rw [detected]
  cases odd : stray vlo x with
  | true =>
    rw [countLoop_stray limits odd, countLoop_detected]
    simp [CountResult.push]
  | false =>
    have low : x ≤ vlo := by simpa [stray, fails] using odd
    rw [countLoop_low limits low, countLoop_detected]
    simp

/-- A run that begins above the high limit. -/
theorem detected_saturated (exceeds : above vhi x = true) (holds : ∀ y ∈ run, above vlo y = true)
    (ends : Ends (above vlo) rest) :
    detected vlo vhi (x :: run ++ rest) = detected vlo vhi rest := by
  rw [detected, countLoop_saturated exceeds holds ends, countLoop_detected]
  simp

/-- Any other run, and the sample behind it. -/
theorem detected_climbed (limits : Limits vlo vhi) (here : above vlo x = true)
    (under : above vhi x = false) (holds : ∀ y ∈ run, above vlo y = true)
    (ends : Ends (above vlo) rest) : detected vlo vhi (x :: run ++ rest) =
      (!(x :: run).any (above vhi)).toNat + detected vlo vhi rest.tail := by
  rw [detected, countLoop_climbed limits here under holds ends, countLoop_detected]
  cases (x :: run).any (above vhi) <;> simp [CountResult.push]

/-- A run, by its first sample. -/
theorem detected_run (limits : Limits vlo vhi) (here : above vlo x = true)
    (holds : ∀ y ∈ run, above vlo y = true) (ends : Ends (above vlo) rest) :
    detected vlo vhi (x :: run ++ rest) = if above vhi x then detected vlo vhi rest
      else (!(x :: run).any (above vhi)).toNat + detected vlo vhi rest.tail := by
  cases exceeds : above vhi x with
  | true => exact detected_saturated exceeds holds ends
  | false => exact detected_climbed limits here exceeds holds ends

/-- What is behind a run: nothing, or a sample that is counted or not. -/
theorem detected_of_ends (limits : Limits vlo vhi) (ends : Ends (above vlo) rest) :
    detected vlo vhi rest = (rest.head?.any (stray vlo)).toNat + detected vlo vhi rest.tail := by
  cases rest with
  | nil => simp
  | cons z rest => rw [detected_cons limits (ends_cons.mp ends), List.head?_cons, List.tail_cons]; rfl

/-- Every peak takes a sample. -/
theorem detected_le_length (limits : Limits vlo vhi) (xs : List α) :
    detected vlo vhi xs ≤ xs.length := by
  induction 0, xs using runs_induction (above vlo) with
  | nil i => simp
  | single i x xs fails ih =>
    have one := Bool.toNat_le (stray vlo x)
    rw [detected_cons limits fails, List.length_cons]
    omega
  | run i x run rest here holds ends ih ih_tail =>
    have one := Bool.toNat_le (!(x :: run).any (above vhi))
    rw [List.length_append, List.length_cons, detected_run limits here holds ends]
    rw [List.length_tail] at ih_tail
    split <;> omega

/-- Whether a run is passed over for its first sample. -/
def beginsOver (vhi : α) (run : List α) : Bool := run.head?.any (above vhi)

/-- The samples on neither side of the low limit that end a run which is climbed. -/
def swallowed (vlo vhi : α) (i : Nat) (xs : List α) : Nat :=
  (runsFrom (above vlo) i xs).countP fun r =>
    !beginsOver vhi r.entries && (xs[r.start + r.entries.length - i]?).any (stray vlo)

omit [OfNat α 0] in
/-- Where the samples of the runs are found does not depend on what comes before them. -/
theorem swallowed_shift (vlo vhi : α) (i : Nat) (xs before : List α) :
    (runsFrom (above vlo) (i + before.length) xs).countP (fun r => !beginsOver vhi r.entries &&
      ((before ++ xs)[r.start + r.entries.length - i]?).any (stray vlo)) =
        swallowed vlo vhi (i + before.length) xs := by
  apply List.countP_congr
  intro r member
  have behind := le_start_of_mem member
  rw [List.getElem?_append_right (by omega)]
  have same : r.start + r.entries.length - i - before.length =
      r.start + r.entries.length - (i + before.length) := by omega
  rw [same]

/-- **What is counted**: the pulses, and the samples on neither side of the low limit that do not end a
run which is climbed. -/
theorem detected_add_swallowed (limits : Limits vlo vhi) (i : Nat) (xs : List α) :
    detected vlo vhi xs + swallowed vlo vhi i xs =
      (pulses vlo vhi i xs).length + xs.countP (stray vlo) := by
  induction i, xs using runs_induction (above vlo) with
  | nil i => simp [swallowed, pulses]
  | single i x xs fails ih =>
    have later := swallowed_shift vlo vhi i xs [x]
    rw [pulses, swallowed, runsFrom_cons_of_neg fails, detected_cons limits fails,
      List.countP_cons]
    rw [List.singleton_append, List.length_singleton] at later
    rw [later]
    rw [pulses] at ih
    cases stray vlo x <;> simp <;> omega
  | run i x run rest here holds ends ih _ =>
    have later := swallowed_shift vlo vhi i rest (x :: run)
    have all : ∀ y ∈ x :: run, above vlo y = true := List.forall_mem_cons.mpr ⟨here, holds⟩
    have numbers : (x :: run).countP (stray vlo) = 0 := by
      rw [List.countP_eq_zero]
      intro y member
      simp [stray, all y member]
    have ending : (x :: run ++ rest)[i + (x :: run).length - i]? = rest.head? := by
      rw [Nat.add_sub_cancel_left, List.getElem?_append_right (Nat.le_refl _), Nat.sub_self,
        List.head?_eq_getElem?]
    have behind := detected_of_ends limits ends
    rw [pulses_append here holds ends, swallowed, runsFrom_append here holds ends, List.countP_cons,
      later, List.countP_append, numbers]
    dsimp only
    rw [ending, beginsOver, List.head?_cons, Option.any_some]
    generalize i + (x :: run).length = j at ih ⊢
    cases exceeds : above vhi x with
    | true =>
      have saturated : (x :: run).any (above vhi) = true := by simp [exceeds]
      rw [detected_saturated exceeds holds ends, saturated]
      simpa using ih
    | false =>
      rw [detected_climbed limits here exceeds holds ends]
      cases (x :: run).any (above vhi) <;> cases next : rest.head?.any (stray vlo) <;>
        simp [next] at behind ⊢ <;> omega

/-! ## Which maxima -/

omit [LE α] [DecidableLE α] [OfNat α 0] in
theorem pulses_tail (ends : Ends (above vlo) rest) :
    pulses vlo vhi (i + 1) rest.tail = pulses vlo vhi i rest := by
  cases rest with
  | nil => rfl
  | cons z rest => rw [pulses, pulses, runsFrom_cons_of_neg (ends_cons.mp ends), List.tail_cons]

/-- The maxima of the pulses, and zeros. -/
def MaximaOf (rs : List (Run α)) (maxima : List α) : Prop :=
  (∀ m ∈ maxima, m = 0 ∨ ∃ r ∈ rs, Greatest r m) ∧ ∀ r ∈ rs, ∃ m ∈ maxima, Greatest r m

omit [LT α] [DecidableLE α] [DecidableLT α] in
theorem MaximaOf.cons {rs : List (Run α)} {r : Run α} {maxima : List α} {m : α} (peak : Greatest r m)
    (later : MaximaOf rs maxima) : MaximaOf (r :: rs) (m :: maxima) := by
  constructor
  · refine List.forall_mem_cons.mpr ⟨Or.inr ⟨r, List.mem_cons_self, peak⟩, fun n there => ?_⟩
    refine (later.1 n there).imp_right ?_
    rintro ⟨q, member, greatest⟩
    exact ⟨q, List.mem_cons_of_mem r member, greatest⟩
  · refine List.forall_mem_cons.mpr ⟨⟨m, List.mem_cons_self, peak⟩, fun q member => ?_⟩
    obtain ⟨n, there, greatest⟩ := later.2 q member
    exact ⟨n, List.mem_cons_of_mem m there, greatest⟩

omit [LT α] [DecidableLE α] [DecidableLT α] in
theorem MaximaOf.zero {rs : List (Run α)} {maxima : List α} (later : MaximaOf rs maxima) :
    MaximaOf rs (0 :: maxima) := by
  refine ⟨List.forall_mem_cons.mpr ⟨Or.inl rfl, later.1⟩, fun q member => ?_⟩
  obtain ⟨n, there, greatest⟩ := later.2 q member
  exact ⟨n, List.mem_cons_of_mem 0 there, greatest⟩

variable {β : Type} [LinearOrder β] {rank : α → β} {s : α → Prop}

/-- **The maxima are those of the pulses**, and a zero for each other sample that is counted. -/
theorem countLoop_maxima (limits : Limits vlo vhi) (signal : Signal rank s vlo) (i : Nat)
    (xs : List α) (k : Nat) (result : CountResult α) :
    ∃ more, (countLoop vlo vhi i xs false k result).maxima = result.maxima ++ more ∧
      MaximaOf (pulses vlo vhi i xs) more := by
  induction i, xs using runs_induction (above vlo) generalizing k result with
  | nil i => exact ⟨[], by simp [countLoop], by rintro m ⟨⟩, by rintro r ⟨⟩⟩
  | single i x xs fails ih =>
    rw [pulses, runsFrom_cons_of_neg fails]
    cases odd : stray vlo x with
    | true =>
      obtain ⟨more, same, maxima⟩ := ih k (result.push 0 k)
      rw [countLoop_stray limits odd, same]
      exact ⟨0 :: more, by simp [CountResult.push], maxima.zero⟩
    | false =>
      have low : x ≤ vlo := by simpa [stray, fails] using odd
      rw [countLoop_low limits low]
      exact ih k result
  | run i x run rest here holds ends ih ih_tail =>
    rw [pulses_append here holds ends]
    cases exceeds : above vhi x with
    | true =>
      have saturated : (x :: run).any (above vhi) = true := by simp [exceeds]
      rw [countLoop_saturated exceeds holds ends, saturated, if_pos rfl]
      exact ih k result
    | false =>
      rw [countLoop_climbed limits here exceeds holds ends]
      rw [pulses_tail ends] at ih_tail
      cases saturated : (x :: run).any (above vhi) with
      | true =>
        rw [if_pos rfl, if_pos rfl]
        exact ih_tail _ result
      | false =>
        have all : ∀ y ∈ x :: run, above vlo y = true := List.forall_mem_cons.mpr ⟨here, holds⟩
        have peak := (peakFrom_run signal all (i := i) (k := k)).1
        obtain ⟨more, same, maxima⟩ := ih_tail (peakFrom i (0, k) (x :: run)).2
          (result.push (peakFrom i (0, k) (x :: run)).1 (peakFrom i (0, k) (x :: run)).2)
        rw [if_neg (by simp), if_neg (by simp), same]
        exact ⟨(peakFrom i (0, k) (x :: run)).1 :: more, by simp [CountResult.push], maxima.cons peak⟩

end

end DCScan.Math

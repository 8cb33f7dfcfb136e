import DCScan.ConsumerLoop
import DCScan.Peaks

/-!
`VoltageEvent` and `MCACountEvent`: from a buffer of samples to the bins of an MCA event.

`bins` has room for 128 entries, a buffer can have up to 500 peaks. The bin of a peak is the one of its
maximum, for which the arithmetic of binary64 is followed.
-/

namespace DCScan.Mca

open Lib Binary64 Math

/-- What `DAQmxReadAnalogF64` has put into `samples`. -/
structure Samples where
  samples : List Float
  /-- `INTERNAL_SAMP_SIZE`. -/
  size : samples.length = 1000

/-- The fields of an `EventData` that `MCACountEvent` reads. -/
structure EventData (τ : Type) where
  counts : CountResult Float
  timestamp_wall : τ

structure MCACountEventData (τ : Type) where
  count : Nat
  timestamp : τ
  total_max_bin_count : UInt16
  bins : List UInt16

/-- `bins`, before anything is written to it. -/
structure Bins where
  words : List UInt16
  size : words.length = 128

section

variable {τ : Type}

/-- What `VoltageEvent` pushes to the MCA task. -/
def VoltageEvent (timestamp_wall : τ) (s : Samples) : EventData τ :=
  ⟨countArrayPeak s.samples 0.2 10.0 0.0, timestamp_wall⟩

/-- `u16((maximum / 10.0) * total_max_bin_count)`. -/
def bin (maximum : Float) (total_max_bin_count : UInt16) : UInt16 :=
  (maximum / 10.0 * total_max_bin_count.toFloat).toUInt16

/-- The loop over the maxima, from `i` on, with `left` rounds to go. A write outside `bins` has no
result. -/
def binLoop (maxima : List Float) (total_max_bin_count : UInt16) (bins : List UInt16) (i : Nat) :
    Nat → Option (List UInt16)
  | 0 => some bins
  | left + 1 => do
    let maximum ← maxima[i]?
    if i < bins.length then
      binLoop maxima total_max_bin_count (bins.set i (bin maximum total_max_bin_count)) (i + 1) left
    else none

/-- What becomes of an event that the loop of `MCACountEvent` takes. -/
inductive Round (τ : Type) where
  /-- `continue`. -/
  | passed
  | emitted (data : MCACountEventData τ)
  /-- A write outside `bins`. -/
  | overrun

def MCACountEvent (mca_num_channels : UInt16) (stack : Bins) (ivd : EventData τ) : Round τ :=
  if ivd.counts.num_detected = 18446744073709551615 then .passed
  else
    match binLoop ivd.counts.maxima mca_num_channels stack.words 0 ivd.counts.num_detected with
    | some bins =>
      .emitted ⟨ivd.counts.num_detected, ivd.timestamp_wall, mca_num_channels, bins⟩
    | none => .overrun

/-- An event is emitted, each bin of which has been written inside `bins` and is a channel there is. -/
def WellFormed (round : Round τ) : Prop :=
  ∃ data, round = .emitted data ∧ data.bins.length = 128 ∧
    ∀ i < data.count, ∃ b, data.bins[i]? = some b ∧ b < data.total_max_bin_count

/-- The events that are passed over are those of the guard. -/
theorem MCACountEvent_passed_iff (n : UInt16) (stack : Bins) (ivd : EventData τ)
    (word : ivd.counts.num_detected < 2 ^ 64) : MCACountEvent n stack ivd = .passed ↔
      ConsumerLoop.countEventLoop.guard ⟨UInt64.ofNat ivd.counts.num_detected⟩ = true := by
  have same : UInt64.ofNat ivd.counts.num_detected = 18446744073709551615 ↔
      ivd.counts.num_detected = 18446744073709551615 := by
    rw [← UInt64.toNat_inj, UInt64.toNat_ofNat_of_lt' word]
    exact Iff.rfl
  simp only [ConsumerLoop.countEventLoop, decide_eq_true_eq, same, MCACountEvent]
  constructor
  · intro passed
    split at passed
    · assumption
    · split at passed <;> cases passed
  · intro none
    exact if_pos none

/-! ## The loop -/

variable {maxima : List Float} {n : UInt16} {bins bins' : List UInt16} {i left : Nat}

/-- A round of the loop that has a maximum to read. -/
theorem binLoop_succ (there : i < maxima.length) : binLoop maxima n bins i (left + 1) =
    if i < bins.length then binLoop maxima n (bins.set i (bin maxima[i] n)) (i + 1) left
    else none := by
  rw [binLoop, List.getElem?_eq_getElem there]
  rfl

theorem binLoop_isSome (enough : i + left ≤ maxima.length) (started : i ≤ bins.length) :
    (binLoop maxima n bins i left).isSome ↔ i + left ≤ bins.length := by
  induction left generalizing i bins with
  | zero => simp [binLoop, started]
  | succ left ih =>
    rw [binLoop_succ (by omega)]
    by_cases fits : i < bins.length
    · rw [if_pos fits, ih (by omega) (by rw [List.length_set]; omega), List.length_set]
      omega
    · rw [if_neg fits]
      simp only [Option.isSome_none, Bool.false_eq_true, false_iff]
      omega

/-- What the loop leaves in `bins`. -/
theorem binLoop_getElem? (enough : i + left ≤ maxima.length)
    (ran : binLoop maxima n bins i left = some bins') :
    bins'.length = bins.length ∧ ∀ j, bins'[j]? =
      if i ≤ j ∧ j < i + left then maxima[j]?.map (bin · n) else bins[j]? := by
  induction left generalizing i bins with
  | zero =>
    cases ran
    exact ⟨rfl, fun j => (if_neg (by omega)).symm⟩
  | succ left ih =>
    have there : i < maxima.length := by omega
    rw [binLoop_succ there] at ran
    split at ran
    · rename_i fits
      obtain ⟨same, entries⟩ := ih (by omega) ran
      rw [List.length_set] at same
      refine ⟨same, fun j => ?_⟩
      rw [entries]
      by_cases here : j = i
      · subst here
        rw [if_neg (by omega), if_pos (by omega), List.getElem?_set_self fits,
          List.getElem?_eq_getElem there]
        rfl
      · rw [List.getElem?_set_ne (Ne.symm here)]
        by_cases later : i + 1 ≤ j ∧ j < i + 1 + left
        · rw [if_pos later, if_pos (by omega)]
        · rw [if_neg later, if_neg (by omega)]
    · cases ran

/-- A round ends well when there is room for all peaks and each has a bin. -/
theorem wellFormed_iff (n : UInt16) (stack : Bins) (ivd : EventData τ)
    (number : ivd.counts.num_detected = ivd.counts.maxima.length)
    (some_event : ivd.counts.num_detected ≠ 18446744073709551615) :
    WellFormed (MCACountEvent n stack ivd) ↔
      ivd.counts.num_detected ≤ 128 ∧ ∀ m ∈ ivd.counts.maxima, bin m n < n := by
  have enough : 0 + ivd.counts.num_detected ≤ ivd.counts.maxima.length := by omega
  have room := binLoop_isSome (n := n) enough (Nat.zero_le stack.words.length)
  rw [Nat.zero_add, stack.size] at room
  rw [MCACountEvent, if_neg some_event, ← room]
  cases ran : binLoop ivd.counts.maxima n stack.words 0 ivd.counts.num_detected with
  | none => simp [WellFormed]
  | some bins =>
    obtain ⟨same, entries⟩ := binLoop_getElem? enough ran
    rw [stack.size] at same
    simp only [Option.isSome_some, true_and]
    constructor
    · rintro ⟨data, emitted, -, written⟩ m member
      cases emitted
      obtain ⟨j, inside, rfl⟩ := List.mem_iff_getElem.mp member
      obtain ⟨b, found, less⟩ := written j (by dsimp only; omega)
      rw [entries, if_pos ⟨Nat.zero_le j, by omega⟩, List.getElem?_eq_getElem inside] at found
      cases found
      exact less
    · intro all
      refine ⟨_, rfl, same, fun j inside => ?_⟩
      dsimp only at inside ⊢
      have inside' : j < ivd.counts.maxima.length := by omega
      refine ⟨bin ivd.counts.maxima[j] n, ?_, all _ (List.getElem_mem inside')⟩
      rw [entries, if_pos ⟨Nat.zero_le j, by omega⟩, List.getElem?_eq_getElem inside']
      rfl

/-! ## The bin of a peak -/

theorem unpack_ten :
    (10.0 : Float).toModel.unpack = .finite .positive 5629499534213120 (-49) (by decide) := rfl

theorem unpack_fifth :
    (0.2 : Float).toModel.unpack = .finite .positive 7205759403792794 (-55) (by decide) := rfl

theorem unpack_zero : (0 : Float).toModel.unpack = .zero .positive := rfl

theorem ten_tenth : (10.0 : Float) / 10.0 = 1.0 := by decide

theorem zero_tenth : (0 : Float) / 10.0 = 0 := by decide

/-- The samples of a pulse, in unpacked form. -/
theorem unpack_peak {x : Float} (exceeds : 0.2 < x) (under : ¬10.0 < x) :
    ∃ m e pos, x.toModel.unpack = .finite .positive m e pos ∧ Normal m e ∧ -55 ≤ e ∧ e ≤ -49 ∧
      (e = -49 → m ≤ 5629499534213120) ∧ (x < 10.0 ↔ e = -49 → m < 5629499534213120) := by
  have number : Number x := (number_of_lt exceeds).2
  have ten : Number 10.0 := rfl
  have canonical := canonical_unpack x
  rw [ranked.lt (number_of_lt exceeds).1 number, rank, rank, unpack_fifth] at exceeds
  rw [ranked.not_lt_iff ten number, ranked.le number ten, rank, rank, unpack_ten] at under
  have lower := ranked.lt number ten
  rw [rank, rank, unpack_ten] at lower
  rw [lower]
  have bound : place 5629499534213120 (-49) < 2 ^ 70 := by decide
  have positive : 0 < place 7205759403792794 (-55) := by decide
  cases unpacked : x.toModel.unpack with
  | notANumber => rw [unpacked] at exceeds; simp only [rankOf] at exceeds; omega
  | zero sg => rw [unpacked] at exceeds; simp only [rankOf] at exceeds; omega
  | infinity sg =>
    rw [unpacked] at exceeds under
    cases sg with
    | negative => simp only [rankOf] at exceeds; omega
    | positive => simp only [rankOf] at under; omega
  | finite sg m e pos =>
    rw [unpacked] at exceeds under canonical
    obtain ⟨short, lo, -, normal⟩ := canonical
    cases sg with
    | negative => simp only [rankOf, place] at exceeds; omega
    | positive =>
      simp only [rankOf, place] at exceeds under ⊢
      refine ⟨m, e, pos, rfl, ⟨?_, short, ?_, ?_⟩, ?_, ?_, ?_, ?_⟩ <;> omega

/-- A quotient by ten of less than one. -/
theorem unpack_tenth {x : Float} {m : Nat} {e : Int} {pos : 0 < m}
    (unpacked : x.toModel.unpack = .finite .positive m e pos) (normal : Normal m e) (lo : -55 ≤ e)
    (hi : e ≤ -49) (less : e = -49 → m < 5629499534213120) :
    ∃ m' e' pos', (x / 10.0).toModel.unpack = .finite .positive m' e' pos' ∧ Normal m' e' ∧
      -100 ≤ e' ∧ e' ≤ -53 := by
  have normal_ten : Normal 5629499534213120 (-49) :=
    ⟨by decide, by decide, by decide, by decide⟩
  obtain ⟨s, a, r, m', e', pos', one_bit, length, rounded, quotient⟩ :=
    unpack_div unpacked unpack_ten normal normal_ten (by omega) (by omega)
  refine ⟨m', e', pos', quotient, rounded.normal, ?_⟩
  have fits := rounded.fits
  have up := rounded.up
  have most := normal.most
  have least := normal.least
  have wide := (Nat.log2_eq_iff (by omega)).mp length
  obtain rfl | rfl : s = 0 ∨ s = 1 := by omega
  · omega
  · omega

/-- **The bin of a peak** is a channel there is, unless the peak is at the upper limit. -/
theorem bin_lt_iff {x : Float} (exceeds : 0.2 < x) (under : ¬10.0 < x) (positive : n ≠ 0) :
    bin x n < n ↔ x < 10.0 := by
  obtain ⟨m, e, pos, unpacked, normal, lo, hi, most, lower⟩ := unpack_peak exceeds under
  rw [lower]
  constructor
  · intro less full
    by_contra not_less
    obtain rfl : m = 5629499534213120 := by
      have bound := most full
      have reached := not_less
      omega
    subst full
    -- the quotient is that of ten by itself
    have one : (x / 10.0).toModel.unpack = .finite .positive (2 ^ 52) (-52) (by decide) := by
      have same : (x / 10.0).toModel.unpack = ((10.0 : Float) / 10.0).toModel.unpack :=
        congrArg (fun u => (Float.Model.pack (Float.Model.UnpackedFloat.div
          Float.Model.Format.binary64 u (10.0 : Float).toModel.unpack)).unpack)
          (unpacked.trans unpack_ten.symm)
      rw [same, ten_tenth]
      rfl
    rw [bin, one_mul_toFloat one positive] at less
    exact absurd less (UInt16.lt_irrefl n)
  · intro less
    obtain ⟨m', e', pos', quotient, normal', lo', hi'⟩ := unpack_tenth unpacked normal lo hi less
    exact mul_toFloat_lt quotient normal' lo' hi' positive

theorem bin_zero (positive : n ≠ 0) : bin 0 n < n := by
  have some_n : 0 < n.toNat := Nat.pos_of_ne_zero fun zero => positive (UInt16.toNat_inj.mp zero)
  obtain ⟨pos, natural⟩ := unpack_ofNat some_n (n.toNat_lt.trans (by decide))
  have product : bin 0 n = 0 := by
    rw [bin, zero_tenth]
    show (Float.Model.pack (Float.Model.UnpackedFloat.mul Float.Model.Format.binary64
      (0 : Float).toModel.unpack (Float.Model.ofNat n.toNat).unpack)).unpack.toUInt16 = 0
    rw [natural, unpack_zero]
    show (Float.Model.pack (.zero (.positive * .positive))).unpack.toUInt16 = 0
    decide
  rw [product, UInt16.lt_iff_toNat_lt]
  exact some_n

/-! ## Events -/

/-- The maxima of a buffer all have a bin when no pulse reaches the upper limit. -/
theorem bins_lt_iff (positive : n ≠ 0) {rs : List (Run Float)} {maxima : List Float}
    (inside : ∀ r ∈ rs, ∀ x ∈ r.entries, 0.2 < x ∧ ¬10.0 < x) (records : MaximaOf rs maxima) :
    (∀ m ∈ maxima, bin m n < n) ↔ ∀ r ∈ rs, ∀ x ∈ r.entries, x < 10.0 := by
  constructor
  · intro all r member x there
    obtain ⟨m, recorded, greatest⟩ := records.2 r member
    obtain ⟨exceeds, under⟩ := inside r member m greatest.1
    have lower := (bin_lt_iff exceeds under positive).mp (all m recorded)
    have below := greatest.2 x there
    obtain ⟨number, number'⟩ := number_of_le below
    have ten : Number 10.0 := rfl
    rw [ranked.lt number ten]
    exact ((ranked.le number number').mp below).trans_lt ((ranked.lt number' ten).mp lower)
  · intro all m recorded
    rcases records.1 m recorded with rfl | ⟨r, member, greatest⟩
    · exact bin_zero positive
    · obtain ⟨exceeds, under⟩ := inside r member m greatest.1
      exact (bin_lt_iff exceeds under positive).mpr (all r member m greatest.1)

/-- **An MCA event is well formed exactly when** at most 128 peaks are counted in its buffer, and no
pulse reaches the upper limit. The peaks are the pulses, and the samples that are no numbers and do not
end a run that is climbed. -/
theorem MCACountEvent_wellFormed_iff (t : τ) (s : Samples) (stack : Bins) (n : UInt16)
    (positive : n ≠ 0) : WellFormed (MCACountEvent n stack (VoltageEvent t s)) ↔
      (pulses 0.2 10.0 0 s.samples).length + s.samples.countP (stray 0.2) ≤
          128 + swallowed 0.2 10.0 0 s.samples ∧
        ∀ r ∈ pulses 0.2 10.0 0 s.samples, ∀ x ∈ r.entries, x < 10.0 := by
  have limits : Limits (0.2 : Float) 10.0 := limits_of_le (by decide)
  have signal : Signal rank Number (0.2 : Float) := signal_of_nonneg (by decide)
  obtain ⟨maxima, same, records⟩ := countLoop_maxima limits signal 0 s.samples 0 ⟨0, [], []⟩
  have counted := detected_add_swallowed limits 0 s.samples
  have few := detected_le_length limits s.samples
  rw [s.size] at few
  have inside : ∀ r ∈ pulses 0.2 10.0 0 s.samples, ∀ x ∈ r.entries, 0.2 < x ∧ ¬10.0 < x := by
    intro r member x there
    obtain ⟨maximal, under⟩ := mem_pulses.mp member
    obtain ⟨-, -, -, -, -, above_all, -, -⟩ := maximal
    exact ⟨above_eq_true.mp (above_all x there), under x there⟩
  have recorded : (VoltageEvent t s).counts.maxima = maxima := same
  have number : (VoltageEvent t s).counts.num_detected = detected 0.2 10.0 s.samples := rfl
  rw [wellFormed_iff n stack (VoltageEvent t s) rfl (by rw [number]; omega), recorded,
    bins_lt_iff positive inside records, number]
  exact and_congr_left' (by omega)

/-- A pulse in every second sample. -/
def alternating : Nat → List Float
  | 0 => []
  | k + 1 => 1.0 :: 0.0 :: alternating k

theorem alternating_length (k : Nat) : (alternating k).length = 2 * k := by
  induction k with
  | zero => rfl
  | succ k ih =>
    rw [alternating, List.length_cons, List.length_cons, ih]
    omega

theorem detected_alternating (k : Nat) : detected 0.2 10.0 (alternating k) = k := by
  induction k with
  | zero => exact detected_nil
  | succ k ih =>
    have climbed : detected 0.2 10.0 (1.0 :: [] ++ 0.0 :: alternating k) =
        (!([1.0] : List Float).any (above 10.0)).toNat + detected 0.2 10.0 (alternating k) :=
      detected_climbed (limits_of_le (by decide)) (by decide) (by decide) (by rintro y ⟨⟩)
        (ends_cons.mpr (by decide))
    rw [List.singleton_append, ih] at climbed
    rw [alternating, climbed]
    exact Nat.add_comm 1 k

/-- One pulse, of one volt. -/
def onePulse : Samples :=
  ⟨1.0 :: List.replicate 999 0.0, by rw [List.length_cons, List.length_replicate]⟩

/-- A pulse that reaches ten volts. -/
def fullPulse : Samples :=
  ⟨10.0 :: List.replicate 999 0.0, by rw [List.length_cons, List.length_replicate]⟩

def manyPulses : Samples := ⟨alternating 500, alternating_length 500⟩

def emptyBins : Bins := ⟨List.replicate 128 0, List.length_replicate⟩

theorem MCACountEvent_wellFormed_iff_one :
    WellFormed (MCACountEvent 1024 emptyBins (VoltageEvent () onePulse)) ↔
      (pulses 0.2 10.0 0 onePulse.samples).length + onePulse.samples.countP (stray 0.2) ≤
          128 + swallowed 0.2 10.0 0 onePulse.samples ∧
        ∀ r ∈ pulses 0.2 10.0 0 onePulse.samples, ∀ x ∈ r.entries, x < 10.0 :=
  MCACountEvent_wellFormed_iff () onePulse emptyBins 1024 (by decide)

theorem fullPulse_bin :
    (VoltageEvent () fullPulse).counts.maxima.map (bin · 1024) = [1024] := by decide +kernel

/-- With a pulse in every second sample the 129th bin is written behind `bins`; ten volts have the bin
behind the last. -/
theorem bins_exceeded :
    ¬WellFormed (MCACountEvent 1024 emptyBins (VoltageEvent () manyPulses)) ∧
      ¬WellFormed (MCACountEvent 1024 emptyBins (VoltageEvent () fullPulse)) := by
  constructor
  · have number : (VoltageEvent () manyPulses).counts.num_detected = 500 :=
      detected_alternating 500
    rw [wellFormed_iff 1024 emptyBins (VoltageEvent () manyPulses) rfl (by rw [number]; decide),
      number]
    omega
  · have one : (VoltageEvent () fullPulse).counts.num_detected = 1 := by
      have length := congrArg List.length fullPulse_bin
      rwa [List.length_map] at length
    rw [wellFormed_iff 1024 emptyBins (VoltageEvent () fullPulse) rfl (by rw [one]; decide)]
    rintro ⟨-, all⟩
    obtain ⟨m, member, full⟩ := List.mem_map.mp (fullPulse_bin ▸ List.mem_singleton_self 1024)
    have less := all m member
    rw [full] at less
    exact absurd less (UInt16.lt_irrefl 1024)

end

end DCScan.Mca

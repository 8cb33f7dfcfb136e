import DCScan.ConsumerLoop
import DCScan.Registry

/-!
`DCSCountEvent`: an event is sent as the bytes of the object `ivd`.

Two of its fields are vectors. Of a vector the object holds where its elements are, and they are not
sent with it. What is sent of a list is its length, and the address at which the server had stored it.
-/

namespace DCScan.EventBytes

open Lib Message

/-- A double, by the bits that are stored for it. -/
abbrev f64 := UInt64

@[ext]
structure Timestamp where
  hour : Int16
  min : Int16
  sec : Int16
  millis : Int16
  micros : Int16
  nanos : Int16
  deriving DecidableEq

structure CountResult where
  num_detected : UInt64
  maximizers : List UInt64
  maxima : List f64
  deriving DecidableEq

structure EventData where
  counts : CountResult
  counts_delta : UInt64
  timestamp_wall : Timestamp
  timestamp_real : UInt64
  angle_c1 : f64
  angle_c2 : f64
  angle_table : f64
  angle_detector : f64
  angle_eqv_bragg : f64
  temp_c1 : f64
  temp_c2 : f64
  lattice_spacing_uncorrected : f64
  lattice_spacing_corrected : f64
  bin_number_uncorrected : UInt64
  bin_number_corrected : UInt64
  deriving DecidableEq

/-! ## The object in memory -/

/-- `n` elements of eight bytes lie at this address, which is not the null pointer's. -/
def Stored (address n : Nat) : Prop := 0 < address ∧ address + 8 * n < 2 ^ 64

instance (address n : Nat) : Decidable (Stored address n) := inferInstanceAs (Decidable (_ ∧ _))

/-- `ivd`, and where its lists are stored. -/
structure Object where
  data : EventData
  maximizers_at : Nat
  maxima_at : Nat
  /-- The four bytes behind `timestamp_wall` are of no field. -/
  padding : UInt32
  maximizers_stored : Stored maximizers_at data.counts.maximizers.length
  maxima_stored : Stored maxima_at data.counts.maxima.length

def u64 (x : UInt64) : Nat × Nat := (8, x.toNat)

def i16 (x : Int16) : Nat × Nat := (2, x.toUInt16.toNat)

/-- A vector: its first element, its end and the end of its storage. `ivd` is a copy, so there is
no room behind the last element, and no storage for an empty vector. -/
def vector (address n : Nat) : List (Nat × Nat) :=
  if n = 0 then [(8, 0), (8, 0), (8, 0)]
  else [(8, address), (8, address + 8 * n), (8, address + 8 * n)]

def Timestamp.words (t : Timestamp) : List (Nat × Nat) :=
  [i16 t.hour, i16 t.min, i16 t.sec, i16 t.millis, i16 t.micros, i16 t.nanos]

/-- The fields behind the counts, in the order of their declaration. -/
def EventData.words (e : EventData) (padding : UInt32) : List (Nat × Nat) :=
  u64 e.counts_delta :: e.timestamp_wall.words ++
    [(4, padding.toNat), u64 e.timestamp_real, u64 e.angle_c1, u64 e.angle_c2, u64 e.angle_table,
      u64 e.angle_detector, u64 e.angle_eqv_bragg, u64 e.temp_c1, u64 e.temp_c2,
      u64 e.lattice_spacing_uncorrected, u64 e.lattice_spacing_corrected,
      u64 e.bin_number_uncorrected, u64 e.bin_number_corrected]

def Object.words (ivd : Object) : List (Nat × Nat) :=
  u64 ivd.data.counts.num_detected ::
    (vector ivd.maximizers_at ivd.data.counts.maximizers.length ++
      (vector ivd.maxima_at ivd.data.counts.maxima.length ++ ivd.data.words ivd.padding))

/-- `(DCS::u8*)&ivd, sizeof(EventData)`. -/
def Object.bytes (ivd : Object) : List UInt8 := leWords ivd.words

/-- What the loop of `DCSCountEvent` makes of an event, while there is a subscriber. -/
def DCSCountEvent (mem : Uninit) (nid : UInt64) (SV_EVT : UInt8) (ivd : Object) :
    Option (UInt64 × DefaultMessage) :=
  if ConsumerLoop.countEventLoop.guard ⟨ivd.data.counts.num_detected⟩ then none
  else eventMessage mem nid SV_EVT ivd.bytes

/-- The payload that is emitted. -/
def payload (mem : Uninit) (nid : UInt64) (SV_EVT : UInt8) (ivd : Object) : Option (List UInt8) :=
  (DCSCountEvent mem nid SV_EVT ivd).map fun sent => sent.2.payload

/-- The event can be read back from its payload. -/
structure ReadsBack (SV_EVT : UInt8) (ivd : Object) : Prop where
  /-- No other event has this payload, wherever its lists are stored. -/
  determines : ∀ other mem mem' nid nid' sent, payload mem nid SV_EVT ivd = some sent →
    payload mem' nid' SV_EVT other = some sent → other.data = ivd.data
  /-- Stored elsewhere, the event has the same payload. -/
  placeless : ∀ other mem mem' nid nid', other.data = ivd.data → other.padding = ivd.padding →
    payload mem' nid' SV_EVT other = payload mem nid SV_EVT ivd

/-- The events differ in the elements of their lists, if at all. -/
structure Alike (e e' : EventData) : Prop where
  num_detected : e.counts.num_detected = e'.counts.num_detected
  maximizers : e.counts.maximizers.length = e'.counts.maximizers.length
  maxima : e.counts.maxima.length = e'.counts.maxima.length
  others : { e with counts := e'.counts } = e'

/-- The loop passes over the event. -/
def Passed (ivd : Object) : Prop := ivd.data.counts.num_detected = 18446744073709551615

instance (ivd : Object) : Decidable (Passed ivd) := inferInstanceAs (Decidable (_ = _))

variable {ivd other : Object} {SV_EVT : UInt8}

/-! ## What is sent -/

theorem vector_widths (address n : Nat) : (vector address n).map Prod.fst = [8, 8, 8] := by
  rw [vector]
  split <;> rfl

theorem widths_eq (ivd : Object) : ivd.words.map Prod.fst =
    [8, 8, 8, 8, 8, 8, 8, 8, 2, 2, 2, 2, 2, 2, 4, 8, 8, 8, 8, 8, 8, 8, 8, 8, 8, 8, 8] := by
  rw [Object.words, List.map_cons, List.map_append, List.map_append, vector_widths, vector_widths]
  rfl

/-- `sizeof(EventData)`. -/
theorem bytes_length (ivd : Object) : ivd.bytes.length = 176 := by
  rw [Object.bytes, leWords_length, widths_eq]
  rfl

theorem vector_fits {address n : Nat} (stored : Stored address n) :
    ∀ w ∈ vector address n, w.2 < 256 ^ w.1 := by
  obtain ⟨_, inside⟩ := stored
  have first : address < 2 ^ 64 := by omega
  simp only [Nat.reducePow] at first inside
  rw [vector]
  split <;> simp [first, inside]

theorem words_fit (ivd : Object) : ∀ w ∈ ivd.words, w.2 < 256 ^ w.1 := by
  intro w member
  rw [Object.words, List.mem_cons, List.mem_append, List.mem_append] at member
  rcases member with rfl | member | member | member
  · exact ivd.data.counts.num_detected.toNat_lt
  · exact vector_fits ivd.maximizers_stored w member
  · exact vector_fits ivd.maxima_stored w member
  · simp only [EventData.words, Timestamp.words, List.cons_append, List.nil_append, List.mem_cons,
      List.not_mem_nil, or_false] at member
    rcases member with rfl | rfl | rfl | rfl | rfl | rfl | rfl | rfl | rfl | rfl | rfl | rfl | rfl |
      rfl | rfl | rfl | rfl | rfl | rfl | rfl
    all_goals first | exact UInt64.toNat_lt _ | exact UInt16.toNat_lt _ | exact UInt32.toNat_lt _

/-- The bytes of an object are read back into its words. -/
theorem words_of_bytes (same : ivd.bytes = other.bytes) : ivd.words = other.words :=
  leWords_inj (by rw [widths_eq, widths_eq]) (words_fit ivd) (words_fit other) same

theorem payload_eq (mem : Uninit) (nid : UInt64) (SV_EVT : UInt8) (ivd : Object) :
    payload mem nid SV_EVT ivd = if Passed ivd then none else some (SV_EVT :: ivd.bytes) := by
  have fits : ivd.bytes.length + 10 < 2 ^ 31 := by
    rw [bytes_length]
    decide
  by_cases passed : Passed ivd
  · simp [payload, DCSCountEvent, ConsumerLoop.countEventLoop, passed, show _ = _ from passed]
  · rw [if_neg passed]
    simp [payload, DCSCountEvent, ConsumerLoop.countEventLoop, show ¬ _ = _ from passed,
      eventMessage_eq fits, DefaultMessage.payload]

/-! ## What is read back -/

@[simp] theorem u64_inj {x y : UInt64} : u64 x = u64 y ↔ x = y := by
  simp [u64, UInt64.toNat_inj]

@[simp] theorem i16_inj {x y : Int16} : i16 x = i16 y ↔ x = y := by
  rw [i16, i16, Prod.mk.injEq, UInt16.toNat_inj]
  exact ⟨fun same => congrArg Int16.ofUInt16 same.2, fun same => ⟨rfl, congrArg Int16.toUInt16 same⟩⟩

/-- Of a list its length is read back. -/
theorem vector_inj {address address' n n' : Nat} (stored : Stored address n)
    (stored' : Stored address' n') (same : vector address n = vector address' n') : n = n' := by
  obtain ⟨_, _⟩ := stored
  obtain ⟨_, _⟩ := stored'
  unfold vector at same
  split at same <;> split at same <;> simp at same <;> omega

/-- The fields behind the counts are read back. -/
theorem EventData.words_inj {e e' : EventData} {padding padding' : UInt32}
    (same : e.words padding = e'.words padding') : { e with counts := e'.counts } = e' := by
  simp only [EventData.words, Timestamp.words, List.cons_append, List.nil_append, List.cons.injEq,
    u64_inj, i16_inj, Prod.mk.injEq, and_true, true_and] at same
  cases e
  cases e'
  simp_all [Timestamp.ext_iff]

/-- What is read back of an event: all but the elements of its lists. -/
theorem alike_of_bytes (same : ivd.bytes = other.bytes) : Alike ivd.data other.data := by
  obtain ⟨number, words⟩ := List.cons.inj (words_of_bytes same)
  have size (address n address' n' : Nat) :
      (vector address n).length = (vector address' n').length := by
    simpa using congrArg List.length ((vector_widths address n).trans (vector_widths address' n').symm)
  obtain ⟨maximizers, words⟩ := List.append_inj words (size _ _ _ _)
  obtain ⟨maxima, words⟩ := List.append_inj words (size _ _ _ _)
  exact ⟨u64_inj.mp number, vector_inj ivd.maximizers_stored other.maximizers_stored maximizers,
    vector_inj ivd.maxima_stored other.maxima_stored maxima, EventData.words_inj words⟩

/-- The elements themselves are not sent. -/
theorem bytes_of_alike (alike : Alike ivd.data other.data)
    (maximizers_at : ivd.maximizers_at = other.maximizers_at)
    (maxima_at : ivd.maxima_at = other.maxima_at) (padding : ivd.padding = other.padding) :
    ivd.bytes = other.bytes := by
  have others : ivd.data.words ivd.padding = other.data.words other.padding := by
    rw [← alike.others, ← padding]
    rfl
  rw [Object.bytes, Object.words, alike.num_detected, alike.maximizers, alike.maxima, maximizers_at,
    maxima_at, others]
  rfl

/-- With its lists empty, there is nothing that is not sent. -/
theorem eq_of_alike {e e' : EventData} (alike : Alike e e') (maximizers : e.counts.maximizers = [])
    (maxima : e.counts.maxima = []) : e' = e := by
  obtain ⟨number, maximizers_length, maxima_length, others⟩ := alike
  rw [maximizers] at maximizers_length
  rw [maxima] at maxima_length
  have counts : e'.counts = e.counts := by
    rcases counts : e.counts with ⟨_, _, _⟩
    rcases counts' : e'.counts with ⟨_, _, _⟩
    simp only [counts, counts'] at number maximizers maxima maximizers_length maxima_length
    rw [number, maximizers, maxima, List.length_eq_zero_iff.mp maximizers_length.symm,
      List.length_eq_zero_iff.mp maxima_length.symm]
  rw [← others, counts]

/-- Empty lists are stored nowhere. -/
theorem bytes_of_empty (same : other.data = ivd.data) (padding : other.padding = ivd.padding)
    (maximizers : ivd.data.counts.maximizers = []) (maxima : ivd.data.counts.maxima = []) :
    other.bytes = ivd.bytes := by
  rw [Object.bytes, Object.bytes, Object.words, Object.words, same, padding, maximizers, maxima]
  rfl

/-- Another list of the same length. -/
theorem exists_other {xs : List UInt64} (some_element : xs ≠ []) :
    ∃ ys, ys ≠ xs ∧ ys.length = xs.length := by
  obtain ⟨x, rest, rfl⟩ := List.exists_cons_of_ne_nil some_element
  refine ⟨(if x = 0 then 1 else 0) :: rest, fun same => ?_, rfl⟩
  have first := (List.cons.inj same).1
  split at first
  · next zero => exact absurd (first.trans zero) (by decide)
  · next positive => exact positive first.symm

/-- An event that is read back has no other one like it. -/
theorem eq_of_readsBack (reads : ReadsBack SV_EVT ivd) (emitted : ¬ Passed ivd)
    (alike : Alike ivd.data other.data) (maximizers_at : ivd.maximizers_at = other.maximizers_at)
    (maxima_at : ivd.maxima_at = other.maxima_at) (padding : ivd.padding = other.padding) :
    other.data = ivd.data := by
  have emitted' : ¬ Passed other := by
    rwa [Passed, ← alike.num_detected]
  refine reads.determines other .zeros .zeros 0 0 (SV_EVT :: ivd.bytes) ?_ ?_
  · rw [payload_eq, if_neg emitted]
  · rw [payload_eq, if_neg emitted', bytes_of_alike alike maximizers_at maxima_at padding]

/-- Of an event that is not emitted there is nothing to be read. -/
theorem readsBack_of_passed (SV_EVT : UInt8) (passed : Passed ivd) : ReadsBack SV_EVT ivd := by
  constructor
  · intro other mem mem' nid nid' sent emitted
    rw [payload_eq, if_pos passed] at emitted
    cases emitted
  · intro other mem mem' nid nid' same padding
    have passed' : Passed other := by rwa [Passed, same]
    rw [payload_eq, payload_eq, if_pos passed, if_pos passed']

theorem readsBack_of_empty (SV_EVT : UInt8) (maximizers : ivd.data.counts.maximizers = [])
    (maxima : ivd.data.counts.maxima = []) : ReadsBack SV_EVT ivd := by
  constructor
  · intro other mem mem' nid nid' sent emitted emitted'
    rw [payload_eq] at emitted emitted'
    split at emitted
    · cases emitted
    split at emitted'
    · cases emitted'
    rw [← emitted, Option.some.injEq, List.cons.injEq] at emitted'
    exact eq_of_alike (alike_of_bytes emitted'.2.symm) maximizers maxima
  · intro other mem mem' nid nid' same padding
    have passed : Passed other ↔ Passed ivd := by rw [Passed, Passed, same]
    simp only [payload_eq, bytes_of_empty same padding maximizers maxima, passed]

/-- **An event can be read back**, wherever its lists are stored, if and only if they are empty, or the
event is not emitted. -/
theorem readsBack_iff (SV_EVT : UInt8) (ivd : Object) : ReadsBack SV_EVT ivd ↔
    Passed ivd ∨ (ivd.data.counts.maximizers = [] ∧ ivd.data.counts.maxima = []) := by
  constructor
  · intro reads
    by_cases passed : Passed ivd
    · exact Or.inl passed
    · refine Or.inr ⟨by_contra fun some_maximizer => ?_, by_contra fun some_maximum => ?_⟩
      · obtain ⟨ys, differ, size⟩ := exists_other some_maximizer
        let other : Object := { ivd with
          data := { ivd.data with counts := { ivd.data.counts with maximizers := ys } }
          maximizers_stored := by simpa only [size] using ivd.maximizers_stored }
        have same : other.data = ivd.data :=
          eq_of_readsBack reads passed ⟨rfl, size.symm, rfl, rfl⟩ rfl rfl rfl
        exact differ (congrArg (fun e => e.counts.maximizers) same)
      · obtain ⟨ys, differ, size⟩ := exists_other some_maximum
        let other : Object := { ivd with
          data := { ivd.data with counts := { ivd.data.counts with maxima := ys } }
          maxima_stored := by simpa only [size] using ivd.maxima_stored }
        have same : other.data = ivd.data :=
          eq_of_readsBack reads passed ⟨rfl, rfl, size.symm, rfl⟩ rfl rfl rfl
        exact differ (congrArg (fun e => e.counts.maxima) same)
  · rintro (passed | ⟨maximizers, maxima⟩)
    · exact readsBack_of_passed SV_EVT passed
    · exact readsBack_of_empty SV_EVT maximizers maxima

/-! ## A peak at the fifth sample -/

def midnight : Timestamp := ⟨0, 0, 0, 0, 0, 0⟩

/-- An event with one peak, of 1.0, at this sample. -/
def onePeak (maximizer : UInt64) : EventData :=
  ⟨⟨1, [maximizer], [4607182418800017408]⟩, 0, midnight, 0, 0, 0, 0, 0, 0, 0, 0, 0, 0, 0, 0⟩

theorem one_at_4096 : Stored 4096 1 := by decide

theorem one_at_4160 : Stored 4160 1 := by decide

/-- Its lists are stored where those of the event before it have been. -/
def peakAt (maximizer : UInt64) : Object :=
  ⟨onePeak maximizer, 4096, 4160, 0, one_at_4096, one_at_4160⟩

/-- The event with the peak at the sixth sample has the same payload. -/
theorem peak_not_sent : ¬ ReadsBack 4 (peakAt 5) := by
  intro reads
  have same : (peakAt 6).data = (peakAt 5).data :=
    reads.determines (peakAt 6) .zeros .zeros 0 0 (4 :: (peakAt 5).bytes)
      (by rw [payload_eq]; rfl) (by rw [payload_eq]; rfl)
  exact absurd (congrArg (fun e => e.counts.maximizers) same) (by decide)

end DCScan.EventBytes

import DCScan.Acquisition

/-!
`CountEvent`: the counts of an acquisition, one callback after another.

The hardware counter has 32 bits, `count_task_last_count` has 64. The count of an event is a difference of
64 bits, and so is right until the counter wraps.
-/

namespace DCScan.CountEvents

/-- What `DAQmxReadCounterU32` has put into `counts`. -/
structure Readings where
  counts : List UInt32
  /-- `INTERNAL_SAMP_SIZE`. -/
  size : counts.length = 1000

def Readings.first (r : Readings) : UInt32 := r.counts.get ⟨0, by rw [r.size]; decide⟩

def Readings.last (r : Readings) : UInt32 := r.counts.get ⟨999, by rw [r.size]; decide⟩

/-- `count_task_last_count`. -/
structure State where
  count_task_last_count : UInt64

/-- The state in which `StartCIAcquisition` starts the task. -/
def StartCIAcquisition : State := ⟨0⟩

/-- `num_detected`, and `counts_delta`, of the event that is pushed. -/
abbrev Data := EventData × UInt64

def CountEvent (s : State) (r : Readings) : State × Data :=
  (⟨r.last.toUInt64⟩,
    ⟨r.last.toUInt64 - s.count_task_last_count⟩, (r.last - r.first).toUInt64)

/-- A callback of the task: the counter shows what has been counted, modulo `2 ^ 32`. -/
structure Callback where
  /-- The true count, at the last sample. -/
  total : Nat
  readings : Readings
  shows : readings.last = UInt32.ofNat total

/-- The events of an acquisition. -/
def events (s : State) : List Callback → List Data
  | [] => []
  | c :: callbacks => (CountEvent s c.readings).2 :: events (CountEvent s c.readings).1 callbacks

/-- Between two callbacks less than `2 ^ 32` is counted. -/
def Grows (before : Nat) : List Callback → Prop
  | [] => True
  | c :: callbacks => before ≤ c.total ∧ c.total < before + 2 ^ 32 ∧ Grows c.total callbacks

/-- What is counted between one callback and the next. -/
def increments (before : Nat) : List Callback → List Nat
  | [] => []
  | c :: callbacks => (c.total - before) :: increments c.total callbacks

/-- What has been counted in the end. -/
def finalTotal (before : Nat) : List Callback → Nat
  | [] => before
  | c :: callbacks => finalTotal c.total callbacks

/-- Each event has the count of its own callback, their sum is all that was counted, and none is taken
for no event. -/
def Telescopes (callbacks : List Callback) (data : List Data) : Prop :=
  data.map (·.1.num_detected.toNat) = increments 0 callbacks ∧
    (data.map (·.1.num_detected.toNat)).sum = finalTotal 0 callbacks ∧
    ∀ d ∈ data, ConsumerLoop.countEventLoop.guard d.1 = false

/-! ## One event -/

variable {s : State} {c : Callback} {before : Nat} {callbacks : List Callback}

theorem count_toNat (s : State) (c : Callback) (last : s.count_task_last_count.toNat = before) :
    (CountEvent s c.readings).2.1.num_detected.toNat =
      (2 ^ 64 - before + c.total % 2 ^ 32) % 2 ^ 64 := by
  rw [CountEvent, c.shows, UInt64.toNat_sub, last, UInt32.toNat_toUInt64, UInt32.toNat_ofNat']

/-- The count is right until the counter wraps, and never after. -/
theorem count_right_iff (last : s.count_task_last_count.toNat = before) (small : before < 2 ^ 32)
    (later : before ≤ c.total) (growth : c.total < before + 2 ^ 32) :
    (CountEvent s c.readings).2.1.num_detected.toNat = c.total - before ↔ c.total < 2 ^ 32 := by
  rw [count_toNat s c last]
  omega

theorem last_of_small (s : State) (fits : c.total < 2 ^ 32) :
    (CountEvent s c.readings).1.count_task_last_count.toNat = c.total := by
  show c.readings.last.toUInt64.toNat = _
  rw [c.shows, UInt32.toNat_toUInt64, UInt32.toNat_ofNat']
  exact Nat.mod_eq_of_lt fits

/-- `counts_delta` is a difference of 32 bits, and right across a wrap. -/
theorem counts_delta_right (s : State) (c : Callback) {first : Nat}
    (shows_first : c.readings.first = UInt32.ofNat first) (later : first ≤ c.total)
    (growth : c.total < first + 2 ^ 32) :
    (CountEvent s c.readings).2.2.toNat = c.total - first := by
  show (c.readings.last - c.readings.first).toUInt64.toNat = _
  rw [c.shows, shows_first, UInt32.toNat_toUInt64, UInt32.toNat_sub, UInt32.toNat_ofNat',
    UInt32.toNat_ofNat']
  omega

/-! ## An acquisition -/

theorem finalTotal_eq (grows : Grows before callbacks) :
    before + (increments before callbacks).sum = finalTotal before callbacks := by
  induction callbacks generalizing before with
  | nil => rfl
  | cons c callbacks ih =>
    obtain ⟨later, -, rest⟩ := grows
    rw [increments, List.sum_cons, finalTotal, ← ih rest]
    omega

theorem increments_lt (grows : Grows before callbacks) :
    ∀ n ∈ increments before callbacks, n < 2 ^ 32 := by
  induction callbacks generalizing before with
  | nil => rintro n ⟨⟩
  | cons c callbacks ih =>
    obtain ⟨later, growth, rest⟩ := grows
    exact List.forall_mem_cons.mpr ⟨by omega, ih rest⟩

/-- The counts are right exactly when the counter does not wrap. -/
theorem counts_right_iff (last : s.count_task_last_count.toNat = before) (small : before < 2 ^ 32)
    (grows : Grows before callbacks) :
    (events s callbacks).map (·.1.num_detected.toNat) = increments before callbacks ↔
      ∀ c ∈ callbacks, c.total < 2 ^ 32 := by
  induction callbacks generalizing s before with
  | nil => simp [events, increments]
  | cons c callbacks ih =>
    obtain ⟨later, growth, rest⟩ := grows
    rw [events, increments, List.map_cons, List.cons.injEq, List.forall_mem_cons,
      count_right_iff last small later growth]
    constructor
    · rintro ⟨fits, right⟩
      exact ⟨fits, (ih (last_of_small s fits) fits rest).mp right⟩
    · rintro ⟨fits, all⟩
      exact ⟨fits, (ih (last_of_small s fits) fits rest).mpr all⟩

theorem counts_right_of_start_iff (grows : Grows 0 callbacks) :
    (events StartCIAcquisition callbacks).map (·.1.num_detected.toNat) = increments 0 callbacks ↔
      ∀ c ∈ callbacks, c.total < 2 ^ 32 :=
  counts_right_iff rfl (by decide) grows

/-- An event is passed over for its count. -/
theorem guard_eq_true_iff (data : EventData) :
    ConsumerLoop.countEventLoop.guard data = true ↔ data.num_detected.toNat = 2 ^ 64 - 1 := by
  rw [ConsumerLoop.countEventLoop, decide_eq_true_iff, ← UInt64.toNat_inj]
  exact Iff.rfl

/-- An event with the right count is not passed over. -/
theorem counted_of_right (grows : Grows before callbacks)
    (right : (events s callbacks).map (·.1.num_detected.toNat) = increments before callbacks) :
    ∀ data ∈ events s callbacks, ConsumerLoop.countEventLoop.guard data.1 = false := by
  intro data member
  have counted : data.1.num_detected.toNat ∈ increments before callbacks := by
    rw [← right]
    exact List.mem_map_of_mem member
  have bound := increments_lt grows _ counted
  rw [Bool.eq_false_iff, ne_eq, guard_eq_true_iff]
  omega

/-- Until the counter wraps, no event of an acquisition is lost in `DCSCountEvent` for its count. -/
theorem guard_of_small (rest : UInt64) (grows : Grows 0 callbacks)
    (small : ∀ c ∈ callbacks, c.total < 2 ^ 32) :
    ∀ data ∈ events StartCIAcquisition callbacks,
      (Acquisition.dcsLoop rest).guard data = false :=
  counted_of_right grows ((counts_right_of_start_iff grows).mpr small)

/-- **Counts telescope over an acquisition exactly when the counter does not wrap in it.** -/
theorem counts_telescope_iff (callbacks : List Callback) (grows : Grows 0 callbacks) :
    Telescopes callbacks (events StartCIAcquisition callbacks) ↔
      ∀ c ∈ callbacks, c.total < 2 ^ 32 := by
  rw [← counts_right_of_start_iff grows]
  constructor
  · exact fun telescopes => telescopes.1
  · intro right
    refine ⟨right, ?_, counted_of_right grows right⟩
    rw [right, ← finalTotal_eq grows, Nat.zero_add]

/-- A callback whose samples all show one count. -/
def steady (total : Nat) : Callback where
  total := total
  readings := ⟨List.replicate 1000 (UInt32.ofNat total), List.length_replicate⟩
  shows := List.getElem_replicate _

theorem counts_telescope_iff_two :
    Telescopes [steady 7, steady 4294967295] (events StartCIAcquisition [steady 7, steady 4294967295]) ↔
      ∀ c ∈ [steady 7, steady 4294967295], c.total < 2 ^ 32 :=
  counts_telescope_iff _ ⟨by decide, by decide, by decide, by decide, trivial⟩

/-- When the counter wraps, the event has a wrong count, here the one that stands for no event. -/
theorem wrapped_count_lost : Grows 0 [steady 1, steady 4294967296] ∧
    (events StartCIAcquisition [steady 1, steady 4294967296]).map (·.1) =
      [⟨1⟩, ConsumerLoop.countEventLoop.nothing] ∧
    ¬Telescopes [steady 1, steady 4294967296]
      (events StartCIAcquisition [steady 1, steady 4294967296]) := by
  have grows : Grows 0 [steady 1, steady 4294967296] :=
    ⟨by decide, by decide, by decide, by decide, trivial⟩
  have counts : (events StartCIAcquisition [steady 1, steady 4294967296]).map (·.1) =
      [⟨1⟩, ConsumerLoop.countEventLoop.nothing] := by
    simp [events, CountEvent, (steady 1).shows, (steady 4294967296).shows]
    decide
  refine ⟨grows, counts, fun telescopes => ?_⟩
  have lost : ConsumerLoop.countEventLoop.nothing ∈
      (events StartCIAcquisition [steady 1, steady 4294967296]).map (·.1) := by simp [counts]
  obtain ⟨data, member, same⟩ := List.mem_map.mp lost
  have kept := telescopes.2.2 data member
  rw [same, ConsumerLoop.guards_nothing.2.2] at kept
  cases kept

end DCScan.CountEvents

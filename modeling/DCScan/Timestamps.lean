import DCScan.Lib.Bytes
import DCScan.Lib.Units

/-!
`SystemTimer::getTimestamp`: the time since the timer was started, field by field.

Six durations are taken of the nanoseconds, and neighbours subtracted. The count of a duration has as
many bits as the language gives it at least.
-/

namespace DCScan.Timer

open Lib

/-- The nanoseconds of a tick, and the bits of a count of them. -/
structure Period where
  nanoseconds : Int
  bits : Nat

def hours : Period := ⟨3600 * 10 ^ 9, 23⟩

def minutes : Period := ⟨60 * 10 ^ 9, 29⟩

def seconds : Period := ⟨10 ^ 9, 35⟩

def milliseconds : Period := ⟨10 ^ 6, 45⟩

def microseconds : Period := ⟨10 ^ 3, 55⟩

def nanoseconds : Period := ⟨1, 64⟩

structure Duration where
  period : Period
  count : Int

def duration_cast (p : Period) (d : Duration) : Duration :=
  ⟨p, signed p.bits ((d.count * d.period.nanoseconds).tdiv p.nanoseconds)⟩

/-- The period that both are a number of. -/
def Period.common (p q : Period) : Period :=
  ⟨Int.gcd p.nanoseconds q.nanoseconds, max p.bits q.bits⟩

/-- `operator-`. -/
def Duration.sub (c d : Duration) : Duration :=
  let common := c.period.common d.period
  ⟨common, signed common.bits ((duration_cast common c).count - (duration_cast common d).count)⟩

structure Timestamp where
  hour : Int16
  min : Int16
  sec : Int16
  millis : Int16
  micros : Int16
  nanos : Int16
  deriving DecidableEq, Repr

def Timestamp.fields (ts : Timestamp) : List Int :=
  [ts.hour, ts.min, ts.sec, ts.millis, ts.micros, ts.nanos].map Int16.toInt

def add_value (v : Int) : Int16 := if 0 < v then Int16.ofInt v else 0

/-- The nanoseconds of the steady clock at which it was started. -/
structure SystemTimer where
  point : Int

def SystemTimer.getTimestamp (timer : SystemTimer) (now : Int) : Timestamp :=
  let ns : Duration := ⟨nanoseconds, now - timer.point⟩
  let h := duration_cast hours ns
  let m := duration_cast minutes ns
  let s := duration_cast seconds ns
  let ms := duration_cast milliseconds ns
  let us := duration_cast microseconds ns
  { hour := add_value h.count
    min := add_value (m.sub h).count
    sec := add_value (s.sub m).count
    millis := add_value (ms.sub s).count
    micros := add_value (us.sub ms).count
    nanos := add_value (ns.sub us).count }

/-- The nanoseconds of 32768 hours. -/
def limit : Nat := 32768 * 3600 * 10 ^ 9

/-- The fields make the nanoseconds, and none of them the next. -/
structure Decomposes (n : Nat) (ts : Timestamp) : Prop where
  whole : ts.hour.toInt * 3600 * 10 ^ 9 + ts.min.toInt * 60 * 10 ^ 9 + ts.sec.toInt * 10 ^ 9 +
    ts.millis.toInt * 10 ^ 6 + ts.micros.toInt * 10 ^ 3 + ts.nanos.toInt = n
  hour : 0 ≤ ts.hour.toInt
  min : 0 ≤ ts.min.toInt ∧ ts.min.toInt < 60
  sec : 0 ≤ ts.sec.toInt ∧ ts.sec.toInt < 60
  millis : 0 ≤ ts.millis.toInt ∧ ts.millis.toInt < 1000
  micros : 0 ≤ ts.micros.toInt ∧ ts.micros.toInt < 1000
  nanos : 0 ≤ ts.nanos.toInt ∧ ts.nanos.toInt < 1000

/-- The units of the fields. -/
def units : List Int := [hours, minutes, seconds, milliseconds, microseconds, nanoseconds].map
  Period.nanoseconds

variable {v n : Int} {timer : SystemTimer} {now : Int} {p q : Period}

/-! ## Durations -/

/-- What a field can hold is stored. -/
theorem add_value_of_lt (low : 0 ≤ v) (small : v < 2 ^ 15) : (add_value v).toInt = v := by
  rw [add_value]
  split
  · exact Int16.toInt_ofInt_of_le (by omega) (by omega)
  · have zero : v = 0 := by omega
    rw [zero]
    rfl

/-- A count that its bits can hold is the whole number of ticks. -/
theorem duration_cast_of_lt {d : Duration} (positive : 0 < p.nanoseconds)
    (low : 0 ≤ d.count * d.period.nanoseconds)
    (small : 2 * (d.count * d.period.nanoseconds / p.nanoseconds) < 2 ^ p.bits) :
    duration_cast p d = ⟨p, d.count * d.period.nanoseconds / p.nanoseconds⟩ := by
  have quotient := Int.ediv_nonneg low positive.le
  have power : (0 : Int) ≤ 2 ^ p.bits := by positivity
  rw [duration_cast, Int.tdiv_eq_ediv_of_nonneg low, signed_of_range (by omega) small]

/-- The count of 32768 hours has room. -/
structure Roomy (p : Period) : Prop where
  positive : 0 < p.nanoseconds
  fits : 2 * (limit / p.nanoseconds) < 2 ^ p.bits

theorem Roomy.small (roomy : Roomy p) (below : n < limit) :
    2 * (n / p.nanoseconds) < 2 ^ p.bits := by
  have most := Int.ediv_le_ediv roomy.positive below.le
  have fits := roomy.fits
  omega

/-- The duration of some nanoseconds is their whole number of ticks. -/
theorem Roomy.cast (roomy : Roomy p) (low : 0 ≤ n) (below : n < limit) :
    duration_cast p ⟨nanoseconds, n⟩ = ⟨p, n / p.nanoseconds⟩ := by
  have ticks : n * nanoseconds.nanoseconds = n := Int.mul_one n
  have small := roomy.small below
  have cast := duration_cast_of_lt (d := ⟨nanoseconds, n⟩) roomy.positive
    (by simpa only [ticks] using low) (by simpa only [ticks] using small)
  simpa only [ticks] using cast

/-- `q` is a finer period, and a field has room for as many as make one of `p`. -/
structure Finer (p q : Period) : Prop where
  coarse : Roomy p
  fine : Roomy q
  divides : q.nanoseconds ∣ p.nanoseconds
  bits : p.bits ≤ q.bits
  few : p.nanoseconds / q.nanoseconds ≤ 2 ^ 15

/-- **Neighbours subtracted** leave what the coarser period leaves of the finer. -/
theorem Finer.sub (finer : Finer p q) (low : 0 ≤ n) (below : n < limit) :
    (Duration.sub ⟨q, n / q.nanoseconds⟩ ⟨p, n / p.nanoseconds⟩).count =
      n % p.nanoseconds / q.nanoseconds := by
  have positive := finer.fine.positive
  have coarser := finer.coarse.positive
  have small := finer.fine.small below
  have common : q.common p = q := by
    rw [Period.common, Int.gcd_eq_left positive.le finer.divides, Nat.max_eq_left finer.bits]
  have own : n / q.nanoseconds * q.nanoseconds / q.nanoseconds = n / q.nanoseconds :=
    Int.mul_ediv_cancel _ positive.ne'
  have other : n / p.nanoseconds * p.nanoseconds / q.nanoseconds =
      n / p.nanoseconds * (p.nanoseconds / q.nanoseconds) := Int.mul_ediv_assoc _ finer.divides
  have taken := emod_ediv_eq (n := n) finer.divides positive
  have rest : 0 ≤ n % p.nanoseconds / q.nanoseconds :=
    (emod_ediv_lt coarser positive finer.divides).1
  have counted : 0 ≤ n / p.nanoseconds * p.nanoseconds / q.nanoseconds :=
    Int.ediv_nonneg (Int.mul_nonneg (Int.ediv_nonneg low coarser.le) coarser.le) positive.le
  have power : (0 : Int) ≤ 2 ^ q.bits := by positivity
  rw [Duration.sub]
  simp only [common]
  rw [duration_cast_of_lt positive (Int.mul_nonneg (Int.ediv_nonneg low positive.le) positive.le)
      (by simpa only [own] using small),
    duration_cast_of_lt positive (Int.mul_nonneg (Int.ediv_nonneg low coarser.le) coarser.le)
      (by simp only []; omega)]
  simp only [own, other, ← taken]
  exact signed_of_range (by omega) (by omega)

/-! ## The fields -/

/-- The field of a period behind a coarser one. -/
theorem Finer.field (finer : Finer p q) (low : 0 ≤ n) (below : n < limit) :
    (add_value ((duration_cast q ⟨nanoseconds, n⟩).sub
        (duration_cast p ⟨nanoseconds, n⟩)).count).toInt =
      n % p.nanoseconds / q.nanoseconds := by
  have bounds := emod_ediv_lt (n := n) finer.coarse.positive finer.fine.positive finer.divides
  rw [finer.fine.cast low below, finer.coarse.cast low below, finer.sub low below]
  exact add_value_of_lt bounds.1 (bounds.2.trans_le finer.few)

theorem roomy_hours : Roomy hours := ⟨by decide, by decide⟩

theorem roomy_minutes : Roomy minutes := ⟨by decide, by decide⟩

theorem roomy_seconds : Roomy seconds := ⟨by decide, by decide⟩

theorem roomy_milliseconds : Roomy milliseconds := ⟨by decide, by decide⟩

theorem roomy_microseconds : Roomy microseconds := ⟨by decide, by decide⟩

theorem roomy_nanoseconds : Roomy nanoseconds := ⟨by decide, by decide⟩

theorem hours_minutes : Finer hours minutes :=
  ⟨roomy_hours, roomy_minutes, by decide, by decide, by decide⟩

theorem minutes_seconds : Finer minutes seconds :=
  ⟨roomy_minutes, roomy_seconds, by decide, by decide, by decide⟩

theorem seconds_milliseconds : Finer seconds milliseconds :=
  ⟨roomy_seconds, roomy_milliseconds, by decide, by decide, by decide⟩

theorem milliseconds_microseconds : Finer milliseconds microseconds :=
  ⟨roomy_milliseconds, roomy_microseconds, by decide, by decide, by decide⟩

theorem microseconds_nanoseconds : Finer microseconds nanoseconds :=
  ⟨roomy_microseconds, roomy_nanoseconds, by decide, by decide, by decide⟩

/-- **The fields are the counts of the units**, up to 32768 hours. -/
theorem fields_eq (timer : SystemTimer) (now : Int) (low : 0 ≤ now - timer.point)
    (below : now - timer.point < limit) :
    (timer.getTimestamp now).fields = inUnits units (now - timer.point) := by
  unfold SystemTimer.getTimestamp Timestamp.fields
  generalize now - timer.point = n at low below ⊢
  have hour : (add_value (duration_cast hours ⟨nanoseconds, n⟩).count).toInt =
      n / hours.nanoseconds := by
    have few : n / hours.nanoseconds < 2 ^ 15 := by
      have below : n < 32768 * 3600 * 10 ^ 9 := below
      simp only [hours]
      omega
    rw [roomy_hours.cast low below]
    exact add_value_of_lt (Int.ediv_nonneg low roomy_hours.positive.le) few
  have nanos := microseconds_nanoseconds.field low below
  have ticks : duration_cast nanoseconds ⟨nanoseconds, n⟩ = ⟨nanoseconds, n⟩ := by
    rw [roomy_nanoseconds.cast low below, nanoseconds, Int.ediv_one]
  rw [ticks] at nanos
  simp only [List.map_cons, List.map_nil, hour, hours_minutes.field low below,
    minutes_seconds.field low below, seconds_milliseconds.field low below,
    milliseconds_microseconds.field low below, nanos, units, inUnits,
    Int.emod_emod_of_dvd n hours_minutes.divides, Int.emod_emod_of_dvd n minutes_seconds.divides,
    Int.emod_emod_of_dvd n seconds_milliseconds.divides,
    Int.emod_emod_of_dvd n milliseconds_microseconds.divides]

theorem units_positive : ∀ unit ∈ units, 0 < unit := by decide

theorem units_last : units.getLast? = some 1 := rfl

theorem Finer.bounds (finer : Finer p q) (n : Int) :
    0 ≤ n % p.nanoseconds / q.nanoseconds ∧
      n % p.nanoseconds / q.nanoseconds < p.nanoseconds / q.nanoseconds :=
  emod_ediv_lt finer.coarse.positive finer.fine.positive finer.divides

/-- The fields add up, and each is below the number that makes one of the field before it. -/
theorem decomposes {n : Nat} (elapsed : now - timer.point = n) (below : n < limit) :
    Decomposes n (timer.getTimestamp now) := by
  have fields := fields_eq timer now (by omega) (by omega)
  have whole := ofUnits_inUnits units_last (now - timer.point)
  rw [← fields, elapsed] at whole
  rw [elapsed] at fields
  simp only [Timestamp.fields, List.map_cons, List.map_nil, units, inUnits, List.cons.injEq,
    and_true] at fields
  obtain ⟨hour, min, sec, millis, micros, nanos⟩ := fields
  refine ⟨?_, ?_, ?_, ?_, ?_, ?_, ?_⟩
  · simp only [Timestamp.fields, List.map_cons, List.map_nil, units, ofUnits, hours, minutes, seconds,
      milliseconds, microseconds, nanoseconds] at whole
    omega
  · rw [hour]
    exact Int.ediv_nonneg (Int.natCast_nonneg n) roomy_hours.positive.le
  · rw [min]
    exact hours_minutes.bounds n
  · rw [sec]
    exact minutes_seconds.bounds _
  · rw [millis]
    exact seconds_milliseconds.bounds _
  · rw [micros]
    exact milliseconds_microseconds.bounds _
  · rw [nanos]
    exact microseconds_nanoseconds.bounds _

/-- **Time stamps decompose exactly and keep order**, up to 32768 hours. -/
theorem timestamps_exact (timer timer' : SystemTimer) (now now' : Int) (n n' : Nat)
    (elapsed : now - timer.point = n) (elapsed' : now' - timer'.point = n') (below : n < limit)
    (below' : n' < limit) :
    Decomposes n (timer.getTimestamp now) ∧
      (n < n' ↔ (timer.getTimestamp now).fields < (timer'.getTimestamp now').fields) ∧
      (n = n' ↔ (timer.getTimestamp now).fields = (timer'.getTimestamp now').fields) := by
  have fields := fields_eq timer now (by omega) (by omega)
  have fields' := fields_eq timer' now' (by omega) (by omega)
  rw [elapsed] at fields
  rw [elapsed'] at fields'
  refine ⟨decomposes elapsed below, ?_, ?_⟩
  · rw [fields, fields', inUnits_lt_iff units_positive units_last]
    exact Nat.cast_lt.symm
  · rw [fields, fields']
    constructor
    · rintro rfl
      rfl
    · intro same
      have again := congrArg (ofUnits units) same
      rw [ofUnits_inUnits units_last, ofUnits_inUnits units_last] at again
      exact Int.natCast_inj.mp again

/-- An hour and some of every unit, and the last nanosecond. -/
theorem timestamps_exact_last :
    Decomposes 3723004005006 (SystemTimer.getTimestamp ⟨7⟩ 3723004005013) ∧
      (3723004005006 < 117964799999999999 ↔ (SystemTimer.getTimestamp ⟨7⟩ 3723004005013).fields <
        (SystemTimer.getTimestamp ⟨0⟩ 117964799999999999).fields) ∧
      (3723004005006 = 117964799999999999 ↔ (SystemTimer.getTimestamp ⟨7⟩ 3723004005013).fields =
        (SystemTimer.getTimestamp ⟨0⟩ 117964799999999999).fields) :=
  timestamps_exact ⟨7⟩ ⟨0⟩ 3723004005013 117964799999999999 3723004005006 117964799999999999 rfl rfl
    (by decide) (by decide)

example : SystemTimer.getTimestamp ⟨7⟩ 3723004005013 = ⟨1, 2, 3, 4, 5, 6⟩ := by decide

end DCScan.Timer

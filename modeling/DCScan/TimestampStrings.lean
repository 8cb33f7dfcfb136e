import DCScan.Lib.Quantities
import DCScan.Timestamps

/-!
The texts of time stamps: `Timestamp::to_string`, `getTimestampString` and `getTimestampStringSimple`.

The first is made of the fields, the second of the durations themselves. They leave out what is zero, and
are the same; from them the time can be told to the nanosecond, and from the third to the minute.
-/

namespace DCScan.Timer

open Lib

/-- `std::to_string`. -/
def to_string (v : Int) : List UInt8 :=
  if v < 0 then minus :: decimal v.natAbs else decimal v.natAbs

/-- `add_value` of the texts that leave out what is zero. -/
def addPositive (ts t : List UInt8) (v : Int) : List UInt8 :=
  if 0 < v then ts ++ (to_string v ++ t) else ts

def Timestamp.to_string (ts : Timestamp) : List UInt8 :=
  let text := addPositive [] (ascii "h ") ts.hour.toInt
  let text := addPositive text (ascii "m ") ts.min.toInt
  let text := addPositive text (ascii "s ") ts.sec.toInt
  let text := addPositive text (ascii "ms ") ts.millis.toInt
  let text := addPositive text (ascii "us ") ts.micros.toInt
  addPositive text (ascii "ns") ts.nanos.toInt

def SystemTimer.getTimestampString (timer : SystemTimer) (now : Int) : List UInt8 :=
  let ns : Duration := ⟨nanoseconds, now - timer.point⟩
  let h := duration_cast hours ns
  let m := duration_cast minutes ns
  let s := duration_cast seconds ns
  let ms := duration_cast milliseconds ns
  let us := duration_cast microseconds ns
  let text := addPositive [] (ascii "h ") h.count
  let text := addPositive text (ascii "m ") (m.sub h).count
  let text := addPositive text (ascii "s ") (s.sub m).count
  let text := addPositive text (ascii "ms ") (ms.sub s).count
  let text := addPositive text (ascii "us ") (us.sub ms).count
  addPositive text (ascii "ns") (ns.sub us).count

def SystemTimer.getTimestampStringSimple (timer : SystemTimer) (now : Int) : List UInt8 :=
  let ns : Duration := ⟨nanoseconds, now - timer.point⟩
  let h := duration_cast hours ns
  let m := duration_cast minutes ns
  to_string (h.count.tdiv 24) ++ ascii "d " ++ (to_string (h.count.tmod 24) ++ ascii "h ") ++
    (Timer.to_string (m.sub h).count ++ ascii "m")

/-- The nanoseconds of a unit, by its name. -/
def nanosecondsOf (name : List UInt8) : Nat :=
  if name = ascii "d" then 24 * 3600 * 10 ^ 9
  else if name = ascii "h" then 3600 * 10 ^ 9
  else if name = ascii "m" then 60 * 10 ^ 9
  else if name = ascii "s" then 10 ^ 9
  else if name = ascii "ms" then 10 ^ 6
  else if name = ascii "us" then 10 ^ 3
  else if name = ascii "ns" then 1
  else 0

variable {name text rest : List UInt8} {v : Int} {n : Nat} {timer : SystemTimer} {now : Int}

/-! ## Texts -/

theorem isName_units : IsName (ascii "d") ∧ IsName (ascii "h") ∧ IsName (ascii "m") ∧
    IsName (ascii "s") ∧ IsName (ascii "ms") ∧ IsName (ascii "us") ∧ IsName (ascii "ns") := by
  refine ⟨?_, ?_, ?_, ?_, ?_, ?_, ?_⟩ <;> exact ⟨by decide, by decide⟩

theorem to_string_natCast (n : Nat) : to_string n = decimal n := by
  rw [to_string, if_neg (by omega), Int.natAbs_natCast]

/-- A field in front of others, which is left out when it is zero. -/
def field (name : List UInt8) (n : Nat) : List UInt8 :=
  if 0 < n then quantity name n ++ [blank] else []

/-- The last field. -/
def lastField (name : List UInt8) (n : Nat) : List UInt8 := if 0 < n then quantity name n else []

theorem addPositive_field (text name : List UInt8) (n : Nat) :
    addPositive text (name ++ [blank]) n = text ++ field name n := by
  unfold addPositive field
  split
  · rw [if_pos (by omega), to_string_natCast, quantity, List.append_assoc]
  · rw [if_neg (by omega), List.append_nil]

theorem addPositive_last (text name : List UInt8) (n : Nat) :
    addPositive text name n = text ++ lastField name n := by
  unfold addPositive lastField
  split
  · rw [if_pos (by omega), to_string_natCast, quantity]
  · rw [if_neg (by omega), List.append_nil]

theorem totalOf_field (named : IsName name) (n : Nat) (rest : List UInt8) :
    totalOf nanosecondsOf (field name n ++ rest) =
      n * nanosecondsOf name + totalOf nanosecondsOf rest := by
  unfold field
  split
  · rw [List.append_assoc]
    exact totalOf_quantity_append nanosecondsOf named n rest
  · have zero : n = 0 := by omega
    rw [zero, Nat.zero_mul, Nat.zero_add, List.nil_append]

theorem totalOf_lastField (named : IsName name) (n : Nat) :
    totalOf nanosecondsOf (lastField name n) = n * nanosecondsOf name := by
  unfold lastField
  split
  · exact totalOf_quantity nanosecondsOf named n
  · have zero : n = 0 := by omega
    rw [zero, Nat.zero_mul, totalOf_nil]

/-- The text of so many of each unit. -/
def textOf (h m s ms us ns : Nat) : List UInt8 :=
  field (ascii "h") h ++ (field (ascii "m") m ++ (field (ascii "s") s ++ (field (ascii "ms") ms ++
    (field (ascii "us") us ++ lastField (ascii "ns") ns))))

theorem totalOf_textOf (h m s ms us ns : Nat) : totalOf nanosecondsOf (textOf h m s ms us ns) =
    h * (3600 * 10 ^ 9) + (m * (60 * 10 ^ 9) + (s * 10 ^ 9 + (ms * 10 ^ 6 + (us * 10 ^ 3 + ns)))) := by
  obtain ⟨_, hours, minutes, seconds, millis, micros, nanos⟩ := isName_units
  rw [textOf, totalOf_field hours, totalOf_field minutes, totalOf_field seconds, totalOf_field millis,
    totalOf_field micros, totalOf_lastField nanos]
  have worth : nanosecondsOf (ascii "h") = 3600 * 10 ^ 9 ∧ nanosecondsOf (ascii "m") = 60 * 10 ^ 9 ∧
      nanosecondsOf (ascii "s") = 10 ^ 9 ∧ nanosecondsOf (ascii "ms") = 10 ^ 6 ∧
      nanosecondsOf (ascii "us") = 10 ^ 3 ∧ nanosecondsOf (ascii "ns") = 1 := by decide
  obtain ⟨h_worth, m_worth, s_worth, ms_worth, us_worth, ns_worth⟩ := worth
  rw [h_worth, m_worth, s_worth, ms_worth, us_worth, ns_worth, Nat.mul_one]

/-! ## Counts -/

/-- The counts of the units in so many nanoseconds. -/
structure Counts (n : Nat) (h m s ms us ns : Int) : Prop where
  hour : h = (n / (3600 * 10 ^ 9) : Nat)
  min : m = (n % (3600 * 10 ^ 9) / (60 * 10 ^ 9) : Nat)
  sec : s = (n % (60 * 10 ^ 9) / 10 ^ 9 : Nat)
  millis : ms = (n % 10 ^ 9 / 10 ^ 6 : Nat)
  micros : us = (n % 10 ^ 6 / 10 ^ 3 : Nat)
  nanos : ns = (n % 10 ^ 3 : Nat)

/-- The text whose counts these are. -/
def textFor (n : Nat) : List UInt8 :=
  textOf (n / (3600 * 10 ^ 9)) (n % (3600 * 10 ^ 9) / (60 * 10 ^ 9)) (n % (60 * 10 ^ 9) / 10 ^ 9)
    (n % 10 ^ 9 / 10 ^ 6) (n % 10 ^ 6 / 10 ^ 3) (n % 10 ^ 3)

theorem totalOf_textFor (n : Nat) : totalOf nanosecondsOf (textFor n) = n := by
  rw [textFor, totalOf_textOf]
  omega

/-- What is added value by value is the text. -/
theorem addPositive_counts {h m s ms us ns : Int} (counts : Counts n h m s ms us ns) :
    addPositive (addPositive (addPositive (addPositive (addPositive (addPositive [] (ascii "h ") h)
      (ascii "m ") m) (ascii "s ") s) (ascii "ms ") ms) (ascii "us ") us) (ascii "ns") ns =
        textFor n := by
  obtain ⟨rfl, rfl, rfl, rfl, rfl, rfl⟩ := counts
  have names : ascii "h " = ascii "h" ++ [blank] ∧ ascii "m " = ascii "m" ++ [blank] ∧
      ascii "s " = ascii "s" ++ [blank] ∧ ascii "ms " = ascii "ms" ++ [blank] ∧
      ascii "us " = ascii "us" ++ [blank] := by decide
  obtain ⟨hours, minutes, seconds, millis, micros⟩ := names
  rw [hours, minutes, seconds, millis, micros, addPositive_field, addPositive_field,
    addPositive_field, addPositive_field, addPositive_field, addPositive_last, textFor, textOf]
  simp only [List.nil_append, List.append_assoc]

theorem counts_durations (below : n < limit) :
    let ns : Duration := ⟨nanoseconds, n⟩
    Counts n (duration_cast hours ns).count
      ((duration_cast minutes ns).sub (duration_cast hours ns)).count
      ((duration_cast seconds ns).sub (duration_cast minutes ns)).count
      ((duration_cast milliseconds ns).sub (duration_cast seconds ns)).count
      ((duration_cast microseconds ns).sub (duration_cast milliseconds ns)).count
      (ns.sub (duration_cast microseconds ns)).count := by
  have low : (0 : Int) ≤ n := Int.natCast_nonneg n
  have below : (n : Int) < limit := Int.ofNat_lt.mpr below
  have ticks : duration_cast nanoseconds ⟨nanoseconds, n⟩ = ⟨nanoseconds, n⟩ := by
    rw [roomy_nanoseconds.cast low below, nanoseconds, Int.ediv_one]
  have last := microseconds_nanoseconds.sub low below
  simp only [roomy_hours.cast low below, roomy_minutes.cast low below,
    roomy_seconds.cast low below, roomy_milliseconds.cast low below,
    roomy_microseconds.cast low below]
  rw [show (n : Int) / nanoseconds.nanoseconds = n from Int.ediv_one _] at last
  refine ⟨rfl, ?_, ?_, ?_, ?_, ?_⟩
  · exact hours_minutes.sub low below
  · exact minutes_seconds.sub low below
  · exact seconds_milliseconds.sub low below
  · exact milliseconds_microseconds.sub low below
  · rw [last]
    exact Int.ediv_one _

theorem getTimestampString_eq (elapsed : now - timer.point = n) (below : n < limit) :
    timer.getTimestampString now = textFor n := by
  unfold SystemTimer.getTimestampString
  rw [elapsed]
  exact addPositive_counts (counts_durations below)

/-- The fields have room for the counts. -/
theorem counts_fields (elapsed : now - timer.point = n) (below : n < limit) :
    Counts n (timer.getTimestamp now).hour.toInt (timer.getTimestamp now).min.toInt
      (timer.getTimestamp now).sec.toInt (timer.getTimestamp now).millis.toInt
      (timer.getTimestamp now).micros.toInt (timer.getTimestamp now).nanos.toInt := by
  have fields := fields_eq timer now (by omega) (by omega)
  rw [elapsed] at fields
  simp only [Timestamp.fields, List.map_cons, List.map_nil, units, inUnits, List.cons.injEq,
    and_true] at fields
  obtain ⟨hour, min, sec, millis, micros, nanos⟩ := fields
  simp only [hours, minutes, seconds, milliseconds, microseconds, nanoseconds] at *
  refine ⟨?_, ?_, ?_, ?_, ?_, ?_⟩ <;> omega

/-- Both texts are made of the same counts. -/
theorem to_string_eq (elapsed : now - timer.point = n) (below : n < limit) :
    (timer.getTimestamp now).to_string = textFor n :=
  addPositive_counts (counts_fields elapsed below)

theorem getTimestampStringSimple_eq (elapsed : now - timer.point = n) (below : n < limit) :
    timer.getTimestampStringSimple now =
      quantity (ascii "d") (n / (3600 * 10 ^ 9) / 24) ++ blank ::
        (quantity (ascii "h") (n / (3600 * 10 ^ 9) % 24) ++ blank ::
          quantity (ascii "m") (n % (3600 * 10 ^ 9) / (60 * 10 ^ 9))) := by
  obtain ⟨hour, min, _⟩ := counts_durations below
  have days (k : Nat) : (k : Int).tdiv 24 = (k / 24 : Nat) := (Int.ofNat_tdiv k 24).symm
  have left (k : Nat) : (k : Int).tmod 24 = (k % 24 : Nat) := (Int.ofNat_tmod k 24).symm
  have names : ascii "d " = ascii "d" ++ [blank] ∧ ascii "h " = ascii "h" ++ [blank] := by decide
  unfold SystemTimer.getTimestampStringSimple
  rw [elapsed]
  simp only [hour, min, days, left, names.1, names.2, to_string_natCast, quantity,
    List.append_assoc, List.cons_append, List.nil_append]

/-- **The texts of time stamps** up to 32768 hours: the one made of the fields is the one made of the
durations, and tells the nanoseconds that have passed; the simple one tells the whole minutes. -/
theorem timestamp_strings (timer : SystemTimer) (now : Int) (n : Nat)
    (elapsed : now - timer.point = n) (below : n < limit) :
    (timer.getTimestamp now).to_string = timer.getTimestampString now ∧
      totalOf nanosecondsOf (timer.getTimestampString now) = n ∧
      totalOf nanosecondsOf (timer.getTimestampStringSimple now) = n - n % (60 * 10 ^ 9) := by
  obtain ⟨days, hours, minutes, _⟩ := isName_units
  rw [to_string_eq elapsed below, getTimestampString_eq elapsed below,
    getTimestampStringSimple_eq elapsed below, totalOf_quantity_append nanosecondsOf days,
    totalOf_quantity_append nanosecondsOf hours, totalOf_quantity nanosecondsOf minutes]
  refine ⟨rfl, totalOf_textFor n, ?_⟩
  have worth : nanosecondsOf (ascii "d") = 24 * 3600 * 10 ^ 9 ∧
      nanosecondsOf (ascii "h") = 3600 * 10 ^ 9 ∧ nanosecondsOf (ascii "m") = 60 * 10 ^ 9 := by decide
  obtain ⟨d_worth, h_worth, m_worth⟩ := worth
  rw [d_worth, h_worth, m_worth]
  omega

/-- An hour and some of every unit. -/
theorem timestamp_strings_hour :
    (SystemTimer.getTimestamp ⟨7⟩ 3723004005013).to_string =
        SystemTimer.getTimestampString ⟨7⟩ 3723004005013 ∧
      totalOf nanosecondsOf (SystemTimer.getTimestampString ⟨7⟩ 3723004005013) = 3723004005006 ∧
      totalOf nanosecondsOf (SystemTimer.getTimestampStringSimple ⟨7⟩ 3723004005013) =
        3723004005006 - 3723004005006 % (60 * 10 ^ 9) :=
  timestamp_strings ⟨7⟩ 3723004005013 3723004005006 rfl (by decide)

end DCScan.Timer

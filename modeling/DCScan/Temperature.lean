import DCScan.ControlService
import DCScan.Crc16

/-!
`readTemperatureAddr`: a request to a temperature controller, and what becomes of its reply.

The reply is binary, and is read with the reader for lines of text: up to a line feed, cut at the
first zero, into the buffer that still holds the request. Whether the read has come to anything is
not looked at, nor is the checksum of the reply.
-/

namespace DCScan.Temp

open Lib
open ControlService (Cell ReadFile SerialPort Outcome Serial_read_bytes serialLoop stale terminator
  SERIAL_DEFAULT_READ_BUFFER_SIZE)

/-- `buffer`, before anything is written to it. -/
structure Stack where
  bytes : List UInt8
  size : bytes.length = 256

/-- According to the temperature controller's (JUMO 400) specification. -/
def request (addr : UInt8) : List UInt8 :=
  let buffer := [addr, 0x03, 0x10, 0x26, 0x00, 0x02]
  buffer ++ leBytes 2 (CaculateCRC16 buffer).toNat

/-- The bytes of the `f32` that is returned. -/
def readTemperatureAddr (addr : UInt8) (stack : Stack) (port : SerialPort) : Outcome (List UInt8) :=
  match Serial_read_bytes (stale (blit stack.bytes 0 (request addr))) port with
  | .returned buffer =>
    match buffer[3]?, buffer[4]?, buffer[5]?, buffer[6]? with
    -- MLE -> LE conversion
    | some d0, some d1, some d2, some d3 => .returned [d1.byte, d0.byte, d3.byte, d2.byte]
    | _, _, _, _ => .outside
  | .reading => .reading
  | .outside => .outside

/-! ## The reply -/

structure Reply where
  address : UInt8
  d0 : UInt8
  d1 : UInt8
  d2 : UInt8
  d3 : UInt8
  crc : UInt8 × UInt8
  deriving DecidableEq, Repr

/-- What the checksum is of. -/
def Reply.body (r : Reply) : List UInt8 := [r.address, 0x03, 0x04, r.d0, r.d1, r.d2, r.d3]

def Reply.bytes (r : Reply) : List UInt8 := r.body ++ [r.crc.1, r.crc.2]

/-- Its checksum matches. -/
def Reply.Valid (r : Reply) : Prop := leBytes 2 (CaculateCRC16 r.body).toNat = [r.crc.1, r.crc.2]

instance (r : Reply) : Decidable r.Valid := inferInstanceAs (Decidable (_ = _))

/-- The bytes of its `f32`. -/
def Reply.temperature (r : Reply) : List UInt8 := [r.d1, r.d0, r.d3, r.d2]

/-- The character that has been read. -/
def char? : ReadFile → Option UInt8
  | .char c => some c.byte
  | _ => none

/-- The reply arrives: it is what the line brings first, with or without pauses. -/
def Arrives (r : Reply) : SerialPort → Prop
  | .refused => True
  | .reads results => r.bytes <+: results.filterMap char?

instance (r : Reply) : ∀ port, Decidable (Arrives r port)
  | .refused => inferInstanceAs (Decidable True)
  | .reads _ => inferInstanceAs (Decidable (_ <+: _))

/-- A valid reply is returned, and another is not. -/
def Faithful (addr : UInt8) (stack : Stack) (port : SerialPort) (r : Reply) : Prop :=
  if r.Valid then readTemperatureAddr addr stack port = .returned r.temperature
  else readTemperatureAddr addr stack port ≠ .returned r.temperature

instance (addr : UInt8) (stack : Stack) (port : SerialPort) (r : Reply) :
    Decidable (Faithful addr stack port r) :=
  inferInstanceAs (Decidable (if r.Valid then _ = _ else _ ≠ _))

/-! ## When it survives the read -/

/-- The places of the data. -/
def places : List Nat := [3, 4, 5, 6]

/-- The data happens to be what the request has in its place. -/
def Requested (addr : UInt8) (r : Reply) : Prop :=
  ∀ j ∈ places, r.bytes.getD j 0 = (request addr).getD j 0

instance (addr : UInt8) (r : Reply) : Decidable (Requested addr r) :=
  inferInstanceAs (Decidable (∀ _ ∈ places, _))

/-- Where the text ends that is copied: at the first zero or pause, or at the last character before the
line feed. -/
def textEnd (front : List ReadFile) : Nat :=
  (front.dropLast.takeWhile fun result => result.tempChar.byte ≠ 0).length

/-- Each byte of the data lies in the text, or is its terminator, or happens to be what the request has
in its place. -/
def Copied (addr : UInt8) (r : Reply) (ending : Nat) : Prop :=
  ∀ j ∈ places, j < ending ∨
    r.bytes.getD j 0 = if j = ending then 0 else (request addr).getD j 0

instance (addr : UInt8) (r : Reply) (ending : Nat) : Decidable (Copied addr r ending) :=
  inferInstanceAs (Decidable (∀ _ ∈ places, _ ∨ _))

/-- The results that the reader takes before the one that ends its loop, and that one with the rest. -/
def SurvivesLine (addr : UInt8) (r : Reply) (front : List ReadFile) : List ReadFile → Prop
  | [] => False
  | last :: _ =>
    if last ≠ .failed ∧ front.length < SERIAL_DEFAULT_READ_BUFFER_SIZE then
      front ≠ [] ∧ Copied addr r (textEnd front)
    else Requested addr r

instance (addr : UInt8) (r : Reply) (front : List ReadFile) :
    ∀ behind, Decidable (SurvivesLine addr r front behind)
  | [] => inferInstanceAs (Decidable False)
  | last :: _ => inferInstanceAs (Decidable
      (if last ≠ .failed ∧ front.length < SERIAL_DEFAULT_READ_BUFFER_SIZE then
        front ≠ [] ∧ Copied addr r (textEnd front)
      else Requested addr r))

def Survives (addr : UInt8) (r : Reply) : SerialPort → Prop
  | .refused => Requested addr r
  | .reads results => SurvivesLine addr r (results.takeWhile fun result => ¬ result.ends)
      (results.dropWhile fun result => ¬ result.ends)

instance (addr : UInt8) (r : Reply) : ∀ port, Decidable (Survives addr r port)
  | .refused => inferInstanceAs (Decidable (Requested addr r))
  | .reads _ => inferInstanceAs (Decidable (SurvivesLine addr r _ _))

variable {addr : UInt8} {stack : Stack} {r : Reply} {port : SerialPort} {buffer : List Cell}
variable {results front before rest : List ReadFile} {last char : ReadFile}
variable {held : Nat → UInt8} {j : Nat}

/-! ## The bytes that are decoded -/

theorem request_length (addr : UInt8) : (request addr).length = 8 := rfl

theorem Reply.bytes_length (r : Reply) : r.bytes.length = 9 := rfl

theorem places_lt (place : j ∈ places) : j < 7 := by
  simp only [places, List.mem_cons, List.not_mem_nil, or_false] at place
  omega

/-- What the request has left in the buffer. -/
theorem requested_byte (addr : UInt8) (stack : Stack) (place : j ∈ places) :
    ((stale (blit stack.bytes 0 (request addr)))[j]?).map Cell.byte =
      some ((request addr).getD j 0) := by
  have inside : j < (request addr).length := (places_lt place).trans (by rw [request_length]; decide)
  rw [stale, List.getElem?_map, Option.map_map, blit, List.take_zero, List.nil_append,
    List.getElem?_append_left inside, List.getD_eq_getElem?_getD, List.getElem?_eq_getElem inside]
  rfl

/-- The reply is returned when its data is in the buffer. -/
theorem returned_iff (read : Serial_read_bytes (stale (blit stack.bytes 0 (request addr))) port =
      .returned buffer) (bytes : ∀ j ∈ places, (buffer[j]?).map Cell.byte = some (held j)) :
    readTemperatureAddr addr stack port = .returned r.temperature ↔
      ∀ j ∈ places, held j = r.bytes.getD j 0 := by
  obtain ⟨c0, at0, d0⟩ := Option.map_eq_some_iff.mp (bytes 3 (by decide))
  obtain ⟨c1, at1, d1⟩ := Option.map_eq_some_iff.mp (bytes 4 (by decide))
  obtain ⟨c2, at2, d2⟩ := Option.map_eq_some_iff.mp (bytes 5 (by decide))
  obtain ⟨c3, at3, d3⟩ := Option.map_eq_some_iff.mp (bytes 6 (by decide))
  simp only [readTemperatureAddr, read, at0, at1, at2, at3, d0, d1, d2, d3, Outcome.returned.injEq,
    Reply.temperature, List.cons.injEq, and_true, places, List.forall_mem_cons,
    List.not_mem_nil, false_implies, implies_true]
  change _ ↔ held 3 = r.d0 ∧ held 4 = r.d1 ∧ held 5 = r.d2 ∧ held 6 = r.d3
  tauto

/-- A read that fails leaves the request. -/
theorem requested_iff (read : Serial_read_bytes (stale (blit stack.bytes 0 (request addr))) port =
      .returned (stale (blit stack.bytes 0 (request addr)))) :
    readTemperatureAddr addr stack port = .returned r.temperature ↔ Requested addr r := by
  rw [returned_iff read fun j => requested_byte addr stack]
  simp only [Requested, eq_comm]

/-! ## The line -/

/-- What the text is of. -/
def spelled (before : List ReadFile) : List ReadFile :=
  before.takeWhile fun result => result.tempChar.byte ≠ 0

theorem text_spelled (before : List ReadFile) :
    ControlService.text (before.map ReadFile.tempChar) = (spelled before).map ReadFile.tempChar := by
  rw [ControlService.text, List.takeWhile_map]
  rfl

/-- Only characters are spelled. -/
theorem spelled_chars (before : List ReadFile) :
    (spelled before).filterMap char? = (spelled before).map fun result => result.tempChar.byte := by
  rw [← List.filterMap_eq_map]
  refine List.filterMap_congr fun result member => ?_
  have spoken : result.tempChar.byte ≠ 0 := by
    simpa using List.mem_takeWhile_imp member
  cases result with
  | char c => rfl
  | failed => exact absurd rfl spoken
  | timeout => exact absurd rfl spoken

/-- The text begins as the reply does. -/
theorem spelled_byte (arrives : r.bytes <+: results.filterMap char?) (first : before <+: results)
    (place : j ∈ places) (inside : j < (spelled before).length) :
    ((spelled before).map fun result => result.tempChar.byte)[j]? = some (r.bytes.getD j 0) := by
  have short : j < r.bytes.length := (places_lt place).trans (by rw [Reply.bytes_length]; decide)
  have spoken : ((spelled before).map fun result => result.tempChar.byte) <+:
      results.filterMap char? :=
    spelled_chars before ▸ ((List.takeWhile_prefix _).trans first).filterMap char?
  have sent : r.bytes[j]? = some r.bytes[j] := List.getElem?_eq_getElem short
  rw [List.getD_eq_getElem?_getD, sent, Option.getD_some,
    List.prefix_iff_getElem?.mp arrives j short |>.symm]
  have long : j < ((spelled before).map fun result => result.tempChar.byte).length := by
    rwa [List.length_map]
  rw [List.getElem?_eq_getElem long, List.prefix_iff_getElem?.mp spoken j long]

/-- What the buffer holds after a line: the text, its terminator, and the rest of the request. -/
theorem line_byte (arrives : r.bytes <+: results.filterMap char?) (first : before <+: results)
    (place : j ∈ places) :
    ((blit (stale (blit stack.bytes 0 (request addr))) 0
        (ControlService.text (before.map ReadFile.tempChar) ++ [terminator]))[j]?).map Cell.byte =
      some (if j < (spelled before).length then r.bytes.getD j 0
        else if j = (spelled before).length then 0 else (request addr).getD j 0) := by
  rw [blit, List.take_zero, List.nil_append, text_spelled, Nat.zero_add]
  have length : ((spelled before).map ReadFile.tempChar).length = (spelled before).length :=
    List.length_map _
  by_cases inside : j < (spelled before).length
  · have same := spelled_byte arrives first place inside
    rw [if_pos inside, ← same, List.append_assoc, List.getElem?_append_left (length ▸ inside),
      ← List.getElem?_map, List.map_map]
    rfl
  · rw [if_neg inside]
    by_cases ending : j = (spelled before).length
    · rw [if_pos ending, List.append_assoc, List.getElem?_append_right (by omega), length, ending,
        Nat.sub_self]
      rfl
    · have behind : (spelled before).length + 1 ≤ j := by omega
      rw [if_neg ending, ← requested_byte addr stack place,
        List.getElem?_append_right (by simp only [List.length_append, length]; exact behind),
        List.getElem?_drop]
      simp only [List.length_append, List.length_singleton, length]
      rw [Nat.add_sub_cancel' behind]

/-- A line returns the reply when its data is copied, or was there. -/
theorem line_iff (addr : UInt8) (stack : Stack) (arrives : r.bytes <+: results.filterMap char?) (first : before <+: results)
    (short : before.length < 255) (read : Serial_read_bytes
      (stale (blit stack.bytes 0 (request addr))) (.reads results) =
        ControlService.copy (stale (blit stack.bytes 0 (request addr)))
          (ControlService.text (before.map ReadFile.tempChar) ++ [terminator])) :
    readTemperatureAddr addr stack (.reads results) = .returned r.temperature ↔
      Copied addr r (spelled before).length := by
  have whole : (stale (blit stack.bytes 0 (request addr))).length = 256 := by
    rw [stale, List.length_map, blit_length (by rw [request_length, stack.size]; decide), stack.size]
  have brief : (spelled before).length ≤ before.length := (List.takeWhile_prefix _).length_le
  have fits : (0 : Int) ≤ 0 ∧ (0 : Int) + (ControlService.text (before.map ReadFile.tempChar) ++
      [terminator]).length ≤ (stale (blit stack.bytes 0 (request addr))).length := by
    rw [whole, text_spelled, List.length_append, List.length_map, List.length_singleton]
    omega
  rw [ControlService.copy, store, if_pos fits] at read
  rw [returned_iff read fun j place => line_byte arrives first place]
  refine forall₂_congr fun j place => ?_
  split
  · rename_i inside
    simp [inside]
  · rename_i outside
    simp only [outside, false_or, eq_comm]

/-- **A reply is returned** exactly when it survives the read. -/
theorem returned_iff_survives (addr : UInt8) (stack : Stack) (arrives : Arrives r port) :
    readTemperatureAddr addr stack port = .returned r.temperature ↔ Survives addr r port := by
  cases port with
  | refused => exact requested_iff rfl
  | reads results =>
    have parts := List.takeWhile_append_dropWhile (p := fun x : ReadFile => ¬ x.ends) (l := results)
    have goes_on : ∀ result ∈ results.takeWhile (fun x => ¬ x.ends), ¬ result.ends :=
      fun result member => by simpa using List.mem_takeWhile_imp member
    have ended := List.head?_dropWhile_not (fun x : ReadFile => ¬ x.ends) results
    rw [Survives]
    generalize results.takeWhile (fun x => ¬ x.ends) = front at parts goes_on ⊢
    generalize results.dropWhile (fun x => ¬ x.ends) = behind at parts ended ⊢
    cases behind with
    | nil =>
      rw [List.append_nil] at parts
      have read : readTemperatureAddr addr stack (.reads results) = .reading := by
        simp only [readTemperatureAddr, Serial_read_bytes,
          ControlService.serialLoop_reading (parts ▸ goes_on)]
      rw [read]
      exact iff_of_false (fun returned => by cases returned) id
    | cons last rest =>
      have ends : last.ends := by simpa using ended
      have loop : serialLoop [] results = _ :=
        parts ▸ ControlService.serialLoop_ended goes_on ends (Nat.zero_le _)
      rw [List.length_nil, Nat.zero_add, List.nil_append] at loop
      show _ ↔ if last ≠ .failed ∧ _ then _ else _
      by_cases met : last ≠ .failed ∧ front.length < SERIAL_DEFAULT_READ_BUFFER_SIZE
      · rw [if_pos met]
        rw [if_pos met] at loop
        rcases front.eq_nil_or_concat' with rfl | ⟨before, char, rfl⟩
        · have read : readTemperatureAddr addr stack (.reads results) = .outside := by
            simp only [readTemperatureAddr, Serial_read_bytes, loop]
            rfl
          rw [read]
          exact iff_of_false (fun returned => by cases returned) fun both => both.1 rfl
        · have long := met.2
          rw [List.length_append, List.length_singleton, SERIAL_DEFAULT_READ_BUFFER_SIZE] at long
          have read := line_iff addr stack arrives
            ⟨[char] ++ last :: rest, by rw [← List.append_assoc, parts]⟩ (by omega)
            (by rw [Serial_read_bytes, loop]; simp)
          rw [read, textEnd, List.dropLast_concat]
          simp [spelled]
      · rw [if_neg met]
        rw [if_neg met] at loop
        exact requested_iff (by rw [Serial_read_bytes, loop])

/-- **A valid reply is returned, and no other**, if and only if the valid ones, and no others,
survive the read. -/
theorem faithful_iff (addr : UInt8) (stack : Stack) (port : SerialPort) (r : Reply)
    (arrives : Arrives r port) : Faithful addr stack port r ↔ (r.Valid ↔ Survives addr r port) := by
  rw [← returned_iff_survives addr stack arrives, Faithful]
  split
  · rename_i valid
    simp only [valid, true_iff]
  · rename_i other
    simp only [other, false_iff, ne_eq]

/-! ## Three replies -/

def zeros : Stack := ⟨List.replicate 256 0, List.length_replicate⟩

/-- What the line brings when a line feed follows. -/
def ended (r : Reply) : SerialPort :=
  .reads ((r.bytes ++ [ControlService.lineFeed]).map fun byte => .char ⟨byte, true⟩)

/-- A temperature without a zero among its bytes. -/
def warm : Reply := ⟨1, 0xF5, 0xC3, 0x41, 0xBA, (0x88, 0x20)⟩

/-- 20.5 degrees. -/
def mild : Reply := ⟨1, 0x00, 0x00, 0x41, 0xA4, (0xCB, 0xD8)⟩

/-- The checksum is not that of the reply. -/
def garbled : Reply := { warm with crc := (0, 0) }

theorem faithful_warm : Faithful 1 zeros (ended warm) warm :=
  (faithful_iff 1 zeros (ended warm) warm (by decide +kernel)).mpr (by decide +kernel)

/-- A valid reply is not returned, even when a line feed follows, and a garbled one is. -/
theorem mild_lost_garbled_returned :
    (Arrives mild (ended mild) ∧ ¬ Faithful 1 zeros (ended mild) mild) ∧
      Arrives garbled (ended garbled) ∧ ¬ Faithful 1 zeros (ended garbled) garbled := by
  decide +kernel

end DCScan.Temp

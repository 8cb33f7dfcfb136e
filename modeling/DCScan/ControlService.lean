import Mathlib.Data.List.TakeWhile
import DCScan.Lib.Bytes
import DCScan.CmdBuffer

/-!
The loop of the control service: the commands it takes, the three controllers' reads, and what it
passes to `cmd_buffer.reply`.

All reads share one response buffer, and none of their results is looked at. A read that fails leaves
in the buffer what it held before. What a read delivers is the device's to say; each byte that
arrives says whether it is of the response to the command in hand.
-/

namespace DCScan.ControlService

open Lib

/-- A byte in memory. -/
structure Cell where
  byte : UInt8
  /-- It has come in the response to the command in hand. -/
  own : Bool
  deriving DecidableEq, Repr

/-- The byte that the service writes itself. -/
def terminator : Cell := ⟨0, false⟩

def lineFeed : UInt8 := 10

/-- What is in memory when a command is taken is of no response to it. -/
def stale (bytes : List UInt8) : List Cell := bytes.map fun byte => ⟨byte, false⟩

/-- A response of the device to the command in hand. -/
def fresh (bytes : List UInt8) : List Cell := bytes.map fun byte => ⟨byte, true⟩

/-- The cells in front of the first zero. -/
def text (cells : List Cell) : List Cell := cells.takeWhile fun c => c.byte ≠ 0

/-! ## The reads -/

/-- What a `ReadFile` of one character does. -/
inductive ReadFile where
  | failed
  /-- It succeeds, and reads nothing. -/
  | timeout
  | char (c : Cell)
  deriving DecidableEq, Repr

/-- `tempChar` after it. -/
def ReadFile.tempChar : ReadFile → Cell
  | char c => c
  | _ => terminator

inductive SerialPort where
  /-- The handle is invalid, or `SetCommMask` or `WaitCommEvent` fails. -/
  | refused
  | reads (results : List ReadFile)
  deriving DecidableEq, Repr

/-- The loop of `Serial::read_bytes`. -/
inductive SerialLoop where
  /-- Still in the loop. -/
  | reading
  | failed
  | line (localSerialBuffer : List Cell)
  deriving DecidableEq, Repr

def SERIAL_DEFAULT_READ_BUFFER_SIZE : Nat := 256

/-- `while (TRUE)`, and the two tests behind it. -/
def serialLoop (localSerialBuffer : List Cell) : List ReadFile → SerialLoop
  | [] => .reading
  | .failed :: _ => .failed
  | result :: results =>
    if localSerialBuffer.length = SERIAL_DEFAULT_READ_BUFFER_SIZE then
      -- an excess character
      if result.tempChar.byte = lineFeed then .failed else serialLoop localSerialBuffer results
    else if result.tempChar.byte = lineFeed then .line (localSerialBuffer ++ [result.tempChar])
    else serialLoop (localSerialBuffer ++ [result.tempChar]) results

/-- What a read does to the response buffer. -/
inductive Outcome (α : Type) where
  | returned (x : α)
  /-- The read does not return. -/
  | reading
  /-- Memory outside an array is written or read. -/
  | outside
  deriving DecidableEq, Repr

/-- Copies to the front of the buffer. -/
def copy (buffer data : List Cell) : Outcome (List Cell) :=
  match store buffer 0 data with
  | some filled => .returned filled
  | none => .outside

def Serial_read_bytes (buffer : List Cell) : SerialPort → Outcome (List Cell)
  | .refused => .returned buffer
  | .reads results =>
    match serialLoop [] results with
    | .reading => .reading
    | .failed => .returned buffer
    | .line localSerialBuffer =>
      -- `last` is the place in front of the line feed, -1 when there is none
      if localSerialBuffer.length < 2 then .outside
      else
        let line := text (localSerialBuffer.take (localSerialBuffer.length - 2))
        copy buffer (line ++ [terminator])

/-- What a call with a buffer of this size may deliver. -/
structure Received (size : Nat) where
  cells : List Cell
  fits : cells.length ≤ size
  deriving DecidableEq

/-- Nothing is received when the transfer fails. -/
def read_bulk_bytes (buffer : List Cell) (received : Received 256) : Outcome (List Cell) :=
  if received.cells = [] then .returned buffer
  else copy buffer (received.cells.dropLast ++ [terminator])

/-- `recv_sz` is -1 for `none`, and 0 when the peer has closed the connection. -/
def receiveResponse (buffer : List Cell) : Option (Received 255) → Outcome (List Cell)
  | none => .outside
  | some received => copy buffer (received.cells ++ [terminator])

/-! ## The loop -/

/-- What the devices do when they are read for a command. -/
structure Devices where
  esp301 : SerialPort
  pmc8742 : Received 256
  xps_rld4 : Option (Received 255)
  deriving DecidableEq

/-- A command that the loop takes, and its device's complete response to it. -/
structure Taken where
  cmd : Command
  devices : Devices
  complete : List UInt8
  deriving DecidableEq

/-- The read of a controller. -/
def readResponse (devices : Devices) (response : List Cell) : UnitTarget → Outcome (List Cell)
  | .ESP301 => Serial_read_bytes response devices.esp301
  | .PMC8742 => read_bulk_bytes response devices.pmc8742
  | .XPSRLD4 => receiveResponse response devices.xps_rld4

/-- `cmd_buffer.reply(response)`: the string ends at the first zero. -/
def reply (response : List Cell) : Outcome (List Cell × List Cell) :=
  if ∃ c ∈ response, c.byte = 0 then .returned (response, text response) else .outside

/-- The controller whose response is read. -/
def Taken.controller (x : Taken) : Option UnitTarget :=
  if x.cmd.full_cmd.length = 0 ∨ x.cmd.wait_response = false then none
  else UnitTarget.ofCode x.cmd.target

/-- One round of the loop over a response buffer: the buffer, and the reply if there is one. -/
def serve (response : List UInt8) (x : Taken) : Outcome (List UInt8 × Option (List Cell)) :=
  match x.controller with
  | none => .returned (response, none)
  | some target =>
    match readResponse x.devices (stale response) target with
    | .reading => .reading
    | .outside => .outside
    | .returned filled =>
      match reply filled with
      | .returned (cells, replied) => .returned (cells.map Cell.byte, some replied)
      | _ => .outside

/-- The buffer after the commands, as long as every read has returned and none has left its array. -/
def runLoop (response : List UInt8) (xs : List Taken) : Option (List UInt8) :=
  xs.foldlM (fun response x => match serve response x with
    | .returned (response, _) => some response
    | _ => none) response

/-- A reply is the whole response to its command, or the empty string. -/
def Answered (x : Taken) : Outcome (List UInt8 × Option (List Cell)) → Prop
  | .returned (_, some replied) => replied = fresh x.complete ∨ replied = []
  | .returned (_, none) => True
  | .reading => True
  | .outside => False

/-- Every command of the loop is answered. -/
def AllAnswered (response : List UInt8) (xs : List Taken) : Prop :=
  ∀ before x, before ++ [x] <+: xs → ∀ current, runLoop response before = some current →
    Answered x (serve current x)

/-! ## When a command is answered -/

/-- The characters are the whole response, or a zero comes first. -/
def Whole (cells : List Cell) (complete : List UInt8) : Prop :=
  text cells = fresh complete ∨ text cells = []

/-- A result that ends the loop. -/
def ReadFile.ends (result : ReadFile) : Prop := result = failed ∨ result.tempChar.byte = lineFeed

instance (result : ReadFile) : Decidable result.ends :=
  inferInstanceAs (Decidable (_ ∨ _))

/-- The line ends among the first 256 characters, not with the first, and the characters in front
of its last two are the whole response. A read that ends otherwise finds the buffer empty. -/
def LineMet (blank : Prop) (complete : List UInt8) (front : List ReadFile) : List ReadFile → Prop
  | [] => True
  | last :: _ =>
    if last ≠ .failed ∧ front.length < SERIAL_DEFAULT_READ_BUFFER_SIZE then
      front ≠ [] ∧ Whole (front.dropLast.map ReadFile.tempChar) complete
    else blank

def SerialPort.Met (blank : Prop) (complete : List UInt8) : SerialPort → Prop
  | .refused => blank
  | .reads results => LineMet blank complete (results.takeWhile fun result => ¬ result.ends)
      (results.dropWhile fun result => ¬ result.ends)

/-- What a device has to do for its command to be answered. -/
def Met (response : List UInt8) (x : Taken) : Prop :=
  match x.controller with
  | none => True
  | some .ESP301 => x.devices.esp301.Met (response.head? = some 0) x.complete
  | some .PMC8742 =>
    if x.devices.pmc8742.cells = [] then response.head? = some 0
    else Whole x.devices.pmc8742.cells.dropLast x.complete
  | some .XPSRLD4 => ∃ received, x.devices.xps_rld4 = some received ∧
      Whole received.cells x.complete

def AllMet (response : List UInt8) (xs : List Taken) : Prop :=
  ∀ before x, before ++ [x] <+: xs → ∀ current, runLoop response before = some current →
    Met current x

/-! ## One command -/

section

variable {response : List UInt8} {cells data : List Cell} {complete : List UInt8}
variable {results front rest : List ReadFile} {last : ReadFile} {x : Taken}

theorem text_terminated (cells behind : List Cell) :
    text (cells ++ terminator :: behind) = text cells := by
  induction cells with
  | nil => rfl
  | cons c cells ih =>
    by_cases zero : c.byte = 0
    · simp [text, zero]
    · rw [text, List.cons_append, List.takeWhile_cons_of_pos (by simpa using zero)]
      rw [text, List.takeWhile_cons_of_pos (by simpa using zero)]
      exact congrArg (c :: ·) ih

theorem text_idem : text (text cells) = text cells := List.takeWhile_idem

/-- Without a character that ends it the loop goes on. -/
theorem serialLoop_reading (goes_on : ∀ result ∈ results, ¬ result.ends) :
    serialLoop cells results = .reading := by
  induction results generalizing cells with
  | nil => rfl
  | cons result results ih =>
    have tail {cells : List Cell} : serialLoop cells results = .reading :=
      ih fun other member => goes_on other (List.mem_cons_of_mem result member)
    have here := goes_on result List.mem_cons_self
    unfold ReadFile.ends at here
    cases result with
    | failed => exact absurd (Or.inl rfl) here
    | timeout => simp [serialLoop, tail, ReadFile.tempChar, terminator, lineFeed]
    | char c =>
      have other : c.byte ≠ lineFeed := fun feed => here (Or.inr feed)
      simp [serialLoop, tail, ReadFile.tempChar, other]

/-- The loop ends with the first line feed, or fails. -/
theorem serialLoop_ended (goes_on : ∀ result ∈ front, ¬ result.ends) (ends : last.ends)
    (inside : cells.length ≤ SERIAL_DEFAULT_READ_BUFFER_SIZE) :
    serialLoop cells (front ++ last :: rest) =
      if last ≠ .failed ∧ cells.length + front.length < SERIAL_DEFAULT_READ_BUFFER_SIZE then
        .line (cells ++ front.map ReadFile.tempChar ++ [last.tempChar])
      else .failed := by
  induction front generalizing cells with
  | nil =>
    rcases ends with rfl | feed
    · simp [serialLoop]
    · have sent : last ≠ .failed := by
        rintro rfl
        exact absurd feed (by decide)
      rcases Nat.lt_or_eq_of_le inside with room | full
      · cases last <;> simp_all [serialLoop, Nat.ne_of_lt]
      · cases last <;> simp_all [serialLoop]
  | cons result front ih =>
    have here := goes_on result List.mem_cons_self
    have goes_on : ∀ result ∈ front, ¬ result.ends := fun other member =>
      goes_on other (List.mem_cons_of_mem result member)
    have sent : result ≠ .failed := fun failed => here (Or.inl failed)
    have other : result.tempChar.byte ≠ lineFeed := fun feed => here (Or.inr feed)
    have one : serialLoop cells (result :: (front ++ last :: rest)) =
        if cells.length = SERIAL_DEFAULT_READ_BUFFER_SIZE then
          serialLoop cells (front ++ last :: rest)
        else serialLoop (cells ++ [result.tempChar]) (front ++ last :: rest) := by
      cases result <;> simp_all [serialLoop]
    rw [List.cons_append, one]
    split
    · rename_i full
      rw [ih goes_on inside]
      simp [full]
    · rename_i room
      rw [ih goes_on (by rw [List.length_append, List.length_singleton]; omega)]
      simp [Nat.add_assoc, Nat.add_comm 1]

/-- What is copied is replied up to its first zero. -/
theorem serve_copied {target : UnitTarget} (chosen : x.controller = some target)
    (size : response.length = 256) (fits : cells.length < 256)
    (read : readResponse x.devices (stale response) target =
      copy (stale response) (cells ++ [terminator])) :
    ∃ next, next.length = 256 ∧ serve response x = .returned (next, some (text cells)) := by
  have length : (stale response).length = 256 := by rw [stale, List.length_map, size]
  have inside : 0 + (cells ++ [terminator]).length ≤ (stale response).length := by
    rw [length, List.length_append, List.length_singleton]
    omega
  have copied : copy (stale response) (cells ++ [terminator]) =
      .returned (blit (stale response) 0 (cells ++ [terminator])) := by
    unfold copy store
    rw [if_pos ⟨Int.le_refl 0, by omega⟩]
    rfl
  have filled : blit (stale response) 0 (cells ++ [terminator]) =
      cells ++ terminator :: (stale response).drop (0 + (cells ++ [terminator]).length) := by
    simp [blit]
  have replied : reply (blit (stale response) 0 (cells ++ [terminator])) =
      .returned (blit (stale response) 0 (cells ++ [terminator]), text cells) := by
    rw [reply, if_pos ⟨terminator, by simp [filled], rfl⟩]
    rw [filled, text_terminated]
  refine ⟨(blit (stale response) 0 (cells ++ [terminator])).map Cell.byte, ?_, ?_⟩
  · rw [List.length_map, blit_length inside, length]
  · rw [serve, chosen]
    simp only [read, copied, replied]

/-- A read that fails leaves the buffer, and what is replied is not of this command. -/
theorem serve_untouched {target : UnitTarget} (chosen : x.controller = some target)
    (read : readResponse x.devices (stale response) target = .returned (stale response)) :
    Answered x (serve response x) ↔ response.head? = some 0 := by
  have served : serve response x = match reply (stale response) with
      | .returned (cells, replied) => .returned (cells.map Cell.byte, some replied)
      | _ => .outside := by
    rw [serve, chosen]
    simp only [read]
  rw [served, reply]
  cases response with
  | nil => simp [stale, Answered]
  | cons byte rest =>
    by_cases zero : byte = 0
    · have first : text (stale (byte :: rest)) = [] := by simp [text, stale, zero]
      have there : ∃ c ∈ stale (byte :: rest), c.byte = 0 :=
        ⟨⟨byte, false⟩, by simp [stale], zero⟩
      rw [if_pos there, first]
      simp [Answered, zero]
    · have first : text (stale (byte :: rest)) = ⟨byte, false⟩ :: text (stale rest) := by
        simp [text, stale, zero]
      have foreign : ⟨byte, false⟩ :: text (stale rest) ≠ fresh x.complete := by
        intro same
        cases complete : x.complete with
        | nil => simp [fresh, complete] at same
        | cons own more => simp [fresh, complete] at same
      rw [first]
      by_cases there : ∃ c ∈ stale (byte :: rest), c.byte = 0
      · rw [if_pos there]
        simp [Answered, foreign, zero]
      · rw [if_neg there]
        simp [Answered, zero]

/-- A serial read is answered by a whole line, in time. -/
theorem esp301_answered_iff (chosen : x.controller = some .ESP301)
    (size : response.length = 256) :
    Answered x (serve response x) ↔
      x.devices.esp301.Met (response.head? = some 0) x.complete := by
  cases port : x.devices.esp301 with
  | refused =>
    have read : readResponse x.devices (stale response) .ESP301 = .returned (stale response) := by
      rw [readResponse, port, Serial_read_bytes]
    exact serve_untouched chosen read
  | reads results =>
    have read : readResponse x.devices (stale response) .ESP301 =
        Serial_read_bytes (stale response) (.reads results) := by rw [readResponse, port]
    have parts := List.takeWhile_append_dropWhile (p := fun r : ReadFile => ¬ r.ends) (l := results)
    have goes_on : ∀ result ∈ results.takeWhile (fun r => ¬ r.ends), ¬ result.ends :=
      fun result member => by simpa using List.mem_takeWhile_imp member
    have ended := List.head?_dropWhile_not (fun r : ReadFile => ¬ r.ends) results
    rw [SerialPort.Met]
    generalize results.takeWhile (fun r => ¬ r.ends) = front at parts goes_on ⊢
    generalize results.dropWhile (fun r => ¬ r.ends) = behind at parts ended ⊢
    cases behind with
    | nil =>
      rw [List.append_nil] at parts
      have served : serve response x = .reading := by
        rw [serve, chosen]
        simp only [read, Serial_read_bytes, serialLoop_reading (parts ▸ goes_on)]
      rw [served]
      exact ⟨fun _ => trivial, fun _ => trivial⟩
    | cons last rest =>
      have ends : last.ends := by simpa using ended
      have loop : serialLoop [] results = _ :=
        parts ▸ serialLoop_ended goes_on ends (Nat.zero_le _)
      rw [List.length_nil, Nat.zero_add, List.nil_append] at loop
      show Answered x (serve response x) ↔ if last ≠ .failed ∧ _ then _ else _
      by_cases met : last ≠ .failed ∧ front.length < SERIAL_DEFAULT_READ_BUFFER_SIZE
      · rw [if_pos met]
        rw [if_pos met] at loop
        have long := met.2
        rw [SERIAL_DEFAULT_READ_BUFFER_SIZE] at long
        rcases front.eq_nil_or_concat' with rfl | ⟨before, char, rfl⟩
        · have served : serve response x = .outside := by
            rw [serve, chosen]
            simp only [read, Serial_read_bytes, loop]
            rfl
          rw [served]
          exact ⟨False.elim, fun both => both.1 rfl⟩
        · have copied : readResponse x.devices (stale response) .ESP301 =
              copy (stale response) (text (before.map ReadFile.tempChar) ++ [terminator]) := by
            rw [read, Serial_read_bytes, loop]
            simp
          have short : (text (before.map ReadFile.tempChar)).length < 256 := by
            have le := (List.takeWhile_prefix (l := before.map ReadFile.tempChar)
              fun c => c.byte ≠ 0).length_le
            rw [List.length_map] at le
            rw [List.length_append, List.length_singleton] at long
            exact Nat.lt_of_le_of_lt le (by omega)
          obtain ⟨next, _, served⟩ := serve_copied chosen size short copied
          rw [served, text_idem, List.dropLast_concat]
          simp [Answered, Whole]
      · rw [if_neg met]
        rw [if_neg met] at loop
        have kept : readResponse x.devices (stale response) .ESP301 =
            .returned (stale response) := by
          rw [read, Serial_read_bytes, loop]
        exact serve_untouched chosen kept

theorem pmc8742_answered_iff (chosen : x.controller = some .PMC8742)
    (size : response.length = 256) :
    Answered x (serve response x) ↔
      if x.devices.pmc8742.cells = [] then response.head? = some 0
      else Whole x.devices.pmc8742.cells.dropLast x.complete := by
  have read : readResponse x.devices (stale response) .PMC8742 =
      read_bulk_bytes (stale response) x.devices.pmc8742 := rfl
  unfold read_bulk_bytes at read
  split
  · rename_i nothing
    rw [if_pos nothing] at read
    exact serve_untouched chosen read
  · rename_i something
    rw [if_neg something] at read
    have fits := x.devices.pmc8742.fits
    have some_there := List.length_pos_iff.mpr something
    obtain ⟨next, _, served⟩ := serve_copied chosen size
      (by rw [List.length_dropLast]; omega) read
    rw [served]
    exact Iff.rfl

theorem xps_rld4_answered_iff (chosen : x.controller = some .XPSRLD4)
    (size : response.length = 256) :
    Answered x (serve response x) ↔ ∃ received, x.devices.xps_rld4 = some received ∧
      Whole received.cells x.complete := by
  have read : readResponse x.devices (stale response) .XPSRLD4 =
      receiveResponse (stale response) x.devices.xps_rld4 := rfl
  cases arrived : x.devices.xps_rld4 with
  | none =>
    rw [arrived] at read
    have served : serve response x = .outside := by
      rw [serve, chosen]
      simp only [read, receiveResponse]
    rw [served]
    exact ⟨False.elim, by rintro ⟨_, ⟨⟩, _⟩⟩
  | some received =>
    rw [arrived] at read
    obtain ⟨next, _, served⟩ := serve_copied chosen size
      (Nat.lt_of_le_of_lt received.fits (by decide)) read
    rw [served]
    constructor
    · exact fun whole => ⟨received, rfl, whole⟩
    · rintro ⟨_, ⟨⟩, whole⟩
      exact whole

/-- A command is answered exactly when its device meets the condition. -/
theorem answered_iff (size : response.length = 256) :
    Answered x (serve response x) ↔ Met response x := by
  unfold Met
  cases chosen : x.controller with
  | none =>
    have served : serve response x = .returned (response, none) := by rw [serve, chosen]
    rw [served]
    exact Iff.rfl
  | some target =>
    cases target with
    | ESP301 => exact esp301_answered_iff chosen size
    | PMC8742 => exact pmc8742_answered_iff chosen size
    | XPSRLD4 => exact xps_rld4_answered_iff chosen size

/-! ## The loop -/

theorem copy_length {buffer filled : List Cell} (copied : copy buffer data = .returned filled) :
    filled.length = buffer.length := by
  unfold copy store at copied
  by_cases inside : (0 : Int) ≤ 0 ∧ (0 : Int) + data.length ≤ buffer.length
  · rw [if_pos inside] at copied
    cases copied
    exact blit_length (by simp only [Int.toNat_zero]; omega)
  · rw [if_neg inside] at copied
    cases copied

theorem readResponse_length {devices : Devices} {buffer filled : List Cell} {target : UnitTarget}
    (read : readResponse devices buffer target = .returned filled) :
    filled.length = buffer.length := by
  cases target with
  | ESP301 =>
    rw [readResponse] at read
    unfold Serial_read_bytes at read
    split at read
    · cases read
      rfl
    · split at read
      · cases read
      · cases read
        rfl
      · split at read
        · cases read
        · exact copy_length read
  | PMC8742 =>
    rw [readResponse, read_bulk_bytes] at read
    split at read
    · cases read
      rfl
    · exact copy_length read
  | XPSRLD4 =>
    rw [readResponse] at read
    unfold receiveResponse at read
    split at read
    · cases read
    · exact copy_length read

/-- The response buffer keeps its size. -/
theorem serve_length {next : List UInt8} {replied : Option (List Cell)}
    (served : serve response x = .returned (next, replied)) : next.length = response.length := by
  unfold serve at served
  split at served
  · cases served
    rfl
  · split at served
    · cases served
    · cases served
    · rename_i filled read
      have size := readResponse_length read
      unfold reply at served
      by_cases ends : ∃ c ∈ filled, c.byte = 0
      · rw [if_pos ends] at served
        cases served
        rw [List.length_map, size, stale, List.length_map]
      · rw [if_neg ends] at served
        cases served

theorem runLoop_length {xs : List Taken} {current : List UInt8}
    (ran : runLoop response xs = some current) : current.length = response.length := by
  induction xs generalizing response with
  | nil =>
    cases ran
    rfl
  | cons x xs ih =>
    rw [runLoop, List.foldlM_cons, Option.bind_eq_bind, Option.bind_eq_some_iff] at ran
    obtain ⟨next, served, ran⟩ := ran
    cases outcome : serve response x with
    | returned both =>
      obtain ⟨after, replied⟩ := both
      rw [outcome] at served
      cases served
      exact (ih ran).trans (serve_length outcome)
    | reading =>
      rw [outcome] at served
      cases served
    | outside =>
      rw [outcome] at served
      cases served

/-- **The answer to a command is that command's answer**, for every sequence of commands and every
behaviour of the devices, if and only if the devices meet the condition at each of them. -/
theorem allAnswered_iff (response : List UInt8) (size : response.length = 256) (xs : List Taken) :
    AllAnswered response xs ↔ AllMet response xs := by
  have same : ∀ before x current, runLoop response before = some current →
      (Answered x (serve current x) ↔ Met current x) := fun before x current ran =>
    answered_iff ((runLoop_length ran).trans size)
  constructor
  · intro answered before x front current ran
    exact (same before x current ran).mp (answered before x front current ran)
  · intro met before x front current ran
    exact (same before x current ran).mpr (met before x front current ran)

end

/-- A device that has nothing to say. -/
def silent : Devices := ⟨.refused, ⟨[], by decide⟩, none⟩

/-- A position, asked of the three controllers. -/
def asked (target : UInt32) (devices : Devices) : Taken :=
  ⟨⟨target, [112, 63], true⟩, devices, [51, 46, 53]⟩

def position : List Cell := fresh [51, 46, 53]

def endOfLine : List Cell := fresh [13, 10]

theorem allAnswered_three :
    AllAnswered (List.replicate 256 0)
      [asked 0 { silent with esp301 := .reads ((position ++ endOfLine).map .char) },
        asked 1 { silent with pmc8742 := ⟨position ++ [⟨10, true⟩], by decide⟩ },
        asked 2 { silent with xps_rld4 := some ⟨position, by decide⟩ }] :=
  (allAnswered_iff (List.replicate 256 0) List.length_replicate _).mpr (by
    intro before x front current _
    have member := front.subset (List.mem_append_right before (List.mem_singleton_self x))
    simp only [List.mem_cons, List.not_mem_nil, or_false] at member
    rcases member with rfl | rfl | rfl
    · exact ⟨by decide, Or.inl (by decide)⟩
    · exact Or.inl (by decide)
    · exact ⟨_, rfl, Or.inl (by decide)⟩)

/-- The XPS answers; then the PMC8742 is asked, and its transfer fails. -/
theorem stale_answer :
    ¬ AllAnswered (List.replicate 256 0)
      [asked 2 { silent with xps_rld4 := some ⟨position, by decide⟩ }, asked 1 silent] := by
  intro answered
  have ran : runLoop (List.replicate 256 0)
      [asked 2 { silent with xps_rld4 := some ⟨position, by decide⟩ }] =
      some ([51, 46, 53, 0] ++ List.replicate 252 0) := by decide +kernel
  have own := answered [asked 2 { silent with xps_rld4 := some ⟨position, by decide⟩ }]
    (asked 1 silent) (List.prefix_refl _) _ ran
  have served : serve ([51, 46, 53, 0] ++ List.replicate 252 0) (asked 1 silent) =
      .returned ([51, 46, 53, 0] ++ List.replicate 252 0, some (stale [51, 46, 53])) := by
    decide +kernel
  rw [served] at own
  exact absurd own (by unfold Answered; decide)

end DCScan.ControlService

import DCScan.ControlService

/-!
`Serial::read_bytes` over every sequence of results of `ReadFile`, index by index.

The state after some results is what they delivered, written over what the array on the stack
happened to hold (`rounds_reading`). What a result that ends the loop leads to is computed from it,
once for a failure (`read_bytes_failed`), for a line feed that is stored (`read_bytes_line`) and for one
that no longer has a place (`read_bytes_excess`).
-/

namespace DCScan.Serial

open Lib ControlService

def carriageReturn : UInt8 := 13

/-- `localSerialBuffer`, with what it holds. -/
structure LocalBuffer where
  cells : List UInt8
  sized : cells.length = SERIAL_DEFAULT_READ_BUFFER_SIZE

theorem LocalBuffer.sized_set (b : LocalBuffer) (index : Nat) (x : UInt8) :
    (b.cells.set index x).length = SERIAL_DEFAULT_READ_BUFFER_SIZE :=
  List.length_set.trans b.sized

/-- `localSerialBuffer[index] = x`; `none` outside the array. -/
def LocalBuffer.put (b : LocalBuffer) (index : Int) (x : UInt8) : Option LocalBuffer :=
  if 0 ≤ index ∧ index < SERIAL_DEFAULT_READ_BUFFER_SIZE then
    some ⟨b.cells.set index.toNat x, b.sized_set index.toNat x⟩
  else none

/-- `localSerialBuffer[index]`; `none` outside the array. -/
def LocalBuffer.at (b : LocalBuffer) (index : Int) : Option UInt8 :=
  if 0 ≤ index then b.cells[index.toNat]? else none

/-- The string in the array, as `strlen` and `%s` read it; `none` when they leave the array. -/
def LocalBuffer.string (b : LocalBuffer) : Option (List UInt8) :=
  if 0 ∈ b.cells then some (b.cells.takeWhile (· ≠ 0)) else none

/-! ## The function -/

structure Locals where
  localSerialBuffer : LocalBuffer
  i : Nat
  last : Int

/-- Where the call is after some results. -/
inductive Progress where
  /-- In the loop. -/
  | reading (s : Locals)
  /-- Behind the loop. -/
  | left (status : Bool) (s : Locals)
  | outside

/-- One round of the loop. -/
def Locals.round (s : Locals) : ReadFile → Progress
  | .failed => .left false s
  | result =>
    let tempChar := result.tempChar.byte
    if s.i = SERIAL_DEFAULT_READ_BUFFER_SIZE then
      if tempChar = lineFeed then .left true s else .reading s
    else
      match s.localSerialBuffer.put s.i tempChar with
      | none => .outside
      | some stored =>
        let s' : Locals := ⟨stored, s.i + 1, s.i - 1⟩
        if tempChar = lineFeed then .left true s' else .reading s'

/-- The rounds that the first results make. -/
def rounds (held : LocalBuffer) (results : Nat → ReadFile) : Nat → Progress
  | 0 => .reading ⟨held, 0, 0⟩
  | n + 1 =>
    match rounds held results n with
    | .reading s => s.round (results n)
    | left => left

/-- How a call ends, with the user buffer. -/
inductive Ending where
  | returnedTrue (buffer : List UInt8) (readBufferSize : Nat)
  | returnedFalse (buffer : List UInt8)
  /-- It has not returned. -/
  | reading
  /-- Memory outside an array is written or read. -/
  | outside
  /-- `strcpy_s` calls the handler for invalid parameters. -/
  | invalidParameter
  deriving DecidableEq, Repr

/-- The copy to the user buffer, whose size is `bufferSize`. -/
def copyLine (buffer line : List UInt8) : Ending :=
  if line.length ≤ buffer.length then
    if line.length < buffer.length then
      .returnedTrue (blit buffer 0 (line ++ [0])) line.length
    else .invalidParameter
  else .returnedFalse buffer

/-- What follows the loop. -/
def Locals.finish (s : Locals) (buffer : List UInt8) (status : Bool) : Ending :=
  let b := s.localSerialBuffer
  if s.i = SERIAL_DEFAULT_READ_BUFFER_SIZE ∧
      b.at (SERIAL_DEFAULT_READ_BUFFER_SIZE - 1) ≠ some lineFeed then
    match b.string with
    | none => .outside
    | some _ => .returnedFalse buffer
  else if status = false then
    -- both are logged
    match b.string, b.at s.last with
    | some _, some _ => .returnedFalse buffer
    | _, _ => .outside
  else
    match b.put s.last 0 with
    | none => .outside
    | some terminated =>
      match terminated.string with
      | none => .outside
      | some line => copyLine buffer line

/-- A call whose local buffer holds `held` at first, after so many results. -/
def read_bytes (held : LocalBuffer) (buffer : List UInt8) (results : Nat → ReadFile)
    (n : Nat) : Ending :=
  match rounds held results n with
  | .reading _ => .reading
  | .outside => .outside
  | .left status s => s.finish buffer status

/-! ## What is to be read -/

/-- The bytes that a result delivers. -/
def bytes : ReadFile → List UInt8
  | .char c => [c.byte]
  | _ => []

/-- What the first `n` results deliver. -/
def received (results : Nat → ReadFile) (n : Nat) : List UInt8 :=
  (List.range n).flatMap fun m => bytes (results m)

/-- The line in front of the first CR LF, if nothing fails before. -/
structure Complete (results : Nat → ReadFile) (line : List UInt8) : Prop where
  first : ¬ [carriageReturn, lineFeed] <:+: line
  delivered : ∃ n, received results n = line ++ [carriageReturn, lineFeed] ∧
    ∀ m < n, results m ≠ .failed

/-- The line with its end fits into the local buffer, and the string into the user buffer. -/
def Fits (buffer line : List UInt8) : Prop :=
  line.length + 2 ≤ SERIAL_DEFAULT_READ_BUFFER_SIZE ∧ line.length < buffer.length

/-- A complete line that fits is in the user buffer, and otherwise this is unchanged. -/
def Exact (buffer : List UInt8) (results : Nat → ReadFile) : Ending → Prop
  | .returnedTrue user readBufferSize => ∃ line, Complete results line ∧ Fits buffer line ∧
      user = blit buffer 0 (line ++ [0]) ∧ readBufferSize = line.length
  | .returnedFalse user => user = buffer ∧ ∀ line, Complete results line → ¬ Fits buffer line
  | _ => False

/-- The call returns, and has read the line exactly. -/
def ReadExactly (held : LocalBuffer) (buffer : List UInt8) (results : Nat → ReadFile) : Prop :=
  ∃ n, Exact buffer results (read_bytes held buffer results n)

/-! ## When it is read exactly -/

/-- What the first `n` results leave in `tempChar`. -/
def tempChars (results : Nat → ReadFile) (n : Nat) : List UInt8 :=
  (List.range n).map fun m => (results m).tempChar.byte

/-- The first result that ends the loop. -/
structure First (results : Nat → ReadFile) (k : Nat) : Prop where
  ends : (results k).ends
  before : ∀ m < k, ¬ (results m).ends

/-- What is in front of the first zero, the last two results left out. -/
def lineRead (results : Nat → ReadFile) (k : Nat) : List UInt8 :=
  (tempChars results (k - 1)).takeWhile (· ≠ 0)

/-- What the results have to be, when the loop ends with the result `k`. -/
def EndsWell (held : LocalBuffer) (buffer : List UInt8) (results : Nat → ReadFile) (k : Nat) : Prop :=
  if results k = .failed then
    k ≠ 1 ∧ 0 ∈ tempChars results (min k SERIAL_DEFAULT_READ_BUFFER_SIZE) ++ held.cells.drop k
  else if k < SERIAL_DEFAULT_READ_BUFFER_SIZE then
    k ≠ 0 ∧ (buffer.length < (lineRead results k).length ∨
      (lineRead results k).length < buffer.length ∧
        received results k = lineRead results k ++ [carriageReturn])
  else 0 ∈ tempChars results SERIAL_DEFAULT_READ_BUFFER_SIZE ∧
    ∀ line, Complete results line → ¬ Fits buffer line

variable {held : LocalBuffer} {buffer line : List UInt8} {results : Nat → ReadFile} {k m n : Nat}
variable {b : LocalBuffer} {front behind : List UInt8} {x : UInt8} {s : Locals} {status : Bool}

/-! ## The array -/

theorem put_inside (cells : b.cells = front ++ behind)
    (room : front.length < SERIAL_DEFAULT_READ_BUFFER_SIZE) :
    ∃ b', b.put front.length x = some b' ∧ b'.cells = front ++ x :: behind.drop 1 := by
  refine ⟨_, if_pos ⟨Int.natCast_nonneg _, Int.ofNat_lt.mpr room⟩, ?_⟩
  have more : behind ≠ [] := by
    rintro rfl
    have size := b.sized
    rw [cells, List.append_nil] at size
    omega
  obtain ⟨y, rest, rfl⟩ := List.exists_cons_of_ne_nil more
  change b.cells.set _ x = _
  rw [cells, Int.toNat_natCast, List.set_append_right _ _ (Nat.le_refl _), Nat.sub_self,
    List.set_cons_zero]
  rfl

theorem put_outside {index : Int} (outside : index < 0) : b.put index x = none :=
  if_neg fun inside => absurd inside.1 (Int.not_le.mpr outside)

theorem at_natCast (index : Nat) : b.at index = b.cells[index]? :=
  if_pos (Int.natCast_nonneg index)

theorem string_of_mem (zero : 0 ∈ b.cells) : b.string = some (b.cells.takeWhile (· ≠ 0)) :=
  if_pos zero

theorem string_of_not_mem (zero : 0 ∉ b.cells) : b.string = none := if_neg zero

/-- The string ends with the first zero. -/
theorem takeWhile_terminated (front behind : List UInt8) :
    (front ++ 0 :: behind).takeWhile (· ≠ 0) = front.takeWhile (· ≠ 0) := by
  induction front with
  | nil => rfl
  | cons c front ih =>
    rw [List.cons_append, List.takeWhile_cons, List.takeWhile_cons, ih]

/-! ## The loop -/

@[simp] theorem length_tempChars : (tempChars results n).length = n := by simp [tempChars]

theorem tempChars_succ :
    tempChars results (n + 1) = tempChars results n ++ [(results n).tempChar.byte] := by
  rw [tempChars, List.range_succ, List.map_append]
  rfl

theorem received_succ : received results (n + 1) = received results n ++ bytes (results n) := by
  rw [received, List.range_succ, List.flatMap_append]
  simp [received]

theorem not_lineFeed_of_goes_on (goes_on : ¬ (results m).ends) :
    (results m).tempChar.byte ≠ lineFeed := fun feed => goes_on (Or.inr feed)

/-- The locals after `n` results of which none has ended the loop. -/
structure After (held : LocalBuffer) (results : Nat → ReadFile) (n : Nat) (s : Locals) : Prop where
  i : s.i = min n SERIAL_DEFAULT_READ_BUFFER_SIZE
  last : s.last = if n = 0 then 0 else ((min n SERIAL_DEFAULT_READ_BUFFER_SIZE : Nat) : Int) - 2
  cells : s.localSerialBuffer.cells =
    tempChars results (min n SERIAL_DEFAULT_READ_BUFFER_SIZE) ++ held.cells.drop n

theorem round_of_ne_failed {result : ReadFile} (sent : result ≠ .failed) :
    s.round result =
      if s.i = SERIAL_DEFAULT_READ_BUFFER_SIZE then
        if result.tempChar.byte = lineFeed then .left true s else .reading s
      else
        match s.localSerialBuffer.put s.i result.tempChar.byte with
        | none => .outside
        | some stored =>
          if result.tempChar.byte = lineFeed then .left true ⟨stored, s.i + 1, s.i - 1⟩
          else .reading ⟨stored, s.i + 1, s.i - 1⟩ := by
  cases result with
  | failed => exact absurd rfl sent
  | timeout => simp only [Locals.round]
  | char c => simp only [Locals.round]

/-- A result that finds a place is stored. -/
theorem round_stored (after : After held results n s) (sent : results n ≠ .failed)
    (room : n < SERIAL_DEFAULT_READ_BUFFER_SIZE) :
    ∃ s', After held results (n + 1) s' ∧ s.round (results n) =
      if (results n).tempChar.byte = lineFeed then .left true s' else .reading s' := by
  obtain ⟨i, -, cells⟩ := after
  rw [Nat.min_eq_left room.le] at i cells
  obtain ⟨stored, put, written⟩ :=
    put_inside (x := (results n).tempChar.byte) cells (by rwa [length_tempChars])
  rw [length_tempChars] at put
  refine ⟨⟨stored, s.i + 1, s.i - 1⟩, ⟨?_, ?_, ?_⟩, ?_⟩
  · rw [i, Nat.min_eq_left room]
  · rw [if_neg (Nat.succ_ne_zero n), Nat.min_eq_left room]
    change (s.i : Int) - 1 = _
    omega
  · rw [written, Nat.min_eq_left room, tempChars_succ, List.append_assoc, List.drop_drop]
    rfl
  · rw [round_of_ne_failed sent, if_neg (by omega), i, put]

/-- Behind the last place nothing changes. -/
theorem round_excess (after : After held results n s) (sent : results n ≠ .failed)
    (full : SERIAL_DEFAULT_READ_BUFFER_SIZE ≤ n) :
    s.round (results n) = if (results n).tempChar.byte = lineFeed then .left true s else .reading s := by
  rw [round_of_ne_failed sent, if_pos (after.i.trans (Nat.min_eq_right full))]

theorem After.succ (after : After held results n s) (full : SERIAL_DEFAULT_READ_BUFFER_SIZE ≤ n) :
    After held results (n + 1) s := by
  have nonzero : n ≠ 0 := by
    rintro rfl
    exact absurd full (by decide)
  obtain ⟨i, last, cells⟩ := after
  have more : min (n + 1) SERIAL_DEFAULT_READ_BUFFER_SIZE = min n SERIAL_DEFAULT_READ_BUFFER_SIZE := by
    rw [Nat.min_eq_right full, Nat.min_eq_right (by omega)]
  refine ⟨?_, ?_, ?_⟩
  · rw [more, i]
  · rw [more, last, if_neg nonzero, if_neg (Nat.succ_ne_zero n)]
  · rw [more, cells, List.drop_of_length_le (by rwa [held.sized]),
      List.drop_of_length_le (by rw [held.sized]; omega)]

/-- As long as no result ends it the loop goes on, and the locals are as the results say. -/
theorem rounds_reading (held : LocalBuffer) (goes_on : ∀ m < n, ¬ (results m).ends) :
    ∃ s, rounds held results n = .reading s ∧ After held results n s := by
  induction n with
  | zero => exact ⟨_, rfl, rfl, rfl, (List.nil_append _).symm⟩
  | succ n ih =>
    obtain ⟨s, so_far, after⟩ := ih fun m less => goes_on m (Nat.lt_succ_of_lt less)
    have here := goes_on n (Nat.lt_succ_self n)
    have sent : results n ≠ .failed := fun failed => here (Or.inl failed)
    rw [rounds, so_far]
    rcases Nat.lt_or_ge n SERIAL_DEFAULT_READ_BUFFER_SIZE with room | full
    · obtain ⟨s', after', stored⟩ := round_stored after sent room
      exact ⟨s', stored.trans (if_neg (not_lineFeed_of_goes_on here)), after'⟩
    · exact ⟨s, (round_excess after sent full).trans (if_neg (not_lineFeed_of_goes_on here)),
        after.succ full⟩

/-- A result that ends the loop does end it. -/
theorem round_ends {result : ReadFile} (ends : result.ends) (s' : Locals) :
    s.round result ≠ .reading s' := by
  rcases ends with rfl | feed
  · exact Progress.noConfusion
  · have sent : result ≠ .failed := by
      rintro rfl
      exact absurd feed (by decide)
    rw [round_of_ne_failed sent, if_pos feed]
    split
    · exact Progress.noConfusion
    · cases s.localSerialBuffer.put s.i result.tempChar.byte with
      | none => exact Progress.noConfusion
      | some stored => exact Progress.noConfusion

/-- Once the loop is left it stays so. -/
theorem rounds_of_left (left : ∀ s, rounds held results k ≠ .reading s) (more : k ≤ n) :
    rounds held results n = rounds held results k := by
  induction n, more using Nat.le_induction with
  | base => rfl
  | succ n _ ih =>
    rw [rounds, ih]
    cases there : rounds held results k with
    | reading s => exact absurd there (left s)
    | left status s => rfl
    | outside => rfl

/-- The loop is left after one round from the locals before. -/
theorem rounds_first (held : LocalBuffer) (first : First results k) :
    ∃ s, After held results k s ∧ rounds held results (k + 1) = s.round (results k) := by
  obtain ⟨s, so_far, after⟩ := rounds_reading held first.before
  exact ⟨s, after, by rw [rounds, so_far]⟩

/-- The call has not returned before, and is over then. -/
theorem readExactly_iff_first (first : First results k) : ReadExactly held buffer results ↔
    Exact buffer results (read_bytes held buffer results (k + 1)) := by
  refine ⟨fun ⟨n, exact_there⟩ => ?_, fun exact_there => ⟨k + 1, exact_there⟩⟩
  rcases Nat.lt_or_ge k n with more | early
  · obtain ⟨s, -, last⟩ := rounds_first held first
    have same : rounds held results n = rounds held results (k + 1) :=
      rounds_of_left (fun s' => last ▸ round_ends first.ends s') more
    rwa [read_bytes, same] at exact_there
  · obtain ⟨s, reading, -⟩ := rounds_reading held fun m less =>
      first.before m (Nat.lt_of_lt_of_le less early)
    rw [read_bytes, reading] at exact_there
    exact exact_there.elim

/-- Without a result that ends it the call does not return. -/
theorem not_readExactly (goes_on : ∀ m, ¬ (results m).ends) : ¬ ReadExactly held buffer results := by
  rintro ⟨n, exact_there⟩
  obtain ⟨s, reading, -⟩ := rounds_reading held (n := n) fun m _ => goes_on m
  rw [read_bytes, reading] at exact_there
  exact exact_there

/-! ## The three endings -/

/-- Behind a full array the string is logged. -/
theorem finish_full (full : s.i = SERIAL_DEFAULT_READ_BUFFER_SIZE)
    (other : s.localSerialBuffer.cells[SERIAL_DEFAULT_READ_BUFFER_SIZE - 1]? ≠ some lineFeed) :
    s.finish buffer status = if 0 ∈ s.localSerialBuffer.cells then .returnedFalse buffer else .outside := by
  have unfinished : s.localSerialBuffer.at (SERIAL_DEFAULT_READ_BUFFER_SIZE - 1) ≠ some lineFeed :=
    (at_natCast (SERIAL_DEFAULT_READ_BUFFER_SIZE - 1)).trans_ne other
  rw [Locals.finish, if_pos ⟨full, unfinished⟩]
  by_cases zero : 0 ∈ s.localSerialBuffer.cells
  · rw [string_of_mem zero, if_pos zero]
  · rw [string_of_not_mem zero, if_neg zero]

/-- A failure before that logs the string and one character. -/
theorem finish_failed (room : s.i ≠ SERIAL_DEFAULT_READ_BUFFER_SIZE) :
    s.finish buffer false =
      if (s.localSerialBuffer.at s.last).isSome ∧ 0 ∈ s.localSerialBuffer.cells then
        .returnedFalse buffer
      else .outside := by
  rw [Locals.finish, if_neg fun full => room full.1, if_pos rfl]
  by_cases zero : 0 ∈ s.localSerialBuffer.cells
  · rw [string_of_mem zero]
    cases s.localSerialBuffer.at s.last <;> simp [zero]
  · rw [string_of_not_mem zero, if_neg fun both => zero both.2]

/-- The line's array is searched for a zero and copied. -/
theorem finish_line (fed : s.i = SERIAL_DEFAULT_READ_BUFFER_SIZE →
      s.localSerialBuffer.at (SERIAL_DEFAULT_READ_BUFFER_SIZE - 1) = some lineFeed)
    (cells : s.localSerialBuffer.cells = front ++ x :: behind) (last : s.last = front.length) :
    s.finish buffer true = copyLine buffer (front.takeWhile (· ≠ 0)) := by
  have room : front.length < SERIAL_DEFAULT_READ_BUFFER_SIZE := by
    rw [← s.localSerialBuffer.sized, cells, List.length_append, List.length_cons]
    omega
  obtain ⟨terminated, put, written⟩ := put_inside (x := 0) cells room
  rw [Locals.finish, if_neg fun full => full.2 (fed full.1), if_neg Bool.noConfusion, last, put]
  have zero : 0 ∈ terminated.cells := by
    rw [written]
    exact List.mem_append_right _ List.mem_cons_self
  simp only [string_of_mem zero]
  rw [written, takeWhile_terminated]

theorem at_isSome {index : Int} :
    (b.at index).isSome ↔ 0 ≤ index ∧ index < SERIAL_DEFAULT_READ_BUFFER_SIZE := by
  unfold LocalBuffer.at
  split
  · rename_i positive
    rw [isSome_getElem?, b.sized]
    omega
  · rename_i negative
    simp [negative]

theorem lineFeed_not_mem (goes_on : ∀ m < n, ¬ (results m).ends) : lineFeed ∉ tempChars results n := by
  intro member
  obtain ⟨m, inside, feed⟩ := List.mem_map.mp member
  exact not_lineFeed_of_goes_on (goes_on m (List.mem_range.mp inside)) feed

/-- An array that has been filled without one holds no line feed. -/
theorem After.not_fed (after : After held results k s) (goes_on : ∀ m < k, ¬ (results m).ends)
    (full : SERIAL_DEFAULT_READ_BUFFER_SIZE ≤ k) : lineFeed ∉ s.localSerialBuffer.cells := by
  rw [after.cells, List.drop_of_length_le (by rwa [held.sized]), List.append_nil]
  exact lineFeed_not_mem fun m less => goes_on m (Nat.lt_of_lt_of_le less (Nat.min_le_left _ _))

/-- The call in which the loop ends with a failure. -/
theorem read_bytes_failed (first : First results k) (failed : results k = .failed) :
    read_bytes held buffer results (k + 1) =
      if k ≠ 1 ∧ 0 ∈ tempChars results (min k SERIAL_DEFAULT_READ_BUFFER_SIZE) ++ held.cells.drop k then
        .returnedFalse buffer
      else .outside := by
  obtain ⟨s, after, left⟩ := rounds_first held first
  rw [failed] at left
  have ended : read_bytes held buffer results (k + 1) = s.finish buffer false := by
    rw [read_bytes, left]
    rfl
  rw [ended, ← after.cells]
  rcases Nat.lt_or_ge k SERIAL_DEFAULT_READ_BUFFER_SIZE with room | full
  · have i := after.i
    have last := after.last
    rw [Nat.min_eq_left room.le] at i last
    rw [finish_failed (by omega)]
    have seen : (s.localSerialBuffer.at s.last).isSome ↔ k ≠ 1 := by
      rw [at_isSome, last]
      split <;> omega
    simp only [seen]
  · have more : k ≠ 1 := by
      rintro rfl
      exact absurd full (by decide)
    have other := after.not_fed first.before full
    rw [finish_full (after.i.trans (Nat.min_eq_right full)) fun fed => other (List.mem_of_getElem? fed)]
    simp only [ne_eq, more, not_false_eq_true, true_and]

/-- The call in which a line feed finds the array full. -/
theorem read_bytes_excess (first : First results k) (sent : results k ≠ .failed)
    (full : SERIAL_DEFAULT_READ_BUFFER_SIZE ≤ k) :
    read_bytes held buffer results (k + 1) =
      if 0 ∈ tempChars results SERIAL_DEFAULT_READ_BUFFER_SIZE then .returnedFalse buffer
      else .outside := by
  obtain ⟨s, after, left⟩ := rounds_first held first
  have fed := first.ends.resolve_left sent
  rw [round_excess after sent full, if_pos fed] at left
  have ended : read_bytes held buffer results (k + 1) = s.finish buffer true := by
    rw [read_bytes, left]
  have other := after.not_fed first.before full
  have cells := after.cells
  rw [Nat.min_eq_right full, List.drop_of_length_le (by rwa [held.sized]), List.append_nil] at cells
  rw [ended, finish_full (after.i.trans (Nat.min_eq_right full)) fun fed =>
    other (List.mem_of_getElem? fed), cells]

/-- The call in which a line feed is stored. -/
theorem read_bytes_line (first : First results k) (sent : results k ≠ .failed)
    (room : k < SERIAL_DEFAULT_READ_BUFFER_SIZE) :
    read_bytes held buffer results (k + 1) =
      if k = 0 then .outside else copyLine buffer (lineRead results k) := by
  obtain ⟨s, before, left⟩ := rounds_first held first
  have fed := first.ends.resolve_left sent
  obtain ⟨s', after, stored⟩ := round_stored before sent room
  rw [stored, if_pos fed] at left
  have ended : read_bytes held buffer results (k + 1) = s'.finish buffer true := by
    rw [read_bytes, left]
  obtain ⟨i, last, cells⟩ := after
  rw [Nat.min_eq_left room, tempChars_succ, fed, List.append_assoc] at cells
  rw [Nat.min_eq_left room] at i last
  have complete : s'.i = SERIAL_DEFAULT_READ_BUFFER_SIZE →
      s'.localSerialBuffer.at (SERIAL_DEFAULT_READ_BUFFER_SIZE - 1) = some lineFeed := by
    intro size
    have place : (SERIAL_DEFAULT_READ_BUFFER_SIZE : Int) - 1 = k := by omega
    rw [place, at_natCast, cells, List.getElem?_append_right length_tempChars.le, length_tempChars,
      Nat.sub_self]
    rfl
  cases k with
  | zero =>
    rw [ended, if_pos rfl, Locals.finish, if_neg fun full => full.2 (complete full.1),
      if_neg Bool.noConfusion, put_outside (by rw [last]; decide)]
  | succ k =>
    rw [tempChars_succ, List.append_assoc] at cells
    rw [ended, if_neg (Nat.succ_ne_zero k), finish_line complete cells, lineRead, Nat.add_sub_cancel]
    rw [last, if_neg (Nat.succ_ne_zero _), length_tempChars]
    omega

/-! ## What the results deliver -/

theorem received_mono (results : Nat → ReadFile) (less : m ≤ n) :
    received results m <+: received results n := by
  induction n, less using Nat.le_induction with
  | base => exact List.prefix_rfl
  | succ n _ ih => exact ih.trans (received_succ ▸ List.prefix_append _ _)

theorem lineFeed_not_received (goes_on : ∀ m < n, ¬ (results m).ends) :
    lineFeed ∉ received results n := by
  intro member
  obtain ⟨m, inside, fed⟩ := List.mem_flatMap.mp member
  refine goes_on m (List.mem_range.mp inside) (Or.inr ?_)
  cases there : results m with
  | failed => simp [there, bytes] at fed
  | timeout => simp [there, bytes] at fed
  | char c =>
    rw [there, bytes, List.mem_singleton] at fed
    exact fed.symm

/-- The line feed that ends the loop is received. -/
theorem received_first (first : First results k) (sent : results k ≠ .failed) :
    received results (k + 1) = received results k ++ [lineFeed] := by
  have fed := first.ends.resolve_left sent
  rw [received_succ]
  cases there : results k with
  | failed => exact absurd there sent
  | timeout =>
    rw [there] at fed
    exact absurd fed (by decide)
  | char c =>
    rw [there] at fed
    exact congrArg (fun byte => received results k ++ [byte]) fed

/-- A complete line has the result that ends the loop. -/
theorem lt_of_delivered (first : First results k)
    (delivered : received results n = line ++ [carriageReturn, lineFeed]) : k < n := by
  by_contra early
  refine lineFeed_not_received (n := n) (fun m less => first.before m (by omega)) ?_
  rw [delivered]
  simp

/-- A failure that comes first leaves no complete line. -/
theorem not_complete (first : First results k) (failed : results k = .failed) :
    ¬ Complete results line := by
  rintro ⟨-, n, delivered, all_sent⟩
  exact all_sent k (lt_of_delivered first delivered) failed

/-- A complete line has all that has come with the first line feed. -/
theorem Complete.begins (complete : Complete results line) (first : First results k)
    (sent : results k ≠ .failed) :
    received results k ++ [lineFeed] <+: line ++ [carriageReturn, lineFeed] := by
  obtain ⟨n, delivered, -⟩ := complete.delivered
  rw [← received_first first sent, ← delivered]
  exact received_mono results (lt_of_delivered first delivered)

theorem filter_tempChars (n : Nat) :
    (tempChars results n).filter (· ≠ 0) = (received results n).filter (· ≠ 0) := by
  induction n with
  | zero => rfl
  | succ n ih =>
    rw [tempChars_succ, received_succ, List.filter_append, List.filter_append, ih]
    cases results n <;> rfl

/-- What is read is no longer than what was received. -/
theorem length_lineRead_le (results : Nat → ReadFile) (k : Nat) :
    (lineRead results k).length ≤ (received results k).length := by
  have kept : (lineRead results k).filter (· ≠ 0) = lineRead results k :=
    List.filter_eq_self.mpr fun c member => List.mem_takeWhile_imp (p := fun x : UInt8 => x ≠ 0) member
  have part := (List.takeWhile_sublist (l := tempChars results (k - 1)) (· ≠ 0)).filter (· ≠ 0)
  rw [filter_tempChars] at part
  have all := (received_mono results (Nat.sub_le k 1)).sublist
  rw [← kept]
  exact part.length_le.trans ((List.length_filter_le _ _).trans all.length_le)

theorem lineFeed_not_read (first : First results k) : lineFeed ∉ lineRead results k := by
  intro member
  refine lineFeed_not_mem (n := k - 1) (fun m less => first.before m (by omega)) ?_
  exact (List.takeWhile_sublist _).subset member

/-- Lists that end with their only `x` are the same, when one begins with the other. -/
theorem eq_of_append_prefix {a c : List UInt8} (without : x ∉ a) (other : x ∉ c)
    (begins : a ++ [x] <+: c ++ [x]) : a = c := by
  obtain ⟨rest, whole⟩ := begins
  have front (l rest : List UInt8) (outside : x ∉ l) : (l ++ x :: rest).takeWhile (· ≠ x) = l := by
    rw [List.takeWhile_append_of_pos fun c member => by simpa using ne_of_mem_of_not_mem member outside]
    simp
  rw [← front a rest without, ← front c [] other, ← whole, List.append_assoc]
  rfl

/-- A line that is read and fits is the complete one exactly when nothing else was received but its
carriage return. -/
theorem line_exact_iff (first : First results k) (sent : results k ≠ .failed)
    (room : k < SERIAL_DEFAULT_READ_BUFFER_SIZE)
    (fits : (lineRead results k).length < buffer.length) :
    Exact buffer results (.returnedTrue (blit buffer 0 (lineRead results k ++ [0]))
        (lineRead results k).length) ↔
      received results k = lineRead results k ++ [carriageReturn] := by
  have without := lineFeed_not_received first.before
  have unfed := lineFeed_not_read first
  constructor
  · rintro ⟨line, complete, -, same, size⟩
    have ended : (lineRead results k ++ [0]).length = (line ++ [0]).length := by
      rw [List.length_append, List.length_append, size]
    have copied := congrArg (List.take (lineRead results k ++ [0]).length) same
    rw [blit_zero_take, ended, blit_zero_take] at copied
    obtain rfl := List.append_cancel_right copied
    refine eq_of_append_prefix without ?_ ?_
    · rw [List.mem_append, List.mem_singleton]
      exact not_or.mpr ⟨unfed, by decide⟩
    · rw [List.append_assoc]
      exact complete.begins first sent
  · intro whole
    refine ⟨lineRead results k, ⟨?_, k + 1, ?_, ?_⟩, ⟨?_, fits⟩, rfl, rfl⟩
    · exact fun inside => unfed (inside.subset (by simp))
    · rw [received_first first sent, whole, List.append_assoc]
      rfl
    · intro m less
      rcases Nat.lt_succ_iff_lt_or_eq.mp less with before | rfl
      · exact fun failed => first.before m before (Or.inl failed)
      · exact sent
    · have size : (lineRead results k).length ≤ k - 1 :=
        (List.takeWhile_sublist _).length_le.trans length_tempChars.le
      have two : 2 ≤ SERIAL_DEFAULT_READ_BUFFER_SIZE := by decide
      omega

/-- A string that is longer than the user buffer is no complete line that fits. -/
theorem not_fits_of_long (first : First results k) (sent : results k ≠ .failed)
    (long : buffer.length < (lineRead results k).length) (complete : Complete results line) :
    ¬ Fits buffer line := by
  rintro ⟨-, short⟩
  have all := (complete.begins first sent).length_le
  have part := length_lineRead_le results k
  simp only [List.length_append, List.length_cons, List.length_nil] at all
  omega

/-- What the line feed that is stored leads to. -/
theorem line_iff (first : First results k) (sent : results k ≠ .failed)
    (room : k < SERIAL_DEFAULT_READ_BUFFER_SIZE) :
    ReadExactly held buffer results ↔
      k ≠ 0 ∧ (buffer.length < (lineRead results k).length ∨
        (lineRead results k).length < buffer.length ∧
          received results k = lineRead results k ++ [carriageReturn]) := by
  rw [readExactly_iff_first first, read_bytes_line first sent room]
  by_cases none_before : k = 0
  · rw [if_pos none_before]
    exact iff_of_false id fun well => well.1 none_before
  rw [if_neg none_before, and_iff_right none_before, copyLine]
  rcases Nat.lt_trichotomy (lineRead results k).length buffer.length with fits | size | long
  · rw [if_pos fits.le, if_pos fits, or_iff_right (Nat.lt_asymm fits), and_iff_right fits]
    exact line_exact_iff first sent room fits
  · rw [if_pos size.le, if_neg size.not_lt]
    refine iff_of_false id ?_
    rintro (long | ⟨fits, -⟩) <;> omega
  · rw [if_neg (Nat.not_le.mpr long)]
    exact iff_of_true ⟨rfl, fun line complete => not_fits_of_long first sent long complete⟩
      (Or.inl long)

/-- What a failure leads to. -/
theorem failed_iff (first : First results k) (failed : results k = .failed) :
    ReadExactly held buffer results ↔
      k ≠ 1 ∧ 0 ∈ tempChars results (min k SERIAL_DEFAULT_READ_BUFFER_SIZE) ++ held.cells.drop k := by
  rw [readExactly_iff_first first, read_bytes_failed first failed]
  split
  · rename_i well
    exact iff_of_true ⟨rfl, fun line complete => absurd complete (not_complete first failed)⟩ well
  · rename_i ill
    exact iff_of_false id ill

/-- What a line feed behind the last place leads to. -/
theorem excess_iff (first : First results k) (sent : results k ≠ .failed)
    (full : SERIAL_DEFAULT_READ_BUFFER_SIZE ≤ k) :
    ReadExactly held buffer results ↔ 0 ∈ tempChars results SERIAL_DEFAULT_READ_BUFFER_SIZE ∧
      ∀ line, Complete results line → ¬ Fits buffer line := by
  rw [readExactly_iff_first first, read_bytes_excess first sent full]
  split
  · rename_i zero
    rw [and_iff_right zero]
    exact and_iff_right rfl
  · rename_i without
    exact iff_of_false id fun well => without well.1

theorem First.unique (first : First results k) (other : First results m) : k = m := by
  rcases Nat.lt_trichotomy k m with less | same | more
  · exact absurd first.ends (other.before k less)
  · exact same
  · exact absurd other.ends (first.before m more)

/-- The result that ends the loop decides. -/
theorem endsWell_iff (first : First results k) :
    ReadExactly held buffer results ↔ EndsWell held buffer results k := by
  unfold EndsWell
  split_ifs with failed room
  · exact failed_iff first failed
  · exact line_iff first failed room
  · exact excess_iff first failed (Nat.le_of_not_lt room)

/-- **Serial lines are read exactly** if and only if a result ends the loop, and those up to it are as
`EndsWell` says. -/
theorem read_bytes_iff (held : LocalBuffer) (buffer : List UInt8) (results : Nat → ReadFile) :
    ReadExactly held buffer results ↔ ∃ k, First results k ∧ EndsWell held buffer results k := by
  by_cases goes_on : ∀ m, ¬ (results m).ends
  · refine iff_of_false (not_readExactly goes_on) ?_
    rintro ⟨k, first, -⟩
    exact goes_on k first.ends
  · have some_end : ∃ k, (results k).ends := not_forall_not.mp goes_on
    have first : First results (Nat.find some_end) :=
      ⟨Nat.find_spec some_end, fun m less => Nat.find_min some_end less⟩
    rw [endsWell_iff first]
    constructor
    · exact fun well => ⟨_, first, well⟩
    · rintro ⟨k, other, well⟩
      rwa [first.unique other]

/-- `a`, a timeout, `b`, CR and LF. -/
def interrupted : Nat → ReadFile
  | 0 => .char ⟨97, true⟩
  | 2 => .char ⟨98, true⟩
  | 3 => .char ⟨13, true⟩
  | 4 => .char ⟨10, true⟩
  | _ => .timeout

theorem interrupted_first : First interrupted 4 := ⟨by decide, by decide⟩

/-- A local buffer of zeros. -/
def blank : LocalBuffer := ⟨List.replicate _ 0, List.length_replicate⟩

/-- What is in front of the timeout is returned as the line, which is `ab`. -/
theorem line_cut : read_bytes blank (List.replicate 8 0) interrupted 5 =
      .returnedTrue (97 :: List.replicate 7 0) 1 ∧
    ¬ ReadExactly blank (List.replicate 8 0) interrupted := by
  constructor
  · rw [read_bytes_line interrupted_first (by decide) (by decide)]
    rfl
  · rw [line_iff interrupted_first (by decide) (by decide)]
    decide

/-! ## The read of the control service -/

/-- Where the call returns, the response buffer of the control service is the user buffer. -/
def Agrees (read : Outcome (List Cell)) : Ending → Prop
  | .returnedTrue user _ => ∃ cells, read = .returned cells ∧ cells.map Cell.byte = user
  | .returnedFalse user => ∃ cells, read = .returned cells ∧ cells.map Cell.byte = user
  | _ => True

theorem map_text (cells : List Cell) :
    (text cells).map Cell.byte = (cells.map Cell.byte).takeWhile (· ≠ 0) := by
  rw [List.takeWhile_map]
  rfl

/-- A line that fits is copied to both buffers. -/
theorem copyLine_agrees {response cells : List Cell} (fits : cells.length < response.length) :
    Agrees (copy response (text cells ++ [terminator]))
      (copyLine (response.map Cell.byte) ((cells.map Cell.byte).takeWhile (· ≠ 0))) := by
  have short : (text cells).length < response.length :=
    Nat.lt_of_le_of_lt (List.takeWhile_sublist _).length_le fits
  have room : (0 : Int) + (text cells ++ [terminator]).length ≤ response.length := by
    rw [List.length_append, List.length_singleton]
    omega
  rw [← map_text, copyLine, List.length_map, List.length_map, if_pos short.le, if_pos short, copy, store,
    if_pos ⟨Int.le_refl 0, room⟩]
  refine ⟨_, rfl, ?_⟩
  simp [blit, terminator]

theorem Serial_read_bytes_agrees {response : List Cell}
    (size : response.length = SERIAL_DEFAULT_READ_BUFFER_SIZE) (first : First results k) :
    Agrees (Serial_read_bytes response (.reads ((List.range (k + 1)).map results)))
      (read_bytes held (response.map Cell.byte) results (k + 1)) := by
  have goes_on : ∀ result ∈ (List.range k).map results, ¬ result.ends := by
    intro result member
    obtain ⟨m, inside, rfl⟩ := List.mem_map.mp member
    exact first.before m (List.mem_range.mp inside)
  have loop : serialLoop [] ((List.range k).map results ++ [results k]) = _ :=
    serialLoop_ended goes_on first.ends (Nat.zero_le _)
  have split : (List.range (k + 1)).map results = (List.range k).map results ++ [results k] := by
    rw [List.range_succ, List.map_append]
    rfl
  rw [← split, List.length_nil, Nat.zero_add, List.length_map, List.length_range] at loop
  rw [Serial_read_bytes, loop]
  by_cases line : results k ≠ .failed ∧ k < SERIAL_DEFAULT_READ_BUFFER_SIZE
  · rw [if_pos line, read_bytes_line first line.1 line.2]
    cases k with
    | zero => trivial
    | succ k =>
      have front : (((List.range (k + 1)).map results).map ReadFile.tempChar ++
          [(results (k + 1)).tempChar]).take k = ((List.range k).map results).map ReadFile.tempChar := by
        rw [List.range_succ, List.map_append, List.map_append, List.append_assoc, List.take_left' (by simp)]
      have shown : lineRead results (k + 1) = ((((List.range k).map results).map
          ReadFile.tempChar).map Cell.byte).takeWhile (· ≠ 0) := by
        rw [lineRead, tempChars, Nat.add_sub_cancel, List.map_map, List.map_map]
        rfl
      have length : (([] : List Cell) ++ ((List.range (k + 1)).map results).map ReadFile.tempChar ++
          [(results (k + 1)).tempChar]).length = k + 2 := by simp
      simp only [length, if_neg (Nat.succ_ne_zero k), shown]
      rw [if_neg (by omega), Nat.add_sub_cancel, List.nil_append, front]
      refine copyLine_agrees ?_
      rw [List.length_map, List.length_map, List.length_range, size]
      omega
  · rw [if_neg line]
    have failed : read_bytes held (response.map Cell.byte) results (k + 1) =
        .returnedFalse (response.map Cell.byte) ∨
          read_bytes held (response.map Cell.byte) results (k + 1) = .outside := by
      rcases Decidable.em (results k = .failed) with failed | sent
      · rw [read_bytes_failed first failed]
        exact ite_eq_or_eq _ _ _
      · rw [read_bytes_excess first sent (Nat.le_of_not_lt fun room => line ⟨sent, room⟩)]
        exact ite_eq_or_eq _ _ _
    rcases failed with same | outside
    · rw [same]
      exact ⟨response, rfl, rfl⟩
    · rw [outside]
      trivial

end DCScan.Serial

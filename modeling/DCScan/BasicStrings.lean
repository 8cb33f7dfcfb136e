import DCScan.ControlService
import DCScan.Motion
import DCScan.Variables

/-!
`BasicString`s as they come over the wire: 512 bytes, with a zero among them or without, and what the
operations read of them and write into those they build.

`Variables` takes texts with a zero in them, as callers pass them. A string without one runs on into
the memory behind it. The motions are those of `Motion`, with the controller that says how far to
move; the encoder and the devices are outside.
-/

namespace DCScan.BasicStrings

open Lib RDB Database
open Motion (targetId)

/-! ## Strings in memory -/

/-- A `BasicString`, and what the memory behind it holds up to its next zero. -/
structure Argument where
  string : BasicString
  behind : CString
  deriving DecidableEq

/-- What `buffer` stands for as a `const char*`. -/
def Argument.c_str (a : Argument) : CString where
  bytes := if 0 ∈ a.string.buffer then cStr a.string.buffer else a.string.buffer ++ a.behind.bytes
  nul_free := by
    split
    · intro zero
      simpa using List.mem_takeWhile_imp zero
    · rename_i open'
      simp [open', a.behind.nul_free]

/-- The bytes that are read of it, with the zero. -/
def Argument.read (a : Argument) : Nat := a.c_str.bytes.length + 1

/-- A touch of a `BasicString`: the bytes read of an argument, or written into one that is built. -/
inductive Access where
  | read (bytes : Nat)
  | write (bytes : Nat)
  deriving DecidableEq, Repr

def Access.bytes : Access → Nat
  | read bytes => bytes
  | write bytes => bytes

/-- Each touches the 512 bytes only. -/
def Inside (accesses : List Access) : Prop := ∀ a ∈ accesses, a.bytes ≤ 512

/-! ## The database -/

def ReadValueString (sql : Sqlite) (d : State) (name : Argument) : List Access :=
  .read name.read :: match fetch sql d name.c_str with
    -- `"\0"` fills the whole buffer
    | some (_, none) => [.write 512]
    | some (_, some value) => [.write (value.length + 1)]
    | none => []

def WriteValueString (name value description : Argument) : List Access :=
  [.read name.read, .read value.read, .read description.read]

/-! ## The motors -/

/-- `str` is the reply that `schedule` returns. -/
def IssueGenericCommandResponse (full_command : Argument) (str : List UInt8) : List Access :=
  [.read full_command.read, .write (str.length + 1)]

/-- What the memory of a local `BasicString` holds before it is written, and behind it. -/
structure Local where
  garbage : BasicString
  behind : CString

theorem Local.copy_size (place : Local) (cmd : List UInt8) :
    ((blit place.garbage.buffer 0 (cmd ++ [0])).take 512).length = 512 := by
  simp only [blit, List.take_zero, List.nil_append, Nat.zero_add, List.length_take,
    List.length_append, List.length_drop, List.length_singleton, place.garbage.size]
  omega

/-- A local `BasicString`, once a command has been copied into it. -/
def Local.copy (place : Local) (cmd : List UInt8) : Argument where
  string := ⟨(blit place.garbage.buffer 0 (cmd ++ [0])).take 512, place.copy_size cmd⟩
  behind := place.behind

section

variable (num : Numerals Float)

/-- `cmd` of a relative move. -/
def moveCommand (group : Argument) (relative_move : Float) : List UInt8 :=
  ascii "GroupMoveRelative(" ++ group.c_str.bytes ++ ascii ".Pos," ++
    (num.to_string relative_move).bytes ++ ascii ")"

/-- A relative move: its command is copied into `relative_move_command`, and issued. -/
def moveBy (group : Argument) (relative_move : Float) (place : Local) (str : List UInt8) :
    List Access :=
  let cmd := moveCommand num group relative_move
  .read group.read :: .write (cmd.length + 1) :: IssueGenericCommandResponse (place.copy cmd) str

def MoveRelative (group : Argument) (target_position : Float) (place : Local) (str : List UInt8) :
    List Access :=
  moveBy num group target_position place str

end

/-- `Core::PID`. -/
structure PID where
  min : Float
  max : Float
  Kp : Float
  Kd : Float
  Ki : Float
  target : Float
  bias : Float
  le : Float
  integral : Float

def PID.setTargetAndBias (pid : PID) (target bias : Float) : PID :=
  if target > pid.max ∨ target < pid.min then { pid with target := 0.0, bias := 0.0 }
  else { pid with target, bias }

/-- `std::clamp`. -/
def clamp (v lo hi : Float) : Float := if v < lo then lo else if hi < v then hi else v

/-- `calculate`, `dt` seconds after the last time. -/
def PID.calculate (pid : PID) (value dt : Float) : PID × Float :=
  let e := pid.target - value
  let integral := pid.integral + e * dt
  let P := pid.Kp * e
  let I := pid.Ki * integral
  let D := pid.Kd * ((e - pid.le) / dt)
  ({ pid with integral, le := e }, clamp (P + I + D + pid.bias) pid.min pid.max)

/-- `PIDParams`, without the encoder's axis. -/
def PIDParams (Kp Ki Kd min max : Float) : PID :=
  PID.setTargetAndBias ⟨min, max, Kp, Kd, Ki, 0.0, 0.0, 0.0, 0.0⟩ 0.0 0.0

/-- What surrounds a motion thread: what `calpos` is and how much time has passed at each turn, and what
becomes of the command sent in it. -/
structure Surroundings where
  calpos : Nat → Float
  dt : Nat → Float
  place : Nat → Local
  str : Nat → List UInt8

/-- The loop variable and the controller of a motion thread. -/
structure Mover where
  i : Nat
  pid : PID

/-- One turn of the two nested loops, and the relative move if there is one. -/
def Mover.turn (m : Mover) (target_position pos dt : Float) : Mover × Option Float :=
  if m.i < 2 then
    let error := target_position - pos
    if error.abs > 0.00005 then
      let (pid, relative_move) := (m.pid.setTargetAndBias target_position 0.0).calculate pos dt
      (⟨m.i, pid⟩, some relative_move)
    else (⟨m.i + 1, m.pid⟩, none)
  else (m, none)

/-- The thread before turn `k`. -/
def moverAt (pid : PID) (target_position : Float) (around : Surroundings) : Nat → Mover
  | 0 => ⟨0, pid⟩
  | k + 1 => ((moverAt pid target_position around k).turn target_position (around.calpos k) (around.dt k)).1

/-- The relative move of turn `k`. -/
def relativeMove (pid : PID) (target_position : Float) (around : Surroundings) (k : Nat) : Option Float :=
  ((moverAt pid target_position around k).turn target_position (around.calpos k) (around.dt k)).2

/-! ## The operations -/

inductive Operation where
  | ReadValueString (name : Argument)
  | WriteValueString (name value description : Argument)
  | IssueGenericCommandResponse (full_command : Argument) (str : List UInt8)
  | MoveRelative (group : Argument) (target_position : Float) (place : Local) (str : List UInt8)
  | MoveAbsolutePID (target : Int32) (group : Argument) (target_position : Float)
      (around : Surroundings)

/-- What the operations find: the database, and the controllers with their encoder axes. -/
structure Host where
  sql : Sqlite
  d : State
  num : Numerals Float
  pid_targets : List UInt8 → Option (PID × Int8)
  pid_targets_working : List UInt8 → Bool

/-- The controller that a call of `MoveAbsolutePID` starts a motion with. -/
def Host.starts (host : Host) (target : Int32) (group : Argument) : Option PID :=
  let target_id := targetId target group.c_str.bytes
  match host.pid_targets target_id with
  | none => none
  | some (pid, ax) => if ax = -1 ∨ host.pid_targets_working target_id then none else some pid

/-- `MoveAbsolutePID`, with so many turns of its thread. -/
def MoveAbsolutePID (host : Host) (target : Int32) (group : Argument) (target_position : Float)
    (around : Surroundings) (turns : Nat) : List Access :=
  .read group.read :: match host.starts target group with
    | none => []
    | some pid => (List.range turns).flatMap fun k =>
      match relativeMove pid target_position around k with
      | none => []
      | some relative_move => moveBy host.num group relative_move (around.place k) (around.str k)

def Host.accesses (host : Host) (turns : Nat) : Operation → List Access
  | .ReadValueString name => BasicStrings.ReadValueString host.sql host.d name
  | .WriteValueString name value description => BasicStrings.WriteValueString name value description
  | .IssueGenericCommandResponse full_command str =>
    BasicStrings.IssueGenericCommandResponse full_command str
  | .MoveRelative group target_position place str =>
    BasicStrings.MoveRelative host.num group target_position place str
  | .MoveAbsolutePID target group target_position around =>
    BasicStrings.MoveAbsolutePID host target group target_position around turns

/-- No `BasicString` is overrun, however long the operation goes on. -/
def Host.NoOverrun (host : Host) (op : Operation) : Prop := ∀ turns, Inside (host.accesses turns op)

/-! ## What fits -/

/-- The value that the cache holds, or else the table, of a variable that is not empty. -/
def stored (sql : Sqlite) (d : State) (name : CString) : Option (List UInt8) :=
  match d.db_var_cache name.bytes with
  | some value => some value
  | none => (ReadVariable sql d.tables name).filter (· ≠ [])

/-- A command for this move and its reply are shorter than a `BasicString`. The fixed text has 24
characters. -/
def FitsMove (num : Numerals Float) (group : Argument) (relative_move : Float) (str : List UInt8) :
    Prop :=
  group.c_str.bytes.length + (num.to_string relative_move).bytes.length + 24 < 512 ∧ str.length < 512

/-- The arguments have a zero, and what is built has room for one. -/
def Host.Fits (host : Host) : Operation → Prop
  | .ReadValueString name => 0 ∈ name.string.buffer ∧
    ∀ value, stored host.sql host.d name.c_str = some value → value.length < 512
  | .WriteValueString name value description =>
    0 ∈ name.string.buffer ∧ 0 ∈ value.string.buffer ∧ 0 ∈ description.string.buffer
  | .IssueGenericCommandResponse full_command str =>
    0 ∈ full_command.string.buffer ∧ str.length < 512
  | .MoveRelative group target_position _ str =>
    0 ∈ group.string.buffer ∧ FitsMove host.num group target_position str
  | .MoveAbsolutePID target group target_position around => 0 ∈ group.string.buffer ∧
    ∀ pid, host.starts target group = some pid → ∀ k relative_move,
      relativeMove pid target_position around k = some relative_move →
      FitsMove host.num group relative_move (around.str k)

variable {host : Host} {sql : Sqlite} {d : State} {num : Numerals Float}

/-! ## One string -/

theorem Argument.bytes_of_zero {a : Argument} (zero : 0 ∈ a.string.buffer) :
    a.c_str.bytes = cStr a.string.buffer := if_pos zero

theorem Argument.bytes_of_open {a : Argument} (open' : 0 ∉ a.string.buffer) :
    a.c_str.bytes = a.string.buffer ++ a.behind.bytes := if_neg open'

/-- A string is read inside its 512 bytes when there is a zero in them. -/
theorem Argument.read_iff (a : Argument) : a.read ≤ 512 ↔ 0 ∈ a.string.buffer := by
  unfold Argument.read
  by_cases zero : 0 ∈ a.string.buffer
  · have short := Text.c_str_length ⟨a.string, zero⟩
    rw [Argument.bytes_of_zero zero]
    exact ⟨fun _ => zero, fun _ => short⟩
  · rw [Argument.bytes_of_open zero, List.length_append, a.string.size]
    exact ⟨fun inside => by omega, fun there => absurd there zero⟩

/-- A string with a zero in it is a text. -/
theorem Argument.c_str_eq (s : Database.Text) (behind : CString) :
    (Argument.mk s.toBasicString behind).c_str = s.c_str := by
  simp [Argument.c_str, Text.c_str, s.terminated]

@[simp] theorem inside_nil : Inside [] := fun _ none => by cases none

@[simp] theorem inside_cons {a : Access} {rest : List Access} :
    Inside (a :: rest) ↔ a.bytes ≤ 512 ∧ Inside rest := List.forall_mem_cons

/-- A command that fits is read back as it was copied. -/
theorem Local.copy_read (place : Local) {cmd : List UInt8} (nul_free : 0 ∉ cmd)
    (fits : cmd.length < 512) : (place.copy cmd).read = cmd.length + 1 := by
  have length : (blit place.garbage.buffer 0 (cmd ++ [0])).length = 512 := by
    rw [blit_length, place.garbage.size]
    rw [place.garbage.size, List.length_append, List.length_singleton]
    omega
  have buffer : (place.copy cmd).string.buffer =
      cmd ++ 0 :: place.garbage.buffer.drop (cmd.length + 1) := by
    rw [Local.copy]
    simp only
    rw [List.take_of_length_le length.le]
    simp [blit]
  have text : cStr (place.copy cmd).string.buffer = cmd := by
    rw [buffer, cStr, List.takeWhile_append_of_pos]
    · simp
    · intro c member
      have other : c ≠ 0 := fun zero => nul_free (zero ▸ member)
      simpa using other
  rw [Argument.read, Argument.bytes_of_zero (by simp [buffer]), text]

/-! ## One operation -/

theorem moveCommand_length (group : Argument) (relative_move : Float) :
    (moveCommand num group relative_move).length =
      group.c_str.bytes.length + (num.to_string relative_move).bytes.length + 24 := by
  have front : (ascii "GroupMoveRelative(").length = 18 := by decide
  have middle : (ascii ".Pos,").length = 5 := by decide
  have last : (ascii ")").length = 1 := by decide
  simp only [moveCommand, List.length_append, front, middle, last]
  omega

theorem moveCommand_nul_free (group : Argument) (relative_move : Float) :
    0 ∉ moveCommand num group relative_move := by
  have front : 0 ∉ ascii "GroupMoveRelative(" := by decide
  have middle : 0 ∉ ascii ".Pos," := by decide
  have last : 0 ∉ ascii ")" := by decide
  simp [moveCommand, front, middle, last, group.c_str.nul_free, (num.to_string relative_move).nul_free]

theorem issue_inside {full_command : Argument} {str : List UInt8} :
    Inside (IssueGenericCommandResponse full_command str) ↔
      0 ∈ full_command.string.buffer ∧ str.length < 512 := by
  simp only [IssueGenericCommandResponse, inside_cons, inside_nil, Access.bytes, and_true,
    full_command.read_iff, Nat.lt_iff_add_one_le]

/-- A relative move fits when its command and the reply do. -/
theorem moveBy_inside {group : Argument} {relative_move : Float} {place : Local} {str : List UInt8} :
    Inside (moveBy num group relative_move place str) ↔
      0 ∈ group.string.buffer ∧ FitsMove num group relative_move str := by
  have length : (moveCommand num group relative_move).length = group.c_str.bytes.length +
    (num.to_string relative_move).bytes.length + 24 := moveCommand_length group relative_move
  have written (fits : (moveCommand num group relative_move).length < 512) :=
    place.copy_read (moveCommand_nul_free group relative_move) fits
  simp only [moveBy, IssueGenericCommandResponse, inside_cons, inside_nil, Access.bytes, and_true,
    group.read_iff, FitsMove, ← length]
  constructor
  · rintro ⟨zero, fits, -, reply⟩
    exact ⟨zero, by omega, by omega⟩
  · rintro ⟨zero, fits, reply⟩
    exact ⟨zero, by omega, by rw [written fits]; omega, by omega⟩

/-! ## The operations fit -/

/-- What is found of a variable is what is stored. -/
theorem fetch_found {name : CString} {t : State} {found : Option (List UInt8)}
    (fetched : fetch sql d name = some (t, found)) : stored sql d name = found := by
  unfold fetch at fetched
  unfold stored
  cases cached : d.db_var_cache name.bytes with
  | some value =>
    rw [cached] at fetched
    cases fetched
    rfl
  | none =>
    rw [cached, Option.bind_eq_bind, Option.bind_eq_some_iff] at fetched
    obtain ⟨value, read, fetched⟩ := fetched
    rw [read]
    by_cases empty : value = []
    · rw [if_pos empty] at fetched
      cases fetched
      simp [empty]
    · rw [if_neg empty] at fetched
      cases fetched
      simp [empty]

theorem fetch_none {name : CString} (failed : fetch sql d name = none) : stored sql d name = none := by
  unfold fetch at failed
  unfold stored
  cases cached : d.db_var_cache name.bytes with
  | some value =>
    rw [cached] at failed
    cases failed
  | none =>
    rw [cached, Option.bind_eq_bind, Option.bind_eq_none_iff] at failed
    cases read : ReadVariable sql d.tables name with
    | none => rfl
    | some value =>
      have := failed value read
      split at this <;> cases this

theorem readValueString_inside {name : Argument} :
    Inside (ReadValueString sql d name) ↔
      0 ∈ name.string.buffer ∧ ∀ value, stored sql d name.c_str = some value → value.length < 512 := by
  unfold ReadValueString
  rw [inside_cons, Access.bytes, name.read_iff]
  refine and_congr_right fun _ => ?_
  cases fetched : fetch sql d name.c_str with
  | none => simp [fetch_none fetched]
  | some found =>
    obtain ⟨t, found⟩ := found
    rw [fetch_found fetched]
    cases found with
    | none =>
      refine iff_of_true ?_ fun _ none => by cases none
      rw [inside_cons]
      exact ⟨le_rfl, inside_nil⟩
    | some value =>
      simp only [inside_cons, inside_nil, Access.bytes, and_true, Option.some.injEq, forall_eq',
        Nat.lt_iff_add_one_le]

theorem writeValueString_inside {name value description : Argument} :
    Inside (WriteValueString name value description) ↔ 0 ∈ name.string.buffer ∧
      0 ∈ value.string.buffer ∧ 0 ∈ description.string.buffer := by
  simp only [WriteValueString, inside_cons, inside_nil, Access.bytes, and_true, Argument.read_iff]

theorem inside_flatMap {f : Nat → List Access} {turns : Nat} :
    Inside ((List.range turns).flatMap f) ↔ ∀ k < turns, Inside (f k) := by
  simp only [Inside, List.mem_flatMap, List.mem_range]
  exact ⟨fun all k before a member => all a ⟨k, before, member⟩,
    fun all a ⟨k, before, member⟩ => all k before a member⟩

/-- A motion touches what fits when each of its moves does. -/
theorem moveAbsolutePID_inside {target : Int32} {group : Argument} {target_position : Float}
    {around : Surroundings} :
    (∀ turns, Inside (MoveAbsolutePID host target group target_position around turns)) ↔
      0 ∈ group.string.buffer ∧ ∀ pid, host.starts target group = some pid → ∀ k relative_move,
        relativeMove pid target_position around k = some relative_move →
        FitsMove host.num group relative_move (around.str k) := by
  simp only [MoveAbsolutePID, inside_cons, Access.bytes, group.read_iff, forall_and, forall_const]
  refine and_congr_right fun zero => ?_
  cases host.starts target group with
  | none => simp
  | some pid =>
    simp only [inside_flatMap, Option.some.injEq, forall_eq']
    constructor
    · intro all k relative_move moved
      have touched := all (k + 1) k (Nat.lt_succ_self k)
      rw [moved] at touched
      exact (moveBy_inside.mp touched).2
    · intro fits turns k _
      cases moved : relativeMove pid target_position around k with
      | none => exact inside_nil
      | some relative_move => exact moveBy_inside.mpr ⟨zero, fits k relative_move moved⟩

/-- No `BasicString` is overrun when every argument has a zero in its 512 bytes, and every command,
reply and value that is put into one has fewer bytes. -/
theorem noOverrun_iff (host : Host) (op : Operation) : host.NoOverrun op ↔ host.Fits op := by
  unfold Host.NoOverrun
  cases op with
  | ReadValueString name =>
    exact (forall_const Nat).trans readValueString_inside
  | WriteValueString name value description =>
    exact (forall_const Nat).trans writeValueString_inside
  | IssueGenericCommandResponse full_command str =>
    exact (forall_const Nat).trans issue_inside
  | MoveRelative group target_position place str =>
    exact (forall_const Nat).trans moveBy_inside
  | MoveAbsolutePID target group target_position around => exact moveAbsolutePID_inside

/-! ## What the other operations leave -/

/-- After any calls with texts, no value that a read can find is too long. -/
theorem stored_short {f64 : Type} {numerals : Numerals f64} {calls : List (Call f64)}
    (exact : ∀ call ∈ calls, sql.SelectsVariable call.name) (kept : NoneDeletedEmpty numerals calls)
    (ran : run sql numerals calls = some d) {name : CString} (selects : sql.SelectsVariable name)
    {value : List UInt8} (found : stored sql d name = some value) : value.length < 512 := by
  obtain ⟨d', same, holds⟩ := run_holds exact kept
  obtain rfl := Option.some.inj (ran.symm.trans same)
  obtain ⟨t, known, fetched, -, short⟩ := holds.fetch selects
  exact short value ((fetch_found fetched).symm.trans found)

/-- Of a text, what is read and written is what the model of the database allows. -/
theorem readValueString_isSome {name : Database.Text} {out : BasicString} {behind : CString}
    (fetched : (fetch sql d name.c_str).isSome) :
    (Database.ReadValueString sql d name out).isSome ↔
      Inside (ReadValueString sql d ⟨name.toBasicString, behind⟩) := by
  obtain ⟨⟨t, found⟩, fetched⟩ := Option.isSome_iff_exists.mp fetched
  have zero : 0 ∈ (Argument.mk name.toBasicString behind).string.buffer := name.terminated
  rw [readValueString_inside, Argument.c_str_eq, fetch_found fetched, and_iff_right zero,
    Database.ReadValueString, fetched]
  cases found with
  | none => exact iff_of_true rfl fun _ none => by cases none
  | some value =>
    have room : (store out.buffer 0 (value ++ [0])).isSome ↔ value.length < 512 := by
      rw [store, out.size, List.length_append, List.length_singleton]
      split
      · exact iff_of_true rfl (by omega)
      · exact iff_of_false (by decide) (by omega)
    simp only [Option.bind_eq_bind, Option.bind_some, Option.some.injEq, forall_eq', ← room]
    cases store out.buffer 0 (value ++ [0]) with
    | none => exact Iff.rfl
    | some written => exact Iff.rfl

/-- The replies of the controllers fit: they are read into 256 bytes. -/
theorem reply_short {response next : List UInt8} {x : ControlService.Taken}
    {replied : List ControlService.Cell} (size : response.length = 256)
    (served : ControlService.serve response x = .returned (next, some replied)) :
    replied.length < 512 := by
  unfold ControlService.serve at served
  split at served
  · cases served
  · split at served
    · cases served
    · cases served
    · rename_i filled read
      have length := ControlService.readResponse_length read
      rw [ControlService.stale, List.length_map, size] at length
      unfold ControlService.reply at served
      split at served
      · rename_i ends
        split at ends
        · cases ends
          cases served
          have front := (List.takeWhile_prefix (l := filled) fun c : ControlService.Cell =>
            decide (c.byte ≠ 0)).length_le
          rw [length] at front
          exact lt_of_le_of_lt front (by decide)
        · cases ends
      · cases served

/-! ## The controller -/

/-- A PID whose moves are at most 200 units. -/
structure PID.Limited (pid : PID) : Prop where
  min : pid.min = -200.0
  max : pid.max = 200.0

theorem PID.Limited.setTargetAndBias {pid : PID} (limited : pid.Limited) (target bias : Float) :
    (pid.setTargetAndBias target bias).Limited := by
  unfold PID.setTargetAndBias
  split <;> exact ⟨limited.min, limited.max⟩

theorem PID.Limited.calculate {pid : PID} (limited : pid.Limited) (value dt : Float) :
    (pid.calculate value dt).1.Limited := ⟨limited.min, limited.max⟩

/-- The controllers that `SetPIDControlVariables` makes are. -/
theorem limited_PIDParams (Kp Ki Kd : Float) : (PIDParams Kp Ki Kd (-200.0) 200.0).Limited :=
  PID.Limited.setTargetAndBias ⟨rfl, rfl⟩ 0.0 0.0

theorem Mover.turn_move {m : Mover} {target_position pos : Float} (moving : m.i < 2)
    (off : (target_position - pos).abs > 0.00005) (dt : Float) :
    m.turn target_position pos dt =
      (⟨m.i, ((m.pid.setTargetAndBias target_position 0.0).calculate pos dt).1⟩,
        some ((m.pid.setTargetAndBias target_position 0.0).calculate pos dt).2) := by
  rw [Mover.turn, if_pos moving]
  exact if_pos off

theorem Mover.turn_pass {m : Mover} {target_position pos : Float} (moving : m.i < 2)
    (near : ¬ (target_position - pos).abs > 0.00005) (dt : Float) :
    m.turn target_position pos dt = (⟨m.i + 1, m.pid⟩, none) := by
  rw [Mover.turn, if_pos moving]
  exact if_neg near

theorem Mover.turn_done {m : Mover} (done : ¬ m.i < 2) (target_position pos dt : Float) :
    m.turn target_position pos dt = (m, none) := if_neg done

theorem Mover.turn_limited {m : Mover} (limited : m.pid.Limited) (target_position pos dt : Float) :
    (m.turn target_position pos dt).1.pid.Limited := by
  by_cases moving : m.i < 2
  · by_cases off : (target_position - pos).abs > 0.00005
    · rw [Mover.turn_move moving off]
      exact (limited.setTargetAndBias _ _).calculate _ _
    · rw [Mover.turn_pass moving off]
      exact limited
  · rw [Mover.turn_done moving]
    exact limited

theorem moverAt_limited {pid : PID} (limited : pid.Limited) (target_position : Float)
    (around : Surroundings) (k : Nat) : (moverAt pid target_position around k).pid.Limited := by
  induction k with
  | zero => exact limited
  | succ k ih => exact Mover.turn_limited ih _ _ _

/-- So its moves are clamped to 200 units. -/
theorem relativeMove_clamped {pid : PID} (limited : pid.Limited) {target_position : Float}
    {around : Surroundings} {k : Nat} {relative_move : Float}
    (moved : relativeMove pid target_position around k = some relative_move) :
    ∃ x, relative_move = clamp x (-200.0) 200.0 := by
  have kept := moverAt_limited limited target_position around k
  have limits := kept.setTargetAndBias target_position 0.0
  rw [relativeMove] at moved
  by_cases moving : (moverAt pid target_position around k).i < 2
  · by_cases off : (target_position - around.calpos k).abs > 0.00005
    · rw [Mover.turn_move moving off] at moved
      rw [← Option.some.inj moved, PID.calculate, limits.min, limits.max]
      exact ⟨_, rfl⟩
    · rw [Mover.turn_pass moving off] at moved
      cases moved
  · rw [Mover.turn_done moving] at moved
    cases moved

/-- `"%f"` prints at most `-200.000000` for a number of at most 200 units, and less for a NaN. -/
def PrintsMoves (num : Numerals Float) : Prop :=
  ∀ x, (num.to_string (clamp x (-200.0) 200.0)).bytes.length ≤ 11

/-- A motion of a group with a name of at most 476 characters overruns nothing. -/
theorem motion_noOverrun (prints : PrintsMoves host.num)
    (limited : ∀ id pid ax, host.pid_targets id = some (pid, ax) → pid.Limited)
    {target : Int32} {group : Argument} {target_position : Float} {around : Surroundings}
    (zero : 0 ∈ group.string.buffer) (short : group.c_str.bytes.length ≤ 476)
    (replies : ∀ k, (around.str k).length < 512) :
    host.NoOverrun (.MoveAbsolutePID target group target_position around) := by
  refine moveAbsolutePID_inside.mpr ⟨zero, fun pid starts k relative_move moved => ⟨?_, replies k⟩⟩
  have known : pid.Limited := by
    unfold Host.starts at starts
    simp only at starts
    split at starts
    · cases starts
    · rename_i pid' ax found
      split at starts
      · cases starts
      · obtain rfl := Option.some.inj starts
        exact limited _ _ ax found
  obtain ⟨x, rfl⟩ := relativeMove_clamped known moved
  have := prints x
  omega

/-! ## A name of 500 characters -/

/-- Zero printed, whatever is asked for. -/
def zeros : Numerals Float where
  to_string _ := ⟨ascii "0.000000", by decide⟩
  atof _ := 0.0
  zero := 0.0
  printed _ := by decide
  short _ := by decide

def sampleHost : Host where
  sql := .byText
  d := Open
  num := zeros
  pid_targets _ := none
  pid_targets_working _ := false

theorem longGroup_size :
    (List.replicate 500 (97 : UInt8) ++ List.replicate 12 0).length = 512 := by
  rw [List.length_append, List.length_replicate, List.length_replicate]

theorem sampleLocal_size : (List.replicate 512 (0 : UInt8)).length = 512 := List.length_replicate

theorem nil_nul_free : 0 ∉ ([] : List UInt8) := List.not_mem_nil

def longGroup : Argument where
  string := ⟨.replicate 500 97 ++ .replicate 12 0, longGroup_size⟩
  behind := ⟨[], nil_nul_free⟩

def sampleLocal : Local := ⟨⟨.replicate 512 0, sampleLocal_size⟩, ⟨[], nil_nul_free⟩⟩

/-- The command has 532 characters. -/
theorem longGroup_overruns :
    ¬ sampleHost.NoOverrun (.MoveRelative longGroup 0.0 sampleLocal (ascii "0")) := by
  intro inside
  obtain ⟨-, fits, -⟩ := moveBy_inside.mp (inside 0)
  exact absurd fits (by decide +kernel)

end DCScan.BasicStrings

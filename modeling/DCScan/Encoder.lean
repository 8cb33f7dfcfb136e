import DCScan.Lib.Binary64
import DCScan.Targets

/-!
The encoder's loop, `InspectLastEncoderValues`, and the motions that read a position with it.

The loop publishes what it has read of the axes that are initialised; the entries of the other axes are
never written. The number of axes says whether there is a sample at all. A motion takes the entry of
the axis that it was given, whatever that number says, and also when there is no such entry.
-/

namespace DCScan.Encoder

open Lib BasicStrings
open Motion (targetId)
open Targets (Off working relativeMove_isSome_iff)

/-! ## The loop -/

structure EncoderAxisData where
  axis : Int8
  position : Int64
  calpos : Float
  status : UInt16
  triggerCounter : UInt16
  timestamp : UInt32
  ref : Int64 × Int64

structure EncoderData where
  numAxis : Nat
  /-- An entry that is not written is `none`. -/
  axis : Fin 4 → Option EncoderAxisData

/-- The fields of a data packet that are of one axis. -/
structure Region where
  timestamp : UInt16
  position : Int64
  status : UInt16
  ref : Int64 × Int64

/-- What the encoder and the database answer in a turn of the loop. -/
structure Turn where
  entries : Nat
  triggerCounter : UInt16
  regions : Fin 4 → Region
  AngleOffsetC1 : Float
  AngleOffsetC2 : Float

/-- The encoder, with the conversion of its library, and the turns of its loop. -/
structure EIB7 where
  inited_axes : Int8
  isigperiods : Fin 4 → Float
  IncrPosToDouble : Int64 → Float
  turns : Nat → Turn

/-- `inited_axes & (1 << i)`. -/
def EIB7.inited (enc : EIB7) (i : Fin 4) : Bool := enc.inited_axes.toBitVec.getLsbD i.val

def EIB7.eadata (enc : EIB7) (t : Turn) (i : Fin 4) : EncoderAxisData :=
  let position := (t.regions i).position - (t.regions i).ref.1
  { axis := Int8.ofNat (i.val + 1)
    position
    calpos := enc.IncrPosToDouble position * (360.0 / enc.isigperiods i)
    status := (t.regions i).status
    triggerCounter := t.triggerCounter
    timestamp := (t.regions i).timestamp.toUInt32
    ref := (t.regions i).ref }

/-- The offset of a crystal is added to an entry. -/
def offset (angle : Float) (entry : Option EncoderAxisData) : Option EncoderAxisData :=
  entry.map fun a => { a with calpos := a.calpos + angle }

/-- A turn of the loop, and what it publishes. -/
def EIB7.turn (enc : EIB7) (t : Turn) : Option EncoderData :=
  if t.entries > 0 then
    let axis := fun i => if enc.inited i then some (enc.eadata t i) else none
    let axis := Function.update axis 1 (offset t.AngleOffsetC1 (axis 1))
    let axis := Function.update axis 3 (offset t.AngleOffsetC2 (axis 3))
    let edata := ⟨(List.finRange 4).countP enc.inited, axis⟩
    if edata.numAxis > 0 then some edata else none
  else none

/-- `outbound_data_queue` after `n` turns. Nothing is taken out of it. -/
def EIB7.queue (enc : EIB7) (n : Nat) : List EncoderData :=
  (List.range n).filterMap fun k => enc.turn (enc.turns k)

def InspectLastEncoderValues (queue : List EncoderData) : EncoderData :=
  match queue.getLast? with
  | some data => data
  | none => ⟨0, fun _ => none⟩

/-! ## The motions -/

/-- `axis[ax - 1]`, if it is in the array and written. -/
def EncoderData.entry (data : EncoderData) (ax : Int8) : Option EncoderAxisData :=
  if 1 ≤ ax.toInt ∧ ax.toInt ≤ 4 then data.axis (Fin.ofNat 4 (ax.toInt - 1).toNat) else none

/-- How many turns the encoder's loop has made before each reading of a motion. -/
structure Readings where
  seen : Nat → Nat
  later : Monotone seen

section

variable (enc : EIB7) (ax : Int8) (readings : Readings) (memory : Nat → Float)

/-- The position that is read in turn `k` of a motion, with what the memory holds where nobody has
written. -/
def EIB7.calpos (k : Nat) : Float :=
  match (InspectLastEncoderValues (enc.queue (readings.seen k))).entry ax with
  | some a => a.calpos
  | none => memory k

/-- What surrounds a motion that reads its positions from the encoder. -/
def EIB7.surround (around : Surroundings) : Surroundings :=
  { around with calpos := enc.calpos ax readings memory }

end

/-- The controller and the axis that a call of `MoveAbsolutePID` starts a motion with. -/
def starts (host : Host) (target : Int32) (group : Argument) : Option (PID × Int8) :=
  (host.starts target group).bind fun _ => host.pid_targets (targetId target group.c_str.bytes)

/-- The position is that of a sample of the axis that has been published. -/
def Sampled (queue : List EncoderData) (ax : Int8) (pos : Float) : Prop :=
  ∃ data ∈ queue, ∃ a, data.entry ax = some a ∧ a.axis = ax ∧ a.calpos = pos

/-- Every position that a motion feeds to its controller is, whatever the memory holds. -/
def FromSamples (host : Host) (enc : EIB7) (target : Int32) (group : Argument)
    (target_position : Float) (around : Surroundings) (readings : Readings) : Prop :=
  ∀ memory pid ax, starts host target group = some (pid, ax) → ∀ k,
    (relativeMove pid target_position (enc.surround ax readings memory around) k).isSome →
    Sampled (enc.queue (readings.seen k)) ax (enc.calpos ax readings memory k)

/-- The axis is one of the four, and initialised. -/
def EIB7.Reads (enc : EIB7) (ax : Int8) : Prop :=
  ∃ i : Fin 4, ax = Int8.ofNat (i.val + 1) ∧ enc.inited i = true

variable {enc : EIB7} {t : Turn} {data : EncoderData} {ax : Int8} {i : Fin 4} {n : Nat}
variable {readings : Readings} {memory : Nat → Float}

/-! ## What is published -/

theorem entry_axis (data : EncoderData) (i : Fin 4) :
    data.entry (Int8.ofNat (i.val + 1)) = data.axis i := by
  fin_cases i <;> rfl

/-- Only the four axes have entries. -/
theorem axis_of_entry {a : EncoderAxisData} (found : data.entry ax = some a) :
    ∃ i : Fin 4, ax = Int8.ofNat (i.val + 1) := by
  unfold EncoderData.entry at found
  split at found
  · rename_i inside
    have value (i : Fin 4) : (Int8.ofNat (i.val + 1)).toInt = i.val + 1 := by fin_cases i <;> rfl
    refine ⟨⟨(ax.toInt - 1).toNat, by omega⟩, Int8.toInt_inj.mp ?_⟩
    rw [value]
    simp only
    omega
  · cases found

theorem offset_axis (angle : Float) (entry : Option EncoderAxisData) :
    (offset angle entry).map EncoderAxisData.axis = entry.map EncoderAxisData.axis := by
  rw [offset, Option.map_map]
  rfl

/-- An initialised axis has an entry under its number, and another has none. -/
theorem turn_axis (published : enc.turn t = some data) (i : Fin 4) :
    (data.axis i).map EncoderAxisData.axis =
      if enc.inited i then some (Int8.ofNat (i.val + 1)) else none := by
  have filled (i : Fin 4) : (if enc.inited i then some (enc.eadata t i) else none).map
      EncoderAxisData.axis = if enc.inited i then some (Int8.ofNat (i.val + 1)) else none := by
    split <;> rfl
  unfold EIB7.turn at published
  split at published
  · dsimp only at published
    split at published
    · cases published
      fin_cases i
      · exact filled 0
      · exact (offset_axis _ _).trans (filled 1)
      · exact filled 2
      · exact (offset_axis _ _).trans (filled 3)
    · cases published
  · cases published

theorem queue_turn (member : data ∈ enc.queue n) : ∃ t, enc.turn t = some data := by
  obtain ⟨k, -, published⟩ := List.mem_filterMap.mp member
  exact ⟨_, published⟩

/-- What has been published stays in the queue. -/
theorem queue_grows (enc : EIB7) {m : Nat} (later : m ≤ n) : enc.queue m <+: enc.queue n := by
  rw [EIB7.queue, EIB7.queue, ← Nat.add_sub_cancel' later, List.range_add]
  rw [List.filterMap_append]
  exact List.prefix_append _ _

/-- An entry that is found is of an axis that the loop reads. -/
theorem reads_of_entry {a : EncoderAxisData} (member : data ∈ enc.queue n)
    (found : data.entry ax = some a) : enc.Reads ax := by
  obtain ⟨t, published⟩ := queue_turn member
  obtain ⟨i, rfl⟩ := axis_of_entry found
  refine ⟨i, rfl, ?_⟩
  have number := turn_axis published i
  rw [← entry_axis, found] at number
  by_contra other
  rw [if_neg other] at number
  cases number

theorem reads_of_sampled {pos : Float} (sampled : Sampled (enc.queue n) ax pos) :
    enc.Reads ax ∧ enc.queue n ≠ [] := by
  obtain ⟨data, member, a, found, -, -⟩ := sampled
  exact ⟨reads_of_entry member found, List.ne_nil_of_mem member⟩

/-- Of an axis that the loop reads, the last sample is found. -/
theorem sampled_of_reads (reads : enc.Reads ax) (some_there : enc.queue (readings.seen n) ≠ []) :
    Sampled (enc.queue (readings.seen n)) ax (enc.calpos ax readings memory n) := by
  obtain ⟨i, rfl, here⟩ := reads
  have last := List.getLast?_eq_some_getLast some_there
  have member := List.getLast_mem some_there
  generalize (enc.queue (readings.seen n)).getLast some_there = data at last member
  obtain ⟨t, published⟩ := queue_turn member
  have number := turn_axis published i
  rw [if_pos here] at number
  obtain ⟨a, found, axis⟩ := Option.map_eq_some_iff.mp number
  have entry : data.entry (Int8.ofNat (i.val + 1)) = some a := by rw [entry_axis, found]
  refine ⟨data, member, a, entry, axis, ?_⟩
  simp only [EIB7.calpos, InspectLastEncoderValues, last, entry]

/-- Where nothing has been read, the memory is. -/
theorem calpos_unread (unread : ¬ (enc.Reads ax ∧ enc.queue (readings.seen n) ≠ [])) :
    enc.calpos ax readings memory n = memory n := by
  rw [EIB7.calpos, InspectLastEncoderValues]
  cases last : (enc.queue (readings.seen n)).getLast? with
  | none => simp [EncoderData.entry]
  | some data =>
    have member := List.mem_of_getLast? last
    cases found : data.entry ax with
    | none => simp only
    | some a => exact absurd ⟨reads_of_entry member found, List.ne_nil_of_mem member⟩ unread

/-! ## The motions -/

/-- Some position is off a target that is a number, and none is off one that is not. -/
theorem off_iff (target_position : Float) :
    (∃ pos, Off target_position pos) ↔ Binary64.Number target_position := by
  constructor
  · rintro ⟨pos, off⟩
    by_contra other
    rw [Off, Binary64.sub_of_nan other] at off
    exact absurd off (by decide +kernel)
  · intro number
    obtain ⟨pos, far⟩ := Binary64.exists_far number
    refine ⟨pos, ?_⟩
    rw [Off, far]
    decide +kernel

/-- **The positions that are fed to the controller are samples of its axis**, for every mask of
initialised axes, every state of the queue and every axis, if and only if no motion is started, or its
target is not a number, or the axis is one that the loop reads, and has been read when the motion
begins. -/
theorem fromSamples_iff (host : Host) (enc : EIB7) (target : Int32) (group : Argument)
    (target_position : Float) (around : Surroundings) (readings : Readings) :
    FromSamples host enc target group target_position around readings ↔
      ∀ pid ax, starts host target group = some (pid, ax) →
        ¬ Binary64.Number target_position ∨
          enc.Reads ax ∧ enc.queue (readings.seen 0) ≠ [] := by
  constructor
  · intro samples pid ax started
    by_contra neither
    obtain ⟨number, unread⟩ := not_or.mp neither
    rw [not_not] at number
    obtain ⟨pos, off⟩ := (off_iff target_position).mpr number
    refine unread (reads_of_sampled (samples (fun _ => pos) pid ax started 0 ?_))
    rw [relativeMove_isSome_iff]
    refine ⟨rfl, ?_⟩
    change Off target_position (enc.calpos ax readings (fun _ => pos) 0)
    rwa [calpos_unread unread]
  · intro met memory pid ax started k moved
    rcases met pid ax started with other | ⟨reads, some_there⟩
    · exact absurd ((off_iff target_position).mp ⟨_, (relativeMove_isSome_iff.mp moved).2⟩) other
    · have grown := queue_grows enc (readings.later (Nat.zero_le k))
      exact sampled_of_reads reads fun none_there =>
        some_there (List.prefix_nil.mp (none_there ▸ grown))

/-! ## A queue without a sample -/

/-- The encoder of axis 2, which always reads the same. -/
def secondAxis (entries : Nat) : EIB7 where
  inited_axes := 2
  isigperiods _ := 36000.0
  IncrPosToDouble _ := 100.0
  turns _ := ⟨entries, 0, fun _ => ⟨0, 0, 0, (0, 0)⟩, 0.0, 0.0⟩

/-- A turn of the encoder for every turn of the motion, and one before. -/
def inStep : Readings := ⟨fun k => k + 1, fun _ _ later => Nat.succ_le_succ later⟩

/-- No packet has come: the motion is given what the memory holds. -/
theorem unread_position : ¬ FromSamples Targets.oneController (secondAxis 0) 1 Targets.noGroup 2.0
    Targets.hundred inStep := by
  intro samples
  have moved : (relativeMove (PIDParams 1.0 0.0 0.0 (-200.0) 200.0) 2.0
      ((secondAxis 0).surround 2 inStep (fun _ => 100.0) Targets.hundred) 0).isSome := by
    decide +kernel
  exact (reads_of_sampled (samples (fun _ => 100.0) (PIDParams 1.0 0.0 0.0 (-200.0) 200.0) 2 rfl 0
    moved)).2 rfl

end DCScan.Encoder

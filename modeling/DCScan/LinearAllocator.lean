import Mathlib.Algebra.Group.Nat.Defs
import DCScan.Lib.Throughout

/-!
`LinearAllocator`, over any sequence of `allocate`, `reset` and `release`.

The used size and the write position move together but in `release`, which sets back the used size
alone and frees the pool, and where the pool was not granted, whose allocations are counted and fail.
-/

namespace DCScan.Memory

open Lib

/-- `LinearDataPointer`. An address is a number, `nullptr` 0. -/
structure LinearDataPointer where
  data_start : Nat
  data : Nat
  size : UInt64
  usedSize : UInt64
  alignment : UInt64

/-- `LinearAllocator(u64 size, u64 align)`, with the answer of `malloc`. -/
def LinearDataPointer.create (start : Nat) (size align : UInt64) : LinearDataPointer :=
  ⟨start, start, size, 0, align⟩

/-- What `allocate` logs when it returns a null pointer. -/
inductive Refusal where
  /-- `Allocating %u bytes would result in buffer overrun. [Available: %u]` -/
  | overrun (bytes available : UInt64)
  /-- `Failed to allocated %u bytes in allocator.` -/
  | failed (bytes : UInt64)
  deriving DecidableEq, Repr

namespace LinearDataPointer

variable (buffer : LinearDataPointer)

/-- Both `allocate`, of an object of this size; the placement gives back the pointer it is given. -/
def allocate (bytes : UInt64) : LinearDataPointer × Except Refusal Nat :=
  let usedSize := buffer.usedSize + bytes
  if usedSize > buffer.size then
    ({ buffer with usedSize := usedSize - bytes },
      .error (.overrun bytes (buffer.size - (usedSize - bytes))))
  else if buffer.data = 0 then ({ buffer with usedSize := usedSize }, .error (.failed bytes))
  else ({ buffer with usedSize := usedSize, data := buffer.data + bytes.toNat }, .ok buffer.data)

/-- `release`, without the `free`. -/
def release : LinearDataPointer := { buffer with usedSize := 0 }

def reset : LinearDataPointer := { buffer with usedSize := 0, data := buffer.data_start }

end LinearDataPointer

/-- `sizeof(T)`: no object is empty. -/
structure ObjectSize where
  bytes : UInt64
  positive : bytes ≠ 0

inductive Op where
  | allocate (size : ObjectSize)
  | reset
  | release

/-- An allocator, whether its pool has been freed, and the blocks returned since the last reset: the
address of each and its size. -/
structure State where
  buffer : LinearDataPointer
  freed : Bool
  blocks : List (Nat × Nat)

def State.create (start : Nat) (size align : UInt64) : State :=
  ⟨.create start size align, false, []⟩

/-- `none` when the pool is freed again. -/
def step (s : State) : Op → Option State
  | .allocate size => match s.buffer.allocate size.bytes with
    | (buffer, .ok address) =>
      some { s with buffer := buffer, blocks := s.blocks ++ [(address, size.bytes.toNat)] }
    | (buffer, .error _) => some { s with buffer := buffer }
  | .reset => some { s with buffer := s.buffer.reset, blocks := [] }
  | .release =>
    if s.freed = true ∧ s.buffer.data_start ≠ 0 then none
    else some { s with buffer := s.buffer.release, freed := true }

/-- Two blocks have no byte in common. -/
def Apart (b c : Nat × Nat) : Prop := b.1 + b.2 ≤ c.1 ∨ c.1 + c.2 ≤ b.1

/-- The block lies in the pool that was allocated. -/
structure Inside (buffer : LinearDataPointer) (b : Nat × Nat) : Prop where
  allocated : buffer.data_start ≠ 0
  first : buffer.data_start ≤ b.1
  last : b.1 + b.2 ≤ buffer.data_start + buffer.size.toNat

structure Consistent (s : State) : Prop where
  position : s.buffer.data = s.buffer.data_start + s.buffer.usedSize.toNat
  used : s.buffer.usedSize ≤ s.buffer.size
  inside : ∀ b ∈ s.blocks, Inside s.buffer b
  apart : s.blocks.Pairwise Apart

/-- A refusal changes nothing, and nothing is handed out after a release. -/
def Answered (s t : State) : Op → Prop
  | .allocate size => match (s.buffer.allocate size.bytes).2 with
    | .ok _ => s.freed = false
    | .error _ => t.buffer = s.buffer
  | _ => True

/-- The operation is defined, answers as it should and leaves the allocator consistent. -/
def HandsOut (s : State) (op : Op) : Prop :=
  ∃ t, step s op = some t ∧ Consistent t ∧ Answered s t op

/-- What fits is allocated in a pool that is there, without a wrap of the used size, and the pool is
released once, and while nothing is used. -/
def Sound (s : State) : Op → Prop
  | .allocate size => s.buffer.usedSize + size.bytes ≤ s.buffer.size →
    s.buffer.data_start ≠ 0 ∧ s.freed = false ∧ s.buffer.usedSize.toNat + size.bytes.toNat < 2 ^ 64
  | .reset => True
  | .release => s.buffer.usedSize = 0 ∧ (s.freed = true → s.buffer.data_start = 0)

variable {s t : State} {op : Op} {bytes : UInt64}

/-- Everything returned is behind the write position. -/
structure Kept (s : State) : Prop extends Consistent s where
  below : ∀ b ∈ s.blocks, b.1 + b.2 ≤ s.buffer.data

theorem kept_create (start : Nat) (size align : UInt64) : Kept (.create start size align) where
  position := (Nat.add_zero start).symm
  used := UInt64.zero_le
  inside _ none_there := absurd none_there List.not_mem_nil
  apart := .nil
  below _ none_there := absurd none_there List.not_mem_nil

/-! ## Allocating -/

theorem allocate_refused {buffer : LinearDataPointer} (large : buffer.size < buffer.usedSize + bytes) :
    buffer.allocate bytes = (buffer, .error (.overrun bytes (buffer.size - buffer.usedSize))) := by
  simp only [LinearDataPointer.allocate, if_pos large, UInt64.add_sub_cancel]

theorem allocate_failed {buffer : LinearDataPointer} (fits : buffer.usedSize + bytes ≤ buffer.size)
    (null : buffer.data = 0) : buffer.allocate bytes =
      ({ buffer with usedSize := buffer.usedSize + bytes }, .error (.failed bytes)) := by
  simp only [LinearDataPointer.allocate, if_neg (UInt64.not_lt.mpr fits), if_pos null]

theorem allocate_ok {buffer : LinearDataPointer} (fits : buffer.usedSize + bytes ≤ buffer.size)
    (there : buffer.data ≠ 0) : buffer.allocate bytes =
      ({ buffer with usedSize := buffer.usedSize + bytes, data := buffer.data + bytes.toNat },
        .ok buffer.data) := by
  simp only [LinearDataPointer.allocate, if_neg (UInt64.not_lt.mpr fits), if_neg there]

/-- **A sound operation** hands out what it should. -/
theorem step_kept (kept : Kept s) (sound : Sound s op) :
    ∃ t, step s op = some t ∧ Kept t ∧ Answered s t op := by
  cases op with
  | allocate size =>
    obtain ⟨bytes, positive⟩ := size
    rcases UInt64.le_or_lt (s.buffer.usedSize + bytes) s.buffer.size with fits | large
    · obtain ⟨allocated, unfreed, small⟩ := sound fits
      have there : s.buffer.data ≠ 0 := by
        rw [kept.position]
        omega
      have grown : (s.buffer.usedSize + bytes).toNat = s.buffer.usedSize.toNat + bytes.toNat := by
        rw [UInt64.toNat_add, Nat.mod_eq_of_lt small]
      have room := UInt64.le_iff_toNat_le.mp fits
      have position := kept.position
      refine ⟨{ s with
        buffer := { s.buffer with
          usedSize := s.buffer.usedSize + bytes
          data := s.buffer.data + bytes.toNat }
        blocks := s.blocks ++ [(s.buffer.data, bytes.toNat)] }, ?_, ⟨⟨?_, fits, ?_, ?_⟩, ?_⟩, ?_⟩
      · rw [step, allocate_ok fits there]
      · change s.buffer.data + bytes.toNat = _ + (s.buffer.usedSize + bytes).toNat
        rw [grown, position, Nat.add_assoc]
      · refine List.forall_mem_append.mpr ⟨fun b before => ?_, List.forall_mem_singleton.mpr ?_⟩
        · exact ⟨allocated, (kept.inside b before).first, (kept.inside b before).last⟩
        · refine ⟨allocated, position.symm ▸ Nat.le_add_right _ _, ?_⟩
          change s.buffer.data + bytes.toNat ≤ _
          rw [position, Nat.add_assoc, ← grown]
          exact Nat.add_le_add_left room _
      · refine List.pairwise_append.mpr ⟨kept.apart, List.pairwise_singleton .., fun b before c new => ?_⟩
        obtain rfl := List.mem_singleton.mp new
        exact Or.inl (kept.below b before)
      · refine List.forall_mem_append.mpr ⟨fun b before => ?_, List.forall_mem_singleton.mpr ?_⟩
        · exact Nat.le_trans (kept.below b before) (Nat.le_add_right _ _)
        · exact Nat.le_refl _
      · rw [Answered, allocate_ok fits there]
        exact unfreed
    · refine ⟨s, ?_, kept, ?_⟩
      · rw [step, allocate_refused large]
      · rw [Answered, allocate_refused large]
  | reset =>
    exact ⟨_, rfl, ⟨⟨(Nat.add_zero _).symm, UInt64.zero_le, fun _ none_there =>
      absurd none_there List.not_mem_nil, .nil⟩, fun _ none_there =>
      absurd none_there List.not_mem_nil⟩, trivial⟩
  | release =>
    obtain ⟨unused, once⟩ := sound
    have defined : ¬ (s.freed = true ∧ s.buffer.data_start ≠ 0) := fun again => again.2 (once again.1)
    have same : s.buffer.release = s.buffer := by
      rw [LinearDataPointer.release, ← unused]
    refine ⟨_, if_neg defined, ?_, trivial⟩
    rw [same]
    exact ⟨⟨kept.position, kept.used, kept.inside, kept.apart⟩, kept.below⟩

/-- **Only a sound operation** does. -/
theorem sound_of_handsOut (kept : Kept s) (right : HandsOut s op) : Sound s op := by
  obtain ⟨t, ran, consistent, answered⟩ := right
  cases op with
  | allocate size =>
    obtain ⟨bytes, positive⟩ := size
    intro fits
    have there : s.buffer.data ≠ 0 := by
      intro null
      rw [step, allocate_failed fits null] at ran
      rw [Answered, allocate_failed fits null] at answered
      obtain rfl := Option.some.inj ran
      have counted : s.buffer.usedSize + bytes = s.buffer.usedSize :=
        congrArg LinearDataPointer.usedSize answered
      exact positive (by simpa using counted)
    rw [step, allocate_ok fits there] at ran
    rw [Answered, allocate_ok fits there] at answered
    obtain rfl := Option.some.inj ran
    have inside := consistent.inside _ (List.mem_append_right _ List.mem_cons_self)
    refine ⟨inside.allocated, answered, ?_⟩
    have moved : s.buffer.data + bytes.toNat = s.buffer.data_start +
      (s.buffer.usedSize + bytes).toNat := consistent.position
    rw [kept.position, Nat.add_assoc, Nat.add_left_cancel_iff] at moved
    exact moved ▸ UInt64.toNat_lt _
  | reset => trivial
  | release =>
    rw [step] at ran
    split_ifs at ran with again
    obtain rfl := Option.some.inj ran
    refine ⟨?_, fun freed => by_contra fun there => again ⟨freed, there⟩⟩
    have back : s.buffer.data = s.buffer.data_start + (0 : UInt64).toNat := consistent.position
    rw [kept.position] at back
    exact UInt64.toNat_inj.mp (Nat.add_left_cancel back)

/-- **The linear allocator hands out disjoint memory of its pool** throughout a run, if and only if what
fits is allocated in a pool that was granted and is not released, no size wraps the used size, and the
pool is released once, while nothing is used. -/
theorem linear_allocator_iff (start : Nat) (size align : UInt64) (ops : List Op) :
    Throughout step HandsOut (.create start size align) ops ↔
      Throughout step Sound (.create start size align) ops := by
  have always : Throughout step (fun _ _ => True) (.create start size align) ops :=
    throughout_of_forall fun _ _ => trivial
  refine throughout_iff Kept (kept_create ..) always (fun s op kept _ => ?_)
    fun s op t kept _ right ran => ?_
  · constructor
    · exact sound_of_handsOut kept
    · intro sound
      obtain ⟨t, ran, kept', answered⟩ := step_kept kept sound
      exact ⟨t, ran, kept'.toConsistent, answered⟩
  · obtain ⟨t', ran', kept', -⟩ := step_kept kept (sound_of_handsOut kept right)
    obtain rfl := Option.some.inj (ran.symm.trans ran')
    exact kept'

theorem four_ne_zero : (4 : UInt64) ≠ 0 := by decide

/-- `sizeof(int)`. -/
def sizeofInt : ObjectSize := ⟨4, four_ne_zero⟩

/-- A pool of two integers, released after one is allocated: the write position stays behind it, and
what is freed is handed out. -/
theorem handed_out_after_release :
    ¬ Throughout step HandsOut (.create 4096 8 0) 
      [.allocate sizeofInt, .release, .allocate sizeofInt] ∧
    ∃ s, [Op.allocate sizeofInt, .release].foldlM step (.create 4096 8 0) = some s ∧ s.freed = true ∧
      (s.buffer.allocate sizeofInt.bytes).2 = .ok 4100 := by
  refine ⟨?_, _, rfl, rfl, rfl⟩
  rintro ⟨-, allocated⟩
  obtain ⟨⟨t, ran, consistent, -⟩, -⟩ := allocated _ rfl
  cases ran
  exact absurd consistent.position (by decide)

end DCScan.Memory

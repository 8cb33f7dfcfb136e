import DCScan.Lib.Throughout
import DCScan.Lib.Unwritten

/-!
`Utils::Vector`, over any sequence of operations on any number of vectors.

A vector that was never allocated is given one element's memory whatever is reserved, its copy has a
block of no length that cannot grow, and the move constructor moves the new, empty, vector into its
source. In the runs that do none of this the vectors are the lists they stand for, as long as memory
is granted.
-/

namespace DCScan.Utils

open Lib

/-- A plain element type, as far as memory is concerned. -/
structure Plain where
  sizeof : Nat
  positive : 0 < sizeof

variable {α : Type}

section memory
variable (T : Plain) (granted : Bool)

/-- The bytes of `count` elements, as a `size_t`. -/
def Plain.bytes (count : Nat) : Nat := count * T.sizeof % 2 ^ 64

/-- The elements that have room in as many bytes. -/
def Plain.room (count : Nat) : Nat := T.bytes count / T.sizeof

/-- `(T*)malloc(count * sizeof(T))`. A block of no bytes is a block. -/
def malloc (count : Nat) : Option (Block α) :=
  if granted then some (.unwritten (T.room count)) else none

/-- `(T*)realloc(data, count * sizeof(T))`. For no bytes the block is freed. -/
def realloc (data : Option (Block α)) (count : Nat) : Option (Block α) :=
  if granted = true ∧ T.bytes count ≠ 0 then
    some ((data.getD []).take (T.room count) ++ .unwritten (T.room count - (data.getD []).length))
  else none

end memory

structure Vector (α : Type) where
  /-- The block it points to, if not `nullptr`. -/
  data : Option (Block α) := none
  max_size : Nat := 0
  end_offset : Nat := 0

namespace Vector

/-- `Vector()`. -/
def empty : Vector α := {}

def size (v : Vector α) : Nat := v.end_offset

def capacity (v : Vector α) : Nat := v.max_size

/-- What lies behind `data`. -/
def block (v : Vector α) : Block α := v.data.getD []

/-- `operator[]` at each index below `size()`. -/
def elements (v : Vector α) : Block α := v.block.take v.size

/-- The elements `reallocate` asks for, unless it returns. -/
def alloc_sz (v : Vector α) (sz : Nat) : Option Nat :=
  if v.data = none then some 1
  else if sz = 0 then some (v.max_size * 2)
  else if v.max_size < sz then some sz
  else none

section operations
variable (T : Plain) (granted : Bool) (v : Vector α)

def destroy : Vector α := { v with data := none }

def reallocate (sz : Nat) : Vector α :=
  match v.alloc_sz sz with
  | some asked =>
    { v with data := realloc T granted v.data (asked % 2 ^ 64), max_size := asked % 2 ^ 64 }
  | none => v

def reserve (count : Nat) : Vector α := v.reallocate T granted count

/-- `new (data + end_offset++) T(args...)`; `none` when it is not in the block. -/
def construct (x : α) : Option (Vector α) :=
  if v.end_offset < v.block.length then
    some { v with data := some (v.block.set v.end_offset (some x)), end_offset := v.end_offset + 1 }
  else none

/-- `emplace`, with the element its arguments make. -/
def emplace (x : α) : Option (Vector α) :=
  if v.max_size ≤ v.end_offset then (v.reallocate T granted 0).construct x else v.construct x

/-- Both `push`. -/
def push (x : α) : Option (Vector α) := v.emplace T granted x

/-- `Vector(const Vector<T>&)`; `none` when `memcpy` leaves a block. -/
def copy : Option (Vector α) :=
  let this : Vector α := empty.destroy
  let data := malloc T granted v.max_size
  if v.end_offset ≤ (data.getD []).length ∧ v.end_offset ≤ v.block.length then
    some { this with
      data := data.map fun block => blit block 0 (v.block.take v.end_offset)
      max_size := v.max_size
      end_offset := v.end_offset }
  else none

end operations

/-- `Vector(Vector<T>&&)`: the new vector, and the one it is constructed from. -/
def move (v : Vector α) : Vector α × Vector α :=
  let this : Vector α := empty.destroy
  (this, { v with data := this.data, max_size := this.max_size, end_offset := this.end_offset })

end Vector

/-! ## Sequences of operations -/

/-- An operation on the `i`th vector, with whether the memory it may ask for is granted. -/
inductive Op (α : Type) where
  | construct
  | push (i : Nat) (x : α) (granted : Bool)
  | emplace (i : Nat) (x : α) (granted : Bool)
  | reserve (i count : Nat) (granted : Bool)
  | copy (i : Nat) (granted : Bool)
  | move (i : Nat)

/-- The vectors in the order of their construction, and the lists they stand for. -/
structure State (α : Type) where
  vectors : List (Vector α)
  lists : List (List α)

def State.initial : State α := ⟨[], []⟩

/-- An operation on one vector, if there is one. -/
def onVector (vectors : List (Vector α)) (i : Nat)
    (f : Vector α → Option (List (Vector α))) : Option (List (Vector α)) :=
  (vectors[i]?).elim (some vectors) f

/-- The vectors after an operation; `none` when it leaves its block. -/
def operate (T : Plain) (vectors : List (Vector α)) : Op α → Option (List (Vector α))
  | .construct => some (vectors ++ [.empty])
  | .push i x granted => onVector vectors i fun v => (v.push T granted x).map (vectors.set i)
  | .emplace i x granted => onVector vectors i fun v => (v.emplace T granted x).map (vectors.set i)
  | .reserve i count granted =>
    onVector vectors i fun v => some (vectors.set i (v.reserve T granted count))
  | .copy i granted => onVector vectors i fun v => (v.copy T granted).map (vectors ++ [·])
  | .move i => onVector vectors i fun v => some (vectors.set i v.move.2 ++ [v.move.1])

/-- What the operation does to lists. -/
def specified (lists : List (List α)) : Op α → List (List α)
  | .construct => lists ++ [[]]
  | .push i x _ => (lists[i]?).elim lists fun l => lists.set i (l ++ [x])
  | .emplace i x _ => (lists[i]?).elim lists fun l => lists.set i (l ++ [x])
  | .reserve .. => lists
  | .copy i _ => (lists[i]?).elim lists fun l => lists ++ [l]
  | .move i => (lists[i]?).elim lists fun l => lists.set i [] ++ [l]

def step (T : Plain) (s : State α) (op : Op α) : Option (State α) :=
  (operate T s.vectors op).map fun vectors => ⟨vectors, specified s.lists op⟩

/-- The vector has the size and the elements of the list, and the capacity for them. -/
structure Represents (v : Vector α) (l : List α) : Prop where
  size : v.size = l.length
  elements : v.elements = .ofList l
  capacity : v.size ≤ v.capacity

/-- After `reserve(n)` there is capacity for `n`. -/
def Reserved (vectors : List (Vector α)) : Op α → Prop
  | .reserve i count _ => ∀ v, vectors[i]? = some v → count ≤ v.capacity
  | _ => True

/-- The operation does what it would do to lists. -/
def Refines (T : Plain) (s : State α) (op : Op α) : Prop :=
  ∃ t, step T s op = some t ∧ List.Forall₂ Represents t.vectors t.lists ∧ Reserved t.vectors op

/-- The elements the operation asks for, and whether they are granted. -/
def request (vectors : List (Vector α)) : Op α → Option (Nat × Bool)
  | .push i _ granted | .emplace i _ granted => (vectors[i]?).bind fun v =>
    if v.max_size ≤ v.end_offset then (v.alloc_sz 0).map (·, granted) else none
  | .reserve i count granted => (vectors[i]?).bind fun v => (v.alloc_sz count).map (·, granted)
  | .copy i granted => (vectors[i]?).map fun v => (v.max_size, granted)
  | _ => none

/-- Memory that is asked for is granted, and has a size. -/
def Granted (T : Plain) (s : State α) (op : Op α) : Prop :=
  ∀ asked granted, request s.vectors op = some (asked, granted) →
    granted = true ∧ asked * T.sizeof < 2 ^ 64

/-- Nothing is added to a block of no length, no more than one element is reserved where there is no
block, and nothing is moved from a vector that has elements. -/
def Sound (s : State α) : Op α → Prop
  | .push i _ _ | .emplace i _ _ => ∀ v, s.vectors[i]? = some v → v.data ≠ some []
  | .reserve i count _ => ∀ v, s.vectors[i]? = some v → v.data = none → count ≤ 1
  | .move i => ∀ v, s.vectors[i]? = some v → v.end_offset = 0
  | _ => True

variable {T : Plain} {v w : Vector α} {l : List α} {x : α} {asked sz : Nat}

/-! ## Memory -/

theorem Plain.bytes_eq (fits : asked * T.sizeof < 2 ^ 64) : T.bytes asked = asked * T.sizeof :=
  Nat.mod_eq_of_lt fits

theorem Plain.room_eq (fits : asked * T.sizeof < 2 ^ 64) : T.room asked = asked := by
  rw [room, bytes_eq fits, Nat.mul_div_cancel _ T.positive]

theorem Plain.lt_of_fits (fits : asked * T.sizeof < 2 ^ 64) : asked < 2 ^ 64 :=
  (Nat.le_mul_of_pos_right asked T.positive).trans_lt fits

theorem malloc_block (fits : asked * T.sizeof < 2 ^ 64) :
    (malloc T true asked : Option (Block α)) = some (.unwritten asked) := by
  rw [malloc, if_pos rfl, Plain.room_eq fits]

theorem realloc_block (fits : asked * T.sizeof < 2 ^ 64) (data : Option (Block α)) :
    (realloc T true data asked).getD [] =
      (data.getD []).take asked ++ .unwritten (asked - (data.getD []).length) := by
  rw [realloc, Plain.room_eq fits, Plain.bytes_eq fits]
  split
  · rfl
  · rename_i nothing
    have none_asked : asked = 0 := by
      by_contra some_asked
      exact nothing ⟨rfl, (Nat.mul_pos (Nat.pos_of_ne_zero some_asked) T.positive).ne'⟩
    rw [none_asked, List.take_zero, Nat.zero_sub]
    rfl

namespace Vector

/-- The block holds as many elements as the vector has capacity for. -/
structure Sized (T : Plain) (v : Vector α) : Prop where
  length : v.block.length = v.max_size
  fits : v.max_size * T.sizeof < 2 ^ 64

theorem sized_empty : Sized T (empty : Vector α) where
  length := rfl
  fits := by
    rw [empty, Nat.zero_mul]
    exact Nat.two_pow_pos 64

theorem represents_empty : Represents (empty : Vector α) [] := ⟨rfl, rfl, Nat.le_refl 0⟩

/-- A vector without a block has no capacity. -/
theorem Sized.max_size_eq_zero (sized : Sized T v) (unallocated : v.data = none) :
    v.max_size = 0 := by
  rw [← sized.length, block, unallocated]
  rfl

/-- One with a block of no length has none either. -/
theorem Sized.max_size_of_nil (sized : Sized T v) (no_length : v.data = some []) :
    v.max_size = 0 := by
  rw [← sized.length, block, no_length]
  rfl

theorem reallocate_none (returns : v.alloc_sz sz = none) (granted : Bool) :
    v.reallocate T granted sz = v := by
  rw [reallocate, returns]

theorem reallocate_some (asks : v.alloc_sz sz = some asked) (fits : asked * T.sizeof < 2 ^ 64) :
    v.reallocate T true sz = { v with data := realloc T true v.data asked, max_size := asked } := by
  simp only [reallocate, asks, Nat.mod_eq_of_lt (Plain.lt_of_fits fits)]

/-- Memory for as many elements as there are keeps them. -/
theorem reallocate_represents (represents : Represents v l) (sized : Sized T v)
    (asks : v.alloc_sz sz = some asked) (fits : asked * T.sizeof < 2 ^ 64)
    (enough : v.size ≤ asked) :
    Represents (v.reallocate T true sz) l ∧ Sized T (v.reallocate T true sz) ∧
      (v.reallocate T true sz).max_size = asked := by
  rw [reallocate_some asks fits]
  have inside : v.end_offset ≤ v.block.length := by
    rw [sized.length]
    exact represents.capacity
  have block_eq := realloc_block fits v.data
  refine ⟨⟨represents.size, ?_, enough⟩, ⟨?_, fits⟩, rfl⟩
  · rw [← represents.elements, elements, block, block_eq, elements, size]
    have kept : v.end_offset ≤ ((v.data.getD []).take asked).length := by
      rw [List.length_take]
      exact le_min enough inside
    have cut : min v.end_offset asked = v.end_offset := min_eq_left enough
    rw [List.take_append_of_le_length kept, List.take_take, cut]
    rfl
  · rw [block, block_eq, List.length_append, List.length_take, Block.length_unwritten]
    exact (by omega : ∀ a b : Nat, min a b + (a - b) = a) _ _

/-- An element is added where there is room for it. -/
theorem construct_represents (represents : Represents v l) (sized : Sized T v)
    (room : v.end_offset < v.max_size) (x : α) :
    ∃ w, v.construct x = some w ∧ Represents w (l ++ [x]) ∧ Sized T w := by
  have inside : v.end_offset < v.block.length := by
    rw [sized.length]
    exact room
  refine ⟨_, if_pos inside, ⟨?_, ?_, room⟩, ⟨?_, sized.fits⟩⟩
  · rw [List.length_append, ← represents.size]
    rfl
  · have before := represents.elements
    rw [elements, size] at before
    change (v.block.set v.end_offset (some x)).take (v.end_offset + 1) = _
    rw [List.take_add_one, List.getElem?_set_self inside, List.take_set_of_le (Nat.le_refl _),
      before, Block.ofList, Block.ofList, List.map_append]
    rfl
  · change (v.block.set v.end_offset (some x)).length = v.max_size
    rw [List.length_set, sized.length]

/-- A refused or unsuccessful construction leaves nothing. -/
theorem construct_eq_none (outside : v.block.length ≤ v.end_offset) (x : α) :
    v.construct x = none := if_neg (Nat.not_lt.mpr outside)

/-- What `emplace` asks for when there is no room is more than there is, unless the block has no
length. -/
theorem alloc_sz_zero (represents : Represents v l) (sized : Sized T v)
    (full : v.max_size ≤ v.end_offset) (some_length : v.data ≠ some []) :
    ∃ asked, v.alloc_sz 0 = some asked ∧ v.end_offset < asked := by
  have capacity : v.end_offset ≤ v.max_size := represents.capacity
  rw [alloc_sz]
  split
  · rename_i unallocated
    have none_there := sized.max_size_eq_zero unallocated
    exact ⟨1, rfl, by omega⟩
  · rename_i allocated
    have positive : v.max_size ≠ 0 := by
      intro none_there
      obtain ⟨block, points⟩ := Option.ne_none_iff_exists'.mp allocated
      have length := sized.length
      rw [Vector.block, points, none_there, Option.getD_some, List.length_eq_zero_iff] at length
      exact some_length (by rw [points, length])
    exact ⟨v.max_size * 2, rfl, by omega⟩

/-- An element is added to every vector but one whose block has no length. -/
theorem emplace_represents (represents : Represents v l) (sized : Sized T v)
    (some_length : v.data ≠ some []) {granted : Bool}
    (given : v.max_size ≤ v.end_offset → ∀ asked, v.alloc_sz 0 = some asked →
      granted = true ∧ asked * T.sizeof < 2 ^ 64) (x : α) :
    ∃ w, v.emplace T granted x = some w ∧ Represents w (l ++ [x]) ∧ Sized T w := by
  rw [emplace]
  split
  · rename_i full
    obtain ⟨asked, asks, more⟩ := alloc_sz_zero represents sized full some_length
    obtain ⟨rfl, fits⟩ := given full asked asks
    obtain ⟨represents', sized', grown⟩ :=
      reallocate_represents represents sized asks fits (Nat.le_of_lt more)
    have same : (v.reallocate T true 0).end_offset = v.end_offset := by
      rw [reallocate_some asks fits]
    exact construct_represents represents' sized' (by rw [same, grown]; exact more) x
  · rename_i room
    exact construct_represents represents sized (Nat.lt_of_not_le room) x

/-- A vector with elements has a block of some length. -/
theorem some_length_of_ne_nil (represents : Represents v l) (sized : Sized T v) (some_there : l ≠ []) :
    v.data ≠ some [] := by
  intro no_length
  have capacity : v.size ≤ v.max_size := represents.capacity
  rw [sized.max_size_of_nil no_length, represents.size] at capacity
  exact some_there (List.length_eq_zero_iff.mp (Nat.le_zero.mp capacity))

/-- An element is added if twice as many as there will be have a size. -/
theorem emplace_granted (represents : Represents v l) (sized : Sized T v)
    (some_length : v.data ≠ some []) (fits : 2 * (l.length + 1) * T.sizeof < 2 ^ 64) (x : α) :
    ∃ w, v.emplace T true x = some w ∧ Represents w (l ++ [x]) ∧ Sized T w ∧ w.data ≠ some [] := by
  have length : v.end_offset = l.length := represents.size
  have given : v.max_size ≤ v.end_offset → ∀ asked, v.alloc_sz 0 = some asked →
      true = true ∧ asked * T.sizeof < 2 ^ 64 := by
    intro full asked asks
    have little : asked ≤ 2 * (l.length + 1) := by
      rw [alloc_sz] at asks
      split_ifs at asks <;> cases asks <;> omega
    exact ⟨rfl, (Nat.mul_le_mul_right _ little).trans_lt fits⟩
  obtain ⟨w, added, represents', sized'⟩ :=
    emplace_represents represents sized some_length given x
  have some_there : l ++ [x] ≠ [] := List.append_ne_nil_of_right_ne_nil _ (List.cons_ne_nil _ _)
  exact ⟨w, added, represents', sized', some_length_of_ne_nil represents' sized' some_there⟩

/-- To one whose block has none, nothing can be added. -/
theorem emplace_eq_none (sized : Sized T v) (no_length : v.data = some []) (x : α) :
    v.emplace T true x = none := by
  have none_there := sized.max_size_of_nil no_length
  have full : v.max_size ≤ v.end_offset := none_there ▸ Nat.zero_le _
  have asks : v.alloc_sz 0 = some 0 := by
    rw [alloc_sz, no_length, none_there]
    rfl
  have fits : 0 * T.sizeof < 2 ^ 64 := by
    rw [Nat.zero_mul]
    exact Nat.two_pow_pos 64
  rw [emplace, if_pos full, reallocate_some asks fits]
  refine construct_eq_none ?_ x
  have block_eq := realloc_block fits v.data
  rw [List.take_zero, Nat.zero_sub] at block_eq
  rw [block, block_eq]
  exact Nat.zero_le _

theorem copy_represents (represents : Represents v l) (sized : Sized T v) :
    ∃ w, v.copy T true = some w ∧ Represents w l ∧ Sized T w := by
  have capacity : v.end_offset ≤ v.max_size := represents.capacity
  have inside : v.end_offset ≤ v.block.length := by
    rw [sized.length]
    exact capacity
  have length : (v.block.take v.end_offset).length = v.end_offset := by
    rw [List.length_take, min_eq_left inside]
  have copied : v.copy T true = some
      ⟨some (blit (Block.unwritten v.max_size) 0 (v.block.take v.end_offset)), v.max_size,
        v.end_offset⟩ := by
    simp only [copy, malloc_block sized.fits, Option.getD_some, Block.length_unwritten,
      if_pos (And.intro capacity inside), Option.map_some]
  refine ⟨_, copied, ⟨represents.size, ?_, capacity⟩, ⟨?_, sized.fits⟩⟩
  · rw [← represents.elements]
    change (blit _ 0 (v.block.take v.end_offset)).take v.end_offset = v.block.take v.end_offset
    have front : (blit (Block.unwritten v.max_size) 0 (v.block.take v.end_offset)).take
        (v.block.take v.end_offset).length = v.block.take v.end_offset := blit_zero_take
    rwa [length] at front
  · change (blit _ 0 (v.block.take v.end_offset)).length = v.max_size
    rw [blit_length, Block.length_unwritten]
    rw [length, Block.length_unwritten, Nat.zero_add]
    exact capacity

/-- Reserving gives the capacity, unless there is no block and more than one element is reserved. -/
theorem reserve_represents (represents : Represents v l) (sized : Sized T v) {count : Nat}
    {granted : Bool} (little : v.data = none → count ≤ 1)
    (given : ∀ asked, v.alloc_sz count = some asked →
      granted = true ∧ asked * T.sizeof < 2 ^ 64) :
    Represents (v.reserve T granted count) l ∧ Sized T (v.reserve T granted count) ∧
      count ≤ (v.reserve T granted count).capacity := by
  rw [reserve]
  cases asks : v.alloc_sz count with
  | none =>
    rw [reallocate_none asks]
    refine ⟨represents, sized, ?_⟩
    rw [alloc_sz] at asks
    split_ifs at asks with unallocated nothing more
    exact Nat.le_of_not_lt more
  | some asked =>
    obtain ⟨rfl, fits⟩ := given asked asks
    have capacity : v.end_offset ≤ v.max_size := represents.capacity
    have enough : v.size ≤ asked ∧ count ≤ asked := by
      rw [size]
      rw [alloc_sz] at asks
      split_ifs at asks with unallocated nothing more
      · cases asks
        have none_there := sized.max_size_eq_zero unallocated
        exact ⟨by omega, little unallocated⟩
      · cases asks
        exact ⟨by omega, by omega⟩
      · cases asks
        exact ⟨by omega, Nat.le_refl _⟩
    obtain ⟨represents', sized', grown⟩ :=
      reallocate_represents represents sized asks fits enough.1
    exact ⟨represents', sized', enough.2.trans_eq grown.symm⟩

/-- Where there is no block, the capacity is one whatever is reserved. -/
theorem reserve_unallocated (unallocated : v.data = none) (granted : Bool) (count : Nat) :
    (v.reserve T granted count).capacity = 1 := by
  simp only [reserve, reallocate, alloc_sz, if_pos unallocated, capacity]
  rfl

end Vector

/-! ## Runs -/

variable {s t : State α} {op : Op α} {vectors : List (Vector α)} {i : Nat}

/-- Each vector represents its list, in a block of its capacity. -/
def Kept (T : Plain) (s : State α) : Prop :=
  List.Forall₂ (fun v l => Represents v l ∧ v.Sized T) s.vectors s.lists

theorem Kept.represents (kept : Kept T s) : List.Forall₂ Represents s.vectors s.lists :=
  kept.imp fun _ _ both => both.1

/-- What a step that is right leads to. -/
theorem step_eq_some : step T s op = some t ↔
    ∃ vectors, operate T s.vectors op = some vectors ∧ ⟨vectors, specified s.lists op⟩ = t :=
  Option.map_eq_some_iff

/-- An operation on one vector that goes right. -/
theorem onVector_some {f : Vector α → Option (List (Vector α))} (here : vectors[i]? = some v) :
    onVector vectors i f = f v := by
  rw [onVector, here, Option.elim_some]

theorem onVector_none {f : Vector α → Option (List (Vector α))} (beyond : vectors[i]? = none) :
    onVector vectors i f = some vectors := by
  rw [onVector, beyond, Option.elim_none]

/-- Both ways of adding an element. -/
theorem emplace_step (kept : Kept T s) {granted : Bool} {x : α}
    (given : ∀ v, s.vectors[i]? = some v → v.max_size ≤ v.end_offset →
      ∀ asked, v.alloc_sz 0 = some asked → granted = true ∧ asked * T.sizeof < 2 ^ 64)
    (sound : ∀ v, s.vectors[i]? = some v → v.data ≠ some []) :
    ∃ vectors, (onVector s.vectors i fun v => (v.emplace T granted x).map (s.vectors.set i)) =
        some vectors ∧
      Kept T ⟨vectors, (s.lists[i]?).elim s.lists fun l => s.lists.set i (l ++ [x])⟩ := by
  cases here : s.vectors[i]? with
  | none =>
    rw [forall₂_getElem?_none kept here]
    exact ⟨_, onVector_none here, kept⟩
  | some v =>
    obtain ⟨l, there, represents, sized⟩ := forall₂_getElem? kept here
    obtain ⟨w, added, represents', sized'⟩ :=
      Vector.emplace_represents represents sized (sound v here) (given v here) x
    refine ⟨s.vectors.set i w, ?_, ?_⟩
    · rw [onVector_some here, added, Option.map_some]
    · rw [there]
      exact forall₂_set kept ⟨represents', sized'⟩

/-- **A sound operation** that is granted its memory does what it would do to lists. -/
theorem step_kept (kept : Kept T s) (granted : Granted T s op) (sound : Sound s op) :
    ∃ t, step T s op = some t ∧ Kept T t ∧ Reserved t.vectors op := by
  suffices goal : ∃ vectors, operate T s.vectors op = some vectors ∧
      Kept T ⟨vectors, specified s.lists op⟩ ∧ Reserved vectors op by
    obtain ⟨vectors, done, goal⟩ := goal
    exact ⟨_, step_eq_some.mpr ⟨vectors, done, rfl⟩, goal⟩
  cases op with
  | construct =>
    exact ⟨_, rfl, forall₂_concat kept ⟨Vector.represents_empty, Vector.sized_empty⟩, trivial⟩
  | push i x given =>
    obtain ⟨vectors, done, kept⟩ := emplace_step kept (fun v here full asked asks =>
      granted asked given (by rw [request, here, Option.bind_some, if_pos full, asks]; rfl)) sound
    exact ⟨vectors, done, kept, trivial⟩
  | emplace i x given =>
    obtain ⟨vectors, done, kept⟩ := emplace_step kept (fun v here full asked asks =>
      granted asked given (by rw [request, here, Option.bind_some, if_pos full, asks]; rfl)) sound
    exact ⟨vectors, done, kept, trivial⟩
  | reserve i count given =>
    cases here : s.vectors[i]? with
    | none =>
      refine ⟨_, onVector_none here, kept, fun v there => ?_⟩
      rw [here] at there
      cases there
    | some v =>
      obtain ⟨l, there, represents, sized⟩ := forall₂_getElem? kept here
      obtain ⟨represents', sized', enough⟩ :=
        Vector.reserve_represents represents sized (sound v here) fun asked asks =>
          granted asked given (by rw [request, here, Option.bind_some, asks]; rfl)
      refine ⟨_, onVector_some here, forall₂_set_left kept there ⟨represents', sized'⟩, ?_⟩
      intro w found
      obtain ⟨inside, -⟩ := List.getElem?_eq_some_iff.mp here
      rw [List.getElem?_set_self inside, Option.some.injEq] at found
      exact found ▸ enough
  | copy i given =>
    cases here : s.vectors[i]? with
    | none =>
      rw [specified, forall₂_getElem?_none kept here]
      exact ⟨_, onVector_none here, kept, trivial⟩
    | some v =>
      obtain ⟨l, there, represents, sized⟩ := forall₂_getElem? kept here
      obtain ⟨rfl, _⟩ := granted v.max_size given (by rw [request, here]; rfl)
      obtain ⟨w, copied, represents', sized'⟩ := Vector.copy_represents represents sized
      refine ⟨s.vectors ++ [w], ?_, ?_, trivial⟩
      · rw [operate, onVector_some here, copied, Option.map_some]
      · rw [specified, there]
        exact forall₂_concat kept ⟨represents', sized'⟩
  | move i =>
    cases here : s.vectors[i]? with
    | none =>
      rw [specified, forall₂_getElem?_none kept here]
      exact ⟨_, onVector_none here, kept, trivial⟩
    | some v =>
      obtain ⟨l, there, represents, sized⟩ := forall₂_getElem? kept here
      have nothing : l = [] := List.length_eq_zero_iff.mp (represents.size.symm.trans (sound v here))
      have emptied : Represents (Vector.empty : Vector α) [] ∧ Vector.Sized T (Vector.empty : Vector α) :=
        ⟨Vector.represents_empty, Vector.sized_empty⟩
      refine ⟨_, onVector_some here, ?_, trivial⟩
      rw [specified, there, nothing]
      exact forall₂_concat (forall₂_set kept emptied) emptied

/-- Nothing can be added to a vector whose block has no length. -/
theorem emplace_sound (kept : Kept T s) {granted : Bool} {x : α}
    (given : ∀ v, s.vectors[i]? = some v → v.max_size ≤ v.end_offset →
      ∀ asked, v.alloc_sz 0 = some asked → granted = true)
    (done : onVector s.vectors i (fun v => (v.emplace T granted x).map (s.vectors.set i)) =
      some vectors) : ∀ v, s.vectors[i]? = some v → v.data ≠ some [] := by
  intro v here no_length
  obtain ⟨l, -, -, sized⟩ := forall₂_getElem? kept here
  have none_there := sized.max_size_of_nil no_length
  have asks : v.alloc_sz 0 = some 0 := by
    rw [Vector.alloc_sz, no_length, none_there]
    rfl
  obtain rfl := given v here (none_there ▸ Nat.zero_le _) 0 asks
  rw [onVector_some here, Vector.emplace_eq_none sized no_length, Option.map_none] at done
  cases done

/-- **Only a sound operation** does what it would do to lists. -/
theorem sound_of_refines (kept : Kept T s) (granted : Granted T s op) (right : Refines T s op) :
    Sound s op := by
  obtain ⟨t, ran, represented, reserved⟩ := right
  obtain ⟨vectors, done, rfl⟩ := step_eq_some.mp ran
  cases op with
  | construct => trivial
  | push i x given =>
    exact emplace_sound kept (fun v here full asked asks =>
      (granted asked given (by rw [request, here, Option.bind_some, if_pos full, asks]; rfl)).1) done
  | emplace i x given =>
    exact emplace_sound kept (fun v here full asked asks =>
      (granted asked given (by rw [request, here, Option.bind_some, if_pos full, asks]; rfl)).1) done
  | reserve i count given =>
    intro v here unallocated
    rw [operate, onVector_some here, Option.some.injEq] at done
    obtain ⟨inside, -⟩ := List.getElem?_eq_some_iff.mp here
    have enough := reserved (v.reserve T given count) (by rw [← done, List.getElem?_set_self inside])
    rwa [Vector.reserve_unallocated unallocated] at enough
  | copy i given => trivial
  | move i =>
    intro v here
    obtain ⟨l, there, represents, -⟩ := forall₂_getElem? kept here
    rw [operate, onVector_some here, Option.some.injEq] at done
    have last : vectors[s.vectors.length]? = some v.move.1 := by
      rw [← done, ← List.length_set, List.getElem?_concat_length]
    obtain ⟨l', moved, represents'⟩ := forall₂_getElem? represented last
    rw [specified, there, kept.length_eq, Option.elim_some, ← List.length_set,
      List.getElem?_concat_length, Option.some.injEq] at moved
    subst moved
    exact represents.size.trans represents'.size.symm

/-- **A vector is the list it stands for** at every step of a run whose memory is granted, if and only
if nothing is added to a block of no length, no more than one element is reserved where there is no
block, and nothing is moved from a vector that has elements. -/
theorem vector_refines_list_iff (T : Plain) (ops : List (Op α))
    (granted : Throughout (step T) (Granted T) .initial ops) :
    Throughout (step T) (Refines T) .initial ops ↔ Throughout (step T) Sound .initial ops := by
  refine throughout_iff (Kept T) .nil granted (fun s op kept given => ?_)
    fun s op t kept given right ran => ?_
  · constructor
    · exact sound_of_refines kept given
    · intro sound
      obtain ⟨t, ran, kept', reserved⟩ := step_kept kept given sound
      exact ⟨t, ran, kept'.represents, reserved⟩
  · obtain ⟨t', ran', kept', -⟩ := step_kept kept given (sound_of_refines kept given right)
    obtain rfl := Option.some.inj (ran.symm.trans ran')
    exact kept'

/-- A type of four bytes. -/
def Plain.word : Plain := ⟨4, Nat.zero_lt_succ 3⟩

/-- An element pushed into a new vector is the first of a list. -/
theorem vector_refines_list_push :
    Throughout (step .word) (Refines .word) .initial
      [.construct, .push 0 (7 : Nat) true] := by
  refine (vector_refines_list_iff .word _ ?_).mpr ?_
  · refine ⟨by rintro _ _ ⟨⟩, ?_⟩
    rintro _ ⟨⟩
    refine ⟨?_, fun _ _ => trivial⟩
    rintro _ _ ⟨⟩
    exact ⟨rfl, by decide⟩
  · refine ⟨trivial, ?_⟩
    rintro _ ⟨⟩
    refine ⟨?_, fun _ _ => trivial⟩
    rintro _ ⟨⟩ ⟨⟩

/-- What is moved from a vector is lost. -/
theorem moved_elements_lost :
    ¬ Throughout (step .word) (Refines .word) .initial
      [.construct, .push 0 (7 : Nat) true, .move 0] := by
  rintro ⟨-, pushed⟩
  obtain ⟨-, moved⟩ := pushed _ rfl
  obtain ⟨⟨t, ran, represented, -⟩, -⟩ := moved _ rfl
  cases ran
  cases represented with
  | cons _ rest => cases rest with
    | cons new _ => exact absurd new.size (by decide)

end DCScan.Utils

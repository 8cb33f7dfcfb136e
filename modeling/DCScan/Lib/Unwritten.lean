import Mathlib.Logic.Nontrivial.Basic
import DCScan.Lib.Bytes

/-!
Blocks of memory of which only some elements have been written.

What the others hold is an argument of every reading. A block reads the same whatever they hold
exactly when there are none (`read_same_iff`).
-/

namespace DCScan.Lib

/-- Of each element of a block, what was written to it, if anything was. -/
abbrev Block (α : Type) := List (Option α)

namespace Block

variable {α : Type} {mem : Nat → α} {b c : Block α} {i n : Nat}

def unwritten (n : Nat) : Block α := List.replicate n none

def ofList (data : List α) : Block α := data.map some

/-- What is read of a block when an element that was not written holds what `mem` has in its place. -/
def read (mem : Nat → α) (b : Block α) : List α := b.mapIdx fun i cell => cell.getD (mem i)

@[simp] theorem length_unwritten : (unwritten n : Block α).length = n := List.length_replicate

@[simp] theorem length_ofList (data : List α) : (ofList data).length = data.length :=
  List.length_map _

@[simp] theorem length_read : (b.read mem).length = b.length := List.length_mapIdx

theorem getElem?_read : (b.read mem)[i]? = b[i]?.map fun cell => cell.getD (mem i) :=
  List.getElem?_mapIdx

theorem none_not_mem_ofList (data : List α) : none ∉ ofList data := by
  intro unset
  obtain ⟨x, -, set⟩ := List.mem_map.mp unset
  cases set

@[simp] theorem read_ofList (data : List α) : (ofList data).read mem = data := by
  apply List.ext_getElem?
  intro i
  rw [getElem?_read, ofList, List.getElem?_map, Option.map_map]
  exact Option.map_id_apply

@[simp] theorem read_unwritten : (unwritten n).read mem = (List.range n).map mem := by
  apply List.ext_getElem?
  intro i
  rw [getElem?_read, unwritten, List.getElem?_map, List.getElem?_replicate]
  by_cases inside : i < n
  · rw [if_pos inside, List.getElem?_range inside]
    rfl
  · rw [if_neg inside, List.getElem?_eq_none (by simpa using inside)]
    rfl

/-- What a block held is read where nothing has been written. -/
theorem read_unwritten_getD {held : List α} (length : held.length = n) (x : α) :
    (unwritten n).read (fun i => held.getD i x) = held := by
  subst length
  apply List.ext_getElem?
  intro i
  rw [read_unwritten, List.getElem?_map]
  rcases Nat.lt_or_ge i held.length with inside | behind
  · rw [List.getElem?_range inside, List.getElem?_eq_getElem inside, Option.map_some,
      List.getD_eq_getElem?_getD, List.getElem?_eq_getElem inside, Option.getD_some]
  · rw [List.getElem?_eq_none (by rwa [List.length_range]), List.getElem?_eq_none behind]
    rfl

/-- Only the elements that were not written make a difference. -/
theorem read_congr {mem' : Nat → α} (same : ∀ i, b[i]? = some none → mem' i = mem i) :
    b.read mem' = b.read mem := by
  apply List.ext_getElem?
  intro i
  rw [getElem?_read, getElem?_read]
  cases found : b[i]? with
  | none => rfl
  | some cell =>
    cases cell with
    | none => exact congrArg some (same i found)
    | some x => rfl

/-- An element that was not written is what the memory happens to hold. -/
theorem read_update_ne [DecidableEq Nat] {x : α} (unset : b[i]? = some none) (other : x ≠ mem i) :
    b.read (Function.update mem i x) ≠ b.read mem := by
  intro same
  have here := congrArg (·[i]?) same
  simp only [getElem?_read, unset, Option.map_some, Option.getD_none, Function.update_self] at here
  exact other (Option.some.inj here)

/-- What is read depends on memory that was not written exactly when there is some in the block. -/
theorem read_same_iff [Nontrivial α] (mem : Nat → α) (b : Block α) :
    (∀ mem', b.read mem' = b.read mem) ↔ none ∉ b := by
  constructor
  · intro same unset
    obtain ⟨i, found⟩ := List.mem_iff_getElem?.mp unset
    obtain ⟨x, other⟩ := exists_ne (mem i)
    exact read_update_ne found other (same _)
  · intro set mem'
    apply read_congr
    intro i unset
    exact absurd (List.mem_of_getElem? unset) set

/-! ## Copies -/

theorem blit_zero : blit b 0 c = c ++ b.drop c.length := by simp [blit]

/-- A copy to the front reads the same as the copy of what is read. -/
theorem read_blit : read mem (blit b 0 c) = blit (b.read mem) 0 (c.read mem) := by
  apply List.ext_getElem?
  intro i
  rw [getElem?_read]
  simp only [blit, List.take_zero, List.nil_append, Nat.zero_add, length_read]
  rcases Nat.lt_or_ge i c.length with front | behind
  · rw [List.getElem?_append_left front, List.getElem?_append_left (by rwa [length_read]),
      getElem?_read]
  · rw [List.getElem?_append_right behind,
      List.getElem?_append_right (by rwa [length_read]), length_read, List.getElem?_drop,
      List.getElem?_drop, Nat.add_sub_cancel' behind, getElem?_read]

theorem read_store : (store b 0 c).map (read mem) = store (b.read mem) 0 (c.read mem) := by
  simp only [store, length_read]
  split
  · exact congrArg some read_blit
  · rfl

/-- After a copy to the front of a new block, all of it has been written when the copy was of all. -/
theorem none_not_mem_blit_unwritten :
    none ∉ blit (unwritten n) 0 c ↔ n ≤ c.length ∧ none ∉ c := by
  rw [blit_zero, unwritten, List.drop_replicate, List.mem_append, List.mem_replicate, not_or,
    and_comm]
  simp only [and_true, not_not]
  exact and_congr_left' Nat.sub_eq_zero_iff_le

/-- Behind the copy nothing was written. -/
theorem getElem?_blit_unwritten (behind : c.length ≤ i) (inside : i < n) :
    (blit (unwritten n) 0 c)[i]? = some none := by
  rw [blit_zero, List.getElem?_append_right behind, unwritten, List.getElem?_drop,
    Nat.add_sub_cancel' behind, List.getElem?_replicate, if_pos inside]

end Block

/-- An object of `n` elements, as far as it has been written. -/
structure Object (α : Type) (n : Nat) where
  cells : Block α
  length_eq : cells.length = n

namespace Object

variable {α : Type} {n : Nat}

def unwritten (n : Nat) : Object α n := ⟨.unwritten n, Block.length_unwritten⟩

/-- `memcpy` to the front of the object; `none` when it does not fit. -/
def copy (o : Object α n) (c : Block α) : Option (Object α n) :=
  if fits : c.length ≤ n then
    some ⟨blit o.cells 0 c, by rw [blit_length (by rw [o.length_eq]; omega), o.length_eq]⟩
  else none

theorem copy_cells (o : Object α n) (c : Block α) :
    (o.copy c).map cells = store o.cells 0 c := by
  have within : 0 ≤ (0 : Int) ∧ (0 : Int) + c.length ≤ o.cells.length ↔ c.length ≤ n := by
    rw [o.length_eq]
    omega
  unfold copy store
  split
  · rename_i fits
    rw [if_pos (within.mpr fits)]
    rfl
  · rename_i long
    rw [if_neg (mt within.mp long)]
    rfl

theorem cells_of_copy {o copied : Object α n} {c : Block α} (done : o.copy c = some copied) :
    copied.cells = blit o.cells 0 c := by
  unfold copy at done
  split at done
  · rw [← Option.some.inj done]
  · cases done

/-- What is read after the copy is what was read before, with the copy's bytes in it. -/
theorem copy_read (mem : Nat → α) (o : Object α n) (c : Block α) :
    (o.copy c).map (fun o => o.cells.read mem) = store (o.cells.read mem) 0 (c.read mem) := by
  rw [← Block.read_store, ← copy_cells, Option.map_map]
  rfl

end Object

end DCScan.Lib

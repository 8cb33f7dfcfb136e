import Mathlib.Data.List.Basic
import Mathlib.Data.Nat.Digits.Defs

/-!
Bytes in memory: fixed-width integers in little-endian order, the conversions between
signed and unsigned words, and a block of memory that is written in place.

Reading a word back is `Nat.ofDigits`; what is added here is the fixed width, which
makes writing and reading inverse on the values that fit.
-/

namespace DCScan.Lib

/-- The bytes of a text of ASCII characters. -/
def ascii (s : String) : List UInt8 := s.toList.map fun c => UInt8.ofNat c.toNat

/-- The `k` low bytes of `n`, lowest first. -/
def leBytes : Nat → Nat → List UInt8
  | 0, _ => []
  | k + 1, n => UInt8.ofNat n :: leBytes k (n / 256)

/-- The number whose bytes, lowest first, are `bytes`. -/
def leNat (bytes : List UInt8) : Nat := Nat.ofDigits 256 (bytes.map UInt8.toNat)

/-- A signed word of `w` bits: the value that is stored when `x` is assigned to it. -/
def signed (w : Nat) (x : Int) : Int := Int.bmod x (2 ^ w)

/-- An unsigned word of `w` bits. -/
def unsigned (w : Nat) (x : Int) : Nat := (x % 2 ^ w).toNat

@[simp] theorem leBytes_length (k n : Nat) : (leBytes k n).length = k := by
  induction k generalizing n with
  | zero => rfl
  | succ k ih => simp [leBytes, ih]

@[simp] theorem leNat_nil : leNat [] = 0 := rfl

@[simp] theorem leNat_cons (b : UInt8) (bytes : List UInt8) :
    leNat (b :: bytes) = b.toNat + 256 * leNat bytes := by
  simp [leNat, Nat.ofDigits_cons]

/-- Writing and reading a word keeps what fits into it. -/
theorem leNat_leBytes (k n : Nat) : leNat (leBytes k n) = n % 256 ^ k := by
  induction k generalizing n with
  | zero => simp [leBytes, Nat.mod_one]
  | succ k ih =>
    rw [leBytes, leNat_cons, ih, UInt8.toNat_ofNat', pow_succ' 256 k, Nat.mod_mul]

theorem leNat_leBytes_of_lt {k n : Nat} (fits : n < 256 ^ k) : leNat (leBytes k n) = n := by
  rw [leNat_leBytes, Nat.mod_eq_of_lt fits]

/-- Reading and writing a word keeps its bytes. -/
theorem leBytes_leNat {bytes : List UInt8} {k : Nat} (length : bytes.length = k) :
    leBytes k (leNat bytes) = bytes := by
  induction bytes generalizing k with
  | nil => subst length; rfl
  | cons b rest ih =>
    subst length
    have low : (b.toNat + 256 * leNat rest) / 256 = leNat rest := by
      have := b.toNat_lt
      omega
    have first : UInt8.ofNat (b.toNat + 256 * leNat rest) = b := by
      apply UInt8.toNat_inj.mp
      have := b.toNat_lt
      rw [UInt8.toNat_ofNat']
      omega
    rw [List.length_cons, leBytes, leNat_cons, low, first, ih rfl]

theorem leNat_lt (bytes : List UInt8) : leNat bytes < 256 ^ bytes.length := by
  induction bytes with
  | nil => simp
  | cons b rest ih =>
    have := b.toNat_lt
    rw [leNat_cons, List.length_cons, pow_succ']
    omega

/-- A signed word is in the signed range. -/
theorem signed_bounds {w : Nat} (wide : 0 < w) (x : Int) :
    -(2 ^ w : Int) ≤ 2 * signed w x ∧ 2 * signed w x < 2 ^ w := by
  obtain ⟨k, rfl⟩ := Nat.exists_eq_succ_of_ne_zero wide.ne'
  have positive : 0 < 2 ^ (k + 1) := Nat.pow_pos (by decide)
  have low := Int.le_bmod (x := x) positive
  have high := Int.bmod_lt (x := x) positive
  have even : (2 : Int) ^ (k + 1) = 2 * 2 ^ k := pow_succ' 2 k
  have cast : ((2 ^ (k + 1) : Nat) : Int) = 2 ^ (k + 1) := by push_cast; rfl
  rw [cast] at low high
  rw [signed]
  simp only [Nat.succ_eq_add_one]
  omega

/-- Values in the signed range are stored unchanged. -/
theorem signed_of_range {w : Nat} {x : Int} (low : -(2 ^ w : Int) ≤ 2 * x) (high : 2 * x < 2 ^ w) :
    signed w x = x := by
  have cast : ((2 ^ w : Nat) : Int) = 2 ^ w := by push_cast; rfl
  rw [signed, Int.bmod_eq_of_le_mul_two] <;> rw [cast] <;> omega

/-- Values of the upper half of the unsigned range are stored as negative ones. -/
theorem signed_of_high {w : Nat} {x : Int} (low : (2 ^ w : Int) ≤ 2 * x) (high : x < 2 ^ w) :
    signed w x = x - 2 ^ w := by
  have cast : ((2 ^ w : Nat) : Int) = 2 ^ w := by push_cast; rfl
  rw [signed, ← Int.sub_bmod_right, Int.bmod_eq_of_le_mul_two] <;> rw [cast] <;> omega

theorem unsigned_of_range {w : Nat} {x : Int} (low : 0 ≤ x) (high : x < 2 ^ w) :
    (unsigned w x : Int) = x := by
  rw [unsigned, Int.emod_eq_of_lt low high, Int.toNat_of_nonneg low]

/-! ## Words one after another -/

/-- Words, each as its width and its value, with their bytes lowest first. -/
def leWords (words : List (Nat × Nat)) : List UInt8 := words.flatMap fun w => leBytes w.1 w.2

theorem leWords_length (words : List (Nat × Nat)) :
    (leWords words).length = (words.map Prod.fst).sum := by
  simp [leWords, List.length_flatMap]

/-- Words of known widths are read back from their bytes, if their values fit. -/
theorem leWords_inj {words words' : List (Nat × Nat)}
    (widths : words.map Prod.fst = words'.map Prod.fst) (fits : ∀ w ∈ words, w.2 < 256 ^ w.1)
    (fits' : ∀ w ∈ words', w.2 < 256 ^ w.1) (same : leWords words = leWords words') :
    words = words' := by
  induction words generalizing words' with
  | nil => exact (List.map_eq_nil_iff.mp widths.symm).symm
  | cons w rest ih =>
    cases words' with
    | nil => cases widths
    | cons w' rest' =>
      obtain ⟨width, widths⟩ := List.cons.inj widths
      obtain ⟨first, others⟩ := List.append_inj same (by rw [leBytes_length, leBytes_length, width])
      have value : w.2 = w'.2 := by
        have read := congrArg leNat first
        rwa [leNat_leBytes_of_lt (fits w List.mem_cons_self),
          leNat_leBytes_of_lt (fits' w' List.mem_cons_self)] at read
      rw [Prod.ext width value, ih widths (fun v h => fits v (List.mem_cons_of_mem w h))
        (fun v h => fits' v (List.mem_cons_of_mem w' h)) others]

/-! ## A block of memory -/

variable {α : Type} {block data rest : List α} {at₀ n : Nat}

/-- The block after `data` has been copied to offset `at₀`. -/
def blit (block : List α) (at₀ : Nat) (data : List α) : List α :=
  block.take at₀ ++ data ++ block.drop (at₀ + data.length)

/-- A copy that stays inside the block does not change its size. -/
theorem blit_length (fits : at₀ + data.length ≤ block.length) :
    (blit block at₀ data).length = block.length := by
  simp only [blit, List.length_append, List.length_take, List.length_drop]
  omega

/-- Copying right behind the first `at₀` bytes appends to them. -/
theorem blit_take (fits : at₀ + data.length ≤ block.length) :
    (blit block at₀ data).take (at₀ + data.length) = block.take at₀ ++ data := by
  have front : (block.take at₀ ++ data).length = at₀ + data.length := by
    simp only [List.length_append, List.length_take]
    omega
  rw [blit, ← front, List.take_left]

/-- Moving bytes to the front makes them the block's first ones. -/
theorem blit_zero_take : (blit block 0 data).take data.length = data := by
  simp [blit]

/-- A copy into the block; `none` when it would leave the block. -/
def store (block : List α) (offset : Int) (data : List α) : Option (List α) :=
  if 0 ≤ offset ∧ offset + data.length ≤ block.length then some (blit block offset.toNat data)
  else none

/-- The `n` elements at the offset; `none` when they are not all in the block. -/
def load (block : List α) (offset : Int) (n : Nat) : Option (List α) :=
  if 0 ≤ offset ∧ offset + n ≤ block.length then some ((block.drop offset.toNat).take n) else none

/-- A copy right behind the first `at₀` bytes appends to them and keeps the block's size. -/
theorem store_append (block data : List α) (at₀ : Nat) (fits : at₀ + data.length ≤ block.length) :
    ∃ written, store block at₀ data = some written ∧ written.length = block.length ∧
      written.take (at₀ + data.length) = block.take at₀ ++ data := by
  refine ⟨blit block at₀ data, if_pos ⟨by omega, by omega⟩, blit_length fits, blit_take fits⟩

/-- What lies between two parts of a block is read back. -/
theorem load_append (before data rest : List α) (offset : before.length = at₀)
    (size : data.length = n) :
    load (before ++ data ++ rest) at₀ n = some data := by
  have inside : (0 : Int) ≤ at₀ ∧ (at₀ : Int) + n ≤ (before ++ data ++ rest).length := by
    simp only [List.length_append]
    omega
  rw [load, if_pos inside, List.append_assoc, Int.toNat_natCast, ← offset, List.drop_left, ← size,
    List.take_left]

/-- A block is read where the offset is a position in it. -/
theorem load_nat (block : List α) (offset n : Nat) :
    load block offset n =
      if offset + n ≤ block.length then some ((block.drop offset).take n) else none := by
  have inside : ((0 : Int) ≤ offset ∧ (offset : Int) + n ≤ block.length) ↔
      offset + n ≤ block.length := by omega
  simp only [load, inside, Int.toNat_natCast]

end DCScan.Lib

import DCScan.Lib.Bytes

/-!
Cyclic redundancy checks with a reflected polynomial, over registers of any width: a byte goes
into the low end and out by eight shifts, or by one look into a table.

A shift is linear in exclusive or. What the low eight bits of a register do is therefore the table's
to say, and the others only move down.
-/

namespace DCScan.Lib.Crc

variable {w : Nat}

/-- One bit of the message leaves the register. -/
def shift (poly c : BitVec w) : BitVec w := if c.getLsbD 0 then c >>> 1 ^^^ poly else c >>> 1

def shifts (poly : BitVec w) : Nat → BitVec w → BitVec w
  | 0, c => c
  | n + 1, c => shifts poly n (shift poly c)

/-- A byte of the message, bit by bit. -/
def absorb (poly c : BitVec w) (b : UInt8) : BitVec w := shifts poly 8 (c ^^^ b.toBitVec.setWidth w)

/-- The register after the message. -/
def crc (poly init : BitVec w) (message : List UInt8) : BitVec w := message.foldl (absorb poly) init

/-- The byte at the low end. -/
def low (c : BitVec w) : UInt8 := ⟨c.setWidth 8⟩

variable {poly c : BitVec w} {b : UInt8}

/-! ## Shifts -/

theorem shift_xor (c d : BitVec w) : shift poly (c ^^^ d) = shift poly c ^^^ shift poly d := by
  simp only [shift, BitVec.getLsbD_xor, BitVec.ushiftRight_xor_distrib]
  cases c.getLsbD 0 <;> cases d.getLsbD 0
  · rfl
  · exact BitVec.xor_assoc _ _ _
  · simp only [Bool.xor_false, if_true, Bool.false_eq_true, if_false, BitVec.xor_assoc]
    rw [BitVec.xor_comm poly]
  · simp only [Bool.xor_self, Bool.false_eq_true, if_false, if_true]
    rw [BitVec.xor_assoc, BitVec.xor_comm poly, BitVec.xor_assoc, BitVec.xor_self, BitVec.xor_zero]

theorem shifts_xor (n : Nat) (c d : BitVec w) :
    shifts poly n (c ^^^ d) = shifts poly n c ^^^ shifts poly n d := by
  induction n generalizing c d with
  | zero => rfl
  | succ n ih => rw [shifts, shift_xor, ih, shifts, shifts]

/-- Bits that are clear leave no trace. -/
theorem shifts_of_clear (n : Nat) (clear : ∀ i < n, c.getLsbD i = false) :
    shifts poly n c = c >>> n := by
  induction n generalizing c with
  | zero => rfl
  | succ n ih =>
    have first : shift poly c = c >>> 1 := by
      rw [shift, clear 0 n.succ_pos]
      rfl
    rw [shifts, first, ih, ← BitVec.shiftRight_add, Nat.add_comm]
    intro i small
    rw [BitVec.getLsbD_ushiftRight]
    exact clear (1 + i) (by omega)

/-! ## Bytes -/

/-- A register is what lies above its low byte, and the low byte. -/
theorem xor_byte (c : BitVec w) (b : UInt8) : c ^^^ b.toBitVec.setWidth w =
    (c >>> 8) <<< 8 ^^^ (low c ^^^ b).toBitVec.setWidth w := by
  apply BitVec.eq_of_getLsbD_eq
  intro i inside
  simp only [BitVec.getLsbD_xor, BitVec.getLsbD_setWidth, BitVec.getLsbD_shiftLeft,
    BitVec.getLsbD_ushiftRight, UInt8.toBitVec_xor, low, inside, decide_true, Bool.true_and]
  by_cases lower : i < 8
  · simp [lower]
  · have byte : b.toBitVec.getLsbD i = false := BitVec.getLsbD_of_ge _ _ (by omega)
    simp [lower, byte, show 8 + (i - 8) = i by omega]

theorem shifts_high (c : BitVec w) : shifts poly 8 ((c >>> 8) <<< 8) = c >>> 8 := by
  rw [shifts_of_clear]
  · apply BitVec.eq_of_getLsbD_eq
    intro i inside
    simp only [BitVec.getLsbD_ushiftRight, BitVec.getLsbD_shiftLeft]
    by_cases top : 8 + i < w
    · simp [top]
    · have out : c.getLsbD (8 + i) = false := BitVec.getLsbD_of_ge _ _ (by omega)
      simp [out]
  · intro i small
    simp [BitVec.getLsbD_shiftLeft, small]

/-- **By table.** A byte is absorbed by one look into a table of what the shifts make of each byte. -/
theorem absorb_eq {table : UInt8 → BitVec w}
    (entries : ∀ n, table n = shifts poly 8 (n.toBitVec.setWidth w)) :
    absorb poly c b = c >>> 8 ^^^ table (low c ^^^ b) := by
  rw [absorb, xor_byte, shifts_xor, shifts_high, entries]

/-- Its own low byte leaves of a register what lies above. -/
theorem absorb_low : absorb poly c (low c) = c >>> 8 := by
  have none : (low c ^^^ low c).toBitVec.setWidth w = 0#w := by simp
  rw [absorb, xor_byte, none, BitVec.xor_zero, shifts_high]

theorem leBytes_succ (k : Nat) (c : BitVec w) :
    leBytes (k + 1) c.toNat = low c :: leBytes k (c >>> 8).toNat := by
  have above : (c >>> 8).toNat = c.toNat / 256 := by
    rw [BitVec.toNat_ushiftRight, Nat.shiftRight_eq_div_pow]
  have byte : UInt8.ofNat c.toNat = low c :=
    UInt8.toBitVec_inj.mp (BitVec.ofNat_toNat 8 c)
  rw [leBytes, above, byte]

/-- Its own bytes, low byte first, empty a register. -/
theorem foldl_leBytes (k : Nat) (c : BitVec w) :
    (leBytes k c.toNat).foldl (absorb poly) c = c >>> (8 * k) := by
  induction k generalizing c with
  | zero => rfl
  | succ k ih =>
    rw [leBytes_succ, List.foldl_cons, absorb_low, ih, ← BitVec.shiftRight_add]
    congr 1
    omega

/-- **The residue.** A message with its check behind it, low byte first, has the check zero. -/
theorem crc_append_own {k : Nat} {poly init : BitVec (8 * k)} (message : List UInt8) :
    crc poly init (message ++ leBytes k (crc poly init message).toNat) = 0#(8 * k) := by
  simp only [crc]
  rw [List.foldl_append, foldl_leBytes]
  exact BitVec.ushiftRight_eq_zero (Nat.le_refl _)

end DCScan.Lib.Crc

import Mathlib.Algebra.Order.Field.Rat
import Mathlib.Algebra.Order.Floor.Ring
import Mathlib.Data.List.TakeWhile
import Mathlib.Data.Nat.Log
import Mathlib.Data.Rat.Floor
import Mathlib.Tactic.Positivity
import Mathlib.Tactic.Ring

/-!
Decimal texts: `"%f"` with a number of places, and the number at the front of a text.
-/

namespace DCScan.Lib

/-! ## Digits -/

def digit (n : Nat) : UInt8 := UInt8.ofNat (48 + n % 10)

def isDigit (c : UInt8) : Bool := 48 ≤ c && c ≤ 57

/-- The last digits of a number. -/
def padded : Nat → Nat → List UInt8
  | 0, _ => []
  | width + 1, n => padded width (n / 10) ++ [digit n]

/-- All of its digits. -/
def decimal (n : Nat) : List UInt8 := padded (Nat.log 10 n + 1) n

/-- The number that some digits stand for. -/
def numeral (text : List UInt8) : Nat := text.foldl (fun n c => 10 * n + (c.toNat - 48)) 0

section

variable {n width : Nat}

theorem toNat_digit (n : Nat) : (digit n).toNat = 48 + n % 10 := by
  rw [digit, UInt8.toNat_ofNat']
  omega

theorem isDigit_digit (n : Nat) : isDigit (digit n) = true := by
  simp only [isDigit, Bool.and_eq_true, decide_eq_true_eq, UInt8.le_iff_toNat_le, toNat_digit]
  constructor
  · exact Nat.le_add_right 48 _
  · change 48 + n % 10 ≤ 57
    omega

theorem length_padded (width n : Nat) : (padded width n).length = width := by
  induction width generalizing n with
  | zero => rfl
  | succ width ih => rw [padded, List.length_append, ih, List.length_singleton]

theorem isDigit_padded (width n : Nat) : ∀ c ∈ padded width n, isDigit c = true := by
  induction width generalizing n with
  | zero => exact List.forall_mem_nil _
  | succ width ih =>
    exact List.forall_mem_append.mpr ⟨ih _, List.forall_mem_singleton.mpr (isDigit_digit n)⟩

theorem numeral_concat (text : List UInt8) (c : UInt8) :
    numeral (text ++ [c]) = 10 * numeral text + (c.toNat - 48) := by
  rw [numeral, List.foldl_append]
  rfl

/-- Digits behind others. -/
theorem numeral_append_padded (text : List UInt8) (width n : Nat) :
    numeral (text ++ padded width n) = numeral text * 10 ^ width + n % 10 ^ width := by
  induction width generalizing n with
  | zero => rw [padded, List.append_nil, pow_zero, Nat.mod_one, mul_one, add_zero]
  | succ width ih =>
    rw [padded, ← List.append_assoc, numeral_concat, ih, toNat_digit, Nat.add_sub_cancel_left,
      pow_succ', Nat.mod_mul]
    ring

theorem numeral_decimal (n : Nat) : numeral (decimal n) = n := by
  have read := numeral_append_padded [] (Nat.log 10 n + 1) n
  rw [List.nil_append, Nat.mod_eq_of_lt (Nat.lt_pow_succ_log_self (by decide) n)] at read
  exact read.trans (by rw [numeral, List.foldl_nil, zero_mul, zero_add])

theorem length_decimal (below : n < 10 ^ width) (some_digit : 0 < width) :
    (decimal n).length ≤ width := by
  rw [decimal, length_padded]
  rcases Nat.eq_zero_or_pos n with rfl | positive
  · rwa [Nat.log_zero_right]
  · exact (Nat.log_lt_iff_lt_pow (by decide) positive.ne').mpr below

theorem decimal_ne_nil (n : Nat) : decimal n ≠ [] := by
  apply List.ne_nil_of_length_pos
  rw [decimal, length_padded]
  exact Nat.succ_pos _

end

/-! ## Places behind a point -/

def minus : UInt8 := 45

def plus : UInt8 := 43

def point : UInt8 := 46

/-- `n / 10 ^ places`, with its sign in front. -/
def fixed (negative : Bool) (places n : Nat) : List UInt8 :=
  (if negative then [minus] else []) ++
    (decimal (n / 10 ^ places) ++ point :: padded places (n % 10 ^ places))

theorem length_fixed {places n width : Nat} (negative : Bool) (below : n / 10 ^ places < 10 ^ width)
    (some_digit : 0 < width) : (fixed negative places n).length ≤ width + places + 2 := by
  have whole := length_decimal below some_digit
  rw [fixed, List.length_append, List.length_append, List.length_cons, length_padded]
  cases negative <;> simp <;> omega

/-- The characters of a printed number. -/
theorem mem_fixed {negative : Bool} {places n : Nat} {c : UInt8}
    (member : c ∈ fixed negative places n) : c = minus ∨ c = point ∨ isDigit c = true := by
  rw [fixed, List.mem_append, List.mem_append, List.mem_cons] at member
  rcases member with sign | whole | rfl | fraction
  · cases negative with
    | true => exact Or.inl (List.mem_singleton.mp sign)
    | false => cases sign
  · exact Or.inr (Or.inr (isDigit_padded _ _ c whole))
  · exact Or.inr (Or.inl rfl)
  · exact Or.inr (Or.inr (isDigit_padded _ _ c fraction))

/-! ## Reading -/

def isSpace (c : UInt8) : Bool := c = 32 || 9 ≤ c && c ≤ 13

/-- Whether there is a minus sign, and the text behind the sign. -/
def signOf : List UInt8 → Bool × List UInt8
  | [] => (false, [])
  | c :: rest =>
    if c = minus then (true, rest) else if c = plus then (false, rest) else (false, c :: rest)

/-- The exponent at the front of a text, if there is one. -/
def exponentOf : List UInt8 → Int
  | [] => 0
  | c :: rest =>
    if c = 101 ∨ c = 69 then
      let (negative, rest) := signOf rest
      let power : Int := numeral (rest.takeWhile isDigit)
      if negative then -power else power
    else 0

/-- The digits behind a point, and what is behind them. -/
def fractionOf : List UInt8 → List UInt8 × List UInt8
  | [] => ([], [])
  | c :: rest =>
    if c = point then (rest.takeWhile isDigit, rest.dropWhile isDigit) else ([], c :: rest)

/-- The decimal number at the front of a text, behind white space; zero where there is none. -/
def numberOf (text : List UInt8) : ℚ :=
  let (negative, text) := signOf (text.dropWhile isSpace)
  let whole := text.takeWhile isDigit
  let (fraction, rest) := fractionOf (text.dropWhile isDigit)
  if whole ++ fraction = [] then 0
  else
    let size : ℚ := numeral (whole ++ fraction) * 10 ^ (exponentOf rest - fraction.length)
    if negative then -size else size

section

variable {text : List UInt8} {c : UInt8} {places n : Nat}

theorem takeWhile_digits (digits : ∀ c ∈ text, isDigit c = true) (rest : List UInt8) :
    (text ++ point :: rest).takeWhile isDigit = text ∧
      (text ++ point :: rest).dropWhile isDigit = point :: rest := by
  rw [List.takeWhile_append_of_pos digits, List.dropWhile_append_of_pos digits]
  exact ⟨List.append_nil text, rfl⟩

theorem isDigit_bounds (digit : isDigit c = true) : 48 ≤ c.toNat ∧ c.toNat ≤ 57 := by
  simp only [isDigit, Bool.and_eq_true, decide_eq_true_eq, UInt8.le_iff_toNat_le] at digit
  exact digit

theorem not_isSpace_of_digit (digit : isDigit c = true) : isSpace c = false := by
  have bounds := isDigit_bounds digit
  simp only [isSpace, Bool.or_eq_false_iff, Bool.and_eq_false_iff, decide_eq_false_iff_not,
    UInt8.le_iff_toNat_le]
  refine ⟨?_, Or.inr ?_⟩
  · rintro rfl
    exact absurd bounds.1 (by decide)
  · change ¬c.toNat ≤ 13
    omega

theorem signOf_of_digit (digit : isDigit c = true) (text : List UInt8) : signOf (c :: text) = (false, c :: text) := by
  rw [signOf, if_neg, if_neg]
  · rintro rfl
    cases digit
  · rintro rfl
    cases digit

/-- The sign of a printed number is read back. -/
theorem signOf_signed (negative : Bool) (some_digit : text ≠ [])
    (digits : ∀ c ∈ text, isDigit c = true) (rest : List UInt8) :
    signOf (((if negative then [minus] else []) ++ (text ++ rest)).dropWhile isSpace) =
      (negative, text ++ rest) := by
  cases negative with
  | true => rfl
  | false =>
    obtain ⟨c, text, rfl⟩ := List.exists_cons_of_ne_nil some_digit
    have digit := digits c (List.mem_cons_self ..)
    have front := signOf_of_digit digit (text ++ rest)
    rw [if_neg Bool.false_ne_true, List.nil_append, List.cons_append,
      List.dropWhile_cons_of_neg (by rw [not_isSpace_of_digit digit]; exact Bool.false_ne_true), front]

/-- **A printed number is read back.** -/
theorem numberOf_fixed (negative : Bool) (places n : Nat) :
    numberOf (fixed negative places n) =
      if negative then -((n : ℚ) / 10 ^ places) else (n : ℚ) / 10 ^ places := by
  obtain ⟨whole, behind⟩ := takeWhile_digits (isDigit_padded _ (n / 10 ^ places))
    (padded places (n % 10 ^ places))
  have fraction : (padded places (n % 10 ^ places)).takeWhile isDigit =
      padded places (n % 10 ^ places) := List.takeWhile_eq_self_iff.mpr (isDigit_padded _ _)
  have last : (padded places (n % 10 ^ places)).dropWhile isDigit = [] :=
    List.dropWhile_eq_nil_iff.mpr (isDigit_padded _ _)
  have digits : numeral (decimal (n / 10 ^ places) ++ padded places (n % 10 ^ places)) = n := by
    rw [numeral_append_padded, numeral_decimal, Nat.mod_mod, Nat.div_add_mod']
  have some_digit : decimal (n / 10 ^ places) ++ padded places (n % 10 ^ places) ≠ [] :=
    List.append_ne_nil_of_left_ne_nil (decimal_ne_nil _) _
  have size : (n : ℚ) * 10 ^ ((0 : Int) - places) = (n : ℚ) / 10 ^ places := by
    rw [zero_sub, zpow_neg, zpow_natCast, div_eq_mul_inv]
  unfold numberOf fixed
  rw [signOf_signed negative (decimal_ne_nil _) (isDigit_padded _ _)]
  dsimp only
  rw [decimal, whole, behind, fractionOf, if_pos rfl, fraction, last, ← decimal, if_neg some_digit,
    digits, exponentOf, length_padded, size]

end

/-! ## Rounding -/

section

variable {K : Type} [Field K] [LinearOrder K] [IsStrictOrderedRing K] [FloorRing K]

/-- The nearest integer, and the even one of two. -/
def roundEven (x : K) : ℤ :=
  if x - ⌊x⌋ < 1 / 2 then ⌊x⌋
  else if 1 / 2 < x - ⌊x⌋ then ⌊x⌋ + 1
  else ⌊x⌋ + ⌊x⌋ % 2

theorem roundEven_intCast (n : ℤ) : roundEven (n : K) = n := by
  rw [roundEven, Int.floor_intCast, sub_self, if_pos (by positivity)]

omit [IsStrictOrderedRing K] in
theorem roundEven_bounds (x : K) : ⌊x⌋ ≤ roundEven x ∧ roundEven x ≤ ⌊x⌋ + 1 := by
  unfold roundEven
  split_ifs <;> omega

omit [IsStrictOrderedRing K] in
theorem roundEven_nonneg {x : K} (nonneg : 0 ≤ x) : 0 ≤ roundEven x :=
  (Int.floor_nonneg.mpr nonneg).trans (roundEven_bounds x).1

omit [IsStrictOrderedRing K] in
theorem roundEven_le {x : K} {n : ℤ} (below : x < n) : roundEven x ≤ n :=
  (roundEven_bounds x).2.trans (Int.floor_lt.mpr below)

/-- Only integers are not changed. -/
theorem roundEven_eq_self_iff (x : K) : (roundEven x : K) = x ↔ ∃ n : ℤ, x = n := by
  constructor
  · exact fun same => ⟨roundEven x, same.symm⟩
  · rintro ⟨n, rfl⟩
    rw [roundEven_intCast]

end

end DCScan.Lib

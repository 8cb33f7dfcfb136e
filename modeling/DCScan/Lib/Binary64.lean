import Mathlib
import DCScan.Lib.Runs

/-!
`Float` as the binary64 numbers: how they are ordered, and how a product or a quotient is rounded.

Both are read off the unpacked form, a sign with a mantissa and an exponent. The comparisons are those
of an integer rank, for any two numbers; rounding is followed for results in the normal range.
-/

namespace DCScan.Lib.Binary64

open Float.Model Float.Model.UnpackedFloat

/-! ## Order -/

/-- What unpacking yields: a mantissa of 53 bits, and of fewer only at the least exponent. -/
def Canonical : UnpackedFloat → Prop
  | .finite _ m e _ => m < 2 ^ 53 ∧ -1074 ≤ e ∧ e ≤ 971 ∧ (2 ^ 52 ≤ m ∨ e = -1074)
  | _ => True

/-- The mantissa of a normal number, with its leading bit. -/
theorem toNat_leading (m : BitVec 52) : (1#1 ++ m).toNat = 2 ^ 52 + m.toNat := by
  rw [BitVec.toNat_append, Nat.shiftLeft_eq, Nat.mul_comm, ← Nat.two_pow_add_eq_or_of_lt m.isLt]
  simp

theorem canonical_of_bits (b : BitVec Format.binary64.numBits) :
    Canonical (UnpackedFloat.unpack Format.binary64 b) := by
  unfold UnpackedFloat.unpack
  have exponent := (unpackExponent b).isLt
  have mantissa := (unpackMantissa b).isLt
  dsimp only
  split
  · split <;> trivial
  · rename_i not_all
    split
    · split
      · trivial
      · rename_i zero _
        simp [Canonical, zero, Format.exponentBias] at mantissa ⊢
        omega
    · rename_i not_zero
      have low : (unpackExponent b).toNat ≠ 0 := fun zero => not_zero (BitVec.eq_of_toNat_eq zero)
      have high : (unpackExponent b).toNat ≠ 2047 := fun all => not_all (BitVec.eq_of_toNat_eq all)
      have leading := toNat_leading (unpackMantissa b)
      simp only [Canonical, Format.exponentBias] at *
      rw [leading]
      norm_num at *
      omega

theorem canonical_unpack (x : Float) : Canonical x.toModel.unpack := canonical_of_bits _

/-- The place of a mantissa and an exponent among the positive ones. -/
def place (m : Nat) (e : Int) : Int := (e + 1074) * 2 ^ 53 + m

def rankOf : UnpackedFloat → Int
  | .infinity .positive => 2 ^ 70
  | .infinity .negative => -2 ^ 70
  | .finite .positive m e _ => place m e
  | .finite .negative m e _ => -place m e
  | _ => 0

theorem place_bounds {m : Nat} {e : Int} (pos : 0 < m) (most : m < 2 ^ 53) (lo : -1074 ≤ e)
    (hi : e ≤ 971) : 0 < place m e ∧ place m e < 2 ^ 70 := by
  unfold place
  omega

theorem some_lt {a b : Int} (lower : a < b) : some .lt = some (compare a b) := by
  rw [compare_lt_iff_lt.mpr lower]

theorem some_gt {a b : Int} (higher : b < a) : some .gt = some (compare a b) := by
  rw [compare_gt_iff_gt.mpr higher]

/-- Exponents are compared first, then mantissas. -/
theorem compare_place {m n : Nat} {e f : Int} (hm : m < 2 ^ 53) (hn : n < 2 ^ 53) :
    (compare e f).then (compare m n) = compare (place m e) (place n f) := by
  unfold place
  rcases lt_trichotomy e f with lower | rfl | higher
  · have below : (e + 1074) * 2 ^ 53 + (m : Int) < (f + 1074) * 2 ^ 53 + n := by omega
    rw [compare_lt_iff_lt.mpr lower, compare_lt_iff_lt.mpr below]
    rfl
  · rw [compare_eq_iff_eq.mpr rfl]
    show compare m n = _
    rcases lt_trichotomy m n with lower | rfl | higher
    · rw [compare_lt_iff_lt.mpr lower, compare_lt_iff_lt.mpr (by omega)]
    · rw [compare_eq_iff_eq.mpr rfl, compare_eq_iff_eq.mpr rfl]
    · rw [compare_gt_iff_gt.mpr higher, compare_gt_iff_gt.mpr (by omega)]
  · have exceeds : (f + 1074) * 2 ^ 53 + (n : Int) < (e + 1074) * 2 ^ 53 + m := by omega
    rw [compare_gt_iff_gt.mpr higher, compare_gt_iff_gt.mpr exceeds]
    rfl

theorem compare_neg (a b : Int) : compare (-a) (-b) = (compare a b).swap := by
  rcases lt_trichotomy a b with lower | rfl | higher
  · rw [compare_lt_iff_lt.mpr lower, compare_gt_iff_gt.mpr (neg_lt_neg lower)]
    rfl
  · rw [compare_eq_iff_eq.mpr rfl, compare_eq_iff_eq.mpr rfl]
    rfl
  · rw [compare_gt_iff_gt.mpr higher, compare_lt_iff_lt.mpr (neg_lt_neg higher)]
    rfl

/-- Two numbers are compared as their ranks. -/
theorem compare_rankOf {u v : UnpackedFloat} (hu : Canonical u) (hv : Canonical v)
    (number : u.isNaN = false) (number' : v.isNaN = false) :
    u.compare v = some (compare (rankOf u) (rankOf v)) := by
  cases u with
  | notANumber => cases number
  | infinity s =>
    cases v with
    | notANumber => cases number'
    | infinity t => cases s <;> cases t <;> rfl
    | zero t => cases s <;> rfl
    | finite t n f pos =>
      have bounds := place_bounds pos hv.1 hv.2.1 hv.2.2.1
      cases s <;> cases t <;> first
        | exact some_lt (by simp only [rankOf]; omega)
        | exact some_gt (by simp only [rankOf]; omega)
  | zero s =>
    cases v with
    | notANumber => cases number'
    | infinity t => cases t <;> rfl
    | zero t => rfl
    | finite t n f pos =>
      have bounds := place_bounds pos hv.1 hv.2.1 hv.2.2.1
      cases t with
      | negative => exact some_gt (by simp only [rankOf]; omega)
      | positive => exact some_lt (by simp only [rankOf]; omega)
  | finite s m e pos =>
    have bounds := place_bounds pos hu.1 hu.2.1 hu.2.2.1
    cases v with
    | notANumber => cases number'
    | infinity t =>
      cases s <;> cases t <;> first
        | exact some_lt (by simp only [rankOf]; omega)
        | exact some_gt (by simp only [rankOf]; omega)
    | zero t =>
      cases s with
      | negative => exact some_lt (by simp only [rankOf]; omega)
      | positive => exact some_gt (by simp only [rankOf]; omega)
    | finite t n f pos' =>
      have bounds' := place_bounds pos' hv.1 hv.2.1 hv.2.2.1
      cases s with
      | negative =>
        cases t with
        | negative => rw [rankOf, rankOf, compare_neg, ← compare_place hu.1 hv.1]; rfl
        | positive => exact some_lt (by simp only [rankOf]; omega)
      | positive =>
        cases t with
        | negative => exact some_gt (by simp only [rankOf]; omega)
        | positive => exact congrArg some (compare_place hu.1 hv.1)

def rank (x : Float) : Int := rankOf x.toModel.unpack

/-- Not `NaN`. -/
def Number (x : Float) : Prop := x.isNaN = false

theorem lt_iff_compare {x y : Float} :
    x < y ↔ x.toModel.unpack.compare y.toModel.unpack = some .lt := by
  show decide (x.toModel < y.toModel) = true ↔ _
  rw [decide_eq_true_iff]
  exact beq_iff_eq

theorem le_iff_compare {x y : Float} : x ≤ y ↔
    ∃ o, x.toModel.unpack.compare y.toModel.unpack = some o ∧ o.isLE := by
  show decide (x.toModel ≤ y.toModel) = true ↔ _
  rw [decide_eq_true_iff]
  show Option.any _ _ = true ↔ _
  rw [Option.any_eq_true]

theorem compare_rank {x y : Float} (hx : Number x) (hy : Number y) :
    x.toModel.unpack.compare y.toModel.unpack = some (compare (rank x) (rank y)) :=
  compare_rankOf (canonical_unpack x) (canonical_unpack y) hx hy

/-- **Numbers are ordered as their ranks.** -/
theorem ranked : Ranked rank Number where
  lt hx hy := by rw [lt_iff_compare, compare_rank hx hy, Option.some.injEq, compare_lt_iff_lt]
  le hx hy := by
    rw [le_iff_compare, compare_rank hx hy]
    simp only [Option.some.injEq, exists_eq_left']
    exact Std.isLE_compare

theorem compare_of_nan {u v : UnpackedFloat} (nan : u.isNaN = true ∨ v.isNaN = true) :
    u.compare v = none := by
  rcases nan with nan | nan
  · cases u <;> first | rfl | cases nan
  · cases v <;> first | (cases u <;> rfl) | cases nan

/-- With `NaN` nothing is compared. -/
theorem number_of_compare {x y : Float} {o : Ordering}
    (compared : x.toModel.unpack.compare y.toModel.unpack = some o) : Number x ∧ Number y := by
  constructor <;> refine Bool.eq_false_iff.mpr fun nan => ?_
  · rw [compare_of_nan (Or.inl nan)] at compared
    cases compared
  · rw [compare_of_nan (Or.inr nan)] at compared
    cases compared

theorem number_of_lt {x y : Float} (lower : x < y) : Number x ∧ Number y :=
  number_of_compare (lt_iff_compare.mp lower)

theorem number_of_le {x y : Float} (lower : x ≤ y) : Number x ∧ Number y := by
  obtain ⟨o, compared, -⟩ := le_iff_compare.mp lower
  exact number_of_compare compared

/-! ## Rounding -/

theorem shift_mantissa (em : ExtendedMantissa) (s : Nat) :
    (em >>> s).mantissa = em.mantissa / 2 ^ s := by
  show (s.repeat ExtendedMantissa.shiftRightOne em).mantissa = _
  induction s with
  | zero => simp [Nat.repeat]
  | succ s ih =>
    rw [Nat.repeat, ExtendedMantissa.shiftRightOne, ih, Nat.div_div_eq_div_mul, Nat.pow_succ]

theorem rounded_between (em : ExtendedMantissa) :
    em.mantissa ≤ em.roundedMantissa ∧ em.roundedMantissa ≤ em.mantissa + 1 := by
  obtain ⟨m, round, sticky⟩ := em
  cases round <;> cases sticky <;>
    simp [ExtendedMantissa.roundedMantissa, ExtendedMantissa.accuracy, Accuracy.roundToNearestEven]
  omega

theorem rounded_down {em : ExtendedMantissa} (below_half : em.roundBit = false) :
    em.roundedMantissa = em.mantissa := by
  obtain ⟨m, round, sticky⟩ := em
  cases below_half
  cases sticky <;> rfl

/-- Of the `s` bits that are dropped, at most a half is added. -/
theorem rounded_nearest (m s : Nat) :
    2 ^ (s + 1) * ((⟨m, false, false⟩ : ExtendedMantissa) >>> s).roundedMantissa ≤
      2 * m + 2 ^ s := by
  cases s with
  | zero =>
    show 2 ^ 1 * m ≤ _
    omega
  | succ s =>
    have floor := shift_mantissa ⟨m, false, false⟩ (s + 1)
    have before := shift_mantissa ⟨m, false, false⟩ s
    have bit : ((⟨m, false, false⟩ : ExtendedMantissa) >>> (s + 1)).roundBit =
        (m / 2 ^ s % 2 != 0) := by
      rw [← before]
      rfl
    cases odd : (m / 2 ^ s % 2 != 0) with
    | false =>
      rw [rounded_down (bit.trans odd), floor]
      have under := Nat.div_mul_le_self m (2 ^ (s + 1))
      calc 2 ^ (s + 1 + 1) * (m / 2 ^ (s + 1)) = 2 * (m / 2 ^ (s + 1) * 2 ^ (s + 1)) := by ring
        _ ≤ 2 * m := Nat.mul_le_mul_left 2 under
        _ ≤ 2 * m + 2 ^ (s + 1) := Nat.le_add_right _ _
    | true =>
      have up := (rounded_between ((⟨m, false, false⟩ : ExtendedMantissa) >>> (s + 1))).2
      rw [floor] at up
      have parts : m / 2 ^ s = 2 * (m / 2 ^ (s + 1)) + 1 := by
        have one : m / 2 ^ s % 2 ≠ 0 := by simpa using odd
        rw [Nat.pow_succ, ← Nat.div_div_eq_div_mul]
        omega
      have under := Nat.div_mul_le_self m (2 ^ s)
      rw [parts] at under
      calc 2 ^ (s + 1 + 1) * _ ≤ 2 ^ (s + 1 + 1) * (m / 2 ^ (s + 1) + 1) := Nat.mul_le_mul_left _ up
        _ = 2 * ((2 * (m / 2 ^ (s + 1)) + 1) * 2 ^ s) + 2 ^ (s + 1) := by ring
        _ ≤ 2 * m + 2 ^ (s + 1) := by omega

theorem mantissa_ofAccuracy (m : Nat) (a : Accuracy) :
    (ExtendedMantissa.ofMantissaAndAccuracy m a).mantissa = m := by
  rcases a with _ | o
  · rfl
  · cases o <;> rfl

/-- A mantissa and an exponent of the normal range. -/
structure Normal (m : Nat) (e : Int) : Prop where
  least : 2 ^ 52 ≤ m
  most : m < 2 ^ 53
  lo : -1074 ≤ e
  hi : e ≤ 971

theorem Normal.log2 {m : Nat} {e : Int} (normal : Normal m e) : m.log2 = 52 := by
  have least := normal.least
  exact (Nat.log2_eq_iff (by omega)).mpr ⟨least, normal.most⟩

theorem finite_congr {sg : Sign} {m n : Nat} {e f : Int} {pos : 0 < m} {pos' : 0 < n}
    (mantissa : m = n) (exponent : e = f) :
    UnpackedFloat.finite sg m e pos = .finite sg n f pos' := by
  subst mantissa exponent
  rfl

/-- A normal number is unpacked to what was packed. -/
theorem unpack_pack {m : Nat} {e : Int} (normal : Normal m e) (sg : Sign) (pos : 0 < m) :
    (Float.Model.pack (.finite sg m e pos)).unpack = .finite sg m e pos := by
  have log2 := normal.log2
  obtain ⟨least, most, lo, hi⟩ := normal
  obtain ⟨b, same⟩ : ∃ b : Nat, (b : Int) = e + 1075 := ⟨(e + 1075).toNat, by omega⟩
  have biased : (e + (Format.binary64.exponentBias : Int) + (52 : Nat)).toNat = b := by
    simp only [Format.exponentBias]
    omega
  have exponent : (BitVec.ofNat 11 b).toNat = b := by
    rw [BitVec.toNat_ofNat]
    omega
  have mantissa : (BitVec.ofNat 52 m).toNat = m - 2 ^ 52 := by
    rw [BitVec.toNat_ofNat]
    omega
  have not_all : BitVec.ofNat 11 b ≠ -1#11 := fun all => by
    have value := congrArg BitVec.toNat all
    rw [exponent] at value
    simp at value
    omega
  have not_zero : BitVec.ofNat 11 b ≠ 0#11 := fun zero => by
    have value := congrArg BitVec.toNat zero
    rw [exponent] at value
    simp at value
    omega
  have packed : UnpackedFloat.pack Format.binary64 (.finite sg m e pos) =
      packComponents Format.binary64 sg (BitVec.ofNat 11 b) (BitVec.ofNat 52 m) := by
    simp only [UnpackedFloat.pack, biased, log2, Format.mantissaBits]
    rw [if_neg (by omega)]
    rfl
  unfold Float.Model.unpack Float.Model.pack
  simp only [packed, UnpackedFloat.unpack, unpackExponent_packComponents,
    unpackMantissa_packComponents, unpackSign_packComponents, Sign.ofBitVec_toBitVec, not_all,
    not_zero, if_false]
  simp only [toNat_leading, exponent, mantissa, Format.exponentBias]
  apply finite_congr
  · omega
  · omega

/-- A mantissa with `s` bits too many is shifted by `s`. -/
theorem shiftToTargetExponent_eq {m s : Nat} {e : Int} (a : Accuracy) (log2 : m.log2 = 52 + s)
    (lo : -1074 ≤ e + s) : shiftToTargetExponent Format.binary64 m e a =
      (ExtendedMantissa.ofMantissaAndAccuracy m a >>> s, e + s) := by
  have target : (Format.binary64.targetExponent (totalExponent m e) - e).toNat = s := by
    simp only [Format.targetExponent, totalExponent, Format.mantissaBits, Format.minExponent, log2]
    norm_num
    omega
  rw [shiftToTargetExponent, shiftToExponent, target]

theorem finish_eq (sg : Sign) (shifted : ExtendedMantissa × Int) {m : Nat} {e : Int}
    (mantissa : shifted.1.mantissa = m) (exponent : shifted.2 = e) (pos : 0 < m) :
    (if none : shifted.1.mantissa = 0 then UnpackedFloat.zero sg
      else .finite sg shifted.1.mantissa shifted.2 (Nat.pos_of_ne_zero none)) =
        .finite sg m e pos := by
  subst mantissa exponent
  exact dif_neg (by omega)

/-- What rounding makes of a mantissa with `s` bits too many: the quotient `r` by `2 ^ s`, or one more,
with one bit less when that is a bit too long. -/
structure Rounded (m s : Nat) (e : Int) (a : Accuracy) (r m' : Nat) (e' : Int) : Prop where
  normal : Normal m' e'
  fits : m' = r ∧ e' = e + s ∨ m' = 2 ^ 52 ∧ r = 2 ^ 53 ∧ e' = e + s + 1
  down : m / 2 ^ s ≤ r
  up : r ≤ m / 2 ^ s + 1
  nearest : a = .exact → 2 ^ (s + 1) * r ≤ 2 * m + 2 ^ s

theorem round_eq {m s : Nat} {e : Int} {a : Accuracy} (sg : Sign) (log2 : m.log2 = 52 + s)
    (lo : -1074 ≤ e + s) (hi : e + s ≤ 970) :
    ∃ r m' e', ∃ pos : 0 < m', Rounded m s e a r m' e' ∧
      roundWithAccuracy Format.binary64 sg m e a = .finite sg m' e' pos := by
  have positive : m ≠ 0 := by
    rintro rfl
    rw [Nat.log2_zero] at log2
    omega
  obtain ⟨least, most⟩ := (Nat.log2_eq_iff positive).mp log2
  have floor := shift_mantissa (ExtendedMantissa.ofMantissaAndAccuracy m a) s
  rw [mantissa_ofAccuracy] at floor
  obtain ⟨down, up⟩ := rounded_between (ExtendedMantissa.ofMantissaAndAccuracy m a >>> s)
  rw [floor] at down up
  have low : 2 ^ 52 ≤ m / 2 ^ s := by
    rw [Nat.le_div_iff_mul_le (Nat.two_pow_pos s), ← Nat.pow_add]
    exact least
  have high : m / 2 ^ s < 2 ^ 53 := by
    rw [Nat.div_lt_iff_lt_mul (Nat.two_pow_pos s), ← Nat.pow_add]
    rwa [Nat.add_right_comm] at most
  have nearest : a = .exact → 2 ^ (s + 1) *
      (ExtendedMantissa.ofMantissaAndAccuracy m a >>> s).roundedMantissa ≤ 2 * m + 2 ^ s := by
    rintro rfl
    exact rounded_nearest m s
  rw [roundWithAccuracy, shiftToTargetExponent_eq a log2 lo]
  dsimp only
  generalize (ExtendedMantissa.ofMantissaAndAccuracy m a >>> s).roundedMantissa = r at *
  rcases Nat.lt_or_ge r (2 ^ 53) with fits | full
  · have log2_r : r.log2 = 52 + 0 := (Nat.log2_eq_iff (by omega)).mpr ⟨by omega, by omega⟩
    have again := shiftToTargetExponent_eq (e := e + s) .exact log2_r (by omega)
    have kept := shift_mantissa ⟨r, false, false⟩ 0
    rw [Nat.pow_zero, Nat.div_one] at kept
    exact ⟨r, r, e + s, by omega,
      ⟨⟨by omega, fits, lo, by omega⟩, Or.inl ⟨rfl, rfl⟩, down, up, nearest⟩,
      finish_eq sg _ (again ▸ kept) (again ▸ Int.add_zero _) _⟩
  · obtain rfl : r = 2 ^ 53 := by omega
    have again := shiftToTargetExponent_eq (s := 1) (e := e + s) .exact Nat.log2_two_pow (by omega)
    have halved := shift_mantissa ⟨2 ^ 53, false, false⟩ 1
    exact ⟨2 ^ 53, 2 ^ 52, e + s + 1, by omega,
      ⟨⟨by omega, by omega, by omega, by omega⟩, Or.inr ⟨rfl, rfl, rfl⟩, down, up, nearest⟩,
      finish_eq sg _ (again ▸ halved) (again ▸ rfl) _⟩

/-! ## Naturals -/

/-- The mantissa of a natural. -/
def scaled (n : Nat) : Nat := n * 2 ^ (52 - n.log2)

theorem log2_scaled {n : Nat} (pos : 0 < n) (small : n < 2 ^ 53) : (scaled n).log2 = 52 := by
  unfold scaled
  have bound : n.log2 < 53 := (Nat.log2_lt (by omega)).mpr small
  have low : 2 ^ n.log2 ≤ n := Nat.log2_self_le (by omega)
  have high : n < 2 ^ (n.log2 + 1) := Nat.lt_log2_self
  rw [Nat.log2_eq_iff (by positivity)]
  constructor
  · calc 2 ^ 52 = 2 ^ n.log2 * 2 ^ (52 - n.log2) := by rw [← Nat.pow_add]; congr 1; omega
      _ ≤ n * 2 ^ (52 - n.log2) := Nat.mul_le_mul_right _ low
  · calc n * 2 ^ (52 - n.log2) < 2 ^ (n.log2 + 1) * 2 ^ (52 - n.log2) :=
          Nat.mul_lt_mul_of_pos_right high (Nat.two_pow_pos _)
      _ = 2 ^ (52 + 1) := by rw [← Nat.pow_add]; congr 1; omega

/-- A natural of at most 53 bits is exact. -/
theorem unpack_ofNat {n : Nat} (pos : 0 < n) (small : n < 2 ^ 53) :
    ∃ pos', (Float.Model.ofNat n).unpack = .finite .positive (scaled n) (n.log2 - 52) pos' := by
  have bound : n.log2 < 53 := (Nat.log2_lt (by omega)).mpr small
  have log2 := log2_scaled pos small
  obtain ⟨r, m', e', pos', rounded, same⟩ := round_eq (s := 0) (e := n.log2 - 52) (a := .exact)
    .positive (log2.trans (Nat.add_zero _).symm) (by omega) (by omega)
  have target : Format.binary64.targetExponent (totalExponent n 0) = n.log2 - 52 := by
    simp only [Format.targetExponent, totalExponent, Format.mantissaBits, Format.minExponent]
    norm_num
    omega
  have shift : (0 - ((n.log2 : Int) - 52)).toNat = 52 - n.log2 := by omega
  have value : UnpackedFloat.ofNat Format.binary64 n = .finite .positive m' e' pos' := by
    unfold UnpackedFloat.ofNat UnpackedFloat.ofInt UnpackedFloat.normalize
    rw [Int.compare_eq_gt.mpr (by omega)]
    simp only [Int.toNat_natCast, UnpackedFloat.round, target, decreaseExponent, shift, Nat.shiftLeft_eq]
    have point : (0 : Int) - (52 - n.log2 : Nat) = n.log2 - 52 := by omega
    rw [point]
    exact same
  have exact_value : m' = scaled n ∧ e' = n.log2 - 52 := by
    have near := rounded.nearest rfl
    have down := rounded.down
    have most : 2 ^ 52 ≤ scaled n ∧ scaled n < 2 ^ (52 + 1) :=
      (Nat.log2_eq_iff (Nat.mul_pos pos (Nat.two_pow_pos _)).ne').mp log2
    have fits := rounded.fits
    omega
  obtain ⟨rfl, rfl⟩ := exact_value
  refine ⟨pos', ?_⟩
  unfold Float.Model.ofNat
  rw [value]
  exact unpack_pack rounded.normal _ _

theorem roundToInt_eq (m t : Nat) : roundToInt .positive m (-t) = (m / 2 ^ t : Nat) := by
  have kept : (-(t : Int) - 0).toNat = 0 := by omega
  have shift : (0 - (-(t : Int) - (0 : Nat))).toNat = t := by omega
  unfold roundToInt decreaseExponent shiftToExponent
  dsimp only
  rw [kept, shift, shift_mantissa]
  rfl

/-- What is below `2 ^ 16` is truncated. -/
theorem toUInt16_finite {m t : Nat} {e : Int} {pos : 0 < m} (exponent : e + t = 0)
    (small : m / 2 ^ t < 2 ^ 16) :
    (UnpackedFloat.finite .positive m e pos).toUInt16.toNat = m / 2 ^ t := by
  obtain rfl : e = -t := by omega
  rw [UnpackedFloat.toUInt16, UnpackedFloat.toInt, roundToInt_eq, Int.toNat_natCast, UInt16.ofNatClamp]
  exact (congrArg UInt16.toNat (dif_pos small)).trans UInt16.toNat_ofNatLT

/-! ## Products and quotients -/

variable {x y : Float} {n : UInt16} {m : Nat} {e : Int} {pos : 0 < m}

/-- The product of a number of the normal range with a natural. -/
theorem unpack_mul_toFloat (unpacked : y.toModel.unpack = .finite .positive m e pos)
    (normal : Normal m e) (lo : -100 ≤ e) (hi : e ≤ 0) (positive : n ≠ 0) :
    ∃ s r m' e' pos', (m * scaled n.toNat).log2 = 52 + s ∧ 52 ≤ s ∧ s ≤ 53 ∧
      Rounded (m * scaled n.toNat) s (e + (n.toNat.log2 - 52)) .exact r m' e' ∧
      (y * n.toFloat).toModel.unpack = .finite .positive m' e' pos' := by
  have some_n : 0 < n.toNat := Nat.pos_of_ne_zero fun zero => positive (UInt16.toNat_inj.mp zero)
  have small : n.toNat < 2 ^ 16 := n.toNat_lt
  have few : n.toNat.log2 < 16 := (Nat.log2_lt (by omega)).mpr small
  obtain ⟨pos_n, natural⟩ := unpack_ofNat some_n (by omega)
  obtain ⟨low, high⟩ := (Nat.log2_eq_iff (by omega)).mp (log2_scaled some_n (by omega))
  have product_low : 2 ^ 52 * 2 ^ 52 ≤ m * scaled n.toNat := Nat.mul_le_mul normal.least low
  have product_high : m * scaled n.toNat < 2 ^ 53 * 2 ^ 53 := Nat.mul_lt_mul'' normal.most high
  rw [← Nat.pow_add] at product_low product_high
  have least := (Nat.le_log2 (by omega)).mpr product_low
  have most := (Nat.log2_lt (by omega)).mpr product_high
  obtain ⟨s, length⟩ := Nat.exists_eq_add_of_le (Nat.le_trans (Nat.le_add_right 52 52) least)
  obtain ⟨r, m', e', pos', rounded, same⟩ := round_eq (e := e + (n.toNat.log2 - 52)) (a := .exact)
    .positive length (by omega) (by omega)
  refine ⟨s, r, m', e', pos', length, by omega, by omega, rounded, ?_⟩
  show (Float.Model.pack (UnpackedFloat.mul Format.binary64 y.toModel.unpack
    (Float.Model.ofNat n.toNat).unpack)).unpack = _
  rw [unpacked, natural]
  exact (congrArg (fun u => (Float.Model.pack u).unpack) same).trans (unpack_pack rounded.normal _ _)

theorem scaled_bounds (positive : n ≠ 0) :
    2 ^ 52 ≤ scaled n.toNat ∧ scaled n.toNat < 2 ^ 53 ∧ n.toNat.log2 < 16 := by
  have some_n : 0 < n.toNat := Nat.pos_of_ne_zero fun zero => positive (UInt16.toNat_inj.mp zero)
  have small : n.toNat < 2 ^ 16 := n.toNat_lt
  have log2 : (scaled n.toNat).log2 = 52 := log2_scaled some_n (by omega)
  obtain ⟨low, high⟩ := (Nat.log2_eq_iff (Nat.mul_pos some_n (Nat.two_pow_pos _)).ne').mp log2
  exact ⟨low, high, (Nat.log2_lt (by omega)).mpr small⟩

/-- A product with a mantissa, which is less than `2 ^ 53`, is rounded to less than with `2 ^ 53`. -/
theorem rounded_product_lt {m k s r : Nat} (mantissa : m < 2 ^ 53) (low : 2 ^ 52 ≤ k)
    (length : (m * k).log2 = 52 + s) (s_low : 52 ≤ s) (s_high : s ≤ 53)
    (nearest : 2 ^ (s + 1) * r ≤ 2 * (m * k) + 2 ^ s) : 2 ^ s * r < 2 ^ 53 * k := by
  have short : m * k + k ≤ 2 ^ 53 * k := by
    rw [← Nat.succ_mul]
    exact Nat.mul_le_mul_right k mantissa
  obtain rfl | rfl : s = 52 ∨ s = 53 := by omega
  · omega
  · have product_pos : m * k ≠ 0 := by
      rintro zero
      rw [zero, Nat.log2_zero] at length
      omega
    have least := ((Nat.log2_eq_iff product_pos).mp length).1
    omega

/-- A number below one, times a natural, is truncated to less. -/
theorem mul_toFloat_lt (unpacked : y.toModel.unpack = .finite .positive m e pos)
    (normal : Normal m e) (lo : -100 ≤ e) (hi : e ≤ -53) (positive : n ≠ 0) :
    (y * n.toFloat).toUInt16 < n := by
  obtain ⟨s, r, m', e', pos', length, s_low, s_high, rounded, product⟩ :=
    unpack_mul_toFloat unpacked normal lo (by omega) positive
  obtain ⟨low, high, few⟩ := scaled_bounds positive
  have less := rounded_product_lt normal.most low length s_low s_high (rounded.nearest rfl)
  -- the bits behind the point, before the rounding and after it
  obtain ⟨d, bits⟩ : ∃ d : Nat, (d : Int) = -e - s := ⟨(-e - s).toNat, by omega⟩
  have below : r < n.toNat * 2 ^ (52 - n.toNat.log2 + d) := by
    have wide : 2 ^ 53 * scaled n.toNat ≤ 2 ^ s * (n.toNat * 2 ^ (52 - n.toNat.log2 + d)) := calc
      _ ≤ 2 ^ (s + d) * scaled n.toNat :=
        Nat.mul_le_mul_right _ (Nat.pow_le_pow_right (by omega) (by omega))
      _ = _ := by rw [scaled, Nat.pow_add, Nat.pow_add]; ring
    exact Nat.lt_of_mul_lt_mul_left (less.trans_le wide)
  have truncated : ∃ t : Nat, e' + t = 0 ∧ m' / 2 ^ t < n.toNat := by
    rcases rounded.fits with ⟨rfl, rfl⟩ | ⟨rfl, rfl, rfl⟩
    · refine ⟨52 - n.toNat.log2 + d, by omega, ?_⟩
      rwa [Nat.div_lt_iff_lt_mul (Nat.two_pow_pos _)]
    · refine ⟨52 - n.toNat.log2 + d - 1, by omega, ?_⟩
      rw [Nat.div_lt_iff_lt_mul (Nat.two_pow_pos _)]
      obtain ⟨t, more⟩ : ∃ t, 52 - n.toNat.log2 + d = t + 1 := ⟨52 - n.toNat.log2 + d - 1, by omega⟩
      have doubled : n.toNat * 2 ^ (t + 1) = 2 * (n.toNat * 2 ^ t) := by ring
      rw [more, doubled] at below
      rw [more, Nat.add_sub_cancel]
      omega
  obtain ⟨t, exponent, small⟩ := truncated
  rw [UInt16.lt_iff_toNat_lt]
  show (y * n.toFloat).toModel.unpack.toUInt16.toNat < _
  rw [product, toUInt16_finite exponent (small.trans n.toNat_lt)]
  exact small

/-- One, times a natural, is truncated to it. -/
theorem one_mul_toFloat (unpacked : y.toModel.unpack = .finite .positive (2 ^ 52) (-52) (by decide))
    (positive : n ≠ 0) : (y * n.toFloat).toUInt16 = n := by
  have normal : Normal (2 ^ 52) (-52) := ⟨le_rfl, by omega, by omega, by omega⟩
  obtain ⟨s, r, m', e', pos', length, s_low, s_high, rounded, product⟩ :=
    unpack_mul_toFloat unpacked normal (by omega) (by omega) positive
  obtain ⟨low, high, few⟩ := scaled_bounds positive
  have product_pos : 2 ^ 52 * scaled n.toNat ≠ 0 := by omega
  have least := ((Nat.log2_eq_iff product_pos).mp length).1
  obtain rfl : s = 52 := by
    by_contra other
    obtain rfl : s = 53 := by omega
    omega
  have same : r = scaled n.toNat := by
    have near := rounded.nearest rfl
    have down := rounded.down
    omega
  have value : m' = scaled n.toNat ∧ e' + (52 - n.toNat.log2 : Nat) = 0 := by
    have fits := rounded.fits
    omega
  obtain ⟨rfl, exponent⟩ := value
  have divided : scaled n.toNat / 2 ^ (52 - n.toNat.log2) = n.toNat :=
    Nat.mul_div_cancel _ (Nat.two_pow_pos _)
  apply UInt16.toNat_inj.mp
  show (y * n.toFloat).toModel.unpack.toUInt16.toNat = _
  rw [product, toUInt16_finite exponent (by rw [divided]; exact n.toNat_lt), divided]

/-- The quotient of two numbers of the normal range. -/
theorem unpack_div {k : Nat} {f : Int} {pos' : 0 < k}
    (unpacked : x.toModel.unpack = .finite .positive m e pos)
    (unpacked' : y.toModel.unpack = .finite .positive k f pos') (normal : Normal m e)
    (normal' : Normal k f) (lo : -1000 ≤ e - f) (hi : e - f ≤ 1000) :
    ∃ s a r m' e' pos'', s ≤ 1 ∧ (m * 2 ^ 53 / k).log2 = 52 + s ∧
      Rounded (m * 2 ^ 53 / k) s (e - f - 53) a r m' e' ∧
      (x / y).toModel.unpack = .finite .positive m' e' pos'' := by
  have core : divCore Format.binary64 m e k f =
      (m * 2 ^ 53 / k, e - f - 53, accuracyOfFraction (m * 2 ^ 53 % k) k) := by
    have target : min (e - f) (Format.binary64.targetExponent
        (totalExponent m e - totalExponent k f)) = e - f - 53 := by
      simp only [Format.targetExponent, totalExponent, Format.mantissaBits, Format.minExponent,
        normal.log2, normal'.log2]
      norm_num
      omega
    have shift : (e - f - (e - f - 53)).toNat = 53 := by omega
    simp only [divCore, target, shift, Nat.shiftLeft_eq]
  have low : 2 ^ 52 ≤ m * 2 ^ 53 / k := by
    rw [Nat.le_div_iff_mul_le pos']
    exact Nat.mul_le_mul normal.least normal'.most.le
  have high : m * 2 ^ 53 / k < 2 ^ 54 := by
    rw [Nat.div_lt_iff_lt_mul pos']
    have least := normal'.least
    have most := normal.most
    omega
  have least := (Nat.le_log2 (by omega)).mpr low
  have most := (Nat.log2_lt (by omega)).mpr high
  obtain ⟨s, length⟩ := Nat.exists_eq_add_of_le least
  obtain ⟨r, m', e', pos'', rounded, same⟩ := round_eq (e := e - f - 53)
    (a := accuracyOfFraction (m * 2 ^ 53 % k) k) .positive length (by omega) (by omega)
  refine ⟨s, _, r, m', e', pos'', by omega, length, rounded, ?_⟩
  show (Float.Model.pack (UnpackedFloat.div Format.binary64 x.toModel.unpack
    y.toModel.unpack)).unpack = _
  rw [unpacked, unpacked', UnpackedFloat.div, core]
  exact (congrArg (fun u => (Float.Model.pack u).unpack) same).trans (unpack_pack rounded.normal _ _)

/-! ## Differences -/

/-- The positive one. -/
def infinity : Float := 1.0 / 0.0

def nan : Float := 0.0 / 0.0

theorem toModel_inj {x y : Float} (same : x.toModel = y.toModel) : x = y := by
  cases x
  cases y
  cases same
  rfl

theorem toModel_sub (x y : Float) : (x - y).toModel =
    .pack (UnpackedFloat.sub Format.binary64 x.toModel.unpack y.toModel.unpack) := rfl

theorem unpack_infinity : infinity.toModel.unpack = .infinity .positive := by rfl

theorem unpack_neg_infinity : (-infinity).toModel.unpack = .infinity .negative := by rfl

theorem sub_infinity {t : Float} (number : Number t)
    (other : t.toModel.unpack ≠ .infinity .positive) : t - infinity = -infinity := by
  apply toModel_inj
  rw [toModel_sub, unpack_infinity]
  change t.toModel.unpack.isNaN = false at number
  generalize t.toModel.unpack = u at number other
  cases u with
  | notANumber => cases number
  | infinity s =>
    cases s with
    | positive => exact absurd rfl other
    | negative => rfl
  | zero s => rfl
  | finite s m e pos => rfl

/-- From every number some number is infinitely far. -/
theorem exists_far {t : Float} (number : Number t) : ∃ x, (t - x).abs = infinity := by
  by_cases most : t.toModel.unpack = .infinity .positive
  · have difference : t - -infinity = infinity := by
      apply toModel_inj
      rw [toModel_sub, most, unpack_neg_infinity]
      rfl
    refine ⟨-infinity, ?_⟩
    rw [difference]
    decide +kernel
  · refine ⟨infinity, ?_⟩
    rw [sub_infinity number most]
    decide +kernel

/-- With `NaN` no difference is a number. -/
theorem sub_of_nan {t : Float} (other : ¬ Number t) (x : Float) : t - x = nan := by
  rw [Number, Bool.not_eq_false] at other
  change t.toModel.unpack.isNaN = true at other
  apply toModel_inj
  rw [toModel_sub]
  generalize t.toModel.unpack = u at other
  cases u with
  | notANumber => cases x.toModel.unpack <;> rfl
  | infinity s => cases other
  | zero s => cases other
  | finite s m e pos => cases other

end DCScan.Lib.Binary64

import Mathlib

/-! Positive normal 64-bit floats, and how results are rounded to them.
Such a float has a mantissa of exactly 53 bits. Its bits keep it, positive numbers of at most 53
bits are such floats, and a quotient is rounded to the nearest one.
-/

namespace Foundations.NormalFloats

open Float.Model (Format UnpackedFloat totalExponent)
open Float.Model.UnpackedFloat

-----------------------------------------------------------------------------------------
-- Bits and numbers
-----------------------------------------------------------------------------------------

/-- A mantissa of 53 bits with an exponent in range. -/
structure Normal (mantissa : Nat) (exponent : Int) : Prop where
  low : 2 ^ 52 ≤ mantissa
  high : mantissa < 2 ^ 53
  least : -1074 ≤ exponent
  most : exponent ≤ 971

theorem Normal.positive {mantissa : Nat} {exponent : Int} (normal : Normal mantissa exponent)
    : 0 < mantissa :=
  Nat.lt_of_lt_of_le (Nat.two_pow_pos 52) normal.low

theorem log2_of_bounds {mantissa bits : Nat} (low : 2 ^ bits ≤ mantissa)
    (high : mantissa < 2 ^ (bits + 1))
    : mantissa.log2 = bits :=
  (Nat.log2_eq_iff (Nat.ne_of_gt (Nat.lt_of_lt_of_le (Nat.two_pow_pos bits) low))).mpr
    ⟨low, high⟩

/-- The bits of a mantissa without its leading one. -/
theorem toNat_restored {mantissa : Nat} (low : 2 ^ 52 ≤ mantissa) (high : mantissa < 2 ^ 53)
    : (1#1 ++ BitVec.ofNat 52 mantissa).toNat = mantissa := by
  have rest : mantissa % 2 ^ 52 < 2 ^ 52 := Nat.mod_lt _ (Nat.two_pow_pos 52)
  have kept : (BitVec.ofNat 52 mantissa).toNat = mantissa % 2 ^ 52 := BitVec.toNat_ofNat ..
  have one : (1#1).toNat = 1 := rfl
  rw [BitVec.toNat_append, kept, one, ← Nat.shiftLeft_add_eq_or_of_lt rest, Nat.shiftLeft_eq]
  omega

theorem pack_normal {mantissa biased : Nat} (low : 2 ^ 52 ≤ mantissa) (high : mantissa < 2 ^ 53)
    (most : biased < 2047) (positive : 0 < mantissa)
    : pack .binary64 (.finite .positive mantissa (biased - 1075) positive)
      = packComponents .binary64 .positive (BitVec.ofNat 11 biased)
          (BitVec.ofNat 52 mantissa) := by
  have exponent : ((biased : Int) - 1075 + Format.binary64.exponentBias
      + Format.binary64.mantissaBitsWithoutImplicit).toNat = biased := by
    change ((biased : Int) - 1075 + 1023 + 52).toNat = biased
    omega
  have inRange : ¬ 2 ^ Format.binary64.exponentBits ≤ biased + 1 := by
    change ¬ 2048 ≤ biased + 1
    omega
  have full : mantissa.log2 + 1 = Format.binary64.mantissaBits := by
    rw [log2_of_bounds low high]
    rfl
  simp only [pack, exponent, if_neg inRange, if_pos full]

theorem unpack_normal {mantissa biased : Nat} (low : 2 ^ 52 ≤ mantissa)
    (high : mantissa < 2 ^ 53) (least : 0 < biased) (most : biased < 2047)
    (positive : 0 < mantissa)
    : unpack .binary64
        (packComponents .binary64 .positive (BitVec.ofNat 11 biased) (BitVec.ofNat 52 mantissa))
      = .finite .positive mantissa (biased - 1075) positive := by
  have kept : (BitVec.ofNat 11 biased).toNat = biased := by
    rw [BitVec.toNat_ofNat]
    exact Nat.mod_eq_of_lt (by omega)
  have notTop : BitVec.ofNat 11 biased ≠ -1#11 := by
    intro top
    have := congrArg BitVec.toNat top
    rw [kept] at this
    change biased = 2047 at this
    omega
  have notZero : BitVec.ofNat 11 biased ≠ 0#11 := by
    intro zero
    have := congrArg BitVec.toNat zero
    rw [kept] at this
    change biased = 0 at this
    omega
  have mantissaBits := toNat_restored low high
  have exponent : ((biased : Nat) : Int) - (Format.binary64.exponentBias
      + Format.binary64.mantissaBitsWithoutImplicit) = biased - 1075 := rfl
  simp only [unpack, unpackMantissa_packComponents, unpackExponent_packComponents,
    unpackSign_packComponents, kept, if_neg notTop, if_neg notZero, mantissaBits, exponent]
  rfl

theorem targetExponent_eq (total : Int)
    : Format.binary64.targetExponent total = max (total - 53) (-1074) :=
  rfl

/-- A normal float is read back from its bits. -/
theorem Normal.unpack_pack {mantissa : Nat} {exponent : Int} (normal : Normal mantissa exponent)
    (positive : 0 < mantissa)
    : unpack .binary64 (pack .binary64 (.finite .positive mantissa exponent positive))
      = .finite .positive mantissa exponent positive := by
  obtain ⟨low, high, least, most⟩ := normal
  obtain ⟨biased, rfl⟩ : ∃ biased : Nat, exponent = (biased : Int) - 1075 :=
    ⟨(exponent + 1075).toNat, by omega⟩
  have inRange : biased < 2047 := by omega
  have notSubnormal : 0 < biased := by omega
  rw [pack_normal low high inRange positive]
  exact unpack_normal low high notSubnormal inRange positive

/-- A mantissa of 53 bits is where rounding puts it. -/
theorem Normal.shiftToTargetExponent_eq {mantissa : Nat} {exponent : Int}
    (normal : Normal mantissa exponent)
    : shiftToTargetExponent .binary64 mantissa exponent .exact
      = (⟨mantissa, false, false⟩, exponent) := by
  obtain ⟨low, high, least, -⟩ := normal
  have target : Format.binary64.targetExponent (totalExponent mantissa exponent) = exponent := by
    rw [targetExponent_eq, totalExponent, log2_of_bounds low high]
    omega
  rw [shiftToTargetExponent, target, shiftToExponent, Int.sub_self]
  exact congrArg (Prod.mk _) (Int.add_zero exponent)

/-- Rounding keeps a normal float. -/
theorem Normal.round_exact {mantissa : Nat} {exponent : Int} (normal : Normal mantissa exponent)
    (sign : Sign)
    : roundWithAccuracy .binary64 sign mantissa exponent .exact
      = .finite sign mantissa exponent normal.positive := by
  have kept := normal.shiftToTargetExponent_eq
  rw [roundWithAccuracy, kept]
  dsimp only
  rw [ExtendedMantissa.roundedMantissa, ExtendedMantissa.accuracy, Accuracy.roundToNearestEven,
    kept]
  exact dif_neg (Nat.ne_of_gt normal.positive)

/-- A positive number below `2 ^ 53` has 53 bits after a shift to the left. -/
theorem exists_normal {number : Nat} (positive : 0 < number) (small : number < 2 ^ 53)
    : ∃ shift : Nat, shift ≤ 52 ∧ Normal (number * 2 ^ shift) (-shift) := by
  have nonzero := Nat.ne_of_gt positive
  have bits : number.log2 < 53 := (Nat.log2_lt nonzero).mpr small
  have low := Nat.mul_le_mul_right (2 ^ (52 - number.log2)) (Nat.log2_self_le nonzero)
  have high := Nat.mul_lt_mul_of_pos_right (Nat.lt_log2_self (n := number))
    (Nat.two_pow_pos (52 - number.log2))
  rw [← Nat.pow_add] at low high
  rw [show number.log2 + (52 - number.log2) = 52 by omega] at low
  rw [show number.log2 + 1 + (52 - number.log2) = 53 by omega] at high
  exact ⟨52 - number.log2, Nat.sub_le 52 _, low, high, by omega, by omega⟩

/-- A number below `2 ^ 53` is kept exactly. -/
theorem Normal.ofNat_eq {number shift : Nat} (within : shift ≤ 52)
    (normal : Normal (number * 2 ^ shift) (-shift))
    : UnpackedFloat.ofNat .binary64 number
      = .finite .positive (number * 2 ^ shift) (-shift) normal.positive := by
  have whole : 2 ^ 52 = 2 ^ (52 - shift) * 2 ^ shift := by
    rw [← Nat.pow_add, Nat.sub_add_cancel within]
  have double : 2 ^ 53 = 2 ^ (52 - shift + 1) * 2 ^ shift := by
    rw [← Nat.pow_add]
    congr 1
    omega
  have bits : number.log2 = 52 - shift := by
    refine log2_of_bounds ?_ ?_
    · exact Nat.le_of_mul_le_mul_right (whole ▸ normal.low) (Nat.two_pow_pos shift)
    · exact Nat.lt_of_mul_lt_mul_right (double ▸ normal.high)
  have positive : 0 < number := Nat.pos_of_mul_pos_right normal.positive
  have sign : compare (number : Int) 0 = .gt := compare_gt_iff_gt.mpr (by omega)
  have target : Format.binary64.targetExponent (totalExponent number 0) = -shift := by
    rw [targetExponent_eq, totalExponent, bits]
    omega
  have scaled : decreaseExponent number 0 (-shift) = (number * 2 ^ shift, -(shift : Int)) := by
    have amount : (0 - -(shift : Int)).toNat = shift := by omega
    rw [decreaseExponent, amount, Nat.shiftLeft_eq, Int.zero_sub]
  rw [UnpackedFloat.ofNat, UnpackedFloat.ofInt, UnpackedFloat.normalize, sign]
  dsimp only
  rw [UnpackedFloat.round, Int.toNat_natCast, target, scaled]
  exact normal.round_exact .positive

/-- A shift to the right divides the mantissa, by induction on the amount. -/
theorem mantissa_shiftRight (amount : Nat) (extended : ExtendedMantissa)
    : (amount.repeat ExtendedMantissa.shiftRightOne extended).mantissa
      = extended.mantissa / 2 ^ amount := by
  induction amount with
  | zero => exact (Nat.div_one _).symm
  | succ amount ih =>
      rw [Nat.repeat, ExtendedMantissa.shiftRightOne, ih, Nat.div_div_eq_div_mul, Nat.pow_succ]

/-- A float with a negative exponent is truncated to a whole number. -/
theorem roundToInt_eq (mantissa shift : Nat)
    : roundToInt .positive mantissa (-shift) = (mantissa / 2 ^ shift : Nat) := by
  have none : (-(shift : Int) - 0).toNat = 0 := by omega
  have all : (0 - (-(shift : Int) - ((0 : Nat) : Int))).toNat = shift := by omega
  rw [roundToInt, decreaseExponent, none, Nat.shiftLeft_zero]
  dsimp only
  rw [shiftToExponent, all]
  exact congrArg Int.ofNat (mantissa_shiftRight shift _)

-----------------------------------------------------------------------------------------
-- Quotients
-----------------------------------------------------------------------------------------

/-- The quotient of two numbers with what rounding has to know about the fraction. -/
def extendedQuotient (numerator denominator : Nat) : ExtendedMantissa :=
  .ofMantissaAndAccuracy (numerator / denominator)
    (accuracyOfFraction (numerator % denominator) denominator)

/-- The first bit of the fraction says whether it is at least a half, the other one whether it
differs from that.
-/
theorem extendedQuotient_eq (numerator denominator : Nat)
    : extendedQuotient numerator denominator
      = {
        mantissa := numerator / denominator
        roundBit :=
          decide (denominator ≤ 2 * (numerator % denominator) ∧ numerator % denominator ≠ 0)
        stickyBit :=
          decide (2 * (numerator % denominator) ≠ denominator ∧ numerator % denominator ≠ 0)
      } := by
  unfold extendedQuotient accuracyOfFraction
  by_cases whole : numerator % denominator = 0
  · simp [whole, ExtendedMantissa.ofMantissaAndAccuracy]
  · rw [if_neg whole]
    rcases Nat.lt_trichotomy (2 * (numerator % denominator)) denominator with less | half | more
    · rw [compare_lt_iff_lt.mpr less]
      simp [ExtendedMantissa.ofMantissaAndAccuracy, whole, less, Nat.ne_of_lt less]
    · rw [compare_eq_iff_eq.mpr half]
      simp [ExtendedMantissa.ofMantissaAndAccuracy, whole, half]
    · rw [compare_gt_iff_gt.mpr more]
      simp [ExtendedMantissa.ofMantissaAndAccuracy, whole, Nat.le_of_lt more, Nat.ne_of_gt more]

/-- A shift by one bit doubles the denominator. -/
theorem shiftRightOne_extendedQuotient (numerator : Nat) {denominator : Nat}
    (positive : 0 < denominator)
    : (extendedQuotient numerator denominator).shiftRightOne
      = extendedQuotient numerator (denominator * 2) := by
  have below := Nat.mod_lt numerator positive
  have fraction : numerator % (denominator * 2)
      = numerator % denominator + denominator * (numerator / denominator % 2) := Nat.mod_mul
  rw [extendedQuotient_eq, extendedQuotient_eq, ExtendedMantissa.shiftRightOne, fraction,
    ← Nat.div_div_eq_div_mul]
  dsimp only
  generalize numerator % denominator = remainder at below
  rcases Nat.mod_two_eq_zero_or_one (numerator / denominator) with even | odd
  · rw [even, Nat.mul_zero, Nat.add_zero]
    congr 1
    · exact (decide_eq_false (by omega)).symm
    · simp only [← Bool.decide_or, decide_eq_decide]
      omega
  · rw [odd, Nat.mul_one]
    congr 1
    · exact (decide_eq_true (by omega)).symm
    · simp only [← Bool.decide_or, decide_eq_decide]
      omega

/-- A whole number is off the quotient by at most a half. -/
def Nearest (rounded numerator denominator : Nat) : Prop :=
  2 * (rounded * denominator) ≤ 2 * numerator + denominator
  ∧ 2 * numerator ≤ 2 * (rounded * denominator) + denominator

/-- A quotient is rounded to the nearest whole number. -/
theorem nearest_roundedMantissa (numerator : Nat) {denominator : Nat}
    (positive : 0 < denominator)
    : Nearest (extendedQuotient numerator denominator).roundedMantissa numerator denominator := by
  have below := Nat.mod_lt numerator positive
  have split := Nat.div_add_mod' numerator denominator
  have next := Nat.add_one_mul (numerator / denominator) denominator
  rw [extendedQuotient, accuracyOfFraction]
  by_cases whole : numerator % denominator = 0
  · rw [if_pos whole]
    change Nearest (numerator / denominator) _ _
    constructor <;> omega
  · rw [if_neg whole]
    rcases Nat.lt_trichotomy (2 * (numerator % denominator)) denominator with less | half | more
    · rw [compare_lt_iff_lt.mpr less]
      change Nearest (numerator / denominator) _ _
      constructor <;> omega
    · rw [compare_eq_iff_eq.mpr half]
      change Nearest (numerator / denominator + numerator / denominator % 2) _ _
      rcases Nat.mod_two_eq_zero_or_one (numerator / denominator) with even | odd
      · rw [even, Nat.add_zero]
        constructor <;> omega
      · rw [odd]
        constructor <;> omega
    · rw [compare_gt_iff_gt.mpr more]
      change Nearest (numerator / denominator + 1) _ _
      constructor <;> omega

theorem Nearest.lt {rounded numerator denominator bound : Nat}
    (nearest : Nearest rounded numerator denominator)
    (high : 2 * numerator + denominator < 2 * (bound * denominator))
    : rounded < bound := by
  by_contra large
  have scaled := Nat.mul_le_mul_right denominator (Nat.le_of_not_lt large)
  have near := nearest.1
  omega

theorem Nearest.gt {rounded numerator denominator bound : Nat}
    (nearest : Nearest rounded numerator denominator)
    (low : 2 * (bound * denominator) + denominator < 2 * numerator)
    : bound < rounded := by
  by_contra small
  have scaled := Nat.mul_le_mul_right denominator (Nat.le_of_not_lt small)
  have near := nearest.2
  omega

/-- A common factor does not matter. -/
theorem Nearest.of_mul_right {rounded numerator denominator factor : Nat}
    (positive : 0 < factor)
    (nearest : Nearest rounded (numerator * factor) (denominator * factor))
    : Nearest rounded numerator denominator := by
  obtain ⟨low, high⟩ := nearest
  constructor
  · refine Nat.le_of_mul_le_mul_right ?_ positive
    linarith
  · refine Nat.le_of_mul_le_mul_right ?_ positive
    linarith

/-- The quotient of normal floats is computed with one bit more than needed, or none. -/
theorem divCore_normal {dividend divisor left right : Nat}
    (dividendNormal : Normal dividend (-left)) (divisorNormal : Normal divisor (-right))
    (leftWithin : left ≤ 52) (rightWithin : right ≤ 52)
    : divCore .binary64 dividend (-left) divisor (-right)
      = (dividend * 2 ^ 53 / divisor, (right : Int) - left - 53,
          accuracyOfFraction (dividend * 2 ^ 53 % divisor) divisor) := by
  have target : Format.binary64.targetExponent
      (totalExponent dividend (-left) - totalExponent divisor (-right))
      = (right : Int) - left - 53 := by
    rw [targetExponent_eq, totalExponent, totalExponent,
      log2_of_bounds dividendNormal.low dividendNormal.high,
      log2_of_bounds divisorNormal.low divisorNormal.high]
    omega
  have least : min (-(left : Int) - -right) ((right : Int) - left - 53)
      = (right : Int) - left - 53 := by
    omega
  have amount : (-(left : Int) - -right - ((right : Int) - left - 53)).toNat = 53 := by omega
  rw [divCore, target, least, amount, Nat.shiftLeft_eq]

/-- A quotient of 53 or 54 bits is cut to 53 bits. -/
theorem shiftToTargetExponent_quotient {numerator denominator : Nat} {exponent : Int}
    (positive : 0 < denominator) (low : 2 ^ 52 * denominator ≤ numerator)
    (high : numerator < 2 ^ 54 * denominator) (least : -1074 ≤ exponent)
    : ∃ cut : Nat,
        cut ≤ 1
        ∧ 2 ^ 52 * (denominator * 2 ^ cut) ≤ numerator
        ∧ numerator < 2 ^ 53 * (denominator * 2 ^ cut)
        ∧ shiftToTargetExponent .binary64 (numerator / denominator) exponent
            (accuracyOfFraction (numerator % denominator) denominator)
          = (extendedQuotient numerator (denominator * 2 ^ cut), exponent + cut) := by
  have lowQuotient : 2 ^ 52 ≤ numerator / denominator :=
    (Nat.le_div_iff_mul_le positive).mpr low
  by_cases less : numerator < 2 ^ 53 * denominator
  · have bits := log2_of_bounds lowQuotient ((Nat.div_lt_iff_lt_mul positive).mpr less)
    have target : Format.binary64.targetExponent
        (totalExponent (numerator / denominator) exponent) = exponent := by
      rw [targetExponent_eq, totalExponent, bits]
      omega
    refine ⟨0, Nat.zero_le 1, by omega, by omega, ?_⟩
    rw [shiftToTargetExponent, target, shiftToExponent, Int.sub_self, Nat.pow_zero, Nat.mul_one]
    rfl
  · have bits : (numerator / denominator).log2 = 53 := by
      refine log2_of_bounds ?_ ((Nat.div_lt_iff_lt_mul positive).mpr high)
      exact (Nat.le_div_iff_mul_le positive).mpr (Nat.le_of_not_lt less)
    have target : Format.binary64.targetExponent
        (totalExponent (numerator / denominator) exponent) = exponent + 1 := by
      rw [targetExponent_eq, totalExponent, bits]
      omega
    have one : (exponent + 1 - exponent).toNat = 1 := by omega
    refine ⟨1, Nat.le_refl 1, by omega, by omega, ?_⟩
    rw [shiftToTargetExponent, target, shiftToExponent, one, Nat.pow_one,
      ← shiftRightOne_extendedQuotient numerator positive]
    rfl

/-- A quotient of 53 bits that rounding does not carry over is rounded to the nearest float. -/
theorem roundWithAccuracy_quotient {numerator denominator : Nat} {exponent : Int} {cut : Nat}
    (shifted
      : shiftToTargetExponent .binary64 (numerator / denominator) exponent
          (accuracyOfFraction (numerator % denominator) denominator)
        = (extendedQuotient numerator (denominator * 2 ^ cut), exponent + cut))
    (normal
      : Normal (extendedQuotient numerator (denominator * 2 ^ cut)).roundedMantissa
          (exponent + cut))
    (sign : Sign)
    : roundWithAccuracy .binary64 sign (numerator / denominator) exponent
        (accuracyOfFraction (numerator % denominator) denominator)
      = .finite sign (extendedQuotient numerator (denominator * 2 ^ cut)).roundedMantissa
          (exponent + cut) normal.positive := by
  rw [roundWithAccuracy, shifted]
  dsimp only
  rw [normal.shiftToTargetExponent_eq]
  exact dif_neg (Nat.ne_of_gt normal.positive)

/-- The divisor of a quotient of 53 bits is short, because the dividend has at most 53. -/
theorem divisor_lt {dividend divisor shift : Nat} (small : dividend < 2 ^ 53)
    (low : 2 ^ 52 * divisor ≤ dividend * 2 ^ shift)
    : divisor < 2 ^ (shift + 1) := by
  have scaled := Nat.mul_lt_mul_of_pos_right small (Nat.two_pow_pos shift)
  rw [Nat.pow_succ]
  omega

/-- The nearest mantissa to a quotient of 53 bits has 53 bits too: the distance to the next power
of two is at least the last bit of the scaled dividend, which the short divisor does not reach.
-/
theorem Nearest.normal {mantissa dividend divisor shift : Nat}
    (nearest : Nearest mantissa (dividend * 2 ^ shift) divisor) (within : shift ≤ 53)
    (short : divisor < 2 ^ (shift + 1))
    (low : 2 ^ 52 * divisor ≤ dividend * 2 ^ shift)
    (high : dividend * 2 ^ shift < 2 ^ 53 * divisor)
    : Normal mantissa (-shift) := by
  have whole : 2 ^ 53 = 2 ^ (53 - shift) * 2 ^ shift := by
    rw [← Nat.pow_add, Nat.sub_add_cancel within]
  have apart : dividend * 2 ^ shift + 2 ^ shift ≤ 2 ^ 53 * divisor := by
    rw [whole, Nat.mul_right_comm] at high ⊢
    rw [← Nat.add_one_mul]
    exact Nat.mul_le_mul_right _ (Nat.lt_of_mul_lt_mul_right high)
  rw [Nat.pow_succ] at short
  have above : 2 ^ 52 - 1 < mantissa := nearest.gt (by omega)
  have below : mantissa < 2 ^ 53 := nearest.lt (by omega)
  exact ⟨by omega, below, by omega, by omega⟩

/-- A larger number is shifted no further to the left. -/
theorem Normal.shift_le {smaller larger left right : Nat}
    (largerNormal : Normal (larger * 2 ^ left) (-left))
    (smallerNormal : Normal (smaller * 2 ^ right) (-right)) (more : smaller ≤ larger)
    : left ≤ right := by
  have high := largerNormal.high
  have low := smallerNormal.low
  by_contra farther
  have scaled := Nat.mul_le_mul more
    (Nat.pow_le_pow_right Nat.two_pos (Nat.lt_of_not_le farther))
  rw [Nat.pow_succ, ← Nat.mul_assoc] at scaled
  omega

/-- The fraction of the shifted numbers is that of the numbers themselves, with one shift of the
dividend and a common factor.
-/
theorem exists_common_shift (dividend divisor left : Nat) {right cut : Nat}
    (within : right ≤ 52) (one : cut ≤ 1)
    : ∃ shift : Nat,
        dividend * 2 ^ left * 2 ^ 53 = dividend * 2 ^ shift * 2 ^ (right + cut)
        ∧ divisor * 2 ^ right * 2 ^ cut = divisor * 2 ^ (right + cut)
        ∧ (right : Int) - left - 53 + cut = -shift := by
  obtain ⟨shift, total⟩ : ∃ shift, left + 53 = shift + (right + cut) :=
    ⟨left + 53 - (right + cut), by omega⟩
  refine ⟨shift, ?_, ?_, by omega⟩
  · rw [Nat.mul_assoc, ← Nat.pow_add, total, Nat.pow_add, Nat.mul_assoc]
  · rw [Nat.mul_assoc, ← Nat.pow_add]

/-- The quotient of two numbers of at most 53 bits, of which the first one is not smaller, is the
float nearest to it.
-/
theorem exists_quotient {dividend divisor : Nat} (positive : 0 < divisor)
    (more : divisor ≤ dividend) (small : dividend < 2 ^ 53)
    : ∃ (mantissa shift : Nat) (normal : Normal mantissa (-shift)),
        UnpackedFloat.div .binary64 (.ofNat .binary64 dividend) (.ofNat .binary64 divisor)
          = .finite .positive mantissa (-shift) normal.positive
        ∧ Nearest mantissa (dividend * 2 ^ shift) divisor
        ∧ divisor < 2 ^ (shift + 1) := by
  obtain ⟨left, leftWithin, dividendNormal⟩ :=
    exists_normal (Nat.lt_of_lt_of_le positive more) small
  obtain ⟨right, rightWithin, divisorNormal⟩ :=
    exists_normal positive (Nat.lt_of_le_of_lt more small)
  have ordered := dividendNormal.shift_le divisorNormal more
  -- the quotient of the two mantissas, the first one with 53 more bits
  have dividendLow := dividendNormal.low
  have dividendHigh := dividendNormal.high
  have divisorLow := divisorNormal.low
  have divisorHigh := divisorNormal.high
  have scaledLow : 2 ^ 52 * (divisor * 2 ^ right) ≤ dividend * 2 ^ left * 2 ^ 53 := by omega
  have scaledHigh : dividend * 2 ^ left * 2 ^ 53 < 2 ^ 54 * (divisor * 2 ^ right) := by omega
  have least : -1074 ≤ (right : Int) - left - 53 := by omega
  obtain ⟨cut, one, low, high, shifted⟩ :=
    shiftToTargetExponent_quotient divisorNormal.positive scaledLow scaledHigh least
  have nearest := nearest_roundedMantissa (dividend * 2 ^ left * 2 ^ 53)
    (Nat.mul_pos divisorNormal.positive (Nat.two_pow_pos cut))
  generalize rounded : (extendedQuotient (dividend * 2 ^ left * 2 ^ 53)
    (divisor * 2 ^ right * 2 ^ cut)).roundedMantissa = mantissa at nearest
  -- the same bounds for the numbers themselves
  obtain ⟨shift, numerator, denominator, exponent⟩ :=
    exists_common_shift dividend divisor left rightWithin one
  have factor_pos := Nat.two_pow_pos (right + cut)
  rw [denominator, numerator, ← Nat.mul_assoc] at low high
  rw [denominator, numerator] at nearest
  replace low := Nat.le_of_mul_le_mul_right low factor_pos
  replace high := Nat.lt_of_mul_lt_mul_right high
  replace nearest := nearest.of_mul_right factor_pos
  have short := divisor_lt small low
  have normal := nearest.normal (by omega) short low high
  refine ⟨mantissa, shift, normal, ?_, nearest, short⟩
  have divided := roundWithAccuracy_quotient shifted (by rw [rounded, exponent]; exact normal)
    .positive
  rw [dividendNormal.ofNat_eq leftWithin, divisorNormal.ofNat_eq rightWithin, UnpackedFloat.div,
    divCore_normal dividendNormal divisorNormal leftWithin rightWithin]
  simp only [rounded, exponent] at divided
  exact divided

/-- The nearest mantissa is rounded up to the same whole number as the quotient. -/
theorem Nearest.ceilDiv_eq {mantissa dividend divisor shift : Nat}
    (nearest : Nearest mantissa (dividend * 2 ^ shift) divisor) (positive : 0 < divisor)
    (short : divisor < 2 ^ (shift + 1))
    : mantissa ⌈/⌉ 2 ^ shift = dividend ⌈/⌉ divisor := by
  refine eq_of_forall_ge_iff fun bound => ?_
  rw [ceilDiv_le_iff_le_mul (Nat.two_pow_pos shift), ceilDiv_le_iff_le_mul positive]
  rw [Nat.pow_succ] at short
  have same : 2 ^ shift * bound * divisor = divisor * bound * 2 ^ shift := by ring
  constructor
  · intro within
    by_contra larger
    have scaled := Nat.mul_le_mul_right (2 ^ shift) (Nat.lt_of_not_le larger)
    rw [Nat.add_one_mul] at scaled
    have above : 2 ^ shift * bound < mantissa := nearest.gt (by omega)
    omega
  · intro within
    have scaled := Nat.mul_le_mul_right (2 ^ shift) within
    have next := Nat.succ_mul (2 ^ shift * bound) divisor
    exact Nat.le_of_lt_succ (nearest.lt (by omega))

/-- Integers are rounded up by rounding their negation down. -/
theorem neg_ediv_neg {mantissa unit : Nat} (positive : 0 < unit) (some : 0 < mantissa)
    : -(-(mantissa : Int) / unit) = (mantissa ⌈/⌉ unit : Nat) := by
  have above := (ceilDiv_le_iff_le_mul positive).mp (Nat.le_refl (mantissa ⌈/⌉ unit))
  obtain ⟨previous, next⟩ : ∃ previous, mantissa ⌈/⌉ unit = previous + 1 := by
    refine Nat.exists_eq_succ_of_ne_zero fun zero => ?_
    rw [zero, Nat.mul_zero] at above
    omega
  have below : unit * previous < mantissa := by
    refine Nat.lt_of_not_le fun within => ?_
    have least := (ceilDiv_le_iff_le_mul positive).mpr within
    omega
  rw [next, Nat.mul_add_one, Nat.mul_comm] at above
  rw [Nat.mul_comm] at below
  rw [next, neg_eq_iff_eq_neg, Int.ediv_eq_iff_of_pos (by omega)]
  push_cast
  zify at above below
  constructor <;> linarith

end Foundations.NormalFloats

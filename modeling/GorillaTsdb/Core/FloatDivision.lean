import GorillaTsdb.Core.FloatArithmetic
import GorillaTsdb.Foundations.NormalFloats

/-! The rounded-up quotient of two sizes, computed in 64-bit floats.
Sizes below `2 ^ 53` are floats themselves. Their quotient is rounded, but never across a whole
number, so rounding it up gives the exact result.
-/

namespace GorillaTsdb

open Float.Model (Format UnpackedFloat)
open Float.Model.UnpackedFloat
open Foundations.NormalFloats

/-- The unpacked form of a float. -/
def F64.unpacked (self : F64) : UnpackedFloat := self.toFloat.toModel.unpack

/-- The float with the given unpacked form. -/
def F64.packed (number : UnpackedFloat) : F64 := .ofFloat (.ofModel (.pack number))

theorem F64.unpacked_packed {mantissa : Nat} {exponent : Int} (normal : Normal mantissa exponent)
    : (F64.packed (.finite .positive mantissa exponent normal.positive)).unpacked
      = .finite .positive mantissa exponent normal.positive := by
  have kept := normal.unpack_pack normal.positive
  change unpack .binary64 (pack .binary64 (unpack .binary64 (pack .binary64 _))) = _
  rw [kept, kept]

/-- Truncation drops the bits behind the point. -/
theorem F64.toUsize_eq {self : F64} {mantissa shift : Nat} {positive : 0 < mantissa}
    (unpacked : self.unpacked = .finite .positive mantissa (-shift) positive)
    (high : mantissa < 2 ^ 53)
    : self.toUsize = mantissa / 2 ^ shift := by
  have whole : mantissa / 2 ^ shift < UInt64.size :=
    Nat.lt_of_le_of_lt (Nat.div_le_self mantissa _) (Nat.lt_trans high (by decide))
  change (UInt64.ofNatClamp (self.unpacked.toInt 0 (UInt64.size - 1)).toNat).toNat = _
  rw [unpacked, UnpackedFloat.toInt, roundToInt_eq, Int.toNat_natCast, UInt64.ofNatClamp,
    dif_pos whole]
  rfl

/-- A size below `2 ^ 53` is a float itself. -/
theorem F64.unpacked_ofNat {value : Nat} (positive : 0 < value) (small : value < 2 ^ 53)
    : (F64.ofNat value).unpacked = .ofNat .binary64 value := by
  obtain ⟨shift, within, normal⟩ := exists_normal positive small
  change (F64.packed (.ofNat .binary64 value)).unpacked = _
  rw [normal.ofNat_eq within, F64.unpacked_packed normal]

theorem F64.toUsize_ofNat {value : Nat} (positive : 0 < value) (small : value < 2 ^ 53)
    : (F64.ofNat value).toUsize = value := by
  obtain ⟨shift, within, normal⟩ := exists_normal positive small
  have unpacked := F64.unpacked_ofNat positive small
  rw [normal.ofNat_eq within] at unpacked
  rw [F64.toUsize_eq unpacked normal.high]
  exact Nat.mul_div_left value (Nat.two_pow_pos shift)

/-- Rounding up and truncating divides the mantissa, rounded up. -/
theorem F64.toUsize_ceil {self : F64} {mantissa shift : Nat} {positive : 0 < mantissa}
    (unpacked : self.unpacked = .finite .positive mantissa (-shift) positive)
    (high : mantissa < 2 ^ 53)
    : self.ceil.toUsize = mantissa ⌈/⌉ 2 ^ shift := by
  have within : mantissa ⌈/⌉ 2 ^ shift ≤ mantissa := by
    refine (ceilDiv_le_iff_le_mul (Nat.two_pow_pos shift)).mpr ?_
    exact Nat.le_mul_of_pos_left mantissa (Nat.two_pow_pos shift)
  have least : 0 < mantissa ⌈/⌉ 2 ^ shift := by
    refine Nat.pos_of_ne_zero fun zero => ?_
    have none := (ceilDiv_le_iff_le_mul (Nat.two_pow_pos shift)).mp (Nat.le_of_eq zero)
    omega
  have matched : self.toFloat.toModel.unpack = .finite .positive mantissa (-shift) positive :=
    unpacked
  rw [F64.ceil, matched]
  dsimp only
  rcases Nat.eq_zero_or_pos shift with rfl | fraction
  · rw [if_pos (by omega), F64.toUsize_eq unpacked high, Nat.pow_zero, Nat.div_one, ceilDiv_one]
  · have unit : (- -(shift : Int)).toNat = shift := by omega
    have whole : -(-Sign.positive.apply (mantissa : Int) / ((2 ^ shift : Nat) : Int))
        = (mantissa ⌈/⌉ 2 ^ shift : Nat) := neg_ediv_neg (Nat.two_pow_pos shift) positive
    rw [if_neg (by omega), unit, whole]
    exact F64.toUsize_ofNat least (Nat.lt_of_le_of_lt within high)

/-- The quotient of two sizes in floats is rounded up to the exact result. -/
theorem F64.toUsize_ceil_div {dividend divisor : Nat} (positive : 0 < divisor)
    (more : divisor ≤ dividend) (small : dividend < 2 ^ 53)
    : (F64.ofNat dividend / F64.ofNat divisor).ceil.toUsize = dividend ⌈/⌉ divisor := by
  obtain ⟨mantissa, shift, normal, divided, nearest, short⟩ :=
    exists_quotient positive more small
  have quotient : (F64.ofNat dividend / F64.ofNat divisor).unpacked
      = .finite .positive mantissa (-shift) normal.positive := by
    change (F64.packed (UnpackedFloat.div .binary64 (F64.ofNat dividend).unpacked
      (F64.ofNat divisor).unpacked)).unpacked = _
    rw [F64.unpacked_ofNat (Nat.lt_of_lt_of_le positive more) small,
      F64.unpacked_ofNat positive (Nat.lt_of_le_of_lt more small), divided,
      F64.unpacked_packed normal]
  rw [F64.toUsize_ceil quotient normal.high, nearest.ceilDiv_eq positive short]

end GorillaTsdb

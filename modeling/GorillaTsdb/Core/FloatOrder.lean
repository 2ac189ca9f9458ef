import GorillaTsdb.Core.FloatArithmetic
import Mathlib

/-! The numbers among the 64-bit floats are linearly ordered, up to the sign of zero.
Each has a rank: its kind, then its exponent, then its mantissa, all negated below zero. Only
one bit pattern has the rank of an infinity.
-/

namespace GorillaTsdb

open Float.Model (Format UnpackedFloat)
open Float.Model.UnpackedFloat

/-- The place of an unpacked number in the order; a NaN has none. -/
def unpackedRank : UnpackedFloat → Int ×ₗ Int ×ₗ Int
  | .infinity .negative => toLex (-2, toLex (0, 0))
  | .finite .negative mantissa exponent _ => toLex (-1, toLex (-exponent, -mantissa))
  | .zero _ => toLex (0, toLex (0, 0))
  | .notANumber => toLex (0, toLex (0, 0))
  | .finite .positive mantissa exponent _ => toLex (1, toLex (exponent, mantissa))
  | .infinity .positive => toLex (2, toLex (0, 0))

/-- Numbers compare as their ranks, by cases on both. -/
theorem le_iff_unpackedRank {left right : UnpackedFloat} (leftNumber : left ≠ .notANumber)
    (rightNumber : right ≠ .notANumber)
    : left.le right = true ↔ unpackedRank left ≤ unpackedRank right := by
  have isGE_then_iff : ∀ first second : Ordering,
      (first.then second).isGE ↔ first = .gt ∨ first = .eq ∧ second.isGE := by decide
  rcases left with ⟨⟨⟩⟩ | _ | _ | ⟨⟨⟩, mantissa, exponent, _⟩ <;>
    rcases right with ⟨⟨⟩⟩ | _ | _ | ⟨⟨⟩, otherMantissa, otherExponent, _⟩ <;>
    simp [UnpackedFloat.le, UnpackedFloat.compare, unpackedRank, Prod.Lex.le_iff] at *
  case finite.negative.finite.negative =>
    rw [isGE_then_iff, compare_gt_iff_gt, compare_eq_iff_eq, Std.isGE_compare]
  case finite.positive.finite.positive =>
    rw [Ordering.isLE_then_iff_or, compare_lt_iff_lt, compare_eq_iff_eq, Std.isLE_compare]
  all_goals rfl

/-- Only one bit pattern is repacked as an infinity: a NaN stays one, and everything else keeps
its bits.
-/
theorem bits_of_repack_infinity {bits : BitVec Format.binary64.numBits} {sign : Sign}
    (repacked : unpack .binary64 (pack .binary64 (unpack .binary64 bits)) = .infinity sign)
    : bits = pack .binary64 (.infinity sign) := by
  have kept := pack_unpack bits
  rw [kept] at repacked
  split at repacked
  case isTrue =>
    rw [unpack_packedNaN] at repacked
    cases repacked
  case isFalse number =>
    rw [if_neg number, repacked] at kept
    exact kept.symm

/-- The place of a number in the order. -/
def F64.rank (self : F64) : Int ×ₗ Int ×ₗ Int := unpackedRank self.toFloat.toModel.unpack

theorem F64.unpack_ne_of_isNan {self : F64} (number : self.isNan = false)
    : self.toFloat.toModel.unpack ≠ .notANumber := by
  intro nan
  have isNan : self.isNan = self.toFloat.toModel.unpack.isNaN := rfl
  rw [isNan, nan] at number
  cases number

theorem F64.le_iff_rank {left right : F64} (leftNumber : left.isNan = false)
    (rightNumber : right.isNan = false)
    : left.toFloat ≤ right.toFloat ↔ left.rank ≤ right.rank :=
  decide_eq_true_iff.trans
    (le_iff_unpackedRank (F64.unpack_ne_of_isNan leftNumber)
      (F64.unpack_ne_of_isNan rightNumber))

/-- The infinities stand alone at both ends of the order. -/
theorem eq_infinity_of_rank {number : UnpackedFloat} {sign : Sign}
    (outside
      : match sign with
        | .positive => unpackedRank (.infinity .positive) ≤ unpackedRank number
        | .negative => unpackedRank number ≤ unpackedRank (.infinity .negative))
    : number = .infinity sign := by
  cases sign <;>
    rcases number with ⟨⟨⟩⟩ | _ | _ | ⟨⟨⟩, mantissa, exponent, _⟩ <;>
    simp [unpackedRank, Prod.Lex.le_iff] at outside ⊢

theorem F64.eq_of_unpack_infinity {left right : F64} {sign : Sign}
    (leftUnpacked : left.toFloat.toModel.unpack = .infinity sign)
    (rightUnpacked : right.toFloat.toModel.unpack = .infinity sign)
    : left = right := by
  have bits := (bits_of_repack_infinity leftUnpacked).trans
    (bits_of_repack_infinity rightUnpacked).symm
  cases left
  cases right
  exact congrArg F64.mk (UInt64.toBitVec_inj.mp bits)

theorem F64.eq_infinity {self : F64} (top : F64.infinity.rank ≤ self.rank)
    : self = F64.infinity := by
  have unpacked : self.toFloat.toModel.unpack = .infinity .positive := eq_infinity_of_rank top
  exact F64.eq_of_unpack_infinity unpacked rfl

theorem F64.eq_negInfinity {self : F64} (bottom : self.rank ≤ F64.negInfinity.rank)
    : self = F64.negInfinity := by
  have unpacked : self.toFloat.toModel.unpack = .infinity .negative := eq_infinity_of_rank bottom
  exact F64.eq_of_unpack_infinity unpacked rfl

/-- Numbers of one rank are the same, but for the sign of zero. -/
def F64.SameNumber (left right : F64) : Prop :=
  left.toFloat ≤ right.toFloat ∧ right.toFloat ≤ left.toFloat

theorem F64.sameNumber_iff_rank {left right : F64} (leftNumber : left.isNan = false)
    (rightNumber : right.isNan = false)
    : F64.SameNumber left right ↔ left.rank = right.rank := by
  rw [F64.SameNumber, F64.le_iff_rank leftNumber rightNumber,
    F64.le_iff_rank rightNumber leftNumber, le_antisymm_iff]

/-- The minimum of two numbers is the one that is not the larger. -/
theorem F64.min_picks {best item : F64} (bestNumber : best.isNan = false)
    (itemNumber : item.isNan = false)
    : (best.rank ≤ item.rank ∧ best.min item = best)
      ∨ (item.rank ≤ best.rank ∧ best.min item = item) := by
  by_cases smaller : item.toFloat ≤ best.toFloat
  · exact .inr ⟨(le_iff_rank itemNumber bestNumber).mp smaller, by simp [F64.min, smaller]⟩
  · refine .inl ⟨?_, by simp [F64.min, smaller, bestNumber]⟩
    rw [le_iff_rank itemNumber bestNumber, not_le] at smaller
    exact smaller.le

/-- The maximum of two numbers is the one that is not the smaller. -/
theorem F64.max_picks {best item : F64} (bestNumber : best.isNan = false)
    (itemNumber : item.isNan = false)
    : (item.rank ≤ best.rank ∧ best.max item = best)
      ∨ (best.rank ≤ item.rank ∧ best.max item = item) := by
  by_cases larger : best.toFloat ≤ item.toFloat
  · exact .inr ⟨(le_iff_rank bestNumber itemNumber).mp larger, by simp [F64.max, larger]⟩
  · refine .inl ⟨?_, by simp [F64.max, larger, bestNumber]⟩
    rw [le_iff_rank bestNumber itemNumber, not_le] at larger
    exact larger.le

end GorillaTsdb

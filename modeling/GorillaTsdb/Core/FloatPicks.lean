import GorillaTsdb.Core.FloatOrder
import GorillaTsdb.Foundations.Grouping

/-! Folding a minimum or a maximum over floats that may be NaN.
A NaN loses every comparison, and both operations pass over it. So such a fold picks a number by
its rank, and may be taken over the folds of parts.
-/

namespace GorillaTsdb

open Float.Model (UnpackedFloat)
open Foundations.Grouping

/-- A NaN is neither at most nor at least anything. -/
theorem F64.not_le_of_isNan {left right : F64} (nan : left.isNan = true ∨ right.isNan = true)
    : ¬ left.toFloat ≤ right.toFloat := by
  intro less
  have unpacked : left.toFloat.toModel.unpack.le right.toFloat.toModel.unpack = true :=
    decide_eq_true_iff.mp less
  have unordered (number : F64) (isNan : number.isNan = true)
      : number.toFloat.toModel.unpack = .notANumber := by
    have same : number.isNan = number.toFloat.toModel.unpack.isNaN := rfl
    rw [same] at isNan
    cases kind : number.toFloat.toModel.unpack <;> simp_all [UnpackedFloat.isNaN]
  rcases nan with nan | nan
  · rw [unordered left nan] at unpacked
    simp [UnpackedFloat.le, UnpackedFloat.compare] at unpacked
  · rw [unordered right nan] at unpacked
    cases kind : left.toFloat.toModel.unpack <;>
      simp [kind, UnpackedFloat.le, UnpackedFloat.compare] at unpacked

theorem F64.min_picking
    : Picking F64.rank F64.min (fun value => value.isNan = false) F64.infinity where
  picks := F64.min_picks
  skips := by
    intro best item number nan
    have smaller : ¬ item.toFloat ≤ best.toFloat :=
      F64.not_le_of_isNan (.inl (by simpa using nan))
    simp [F64.min, number, smaller]
  admits := by decide
  extreme := fun _ => F64.eq_infinity

theorem F64.max_picking
    : Picking (fun value => OrderDual.toDual (F64.rank value)) F64.max
        (fun value => value.isNan = false) F64.negInfinity where
  picks := F64.max_picks
  skips := by
    intro best item number nan
    have larger : ¬ best.toFloat ≤ item.toFloat :=
      F64.not_le_of_isNan (.inr (by simpa using nan))
    simp [F64.max, number, larger]
  admits := by decide
  extreme := fun _ => F64.eq_negInfinity

end GorillaTsdb

import Mathlib.Algebra.BigOperators.Group.Finset.Basic
import Mathlib.Tactic.Abel

/-! Positions that are told through the changes of a velocity.
Who adds up what is told twice keeps a wrong change twice: as a wrong velocity, and with it as
wrong positions that get worse with every step.
-/

namespace Foundations.DoubleSums

variable {G : Type} [AddCommGroup G]

/-- The positions after each change, from a position and a velocity. -/
def positions (position velocity : G) : List G → List G
  | [] => []
  | change :: rest =>
      (position + (velocity + change))
        :: positions (position + (velocity + change)) (velocity + change) rest

@[simp]
theorem length_positions (position velocity : G) (changes : List G)
    : (positions position velocity changes).length = changes.length := by
  induction changes generalizing position velocity with
  | nil => rfl
  | cons change rest ih => simp [positions, ih]

/-- The changes up to an index, each counted as often as it has moved the position. -/
def doubleSum (changes : List G) (index : Nat) : G :=
  ∑ earlier ∈ Finset.range (index + 1), (index + 1 - earlier) • changes.getD earlier 0

theorem doubleSum_zero (change : G) (rest : List G) : doubleSum (change :: rest) 0 = change := by
  rw [doubleSum, Finset.sum_range_one, Nat.sub_zero, one_nsmul]
  rfl

/-- The first change is counted once more with every index. -/
theorem doubleSum_succ (change : G) (rest : List G) (index : Nat)
    : doubleSum (change :: rest) (index + 1)
      = doubleSum rest index + (index + 2) • change := by
  rw [doubleSum, Finset.sum_range_succ']
  refine congrArg₂ (· + ·) (Finset.sum_congr rfl fun earlier _ => ?_) rfl
  rw [Nat.add_sub_add_right, List.getD_cons_succ]

/-- Every position is the first one moved by the first velocity and by every change, each as
often as there were steps since, by induction on the changes.
-/
theorem getElem_positions (position velocity : G) (changes : List G) {index : Nat}
    (told : index < (positions position velocity changes).length)
    : (positions position velocity changes)[index]
      = position + (index + 1) • velocity + doubleSum changes index := by
  induction changes generalizing position velocity index with
  | nil => exact absurd told (Nat.not_lt_zero index)
  | cons change rest ih =>
      cases index with
      | zero =>
          rw [doubleSum_zero, Nat.zero_add, one_nsmul, add_assoc]
          rfl
      | succ index =>
          have later := ih (position + (velocity + change)) (velocity + change)
            (Nat.lt_of_succ_lt_succ told)
          rw [doubleSum_succ]
          refine later.trans ?_
          simp only [nsmul_add, add_nsmul, one_nsmul, two_nsmul]
          abel

end Foundations.DoubleSums

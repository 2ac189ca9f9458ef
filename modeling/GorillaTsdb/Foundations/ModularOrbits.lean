import Mathlib.Algebra.Order.Ring.Int
import Mathlib.Data.Nat.ModEq

/-! Counters that advance by a fixed step and wrap around at a modulus.
From a start they reach the residue class of the start modulo the common divisor of step and
modulus, and nothing else.
-/

namespace Foundations.ModularOrbits

variable {start step modulus : Nat}

/-- The value of a counter after some rounds. -/
def orbit (start step modulus rounds : Nat) : Nat := (start + rounds * step) % modulus

theorem orbit_mod_gcd (start step modulus rounds : Nat)
    : orbit start step modulus rounds % step.gcd modulus = start % step.gcd modulus := by
  obtain ⟨factor, same⟩ := Nat.dvd_mul_left_of_dvd (Nat.gcd_dvd_left step modulus) rounds
  rw [orbit, Nat.mod_mod_of_dvd _ (Nat.gcd_dvd_right step modulus), same,
    Nat.add_mul_mod_self_left]

/-- Every value of the residue class is reached: a large enough multiple of the common divisor
is a combination of step and modulus.
-/
theorem exists_orbit_eq {target : Nat} (below : target < modulus)
    (congruent : target % step.gcd modulus = start % step.gcd modulus)
    : ∃ rounds, orbit start step modulus rounds = target := by
  -- the multiple of the modulus keeps the difference natural and makes it large enough
  have wraps : start ≤ modulus * start := Nat.le_mul_of_pos_left start (Nat.zero_lt_of_lt below)
  have shifted : (target + modulus * (step + start)) % step.gcd modulus
      = start % step.gcd modulus := by
    obtain ⟨factor, same⟩ :=
      Nat.dvd_mul_right_of_dvd (Nat.gcd_dvd_right step modulus) (step + start)
    rw [same, Nat.add_mul_mod_self_left, congruent]
  have divides : step.gcd modulus ∣ target + modulus * (step + start) - start :=
    Nat.ModEq.dvd' (Nat.ModEq.symm shifted)
  have large : step.pred * modulus.pred ≤ target + modulus * (step + start) - start := by
    have product := Nat.mul_le_mul (Nat.pred_le step) (Nat.pred_le modulus)
    rw [Nat.mul_comm step modulus] at product
    rw [Nat.mul_add]
    omega
  obtain ⟨rounds, turns, combined⟩ :=
    Nat.exists_add_mul_eq_of_gcd_dvd_of_mul_pred_le step modulus _ divides large
  refine ⟨rounds, ?_⟩
  have whole : start + rounds * step + turns * modulus = target + modulus * (step + start) := by
    rw [Nat.mul_add] at combined ⊢
    omega
  have reduced := congrArg (· % modulus) whole
  simpa only [orbit, Nat.add_mul_mod_self_right, Nat.add_mul_mod_self_left,
    Nat.mod_eq_of_lt below] using reduced

/-- The largest value of the residue class below the modulus. -/
def orbitTop (start step modulus : Nat) : Nat :=
  modulus - step.gcd modulus + start % step.gcd modulus

theorem orbitTop_lt (start step : Nat) (positive : 0 < modulus)
    : orbitTop start step modulus < modulus := by
  have unit : 0 < step.gcd modulus := Nat.gcd_pos_of_pos_right step positive
  have small := Nat.mod_lt start unit
  have fits := Nat.gcd_le_right step positive
  rw [orbitTop]
  omega

theorem exists_orbit_eq_orbitTop (start step : Nat) (positive : 0 < modulus)
    : ∃ rounds, orbit start step modulus rounds = orbitTop start step modulus := by
  refine exists_orbit_eq (orbitTop_lt start step positive) ?_
  obtain ⟨factor, same⟩ := Nat.dvd_sub (Nat.gcd_dvd_right step modulus) (dvd_refl _)
  rw [orbitTop, same, Nat.add_comm, Nat.add_mul_mod_self_left, Nat.mod_mod]

/-- No value of the residue class lies between its largest one and the modulus. -/
theorem orbit_le_orbitTop (start step : Nat) (positive : 0 < modulus) (rounds : Nat)
    : orbit start step modulus rounds ≤ orbitTop start step modulus := by
  have residue := orbit_mod_gcd start step modulus rounds
  have below : orbit start step modulus rounds < modulus := Nat.mod_lt _ positive
  obtain ⟨factor, same⟩ := Nat.gcd_dvd_right step modulus
  have split := Nat.div_add_mod (orbit start step modulus rounds) (step.gcd modulus)
  have quotient : orbit start step modulus rounds / step.gcd modulus + 1 ≤ factor := by
    refine Nat.div_lt_of_lt_mul ?_
    rwa [← same]
  have bound := Nat.mul_le_mul_left (step.gcd modulus) quotient
  rw [← same, Nat.mul_add, Nat.mul_one] at bound
  rw [orbitTop, ← residue]
  omega

/-- A counter passes a bound exactly if the largest value of its residue class does. -/
theorem exists_lt_orbit_iff (start step : Nat) (positive : 0 < modulus) (bound : Nat)
    : (∃ rounds, bound < orbit start step modulus rounds)
      ↔ bound < orbitTop start step modulus := by
  constructor
  · intro ⟨rounds, passed⟩
    exact passed.trans_le (orbit_le_orbitTop start step positive rounds)
  · intro passed
    obtain ⟨rounds, top⟩ := exists_orbit_eq_orbitTop start step positive
    exact ⟨rounds, top ▸ passed⟩

end Foundations.ModularOrbits

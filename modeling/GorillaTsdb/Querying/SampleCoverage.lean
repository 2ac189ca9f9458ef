import GorillaTsdb.Core.FloatDivision
import GorillaTsdb.Querying.Downsampling

/-! Downsampling covers the whole range of the points.
The step is the exact quotient of the sizes, rounded up, so the limit is not reached before the
indices run out.
-/

namespace GorillaTsdb.Querying

/-- For sizes that are floats, the step is the quotient rounded up. -/
theorem sampleStep_eq {count maxPoints : Nat} (positive : 1 ≤ maxPoints)
    (many : maxPoints < count) (small : count < 2 ^ 53)
    : sampleStep count maxPoints = count ⌈/⌉ maxPoints := by
  rw [sampleStep, F64.toUsize_ceil_div positive (Nat.le_of_lt many) small]
  refine Nat.max_eq_left (Nat.pos_of_ne_zero fun zero => ?_)
  have none := (ceilDiv_le_iff_le_mul positive).mp (Nat.le_of_eq zero)
  omega

/-- There are at most as many sampled indices as the limit admits. -/
theorem sampledIndices_length_le {count maxPoints : Nat} (positive : 1 ≤ maxPoints)
    (many : maxPoints < count) (small : count < 2 ^ 53)
    : (sampledIndices count maxPoints).length ≤ maxPoints := by
  have covered : count ≤ maxPoints * (count ⌈/⌉ maxPoints) :=
    (ceilDiv_le_iff_le_mul positive).mp (Nat.le_refl _)
  rw [← List.getElem?_eq_none_iff, getElem?_sampledIndices, sampleStep_eq positive many small,
    List.getElem?_eq_none_iff, List.length_finRange]
  exact covered

/-- The limit cuts off no sample: the points at all multiples of the step are kept. -/
theorem getElem?_downsamplePoints {points : List DataPoint} {maxPoints : Nat}
    (positive : 1 ≤ maxPoints) (many : maxPoints < points.length)
    (small : points.length < 2 ^ 53) (place : Nat)
    : (downsamplePoints points maxPoints)[place]?
      = points[place * (points.length ⌈/⌉ maxPoints)]? := by
  have all := (sampledIndices_length_le positive many small).trans (Nat.le_max_right 1 maxPoints)
  rw [downsamplePoints_eq many, List.take_of_length_le all, List.getElem?_map,
    getElem?_sampledIndices, sampleStep_eq positive many small, ← List.getElem?_map,
    List.map_get_finRange]

/-- More than half of the limit is used: the last sample is at the end of the range, and a step of
two or more is less than twice the quotient.
-/
theorem lt_two_mul_of_covered {count maxPoints kept : Nat} (positive : 1 ≤ maxPoints)
    (many : maxPoints < count) (covered : count ≤ kept * (count ⌈/⌉ maxPoints))
    : maxPoints < 2 * kept := by
  obtain ⟨previous, step⟩ : ∃ previous, count ⌈/⌉ maxPoints = previous + 2 := by
    refine Nat.exists_eq_add_of_le' (Nat.lt_of_not_le fun single => ?_)
    have within := (ceilDiv_le_iff_le_mul positive).mp single
    omega
  have early : maxPoints * (previous + 1) < count := by
    refine Nat.lt_of_not_le fun within => ?_
    have least := (ceilDiv_le_iff_le_mul positive).mpr within
    omega
  rw [step] at covered
  by_contra half
  have scaled := Nat.mul_le_mul_right (previous + 1) (Nat.le_of_not_lt half)
  have doubled : kept * (previous + 2) ≤ 2 * kept * (previous + 1) := by
    rw [Nat.mul_comm 2, Nat.mul_assoc]
    exact Nat.mul_le_mul_left kept (by omega)
  omega

/-- Downsampling returns the points at all multiples of the step, each point is less than a step
behind a returned one, and more than half of the limit is used.
-/
theorem downsample_covers (points : List DataPoint) (maxPoints : Nat)
    (positive : 1 ≤ maxPoints) (many : maxPoints < points.length)
    (small : points.length < 2 ^ 53)
    : let step := points.length ⌈/⌉ maxPoints
      let sampled := downsamplePoints points maxPoints
      (∀ place, sampled[place]? = points[place * step]?)
      ∧ (∀ index < points.length,
          ∃ place < sampled.length, place * step ≤ index ∧ index < place * step + step)
      ∧ sampled.length ≤ maxPoints
      ∧ maxPoints < 2 * sampled.length := by
  intro step sampled
  have lookup (place : Nat) : sampled[place]? = points[place * step]? :=
    getElem?_downsamplePoints positive many small place
  have step_pos : 0 < step := by
    refine Nat.pos_of_ne_zero fun zero => ?_
    have none := (ceilDiv_le_iff_le_mul positive).mp (Nat.le_of_eq zero)
    omega
  refine ⟨lookup, ?_, ?_, ?_⟩
  · intro index within
    have below : index / step * step ≤ index := Nat.div_mul_le_self index step
    refine ⟨index / step, ?_, below, Nat.lt_div_mul_add step_pos⟩
    by_contra outside
    rw [Nat.not_lt, ← List.getElem?_eq_none_iff, lookup, List.getElem?_eq_none_iff] at outside
    omega
  · exact (downsamplePoints_length_le_iff points maxPoints).mpr (Or.inl positive)
  · refine lt_two_mul_of_covered positive many ?_
    rw [← List.getElem?_eq_none_iff, ← lookup, List.getElem?_eq_none_iff]

/-- Five points, of which three are asked for. -/
theorem downsample_covers_sample
    : let points : List DataPoint :=
        [⟨1000, ⟨10⟩⟩, ⟨1100, ⟨20⟩⟩, ⟨1200, ⟨30⟩⟩, ⟨1300, ⟨40⟩⟩, ⟨1400, ⟨50⟩⟩]
      (∀ place, (downsamplePoints points 3)[place]? = points[place * 2]?)
      ∧ 3 < 2 * (downsamplePoints points 3).length := by
  intro points
  have step : points.length ⌈/⌉ 3 = 2 := by decide
  have covers := downsample_covers points 3 (by decide) (by decide) (by decide)
  rw [step] at covers
  exact ⟨covers.1, covers.2.2.2⟩

end GorillaTsdb.Querying

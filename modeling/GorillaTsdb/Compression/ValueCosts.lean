import GorillaTsdb.Compression.ValueCodec
import Mathlib.Data.List.MinMax

/-! How many bits the value compressor spends on a value.
The first window covers the whole word and is reused for every XOR, so a changed value costs
the whole word and two bits, however few of its bits are meaningful.
-/

namespace GorillaTsdb.Compression

open Foundations.BitSequences
open Foundations.TokenStreams

/-- The bits of an XOR between its outermost ones, with at most 31 zeros in front left out. -/
def meaningfulBits (xor : UInt64) : Nat :=
  64 - min (leadingZeros xor).toNat 31 - (trailingZeros xor).toNat

/-- The XORs of successive values, zero for an unchanged one. -/
def ValueCompressor.xors (self : ValueCompressor) (values : List F64) : List UInt64 :=
  outputs ValueCompressor.xor ValueCompressor.advance self values

/-- The largest number of meaningful bits among the changed values. -/
def largestMeaningful (xors : List UInt64) : Nat :=
  ((xors.filter fun xor => xor ≠ 0).map meaningfulBits).foldr max 0

/-- Every changed value of the run adds at most 13 bits more than the largest number of
meaningful bits so far.
-/
def PaysMeaningful (firstValue : F64) (values : List F64) : Prop :=
  ∀ (index : Nat) (_ : index < values.length),
    values[index].toBits ≠ ((values.take index).getLastD firstValue).toBits
    → ∃ before after,
        forM (values.take index) ValueCompressor.compress
            (ValueCompressor.new firstValue, BitWriter.new)
          = .ok () before
        ∧ ValueCompressor.compress values[index] before = .ok () after
        ∧ after.2.bitCount
          ≤ before.2.bitCount
            + (13
              + largestMeaningful
                ((ValueCompressor.new firstValue).xors (values.take (index + 1))))

/-- The last value of a compressor is the one it got last, by induction on the values. -/
theorem ValueCompressor.lastValue_foldl (self : ValueCompressor) (values : List F64)
    : (values.foldl ValueCompressor.advance self).lastValue = values.getLastD self.lastValue := by
  induction values generalizing self with
  | nil => rfl
  | cons value rest ih =>
      rw [List.foldl_cons, ih, List.getLastD_cons]
      rfl

/-- After any values, a changed value adds 66 bits. -/
theorem compress_changed (firstValue : F64) (values : List F64) {value : F64}
    (changed : value.toBits ≠ (values.getLastD firstValue).toBits)
    : ∃ before after,
        forM values ValueCompressor.compress (ValueCompressor.new firstValue, BitWriter.new)
          = .ok () before
        ∧ ValueCompressor.compress value before = .ok () after
        ∧ after.2.bitCount = before.2.bitCount + 66 := by
  have window := ValueCompressor.encodesItem.keeps_foldl
    (show (ValueCompressor.new firstValue).FullWindow from ⟨rfl, rfl⟩) values
  have encoded := ValueCompressor.encodesItem.forM (ValueCompressor.new firstValue) ⟨rfl, rfl⟩
    values BitWriter.new
  refine ⟨_, _, encoded, ValueCompressor.encodesItem.emits window value _, ?_⟩
  have nonzero : (values.foldl ValueCompressor.advance (ValueCompressor.new firstValue)).xor value
      ≠ 0 := by
    intro zero
    have same := UInt64.xor_eq_zero_iff.mp zero
    rw [ValueCompressor.lastValue_foldl] at same
    exact changed same
  simp only [writerSink, BitWriter.bitCount_pushBits, xorBits, if_neg nonzero,
    List.length_append, List.length_singleton, length_msbBits]

/-- A value is changed exactly if its XOR is not zero. -/
theorem getElem_xors_ne_zero (firstValue : F64) (values : List F64) {index : Nat}
    (formed : index < ((ValueCompressor.new firstValue).xors values).length)
    (inside : index < values.length)
    : ((ValueCompressor.new firstValue).xors values)[index] ≠ 0
      ↔ values[index].toBits ≠ ((values.take index).getLastD firstValue).toBits := by
  have xor : ((ValueCompressor.new firstValue).xors values)[index]
      = ((values.take index).foldl ValueCompressor.advance
          (ValueCompressor.new firstValue)).xor values[index] :=
    getElem_outputs _ _ _ _ formed inside
  rw [xor, ValueCompressor.xor, ValueCompressor.lastValue_foldl]
  exact not_congr UInt64.xor_eq_zero_iff

/-- The largest number of meaningful bits so far reaches a bound at every change exactly if the
first change reaches it.
-/
theorem largestMeaningful_take_iff (xors : List UInt64) (bound : Nat)
    : (∀ (index : Nat) (_ : index < xors.length),
          xors[index] ≠ 0 → bound ≤ largestMeaningful (xors.take (index + 1)))
      ↔ ∀ xor ∈ xors.find? (fun xor => xor ≠ 0), bound ≤ meaningfulBits xor := by
  constructor
  · intro reached xor found
    obtain ⟨changed, index, inside, rfl, earlier⟩ := List.find?_eq_some_iff_getElem.mp found
    refine (reached index inside (by simpa using changed)).trans ?_
    refine List.max_le_of_forall_le _ _ ?_
    intro bits member
    obtain ⟨other, otherMember, rfl⟩ := List.mem_map.mp member
    obtain ⟨taken, otherChanged⟩ := List.mem_filter.mp otherMember
    obtain ⟨place, within, rfl⟩ := List.mem_take_iff_getElem.mp taken
    rcases Nat.lt_or_ge place index with before | behind
    · exact absurd otherChanged (by simpa using earlier place before)
    · have last : place = index := by omega
      subst last
      exact Nat.le_refl _
  · intro first index inside changed
    have exists_changed : (xors.find? fun xor => xor ≠ 0).isSome :=
      List.find?_isSome.mpr ⟨xors[index], List.getElem_mem inside, by simpa using changed⟩
    obtain ⟨xor, found⟩ := Option.isSome_iff_exists.mp exists_changed
    obtain ⟨xorChanged, place, within, rfl, earlier⟩ := List.find?_eq_some_iff_getElem.mp found
    have before : place ≤ index := by
      by_contra behind
      exact absurd changed (by simpa using earlier index (Nat.lt_of_not_le behind))
    refine List.le_max_of_le ?_ (first _ found)
    refine List.mem_map_of_mem (List.mem_filter.mpr ⟨?_, xorChanged⟩)
    exact List.mem_take_iff_getElem.mpr ⟨place, by omega, rfl⟩

/-- A run pays for its meaningful bits only, up to 13 more, exactly if no value changes or the
first change has at least 53 of them.
-/
theorem paysMeaningful_iff (firstValue : F64) (values : List F64)
    : PaysMeaningful firstValue values
      ↔ ∀ xor ∈ ((ValueCompressor.new firstValue).xors values).find? (fun xor => xor ≠ 0),
          53 ≤ meaningfulBits xor := by
  rw [← largestMeaningful_take_iff]
  have formed (index : Nat)
      : index < values.length
        ↔ index < ((ValueCompressor.new firstValue).xors values).length := by
    rw [ValueCompressor.xors, length_outputs]
  refine forall_congr' fun index => ?_
  constructor
  · intro pays within changed
    have inside := (formed index).mpr within
    rw [getElem_xors_ne_zero firstValue values within inside] at changed
    obtain ⟨before, after, encoded, compressed, bound⟩ := pays inside changed
    obtain ⟨before', after', encoded', compressed', cost⟩ :=
      compress_changed firstValue (values.take index) changed
    cases encoded.symm.trans encoded'
    cases compressed.symm.trans compressed'
    rw [ValueCompressor.xors, outputs_take, ← ValueCompressor.xors] at bound
    omega
  · intro enough inside changed
    have within := (formed index).mp inside
    have reached :=
      enough within ((getElem_xors_ne_zero firstValue values within inside).mpr changed)
    obtain ⟨before, after, encoded, compressed, cost⟩ :=
      compress_changed firstValue (values.take index) changed
    refine ⟨before, after, encoded, compressed, ?_⟩
    rw [ValueCompressor.xors, outputs_take, ← ValueCompressor.xors]
    omega

/-- The two values differ in their last bit only, which still costs 66 bits. -/
theorem one_bit_costs_a_word
    : ¬ (∀ firstValue values, PaysMeaningful firstValue values) := by
  intro pays
  have first := (paysMeaningful_iff _ _).mp (pays ⟨0x3ff0000000000000⟩ [⟨0x3ff0000000000001⟩]) 1
    rfl
  exact absurd first (by decide +kernel)

end GorillaTsdb.Compression

import GorillaTsdb.Storage.Block
import Mathlib.Algebra.Order.BigOperators.Group.List

/-! How many bytes a sealed block takes.
The value window stays full, so a point costs at most the widest timestamp item and one whole
word with its two control bits; a point that repeats the step and the value costs two bits.
-/

namespace GorillaTsdb.Storage

open Foundations.BitSequences
open Foundations.TokenStreams
open GorillaTsdb.Compression

-----------------------------------------------------------------------------------------
-- The cost of a point
-----------------------------------------------------------------------------------------

/-- A timestamp item has at most 36 bits, by cases on its bucket. -/
theorem length_deltaOfDeltaBits_le (deltaOfDelta : Int64)
    : (deltaOfDeltaBits deltaOfDelta).length ≤ 36 := by
  rw [deltaOfDeltaBits, Bucket.item, List.length_append, length_msbBits]
  cases bucketOf deltaOfDelta <;> decide

/-- A value item has one bit or 66. -/
theorem length_xorBits_le (xor : UInt64) : (xorBits xor).length ≤ 66 := by
  unfold xorBits
  split
  · decide
  · simp

/-- The items of a block take at most 102 bits each. -/
theorem length_blockBits_le (firstPoint : DataPoint) (rest : List DataPoint)
    : ((blockItems firstPoint rest).flatMap pointBits).length ≤ 102 * rest.length := by
  have each : ∀ bits ∈ (blockItems firstPoint rest).map (fun item => (pointBits item).length),
      bits ≤ 102 := by
    intro bits member
    obtain ⟨item, _, rfl⟩ := List.mem_map.mp member
    have timestamp := length_deltaOfDeltaBits_le item.1
    have value := length_xorBits_le item.2
    rw [pointBits, List.length_append]
    omega
  have total := List.sum_le_card_nsmul _ 102 each
  rw [List.length_map, blockItems, length_outputs, Nat.nsmul_eq_mul, Nat.mul_comm] at total
  rwa [List.length_flatMap]

/-- A repeated step and a repeated value have the items zero and zero, one bit each. -/
theorem length_pointBits_repeated : (pointBits (0, 0)).length = 2 := by
  decide

-----------------------------------------------------------------------------------------
-- The codecs behind a point
-----------------------------------------------------------------------------------------

/-- Wherever the points of a block are split behind `point`, the codecs have passed over the
points in between and hold this point. The first point is in the codecs from the start.
-/
theorem BlockCompressor.holds_point {firstPoint point : DataPoint}
    {rest earlier later : List DataPoint}
    (points : firstPoint :: rest = earlier ++ point :: later)
    : ∃ passed,
        firstPoint :: passed = earlier ++ [point]
        ∧ (passed.foldl BlockCompressor.advance (BlockCompressor.new firstPoint)).1.lastTimestamp
          = point.timestamp
        ∧ (passed.foldl BlockCompressor.advance (BlockCompressor.new firstPoint)).2.lastValue
          = point.value := by
  cases earlier with
  | nil =>
      obtain ⟨rfl, rfl⟩ := List.cons.inj points
      exact ⟨[], rfl, rfl, rfl⟩
  | cons first earlier =>
      obtain ⟨rfl, rfl⟩ := List.cons.inj points
      refine ⟨earlier ++ [point], rfl, ?_⟩
      rw [List.foldl_append]
      exact ⟨rfl, rfl⟩

/-- Behind two points, a third one with the same step and the same value adds two bits. -/
theorem repeated_point_cost {firstPoint first second third : DataPoint}
    {rest earlier later : List DataPoint}
    (points : firstPoint :: rest = earlier ++ first :: second :: third :: later)
    (step
      : third.timestamp.toInt64 - second.timestamp.toInt64
        = second.timestamp.toInt64 - first.timestamp.toInt64)
    (value : third.value.toBits = second.value.toBits)
    : ∃ before after,
        compressLoop (earlier ++ [first, second])
            (BlockCompressor.new firstPoint, BitWriter.new)
          = .ok () before
        ∧ compressPoint third before = .ok () after
        ∧ after.2.bitCount = before.2.bitCount + 2 := by
  obtain ⟨passed, split, timestamp, _⟩ := BlockCompressor.holds_point points
  have behind : earlier ++ [first, second] = firstPoint :: (passed ++ [second]) := by
    rw [← List.cons_append, split, List.append_assoc]
    rfl
  have encoded := BlockCompressor.encodesItem.forM (BlockCompressor.new firstPoint)
    (BlockCompressor.aligned_new firstPoint) (passed ++ [second]) BitWriter.new
  have aligned := BlockCompressor.encodesItem.keeps_foldl
    (BlockCompressor.aligned_new firstPoint) (passed ++ [second])
  rw [behind, compressLoop_cons]
  refine ⟨_, _, encoded, BlockCompressor.encodesItem.emits aligned third _, ?_⟩
  rw [List.foldl_append, List.foldl_cons, List.foldl_nil]
  have item
      : ((passed.foldl BlockCompressor.advance (BlockCompressor.new firstPoint)).advance
            second).item third
        = (0, 0) := by
    refine Prod.ext ?_ ?_
    · change third.timestamp.toInt64 - second.timestamp.toInt64
          - (second.timestamp.toInt64 - _) = 0
      rw [timestamp, step, Int64.sub_self]
    · exact UInt64.xor_eq_zero_iff.mpr value
  simp only [writerSink, BitWriter.bitCount_pushBits, item, length_pointBits_repeated]

/-- Compressing a block that holds a point never inflates it: the bytes are at most those of
102 bits for every point but the first, so fewer than the 16 of every raw point. Behind the first
two points, a point that repeats the step and the value before it adds exactly two bits.
-/
theorem compress_never_inflates {self : TimeSeriesBlock} {firstPoint : DataPoint}
    {rest : List DataPoint} (points : self.points = firstPoint :: rest)
    : ∃ compressed,
        self.compress = .ok compressed
        ∧ compressed.compressedData.length ≤ (102 * (self.points.length - 1) + 7) / 8
        ∧ compressed.compressedData.length < 16 * self.points.length
        ∧ ∀ earlier first second third later,
            self.points = earlier ++ first :: second :: third :: later
            → third.timestamp.toInt64 - second.timestamp.toInt64
              = second.timestamp.toInt64 - first.timestamp.toInt64
            → third.value.toBits = second.value.toBits
            → ∃ before after,
                compressLoop (earlier ++ [first, second])
                    (BlockCompressor.new firstPoint, BitWriter.new)
                  = .ok () before
                ∧ compressPoint third before = .ok () after
                ∧ after.2.bitCount = before.2.bitCount + 2 := by
  have bits := length_blockBits_le firstPoint rest
  have sized := (BitWriter.new.pushBits ((blockItems firstPoint rest).flatMap pointBits)).sized
  rw [BitWriter.bitCount_pushBits, BitWriter.bitCount_new] at sized
  have bound
      : (BitWriter.new.pushBits ((blockItems firstPoint rest).flatMap pointBits)).finish.length
        ≤ (102 * (self.points.length - 1) + 7) / 8 := by
    rw [points, List.length_cons]
    unfold BitWriter.finish
    omega
  refine ⟨_, TimeSeriesBlock.compress_eq points, bound, ?_, ?_⟩
  · refine Nat.lt_of_le_of_lt bound ?_
    rw [points, List.length_cons]
    omega
  · intro earlier first second third later split step value
    exact repeated_point_cost (points.symm.trans split) step value

/-- Three points at equal distance, the third one with the value of the second. -/
theorem compress_never_inflates_example
    : let block : TimeSeriesBlock := .mk 0 0 [⟨5, ⟨1⟩⟩, ⟨15, ⟨3⟩⟩, ⟨25, ⟨3⟩⟩] true
      ∃ compressed,
        block.compress = .ok compressed
        ∧ compressed.compressedData.length ≤ 26 := by
  intro block
  have points : block.points = ⟨5, ⟨1⟩⟩ :: [⟨15, ⟨3⟩⟩, ⟨25, ⟨3⟩⟩] := rfl
  have three : block.points.length = 3 := rfl
  obtain ⟨compressed, ran, bound, _⟩ := compress_never_inflates points
  rw [three] at bound
  exact ⟨compressed, ran, bound⟩

end GorillaTsdb.Storage

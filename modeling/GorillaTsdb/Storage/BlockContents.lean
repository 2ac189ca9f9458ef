import GorillaTsdb.Storage.Block

/-! How much of a block its compressed record determines.
Timestamps are determined, because those of one window have narrow delta-of-deltas. Values are
determined up to one common mask: every value is written as the XOR with the one before it,
and the first value is not written at all.
-/

namespace GorillaTsdb.Storage

open Foundations.TokenStreams
open Foundations.PrefixCodes
open Foundations.SignedWords
open GorillaTsdb.Compression

/-- A compressor whose timestamps so far lie in one window that starts at `low`. -/
structure InWindow (low : Nat) (compressor : TimestampCompressor) : Prop where
  above : low ≤ compressor.lastTimestamp.toNat
  below : compressor.lastTimestamp.toNat < low + blockDurationMs.toNat
  forward : compressor.lastDelta.toInt < blockDurationMs.toNat
  backward : -blockDurationMs.toNat < compressor.lastDelta.toInt

theorem inWindow_new {low : Nat} {timestamp : UInt64} (above : low ≤ timestamp.toNat)
    (below : timestamp.toNat < low + blockDurationMs.toNat)
    : InWindow low (TimestampCompressor.new timestamp) := by
  have start : (TimestampCompressor.new timestamp).lastDelta.toInt = 0 := Int64.toInt_zero
  have duration := toNat_blockDurationMs
  exact ⟨above, below, by omega, by omega⟩

/-- A timestamp of the window forms a delta-of-delta within twice the window, and the
compressor stays in the window.
-/
theorem InWindow.step {low : Nat} {compressor : TimestampCompressor}
    (inWindow : InWindow low compressor) {timestamp : UInt64} (above : low ≤ timestamp.toNat)
    (below : timestamp.toNat < low + blockDurationMs.toNat)
    : (-2 * blockDurationMs.toNat < (compressor.deltaOfDelta timestamp).toInt
        ∧ (compressor.deltaOfDelta timestamp).toInt < 2 * blockDurationMs.toNat)
      ∧ InWindow low (compressor.advance timestamp) := by
  obtain ⟨lastAbove, lastBelow, forward, backward⟩ := inWindow
  have duration := toNat_blockDurationMs
  have delta : (timestamp.toInt64 - compressor.lastTimestamp.toInt64).toInt
      = (timestamp.toNat : Int) - compressor.lastTimestamp.toNat := by
    rw [toInt_sub_toInt64]
    exact Int.bmod_eq_of_le_mul_two (by omega) (by omega)
  have deltaOfDelta : (compressor.deltaOfDelta timestamp).toInt
      = (timestamp.toNat : Int) - compressor.lastTimestamp.toNat
        - compressor.lastDelta.toInt := by
    rw [TimestampCompressor.deltaOfDelta, Int64.toInt_sub, delta]
    exact Int.bmod_eq_of_le_mul_two (by omega) (by omega)
  refine ⟨?_, above, below, ?_, ?_⟩
  · rw [deltaOfDelta]
    constructor <;> omega
  · simp only [TimestampCompressor.advance, delta]
    omega
  · simp only [TimestampCompressor.advance, delta]
    omega

/-- The items that a prefix-free reading of a block may rely on. -/
def NarrowItem (item : Int64 × UInt64) : Prop :=
  (-2 ^ 31 ≤ item.1.toInt ∧ item.1.toInt < 2 ^ 31) ∧ True

theorem pointBits_prefixFree : PrefixFree pointBits NarrowItem :=
  deltaOfDeltaBits_prefixFree.pair xorBits_prefixFree

/-- Every delta-of-delta of a block stays within twice the window. -/
theorem TimeSeriesBlock.Windowed.items_bounded {block : TimeSeriesBlock}
    (windowed : block.Windowed) {firstPoint : DataPoint} {rest : List DataPoint}
    (points : block.points = firstPoint :: rest)
    : ∀ item ∈ blockItems firstPoint rest,
        -2 * blockDurationMs.toNat < item.1.toInt
        ∧ item.1.toInt < 2 * blockDurationMs.toNat := by
  have range {point : DataPoint} (member : point ∈ firstPoint :: rest) :=
    windowed.range (points ▸ member)
  obtain ⟨firstRange, restRange⟩ := List.forall_mem_cons.mp (fun _ => range)
  refine outputs_invariant (fun codecs => InWindow block.startTime.toNat codecs.1)
    (fun point =>
      block.startTime.toNat ≤ point.timestamp.toNat
      ∧ point.timestamp.toNat < block.startTime.toNat + blockDurationMs.toNat)
    _ ?_ (inWindow_new firstRange.1 firstRange.2) restRange
  intro codecs point inWindow pointRange
  exact inWindow.step pointRange.1 pointRange.2

/-- Every item of a built block is narrow. -/
theorem TimeSeriesBlock.Windowed.items_narrow {block : TimeSeriesBlock}
    (windowed : block.Windowed) {firstPoint : DataPoint} {rest : List DataPoint}
    (points : block.points = firstPoint :: rest)
    : ∀ item ∈ blockItems firstPoint rest, NarrowItem item := by
  intro item member
  have bounded := windowed.items_bounded points item member
  have duration := toNat_blockDurationMs
  refine ⟨?_, trivial⟩
  omega

/-- A point whose value bits are XORed with a mask. -/
def maskPoint (mask : UInt64) (point : DataPoint) : DataPoint :=
  { point with value := .fromBits (point.value.toBits ^^^ mask) }

/-- Two pairs of codecs that agree on timestamps and differ by a mask in their last values. -/
def MaskedBy (mask : UInt64) (left right : BlockCompressor) : Prop :=
  right.1 = left.1 ∧ right.2.lastValue = .fromBits (left.2.lastValue.toBits ^^^ mask)

theorem maskedBy_new (mask : UInt64) (point : DataPoint)
    : MaskedBy mask (BlockCompressor.new point) (BlockCompressor.new (maskPoint mask point)) :=
  ⟨rfl, rfl⟩

theorem MaskedBy.advance {mask : UInt64} {left right : BlockCompressor}
    (masked : MaskedBy mask left right) (point : DataPoint)
    : MaskedBy mask (left.advance point) (right.advance (maskPoint mask point)) :=
  ⟨congrArg (TimestampCompressor.advance · point.timestamp) masked.1, rfl⟩

/-- A mask on the last value is carried over to the new value by equal XORs. -/
theorem xor_masked_iff (value other last mask : UInt64)
    : value ^^^ last = other ^^^ (last ^^^ mask) ↔ other = value ^^^ mask := by
  calc value ^^^ last = other ^^^ (last ^^^ mask)
      ↔ value ^^^ last = (other ^^^ mask) ^^^ last := by
        rw [UInt64.xor_comm last mask, ← UInt64.xor_assoc]
    _ ↔ value = other ^^^ mask := UInt64.xor_left_inj last
    _ ↔ value ^^^ mask = other ^^^ mask ^^^ mask := (UInt64.xor_left_inj mask).symm
    _ ↔ other = value ^^^ mask := by
        rw [UInt64.xor_assoc, UInt64.xor_self, UInt64.xor_zero, eq_comm]

theorem eq_maskPoint_iff (mask : UInt64) (point other : DataPoint)
    : other = maskPoint mask point
      ↔ point.timestamp = other.timestamp
        ∧ other.value.toBits = point.value.toBits ^^^ mask := by
  obtain ⟨timestamp, ⟨bits⟩⟩ := point
  obtain ⟨otherTimestamp, ⟨otherBits⟩⟩ := other
  simp only [maskPoint, F64.fromBits, DataPoint.mk.injEq, F64.mk.injEq,
    eq_comm (a := timestamp)]

/-- Only the masked point forms the same item: a delta-of-delta determines its timestamp, and
an XOR determines its value up to the mask of the last one.
-/
theorem MaskedBy.item_eq_iff {mask : UInt64} {left right : BlockCompressor}
    (masked : MaskedBy mask left right) (point other : DataPoint)
    : left.item point = right.item other ↔ other = maskPoint mask point := by
  obtain ⟨timestamps, values⟩ := masked
  rw [eq_maskPoint_iff, BlockCompressor.item, BlockCompressor.item, Prod.mk.injEq, timestamps,
    TimestampCompressor.deltaOfDelta_inj, ValueCompressor.xor, ValueCompressor.xor, values]
  exact and_congr_right fun _ => xor_masked_iff _ _ _ mask

/-- The items of two blocks agree exactly when the points behind the first are masked alike. -/
theorem blockItems_eq_iff (mask : UInt64) (firstPoint : DataPoint)
    (rest others : List DataPoint)
    : blockItems firstPoint rest = blockItems (maskPoint mask firstPoint) others
      ↔ others = rest.map (maskPoint mask) :=
  outputs_eq_iff_map (maskPoint mask) (MaskedBy mask) MaskedBy.item_eq_iff MaskedBy.advance
    (maskedBy_new mask firstPoint) rest others

/-- The finished bits of narrow items determine the items: equally many words of a
prefix-free code are cut apart in only one way, and padding comes after them all.
-/
theorem items_eq_of_finish_eq {left right : List (Int64 × UInt64)}
    (leftNarrow : ∀ item ∈ left, NarrowItem item)
    (rightNarrow : ∀ item ∈ right, NarrowItem item)
    (length : left.length = right.length)
    (same
      : (BitWriter.new.pushBits (left.flatMap pointBits)).finish
        = (BitWriter.new.pushBits (right.flatMap pointBits)).finish)
    : left = right := by
  have stream := congrArg (fun bytes => readerSource.unread (BitReader.new bytes)) same
  simp only [unread_finish_pushBits] at stream
  exact (pointBits_prefixFree.flatMap leftNarrow rightNarrow length stream).1

/-- Two built blocks that hold points are compressed alike exactly when one arises from the
other by one mask on all its values.
-/
theorem compress_eq_iff_masked {left right : TimeSeriesBlock} (leftBuilt : left.Built)
    (rightBuilt : right.Built) (leftHolds : left.points ≠ []) (rightHolds : right.points ≠ [])
    : left.compress = right.compress
      ↔ ∃ mask, right.points = left.points.map (maskPoint mask) := by
  obtain ⟨firstPoint, rest, leftPoints⟩ := List.exists_cons_of_ne_nil leftHolds
  obtain ⟨otherPoint, others, rightPoints⟩ := List.exists_cons_of_ne_nil rightHolds
  rw [TimeSeriesBlock.compress_eq leftPoints, TimeSeriesBlock.compress_eq rightPoints,
    leftPoints, rightPoints, Except.ok.injEq, CompressedBlock.mk.injEq]
  constructor
  · rintro ⟨start, _, count, bytes⟩
    let mask := firstPoint.value.toBits ^^^ otherPoint.value.toBits
    have first : otherPoint = maskPoint mask firstPoint := by
      refine (eq_maskPoint_iff mask firstPoint otherPoint).mpr ⟨start, ?_⟩
      rw [← UInt64.xor_assoc, UInt64.xor_self, UInt64.zero_xor]
    have length : (blockItems firstPoint rest).length = (blockItems otherPoint others).length := by
      simpa [blockItems] using count
    have items := items_eq_of_finish_eq (leftBuilt.windowed.items_narrow leftPoints)
      (rightBuilt.windowed.items_narrow rightPoints) length bytes
    rw [first] at items
    have later := (blockItems_eq_iff mask firstPoint rest others).mp items
    exact ⟨mask, by rw [List.map_cons, ← first, ← later]⟩
  · rintro ⟨mask, points⟩
    obtain ⟨rfl, rfl⟩ := List.cons.inj points
    have items := (blockItems_eq_iff mask firstPoint rest _).mpr rfl
    exact ⟨rfl, by rw [List.getLastD_map]; rfl, by rw [List.length_map], by rw [items]⟩

/-- Over the values of a list that holds points, only the zero mask changes nothing. -/
theorem map_maskPoint_eq_self {points : List DataPoint} (holds : points ≠ []) {mask : UInt64}
    (same : points = points.map (maskPoint mask))
    : mask = 0 := by
  obtain ⟨firstPoint, rest, rfl⟩ := List.exists_cons_of_ne_nil holds
  have value := ((eq_maskPoint_iff mask firstPoint firstPoint).mp (List.cons.inj same).1).2
  rwa [← UInt64.xor_zero (a := firstPoint.value.toBits), UInt64.xor_assoc,
    UInt64.xor_right_inj, UInt64.zero_xor, eq_comm] at value

/-- For two built blocks that hold points, equal records imply equal points exactly when no
non-zero mask on all values leads from one block to the other.
-/
theorem compress_lossless_iff {left right : TimeSeriesBlock} (leftBuilt : left.Built)
    (rightBuilt : right.Built) (leftHolds : left.points ≠ []) (rightHolds : right.points ≠ [])
    : (left.compress = right.compress → left.points = right.points)
      ↔ ¬ ∃ mask ≠ 0, right.points = left.points.map (maskPoint mask) := by
  rw [compress_eq_iff_masked leftBuilt rightBuilt leftHolds rightHolds]
  constructor
  · rintro lossless ⟨mask, changed, points⟩
    have same := lossless ⟨mask, points⟩
    exact changed (map_maskPoint_eq_self leftHolds (same.trans points))
  · rintro unmasked ⟨mask, points⟩
    have unchanged : mask = 0 := by
      by_contra changed
      exact unmasked ⟨mask, changed, points⟩
    have identity : maskPoint 0 = id := by
      funext point
      exact ((eq_maskPoint_iff 0 point point).mpr ⟨rfl, by rw [UInt64.xor_zero]⟩).symm
    rw [points, unchanged, identity, List.map_id]

theorem compress_lossless_iff_sample
    : let block (value : UInt64) : TimeSeriesBlock := {
        startTime := 1000
        endTime := 7201000
        points := [⟨1000, ⟨1⟩⟩, ⟨1010, ⟨value⟩⟩]
        isSealed := false
      }
      (block 2).compress = (block 3).compress → (block 2).points = (block 3).points := by
  intro block
  have built (value : UInt64) : (block value).Built :=
    .added ⟨1010, ⟨value⟩⟩ (.added ⟨1000, ⟨1⟩⟩ (.created 1000) rfl) rfl
  refine (compress_lossless_iff (built 2) (built 3) (List.cons_ne_nil _ _)
    (List.cons_ne_nil _ _)).mpr ?_
  intro masked
  obtain ⟨mask, changed, points⟩ := masked
  have first := congrArg (List.take 1) points
  exact changed (map_maskPoint_eq_self (List.cons_ne_nil _ _) first)

/-- A block of one point is compressed to no bits at all: its value leaves no trace. -/
theorem compress_loses_firstValue
    : ¬ (∀ left right : TimeSeriesBlock,
          left.Built
          → right.Built
          → left.points ≠ []
          → right.points ≠ []
          → left.compress = right.compress
          → left.points = right.points) := by
  intro lossless
  let block (value : UInt64) : TimeSeriesBlock := {
    startTime := 1000
    endTime := 7201000
    points := [⟨1000, ⟨value⟩⟩]
    isSealed := false
  }
  have built (value : UInt64) : (block value).Built :=
    .added ⟨1000, ⟨value⟩⟩ (.created 1000) rfl
  have same := lossless (block 0) (block 1) (built 0) (built 1) (List.cons_ne_nil _ _)
    (List.cons_ne_nil _ _) rfl
  exact absurd same (by decide)

end GorillaTsdb.Storage

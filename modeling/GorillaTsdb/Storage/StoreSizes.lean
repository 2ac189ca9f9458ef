import GorillaTsdb.Storage.BlockSizes
import GorillaTsdb.Storage.LogStore
import Mathlib.Algebra.BigOperators.Ring.Finset
import Mathlib.Algebra.Order.BigOperators.Group.Finset

/-! How large the store can grow, and how small it can get.
Every closed segment is paid for by its own points: the first one costs nothing, and every other
between two bits and 102. The totals of `get_stats` are sums over all segments of all keys.
-/

namespace GorillaTsdb.Storage

open Foundations.EventHistories
open Foundations.SegmentedLogs
open Foundations.TokenStreams
open GorillaTsdb.Compression

-----------------------------------------------------------------------------------------
-- Segments
-----------------------------------------------------------------------------------------

/-- A point takes at least two bits, one in each codec. -/
theorem two_le_length_pointBits (item : Int64 × UInt64) : 2 ≤ (pointBits item).length := by
  have timestamp : 1 ≤ (deltaOfDeltaBits item.1).length := by
    have header : 1 ≤ (bucketOf item.1).header.length := by cases bucketOf item.1 <;> decide
    rw [deltaOfDeltaBits, Bucket.item, List.length_append]
    omega
  have value : 1 ≤ (xorBits item.2).length := by
    unfold xorBits
    split
    · decide
    · simp
  rw [pointBits, List.length_append]
  omega

theorem le_length_blockBits (firstPoint : DataPoint) (rest : List DataPoint)
    : 2 * rest.length ≤ ((blockItems firstPoint rest).flatMap pointBits).length := by
  have each : ∀ bits ∈ (blockItems firstPoint rest).map (fun item => (pointBits item).length),
      2 ≤ bits := by
    intro bits member
    obtain ⟨item, -, rfl⟩ := List.mem_map.mp member
    exact two_le_length_pointBits item
  have total := List.card_nsmul_le_sum _ 2 each
  rw [List.length_map, blockItems, length_outputs, Nat.nsmul_eq_mul, Nat.mul_comm] at total
  rwa [List.length_flatMap]

/-- Points in blocks take their bytes: at least two bits for every point behind the first one of
its block, and at most 102 with the padding of every block.
-/
structure Fits (points blocks bytes : Nat) : Prop where
  started : blocks ≤ points
  lower : 2 * points ≤ 8 * bytes + 2 * blocks
  upper : 8 * bytes + 102 * blocks ≤ 102 * points + 7 * blocks

theorem fits_record (firstPoint : DataPoint) (rest : List DataPoint)
    : Fits (firstPoint :: rest).length 1
        (recordOf (firstPoint :: rest)).compressedData.length := by
  have least := le_length_blockBits firstPoint rest
  have most := length_blockBits_le firstPoint rest
  have sized := (BitWriter.new.pushBits ((blockItems firstPoint rest).flatMap pointBits)).sized
  rw [BitWriter.bitCount_pushBits, BitWriter.bitCount_new] at sized
  have bytes : (recordOf (firstPoint :: rest)).compressedData.length
      = (0 + ((blockItems firstPoint rest).flatMap pointBits).length + 7) / 8 := sized
  rw [bytes, List.length_cons]
  exact ⟨by omega, by omega, by omega⟩

theorem Fits.add {points morePoints blocks moreBlocks bytes moreBytes : Nat}
    (left : Fits points blocks bytes) (right : Fits morePoints moreBlocks moreBytes)
    : Fits (points + morePoints) (blocks + moreBlocks) (bytes + moreBytes) := by
  obtain ⟨started, lower, upper⟩ := left
  obtain ⟨moreStarted, moreLower, moreUpper⟩ := right
  exact ⟨by omega, by omega, by omega⟩

/-- Closed segments take their bytes, by induction on them. -/
theorem fits_records {closed : List (List DataPoint)}
    (formed : ∀ items ∈ closed, blockRules.Segment items)
    : Fits closed.flatten.length closed.length
        (closed.map fun items => (recordOf items).compressedData.length).sum := by
  induction closed with
  | nil => exact ⟨Nat.le_refl _, Nat.le_refl _, Nat.le_refl _⟩
  | cons items rest ih =>
      obtain ⟨first, others⟩ := List.forall_mem_cons.mp formed
      obtain ⟨firstPoint, more, rfl, -, -⟩ := first
      have both := (fits_record firstPoint more).add (ih others)
      rw [List.flatten_cons, List.length_append, List.map_cons, List.sum_cons, List.length_cons]
      rwa [Nat.add_comm 1] at both

/-- Sums over keys take their bytes. -/
theorem Fits.sum {keys : Finset TimeSeriesKey} {points blocks bytes : TimeSeriesKey → Nat}
    (fits : ∀ key ∈ keys, Fits (points key) (blocks key) (bytes key))
    : Fits (∑ key ∈ keys, points key) (∑ key ∈ keys, blocks key) (∑ key ∈ keys, bytes key) where
  started := Finset.sum_le_sum fun key member => (fits key member).started
  lower := by
    simp only [Finset.mul_sum, ← Finset.sum_add_distrib]
    exact Finset.sum_le_sum fun key member => (fits key member).lower
  upper := by
    simp only [Finset.mul_sum, ← Finset.sum_add_distrib]
    exact Finset.sum_le_sum fun key member => (fits key member).upper

-----------------------------------------------------------------------------------------
-- Stores
-----------------------------------------------------------------------------------------

/-- The points that the sealed blocks of all keys count. -/
def TSMap.sealedPoints (self : TSMap) : Nat := ∑ key ∈ self.keys.toFinset, self.sealedCount key

/-- The sealed blocks of all keys. -/
def TSMap.sealedBlocks (self : TSMap) : Nat :=
  ∑ key ∈ self.keys.toFinset, (self.storageOf key).sealedBlocks.length

section Represents

variable {store : TSMap} {logs : LogStore}

theorem Represents.sealedPoints (represents : Represents store logs)
    : store.sealedPoints = ∑ key ∈ logs.keys, (logs.log key).closed.flatten.length := by
  rw [TSMap.sealedPoints, represents.keys]
  refine Finset.sum_congr rfl fun key _ => ?_
  rw [TSMap.sealedCount, represents.storageOf, sum_counts_storageOfLog]

theorem Represents.sealedBlocks (represents : Represents store logs)
    : store.sealedBlocks = ∑ key ∈ logs.keys, (logs.log key).closed.length := by
  rw [TSMap.sealedBlocks, represents.keys]
  refine Finset.sum_congr rfl fun key _ => ?_
  rw [represents.storageOf, storageOfLog, List.length_map]

/-- The sealed points of a store take its bytes. -/
theorem Represents.fits (represents : Represents store logs)
    : Fits store.sealedPoints store.sealedBlocks store.getStats.totalCompressedSize := by
  rw [represents.sealedPoints, represents.sealedBlocks, represents.getStats]
  exact Fits.sum fun key _ => fits_records (logs.log key).closedFormed

end Represents

/-- In every store that clients reach, a sealed point takes between two bits and 102, except the
first of every block, which takes none. So sealed points take fewer bytes than raw ones, and
there are no more blocks than points.
-/
theorem getStats_sizes (steps : List ClientStep)
    : let store := after TSMap.clientStep TSMap.new steps
      let stats := store.getStats
      2 * (store.sealedPoints - store.sealedBlocks) ≤ 8 * stats.totalCompressedSize
      ∧ 8 * stats.totalCompressedSize
        ≤ 102 * (store.sealedPoints - store.sealedBlocks) + 7 * store.sealedBlocks
      ∧ (0 < store.sealedPoints → stats.totalCompressedSize < 16 * store.sealedPoints)
      ∧ store.sealedPoints ≤ stats.totalPoints
      ∧ store.sealedBlocks ≤ stats.totalBlocks
      ∧ stats.totalBlocks ≤ store.sealedBlocks + stats.seriesCount
      ∧ stats.totalBlocks ≤ stats.totalPoints := by
  intro store stats
  let logs := after LogStore.step LogStore.new (steps.map ClientStep.atomically)
  have represents : Represents store logs := represents_clientRun steps
  have same : stats = logs.getStats := represents.getStats
  have fits : Fits store.sealedPoints store.sealedBlocks stats.totalCompressedSize :=
    represents.fits
  obtain ⟨started, lower, upper⟩ := fits
  refine ⟨by omega, by omega, by omega, ?_, ?_, ?_, ?_⟩
  · rw [represents.sealedPoints, same]
    refine Finset.sum_le_sum fun key _ => ?_
    rw [SegmentedLog.items, List.length_append]
    exact Nat.le_add_right ..
  · rw [represents.sealedBlocks, same]
    refine Finset.sum_le_sum fun key _ => ?_
    rw [SegmentedLog.segments, List.length_append]
    exact Nat.le_add_right ..
  · rw [represents.sealedBlocks, same]
    change _ ≤ _ + logs.keys.card
    rw [Finset.card_eq_sum_ones, ← Finset.sum_add_distrib]
    refine Finset.sum_le_sum fun key _ => ?_
    rw [SegmentedLog.segments, List.length_append]
    refine Nat.add_le_add_left ?_ _
    split
    · exact Nat.zero_le 1
    · exact Nat.le_refl 1
  · rw [same]
    exact Finset.sum_le_sum fun key _ => (logs.log key).length_segments_le

end GorillaTsdb.Storage

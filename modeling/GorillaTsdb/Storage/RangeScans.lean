import GorillaTsdb.Storage.StoreRuns

/-! What range queries return in reachable stores.
Sealed blocks are not decompressed, so a query answers from the open block alone.
-/

namespace GorillaTsdb.Storage

open Foundations.EventHistories

/-- The loop over the sealed blocks adds nothing: both branches keep the points, by induction
on the blocks.
-/
theorem scanSealedBlocks_eq (start finish : UInt64) (points : List DataPoint)
    (blocks : List CompressedBlock)
    : scanSealedBlocks start finish points blocks = points := by
  induction blocks with
  | nil => rfl
  | cons block rest ih =>
      rw [scanSealedBlocks, List.foldl_cons, ite_self]
      exact ih

/-- The open points of a range, in time order. -/
theorem TimeSeriesStorage.scanRange_eq (self : TimeSeriesStorage) (start finish : UInt64)
    : self.scanRange start finish
      = .ok
          ((self.currentPoints.filter fun point =>
              point.timestamp ≥ start && point.timestamp ≤ finish).insertionSort
            byTimestamp) := by
  rw [TimeSeriesStorage.scanRange, scanSealedBlocks_eq, List.nil_append]

/-- A point of the range is returned as often as the open block holds it. -/
theorem TimeSeriesStorage.count_scanRange (self : TimeSeriesStorage) {start finish : UInt64}
    {point : DataPoint} (lower : start ≤ point.timestamp) (upper : point.timestamp ≤ finish)
    : ∃ points,
        self.scanRange start finish = .ok points
        ∧ points.count point = self.currentPoints.count point := by
  refine ⟨_, self.scanRange_eq start finish, ?_⟩
  rw [(List.perm_insertionSort byTimestamp _).count_eq]
  exact List.count_filter (by simp [lower, upper])

/-- The points of a storage behind those that its records count are the open ones. -/
theorem TimeSeriesStorage.Segmented.drop_sealed {self : TimeSeriesStorage}
    {closed : List TimeSeriesBlock} {points : List DataPoint}
    (segmented : self.Segmented closed points)
    : points.drop (self.sealedBlocks.map CompressedBlock.count).sum = self.currentPoints := by
  rw [segmented.sum_counts, segmented.pointsEq, List.drop_left]

/-- A key with an acknowledged point is in the store. -/
theorem lookup_of_acknowledged (operations : List StoreOp) {key : TimeSeriesKey}
    {point : DataPoint}
    (member : point ∈ acknowledged key (history TSMap.step TSMap.new operations))
    : (after TSMap.step TSMap.new operations).series.lookup key
      = some ((after TSMap.step TSMap.new operations).storageOf key) := by
  obtain ⟨closed, segmented⟩ := storeRun_segmented operations key
  cases found : (after TSMap.step TSMap.new operations).series.lookup key with
  | none =>
      rw [TSMap.storageOf, found, Option.getD_none] at segmented
      have empty := List.length_eq_zero_iff.mp segmented.counts.1.symm
      exact absurd (empty ▸ member) List.not_mem_nil
  | some storage => rw [TSMap.storageOf, found, Option.getD_some]

/-- The points that the sealed blocks of a key count. -/
def TSMap.sealedCount (self : TSMap) (key : TimeSeriesKey) : Nat :=
  ((self.storageOf key).sealedBlocks.map CompressedBlock.count).sum

/-- After any run, an acknowledged point of the range is returned as often as it was inserted
since the key's last block was sealed: the points that sealed blocks count do not appear.
-/
theorem scanRange_returns_unsealed (operations : List StoreOp) (key : TimeSeriesKey)
    (start finish : UInt64) (ordered : start ≤ finish) (point : DataPoint)
    (member : point ∈ acknowledged key (history TSMap.step TSMap.new operations))
    (lower : start ≤ point.timestamp) (upper : point.timestamp ≤ finish)
    : ∃ points,
        (after TSMap.step TSMap.new operations).scanRange key start finish = .ok points
        ∧ points.count point
          = ((acknowledged key (history TSMap.step TSMap.new operations)).drop
              ((after TSMap.step TSMap.new operations).sealedCount key)).count point := by
  obtain ⟨closed, segmented⟩ := storeRun_segmented operations key
  obtain ⟨points, scanned, count⟩ := TimeSeriesStorage.count_scanRange
    ((after TSMap.step TSMap.new operations).storageOf key) lower upper
  refine ⟨points, ?_, ?_⟩
  · rw [TSMap.scanRange, if_neg (UInt64.not_lt.mpr ordered), lookup_of_acknowledged _ member]
    exact scanned
  · rw [count, ← segmented.drop_sealed]
    rfl

theorem scanRange_returns_unsealed_sample
    : let operations : List StoreOp := [
        .insert "metric" ⟨0, ⟨1⟩⟩, .insert "metric" ⟨7200000, ⟨2⟩⟩, .insert "metric" ⟨7200000, ⟨2⟩⟩
      ]
      ∃ points,
        (after TSMap.step TSMap.new operations).scanRange "metric" 0 7200000 = .ok points
        ∧ points.count ⟨7200000, ⟨2⟩⟩ = 2 := by
  intro operations
  exact scanRange_returns_unsealed operations "metric" 0 7200000 (by decide) ⟨7200000, ⟨2⟩⟩
    (by decide) (by decide) (by decide)

/-- The insert at the end of the window seals the first block, and its point is gone. -/
theorem scanRange_misses_sealed
    : ¬ (∀ operations key start finish,
          start ≤ finish
          → ∀ point ∈ acknowledged key (history TSMap.step TSMap.new operations),
              start ≤ point.timestamp
              → point.timestamp ≤ finish
              → ∃ points,
                  (after TSMap.step TSMap.new operations).scanRange key start finish
                    = .ok points
                  ∧ points.count point
                    = (acknowledged key (history TSMap.step TSMap.new operations)).count
                        point) := by
  intro returned
  let operations : List StoreOp := [
    .insert "metric" ⟨0, ⟨1⟩⟩, .insert "metric" ⟨7200000, ⟨2⟩⟩
  ]
  obtain ⟨points, scanned, count⟩ := returned operations "metric" 0 0 (by decide) ⟨0, ⟨1⟩⟩
    (by decide) (by decide) (by decide)
  have empty : (after TSMap.step TSMap.new operations).scanRange "metric" 0 0 = .ok [] := rfl
  rw [empty, Except.ok.injEq] at scanned
  subst scanned
  exact absurd count (by decide)

end GorillaTsdb.Storage

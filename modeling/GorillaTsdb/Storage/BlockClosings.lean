import GorillaTsdb.Storage.RangeQueries

/-! The blocks that a run closes, with their points and what closed them.
A record keeps the timestamps of the first and the last arrival. The first one is the smallest,
since it started the window; the last one need not be the largest.
-/

namespace GorillaTsdb.Storage

open Foundations.EventHistories

/-- The events of a run with the blocks of a key that they closed. -/
abbrev ClosingEvent :=
  StoreOp × Except StorageError Unit × Option (ClosedBy × TimeSeriesBlock)

/-- The history of a run, observed for the closed blocks of a key. -/
def closingHistory (key : TimeSeriesKey) (operations : List StoreOp) : List ClosingEvent :=
  history (annotated TSMap.step fun store => store.closing key) TSMap.new operations

def closings (events : List ClosingEvent) : List (ClosedBy × TimeSeriesBlock) :=
  events.filterMap fun event => event.2.2

/-- The events as a client sees them. -/
def clientEvents (events : List ClosingEvent) : List (StoreOp × Except StorageError Unit) :=
  events.map (Prod.map id Prod.fst)

/-- The blocks of a key that a run closed, in order. -/
def closedBlocks (key : TimeSeriesKey) (operations : List StoreOp) : List TimeSeriesBlock :=
  (closings (closingHistory key operations)).map Prod.snd

theorem clientEvents_closingHistory (key : TimeSeriesKey) (operations : List StoreOp)
    : clientEvents (closingHistory key operations)
      = history TSMap.step TSMap.new operations :=
  history_annotated _ _ _

/-- An operation adds the block it closes, if it closes one. -/
theorem closings_append (key : TimeSeriesKey) (events : List ClosingEvent) (store : TSMap)
    (operation : StoreOp)
    : closings (events ++ [(operation,
        (annotated TSMap.step (fun store => store.closing key) store operation).1)])
      = closings events ++ (store.closing key operation).toList := by
  rw [closings, closings, List.filterMap_append]
  cases closing : store.closing key operation <;> simp [annotated, closing]

/-- A client sees the operation and its result. -/
theorem acknowledged_clientEvents_append (key : TimeSeriesKey) (events : List ClosingEvent)
    (store : TSMap) (operation : StoreOp)
    : acknowledged key (clientEvents (events ++ [(operation,
        (annotated TSMap.step (fun store => store.closing key) store operation).1)]))
      = acknowledged key (clientEvents events)
        ++ acknowledged key [(operation, (store.step operation).1)] := by
  rw [clientEvents, List.map_append, acknowledged, List.filterMap_append]
  rfl

/-- The blocks that the events closed are the closed segments of the storage. -/
def ClosingsTracked (key : TimeSeriesKey) (events : List ClosingEvent) (store : TSMap) : Prop :=
  (store.storageOf key).Segmented ((closings events).map Prod.snd)
    (acknowledged key (clientEvents events))

theorem closingsTracked_new (key : TimeSeriesKey) : ClosingsTracked key [] TSMap.new :=
  TimeSeriesStorage.segmented_new key

/-- Every operation appends the block it closes to the closed segments. -/
theorem ClosingsTracked.step {key : TimeSeriesKey} {events : List ClosingEvent} {store : TSMap}
    (tracked : ClosingsTracked key events store) (operation : StoreOp)
    : ClosingsTracked key
        (events ++ [(operation,
          (annotated TSMap.step (fun store => store.closing key) store operation).1)])
        (store.step operation).2 := by
  rw [ClosingsTracked, closings_append, acknowledged_clientEvents_append, List.map_append]
  exact (tracked.moves (store.step_moves key operation)).1

/-- After any run the closed blocks of a key are its closed segments. -/
theorem closedBlocks_segmented (key : TimeSeriesKey) (operations : List StoreOp)
    : ((after TSMap.step TSMap.new operations).storageOf key).Segmented
        (closedBlocks key operations)
        (acknowledged key (history TSMap.step TSMap.new operations)) := by
  have tracked := run_invariant (ClosingsTracked key) ClosingsTracked.step
    (closingsTracked_new key) operations
  rw [after_annotated, ClosingsTracked] at tracked
  rw [← clientEvents_closingHistory key]
  exact tracked

/-- The bounds of a record cover the points, and the skip test of `scan_range` never skips one
of them that lies in the range.
-/
structure Covers (record : CompressedBlock) (points : List DataPoint) : Prop where
  bounds
    : ∀ point ∈ points,
        record.startTimestamp ≤ point.timestamp ∧ point.timestamp ≤ record.endTimestamp
  skipped
    : ∀ start finish : UInt64,
        record.endTimestamp < start ∨ record.startTimestamp > finish
        → ∀ point ∈ points, inRange start finish point = false

/-- The last point has the largest timestamp. -/
def LastIsLatest (points : List DataPoint) : Prop :=
  ∀ last ∈ points.getLast?, ∀ point ∈ points, point.timestamp ≤ last.timestamp

/-- Points within the bounds are never skipped: a skipped range ends before the bounds or starts
behind them.
-/
theorem covers_of_bounds {record : CompressedBlock} {points : List DataPoint}
    (bounds
      : ∀ point ∈ points,
          record.startTimestamp ≤ point.timestamp ∧ point.timestamp ≤ record.endTimestamp)
    : Covers record points := by
  refine ⟨bounds, ?_⟩
  intro start finish skip point member
  obtain ⟨lower, upper⟩ := bounds point member
  rw [Bool.eq_false_iff]
  simp only [inRange, ge_iff_le, Bool.and_eq_true, decide_eq_true_eq, ne_eq, not_and]
  intro above below
  rcases skip with before | behind
  · exact absurd (UInt64.le_trans above upper) (UInt64.not_le.mpr before)
  · exact absurd (UInt64.le_trans lower below) (UInt64.not_le.mpr behind)

/-- The record of a block that the store filled covers the points exactly if the last arrival
has the largest timestamp: the first one started the window and has the smallest.
-/
theorem TimeSeriesBlock.Opened.covers_iff {block : TimeSeriesBlock} (opened : block.Opened)
    {record : CompressedBlock} (compressed : block.compress = .ok record)
    : Covers record block.points ↔ LastIsLatest block.points := by
  obtain ⟨firstPoint, rest, points⟩ := List.exists_cons_of_ne_nil opened.holds
  rw [TimeSeriesBlock.compress_eq points, Except.ok.injEq] at compressed
  have first : firstPoint.timestamp = block.startTime := by
    simpa [points] using opened.starts
  have last : block.points.getLast? = some (rest.getLastD firstPoint) := by
    rw [points, List.getLast?_cons, List.getLastD_eq_getLast?]
  simp only [LastIsLatest, last, Option.mem_def, Option.some.injEq, forall_eq']
  subst compressed
  constructor
  · intro covers point member
    exact (covers.bounds point member).2
  · intro latest
    refine covers_of_bounds fun point member => ⟨?_, latest point member⟩
    rw [first]
    exact (opened.built.windowed.inside point member).1

/-- After any run the records of a key are those of the blocks it closed, which hold the
acknowledged points in order up to those of the open block. The records cover the points of
their blocks exactly if every block that the run closed held its largest timestamp last.
-/
theorem sealed_bounds_cover_iff (operations : List StoreOp) (key : TimeSeriesKey)
    : let storage := (after TSMap.step TSMap.new operations).storageOf key
      let closed := closedBlocks key operations
      storage.sealedBlocks.map Except.ok = closed.map TimeSeriesBlock.compress
      ∧ acknowledged key (history TSMap.step TSMap.new operations)
        = closed.flatMap TimeSeriesBlock.points ++ storage.currentPoints
      ∧ ((∀ block ∈ closed, ∀ record, block.compress = .ok record → Covers record block.points)
        ↔ AllSteps TSMap.step
            (fun store operation =>
              ∀ closing ∈ store.closing key operation, LastIsLatest closing.2.points)
            TSMap.new operations) := by
  intro storage closed
  have segmented : storage.Segmented closed _ := closedBlocks_segmented key operations
  refine ⟨segmented.records, segmented.pointsEq, ?_⟩
  rw [allSteps_iff_annotated TSMap.step (fun store => store.closing key)
    (fun closing => ∀ block ∈ closing, LastIsLatest block.2.points)]
  constructor
  · intro covers event member closing closes
    have closedMember : closing.2 ∈ closed :=
      List.mem_map_of_mem (List.mem_filterMap.mpr ⟨event, member, closes⟩)
    obtain ⟨record, compressed, -⟩ := closing.2.compress_total
    exact ((segmented.closedOpened _ closedMember).covers_iff compressed).mp
      (covers _ closedMember record compressed)
  · intro latest block member record compressed
    obtain ⟨closing, closes, rfl⟩ := List.mem_map.mp member
    obtain ⟨event, happened, closes⟩ := List.mem_filterMap.mp closes
    exact ((segmented.closedOpened _ member).covers_iff compressed).mpr
      (latest event happened closing closes)

/-- The point at 10 arrives before the one at 5, and the record of their block ends at 5. -/
theorem sealed_bounds_miss_point
    : ¬ (∀ operations key,
          ∀ block ∈ closedBlocks key operations,
            ∀ record, block.compress = .ok record → Covers record block.points) := by
  intro covers
  let operations : List StoreOp := [
    .insert "metric" ⟨0, ⟨1⟩⟩, .insert "metric" ⟨10, ⟨2⟩⟩, .insert "metric" ⟨5, ⟨3⟩⟩,
    .insert "metric" ⟨7200000, ⟨4⟩⟩
  ]
  let block : TimeSeriesBlock := {
    startTime := 0
    endTime := 7200000
    points := [⟨0, ⟨1⟩⟩, ⟨10, ⟨2⟩⟩, ⟨5, ⟨3⟩⟩]
    isSealed := false
  }
  have closed : closedBlocks "metric" operations = [block] := rfl
  have member : block ∈ closedBlocks "metric" operations := by
    rw [closed]
    exact List.mem_singleton_self block
  obtain ⟨lower, upper⟩ := (covers operations "metric" block member _
    (TimeSeriesBlock.compress_eq rfl)).bounds ⟨10, ⟨2⟩⟩ (by decide)
  exact absurd upper (by decide)

end GorillaTsdb.Storage

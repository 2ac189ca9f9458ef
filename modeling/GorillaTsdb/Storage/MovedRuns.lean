import GorillaTsdb.Storage.CompleteScans

/-! Runs of clients that differ by an offset of the time and by a mask of the values.
No part of the store knows what time it is except by comparison, and none looks into a value but by
XOR with another one. So a run that is moved in time and masked gives the same answers, moved and
masked; and every record holds the same bytes.
-/

namespace GorillaTsdb.Storage

open Foundations.EventHistories
open Foundations.Interleavings
open Foundations.SegmentedLogs
open Foundations.Simulations
open Foundations.TokenStreams
open GorillaTsdb.Compression

-----------------------------------------------------------------------------------------
-- Moved points and records
-----------------------------------------------------------------------------------------

/-- A point that is later by an offset, with a masked value. -/
def movePoint (offset mask : UInt64) (point : DataPoint) : DataPoint where
  timestamp := point.timestamp + offset
  value := .fromBits (point.value.toBits ^^^ mask)

/-- A record of moved points has the bytes that it had. -/
def moveRecord (offset : UInt64) (record : CompressedBlock) : CompressedBlock :=
  { record with
    startTimestamp := record.startTimestamp + offset
    endTimestamp := record.endTimestamp + offset }

def moveSeries (offset mask : UInt64) (series : TimeSeries) : TimeSeries where
  key := series.key
  blocks := series.blocks.map (moveRecord offset)
  currentBlock := series.currentBlock.map (List.map (movePoint offset mask))

/-- The step of a client whose clock is ahead by the offset. -/
def ClientStep.move (offset mask : UInt64) : ClientStep → ClientStep
  | .insert key point => .insert key (movePoint offset mask point)
  | .sealIfExpired key now => .sealIfExpired key (now + offset)

/-- The moved point has room, as far as the end of time is concerned. -/
def Movable (offset : UInt64) (point : DataPoint) : Prop :=
  point.timestamp.toNat + offset.toNat + blockDurationMs.toNat < 2 ^ 64

def ClientStep.CanMove (offset : UInt64) : ClientStep → Prop
  | .insert _ point => Movable offset point
  | .sealIfExpired _ now => now.toNat + offset.toNat < 2 ^ 64

instance (offset : UInt64) : DecidablePred (ClientStep.CanMove offset)
  | .insert _ _ => inferInstanceAs (Decidable (_ < _))
  | .sealIfExpired _ _ => inferInstanceAs (Decidable (_ < _))

/-- Two codecs that have come as far with moved points. -/
def BlockCompressor.move (offset mask : UInt64) (self : BlockCompressor) : BlockCompressor :=
  ({ self.1 with lastTimestamp := self.1.lastTimestamp + offset },
    { self.2 with lastValue := .fromBits (self.2.lastValue.toBits ^^^ mask) })

section Codecs

variable {offset mask : UInt64}

/-- The difference of two moved timestamps. -/
theorem sub_moved (left right offset : UInt64)
    : (left + offset).toInt64 - (right + offset).toInt64 = left.toInt64 - right.toInt64 := by
  rw [UInt64.toInt64_add, UInt64.toInt64_add]
  grind

theorem xor_masked (left right mask : UInt64)
    : (left ^^^ mask) ^^^ (right ^^^ mask) = left ^^^ right := by
  rw [UInt64.xor_assoc, ← UInt64.xor_assoc mask, UInt64.xor_comm mask, UInt64.xor_assoc right,
    UInt64.xor_self, UInt64.xor_zero]

/-- The codecs form the same items for moved points. -/
theorem blockItems_moved (firstPoint : DataPoint) (rest : List DataPoint)
    : blockItems (movePoint offset mask firstPoint) (rest.map (movePoint offset mask))
      = blockItems firstPoint rest := by
  have items
      : (blockItems firstPoint rest).map id
        = outputs BlockCompressor.item BlockCompressor.advance
            ((BlockCompressor.new firstPoint).move offset mask)
            (rest.map (movePoint offset mask)) := by
    refine map_outputs id (BlockCompressor.move offset mask) (movePoint offset mask) ?_ ?_ _ rest
    · intro self point
      refine Prod.ext ?_ (xor_masked _ _ mask).symm
      exact congrArg (· - self.1.lastDelta) (sub_moved _ _ offset).symm
    · intro self point
      refine Prod.ext (congrArg (TimestampCompressor.mk _) ?_) rfl
      exact (sub_moved _ _ offset).symm
  rw [List.map_id] at items
  exact items.symm

theorem recordOf_moved {points : List DataPoint} (holds : points ≠ [])
    : recordOf (points.map (movePoint offset mask)) = moveRecord offset (recordOf points) := by
  obtain ⟨firstPoint, rest, rfl⟩ := List.exists_cons_of_ne_nil holds
  rw [List.map_cons, recordOf, blockItems_moved, List.length_map, List.getLastD_map]
  rfl

end Codecs

-----------------------------------------------------------------------------------------
-- Moved logs
-----------------------------------------------------------------------------------------

section Logs

variable {offset mask : UInt64}

theorem toNat_moved {point : DataPoint} (movable : Movable offset point)
    : (movePoint offset mask point).timestamp.toNat
      = point.timestamp.toNat + offset.toNat := by
  rw [Movable] at movable
  rw [movePoint, UInt64.toNat_add]
  exact Nat.mod_eq_of_lt (by omega)

theorem Movable.hasRoom {point : DataPoint} (movable : Movable offset point) (mask : UInt64)
    : HasRoom point ∧ HasRoom (movePoint offset mask point) := by
  rw [HasRoom, HasRoom, toNat_moved movable]
  rw [Movable] at movable
  constructor <;> omega

/-- Whether a segment is started, goes on or has ended does not depend on the offset. -/
theorem starts_moved {point : DataPoint} (movable : Movable offset point)
    : blockRules.starts (movePoint offset mask point) = blockRules.starts point := by
  have room := movable.hasRoom mask
  rw [(starts_iff _).mpr room.1, (starts_iff _).mpr room.2]

theorem admits_moved {first point : DataPoint} (firstMovable : Movable offset first)
    (movable : Movable offset point)
    : blockRules.admits (movePoint offset mask first) (movePoint offset mask point)
      = blockRules.admits first point := by
  simp only [blockRules, toNat_moved firstMovable, toNat_moved movable]
  congr 2 <;> rw [eq_iff_iff] <;> omega

theorem ended_moved {first : DataPoint} (movable : Movable offset first) {now : UInt64}
    (canMove : now.toNat + offset.toNat < 2 ^ 64)
    : ended (now + offset) (movePoint offset mask first) = ended now first := by
  have moved : (now + offset).toNat = now.toNat + offset.toNat := by
    rw [UInt64.toNat_add, Nat.mod_eq_of_lt canMove]
  simp only [ended, toNat_moved movable, moved]
  congr 1
  rw [eq_iff_iff]
  omega

/-- The log of a key in the moved run. -/
abbrev Moved (offset mask : UInt64) (log moved : PointLog) : Prop :=
  log.Copies (movePoint offset mask) (Movable offset) moved

theorem Moved.clientStep {log moved : PointLog} (copies : Moved offset mask log moved)
    {step : ClientStep} (canMove : step.CanMove offset)
    : Moved offset mask (log.clientStep step) (moved.clientStep (step.move offset mask)) := by
  cases step with
  | insert key point =>
      refine (copies.push canMove (starts_moved canMove) ?_).2
      exact fun first movable => admits_moved movable canMove
  | sealIfExpired key now =>
      exact copies.closeIf fun first movable => ended_moved movable canMove

/-- The steps at a key move its log, by induction on them. -/
theorem Moved.foldl {log moved : PointLog} (copies : Moved offset mask log moved)
    {steps : List ClientStep} (canMove : ∀ step ∈ steps, step.CanMove offset)
    : Moved offset mask (steps.foldl PointLog.clientStep log)
        ((steps.map (ClientStep.move offset mask)).foldl PointLog.clientStep moved) := by
  induction steps generalizing log moved with
  | nil => exact copies
  | cons step rest ih =>
      obtain ⟨first, others⟩ := List.forall_mem_cons.mp canMove
      exact ih (copies.clientStep first) others

end Logs

-----------------------------------------------------------------------------------------
-- Moved runs
-----------------------------------------------------------------------------------------

section Runs

variable {offset mask : UInt64} {steps : List ClientStep}

theorem insertsOf_moved (offset mask : UInt64) (steps : List ClientStep)
    : insertsOf (steps.map (ClientStep.move offset mask))
      = (insertsOf steps).map (Prod.map id (movePoint offset mask)) := by
  rw [insertsOf, insertsOf, List.filterMap_map, List.map_filterMap]
  refine List.filterMap_congr fun step _ => ?_
  cases step with
  | insert key point => rfl
  | sealIfExpired key now => rfl

theorem movable_inserts (canMove : ∀ step ∈ steps, step.CanMove offset)
    : ∀ insert ∈ insertsOf steps, Movable offset insert.2 := by
  intro insert member
  obtain ⟨step, found, same⟩ := List.mem_filterMap.mp member
  cases step with
  | insert key point =>
      cases same
      exact canMove _ found
  | sealIfExpired key now => cases same

/-- Every insert of either run has room. -/
theorem room_inserts (mask : UInt64) (canMove : ∀ step ∈ steps, step.CanMove offset)
    : (∀ insert ∈ insertsOf steps, HasRoom insert.2)
      ∧ ∀ insert ∈ insertsOf (steps.map (ClientStep.move offset mask)), HasRoom insert.2 := by
  have movable := movable_inserts canMove
  refine ⟨fun insert member => ((movable insert member).hasRoom mask).1, ?_⟩
  rw [insertsOf_moved]
  intro insert member
  obtain ⟨unmoved, found, rfl⟩ := List.mem_map.mp member
  exact ((movable unmoved found).hasRoom mask).2

/-- The logs of both runs: the same keys, and at each key moved points. -/
theorem logs_moved (mask : UInt64) (canMove : ∀ step ∈ steps, step.CanMove offset)
    : ∃ logs moved,
        Represents (after TSMap.clientStep TSMap.new steps) logs
        ∧ Represents
            (after TSMap.clientStep TSMap.new (steps.map (ClientStep.move offset mask))) moved
        ∧ moved.keys = logs.keys
        ∧ ∀ key, Moved offset mask (logs.log key) (moved.log key) := by
  obtain ⟨room, roomMoved⟩ := room_inserts mask canMove
  refine ⟨_, _, represents_clientRun steps, represents_clientRun _, ?_, fun key => ?_⟩
  · obtain ⟨-, keys, -⟩ := LogStore.new.after_batch room
    obtain ⟨-, keysMoved, -⟩ := LogStore.new.after_batch roomMoved
    rw [keys, keysMoved, insertsOf_moved, List.map_map]
    rfl
  · rw [LogStore.new.log_clientRun, LogStore.new.log_clientRun]
    have projected : project ClientStep.key key (steps.map (ClientStep.move offset mask))
        = (project ClientStep.key key steps).map (ClientStep.move offset mask) := by
      rw [project, project, List.filter_map]
      refine congrArg (List.map _) (List.filter_congr fun step _ => ?_)
      cases step with
      | insert other point => rfl
      | sealIfExpired other now => rfl
    rw [projected]
    refine Moved.foldl SegmentedLog.copies_empty fun step member => ?_
    exact canMove step (List.mem_of_mem_filter member)

end Runs

section Reads

variable {offset mask : UInt64} {logs moved : LogStore}
  (copies : ∀ key, Moved offset mask (logs.log key) (moved.log key))

include copies

theorem records_moved (key : TimeSeriesKey)
    : (moved.log key).closed.map recordOf
      = ((logs.log key).closed.map recordOf).map (moveRecord offset) := by
  rw [(copies key).closed, List.map_map, List.map_map]
  refine List.map_congr_left fun points member => ?_
  obtain ⟨firstPoint, rest, rfl, -, -⟩ := (logs.log key).closedFormed points member
  exact recordOf_moved (List.cons_ne_nil firstPoint rest)

variable (sameKeys : moved.keys = logs.keys)

include sameKeys

theorem getSeries_moved (key : TimeSeriesKey)
    : moved.getSeries key = (logs.getSeries key).map (moveSeries offset mask) := by
  rw [LogStore.getSeries, LogStore.getSeries, sameKeys, records_moved copies,
    (copies key).current]
  split
  · cases (logs.log key).current <;> rfl
  · rfl

theorem getStats_moved : moved.getStats = logs.getStats := by
  have points (key : TimeSeriesKey)
      : (moved.log key).items.length = (logs.log key).items.length := by
    simp [SegmentedLog.items, (copies key).closed, (copies key).current, Function.comp_def]
  have blocks (key : TimeSeriesKey)
      : (moved.log key).segments.length = (logs.log key).segments.length := by
    rw [(copies key).segments, List.length_map]
  have bytes (key : TimeSeriesKey) : recordBytes (moved.log key) = recordBytes (logs.log key) := by
    have records := congrArg (List.map fun record => record.compressedData.length)
      (records_moved copies key)
    simp only [List.map_map] at records
    exact congrArg List.sum records
  simp only [LogStore.getStats, sameKeys, points, blocks, bytes]

/-- The answer to a moved query, whose range must not wrap. -/
theorem scanRange_moved (key : TimeSeriesKey) {start finish : UInt64} (ordered : start ≤ finish)
    (fits : finish.toNat + offset.toNat < 2 ^ 64)
    : moved.scanRange key (start + offset) (finish + offset)
      = (logs.scanRange key start finish).map (List.map (movePoint offset mask)) := by
  have within := UInt64.le_iff_toNat_le.mp ordered
  have startMoved : (start + offset).toNat = start.toNat + offset.toNat := by
    rw [UInt64.toNat_add, Nat.mod_eq_of_lt (by omega)]
  have finishMoved : (finish + offset).toNat = finish.toNat + offset.toNat := by
    rw [UInt64.toNat_add, Nat.mod_eq_of_lt fits]
  have orderedMoved : start + offset ≤ finish + offset := by
    rw [UInt64.le_iff_toNat_le]
    omega
  rw [LogStore.scanRange, LogStore.scanRange, if_neg (UInt64.not_lt.mpr ordered),
    if_neg (UInt64.not_lt.mpr orderedMoved), sameKeys]
  split
  · have movable := (copies key).currentInside
    have inMoved : ∀ point ∈ (logs.log key).current,
        inRange (start + offset) (finish + offset) (movePoint offset mask point)
        = inRange start finish point := by
      intro point member
      simp only [inRange, UInt64.le_iff_toNat_le, ge_iff_le, toNat_moved (movable point member),
        startMoved, finishMoved]
      congr 2 <;> rw [eq_iff_iff] <;> omega
    have found : (moved.log key).current.filter (inRange (start + offset) (finish + offset))
        = ((logs.log key).current.filter (inRange start finish)).map (movePoint offset mask) := by
      rw [(copies key).current, List.filter_map]
      exact congrArg (List.map _) (List.filter_congr inMoved)
    rw [found]
    refine congrArg Except.ok (Eq.symm ?_)
    apply List.map_insertionSort
    intro point member other otherMember
    rw [byTimestamp, byTimestamp, UInt64.le_iff_toNat_le, UInt64.le_iff_toNat_le,
      toNat_moved (movable point (List.mem_of_mem_filter member)),
      toNat_moved (movable other (List.mem_of_mem_filter otherMember))]
    omega
  · rfl

end Reads

/-- A run of clients whose points and clock readings are later by an offset, and whose values are
masked, is told the same. Every series is moved and masked, every record has the bytes that it
had, the statistics are the same, and a moved query is answered with the moved points.
-/
theorem moved_runs_agree (offset mask : UInt64) (steps : List ClientStep)
    (canMove : ∀ step ∈ steps, step.CanMove offset)
    : let store := after TSMap.clientStep TSMap.new steps
      let movedSteps := steps.map (ClientStep.move offset mask)
      let moved := after TSMap.clientStep TSMap.new movedSteps
      results TSMap.clientStep TSMap.new movedSteps = results TSMap.clientStep TSMap.new steps
      ∧ (∀ key, moved.getSeries key = (store.getSeries key).map (moveSeries offset mask))
      ∧ moved.getStats = store.getStats
      ∧ ∀ key start finish,
          start ≤ finish
          → finish.toNat + offset.toNat < 2 ^ 64
          → moved.scanRange key (start + offset) (finish + offset)
            = (store.scanRange key start finish).map (List.map (movePoint offset mask)) := by
  intro store movedSteps moved
  obtain ⟨room, roomMoved⟩ := room_inserts mask canMove
  obtain ⟨logs, logsMoved, represents, representsMoved, sameKeys, copies⟩ :=
    logs_moved mask canMove
  refine ⟨?_, fun key => ?_, ?_, fun key start finish ordered fits => ?_⟩
  · rw [results_batch room, results_batch roomMoved, List.length_map]
  · rw [represents.getSeries, representsMoved.getSeries, getSeries_moved copies sameKeys]
  · rw [represents.getStats, representsMoved.getStats, getStats_moved copies sameKeys]
  · rw [represents.scanRange, representsMoved.scanRange,
      scanRange_moved copies sameKeys key ordered fits]

theorem moved_runs_agree_sample
    : let steps : List ClientStep := [
        .insert "cpu" ⟨1, ⟨1⟩⟩, .insert "cpu" ⟨3, ⟨2⟩⟩, .sealIfExpired "cpu" 8000000
      ]
      (after TSMap.clientStep TSMap.new (steps.map (ClientStep.move 5 7))).getStats
      = (after TSMap.clientStep TSMap.new steps).getStats := by
  intro steps
  exact (moved_runs_agree 5 7 steps (by decide)).2.2.1

end GorillaTsdb.Storage

import GorillaTsdb.Foundations.SegmentedLogs
import GorillaTsdb.Storage.ClientRuns
import GorillaTsdb.Storage.FailedInserts
import GorillaTsdb.Storage.RangeQueries
import Mathlib.Algebra.BigOperators.Group.Finset.Basic

/-! The store as what it is for: a segmented log of points for every key.
Blocks, records and seals are gone. Keys form a set, timestamps are numbers that do not wrap,
and an insert is a push. The store of the code, shared by any clients, cannot be told from it.
-/

namespace GorillaTsdb.Storage

open Foundations.EventHistories
open Foundations.SegmentedLogs
open Foundations.Simulations
open GorillaTsdb.Compression

-----------------------------------------------------------------------------------------
-- The abstract store
-----------------------------------------------------------------------------------------

/-- A segment covers two hours from its first point, which must not reach the end of time. -/
def blockRules : Rules DataPoint where
  starts point := decide (point.timestamp.toNat + blockDurationMs.toNat < 2 ^ 64)
  admits first point :=
    decide (first.timestamp.toNat ≤ point.timestamp.toNat)
    && decide (point.timestamp.toNat < first.timestamp.toNat + blockDurationMs.toNat)

abbrev PointLog := SegmentedLog blockRules

/-- The clock has reached the end of the segment that starts with a point. -/
def ended (now : UInt64) (first : DataPoint) : Bool :=
  decide (first.timestamp.toNat + blockDurationMs.toNat ≤ now.toNat)

/-- What is kept of a closed segment. -/
def recordOf : List DataPoint → CompressedBlock
  | [] => { startTimestamp := 0, endTimestamp := 0, count := 0, compressedData := [] }
  | firstPoint :: rest => {
      startTimestamp := firstPoint.timestamp
      endTimestamp := (rest.getLastD firstPoint).timestamp
      count := rest.length + 1
      compressedData :=
        (BitWriter.new.pushBits ((blockItems firstPoint rest).flatMap pointBits)).finish
    }

structure LogStore where
  keys : Finset TimeSeriesKey
  log : TimeSeriesKey → PointLog
  unknown : ∀ key, key ∉ keys → log key = .empty

def LogStore.new : LogStore where
  keys := ∅
  log _ := .empty
  unknown _ _ := rfl

/-- An insert makes its key known, whether or not the point is accepted. -/
def LogStore.insert (self : LogStore) (key : TimeSeriesKey) (point : DataPoint)
    : Except StorageError Unit × LogStore :=
  let pushed := (self.log key).push point
  (if pushed.1 then .ok ()
    else .error (.invalidTimeRange point.timestamp (point.timestamp + blockDurationMs)),
    {
      keys := Insert.insert key self.keys
      log := Function.update self.log key pushed.2
      unknown := by
        intro other absent
        obtain ⟨different, missing⟩ := not_or.mp (Finset.mem_insert.not.mp absent)
        rw [Function.update_of_ne different]
        exact self.unknown other missing
    })

def LogStore.sealExpired (self : LogStore) (now : TimeSeriesKey → UInt64) : LogStore where
  keys := self.keys
  log key := (self.log key).closeIf (ended (now key))
  unknown := by
    intro key absent
    rw [self.unknown key absent]
    exact SegmentedLog.closeIf_empty _

def LogStore.step (self : LogStore) : StoreOp → Except StorageError Unit × LogStore
  | .insert key point => self.insert key point
  | .sealExpiredBlocks now => (.ok (), self.sealExpired now)

def LogStore.getSeries (self : LogStore) (key : TimeSeriesKey) : Option TimeSeries :=
  if key ∈ self.keys then
    some {
      key := key
      blocks := (self.log key).closed.map recordOf
      currentBlock := if (self.log key).current = [] then none else some (self.log key).current
    }
  else none

def LogStore.scanRange (self : LogStore) (key : TimeSeriesKey) (start finish : UInt64)
    : Except StorageError (List DataPoint) :=
  if start > finish then .error (.invalidTimeRange start finish)
  else if key ∈ self.keys then
    .ok (((self.log key).current.filter (inRange start finish)).insertionSort byTimestamp)
  else .error (.keyNotFound key)

/-- The bytes that the closed segments of a log take. -/
def recordBytes (log : PointLog) : Nat :=
  (log.closed.map fun items => (recordOf items).compressedData.length).sum

def LogStore.getStats (self : LogStore) : TSMapStats where
  seriesCount := self.keys.card
  totalPoints := ∑ key ∈ self.keys, (self.log key).items.length
  totalBlocks := ∑ key ∈ self.keys, (self.log key).segments.length
  totalCompressedSize := ∑ key ∈ self.keys, recordBytes (self.log key)

-----------------------------------------------------------------------------------------
-- The storage that a log stands for
-----------------------------------------------------------------------------------------

/-- The block that holds an open segment. -/
def openBlockOf : List DataPoint → Option TimeSeriesBlock
  | [] => none
  | first :: rest =>
      some { TimeSeriesBlock.new first.timestamp with points := first :: rest }

/-- The storage of a key whose points are those of a log. -/
def storageOfLog (key : TimeSeriesKey) (log : PointLog) : TimeSeriesStorage where
  key := key
  sealedBlocks := log.closed.map recordOf
  currentBlock := openBlockOf log.current

theorem starts_iff (point : DataPoint)
    : blockRules.starts point
      ↔ point.timestamp.toNat + blockDurationMs.toNat < 2 ^ 64 := by
  simp only [blockRules, decide_eq_true_eq]

/-- The window of a point that may start a segment does not wrap. -/
theorem toNat_windowEnd {first : DataPoint} (starts : blockRules.starts first)
    : (first.timestamp + blockDurationMs).toNat
      = first.timestamp.toNat + blockDurationMs.toNat := by
  rw [UInt64.toNat_add, Nat.mod_eq_of_lt ((starts_iff first).mp starts)]

/-- The block of an open segment accepts what the segment admits. -/
theorem canAccept_openBlock {first : DataPoint} (starts : blockRules.starts first)
    (rest : List DataPoint) (point : DataPoint)
    : ({ TimeSeriesBlock.new first.timestamp with points := first :: rest }
          : TimeSeriesBlock).canAccept point.timestamp
      = blockRules.admits first point := by
  rw [Bool.eq_iff_iff, TimeSeriesBlock.canAccept_iff, UInt64.le_iff_toNat_le,
    UInt64.lt_iff_toNat_lt]
  change false = false ∧ _ ∧ _ < (first.timestamp + blockDurationMs).toNat ↔ _
  rw [toNat_windowEnd starts]
  simp only [blockRules, true_and, Bool.and_eq_true, decide_eq_true_eq, TimeSeriesBlock.new]

/-- It is due when the clock has reached the end of the segment. -/
theorem shouldSeal_openBlock {first : DataPoint} (starts : blockRules.starts first)
    (rest : List DataPoint) (now : UInt64)
    : ({ TimeSeriesBlock.new first.timestamp with points := first :: rest }
          : TimeSeriesBlock).shouldSeal now
      = ended now first := by
  rw [Bool.eq_iff_iff, ended, ← toNat_windowEnd starts, decide_eq_true_iff,
    ← UInt64.le_iff_toNat_le]
  simp only [TimeSeriesBlock.shouldSeal, TimeSeriesBlock.new, Bool.false_eq_true, if_false,
    decide_eq_true_eq, ge_iff_le]

/-- Sealing closes the segment: the record of the block is that of its points. -/
theorem sealCurrentBlock_storageOfLog (key : TimeSeriesKey) (log : PointLog)
    : TimeSeriesStorage.sealCurrentBlock (storageOfLog key log)
      = .ok () (storageOfLog key log.close) := by
  cases current : log.current with
  | nil =>
      simp only [SegmentedLog.close_nil current, TimeSeriesStorage.sealCurrentBlock, storageOfLog,
        current, openBlockOf]
  | cons first rest =>
      let block : TimeSeriesBlock :=
        { TimeSeriesBlock.new first.timestamp with points := first :: rest }
      have compressed : block.seal.compress = .ok (recordOf (first :: rest)) :=
        TimeSeriesBlock.compress_eq rfl
      have grown : log.close.closed = log.closed ++ [first :: rest] :=
        SegmentedLog.segments_cons current
      have holds : (storageOfLog key log).currentBlock = some block :=
        congrArg openBlockOf current
      have positive : (recordOf (first :: rest)).count > 0 := Nat.succ_pos rest.length
      simp only [TimeSeriesStorage.sealCurrentBlock, holds, compressed, positive, if_true]
      simp only [storageOfLog, grown, List.map_append, List.map_cons, List.map_nil]
      rfl

/-- What a new block makes of its own first point. -/
theorem openBlock_storageOfLog (key : TimeSeriesKey) (log : PointLog) (empty : log.current = [])
    (point : DataPoint)
    : TimeSeriesStorage.openBlock point (storageOfLog key log)
      = if starts : blockRules.starts point then
          .ok () (storageOfLog key (log.restart point starts))
        else
          .error (.invalidTimeRange point.timestamp (point.timestamp + blockDurationMs))
            (storageOfLog key log) := by
  have accepts : (TimeSeriesBlock.new point.timestamp).canAccept point.timestamp
      = blockRules.starts point := by
    rw [Bool.eq_iff_iff, TimeSeriesBlock.canAccept_new_iff, starts_iff]
  by_cases starts : blockRules.starts point
  · have added : TimeSeriesBlock.addPoint point (TimeSeriesBlock.new point.timestamp)
        = .ok () { TimeSeriesBlock.new point.timestamp with points := [point] } :=
      (TimeSeriesBlock.addPoint_ok_iff _ _ point).mpr ⟨accepts.trans starts, rfl⟩
    have closed : (log.restart point starts).closed = log.closed :=
      SegmentedLog.segments_nil empty
    rw [dif_pos starts]
    simp only [TimeSeriesStorage.openBlock, added, storageOfLog, closed]
    rfl
  · have refuses : (TimeSeriesBlock.new point.timestamp).canAccept point.timestamp = false :=
      accepts.trans (Bool.eq_false_of_not_eq_true starts)
    have refused : TimeSeriesBlock.addPoint point (TimeSeriesBlock.new point.timestamp)
        = .error (.invalidTimeRange point.timestamp (point.timestamp + blockDurationMs))
            (TimeSeriesBlock.new point.timestamp) := by
      rw [TimeSeriesBlock.addPoint, refuses]
      rfl
    rw [dif_neg starts]
    simp only [TimeSeriesStorage.openBlock, refused]

/-- `insert_point` pushes the point onto the log. -/
theorem insertPoint_storageOfLog (key : TimeSeriesKey) (log : PointLog) (point : DataPoint)
    : TimeSeriesStorage.insertPoint point (storageOfLog key log)
      = if (log.push point).1 then .ok () (storageOfLog key (log.push point).2)
        else
          .error (.invalidTimeRange point.timestamp (point.timestamp + blockDurationMs))
            (storageOfLog key (log.push point).2) := by
  -- what happens once no block is open, from the start or since the open one was sealed
  have opening (closed : PointLog) (empty : closed.current = [])
      (unfit : ¬ log.fits point = true) (same : closed.close = log.close)
      : TimeSeriesStorage.openBlock point (storageOfLog key closed)
        = if (log.push point).1 then .ok () (storageOfLog key (log.push point).2)
          else
            .error (.invalidTimeRange point.timestamp (point.timestamp + blockDurationMs))
              (storageOfLog key (log.push point).2) := by
    rw [openBlock_storageOfLog key closed empty, SegmentedLog.push, dif_neg unfit]
    by_cases starts : blockRules.starts point
    · rw [dif_pos starts, dif_pos starts, SegmentedLog.restart_of_close same]
      rfl
    · rw [dif_neg starts, dif_neg starts, ← same, SegmentedLog.close_nil empty]
      rfl
  cases current : log.current with
  | nil =>
      have none : (storageOfLog key log).currentBlock = none := congrArg openBlockOf current
      simp only [TimeSeriesStorage.insertPoint, none]
      exact opening log current (by simp [SegmentedLog.fits_nil current]) rfl
  | cons first rest =>
      have starts := log.starts_first current
      let block : TimeSeriesBlock :=
        { TimeSeriesBlock.new first.timestamp with points := first :: rest }
      have holds : (storageOfLog key log).currentBlock = some block :=
        congrArg openBlockOf current
      have accepts : block.canAccept point.timestamp = log.fits point :=
        (canAccept_openBlock starts rest point).trans (SegmentedLog.fits_cons current point).symm
      by_cases fits : log.fits point
      · have added := (block.addPoint_ok_iff _ point).mpr ⟨accepts.trans fits, rfl⟩
        rw [SegmentedLog.push, dif_pos fits]
        simp only [TimeSeriesStorage.insertPoint, holds, accepts.trans fits, if_true, added]
        simp only [storageOfLog, SegmentedLog.extend, current]
        rfl
      · have refuses := accepts.trans (Bool.eq_false_of_not_eq_true fits)
        simp only [TimeSeriesStorage.insertPoint, holds, refuses, Bool.false_eq_true, if_false,
          sealCurrentBlock_storageOfLog]
        exact opening log.close rfl fits (SegmentedLog.close_nil rfl)

/-- `seal_if_expired` closes the open segment if the clock has passed it. -/
theorem sealIfExpired_storageOfLog (key : TimeSeriesKey) (log : PointLog) (now : UInt64)
    : (storageOfLog key log).sealIfExpired now = storageOfLog key (log.closeIf (ended now)) := by
  cases current : log.current with
  | nil =>
      have none : (storageOfLog key log).currentBlock = none := congrArg openBlockOf current
      have rests : log.closeIf (ended now) = log := by simp [SegmentedLog.closeIf, current]
      simp only [TimeSeriesStorage.sealIfExpired, none, rests]
  | cons first rest =>
      have holds : (storageOfLog key log).currentBlock
          = some { TimeSeriesBlock.new first.timestamp with points := first :: rest } :=
        congrArg openBlockOf current
      have due := shouldSeal_openBlock (log.starts_first current) rest now
      have closes : log.closeIf (ended now) = if ended now first then log.close else log := by
        rw [SegmentedLog.closeIf, current, List.head?_cons, Option.any_some]
      rw [closes]
      cases passed : ended now first with
      | true =>
          simp only [TimeSeriesStorage.sealIfExpired, holds, due.trans passed, if_true,
            sealCurrentBlock_storageOfLog]
      | false =>
          simp only [TimeSeriesStorage.sealIfExpired, holds, due.trans passed,
            Bool.false_eq_true, if_false]

-----------------------------------------------------------------------------------------
-- The store of the code
-----------------------------------------------------------------------------------------

/-- The store holds, for every known key and for no other, the storage of the key's log. -/
def Represents (store : TSMap) (logs : LogStore) : Prop :=
  ∀ key,
    store.entry key = if key ∈ logs.keys then some (storageOfLog key (logs.log key)) else none

theorem represents_new : Represents TSMap.new LogStore.new := fun _ => rfl

section Represents

variable {store : TSMap} {logs : LogStore}

theorem Represents.storageOf (represents : Represents store logs) (key : TimeSeriesKey)
    : store.storageOf key = storageOfLog key (logs.log key) := by
  rw [store.storageOf_eq, represents key]
  split
  · rfl
  case isFalse missing =>
    rw [logs.unknown key missing]
    rfl

theorem Represents.mem_keys (represents : Represents store logs) (key : TimeSeriesKey)
    : key ∈ store.keys ↔ key ∈ logs.keys := by
  have entry : store.series.lookup key = _ := represents key
  have found : (store.series.lookup key).isSome ↔ key ∈ logs.keys := by
    rw [entry]
    split
    case isTrue known => exact iff_of_true rfl known
    case isFalse missing => exact iff_of_false Bool.false_ne_true missing
  rw [← found, AList.lookup_isSome]
  exact AList.mem_keys.symm

theorem Represents.keys (represents : Represents store logs)
    : store.keys.toFinset = logs.keys := by
  ext key
  rw [List.mem_toFinset, represents.mem_keys]

theorem TSMap.nodup_keys (self : TSMap) : self.keys.Nodup := self.series.keys_nodup

theorem Represents.len (represents : Represents store logs) : store.len = logs.keys.card := by
  rw [← represents.keys, List.toFinset_card_of_nodup store.nodup_keys]
  rfl

theorem Represents.isEmpty (represents : Represents store logs)
    : store.isEmpty = decide (logs.keys = ∅) := by
  rw [Bool.eq_iff_iff, decide_eq_true_iff, ← represents.keys, List.toFinset_eq_empty_iff]
  exact List.isEmpty_iff

theorem Represents.getSeries (represents : Represents store logs) (key : TimeSeriesKey)
    : store.getSeries key = logs.getSeries key := by
  have entry : store.series.lookup key = _ := represents key
  rw [TSMap.getSeries, LogStore.getSeries, entry]
  split
  · cases current : (logs.log key).current <;>
      simp [TimeSeriesStorage.toTimeSeries, TimeSeriesStorage.currentPoints, storageOfLog,
        openBlockOf, current]
  · rfl

/-- The open points of a log are those of its block. -/
theorem currentPoints_storageOfLog (key : TimeSeriesKey) (log : PointLog)
    : (storageOfLog key log).currentPoints = log.current := by
  cases current : log.current <;>
    simp [TimeSeriesStorage.currentPoints, storageOfLog, openBlockOf, current]

theorem Represents.scanRange (represents : Represents store logs) (key : TimeSeriesKey)
    (start finish : UInt64)
    : store.scanRange key start finish = logs.scanRange key start finish := by
  have entry : store.series.lookup key = _ := represents key
  rw [TSMap.scanRange, LogStore.scanRange, entry]
  by_cases known : key ∈ logs.keys
  · rw [if_pos known, if_pos known, ← currentPoints_storageOfLog key]
    exact congrArg _ ((storageOfLog key (logs.log key)).scanRange_eq start finish)
  · rw [if_neg known, if_neg known]

theorem sum_counts_storageOfLog (key : TimeSeriesKey) (log : PointLog)
    : ((storageOfLog key log).sealedBlocks.map CompressedBlock.count).sum
      = log.closed.flatten.length := by
  have count (items : List DataPoint) : (recordOf items).count = items.length := by
    cases items <;> rfl
  rw [List.length_flatten, storageOfLog, List.map_map]
  exact congrArg List.sum (List.map_congr_left fun items _ => count items)

/-- The numbers of a log are those of its storage. -/
theorem getStats_storageOfLog (key : TimeSeriesKey) (log : PointLog)
    : (storageOfLog key log).getStats = {
        pointCount := log.items.length
        blockCount := log.segments.length
        compressedSize := recordBytes log
      } := by
  have blocks : (storageOfLog key log).getStats.blockCount = log.segments.length := by
    cases current : log.current <;>
      simp [TimeSeriesStorage.getStats, storageOfLog, openBlockOf, SegmentedLog.segments, current]
  have size : (storageOfLog key log).getStats.compressedSize = recordBytes log := by
    simp only [TimeSeriesStorage.getStats, storageOfLog, recordBytes, List.map_map]
    rfl
  rw [← blocks, ← size, SegmentedLog.items, List.length_append,
    ← sum_counts_storageOfLog key, Nat.add_comm, ← currentPoints_storageOfLog key]
  rfl

/-- A total over the entries is a sum over the keys, which are distinct. -/
theorem Represents.sum_entries (represents : Represents store logs)
    (measure : TimeSeriesStats → Nat)
    : ((store.series.entries.map fun entry => entry.2.getStats).map measure).sum
      = ∑ key ∈ logs.keys, measure (storageOfLog key (logs.log key)).getStats := by
  rw [← represents.keys, List.sum_toFinset _ store.nodup_keys]
  simp only [TSMap.keys, AList.keys, List.keys, List.map_map]
  refine congrArg List.sum (List.map_congr_left ?_)
  intro entry member
  rw [Function.comp_apply, Function.comp_apply, ← represents.storageOf,
    store.storageOf_entry member]

theorem Represents.getStats (represents : Represents store logs)
    : store.getStats = logs.getStats := by
  simp only [TSMap.getStats, LogStore.getStats, represents.sum_entries, getStats_storageOfLog,
    represents.len]

theorem Represents.totalPoints (represents : Represents store logs)
    : store.getStats.totalPoints = ∑ key ∈ logs.keys, (logs.log key).items.length := by
  rw [represents.getStats]
  rfl

/-- Every operation of the store is the operation on the logs. -/
theorem Represents.step (represents : Represents store logs) (operation : StoreOp)
    : (store.step operation).1 = (logs.step operation).1
      ∧ Represents (store.step operation).2 (logs.step operation).2 := by
  cases operation with
  | insert key point =>
      obtain ⟨result, entries⟩ := store.insert_entry key point
      have pushed := insertPoint_storageOfLog key (logs.log key) point
      rw [← represents.storageOf, store.storageOf_eq] at pushed
      have inserted : entryStep (store.entry key) (.insert key point)
          = ((logs.insert key point).1, some (storageOfLog key ((logs.log key).push point).2)) := by
        simp only [entryStep, pushed, LogStore.insert]
        split
        · rfl
        · rfl
      rw [inserted] at result entries
      refine ⟨result, fun other => (entries other).trans ?_⟩
      by_cases same : key = other
      · subst same
        simp [LogStore.step, LogStore.insert]
      · have different : other ≠ key := Ne.symm same
        simp [LogStore.step, LogStore.insert, same, different, represents other]
  | sealExpiredBlocks now =>
      refine ⟨rfl, fun key => (store.lookup_sealExpiredBlocks now key).trans ?_⟩
      have entry : store.series.lookup key = _ := represents key
      rw [entry]
      by_cases known : key ∈ logs.keys
      · simp [LogStore.step, LogStore.sealExpired, known, sealIfExpired_storageOfLog]
      · simp [LogStore.step, LogStore.sealExpired, known]

end Represents

/-- The store of atomic operations is simulated by the logs. -/
theorem step_simulates_logs : Simulates TSMap.step LogStore.step id Eq Represents where
  stepped := fun represents operation => represents.step operation

/-- The store that clients share is simulated by the logs, over the store of atomic operations. -/
theorem clientStep_simulates_logs
    : Simulates TSMap.clientStep LogStore.step ClientStep.atomically (Relation.Comp Eq Eq)
        (Relation.Comp Atomic Represents) :=
  clientStep_simulates.trans step_simulates_logs

/-- What clients hold, the logs hold. -/
theorem represents_of_atomic {store : TSMap} {logs : LogStore}
    (matched : Relation.Comp Atomic Represents store logs)
    : Represents store logs := by
  obtain ⟨atomic, ⟨same, -⟩, represents⟩ := matched
  exact fun key => (same key).trans (represents key)

theorem represents_clientRun (steps : List ClientStep)
    : Represents (after TSMap.clientStep TSMap.new steps)
        (after LogStore.step LogStore.new (steps.map ClientStep.atomically)) :=
  represents_of_atomic
    (clientStep_simulates_logs.run ⟨TSMap.new, atomic_new, represents_new⟩ steps).2

/-- However clients interleave inserts and rounds of sealing passes, the logs give every insert
the result that the store gives it, and afterwards every read has the same answer.
-/
theorem clients_refine_logs (steps : List ClientStep)
    : let store := after TSMap.clientStep TSMap.new steps
      let logs := after LogStore.step LogStore.new (steps.map ClientStep.atomically)
      results TSMap.clientStep TSMap.new steps
        = results LogStore.step LogStore.new (steps.map ClientStep.atomically)
      ∧ (∀ key, store.getSeries key = logs.getSeries key)
      ∧ (∀ key start finish,
          store.scanRange key start finish = logs.scanRange key start finish)
      ∧ store.getStats = logs.getStats
      ∧ store.keys.toFinset = logs.keys
      ∧ store.len = logs.keys.card
      ∧ store.isEmpty = decide (logs.keys = ∅) := by
  intro store logs
  obtain ⟨alike, -⟩ :=
    clientStep_simulates_logs.run ⟨TSMap.new, atomic_new, represents_new⟩ steps
  have represents : Represents store logs := represents_clientRun steps
  refine ⟨?_, represents.getSeries, represents.scanRange, represents.getStats, represents.keys,
    represents.len, represents.isEmpty⟩
  rw [← List.forall₂_eq_eq_eq]
  refine alike.imp ?_
  rintro left right ⟨middle, first, second⟩
  exact first.trans second

end GorillaTsdb.Storage

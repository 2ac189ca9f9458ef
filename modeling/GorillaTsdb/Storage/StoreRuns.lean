import GorillaTsdb.Foundations.EventHistories
import GorillaTsdb.Storage.Segments

/-! Whole runs of the store: inserts on any keys and background sealing passes.
Each key's storage only moves with the events of that key, so one invariant per key suffices.
-/

namespace GorillaTsdb.Storage

open Foundations.EventHistories

inductive StoreOp where
  | insert (key : TimeSeriesKey) (point : DataPoint)
  | sealExpiredBlocks (now : TimeSeriesKey → UInt64)

def TSMap.step (self : TSMap) : StoreOp → Except StorageError Unit × TSMap
  | .insert key point => outcome (TSMap.insert key point self)
  | .sealExpiredBlocks now => (.ok (), self.sealExpiredBlocks now)

/-- The points whose insert for the key returned `Ok`, in the order of the events. -/
def acknowledged (key : TimeSeriesKey) (events : List (StoreOp × Except StorageError Unit))
    : List DataPoint :=
  events.filterMap fun
    | (.insert other point, .ok _) => if other = key then some point else none
    | _ => none

theorem TSMap.lookup_sealExpiredBlocks (self : TSMap) (now : TimeSeriesKey → UInt64)
    (key : TimeSeriesKey)
    : (self.sealExpiredBlocks now).series.lookup key
      = (self.series.lookup key).map fun storage => storage.sealIfExpired (now key) :=
  List.dlookup_map₂ key

/-- The background pass seals the storage of every key on its own. -/
theorem TSMap.storageOf_sealExpiredBlocks (self : TSMap) (now : TimeSeriesKey → UInt64)
    (key : TimeSeriesKey)
    : (self.sealExpiredBlocks now).storageOf key
      = (self.storageOf key).sealIfExpired (now key) := by
  rw [TSMap.storageOf, TSMap.storageOf, self.lookup_sealExpiredBlocks]
  cases self.series.lookup key <;> rfl

/-- Putting a storage back changes the storage of its key only. -/
theorem TSMap.storageOf_put (self : TSMap) (key other : TimeSeriesKey)
    (storage : TimeSeriesStorage)
    : ({ series := self.series.insert key storage } : TSMap).storageOf other
      = if key = other then storage else self.storageOf other := by
  split
  case isTrue same =>
    subst same
    rw [TSMap.storageOf, AList.lookup_insert, Option.getD_some]
  case isFalse different =>
    rw [TSMap.storageOf, TSMap.storageOf, AList.lookup_insert_ne (Ne.symm different)]

/-- The invariant of a key over a run that starts from a store with the records `base` for it:
the storage represents the acknowledged points, and its records begin with `base`.
-/
def Tracks (key : TimeSeriesKey) (base : List CompressedBlock)
    (events : List (StoreOp × Except StorageError Unit)) (store : TSMap)
    : Prop :=
  (∃ closed, (store.storageOf key).Segmented closed (acknowledged key events))
  ∧ base <+: (store.storageOf key).sealedBlocks

theorem acknowledged_append (key : TimeSeriesKey)
    (events : List (StoreOp × Except StorageError Unit)) (operation : StoreOp)
    (result : Except StorageError Unit)
    : acknowledged key (events ++ [(operation, result)])
      = acknowledged key events ++ acknowledged key [(operation, result)] :=
  List.filterMap_append

/-- What closes a block: an insert that does not fit, or the expiry pass. -/
inductive ClosedBy where
  | insert
  | expiry
  deriving DecidableEq, Repr

/-- The block of the key that an operation closes, if any. -/
def TSMap.closing (self : TSMap) (key : TimeSeriesKey)
    : StoreOp → Option (ClosedBy × TimeSeriesBlock)
  | .insert other point =>
      if other = key then
        ((self.storageOf key).currentBlock.filter fun block => !block.canAccept point.timestamp).map
          fun block => (.insert, block)
      else none
  | .sealExpiredBlocks now =>
      ((self.storageOf key).currentBlock.filter fun block => block.shouldSeal (now key)).map
        fun block => (.expiry, block)

/-- What one operation of the store can do to the storage of a key: with its result, the block
it closes and the storage after it.
-/
inductive TimeSeriesStorage.Moves (key : TimeSeriesKey) (self : TimeSeriesStorage)
    : StoreOp
      → Except StorageError Unit
      → Option (ClosedBy × TimeSeriesBlock)
      → TimeSeriesStorage
      → Prop where
  | rests {operation : StoreOp} {result : Except StorageError Unit}
      (silent : acknowledged key [(operation, result)] = [])
      : Moves key self operation result none self
  | joins {point : DataPoint} {block : TimeSeriesBlock}
      (current : self.currentBlock = some block)
      (accepts : block.canAccept point.timestamp = true)
      : Moves key self (.insert key point) (.ok ()) none (self.growBlock block point)
  | opens {point : DataPoint} (empty : self.currentBlock = none)
      (accepts : (TimeSeriesBlock.new point.timestamp).canAccept point.timestamp = true)
      : Moves key self (.insert key point) (.ok ()) none (self.startBlock point)
  | replaces {point : DataPoint} {block : TimeSeriesBlock} {emptied : TimeSeriesStorage}
      (current : self.currentBlock = some block)
      (refuses : block.canAccept point.timestamp = false)
      (sealing : TimeSeriesStorage.sealCurrentBlock self = .ok () emptied)
      (accepts : (TimeSeriesBlock.new point.timestamp).canAccept point.timestamp = true)
      : Moves key self (.insert key point) (.ok ()) (some (.insert, block))
          (emptied.startBlock point)
  | fails {point : DataPoint} {error : StorageError} {block : TimeSeriesBlock}
      {emptied : TimeSeriesStorage} (current : self.currentBlock = some block)
      (sealing : TimeSeriesStorage.sealCurrentBlock self = .ok () emptied)
      : Moves key self (.insert key point) (.error error) (some (.insert, block)) emptied
  | expires {now : TimeSeriesKey → UInt64} {block : TimeSeriesBlock}
      {emptied : TimeSeriesStorage} (current : self.currentBlock = some block)
      (sealing : TimeSeriesStorage.sealCurrentBlock self = .ok () emptied)
      : Moves key self (.sealExpiredBlocks now) (.ok ()) (some (.expiry, block)) emptied

/-- An insert moves the storage of its key as `insert_point` does. -/
theorem TSMap.step_insert (self : TSMap) (key : TimeSeriesKey) (point : DataPoint)
    : ((self.step (.insert key point)).1,
        (self.step (.insert key point)).2.storageOf key)
      = outcome (TimeSeriesStorage.insertPoint point (self.storageOf key)) := by
  cases inserted : TimeSeriesStorage.insertPoint point (self.storageOf key) <;>
    simp only [TSMap.step, TSMap.insert, inserted, outcome, TSMap.storageOf_put, if_true]

/-- An insert on another key acknowledges nothing for this one and leaves its storage. -/
theorem TSMap.step_insert_other (self : TSMap) {key other : TimeSeriesKey}
    (different : other ≠ key) (point : DataPoint)
    : (self.step (.insert other point)).2.storageOf key = self.storageOf key
      ∧ acknowledged key [(.insert other point, (self.step (.insert other point)).1)] = [] := by
  cases inserted : TimeSeriesStorage.insertPoint point (self.storageOf other) <;>
    simp [TSMap.step, TSMap.insert, inserted, outcome, TSMap.storageOf_put, acknowledged, different]

/-- Every operation makes one of the moves of every key. -/
theorem TSMap.step_moves (self : TSMap) (key : TimeSeriesKey) (operation : StoreOp)
    : (self.storageOf key).Moves key operation (self.step operation).1
        (self.closing key operation) ((self.step operation).2.storageOf key) := by
  cases operation with
  | insert other point =>
      by_cases same : other = key
      · subst same
        obtain ⟨result, storage⟩ := Prod.mk.inj (self.step_insert other point)
        rw [result, storage, TSMap.closing, if_pos rfl]
        rcases (self.storageOf other).insertPoint_cases point with ⟨block, current, accepts, joined⟩
          | ⟨empty, opening⟩ | ⟨block, emptied, current, refuses, sealing, opening⟩
        · simp only [joined, current, Option.filter_some, accepts, Bool.not_true,
            Bool.false_eq_true, if_false, Option.map_none]
          exact .joins current accepts
        · rw [opening, empty]
          rcases (self.storageOf other).openBlock_cases point with ⟨accepts, opened⟩
            | ⟨-, error, failed⟩
          · rw [opened]
            exact .opens empty accepts
          · rw [failed]
            exact .rests rfl
        · simp only [opening, current, Option.filter_some, refuses, Bool.not_false, if_true,
            Option.map_some]
          rcases emptied.openBlock_cases point with ⟨accepts, opened⟩ | ⟨-, error, failed⟩
          · rw [opened]
            exact .replaces current refuses sealing accepts
          · rw [failed]
            exact .fails current sealing
      · obtain ⟨storage, silent⟩ := self.step_insert_other same point
        rw [storage, TSMap.closing, if_neg same]
        exact .rests silent
  | sealExpiredBlocks now =>
      rw [TSMap.step, TSMap.storageOf_sealExpiredBlocks, TSMap.closing]
      rcases (self.storageOf key).sealIfExpired_cases (now key) with ⟨block, current, due, sealing⟩
        | ⟨waits, same⟩
      · simp only [current, Option.filter_some, due, if_true, Option.map_some]
        exact .expires current sealing
      · have nothing : (self.storageOf key).currentBlock.filter
            (fun block => block.shouldSeal (now key)) = none := by
          simpa [Option.filter_eq_none_iff] using waits
        rw [nothing, same]
        exact .rests rfl

/-- A move appends its acknowledged point to the points and the block it closes to the closed
ones. Records are only ever appended.
-/
theorem TimeSeriesStorage.Segmented.moves {key : TimeSeriesKey} {self after : TimeSeriesStorage}
    {operation : StoreOp} {result : Except StorageError Unit}
    {closing : Option (ClosedBy × TimeSeriesBlock)}
    (moves : self.Moves key operation result closing after)
    {closed : List TimeSeriesBlock} {points : List DataPoint}
    (segmented : self.Segmented closed points)
    : after.Segmented (closed ++ closing.toList.map Prod.snd)
        (points ++ acknowledged key [(operation, result)])
      ∧ self.sealedBlocks <+: after.sealedBlocks := by
  cases moves with
  | rests silent =>
      exact ⟨by simpa [silent] using segmented, List.prefix_rfl⟩
  | joins current accepts =>
      exact ⟨by simpa [acknowledged] using segmented.growBlock current accepts, List.prefix_rfl⟩
  | opens empty accepts =>
      exact ⟨by simpa [acknowledged] using segmented.startBlock empty accepts, List.prefix_rfl⟩
  | replaces current refuses sealing accepts =>
      obtain ⟨empty, stays, grows⟩ := segmented.sealCurrentBlock current sealing
      exact ⟨by simpa [acknowledged] using stays.startBlock empty accepts, grows⟩
  | fails current sealing =>
      obtain ⟨-, stays, grows⟩ := segmented.sealCurrentBlock current sealing
      exact ⟨by simpa [acknowledged] using stays, grows⟩
  | expires current sealing =>
      obtain ⟨-, stays, grows⟩ := segmented.sealCurrentBlock current sealing
      exact ⟨by simpa [acknowledged] using stays, grows⟩

/-- Every operation keeps the invariant of every key. -/
theorem Tracks.step {key : TimeSeriesKey} {base : List CompressedBlock}
    {events : List (StoreOp × Except StorageError Unit)} {store : TSMap}
    (tracks : Tracks key base events store) (operation : StoreOp)
    : Tracks key base (events ++ [(operation, (store.step operation).1)])
        (store.step operation).2 := by
  obtain ⟨⟨closed, segmented⟩, grown⟩ := tracks
  obtain ⟨stays, grows⟩ := segmented.moves (store.step_moves key operation)
  rw [Tracks, acknowledged_append]
  exact ⟨⟨_, stays⟩, grown.trans grows⟩

theorem tracks_new (key : TimeSeriesKey) : Tracks key [] [] TSMap.new :=
  ⟨⟨[], TimeSeriesStorage.segmented_new key⟩, List.nil_prefix⟩

/-- After any run every key's storage represents the points acknowledged for the key. -/
theorem storeRun_segmented (operations : List StoreOp) (key : TimeSeriesKey)
    : ∃ closed,
        ((after TSMap.step TSMap.new operations).storageOf key).Segmented closed
          (acknowledged key (history TSMap.step TSMap.new operations)) :=
  (run_invariant (Tracks key []) Tracks.step (tracks_new key) operations).1

/-- The storage of an entry is the storage of its key, since keys are distinct. -/
theorem TSMap.storageOf_entry (self : TSMap) {entry : Sigma fun _ => TimeSeriesStorage}
    (member : entry ∈ self.series.entries)
    : self.storageOf entry.1 = entry.2 := by
  have found : self.series.lookup entry.1 = some entry.2 :=
    AList.mem_lookup_iff.mpr member
  rw [TSMap.storageOf, found, Option.getD_some]

/-- The total of `get_stats` is the sum of the shares of all keys. -/
theorem TSMap.totalPoints_eq (self : TSMap)
    : self.getStats.totalPoints
      = (self.keys.map fun key => (self.storageOf key).getStats.pointCount).sum := by
  simp only [TSMap.getStats, TSMap.keys, AList.keys, List.keys, List.map_map]
  refine congrArg List.sum (List.map_congr_left ?_)
  intro entry member
  simp only [Function.comp_def, self.storageOf_entry member]

/-- A count that a new storage reports as zero may be read off the looked-up entry. -/
theorem TSMap.lookup_count (self : TSMap) (key : TimeSeriesKey)
    (count : TimeSeriesStorage → Nat) (zero : count (TimeSeriesStorage.new key) = 0)
    : ((self.series.lookup key).map count).getD 0 = count (self.storageOf key) := by
  rw [TSMap.storageOf]
  cases self.series.lookup key
  · exact zero.symm
  · rfl

/-- After any run, for every key: the acknowledged points are the segments of the sealed blocks
in order and then the points of the open block; every segment holds a point, and the open block
is not sealed, starts at its first point and keeps its points in its window. In every further
run the sealed blocks only grow at the end; sealing succeeds; and both point counts of the key,
whose sum over all keys is the total, are the number of its acknowledged points.
-/
theorem store_represents_acknowledged (operations : List StoreOp) (key : TimeSeriesKey)
    : let store := after TSMap.step TSMap.new operations
      let events := history TSMap.step TSMap.new operations
      let storage := store.storageOf key
      (∃ closed : List TimeSeriesBlock,
          acknowledged key events
            = (closed.map TimeSeriesBlock.points).flatten ++ storage.currentPoints
          ∧ (∀ block ∈ closed, block.points ≠ [])
          ∧ storage.sealedBlocks.map Except.ok = closed.map TimeSeriesBlock.compress)
      ∧ (∀ block ∈ storage.currentBlock,
          block.points ≠ []
          ∧ block.isSealed = false
          ∧ block.points.head?.map DataPoint.timestamp = some block.startTime
          ∧ ∀ point ∈ block.points,
              block.startTime.toNat ≤ point.timestamp.toNat
              ∧ point.timestamp.toNat < block.startTime.toNat + blockDurationMs.toNat)
      ∧ (∀ later,
          storage.sealedBlocks <+: ((after TSMap.step store later).storageOf key).sealedBlocks)
      ∧ (∃ sealed, TimeSeriesStorage.sealCurrentBlock storage = .ok () sealed)
      ∧ ((store.getSeries key).map TimeSeries.pointCount).getD 0
        = (acknowledged key events).length
      ∧ ((store.series.lookup key).map fun storage => storage.getStats.pointCount).getD 0
        = (acknowledged key events).length
      ∧ store.getStats.totalPoints
        = (store.keys.map fun other => (acknowledged other events).length).sum := by
  intro store events storage
  have shares (other : TimeSeriesKey)
      : (store.storageOf other).getStats.pointCount = (acknowledged other events).length := by
    obtain ⟨closed, segmented⟩ := storeRun_segmented operations other
    exact segmented.counts.1
  obtain ⟨closed, segmented⟩ := storeRun_segmented operations key
  refine ⟨⟨closed, ?_, ?_, segmented.records⟩, ?_, ?_, storage.sealCurrentBlock_total, ?_, ?_,
    ?_⟩
  · rw [← List.flatMap_def]
    exact segmented.pointsEq
  · intro block member
    exact (segmented.closedOpened block member).holds
  · intro block current
    have opened := segmented.current block current
    exact ⟨opened.holds, opened.unsealed, opened.starts,
      fun point member => opened.built.windowed.range member⟩
  · intro later
    have tracks : Tracks key storage.sealedBlocks events store :=
      ⟨⟨closed, segmented⟩, List.prefix_rfl⟩
    exact (run_invariant (Tracks key storage.sealedBlocks) Tracks.step tracks later).2
  · rw [TSMap.getSeries, Option.map_map]
    exact (store.lookup_count key _ rfl).trans segmented.counts.2
  · exact (store.lookup_count key _ rfl).trans (shares key)
  · rw [store.totalPoints_eq]
    simp only [shares]

end GorillaTsdb.Storage

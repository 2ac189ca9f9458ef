import GorillaTsdb.Storage.Block
import Mathlib.Data.List.AList
import Mathlib.Data.List.Sort

/-! The in-memory store: one storage per key, each with its sealed blocks and an open block.
The concurrent map is an association list with distinct keys; no result depends on its order.
Every call is one atomic step, as the locks make it.
-/

namespace GorillaTsdb.Storage

structure TimeSeriesStorage where
  key : TimeSeriesKey
  sealedBlocks : List CompressedBlock
  currentBlock : Option TimeSeriesBlock
  deriving DecidableEq, Repr

structure TSMap where
  series : AList (fun _ : TimeSeriesKey => TimeSeriesStorage)

structure TSMapStats where
  seriesCount : Nat
  totalPoints : Nat
  totalBlocks : Nat
  totalCompressedSize : Nat
  deriving DecidableEq, Repr

structure TimeSeriesStats where
  pointCount : Nat
  blockCount : Nat
  compressedSize : Nat
  deriving DecidableEq, Repr

def TimeSeriesStorage.new (key : TimeSeriesKey) : TimeSeriesStorage where
  key := key
  sealedBlocks := []
  currentBlock := none

/-- `seal_current_block`: the block is taken out first, so an error would lose it. -/
def TimeSeriesStorage.sealCurrentBlock : EStateM StorageError TimeSeriesStorage Unit :=
  fun self =>
    match self.currentBlock with
    | none => .ok () self
    | some block =>
        let self := { self with currentBlock := none }
        match block.seal.compress with
        | .error error => .error error self
        | .ok compressed =>
            if compressed.count > 0 then
              .ok () { self with sealedBlocks := self.sealedBlocks ++ [compressed] }
            else
              .ok () self

/-- The end of `insert_point`: a new block that starts at the point. -/
def TimeSeriesStorage.openBlock (point : DataPoint)
    : EStateM StorageError TimeSeriesStorage Unit :=
  fun self =>
    match TimeSeriesBlock.addPoint point (TimeSeriesBlock.new point.timestamp) with
    | .error error _ => .error error self
    | .ok _ newBlock => .ok () { self with currentBlock := some newBlock }

def TimeSeriesStorage.insertPoint (point : DataPoint)
    : EStateM StorageError TimeSeriesStorage Unit :=
  fun self =>
    match self.currentBlock with
    | none => TimeSeriesStorage.openBlock point self
    | some block =>
        if block.canAccept point.timestamp then
          match TimeSeriesBlock.addPoint point block with
          | .error error block => .error error { self with currentBlock := some block }
          | .ok _ block => .ok () { self with currentBlock := some block }
        else
          -- the old block stays sealed even if the new one refuses the point
          match TimeSeriesStorage.sealCurrentBlock self with
          | .error error self => .error error self
          | .ok _ self => TimeSeriesStorage.openBlock point self

/-- `seal_if_expired` at a clock reading; the result of sealing is discarded. -/
def TimeSeriesStorage.sealIfExpired (self : TimeSeriesStorage) (now : UInt64)
    : TimeSeriesStorage :=
  match self.currentBlock with
  | none => self
  | some block =>
      if block.shouldSeal now then
        match TimeSeriesStorage.sealCurrentBlock self with
        | .error _ self => self
        | .ok _ self => self
      else self

/-- The points of the open block, or none. -/
def TimeSeriesStorage.currentPoints (self : TimeSeriesStorage) : List DataPoint :=
  (self.currentBlock.map TimeSeriesBlock.points).getD []

def TimeSeriesStorage.toTimeSeries (self : TimeSeriesStorage) : TimeSeries where
  key := self.key
  blocks := self.sealedBlocks
  currentBlock := if self.currentPoints.isEmpty then none else some self.currentPoints

/-- The loop of `scan_range` over the sealed blocks. A block outside the range is skipped and
a block inside is not decompressed, so neither adds a point.
-/
def scanSealedBlocks (start finish : UInt64) (points : List DataPoint)
    (blocks : List CompressedBlock)
    : List DataPoint :=
  blocks.foldl
    (fun points block =>
      if block.endTimestamp < start ∨ block.startTimestamp > finish then points else points)
    points

/-- The order of `sort_by_key`, which is stable. -/
def byTimestamp (left right : DataPoint) : Prop := left.timestamp ≤ right.timestamp

instance : DecidableRel byTimestamp :=
  fun left right => inferInstanceAs (Decidable (left.timestamp ≤ right.timestamp))

def TimeSeriesStorage.scanRange (self : TimeSeriesStorage) (start finish : UInt64)
    : Except StorageError (List DataPoint) :=
  let points := scanSealedBlocks start finish [] self.sealedBlocks
  let points := points ++ self.currentPoints.filter fun point =>
    point.timestamp ≥ start && point.timestamp ≤ finish
  .ok (points.insertionSort byTimestamp)

def TimeSeriesStorage.getStats (self : TimeSeriesStorage) : TimeSeriesStats where
  pointCount := self.currentPoints.length + (self.sealedBlocks.map CompressedBlock.count).sum
  blockCount := self.sealedBlocks.length + if self.currentBlock.isSome then 1 else 0
  compressedSize := (self.sealedBlocks.map fun block => block.compressedData.length).sum

def TSMap.new : TSMap := { series := ∅ }

/-- The storage of a key, or the new one that `or_insert_with` makes. -/
def TSMap.storageOf (self : TSMap) (key : TimeSeriesKey) : TimeSeriesStorage :=
  (self.series.lookup key).getD (TimeSeriesStorage.new key)

/-- `insert`: the entry is created before the point is tried, and stays if it is refused. -/
def TSMap.insert (key : TimeSeriesKey) (point : DataPoint) : EStateM StorageError TSMap Unit :=
  fun self =>
    match TimeSeriesStorage.insertPoint point (self.storageOf key) with
    | .error error storage => .error error { series := self.series.insert key storage }
    | .ok _ storage => .ok () { series := self.series.insert key storage }

def TSMap.getSeries (self : TSMap) (key : TimeSeriesKey) : Option TimeSeries :=
  (self.series.lookup key).map TimeSeriesStorage.toTimeSeries

def TSMap.scanRange (self : TSMap) (key : TimeSeriesKey) (start finish : UInt64)
    : Except StorageError (List DataPoint) :=
  if start > finish then .error (.invalidTimeRange start finish)
  else
    match self.series.lookup key with
    | none => .error (.keyNotFound key)
    | some storage => storage.scanRange start finish

def TSMap.keys (self : TSMap) : List TimeSeriesKey := self.series.keys

def TSMap.len (self : TSMap) : Nat := self.series.keys.length

def TSMap.isEmpty (self : TSMap) : Bool := self.series.keys.isEmpty

/-- `seal_expired_blocks`; every storage is visited once and reads the clock on its own. -/
def TSMap.sealExpiredBlocks (self : TSMap) (now : TimeSeriesKey → UInt64) : TSMap where
  series := {
    entries := self.series.entries.map
      (Sigma.map id fun key storage => storage.sealIfExpired (now key))
    nodupKeys := self.series.nodupKeys.map₂ _ _
  }

def TSMap.getStats (self : TSMap) : TSMapStats :=
  let stats := self.series.entries.map fun entry => entry.2.getStats
  {
    seriesCount := self.len
    totalPoints := (stats.map TimeSeriesStats.pointCount).sum
    totalBlocks := (stats.map TimeSeriesStats.blockCount).sum
    totalCompressedSize := (stats.map TimeSeriesStats.compressedSize).sum
  }

end GorillaTsdb.Storage

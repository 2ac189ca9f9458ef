import Mathlib.Algebra.GroupWithZero.Nat
import Mathlib.Data.List.Basic

/-! The data model shared by the storage and query layers.
A 64-bit float is its bit pattern, so NaN payloads and the two zeros are different values.
-/

namespace GorillaTsdb

structure F64 where
  toBits : UInt64
  deriving DecidableEq, Repr

def F64.fromBits (bits : UInt64) : F64 := { toBits := bits }

abbrev TimeSeriesKey := String

structure DataPoint where
  timestamp : UInt64
  value : F64
  deriving DecidableEq, Repr

structure CompressedBlock where
  startTimestamp : UInt64
  endTimestamp : UInt64
  count : Nat
  compressedData : List UInt8
  deriving DecidableEq, Repr

structure TimeSeries where
  key : TimeSeriesKey
  blocks : List CompressedBlock
  currentBlock : Option (List DataPoint)
  deriving DecidableEq, Repr

def TimeSeries.new (key : TimeSeriesKey) : TimeSeries where
  key := key
  blocks := []
  currentBlock := some []

/-- `add_point`: without a current block the point is dropped. -/
def TimeSeries.addPoint (self : TimeSeries) (point : DataPoint) : TimeSeries :=
  match self.currentBlock with
  | none => self
  | some current => { self with currentBlock := some (current ++ [point]) }

/-- `seal_current_block`: the block is taken out, and replaced only if it held a point. -/
def TimeSeries.sealCurrentBlock (self : TimeSeries) : Option (List DataPoint) × TimeSeries :=
  match self.currentBlock with
  | none => (none, self)
  | some points =>
      (some points, { self with currentBlock := if points.isEmpty then none else some [] })

/-- `point_count`: the counts of the blocks and the points of the open block, if any. -/
def TimeSeries.pointCount (self : TimeSeries) : Nat :=
  let blockPoints := (self.blocks.map CompressedBlock.count).sum
  let currentPoints := (self.currentBlock.map List.length).getD 0
  blockPoints + currentPoints

end GorillaTsdb

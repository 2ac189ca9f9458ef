import GorillaTsdb.Foundations.WhileLoops
import GorillaTsdb.Core.FloatArithmetic
import GorillaTsdb.Storage.Block

/-! Windowed aggregation and downsampling of a list of points.
The windows are visited by a loop over their starts, which advance by the window size in
wrapping arithmetic. The loop may run forever, so it takes a bound on its rounds.
-/

namespace GorillaTsdb.Querying

open Foundations.WhileLoops

inductive QueryError where
  | invalidQuery (message : String)
  | timeSeriesNotFound (key : String)
  | invalidTimeRange (start finish : UInt64)
  | storageError (error : Storage.StorageError)
  | aggregationError (message : String)
  deriving DecidableEq, Repr

inductive Aggregation where
  | sum
  | avg
  | min
  | max
  | count
  | first
  | last
  | stdDev
  deriving DecidableEq, Repr

structure AggregatedPoint where
  timestamp : UInt64
  value : F64
  count : Nat
  deriving DecidableEq, Repr

/-- The mean, as `Avg` and `StdDev` compute it. -/
def mean (values : List F64) : F64 := F64.sum values / F64.ofNat values.length

/-- The value reported for a window with the given points, of which there is at least one. -/
def aggregatedValue (aggregation : Aggregation) (firstPoint : DataPoint)
    (rest : List DataPoint)
    : F64 :=
  let values := (firstPoint :: rest).map DataPoint.value
  match aggregation with
  | .sum => F64.sum values
  | .avg => mean values
  | .min => values.foldl F64.min F64.infinity
  | .max => values.foldl F64.max F64.negInfinity
  | .count => F64.ofNat values.length
  | .first => firstPoint.value
  | .last => (rest.getLastD firstPoint).value
  | .stdDev =>
      let mean := mean values
      let variance :=
        F64.sum (values.map fun value => (value - mean) * (value - mean))
          / F64.ofNat values.length
      variance.sqrt

/-- The variables of the loop. -/
structure WindowLoop where
  currentWindowStart : UInt64
  result : List AggregatedPoint
  deriving DecidableEq, Repr

/-- The loop body: the points of one window, reported if there are any. -/
def aggregateWindow (points : List DataPoint) (aggregation : Aggregation)
    (windowSize : UInt64) (self : WindowLoop)
    : WindowLoop :=
  let windowEnd := self.currentWindowStart + windowSize
  let windowPoints := points.filter fun point =>
    point.timestamp ≥ self.currentWindowStart && point.timestamp < windowEnd
  {
    currentWindowStart := windowEnd
    result :=
      match windowPoints with
      | [] => self.result
      | firstPoint :: rest =>
          self.result ++ [{
            timestamp := self.currentWindowStart
            value := aggregatedValue aggregation firstPoint rest
            count := windowPoints.length
          }]
  }

/-- `aggregate_points`, or none if its loop is still running after `fuel` rounds. -/
def aggregatePoints (points : List DataPoint) (aggregation : Aggregation)
    (windowSize : UInt64) (fuel : Nat)
    : Option (Except QueryError (List AggregatedPoint)) :=
  match points with
  | [] => some (.ok [])
  | firstPoint :: rest =>
      let startTime := firstPoint.timestamp
      let endTime := (rest.getLastD firstPoint).timestamp
      (whileLoop (fun self => self.currentWindowStart ≤ endTime)
          (aggregateWindow points aggregation windowSize) fuel
          { currentWindowStart := startTime, result := [] }).map
        fun self => .ok self.result

/-- `Iterator::step_by` for a positive step, with the number of items to skip first. -/
def stepBy {α : Type} (step : Nat) : Nat → List α → List α
  | _, [] => []
  | 0, item :: rest => item :: stepBy step (step - 1) rest
  | skip + 1, _ :: rest => stepBy step skip rest

/-- The loop of `downsample_points`; the point that reaches the limit is still pushed. -/
def downsampleLoop (points : List DataPoint) (maxPoints : Nat)
    : List (Fin points.length) → List DataPoint → List DataPoint
  | [], result => result
  | i :: rest, result =>
      let result := result ++ [points[i]]
      if result.length ≥ maxPoints then result
      else downsampleLoop points maxPoints rest result

def downsamplePoints (points : List DataPoint) (maxPoints : Nat) : List DataPoint :=
  if points.length ≤ maxPoints then points
  else
    let step := (F64.ofNat points.length / F64.ofNat maxPoints).ceil.toUsize
    downsampleLoop points maxPoints (stepBy (max step 1) 0 (List.finRange points.length)) []

end GorillaTsdb.Querying

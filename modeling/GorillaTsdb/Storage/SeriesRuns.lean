import GorillaTsdb.Storage.StoreRuns

/-! Filling and sealing a time series by its own methods.
Sealing an empty block leaves no block behind, and a snapshot without open points has none. A
point that is added then goes nowhere.
-/

namespace GorillaTsdb.Storage

open Foundations.EventHistories

inductive SeriesOp where
  | addPoint (point : DataPoint)
  | sealCurrentBlock
  deriving DecidableEq, Repr

/-- One call; `add_point` returns nothing. -/
def seriesStep (self : TimeSeries) : SeriesOp → Option (List DataPoint) × TimeSeries
  | .addPoint point => (none, self.addPoint point)
  | .sealCurrentBlock => self.sealCurrentBlock

/-- The points in the current block, or none. -/
def heldPoints (self : TimeSeries) : List DataPoint := self.currentBlock.getD []

/-- The points passed to `add_point`, in call order. -/
def addedPoints (operations : List SeriesOp) : List DataPoint :=
  operations.filterMap fun
    | .addPoint point => some point
    | .sealCurrentBlock => none

/-- The lists that the calls of `seal_current_block` returned, one after the other. -/
def sealedPoints (events : List (SeriesOp × Option (List DataPoint))) : List DataPoint :=
  events.flatMap fun event => event.2.getD []

/-- The time series that clients get hold of. -/
def Obtained (series : TimeSeries) : Prop :=
  (∃ key, series = TimeSeries.new key)
  ∨ ∃ operations key, (after TSMap.step TSMap.new operations).getSeries key = some series

/-- A call that adds a point finds a current block. -/
def FindsBlock (self : TimeSeries) (operation : SeriesOp) : Prop :=
  (∃ point, operation = .addPoint point) → self.currentBlock.isSome

/-- A call that adds a point makes the point count grow by one. -/
def CountsPoint (self : TimeSeries) (operation : SeriesOp) : Prop :=
  ∀ point, operation = .addPoint point → (self.addPoint point).pointCount = self.pointCount + 1

/-- The point count grows exactly if there is a block to put the point into. -/
theorem countsPoint_iff (self : TimeSeries) (operation : SeriesOp)
    : CountsPoint self operation ↔ FindsBlock self operation := by
  have added (point : DataPoint)
      : (self.addPoint point).pointCount = self.pointCount + 1 ↔ self.currentBlock.isSome := by
    cases current : self.currentBlock with
    | none => simp [TimeSeries.addPoint, current]
    | some points => simp [TimeSeries.addPoint, TimeSeries.pointCount, current, Nat.add_assoc]
  simp only [CountsPoint, FindsBlock, added, forall_exists_index]

/-- A call that finds its block moves its points only from one place to the next. -/
theorem FindsBlock.conserves {self : TimeSeries} {operation : SeriesOp}
    (finds : FindsBlock self operation)
    : heldPoints self ++ addedPoints [operation]
      = (seriesStep self operation).1.getD [] ++ heldPoints (seriesStep self operation).2 := by
  cases operation with
  | addPoint point =>
      obtain ⟨points, current⟩ := Option.isSome_iff_exists.mp (finds ⟨point, rfl⟩)
      simp [seriesStep, heldPoints, addedPoints, TimeSeries.addPoint, current]
  | sealCurrentBlock =>
      cases current : self.currentBlock with
      | none => simp [seriesStep, heldPoints, addedPoints, TimeSeries.sealCurrentBlock, current]
      | some points =>
          cases points <;>
            simp [seriesStep, heldPoints, addedPoints, TimeSeries.sealCurrentBlock, current]

/-- A run whose calls find their blocks conserves the points, by induction on the calls. -/
theorem conserves_of_findsBlock (self : TimeSeries) (operations : List SeriesOp)
    (finds : AllSteps seriesStep FindsBlock self operations)
    : heldPoints self ++ addedPoints operations
      = sealedPoints (history seriesStep self operations)
        ++ heldPoints (after seriesStep self operations) := by
  induction operations generalizing self with
  | nil => simp [addedPoints, sealedPoints, history, after]
  | cons operation rest ih =>
      calc heldPoints self ++ addedPoints (operation :: rest)
          = (heldPoints self ++ addedPoints [operation]) ++ addedPoints rest := by
            rw [List.append_assoc, addedPoints, addedPoints, addedPoints, ← List.filterMap_append]
            rfl
        _ = (seriesStep self operation).1.getD []
              ++ (heldPoints (seriesStep self operation).2 ++ addedPoints rest) := by
            rw [finds.1.conserves, List.append_assoc]
        _ = _ := by
            rw [ih _ finds.2, ← List.append_assoc]
            rfl

/-- A run of calls conserves the points and counts every added one exactly if every call that
adds a point finds a current block.
-/
theorem series_keeps_points_iff (series : TimeSeries) (operations : List SeriesOp)
    : (heldPoints series ++ addedPoints operations
          = sealedPoints (history seriesStep series operations)
            ++ heldPoints (after seriesStep series operations)
        ∧ AllSteps seriesStep CountsPoint series operations)
      ↔ AllSteps seriesStep FindsBlock series operations := by
  rw [allSteps_congr countsPoint_iff]
  exact and_iff_right_of_imp (conserves_of_findsBlock series operations)

/-- A new series that is sealed before the first point loses every point. -/
theorem series_drops_points
    : ¬ (∀ series operations,
          Obtained series
          → heldPoints series ++ addedPoints operations
              = sealedPoints (history seriesStep series operations)
                ++ heldPoints (after seriesStep series operations)
            ∧ AllSteps seriesStep CountsPoint series operations) := by
  intro keeps
  have conserved := (keeps (TimeSeries.new "metric")
    [.sealCurrentBlock, .addPoint ⟨1000, ⟨1⟩⟩] (Or.inl ⟨"metric", rfl⟩)).1
  exact absurd conserved (by decide)

end GorillaTsdb.Storage

import GorillaTsdb.Foundations.ModularOrbits
import GorillaTsdb.Querying.Engine
import GorillaTsdb.Storage.StoreRuns

/-! When queries terminate.
The window start is a counter that wraps at `2 ^ 64`. The loop ends once the counter passes the
last point, which a window size of zero, or one with a large common divisor with the modulus,
can prevent.
-/

namespace GorillaTsdb.Querying

open Foundations.EventHistories
open Foundations.ModularOrbits
open Foundations.WhileLoops
open GorillaTsdb.Storage

/-- The window start is a counter modulo `2 ^ 64`, by induction on the rounds. -/
theorem currentWindowStart_iterate (points : List DataPoint) (aggregation : Aggregation)
    (windowSize : UInt64) (loop : WindowLoop) (rounds : Nat)
    : ((aggregateWindow points aggregation windowSize)^[rounds] loop).currentWindowStart.toNat
      = orbit loop.currentWindowStart.toNat windowSize.toNat (2 ^ 64) rounds := by
  induction rounds with
  | zero => simp [orbit, Nat.mod_eq_of_lt loop.currentWindowStart.toNat_lt]
  | succ rounds ih =>
      rw [Function.iterate_succ_apply', aggregateWindow, UInt64.toNat_add, ih, orbit, orbit,
        Nat.mod_add_mod, Nat.add_assoc, Nat.succ_mul]

/-- The largest start of a window for this first point is behind the last point. -/
def PassesEnd (points : List DataPoint) (windowSize : UInt64) : Prop :=
  match points with
  | [] => True
  | firstPoint :: rest =>
      (rest.getLastD firstPoint).timestamp.toNat
        < orbitTop firstPoint.timestamp.toNat windowSize.toNat (2 ^ 64)

/-- The loop of `aggregate_points` terminates exactly if a window starts behind the last
point.
-/
theorem aggregatePoints_terminates_iff (points : List DataPoint) (aggregation : Aggregation)
    (windowSize : UInt64)
    : (∃ fuel, (aggregatePoints points aggregation windowSize fuel).isSome)
      ↔ PassesEnd points windowSize := by
  cases points with
  | nil => exact iff_of_true ⟨0, rfl⟩ trivial
  | cons firstPoint rest =>
      simp only [aggregatePoints, Option.isSome_map, whileLoop_terminates_iff, PassesEnd]
      rw [← exists_lt_orbit_iff _ _ (Nat.two_pow_pos 64)]
      refine exists_congr fun rounds => ?_
      rw [decide_eq_false_iff_not, UInt64.not_le, UInt64.lt_iff_toNat_lt,
        currentWindowStart_iterate]

/-- The points that a query selects: those of its range, as far as its limit admits them. -/
def QueryEngine.selectedPoints (self : QueryEngine) (query : Query) : List DataPoint :=
  match self.storage.scanRange query.key query.startTime query.endTime with
  | .error _ => []
  | .ok points => query.sample points

theorem Query.sample_nil (query : Query) : query.sample [] = [] := by
  unfold Query.sample
  cases query.maxPoints <;> rfl

/-- The windows of a query pass its last point, or it has no windows. -/
def QueryEngine.WindowsPassEnd (self : QueryEngine) (query : Query) : Prop :=
  query.aggregation.isSome
  → ∀ windowSize ∈ query.windowSize, PassesEnd (self.selectedPoints query) windowSize

/-- A validated query terminates exactly if its windows pass its last point: the branches of
`execute` without windows answer at once.
-/
theorem QueryEngine.execute_terminates_iff_passes (self : QueryEngine) {query : Query}
    (valid : query.validate = .ok ())
    : (∃ fuel, (self.execute query fuel).isSome) ↔ self.WindowsPassEnd query := by
  have atOnce {answer : Except QueryError QueryResult}
      (executed : ∀ fuel, self.execute query fuel = some answer)
      (passes : self.WindowsPassEnd query)
      : (∃ fuel, (self.execute query fuel).isSome) ↔ self.WindowsPassEnd query :=
    iff_of_true ⟨0, Option.isSome_of_eq_some (executed 0)⟩ passes
  rcases self.execute_cases valid with ⟨error, scanned, executed⟩ | ⟨scanned, executed⟩
    | ⟨points, scanned, -, plain, executed⟩
    | ⟨points, aggregation, windowSize, scanned, -, aggregates, sized, executed⟩
  · refine atOnce executed fun _ windowSize _ => ?_
    simp only [QueryEngine.selectedPoints, scanned, PassesEnd]
  · refine atOnce executed fun _ windowSize _ => ?_
    simp only [QueryEngine.selectedPoints, scanned, query.sample_nil, PassesEnd]
  · refine atOnce executed fun aggregates => ?_
    rw [plain] at aggregates
    cases aggregates
  · have selected : self.selectedPoints query = query.sample points := by
      rw [QueryEngine.selectedPoints, scanned]
    simp only [executed, Option.isSome_map, aggregatePoints_terminates_iff,
      QueryEngine.WindowsPassEnd, aggregates, sized, selected, Option.isSome_some, forall_const,
      Option.mem_def, Option.some.injEq, forall_eq']

/-- After any run, a validated query terminates exactly if it does not aggregate, selects no
point, or has windows that pass its last point.
-/
theorem execute_terminates_iff (operations : List StoreOp) (query : Query)
    (valid : query.validate = .ok ())
    : let engine : QueryEngine := { storage := after TSMap.step TSMap.new operations }
      (∃ fuel, (engine.execute query fuel).isSome) ↔ engine.WindowsPassEnd query := by
  intro engine
  exact engine.execute_terminates_iff_passes valid

theorem execute_terminates_iff_sample
    : let operations : List StoreOp := [
        .insert "metric" ⟨1000, .ofNat 10⟩, .insert "metric" ⟨1100, .ofNat 20⟩
      ]
      let engine : QueryEngine := { storage := after TSMap.step TSMap.new operations }
      let query := (Query.new "metric" 0 2000).withAggregation .avg 60
      ∃ fuel, (engine.execute query fuel).isSome := by
  intro operations engine query
  refine (execute_terminates_iff operations query rfl).mpr ?_
  intro _ windowSize sized
  cases sized
  change (1100 : UInt64).toNat < orbitTop (1000 : UInt64).toNat (60 : UInt64).toNat (2 ^ 64)
  decide

/-- A query with windows of size zero over one point is validated and never answered. -/
theorem execute_hangs
    : ¬ (∀ (operations : List StoreOp) (query : Query),
          query.validate = .ok ()
          → ∃ fuel,
              (QueryEngine.execute { storage := after TSMap.step TSMap.new operations } query
                fuel).isSome) := by
  intro terminates
  let operations : List StoreOp := [.insert "metric" ⟨1000, .ofNat 10⟩]
  let query := (Query.new "metric" 0 2000).withAggregation .avg 0
  have passes := (QueryEngine.execute_terminates_iff_passes _ rfl).mp
    (terminates operations query rfl)
  have passed : (1000 : UInt64).toNat
      < orbitTop (1000 : UInt64).toNat (0 : UInt64).toNat (2 ^ 64) := passes rfl 0 rfl
  exact absurd passed (by decide)

end GorillaTsdb.Querying

import GorillaTsdb.Querying.Engine
import GorillaTsdb.Storage.RangeQueries

/-! The kind of an answer.
A query that finds no point is answered with an empty list of raw points, before its aggregation
is looked at. A sealed point is not found, so the kind depends on what is still in the open block.
-/

namespace GorillaTsdb.Querying

open Foundations.EventHistories
open GorillaTsdb.Storage

/-- The answer is aggregated if and only if the query asks for that. -/
def Query.KindMatches (self : Query) (result : QueryResult) : Prop :=
  (∃ reports, result = .aggregated reports) ↔ self.aggregation.isSome

theorem Query.kindMatches_points (query : Query) (points : List DataPoint)
    : query.KindMatches (.points points) ↔ query.aggregation = none := by
  have raw : ¬ ∃ reports, QueryResult.points points = .aggregated reports := by
    intro made
    obtain ⟨reports, same⟩ := made
    cases same
  rw [Query.KindMatches, iff_false_left raw, Option.not_isSome_iff_eq_none]

theorem Query.kindMatches_aggregated (query : Query) (reports : List AggregatedPoint)
    : query.KindMatches (.aggregated reports) ↔ query.aggregation.isSome :=
  iff_true_left ⟨reports, rfl⟩

/-- The open block of the series holds a point in range. -/
def QueryEngine.HoldsOpenPoint (self : QueryEngine) (query : Query) : Prop :=
  ∃ point ∈ (self.storage.storageOf query.key).currentPoints,
    query.startTime ≤ point.timestamp ∧ point.timestamp ≤ query.endTime

/-- An answered scan is empty exactly if the open block holds no point in range. -/
theorem QueryEngine.scan_ne_nil_iff {self : QueryEngine} {query : Query}
    {points : List DataPoint}
    (scanned : self.storage.scanRange query.key query.startTime query.endTime = .ok points)
    : points ≠ [] ↔ self.HoldsOpenPoint query := by
  obtain ⟨-, -, rfl⟩ := TSMap.scanRange_eq_ok.mp scanned
  have same := List.perm_insertionSort byTimestamp
    ((self.storage.storageOf query.key).currentPoints.filter
      (inRange query.startTime query.endTime))
  rw [← List.length_pos_iff, same.length_eq, List.length_filter_pos_iff]
  simp only [inRange, Bool.and_eq_true, decide_eq_true_eq, ge_iff_le, QueryEngine.HoldsOpenPoint]

/-- The kind of an answer is right exactly if the query does not aggregate or finds a point. -/
theorem QueryEngine.kindMatches_iff {self : QueryEngine} {query : Query} {fuel : Nat}
    {result : QueryResult} (answered : self.execute query fuel = some (.ok result))
    : query.KindMatches result ↔ query.aggregation = none ∨ self.HoldsOpenPoint query := by
  rcases QueryEngine.execute_eq_ok answered with ⟨scanned, rfl⟩
    | ⟨points, scanned, holds, plain, rfl⟩
    | ⟨points, aggregation, windowSize, reports, scanned, holds, aggregates, -, -, rfl⟩
  · have missing := (QueryEngine.scan_ne_nil_iff scanned).not.mp (not_not.mpr rfl)
    rw [Query.kindMatches_points, or_iff_left missing]
  · exact iff_of_true ((query.kindMatches_points _).mpr plain) (Or.inl plain)
  · refine iff_of_true ?_ (Or.inr ((QueryEngine.scan_ne_nil_iff scanned).mp holds))
    exact (query.kindMatches_aggregated reports).mpr (Option.isSome_of_eq_some aggregates)

/-- After any run, the kind of every answer is right exactly if the query does not aggregate or
the open block of its series holds a point in range, for a single query and for each of several.
-/
theorem answer_kind_iff (operations : List StoreOp)
    : let engine : QueryEngine := { storage := after TSMap.step TSMap.new operations }
      (∀ query fuel result,
        engine.execute query fuel = some (.ok result)
        → (query.KindMatches result
          ↔ query.aggregation = none ∨ engine.HoldsOpenPoint query))
      ∧ ∀ queries fuel answers,
          engine.executeMulti queries fuel = some (.ok answers)
          → List.Forall₂
              (fun query answer =>
                answer.1 = query.key
                ∧ (query.KindMatches answer.2
                  ↔ query.aggregation = none ∨ engine.HoldsOpenPoint query))
              queries answers := by
  intro engine
  refine ⟨?_, ?_⟩
  · intro query fuel result answered
    exact QueryEngine.kindMatches_iff answered
  · intro queries fuel answers ran
    refine (QueryEngine.executeMulti_eq_ok ran).imp ?_
    intro query answer answered
    exact ⟨answered.1, QueryEngine.kindMatches_iff answered.2⟩

/-- A query for raw points and one for sums, over a stored point. -/
theorem answer_kind_iff_sample
    : let engine : QueryEngine := {
        storage := after TSMap.step TSMap.new [.insert "metric" ⟨1000, ⟨1⟩⟩]
      }
      let query := (Query.new "metric" 0 2000).withMaxPoints 1
      query.KindMatches (.points [⟨1000, ⟨1⟩⟩])
      ∧ List.Forall₂
          (fun query answer =>
            answer.1 = query.key
            ∧ (query.KindMatches answer.2
              ↔ query.aggregation = none ∨ engine.HoldsOpenPoint query))
          [query] [("metric", .points [⟨1000, ⟨1⟩⟩])] := by
  intro engine query
  have kinds := answer_kind_iff [.insert "metric" ⟨1000, ⟨1⟩⟩]
  exact ⟨(kinds.1 query 0 _ rfl).mpr (Or.inl rfl), kinds.2 [query] 0 _ rfl⟩

/-- A sum over a range of an existing series without points is answered with raw points. -/
theorem empty_range_answered_raw
    : ¬ (∀ (operations : List StoreOp) (query : Query) (fuel : Nat) (result : QueryResult),
          let engine : QueryEngine := { storage := after TSMap.step TSMap.new operations }
          engine.execute query fuel = some (.ok result) → query.KindMatches result) := by
  intro matched
  have kind := matched [.insert "metric" ⟨1000, ⟨1⟩⟩]
    ((Query.new "metric" 2000 3000).withAggregation .sum 60) 0 (.points []) rfl
  cases (Query.kindMatches_points _ []).mp kind

end GorillaTsdb.Querying

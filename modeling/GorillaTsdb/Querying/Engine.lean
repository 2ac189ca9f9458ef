import GorillaTsdb.Querying.Aggregation
import GorillaTsdb.Storage.Memory

/-! Queries on the store: validation, range scan, downsampling and aggregation.
Executing a query reads the store and leaves it unchanged.
-/

namespace GorillaTsdb.Querying

open GorillaTsdb.Storage

structure Query where
  key : TimeSeriesKey
  startTime : UInt64
  endTime : UInt64
  aggregation : Option Aggregation
  windowSize : Option UInt64
  maxPoints : Option Nat
  deriving DecidableEq, Repr

def Query.new (key : TimeSeriesKey) (startTime endTime : UInt64) : Query where
  key := key
  startTime := startTime
  endTime := endTime
  aggregation := none
  windowSize := none
  maxPoints := none

def Query.withAggregation (self : Query) (aggregation : Aggregation) (windowSize : UInt64)
    : Query :=
  { self with aggregation := some aggregation, windowSize := some windowSize }

def Query.withMaxPoints (self : Query) (maxPoints : Nat) : Query :=
  { self with maxPoints := some maxPoints }

/-- `validate`; the size of a window is not looked at. -/
def Query.validate (self : Query) : Except QueryError Unit :=
  if self.startTime > self.endTime then
    .error (.invalidTimeRange self.startTime self.endTime)
  else if self.aggregation.isSome && self.windowSize.isNone then
    .error (.invalidQuery "Aggregation requires window_size")
  else .ok ()

/-- What a validated query promises to the `unwrap` of its window size. -/
theorem Query.windowSize_isSome {query : Query} (valid : query.validate = .ok ())
    (aggregates : query.aggregation.isSome)
    : query.windowSize.isSome := by
  unfold Query.validate at valid
  split at valid
  case isTrue => cases valid
  case isFalse =>
    split at valid
    case isTrue => cases valid
    case isFalse complete =>
      rw [aggregates, Bool.true_and, Option.isNone_iff_eq_none] at complete
      exact Option.isSome_iff_ne_none.mpr complete

/-- The aggregation of a validated query with its window size, which `unwrap` takes out. -/
def Query.windowing (self : Query) (valid : self.validate = .ok ())
    : Option (Aggregation × UInt64) :=
  match aggregates : self.aggregation with
  | none => none
  | some aggregation =>
      some (aggregation,
        self.windowSize.get (self.windowSize_isSome valid (Option.isSome_of_eq_some aggregates)))

theorem Query.windowing_eq_none (self : Query) (valid : self.validate = .ok ())
    : self.windowing valid = none ↔ self.aggregation = none := by
  unfold Query.windowing
  split
  case h_1 plain => simp [plain]
  case h_2 aggregation aggregates => simp [aggregates]

theorem Query.windowing_eq_some (self : Query) (valid : self.validate = .ok ())
    (aggregation : Aggregation) (windowSize : UInt64)
    : self.windowing valid = some (aggregation, windowSize)
      ↔ self.aggregation = some aggregation ∧ self.windowSize = some windowSize := by
  unfold Query.windowing
  split
  case h_1 plain => simp [plain]
  case h_2 other aggregates =>
    obtain ⟨size, sized⟩ := Option.isSome_iff_exists.mp
      (self.windowSize_isSome valid (Option.isSome_of_eq_some aggregates))
    simp only [aggregates, sized, Option.get_some, Option.some.injEq, Prod.mk.injEq]

/-- The limit on the number of points, if the query has one. -/
def Query.sample (self : Query) (points : List DataPoint) : List DataPoint :=
  match self.maxPoints with
  | some maxPoints => downsamplePoints points maxPoints
  | none => points

inductive QueryResult where
  | points (points : List DataPoint)
  | aggregated (points : List AggregatedPoint)
  deriving DecidableEq, Repr

def QueryResult.len : QueryResult → Nat
  | .points found => found.length
  | .aggregated found => found.length

def QueryResult.isEmpty (self : QueryResult) : Bool := self.len == 0

structure QueryEngine where
  storage : TSMap

def QueryEngine.new (storage : TSMap) : QueryEngine := { storage }

def QueryEngine.getStorageStats (self : QueryEngine) : TSMapStats := self.storage.getStats

/-- `execute`, or none if the loop of the aggregation is still running after `fuel` rounds. -/
def QueryEngine.execute (self : QueryEngine) (query : Query) (fuel : Nat)
    : Option (Except QueryError QueryResult) :=
  match valid : query.validate with
  | .error error => some (.error error)
  | .ok () =>
      match self.storage.scanRange query.key query.startTime query.endTime with
      | .error error => some (.error (.storageError error))
      | .ok points =>
          if points.isEmpty then some (.ok (.points points))
          else
            let points := query.sample points
            match query.windowing valid with
            | some (aggregation, windowSize) =>
                (aggregatePoints points aggregation windowSize fuel).map
                  (Except.map QueryResult.aggregated)
            | none => some (.ok (.points points))

/-- The part of `execute` behind the validation. -/
theorem QueryEngine.execute_of_valid (self : QueryEngine) {query : Query}
    (valid : query.validate = .ok ()) (fuel : Nat)
    : self.execute query fuel
      = match self.storage.scanRange query.key query.startTime query.endTime with
        | .error error => some (.error (.storageError error))
        | .ok points =>
            if points.isEmpty then some (.ok (.points points))
            else
              match query.windowing valid with
              | some (aggregation, windowSize) =>
                  (aggregatePoints (query.sample points) aggregation windowSize fuel).map
                    (Except.map QueryResult.aggregated)
              | none => some (.ok (.points (query.sample points))) := by
  unfold QueryEngine.execute
  split
  case h_1 refused =>
    rw [valid] at refused
    cases refused
  case h_2 => rfl

/-- What a validated query comes to: an error of the scan, no points, the points themselves or
their windows. Only the last case depends on the bound.
-/
theorem QueryEngine.execute_cases (self : QueryEngine) {query : Query}
    (valid : query.validate = .ok ())
    : (∃ error,
          self.storage.scanRange query.key query.startTime query.endTime = .error error
          ∧ ∀ fuel, self.execute query fuel = some (.error (.storageError error)))
      ∨ (self.storage.scanRange query.key query.startTime query.endTime = .ok []
          ∧ ∀ fuel, self.execute query fuel = some (.ok (.points [])))
      ∨ (∃ points,
          self.storage.scanRange query.key query.startTime query.endTime = .ok points
          ∧ points ≠ []
          ∧ query.aggregation = none
          ∧ ∀ fuel, self.execute query fuel = some (.ok (.points (query.sample points))))
      ∨ ∃ points aggregation windowSize,
          self.storage.scanRange query.key query.startTime query.endTime = .ok points
          ∧ points ≠ []
          ∧ query.aggregation = some aggregation
          ∧ query.windowSize = some windowSize
          ∧ ∀ fuel,
              self.execute query fuel
              = (aggregatePoints (query.sample points) aggregation windowSize fuel).map
                  (Except.map QueryResult.aggregated) := by
  have executed := self.execute_of_valid valid
  rcases scanned : self.storage.scanRange query.key query.startTime query.endTime
    with error | points
  · refine .inl ⟨error, rfl, ?_⟩
    intro fuel
    rw [executed, scanned]
  · refine .inr ?_
    cases points with
    | nil =>
        refine .inl ⟨rfl, ?_⟩
        intro fuel
        rw [executed, scanned]
        rfl
    | cons first rest =>
        refine .inr ?_
        have holds : first :: rest ≠ [] := List.cons_ne_nil first rest
        rcases windowed : query.windowing valid with _ | ⟨aggregation, windowSize⟩
        · have plain := (query.windowing_eq_none valid).mp windowed
          refine .inl ⟨_, rfl, holds, plain, ?_⟩
          intro fuel
          rw [executed, scanned, windowed]
          rfl
        · obtain ⟨aggregates, sized⟩ := (query.windowing_eq_some valid _ _).mp windowed
          refine .inr ⟨_, aggregation, windowSize, rfl, holds, aggregates, sized, ?_⟩
          intro fuel
          rw [executed, scanned, windowed]
          rfl

/-- Only a validated query is answered with points. -/
theorem QueryEngine.valid_of_execute {self : QueryEngine} {query : Query} {fuel : Nat}
    {result : QueryResult} (answered : self.execute query fuel = some (.ok result))
    : query.validate = .ok () := by
  cases valid : query.validate with
  | ok _ => rfl
  | error error =>
      unfold QueryEngine.execute at answered
      split at answered
      case h_1 => cases answered
      case h_2 accepted => exact valid.symm.trans accepted

/-- What an answered query comes from. -/
theorem QueryEngine.execute_eq_ok {self : QueryEngine} {query : Query} {fuel : Nat}
    {result : QueryResult} (answered : self.execute query fuel = some (.ok result))
    : (self.storage.scanRange query.key query.startTime query.endTime = .ok []
        ∧ result = .points [])
      ∨ (∃ points,
          self.storage.scanRange query.key query.startTime query.endTime = .ok points
          ∧ points ≠ []
          ∧ query.aggregation = none
          ∧ result = .points (query.sample points))
      ∨ ∃ points aggregation windowSize reports,
          self.storage.scanRange query.key query.startTime query.endTime = .ok points
          ∧ points ≠ []
          ∧ query.aggregation = some aggregation
          ∧ query.windowSize = some windowSize
          ∧ aggregatePoints (query.sample points) aggregation windowSize fuel
            = some (.ok reports)
          ∧ result = .aggregated reports := by
  rcases self.execute_cases (QueryEngine.valid_of_execute answered) with
    ⟨error, -, executed⟩ | ⟨scanned, executed⟩ | ⟨points, scanned, holds, plain, executed⟩
    | ⟨points, aggregation, windowSize, scanned, holds, aggregates, sized, executed⟩
  · cases (executed fuel).symm.trans answered
  · cases (executed fuel).symm.trans answered
    exact .inl ⟨scanned, rfl⟩
  · cases (executed fuel).symm.trans answered
    exact .inr (.inl ⟨points, scanned, holds, plain, rfl⟩)
  · obtain ⟨reported, ran, made⟩ :=
      Option.map_eq_some_iff.mp ((executed fuel).symm.trans answered)
    cases reported with
    | error error => cases made
    | ok reports =>
        cases made
        exact .inr (.inr ⟨points, aggregation, windowSize, reports, scanned, holds, aggregates,
          sized, ran, rfl⟩)

/-- The loop of `execute_multi`; the first error ends it and drops the earlier results. -/
def QueryEngine.executeMultiLoop (self : QueryEngine) (fuel : Nat)
    : List Query
      → List (TimeSeriesKey × QueryResult)
      → Option (Except QueryError (List (TimeSeriesKey × QueryResult)))
  | [], results => some (.ok results)
  | query :: rest, results =>
      match self.execute query fuel with
      | none => none
      | some (.error error) => some (.error error)
      | some (.ok result) => self.executeMultiLoop fuel rest (results ++ [(query.key, result)])

/-- `execute_multi`, or none if an aggregation is still running after `fuel` rounds. -/
def QueryEngine.executeMulti (self : QueryEngine) (queries : List Query) (fuel : Nat)
    : Option (Except QueryError (List (TimeSeriesKey × QueryResult))) :=
  self.executeMultiLoop fuel queries []

/-- The result of a query of `execute_multi`, with its key. -/
def QueryEngine.Answers (self : QueryEngine) (fuel : Nat) (query : Query)
    (answer : TimeSeriesKey × QueryResult)
    : Prop :=
  answer.1 = query.key ∧ self.execute query fuel = some (.ok answer.2)

/-- The loop adds one answer for each query, by induction on the queries. -/
theorem QueryEngine.executeMultiLoop_eq_ok {self : QueryEngine} {fuel : Nat}
    {queries : List Query} {results answered : List (TimeSeriesKey × QueryResult)}
    (ran : self.executeMultiLoop fuel queries results = some (.ok answered))
    : ∃ answers,
        answered = results ++ answers
        ∧ List.Forall₂ (self.Answers fuel) queries answers := by
  induction queries generalizing results with
  | nil =>
      cases ran
      exact ⟨[], (List.append_nil _).symm, .nil⟩
  | cons query rest ih =>
      rw [QueryEngine.executeMultiLoop] at ran
      split at ran
      case h_1 => cases ran
      case h_2 => cases ran
      case h_3 result executed =>
        obtain ⟨answers, rfl, later⟩ := ih ran
        refine ⟨(query.key, result) :: answers, List.append_assoc .., ?_⟩
        exact .cons ⟨rfl, executed⟩ later

/-- An answer to several queries consists of the answers to each of them. -/
theorem QueryEngine.executeMulti_eq_ok {self : QueryEngine} {fuel : Nat}
    {queries : List Query} {answers : List (TimeSeriesKey × QueryResult)}
    (ran : self.executeMulti queries fuel = some (.ok answers))
    : List.Forall₂ (self.Answers fuel) queries answers := by
  obtain ⟨answered, rfl, each⟩ := QueryEngine.executeMultiLoop_eq_ok ran
  exact each

end GorillaTsdb.Querying

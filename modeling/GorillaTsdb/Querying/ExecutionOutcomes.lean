import GorillaTsdb.Foundations.FueledPrograms
import GorillaTsdb.Querying.Termination
import GorillaTsdb.Querying.Windows

/-! What becomes of queries: they are refused, run forever or are answered.
A list of queries comes as far as its first query that is not answered.
-/

namespace GorillaTsdb.Querying

open Foundations.FueledPrograms
open GorillaTsdb.Storage

/-- What a query is refused for: its range, its missing window size or its key, in this order. -/
inductive QueryEngine.Refuses (self : QueryEngine) (query : Query) : QueryError → Prop where
  | range (reversed : query.endTime < query.startTime)
      : self.Refuses query (.invalidTimeRange query.startTime query.endTime)
  | windowSize (ordered : query.startTime ≤ query.endTime)
      (aggregates : query.aggregation.isSome) (unsized : query.windowSize = none)
      : self.Refuses query (.invalidQuery "Aggregation requires window_size")
  | key (valid : query.validate = .ok ()) (unknown : query.key ∉ self.storage.keys)
      : self.Refuses query (.storageError (.keyNotFound query.key))

structure QueryEngine.Accepts (engine : QueryEngine) (query : Query) : Prop where
  ordered : query.startTime ≤ query.endTime
  sized : query.aggregation.isSome → query.windowSize.isSome
  known : query.key ∈ engine.storage.keys

-----------------------------------------------------------------------------------------
-- One query
-----------------------------------------------------------------------------------------

theorem Query.validate_eq_ok {query : Query}
    : query.validate = .ok ()
      ↔ query.startTime ≤ query.endTime
        ∧ (query.aggregation.isSome → query.windowSize.isSome) := by
  rw [Query.validate]
  split
  case isTrue reversed =>
    exact iff_of_false nofun fun valid => absurd valid.1 (UInt64.not_le.mpr reversed)
  case isFalse ordered =>
    have ordered : query.startTime ≤ query.endTime := UInt64.not_lt.mp ordered
    cases query.aggregation.isSome <;> cases query.windowSize <;> simp [ordered]

section Outcomes

variable {self : QueryEngine} {query : Query}

theorem QueryEngine.accepts_iff
    : self.Accepts query ↔ query.validate = .ok () ∧ query.key ∈ self.storage.keys := by
  rw [Query.validate_eq_ok]
  exact ⟨fun accepts => ⟨⟨accepts.ordered, accepts.sized⟩, accepts.known⟩,
    fun ⟨⟨ordered, sized⟩, known⟩ => ⟨ordered, sized, known⟩⟩

theorem QueryEngine.accepts_or_refuses (self : QueryEngine) (query : Query)
    : self.Accepts query ∨ ∃ error, self.Refuses query error := by
  by_cases ordered : query.startTime ≤ query.endTime
  · by_cases sized : query.aggregation.isSome → query.windowSize.isSome
    · by_cases known : query.key ∈ self.storage.keys
      · exact .inl ⟨ordered, sized, known⟩
      · exact .inr ⟨_, .key (Query.validate_eq_ok.mpr ⟨ordered, sized⟩) known⟩
    · obtain ⟨aggregates, unsized⟩ := Classical.not_imp.mp sized
      exact .inr ⟨_, .windowSize ordered aggregates (Option.not_isSome_iff_eq_none.mp unsized)⟩
  · exact .inr ⟨_, .range (UInt64.not_le.mp ordered)⟩

/-- A range of a known key is read without an error. -/
theorem scanRange_known {store : TSMap} {key : TimeSeriesKey} {start finish : UInt64}
    (ordered : start ≤ finish) (known : key ∈ store.keys)
    : ∃ points, store.scanRange key start finish = .ok points := by
  rw [TSMap.scanRange, if_neg (UInt64.not_lt.mpr ordered)]
  obtain ⟨storage, found⟩ := Option.isSome_iff_exists.mp (AList.lookup_isSome.mpr known)
  exact ⟨_, by rw [found]; rfl⟩

theorem scanRange_unknown {store : TSMap} {key : TimeSeriesKey} {start finish : UInt64}
    (ordered : start ≤ finish) (unknown : key ∉ store.keys)
    : store.scanRange key start finish = .error (.keyNotFound key) := by
  rw [TSMap.scanRange, if_neg (UInt64.not_lt.mpr ordered), AList.lookup_eq_none.mpr unknown]

/-- A refused query is refused at once. -/
theorem QueryEngine.Refuses.execute {error : QueryError} (refuses : self.Refuses query error)
    (fuel : Nat)
    : self.execute query fuel = some (.error error) := by
  have invalid {error : QueryError} (refused : query.validate = .error error)
      : self.execute query fuel = some (.error error) := by
    unfold QueryEngine.execute
    split
    case h_1 other =>
      have same := Except.error.inj (other.symm.trans refused)
      rw [same]
    case h_2 accepted => cases accepted.symm.trans refused
  cases refuses with
  | range reversed => exact invalid (if_pos reversed)
  | windowSize ordered aggregates unsized =>
      refine invalid ((if_neg (UInt64.not_lt.mpr ordered)).trans (if_pos ?_))
      rw [aggregates, unsized]
      rfl
  | key valid unknown =>
      rw [self.execute_of_valid valid, scanRange_unknown (Query.validate_eq_ok.mp valid).1 unknown]

/-- The loop of an aggregation ends without an error. -/
theorem aggregatePoints_ne_error {points : List DataPoint} {aggregation : Aggregation}
    {windowSize : UInt64} {fuel : Nat} {error : QueryError}
    : aggregatePoints points aggregation windowSize fuel ≠ some (.error error) := by
  intro failed
  cases points with
  | nil => cases failed
  | cons firstPoint rest =>
      obtain ⟨_, -, made⟩ := Option.map_eq_some_iff.mp failed
      cases made

/-- An accepted query never fails, by cases on what it comes to. -/
theorem QueryEngine.Accepts.execute (accepts : self.Accepts query) {fuel : Nat}
    {error : QueryError}
    : self.execute query fuel ≠ some (.error error) := by
  intro failed
  have valid := (QueryEngine.accepts_iff.mp accepts).1
  obtain ⟨read, known⟩ := scanRange_known accepts.ordered accepts.known
  rcases self.execute_cases valid with ⟨_, scanned, -⟩ | ⟨-, executed⟩ | ⟨_, -, -, -, executed⟩
    | ⟨points, aggregation, windowSize, -, -, -, -, executed⟩
  · cases known.symm.trans scanned
  · cases (executed fuel).symm.trans failed
  · cases (executed fuel).symm.trans failed
  · obtain ⟨_ | _, ran, made⟩ := Option.map_eq_some_iff.mp ((executed fuel).symm.trans failed)
    · exact aggregatePoints_ne_error ran
    · cases made

/-- A larger bound does not change what becomes of a query. -/
theorem QueryEngine.stable_execute (self : QueryEngine) (query : Query)
    : Stable (self.execute query) := by
  intro fuel more answer enough ran
  rcases self.accepts_or_refuses query with accepts | ⟨error, refuses⟩
  · have valid := (QueryEngine.accepts_iff.mp accepts).1
    rcases self.execute_cases valid with ⟨_, -, executed⟩ | ⟨-, executed⟩ | ⟨_, -, -, -, executed⟩
      | ⟨points, aggregation, windowSize, -, -, -, -, executed⟩
    · exact (executed more).trans ((executed fuel).symm.trans ran)
    · exact (executed more).trans ((executed fuel).symm.trans ran)
    · exact (executed more).trans ((executed fuel).symm.trans ran)
    · obtain ⟨reports, looped, made⟩ :=
        Option.map_eq_some_iff.mp ((executed fuel).symm.trans ran)
      rw [executed more, aggregatePoints_mono enough looped]
      exact congrArg some made
  · exact (refuses.execute more).trans ((refuses.execute fuel).symm.trans ran)

theorem QueryEngine.execute_fails_iff {error : QueryError}
    : Returns (self.execute query) (.error error) ↔ self.Refuses query error := by
  constructor
  · rintro ⟨fuel, failed⟩
    rcases self.accepts_or_refuses query with accepts | ⟨other, refuses⟩
    · exact absurd failed accepts.execute
    · cases (refuses.execute fuel).symm.trans failed
      exact refuses
  · exact fun refuses => ⟨0, refuses.execute 0⟩

theorem QueryEngine.execute_hangs_iff
    : Hangs (self.execute query) ↔ self.Accepts query ∧ ¬ self.WindowsPassEnd query := by
  have hangs_iff : Hangs (self.execute query)
      ↔ ¬ ∃ fuel, (self.execute query fuel).isSome := by
    simp only [Hangs, not_exists, Option.not_isSome_iff_eq_none]
  constructor
  · intro hangs
    rcases self.accepts_or_refuses query with accepts | ⟨error, refuses⟩
    · have valid := (QueryEngine.accepts_iff.mp accepts).1
      exact ⟨accepts, fun passes => hangs_iff.mp hangs
        ((self.execute_terminates_iff_passes valid).mpr passes)⟩
    · cases (hangs 0).symm.trans (refuses.execute 0)
  · rintro ⟨accepts, stuck⟩
    have valid := (QueryEngine.accepts_iff.mp accepts).1
    exact hangs_iff.mpr fun ends => stuck ((self.execute_terminates_iff_passes valid).mp ends)

theorem QueryEngine.execute_returns_iff
    : (∃ result, Returns (self.execute query) (.ok result))
      ↔ self.Accepts query ∧ self.WindowsPassEnd query := by
  constructor
  · rintro ⟨result, fuel, ran⟩
    rcases self.accepts_or_refuses query with accepts | ⟨error, refuses⟩
    · refine ⟨accepts, by_contra fun stuck => ?_⟩
      have hangs := QueryEngine.execute_hangs_iff.mpr ⟨accepts, stuck⟩
      cases (hangs fuel).symm.trans ran
    · cases (refuses.execute fuel).symm.trans ran
  · rintro ⟨accepts, passes⟩
    rcases hangs_or_returns (self.execute query) with hangs | ⟨error | result, returns⟩
    · exact absurd passes (QueryEngine.execute_hangs_iff.mp hangs).2
    · obtain ⟨fuel, failed⟩ := returns
      exact absurd failed accepts.execute
    · exact ⟨result, returns⟩

end Outcomes

-----------------------------------------------------------------------------------------
-- Several queries
-----------------------------------------------------------------------------------------

/-- A query of `execute_multi`, whose result stands beside its key. -/
def QueryEngine.executeKeyed (self : QueryEngine) (query : Query)
    : Nat → Option (Except QueryError (TimeSeriesKey × QueryResult)) :=
  mapped (fun result => (query.key, result)) (self.execute query)

section Keyed

variable {self : QueryEngine} {query : Query}

theorem QueryEngine.executeKeyed_returns_iff {answer : TimeSeriesKey × QueryResult}
    : Returns (self.executeKeyed query) (.ok answer)
      ↔ answer.1 = query.key ∧ Returns (self.execute query) (.ok answer.2) := by
  refine returns_mapped_ok.trans ⟨?_, ?_⟩
  · rintro ⟨result, returns, rfl⟩
    exact ⟨rfl, returns⟩
  · rintro ⟨sameKey, returns⟩
    exact ⟨answer.2, returns, Prod.ext sameKey.symm rfl⟩

theorem QueryEngine.executeKeyed_answered_iff
    : (∃ answer, Returns (self.executeKeyed query) (.ok answer))
      ↔ self.Accepts query ∧ self.WindowsPassEnd query := by
  refine Iff.trans ⟨?_, ?_⟩ QueryEngine.execute_returns_iff
  · rintro ⟨answer, returns⟩
    exact ⟨answer.2, (QueryEngine.executeKeyed_returns_iff.mp returns).2⟩
  · rintro ⟨result, returns⟩
    exact ⟨(query.key, result), QueryEngine.executeKeyed_returns_iff.mpr ⟨rfl, returns⟩⟩

theorem QueryEngine.executeKeyed_fails_iff {error : QueryError}
    : Returns (self.executeKeyed query) (.error error) ↔ self.Refuses query error :=
  returns_mapped_error.trans QueryEngine.execute_fails_iff

theorem QueryEngine.executeKeyed_hangs_iff
    : Hangs (self.executeKeyed query) ↔ self.Accepts query ∧ ¬ self.WindowsPassEnd query :=
  hangs_mapped.trans QueryEngine.execute_hangs_iff

end Keyed

/-- The loop runs the queries in sequence behind its results so far, by induction on the
queries.
-/
theorem QueryEngine.executeMultiLoop_eq (self : QueryEngine) (fuel : Nat) (queries : List Query)
    (results : List (TimeSeriesKey × QueryResult))
    : self.executeMultiLoop fuel queries results
      = (sequence self.executeKeyed queries fuel).map (Except.map (results ++ ·)) := by
  induction queries generalizing results with
  | nil => exact congrArg (fun all => some (Except.ok all)) (List.append_nil results).symm
  | cons query rest ih =>
      rw [QueryEngine.executeMultiLoop]
      rcases ran : self.execute query fuel with _ | ⟨error | result⟩
      · have running : self.executeKeyed query fuel = none := congrArg (Option.map _) ran
        rw [sequence_none running]
        rfl
      · have failed : self.executeKeyed query fuel = some (.error error) :=
          congrArg (Option.map _) ran
        rw [sequence_error failed]
        rfl
      · have passed : self.executeKeyed query fuel = some (.ok (query.key, result)) :=
          congrArg (Option.map _) ran
        rw [sequence_ok passed, Option.map_map]
        refine (ih _).trans (congrArg (Option.map · _) (funext fun others => ?_))
        cases others with
        | error error => rfl
        | ok others => exact congrArg Except.ok (List.append_assoc ..)

theorem QueryEngine.executeMulti_eq (self : QueryEngine) (queries : List Query)
    : self.executeMulti queries = sequence self.executeKeyed queries := by
  funext fuel
  rw [QueryEngine.executeMulti, QueryEngine.executeMultiLoop_eq]
  rcases sequence self.executeKeyed queries fuel with _ | ⟨error | answers⟩
  · rfl
  · rfl
  · rfl

/-- The first query that is not answered decides what becomes of a list of queries: the list fails
with its error, or hangs with it. All are answered, in their order and by their keys, exactly if
each one is accepted and its windows pass its last point.
-/
theorem executeMulti_outcomes (self : QueryEngine) (queries : List Query)
    : let passes (query : Query) := self.Accepts query ∧ self.WindowsPassEnd query
      (∀ error,
        Returns (self.executeMulti queries) (.error error)
        ↔ ∃ earlier query later,
            queries = earlier ++ query :: later
            ∧ (∀ other ∈ earlier, passes other)
            ∧ self.Refuses query error)
      ∧ (Hangs (self.executeMulti queries)
        ↔ ∃ earlier query later,
            queries = earlier ++ query :: later
            ∧ (∀ other ∈ earlier, passes other)
            ∧ self.Accepts query ∧ ¬ self.WindowsPassEnd query)
      ∧ (∀ answers,
        Returns (self.executeMulti queries) (.ok answers)
        ↔ List.Forall₂
            (fun query answer =>
              answer.1 = query.key ∧ Returns (self.execute query) (.ok answer.2))
            queries answers)
      ∧ ((∃ answers, Returns (self.executeMulti queries) (.ok answers))
        ↔ ∀ query ∈ queries, passes query) := by
  intro passes
  have stable (query : Query) : Stable (self.executeKeyed query) :=
    stable_mapped (self.stable_execute query)
  rw [self.executeMulti_eq]
  refine ⟨?_, ?_, ?_, ?_⟩
  · intro error
    simp only [sequence_fails_iff stable, QueryEngine.executeKeyed_answered_iff,
      QueryEngine.executeKeyed_fails_iff, passes]
  · simp only [sequence_hangs_iff stable, QueryEngine.executeKeyed_answered_iff,
      QueryEngine.executeKeyed_hangs_iff, passes]
  · intro answers
    simp only [sequence_returns_iff stable, QueryEngine.executeKeyed_returns_iff]
  · simp only [exists_sequence_returns_iff stable, QueryEngine.executeKeyed_answered_iff, passes]

end GorillaTsdb.Querying

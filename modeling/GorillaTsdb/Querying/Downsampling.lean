import GorillaTsdb.Querying.WindowRange

/-! Downsampling keeps every `step`-th point, up to a limit.
The limit is tested after a point was pushed, so a limit of zero still lets one point through.
-/

namespace GorillaTsdb.Querying

open Foundations.EventHistories
open Foundations.Grouping
open Foundations.WhileLoops
open GorillaTsdb.Storage

-----------------------------------------------------------------------------------------
-- The loop
-----------------------------------------------------------------------------------------

/-- `step_by` yields the items at the first index and every `step` further on, by induction on
the items.
-/
theorem getElem?_stepBy {α : Type} {step : Nat} (positive : 1 ≤ step) (skip : Nat)
    (items : List α) (index : Nat)
    : (stepBy step skip items)[index]? = items[skip + index * step]? := by
  induction items generalizing skip index with
  | nil => simp [stepBy]
  | cons item rest ih =>
      cases skip with
      | succ skip =>
          rw [stepBy, ih, Nat.succ_add, List.getElem?_cons_succ]
      | zero =>
          cases index with
          | zero => simp [stepBy]
          | succ index =>
              have place : 0 + (index + 1) * step = step - 1 + index * step + 1 := by
                rw [Nat.add_one_mul]
                omega
              rw [stepBy, List.getElem?_cons_succ, ih, place, List.getElem?_cons_succ]

theorem stepBy_sublist {α : Type} (step skip : Nat) (items : List α)
    : (stepBy step skip items).Sublist items := by
  induction items generalizing skip with
  | nil => simp [stepBy]
  | cons item rest ih =>
      cases skip with
      | zero => exact (ih (step - 1)).cons_cons item
      | succ skip => exact (ih skip).cons item

/-- The loop pushes the points of the indices up to the limit, at least one of them, by
induction on the indices.
-/
theorem downsampleLoop_eq (points : List DataPoint) (maxPoints : Nat)
    (indices : List (Fin points.length)) (result : List DataPoint)
    : downsampleLoop points maxPoints indices result
      = result ++ (indices.take (max 1 (maxPoints - result.length))).map points.get := by
  induction indices generalizing result with
  | nil => simp [downsampleLoop]
  | cons i rest ih =>
      rw [downsampleLoop]
      split
      · next full =>
          rw [List.length_append, List.length_singleton] at full
          have one : max 1 (maxPoints - result.length) = 1 := by omega
          rw [one]
          rfl
      · next room =>
          rw [List.length_append, List.length_singleton] at room
          have more : max 1 (maxPoints - result.length)
              = max 1 (maxPoints - (result.length + 1)) + 1 := by omega
          rw [ih, more, List.length_append, List.length_singleton, List.append_assoc]
          rfl

/-- The step of the loop. -/
def sampleStep (count maxPoints : Nat) : Nat :=
  max (F64.ofNat count / F64.ofNat maxPoints).ceil.toUsize 1

/-- The indices that the loop goes through. -/
def sampledIndices (count maxPoints : Nat) : List (Fin count) :=
  stepBy (sampleStep count maxPoints) 0 (List.finRange count)

theorem one_le_sampleStep (count maxPoints : Nat) : 1 ≤ sampleStep count maxPoints :=
  Nat.le_max_right _ 1

theorem getElem?_sampledIndices (count maxPoints place : Nat)
    : (sampledIndices count maxPoints)[place]?
      = (List.finRange count)[place * sampleStep count maxPoints]? := by
  rw [sampledIndices, getElem?_stepBy (one_le_sampleStep count maxPoints), Nat.zero_add]

/-- Too many points are cut down to those at the sampled indices. -/
theorem downsamplePoints_eq {points : List DataPoint} {maxPoints : Nat}
    (many : maxPoints < points.length)
    : downsamplePoints points maxPoints
      = ((sampledIndices points.length maxPoints).take (max 1 maxPoints)).map points.get := by
  rw [downsamplePoints, if_neg (Nat.not_le_of_lt many), downsampleLoop_eq]
  rfl

theorem downsamplePoints_sublist (points : List DataPoint) (maxPoints : Nat)
    : (downsamplePoints points maxPoints).Sublist points := by
  by_cases few : points.length ≤ maxPoints
  · rw [downsamplePoints, if_pos few]
  · rw [downsamplePoints_eq (Nat.lt_of_not_le few)]
    have indices : ((sampledIndices points.length maxPoints).take (max 1 maxPoints)).Sublist
        (List.finRange points.length) :=
      (List.take_sublist _ _).trans (stepBy_sublist _ 0 _)
    have mapped := indices.map points.get
    rwa [List.map_get_finRange] at mapped

/-- Of some points, at least one is kept. -/
theorem downsamplePoints_ne_nil {points : List DataPoint} (holds : points ≠ [])
    (maxPoints : Nat)
    : downsamplePoints points maxPoints ≠ [] := by
  by_cases few : points.length ≤ maxPoints
  · rwa [downsamplePoints, if_pos few]
  · rw [downsamplePoints_eq (Nat.lt_of_not_le few)]
    intro empty
    rw [List.map_eq_nil_iff, List.take_eq_nil_iff] at empty
    have noIndex : sampledIndices points.length maxPoints = [] :=
      empty.resolve_left (Nat.ne_of_gt (Nat.le_max_left 1 maxPoints))
    have first : (sampledIndices points.length maxPoints)[0]?
        = (List.finRange points.length)[0]? := by
      rw [getElem?_sampledIndices, Nat.zero_mul]
    rw [noIndex, List.getElem?_nil, eq_comm, List.getElem?_eq_none_iff,
      List.length_finRange] at first
    omega

/-- The limit is kept exactly if it is not zero or there is no point. -/
theorem downsamplePoints_length_le_iff (points : List DataPoint) (maxPoints : Nat)
    : (downsamplePoints points maxPoints).length ≤ maxPoints ↔ 1 ≤ maxPoints ∨ points = [] := by
  constructor
  · intro bounded
    rcases Nat.eq_zero_or_pos maxPoints with rfl | positive
    · refine Or.inr (by_contra fun holds => ?_)
      exact downsamplePoints_ne_nil holds 0 (List.eq_nil_of_length_eq_zero (by omega))
    · exact Or.inl positive
  · intro admitted
    by_cases few : points.length ≤ maxPoints
    · rwa [downsamplePoints, if_pos few]
    · rw [downsamplePoints_eq (Nat.lt_of_not_le few), List.length_map]
      rcases admitted with positive | rfl
      · exact (List.length_take_le _ _).trans (by omega)
      · exact absurd (Nat.zero_le maxPoints) few

-----------------------------------------------------------------------------------------
-- The limit of a query
-----------------------------------------------------------------------------------------

/-- An aggregation of some points that ends reports at least one window: the one of the last
round holds the last point.
-/
theorem reports_ne_nil {firstPoint : DataPoint} {rest : List DataPoint}
    {aggregation : Aggregation} {windowSize : UInt64} {fuel : Nat}
    {reports : List AggregatedPoint}
    (older : firstPoint.timestamp ≤ (rest.getLastD firstPoint).timestamp)
    (ran
      : aggregatePoints (firstPoint :: rest) aggregation windowSize fuel = some (.ok reports))
    : reports ≠ [] := by
  obtain ⟨ended, looped, made⟩ := Option.map_eq_some_iff.mp ran
  cases made
  obtain ⟨last, running, rfl, stopped⟩ := whileLoop_last_round _ looped (decide_eq_true older)
  have holds : (rest.getLastD firstPoint) ∈ (firstPoint :: rest).filter fun point =>
      point.timestamp ≥ last.currentWindowStart
      && point.timestamp < last.currentWindowStart + windowSize := by
    refine List.mem_filter.mpr ⟨List.getLastD_mem_cons, ?_⟩
    have behind : ¬ last.currentWindowStart + windowSize ≤ (rest.getLastD firstPoint).timestamp :=
      of_decide_eq_false stopped
    rw [Bool.and_eq_true, decide_eq_true_iff, decide_eq_true_iff]
    exact ⟨of_decide_eq_true running, UInt64.not_le.mp behind⟩
  rw [aggregateWindow]
  dsimp only
  split
  · next empty =>
      rw [empty] at holds
      cases holds
  · exact List.append_ne_nil_of_right_ne_nil _ (List.cons_ne_nil _ _)

/-- A sorted list of points has at most as many windows as points. -/
theorem windowGroups_length_le {firstPoint : DataPoint} {rest : List DataPoint}
    (windowSize : UInt64)
    (sorted : (firstPoint :: rest).Pairwise fun left right => left.timestamp ≤ right.timestamp)
    : (windowGroups firstPoint rest windowSize).length ≤ (firstPoint :: rest).length := by
  rw [← windowGroups_items windowSize sorted, List.length_flatMap,
    ← List.length_map fun window => window.items.length]
  refine List.length_le_sum_of_one_le _ (List.forall_mem_map.mpr ?_)
  exact fun window _ => Nat.succ_le_succ (Nat.zero_le window.rest.length)

/-- Windows of size zero never end. -/
theorem aggregatePoints_positive {firstPoint : DataPoint} {rest : List DataPoint}
    {aggregation : Aggregation} {windowSize : UInt64} {fuel : Nat}
    {reports : List AggregatedPoint}
    (older : firstPoint.timestamp ≤ (rest.getLastD firstPoint).timestamp)
    (ran
      : aggregatePoints (firstPoint :: rest) aggregation windowSize fuel = some (.ok reports))
    : 1 ≤ windowSize := by
  obtain ⟨ended, looped, -⟩ := Option.map_eq_some_iff.mp ran
  obtain ⟨last, running, rfl, stopped⟩ := whileLoop_last_round _ looped (decide_eq_true older)
  by_contra small
  have zero : windowSize = 0 := UInt64.lt_one_iff.mp (UInt64.not_le.mp small)
  rw [aggregateWindow, zero, UInt64.add_zero] at stopped
  exact of_decide_eq_false stopped (of_decide_eq_true running)

/-- Where the windows fit, an answered aggregation reports the groups of the points. -/
theorem reports_eq {firstPoint : DataPoint} {rest : List DataPoint}
    {aggregation : Aggregation} {windowSize : UInt64} {fuel : Nat}
    {reports : List AggregatedPoint}
    (sorted : (firstPoint :: rest).Pairwise fun left right => left.timestamp ≤ right.timestamp)
    (fits : WindowsFit firstPoint rest windowSize)
    (ran
      : aggregatePoints (firstPoint :: rest) aggregation windowSize fuel = some (.ok reports))
    : reports = (windowGroups firstPoint rest windowSize).map
        (windowReport aggregation firstPoint.timestamp windowSize) := by
  have oldest := head_le sorted
  have positive := aggregatePoints_positive (oldest _ List.getLastD_mem_cons) ran
  have whole := aggregatePoints_eq oldest positive fits aggregation (Nat.le_max_right fuel _)
  rw [aggregatePoints_mono (Nat.le_max_left fuel _) ran] at whole
  cases whole
  rfl

/-- The points that a query selects from an answered scan. -/
theorem QueryEngine.selectedPoints_eq {self : QueryEngine} {query : Query}
    {points : List DataPoint}
    (scanned : self.storage.scanRange query.key query.startTime query.endTime = .ok points)
    : self.selectedPoints query = query.sample points := by
  rw [QueryEngine.selectedPoints, scanned]

theorem Query.sample_sublist (query : Query) (points : List DataPoint)
    : (query.sample points).Sublist points := by
  unfold Query.sample
  split
  · exact downsamplePoints_sublist points _
  · exact List.Sublist.refl points

/-- The points that a query selects are sorted like those of the scan. -/
theorem QueryEngine.sample_sorted {self : QueryEngine} {query : Query}
    {points : List DataPoint} {firstPoint : DataPoint} {rest : List DataPoint}
    (scanned : self.storage.scanRange query.key query.startTime query.endTime = .ok points)
    (sampled : query.sample points = firstPoint :: rest)
    : (firstPoint :: rest).Pairwise fun left right => left.timestamp ≤ right.timestamp :=
  sampled ▸ (TSMap.scanRange_sorted scanned).sublist (query.sample_sublist points)

theorem Query.sample_ne_nil (query : Query) {points : List DataPoint} (holds : points ≠ [])
    : query.sample points ≠ [] := by
  unfold Query.sample
  split
  · exact downsamplePoints_ne_nil holds _
  · exact holds

/-- The limit of a query holds for every answer. -/
def QueryEngine.KeepsLimit (self : QueryEngine) (query : Query) (maxPoints : Nat) : Prop :=
  ∀ fuel result,
    self.execute query fuel = some (.ok result)
    → result.len ≤ maxPoints

/-- No window of the selected points leaves the type. -/
def QueryEngine.WindowsExact (self : QueryEngine) (query : Query) : Prop :=
  query.aggregation.isSome
  → ∀ windowSize ∈ query.windowSize,
      match self.selectedPoints query with
      | [] => True
      | firstPoint :: rest => WindowsFit firstPoint rest windowSize

/-- A limit that is not zero is kept as long as no window leaves the type: there are no more
windows than points.
-/
theorem QueryEngine.keepsLimit {self : QueryEngine} {query : Query} {maxPoints : Nat}
    (limited : query.maxPoints = some maxPoints) (fit : self.WindowsExact query)
    (admitted : 1 ≤ maxPoints ∨ self.selectedPoints query = [])
    : self.KeepsLimit query maxPoints := by
  intro fuel result answered
  have sampled (points : List DataPoint)
      : query.sample points = downsamplePoints points maxPoints := by
    rw [Query.sample, limited]
  rcases QueryEngine.execute_eq_ok answered with ⟨-, rfl⟩ | ⟨points, scanned, holds, -, rfl⟩
    | ⟨points, aggregation, windowSize, reports, scanned, holds, aggregates, sized, ran, rfl⟩
  · exact Nat.zero_le maxPoints
  all_goals
    have selected := QueryEngine.selectedPoints_eq scanned
    have positive : 1 ≤ maxPoints :=
      admitted.resolve_right (selected ▸ query.sample_ne_nil holds)
    have bounded := (downsamplePoints_length_le_iff points maxPoints).mpr (Or.inl positive)
    rw [← sampled] at bounded
  · exact bounded
  · cases chosen : query.sample points with
    | nil => exact absurd chosen (query.sample_ne_nil holds)
    | cons firstPoint rest =>
        have sorted := QueryEngine.sample_sorted scanned chosen
        have fits := fit (Option.isSome_of_eq_some aggregates) windowSize sized
        rw [selected, chosen] at fits
        rw [chosen] at ran bounded
        rw [reports_eq sorted fits ran, QueryResult.len, List.length_map]
        exact (windowGroups_length_le windowSize sorted).trans bounded

/-- An answer within the limit shows that the limit is not zero or no point was selected: some
points always lead to some answer.
-/
theorem QueryEngine.admitted_of_answer {self : QueryEngine} {query : Query} {maxPoints : Nat}
    {fuel : Nat} {result : QueryResult}
    (answered : self.execute query fuel = some (.ok result)) (kept : result.len ≤ maxPoints)
    : 1 ≤ maxPoints ∨ self.selectedPoints query = [] := by
  rcases QueryEngine.execute_eq_ok answered with ⟨scanned, -⟩ | ⟨points, scanned, holds, -, rfl⟩
    | ⟨points, aggregation, windowSize, reports, scanned, holds, -, -, ran, rfl⟩
  · exact Or.inr ((QueryEngine.selectedPoints_eq scanned).trans query.sample_nil)
  · have kept_one := List.length_pos_of_ne_nil (query.sample_ne_nil holds)
    exact Or.inl (Nat.le_trans kept_one kept)
  · cases chosen : query.sample points with
    | nil => exact absurd chosen (query.sample_ne_nil holds)
    | cons firstPoint rest =>
        have sorted := QueryEngine.sample_sorted scanned chosen
        rw [chosen] at ran
        have reported := reports_ne_nil (head_le sorted _ List.getLastD_mem_cons) ran
        exact Or.inl (Nat.le_trans (List.length_pos_of_ne_nil reported) kept)

/-- Downsampling returns a subsequence, which is within the limit exactly if the limit is not
zero or there is no point. After any run, a query whose windows stay in range keeps its limit
under this condition, and without it no answer of the query is within the limit.
-/
theorem limit_kept_when (operations : List StoreOp) (query : Query) (maxPoints : Nat)
    (limited : query.maxPoints = some maxPoints)
    : (∀ points : List DataPoint,
        (downsamplePoints points maxPoints).Sublist points
        ∧ ((downsamplePoints points maxPoints).length ≤ maxPoints
          ↔ 1 ≤ maxPoints ∨ points = []))
      ∧ let engine : QueryEngine := { storage := after TSMap.step TSMap.new operations }
        (engine.WindowsExact query
          → 1 ≤ maxPoints ∨ engine.selectedPoints query = []
          → engine.KeepsLimit query maxPoints)
        ∧ ∀ fuel result,
            engine.execute query fuel = some (.ok result)
            → result.len ≤ maxPoints
            → 1 ≤ maxPoints ∨ engine.selectedPoints query = [] := by
  refine ⟨?_, QueryEngine.keepsLimit limited, ?_⟩
  · intro points
    exact ⟨downsamplePoints_sublist points maxPoints,
      downsamplePoints_length_le_iff points maxPoints⟩
  · intro fuel result answered kept
    exact QueryEngine.admitted_of_answer answered kept

/-- Two points without windows, with a limit of one. -/
theorem limit_kept_when_sample
    : let operations : List StoreOp := [
        .insert "metric" ⟨1000, ⟨1⟩⟩, .insert "metric" ⟨1100, ⟨2⟩⟩
      ]
      let engine : QueryEngine := { storage := after TSMap.step TSMap.new operations }
      engine.KeepsLimit ((Query.new "metric" 0 2000).withMaxPoints 1) 1 := by
  intro operations engine
  refine (limit_kept_when operations _ 1 rfl).2.1 ?_ (Or.inl (Nat.le_refl 1))
  intro aggregates
  cases aggregates

/-- One point and a limit of zero. -/
theorem limit_of_zero_exceeded
    : ¬ (∀ (points : List DataPoint) (maxPoints : Nat),
          (downsamplePoints points maxPoints).Sublist points
          ∧ (downsamplePoints points maxPoints).length ≤ maxPoints) := by
  intro bounded
  have admitted := (downsamplePoints_length_le_iff [⟨0, ⟨0⟩⟩] 0).mp (bounded _ 0).2
  exact absurd admitted (by decide)

end GorillaTsdb.Querying

import GorillaTsdb.Querying.SampleCoverage
import Mathlib.Data.List.Sort

/-! A limit on the points of an aggregating query.
The limit is applied before the aggregation, so the windows are those of the kept points. A
report is that of all points only if the kept points make up whole windows.
-/

namespace GorillaTsdb.Querying

open Foundations.EventHistories
open Foundations.Grouping
open GorillaTsdb.Storage

-----------------------------------------------------------------------------------------
-- The kept points
-----------------------------------------------------------------------------------------

/-- Downsampling keeps the point at this index: a multiple of the step, within the limit. -/
def KeptIndex (count maxPoints index : Nat) : Prop :=
  count ≤ maxPoints
  ∨ sampleStep count maxPoints ∣ index ∧ index / sampleStep count maxPoints < maxPoints

instance (count maxPoints index : Nat) : Decidable (KeptIndex count maxPoints index) :=
  inferInstanceAs (Decidable (_ ∨ _))

theorem getElem?_finRange_eq_some {count place : Nat} {index : Fin count}
    : (List.finRange count)[place]? = some index ↔ place = index := by
  rw [List.getElem?_eq_some_iff]
  constructor
  · intro found
    obtain ⟨_, rfl⟩ := found
    rw [List.getElem_finRange]
    rfl
  · intro same
    subst same
    refine ⟨by rw [List.length_finRange]; exact index.isLt, ?_⟩
    rw [List.getElem_finRange]
    rfl

/-- The sampled indices up to the limit are the kept ones: both lists increase. -/
theorem sampledIndices_take {count maxPoints : Nat} (many : maxPoints < count)
    : (sampledIndices count maxPoints).take maxPoints
      = (List.finRange count).filter fun index : Fin count =>
          KeptIndex count maxPoints index := by
  have step_pos := one_le_sampleStep count maxPoints
  have increasing := List.pairwise_lt_finRange count
  have sublist := (List.take_sublist maxPoints (sampledIndices count maxPoints)).trans
    (stepBy_sublist _ 0 _)
  refine (increasing.sublist sublist).eq_of_mem_iff (increasing.sublist List.filter_sublist) ?_
  intro index
  rw [List.mem_filter, decide_eq_true_iff]
  constructor
  · intro sampled
    obtain ⟨place, found⟩ := List.mem_iff_getElem?.mp sampled
    rw [List.getElem?_take, Option.ite_none_right_eq_some] at found
    obtain ⟨within, taken⟩ := found
    rw [getElem?_sampledIndices, getElem?_finRange_eq_some] at taken
    refine ⟨List.mem_finRange index, Or.inr ?_⟩
    rw [← taken, Nat.mul_div_cancel place step_pos]
    exact ⟨Nat.dvd_mul_left _ place, within⟩
  · intro kept
    obtain ⟨multiple, within⟩ := kept.2.resolve_left (Nat.not_le_of_lt many)
    refine List.mem_iff_getElem?.mpr ⟨index / sampleStep count maxPoints, ?_⟩
    rw [List.getElem?_take_of_lt within, getElem?_sampledIndices, getElem?_finRange_eq_some]
    exact Nat.div_mul_cancel multiple

/-- Downsampling keeps the points at the kept indices. -/
theorem downsamplePoints_eq_filter (points : List DataPoint) {maxPoints : Nat}
    (positive : 1 ≤ maxPoints)
    : downsamplePoints points maxPoints
      = ((List.finRange points.length).filter fun index : Fin points.length =>
          KeptIndex points.length maxPoints index).map points.get := by
  by_cases few : points.length ≤ maxPoints
  · have all : ∀ index ∈ List.finRange points.length,
        decide (KeptIndex points.length maxPoints index) = true :=
      fun index _ => decide_eq_true (Or.inl few)
    rw [downsamplePoints, if_pos few, List.filter_eq_self.mpr all, List.map_get_finRange]
  · have many := Nat.lt_of_not_le few
    rw [downsamplePoints_eq many, Nat.max_eq_right positive, sampledIndices_take many]

/-- The kept points of some kind are those at the kept indices among the indices of this kind. -/
theorem filter_downsamplePoints (points : List DataPoint) {maxPoints : Nat}
    (positive : 1 ≤ maxPoints) (ofKind : DataPoint → Bool)
    : (downsamplePoints points maxPoints).filter ofKind
      = (((List.finRange points.length).filter fun index => ofKind (points.get index)).filter
          fun index : Fin points.length =>
            KeptIndex points.length maxPoints index).map points.get := by
  rw [downsamplePoints_eq_filter points positive, List.filter_map, List.filter_comm]
  rfl

theorem filter_eq_map_finRange (points : List DataPoint) (ofKind : DataPoint → Bool)
    : points.filter ofKind
      = ((List.finRange points.length).filter fun index => ofKind (points.get index)).map
          points.get := by
  calc points.filter ofKind
      = ((List.finRange points.length).map points.get).filter ofKind := by
        rw [List.map_get_finRange]
    _ = _ := List.filter_map

/-- The kept points are those with a kept index. -/
theorem mem_downsamplePoints {points : List DataPoint} {maxPoints : Nat}
    (positive : 1 ≤ maxPoints) {index : Fin points.length}
    (kept : KeptIndex points.length maxPoints index)
    : points[index] ∈ downsamplePoints points maxPoints := by
  rw [downsamplePoints_eq_filter points positive]
  refine List.mem_map_of_mem (List.mem_filter.mpr ⟨List.mem_finRange index, ?_⟩)
  exact decide_eq_true kept

theorem exists_keptIndex {points : List DataPoint} {maxPoints : Nat} (positive : 1 ≤ maxPoints)
    {point : DataPoint} (member : point ∈ downsamplePoints points maxPoints)
    : ∃ index : Fin points.length,
        points[index] = point ∧ KeptIndex points.length maxPoints index := by
  rw [downsamplePoints_eq_filter points positive] at member
  obtain ⟨index, kept, rfl⟩ := List.mem_map.mp member
  exact ⟨index, rfl, of_decide_eq_true (List.mem_filter.mp kept).2⟩

/-- As many points of some kind are kept as there are exactly if each of them is kept. -/
theorem length_filter_downsamplePoints (points : List DataPoint) {maxPoints : Nat}
    (positive : 1 ≤ maxPoints) (ofKind : DataPoint → Bool)
    : ((downsamplePoints points maxPoints).filter ofKind).length
        = (points.filter ofKind).length
      ↔ ∀ index : Fin points.length,
          ofKind points[index] → KeptIndex points.length maxPoints index := by
  rw [filter_downsamplePoints points positive, filter_eq_map_finRange points, List.length_map,
    List.length_map, List.length_filter_eq_length_iff]
  simp only [List.mem_filter, List.mem_finRange, true_and, decide_eq_true_eq]
  rfl

/-- The first point is always kept. -/
theorem downsamplePoints_cons (firstPoint : DataPoint) (rest : List DataPoint)
    {maxPoints : Nat} (positive : 1 ≤ maxPoints)
    : ∃ keptRest, downsamplePoints (firstPoint :: rest) maxPoints = firstPoint :: keptRest := by
  have range : List.finRange (firstPoint :: rest).length
      = 0 :: (List.finRange rest.length).map Fin.succ := List.finRange_succ
  have kept : KeptIndex (firstPoint :: rest).length maxPoints (0 : Fin (rest.length + 1)) := by
    refine Or.inr ⟨Nat.dvd_zero _, ?_⟩
    rwa [Fin.val_zero, Nat.zero_div]
  rw [downsamplePoints_eq_filter _ positive, range, List.filter_cons,
    if_pos (decide_eq_true kept)]
  exact ⟨_, rfl⟩

-----------------------------------------------------------------------------------------
-- The windows of the kept points
-----------------------------------------------------------------------------------------

/-- The kept points make up whole windows. -/
def KeepsWholeWindows (firstPoint : DataPoint) (rest : List DataPoint) (windowSize : UInt64)
    (maxPoints : Nat)
    : Prop :=
  let points := firstPoint :: rest
  let number := windowNumber firstPoint.timestamp windowSize
  ∀ kept other : Fin points.length,
    number points[kept] = number points[other]
    → KeptIndex points.length maxPoints kept
    → KeptIndex points.length maxPoints other

instance (firstPoint : DataPoint) (rest : List DataPoint) (windowSize : UInt64)
    (maxPoints : Nat)
    : Decidable (KeepsWholeWindows firstPoint rest windowSize maxPoints) :=
  inferInstanceAs (Decidable (∀ _ _ : Fin (firstPoint :: rest).length, _ → _ → _))

/-- The windows of sorted points are all points of some number, if there are any. -/
theorem mem_windowGroups_iff {firstPoint : DataPoint} {rest : List DataPoint}
    {windowSize : UInt64}
    (sorted : (firstPoint :: rest).Pairwise fun left right => left.timestamp ≤ right.timestamp)
    {window : ItemGroup DataPoint}
    : window ∈ windowGroups firstPoint rest windowSize
      ↔ window.items = (firstPoint :: rest).filter fun point =>
          windowNumber firstPoint.timestamp windowSize point = window.number := by
  constructor
  · intro member
    exact (mem_groups member).2
  · intro collected
    refine mem_groups_of_items ?_ collected
    have member : window.first ∈ window.items := List.mem_cons_self
    rw [collected, List.mem_filter, decide_eq_true_iff] at member
    obtain ⟨stored, number⟩ := member
    rw [← number]
    exact Nat.lt_succ_of_le (windowNumber_le (le_getLastD sorted stored))

/-- Every point has a window. -/
theorem exists_window {firstPoint : DataPoint} {rest : List DataPoint}
    (windowSize : UInt64)
    (sorted : (firstPoint :: rest).Pairwise fun left right => left.timestamp ≤ right.timestamp)
    {point : DataPoint} (member : point ∈ firstPoint :: rest)
    : ∃ window ∈ windowGroups firstPoint rest windowSize,
        windowNumber firstPoint.timestamp windowSize point = window.number := by
  rw [← windowGroups_items windowSize sorted, List.mem_flatMap] at member
  obtain ⟨window, windowMember, itemMember⟩ := member
  rw [(mem_groups windowMember).2, List.mem_filter, decide_eq_true_iff] at itemMember
  exact ⟨window, windowMember, itemMember.2⟩

section Windows

variable {firstPoint : DataPoint} {rest keptRest : List DataPoint} {windowSize : UInt64}
  {maxPoints : Nat}

/-- Where the kept points make up whole windows, their windows are windows of all points. -/
theorem window_of_keepsWholeWindows (admitted : 1 ≤ maxPoints)
    (sorted : (firstPoint :: rest).Pairwise fun left right => left.timestamp ≤ right.timestamp)
    (sampled : downsamplePoints (firstPoint :: rest) maxPoints = firstPoint :: keptRest)
    (whole : KeepsWholeWindows firstPoint rest windowSize maxPoints)
    {window : ItemGroup DataPoint}
    (member : window ∈ windowGroups firstPoint keptRest windowSize)
    : window ∈ windowGroups firstPoint rest windowSize := by
  have collected := (mem_groups member).2
  refine (mem_windowGroups_iff sorted).mpr ?_
  rw [collected, ← sampled]
  refine (List.Sublist.filter _ (downsamplePoints_sublist _ maxPoints)).eq_of_length ?_
  rw [length_filter_downsamplePoints _ admitted]
  have first : window.first ∈ window.items := List.mem_cons_self
  rw [collected, ← sampled, List.mem_filter, decide_eq_true_iff] at first
  obtain ⟨stored, number⟩ := first
  obtain ⟨kept, found, isKept⟩ := exists_keptIndex admitted stored
  rw [← found] at number
  intro other same
  exact whole kept other (number.trans (of_decide_eq_true same).symm) isKept

/-- The report of a window of the kept points says where the window starts and how many points it
has. If it is a report on all points, the window has all of its points.
-/
theorem keptIndex_of_reported (positive : 1 ≤ windowSize) (admitted : 1 ≤ maxPoints)
    (sorted : (firstPoint :: rest).Pairwise fun left right => left.timestamp ≤ right.timestamp)
    (sampled : downsamplePoints (firstPoint :: rest) maxPoints = firstPoint :: keptRest)
    {window : ItemGroup DataPoint}
    (member : window ∈ windowGroups firstPoint keptRest windowSize)
    {aggregation : Aggregation}
    (reported
      : windowReport aggregation firstPoint.timestamp windowSize window
        ∈ (windowGroups firstPoint rest windowSize).map
            (windowReport aggregation firstPoint.timestamp windowSize))
    {other : Fin (firstPoint :: rest).length}
    (number
      : windowNumber firstPoint.timestamp windowSize (firstPoint :: rest)[other]
        = window.number)
    : KeptIndex (firstPoint :: rest).length maxPoints other := by
  have size := UInt64.le_iff_toNat_le.mp positive
  have keptSorted : (firstPoint :: keptRest).Pairwise
      fun left right => left.timestamp ≤ right.timestamp :=
    sampled ▸ sorted.sublist (downsamplePoints_sublist _ maxPoints)
  obtain ⟨whole, wholeMember, same⟩ := List.mem_map.mp reported
  have starts := congrArg (fun report => report.timestamp.toNat) same
  rw [windowReport_timestamp positive (head_le sorted _ List.getLastD_mem_cons) wholeMember,
    windowReport_timestamp positive (head_le keptSorted _ List.getLastD_mem_cons) member]
    at starts
  have numbers : whole.number = window.number :=
    Nat.eq_of_mul_eq_mul_right size (Nat.add_left_cancel starts)
  have counts : whole.items.length = window.items.length := congrArg AggregatedPoint.count same
  rw [(mem_groups wholeMember).2, (mem_groups member).2, ← sampled, numbers] at counts
  exact (length_filter_downsamplePoints _ admitted _).mp counts.symm other
    (decide_eq_true number)

/-- The windows of the kept points are reported as those of all points exactly if the kept points
make up whole windows.
-/
theorem reports_subset_iff (positive : 1 ≤ windowSize) (admitted : 1 ≤ maxPoints)
    (sorted : (firstPoint :: rest).Pairwise fun left right => left.timestamp ≤ right.timestamp)
    (sampled : downsamplePoints (firstPoint :: rest) maxPoints = firstPoint :: keptRest)
    (aggregation : Aggregation)
    : (windowGroups firstPoint keptRest windowSize).map
          (windowReport aggregation firstPoint.timestamp windowSize)
        ⊆ (windowGroups firstPoint rest windowSize).map
            (windowReport aggregation firstPoint.timestamp windowSize)
      ↔ KeepsWholeWindows firstPoint rest windowSize maxPoints := by
  have keptSublist := downsamplePoints_sublist (firstPoint :: rest) maxPoints
  rw [sampled] at keptSublist
  constructor
  · intro included kept other same isKept
    have member := mem_downsamplePoints admitted isKept
    rw [sampled] at member
    obtain ⟨window, windowMember, number⟩ :=
      exists_window windowSize (sorted.sublist keptSublist) member
    exact keptIndex_of_reported positive admitted sorted sampled windowMember
      (included (List.mem_map_of_mem windowMember)) (same.symm.trans number)
  · intro whole report member
    obtain ⟨window, windowMember, rfl⟩ := List.mem_map.mp member
    exact List.mem_map_of_mem
      (window_of_keepsWholeWindows admitted sorted sampled whole windowMember)

/-- Fewer points do not have more windows. -/
theorem windowsFit_of_sublist
    (sorted : (firstPoint :: rest).Pairwise fun left right => left.timestamp ≤ right.timestamp)
    (kept : (firstPoint :: keptRest).Sublist (firstPoint :: rest))
    (fits : WindowsFit firstPoint rest windowSize)
    : WindowsFit firstPoint keptRest windowSize := by
  have last : windowNumber firstPoint.timestamp windowSize (keptRest.getLastD firstPoint)
      ≤ windowNumber firstPoint.timestamp windowSize (rest.getLastD firstPoint) :=
    windowNumber_le (le_getLastD sorted (kept.subset List.getLastD_mem_cons))
  have ended := Nat.mul_le_mul_right windowSize.toNat (Nat.add_le_add_right last 1)
  unfold WindowsFit at fits ⊢
  omega

end Windows

-----------------------------------------------------------------------------------------
-- The reports of a query
-----------------------------------------------------------------------------------------

/-- The same query without its limit. -/
def Query.withoutMaxPoints (self : Query) : Query := { self with maxPoints := none }

/-- The answer to a limited query reports nothing else than the one without the limit. -/
def QueryEngine.LimitKeepsReports (self : QueryEngine) (query : Query) : Prop :=
  ∀ fuel limited,
    self.execute query fuel = some (.ok (.aggregated limited))
    → ∃ fuel all,
        self.execute query.withoutMaxPoints fuel = some (.ok (.aggregated all))
        ∧ ∀ report ∈ limited, report ∈ all

/-- The points that the limit keeps make up whole windows of the points in range. -/
def QueryEngine.LimitKeepsWindows (self : QueryEngine) (query : Query) (windowSize : UInt64)
    (maxPoints : Nat)
    : Prop :=
  match self.selectedPoints query.withoutMaxPoints with
  | [] => True
  | firstPoint :: rest => KeepsWholeWindows firstPoint rest windowSize maxPoints

section Answers

variable (self : QueryEngine) (query : Query) {aggregation : Aggregation} {windowSize : UInt64}
  {points : List DataPoint} {firstPoint : DataPoint} {rest : List DataPoint}

/-- A query with windows that fit is answered with the reports of its windows. -/
theorem QueryEngine.execute_windows (aggregates : query.aggregation = some aggregation)
    (sized : query.windowSize = some windowSize) (positive : 1 ≤ windowSize)
    (scanned : self.storage.scanRange query.key query.startTime query.endTime = .ok points)
    (sampled : query.sample points = firstPoint :: rest)
    (fits : WindowsFit firstPoint rest windowSize)
    : ∃ fuel,
        self.execute query fuel
        = some (.ok (.aggregated ((windowGroups firstPoint rest windowSize).map
            (windowReport aggregation firstPoint.timestamp windowSize)))) := by
  obtain ⟨ordered, -, -⟩ := TSMap.scanRange_eq_ok.mp scanned
  have valid : query.validate = .ok () := by
    rw [Query.validate, if_neg (UInt64.not_lt.mpr ordered), sized, Option.isNone_some,
      Bool.and_false]
    rfl
  have windowed := (query.windowing_eq_some valid aggregation windowSize).mpr
    ⟨aggregates, sized⟩
  have sorted := QueryEngine.sample_sorted scanned sampled
  obtain ⟨fuel, ran⟩ : ∃ fuel, aggregatePoints (firstPoint :: rest) aggregation windowSize fuel
      = some (.ok ((windowGroups firstPoint rest windowSize).map
          (windowReport aggregation firstPoint.timestamp windowSize))) :=
    ⟨_, aggregatePoints_eq (head_le sorted) positive fits aggregation (Nat.le_refl _)⟩
  refine ⟨fuel, (self.execute_of_valid valid fuel).trans ?_⟩
  rw [scanned, windowed]
  cases points with
  | nil =>
      rw [query.sample_nil] at sampled
      cases sampled
  | cons first others =>
      dsimp only
      rw [sampled, ran]
      rfl

/-- It is answered with nothing else. -/
theorem QueryEngine.reports_of_execute (aggregates : query.aggregation = some aggregation)
    (sized : query.windowSize = some windowSize)
    (scanned : self.storage.scanRange query.key query.startTime query.endTime = .ok points)
    (sampled : query.sample points = firstPoint :: rest)
    (fits : WindowsFit firstPoint rest windowSize) {fuel : Nat}
    {reports : List AggregatedPoint}
    (answered : self.execute query fuel = some (.ok (.aggregated reports)))
    : reports = (windowGroups firstPoint rest windowSize).map
        (windowReport aggregation firstPoint.timestamp windowSize) := by
  have sorted := QueryEngine.sample_sorted scanned sampled
  rcases QueryEngine.execute_eq_ok answered with ⟨-, made⟩ | ⟨_, -, -, -, made⟩
    | ⟨found, other, size, others, foundAt, -, aggregatesOther, sizedOther, ran, made⟩
  · cases made
  · cases made
  · cases made
    cases scanned.symm.trans foundAt
    cases aggregates.symm.trans aggregatesOther
    cases sized.symm.trans sizedOther
    rw [sampled] at ran
    exact reports_eq sorted fits ran

end Answers

/-- What a query without a limit selects is what the scan found. -/
theorem QueryEngine.scanRange_of_selectedPoints {self : QueryEngine} {query : Query}
    {firstPoint : DataPoint} {rest : List DataPoint}
    (selected : self.selectedPoints query.withoutMaxPoints = firstPoint :: rest)
    : self.storage.scanRange query.key query.startTime query.endTime
      = .ok (firstPoint :: rest) := by
  rw [QueryEngine.selectedPoints] at selected
  split at selected
  case h_1 => cases selected
  case h_2 points scanned => exact scanned.trans (congrArg Except.ok selected)

/-- A query that finds no point reports nothing. -/
theorem QueryEngine.limitKeepsReports_of_nil {self : QueryEngine} {query : Query}
    (nothing : self.selectedPoints query.withoutMaxPoints = [])
    : self.LimitKeepsReports query := by
  intro fuel reports answered
  rcases QueryEngine.execute_eq_ok answered with ⟨-, made⟩ | ⟨_, -, -, -, made⟩
    | ⟨points, _, _, _, scanned, holds, -, -, -, -⟩
  · cases made
  · cases made
  · have all : self.selectedPoints query.withoutMaxPoints
        = query.withoutMaxPoints.sample points :=
      QueryEngine.selectedPoints_eq scanned
    exact absurd (all.symm.trans nothing) holds

/-- A limit falsifies no report exactly if it keeps whole windows. -/
theorem QueryEngine.limitKeepsReports_iff {self : QueryEngine} {query : Query}
    {aggregation : Aggregation} {windowSize : UInt64} {maxPoints : Nat}
    (aggregates : query.aggregation = some aggregation)
    (sized : query.windowSize = some windowSize) (positive : 1 ≤ windowSize)
    (limited : query.maxPoints = some maxPoints) (admitted : 1 ≤ maxPoints)
    (fit : self.WindowsExact query.withoutMaxPoints)
    : self.LimitKeepsReports query ↔ self.LimitKeepsWindows query windowSize maxPoints := by
  unfold QueryEngine.LimitKeepsWindows
  replace fit := fit (Option.isSome_of_eq_some aggregates) windowSize sized
  cases selected : self.selectedPoints query.withoutMaxPoints with
  | nil => exact iff_of_true (QueryEngine.limitKeepsReports_of_nil selected) trivial
  | cons firstPoint rest =>
      rw [selected] at fit
      have scanned := QueryEngine.scanRange_of_selectedPoints selected
      have sorted := TSMap.scanRange_sorted scanned
      obtain ⟨keptRest, sampled⟩ := downsamplePoints_cons firstPoint rest admitted
      have querySampled : query.sample (firstPoint :: rest) = firstPoint :: keptRest := by
        rw [Query.sample, limited]
        exact sampled
      have keptFit : WindowsFit firstPoint keptRest windowSize := by
        refine windowsFit_of_sublist sorted ?_ fit
        rw [← sampled]
        exact downsamplePoints_sublist _ maxPoints
      refine Iff.trans ?_ (reports_subset_iff positive admitted sorted sampled aggregation)
      constructor
      · intro keeps
        obtain ⟨fuel, answered⟩ :=
          self.execute_windows query aggregates sized positive scanned querySampled keptFit
        obtain ⟨fuel, all, answeredAll, included⟩ := keeps fuel _ answered
        cases self.reports_of_execute query.withoutMaxPoints aggregates sized scanned rfl fit
          answeredAll
        exact included
      · intro included fuel reports answered
        cases self.reports_of_execute query aggregates sized scanned querySampled keptFit answered
        obtain ⟨fuel, answeredAll⟩ :=
          self.execute_windows query.withoutMaxPoints aggregates sized positive scanned rfl fit
        exact ⟨fuel, _, answeredAll, fun report member => included member⟩

/-- After any run, a limit on the points of an aggregating query whose windows stay in range
falsifies no report exactly if the kept points make up whole windows.
-/
theorem limit_keeps_reports_iff (operations : List StoreOp) {query : Query}
    {aggregation : Aggregation} {windowSize : UInt64} {maxPoints : Nat}
    (aggregates : query.aggregation = some aggregation)
    (sized : query.windowSize = some windowSize) (positive : 1 ≤ windowSize)
    (limited : query.maxPoints = some maxPoints) (admitted : 1 ≤ maxPoints)
    : let engine : QueryEngine := { storage := after TSMap.step TSMap.new operations }
      engine.WindowsExact query.withoutMaxPoints
      → (engine.LimitKeepsReports query
        ↔ engine.LimitKeepsWindows query windowSize maxPoints) :=
  QueryEngine.limitKeepsReports_iff aggregates sized positive limited admitted

/-- Two points in windows of their own, with a limit of one. -/
theorem limit_keeps_reports_iff_sample
    : let operations : List StoreOp := [
        .insert "metric" ⟨1000, ⟨1⟩⟩, .insert "metric" ⟨1100, ⟨2⟩⟩
      ]
      let engine : QueryEngine := { storage := after TSMap.step TSMap.new operations }
      engine.LimitKeepsReports
        (((Query.new "metric" 0 2000).withAggregation .sum 60).withMaxPoints 1) := by
  intro operations engine
  have selected : engine.selectedPoints
      (((Query.new "metric" 0 2000).withAggregation .sum 60).withMaxPoints 1).withoutMaxPoints
      = [⟨1000, ⟨1⟩⟩, ⟨1100, ⟨2⟩⟩] := rfl
  refine (limit_keeps_reports_iff operations rfl rfl (by decide) rfl (Nat.le_refl 1) ?_).mpr ?_
  · intro _ windowSize sized
    cases sized
    rw [selected]
    decide
  · rw [QueryEngine.LimitKeepsWindows, selected]
    decide

/-- Two points in one window, with a limit of one: the sum is that of the first point. -/
theorem limited_sum_falsified
    : ¬ (∀ (operations : List StoreOp) (query : Query) (windowSize : UInt64) (maxPoints : Nat),
          query.aggregation.isSome
          → query.windowSize = some windowSize
          → 1 ≤ windowSize
          → query.maxPoints = some maxPoints
          → 1 ≤ maxPoints
          → let engine : QueryEngine := { storage := after TSMap.step TSMap.new operations }
            engine.WindowsExact query.withoutMaxPoints
            → engine.LimitKeepsReports query) := by
  intro kept
  let operations : List StoreOp := [
    .insert "metric" ⟨1000, ⟨1⟩⟩, .insert "metric" ⟨1100, ⟨2⟩⟩
  ]
  let query := ((Query.new "metric" 0 2000).withAggregation .sum 1000).withMaxPoints 1
  let engine : QueryEngine := { storage := after TSMap.step TSMap.new operations }
  have selected : engine.selectedPoints query.withoutMaxPoints
      = [⟨1000, ⟨1⟩⟩, ⟨1100, ⟨2⟩⟩] := rfl
  have fit : engine.WindowsExact query.withoutMaxPoints := by
    intro _ windowSize sized
    cases sized
    rw [selected]
    decide
  have whole := (QueryEngine.limitKeepsReports_iff rfl rfl (by decide) rfl (Nat.le_refl 1) fit).mp
    (kept operations query 1000 1 rfl rfl (by decide) rfl (Nat.le_refl 1) fit)
  rw [QueryEngine.LimitKeepsWindows, selected] at whole
  exact absurd whole (by decide)

end GorillaTsdb.Querying

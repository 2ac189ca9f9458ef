import GorillaTsdb.Foundations.SplitGroups
import GorillaTsdb.Querying.ExecutionOutcomes
import GorillaTsdb.Querying.LimitedAggregates
import GorillaTsdb.Querying.Rollups
import GorillaTsdb.Storage.RangeQueries

/-! Aggregated queries, page by page.
The windows of a query are counted from its first point, wherever its range begins. So the pages of
a range report what the range does exactly if each page starts where a window does.
-/

namespace GorillaTsdb.Querying

open Foundations.EventHistories
open Foundations.FueledPrograms
open Foundations.Grouping
open Foundations.StableSorting
open GorillaTsdb.Storage

/-- What is reported for points in the order of time. -/
def windowReports (aggregation : Aggregation) (windowSize : UInt64)
    : List DataPoint → List AggregatedPoint
  | [] => []
  | firstPoint :: rest =>
      (windowGroups firstPoint rest windowSize).map
        (windowReport aggregation firstPoint.timestamp windowSize)

/-- The reports of an answer; an empty range is answered with points. -/
def QueryResult.reports : QueryResult → List AggregatedPoint
  | .points _ => []
  | .aggregated reports => reports

-----------------------------------------------------------------------------------------
-- Points in two parts
-----------------------------------------------------------------------------------------

section Parts

variable {aggregation : Aggregation} {windowSize : UInt64} {firstPoint nextPoint : DataPoint}
  {rest others : List DataPoint}

/-- The first window starts at the first point. -/
theorem windowReports_head (aggregation : Aggregation) (windowSize : UInt64)
    (firstPoint : DataPoint) (rest : List DataPoint)
    : ∃ report ∈ windowReports aggregation windowSize (firstPoint :: rest),
        report.timestamp = firstPoint.timestamp := by
  obtain ⟨others, more, found⟩ := windowGroups_cons firstPoint rest windowSize
  rw [windowReports, found, List.map_cons]
  exact ⟨_, List.mem_cons_self, windowReport_zero aggregation firstPoint.timestamp windowSize _ _⟩

/-- Every window starts a number of window sizes behind the first point. -/
theorem dvd_of_mem_windowReports (positive : 1 ≤ windowSize)
    (sorted : (firstPoint :: rest).Pairwise fun left right => left.timestamp ≤ right.timestamp)
    (aggregation : Aggregation) {report : AggregatedPoint}
    (member : report ∈ windowReports aggregation windowSize (firstPoint :: rest))
    : windowSize.toNat ∣ report.timestamp.toNat - firstPoint.timestamp.toNat := by
  obtain ⟨window, windowMember, rfl⟩ := List.mem_map.mp member
  have older := head_le sorted _ List.getLastD_mem_cons
  have stands := windowReport_timestamp positive older windowMember aggregation
  rw [stands, Nat.add_sub_cancel_left]
  exact Nat.dvd_mul_left ..

/-- Counted from the start of a later window, the numbers of the points are smaller by its
number.
-/
theorem windowNumber_later (positive : 1 ≤ windowSize) {start next : UInt64} {number : Nat}
    (stands : next.toNat = start.toNat + number * windowSize.toNat) {point : DataPoint}
    (older : next ≤ point.timestamp)
    : windowNumber start windowSize point = number + windowNumber next windowSize point := by
  have size : 0 < windowSize.toNat := UInt64.le_iff_toNat_le.mp positive
  have later := UInt64.le_iff_toNat_le.mp older
  have distance : point.timestamp.toNat - start.toNat
      = number * windowSize.toNat + (point.timestamp.toNat - next.toNat) := by omega
  rw [windowNumber, windowNumber, distance, Nat.add_comm, Nat.add_mul_div_right _ _ size,
    Nat.add_comm]

/-- The report of a window does not depend on where the windows are counted from. -/
theorem windowReport_renumber {start next : UInt64} {number : Nat}
    (stands : next.toNat = start.toNat + number * windowSize.toNat) (window : ItemGroup DataPoint)
    : windowReport aggregation start windowSize (window.renumber number)
      = windowReport aggregation next windowSize window := by
  have place : start.toNat + (number + window.number) * windowSize.toNat
      = next.toNat + window.number * windowSize.toNat := by
    rw [stands, Nat.add_mul, Nat.add_assoc]
  have starts : UInt64.ofNat (start.toNat + (number + window.number) * windowSize.toNat)
      = UInt64.ofNat (next.toNat + window.number * windowSize.toNat) := congrArg _ place
  exact congrArg (fun timestamp => AggregatedPoint.mk timestamp _ _) starts

/-- If the second part starts where a window of the first one does, both parts report what the
whole does.
-/
theorem windowReports_append (positive : 1 ≤ windowSize)
    (sorted
      : (firstPoint :: rest ++ nextPoint :: others).Pairwise
          fun left right => left.timestamp ≤ right.timestamp)
    (apart : ∀ point ∈ firstPoint :: rest, point.timestamp < nextPoint.timestamp)
    (starts : windowSize.toNat ∣ nextPoint.timestamp.toNat - firstPoint.timestamp.toNat)
    : windowReports aggregation windowSize (firstPoint :: rest ++ nextPoint :: others)
      = windowReports aggregation windowSize (firstPoint :: rest)
        ++ windowReports aggregation windowSize (nextPoint :: others) := by
  obtain ⟨frontSorted, backSorted, -⟩ := List.pairwise_append.mp sorted
  have size : 0 < windowSize.toNat := UInt64.le_iff_toNat_le.mp positive
  have frontOldest := head_le frontSorted
  have backOldest := head_le backSorted
  obtain ⟨number, distance⟩ := starts
  have after := UInt64.lt_iff_toNat_lt.mp (apart firstPoint List.mem_cons_self)
  have stands : nextPoint.timestamp.toNat
      = firstPoint.timestamp.toNat + number * windowSize.toNat := by
    rw [Nat.mul_comm]
    omega
  let numberOf := windowNumber firstPoint.timestamp windowSize
  have later (point : DataPoint) (member : point ∈ nextPoint :: others) :=
    windowNumber_later positive stands (backOldest point member)
  have before : ∀ point ∈ firstPoint :: rest, numberOf point < number := by
    intro point member
    have older := UInt64.le_iff_toNat_le.mp (frontOldest point member)
    have below := UInt64.lt_iff_toNat_lt.mp (apart point member)
    refine (Nat.div_lt_iff_lt_mul size).mpr ?_
    omega
  have behind : ∀ point ∈ nextPoint :: others, number ≤ numberOf point := by
    intro point member
    exact (Nat.le_add_right ..).trans (later point member).ge
  have last := later (others.getLastD nextPoint) List.getLastD_mem_cons
  -- the windows of the whole are cut where the second part starts
  have cut : windowGroups firstPoint (rest ++ nextPoint :: others) windowSize
      = windowGroups firstPoint rest windowSize
        ++ (windowGroups nextPoint others windowSize).map (ItemGroup.renumber number) := by
    have ends : (rest ++ nextPoint :: others).getLastD firstPoint = others.getLastD nextPoint :=
      getLastD_append_cons rest others nextPoint firstPoint
    have within (point : DataPoint) (member : point ∈ firstPoint :: rest)
        : numberOf point < numberOf (rest.getLastD firstPoint) + 1 :=
      Nat.lt_succ_of_le (windowNumber_le (le_getLastD frontSorted member))
    have same : ∀ point ∈ nextPoint :: others,
        numberOf point - number = windowNumber nextPoint.timestamp windowSize point := by
      intro point member
      have moved : numberOf point = _ := later point member
      omega
    have split
        : groups numberOf
            (number
              + (windowNumber nextPoint.timestamp windowSize (others.getLastD nextPoint) + 1))
            (firstPoint :: rest ++ nextPoint :: others)
          = _ :=
      groups_append before behind
    rw [groups_congr same, groups_bound before within] at split
    rw [windowGroups, ends, last]
    exact split
  rw [List.cons_append, windowReports, cut, List.map_append, List.map_map]
  refine congrArg (_ ++ ·) (List.map_congr_left fun window _ => ?_)
  exact windowReport_renumber stands window

/-- Otherwise the second part has a report that the whole does not have. -/
theorem windowReports_append_iff (positive : 1 ≤ windowSize)
    (sorted
      : (firstPoint :: rest ++ nextPoint :: others).Pairwise
          fun left right => left.timestamp ≤ right.timestamp)
    (apart : ∀ point ∈ firstPoint :: rest, point.timestamp < nextPoint.timestamp)
    : windowReports aggregation windowSize (firstPoint :: rest ++ nextPoint :: others)
        = windowReports aggregation windowSize (firstPoint :: rest)
          ++ windowReports aggregation windowSize (nextPoint :: others)
      ↔ windowSize.toNat ∣ nextPoint.timestamp.toNat - firstPoint.timestamp.toNat := by
  constructor
  · intro same
    obtain ⟨report, member, start⟩ :=
      windowReports_head aggregation windowSize nextPoint others
    have whole
        : report
          ∈ windowReports aggregation windowSize (firstPoint :: rest ++ nextPoint :: others) := by
      rw [same]
      exact List.mem_append_right _ member
    rw [← start]
    exact dvd_of_mem_windowReports positive sorted aggregation whole
  · exact windowReports_append positive sorted apart

end Parts

-----------------------------------------------------------------------------------------
-- Pages
-----------------------------------------------------------------------------------------

/-- Points with room for a window behind them are reported as they should be. -/
theorem QueryEngine.returns_reports (self : QueryEngine) {key : TimeSeriesKey}
    {points : List DataPoint} {low high windowSize : UInt64} (positive : 1 ≤ windowSize)
    (aggregation : Aggregation) (scanned : self.storage.scanRange key low high = .ok points)
    (room : ∀ point ∈ points, point.timestamp.toNat + windowSize.toNat < 2 ^ 64)
    : ∃ result,
        Returns (self.execute ((Query.new key low high).withAggregation aggregation windowSize))
          (.ok result)
        ∧ result.reports = windowReports aggregation windowSize points := by
  let query := (Query.new key low high).withAggregation aggregation windowSize
  cases points with
  | nil =>
      obtain ⟨ordered, -, -⟩ := TSMap.scanRange_eq_ok.mp scanned
      have valid : query.validate = .ok () := Query.validate_eq_ok.mpr ⟨ordered, fun _ => rfl⟩
      refine ⟨.points [], ⟨0, ?_⟩, rfl⟩
      have found : self.storage.scanRange query.key query.startTime query.endTime = .ok [] :=
        scanned
      rw [self.execute_of_valid valid, found]
      rfl
  | cons firstPoint rest =>
      have sorted := TSMap.scanRange_sorted scanned
      have fits := windowsFit_of_room positive (head_le sorted _ List.getLastD_mem_cons)
        (room _ List.getLastD_mem_cons)
      have answered := self.execute_windows query rfl rfl positive scanned rfl fits
      exact ⟨_, answered, rfl⟩

/-- Two pages of a range report what the range does exactly if the second page starts where a
window of the first one does, or one of them holds no point. The store may have any content, as
long as every open point of the range has room for a window behind it.
-/
theorem aggregates_page_iff (self : QueryEngine) (aggregation : Aggregation)
    (key : TimeSeriesKey) (low middle high windowSize : UInt64)
    (present : key ∈ self.storage.keys) (first : low ≤ middle) (second : middle < high)
    (positive : 1 ≤ windowSize)
    (room
      : ∀ point ∈ (self.storage.storageOf key).currentPoints,
          inRange low high point → point.timestamp.toNat + windowSize.toNat < 2 ^ 64)
    : let page (start finish : UInt64) :=
        self.execute ((Query.new key start finish).withAggregation aggregation windowSize)
      ∃ left right front back whole,
        self.storage.scanRange key low middle = .ok left
        ∧ self.storage.scanRange key (middle + 1) high = .ok right
        ∧ Returns (page low middle) (.ok front)
        ∧ Returns (page (middle + 1) high) (.ok back)
        ∧ Returns (page low high) (.ok whole)
        ∧ (whole.reports = front.reports ++ back.reports
          ↔ ∀ point ∈ left.head?,
              ∀ next ∈ right.head?,
                windowSize.toNat ∣ next.timestamp.toNat - point.timestamp.toNat) := by
  intro page
  obtain ⟨left, right, leftScanned, rightScanned, scanned, apart⟩ :=
    self.storage.scanRange_parts present first second
  have within : ∀ point ∈ left ++ right, point.timestamp.toNat + windowSize.toNat < 2 ^ 64 := by
    intro point member
    obtain ⟨opened, inside⟩ := (TSMap.mem_scanRange scanned).mp member
    exact room point opened inside
  obtain ⟨leftWithin, rightWithin⟩ := List.forall_mem_append.mp within
  obtain ⟨front, frontRan, frontReports⟩ :=
    self.returns_reports positive aggregation leftScanned leftWithin
  obtain ⟨back, backRan, backReports⟩ :=
    self.returns_reports positive aggregation rightScanned rightWithin
  obtain ⟨whole, wholeRan, wholeReports⟩ :=
    self.returns_reports positive aggregation scanned within
  refine ⟨left, right, front, back, whole, leftScanned, rightScanned, frontRan, backRan, wholeRan,
    ?_⟩
  rw [frontReports, backReports, wholeReports]
  have sorted := TSMap.scanRange_sorted scanned
  rcases left with _ | ⟨firstPoint, rest⟩
  · exact iff_of_true rfl nofun
  · rcases right with _ | ⟨nextPoint, others⟩
    · refine iff_of_true ?_ fun _ _ => nofun
      rw [List.append_nil, windowReports.eq_1, List.append_nil]
    · simp only [List.head?_cons, Option.mem_def, Option.some.injEq, forall_eq']
      exact windowReports_append_iff positive sorted
        fun point member => apart point member nextPoint List.mem_cons_self

/-- Witness: the range ends with the type, and its second page starts two windows behind the first
point.
-/
theorem aggregates_page_iff_sample
    : let operations : List StoreOp := [
        .insert "metric" ⟨0, ⟨1⟩⟩, .insert "metric" ⟨120, ⟨2⟩⟩
      ]
      let engine := QueryEngine.new (after TSMap.step TSMap.new operations)
      let page (start finish : UInt64) :=
        engine.execute ((Query.new "metric" start finish).withAggregation .max 60)
      ∃ front back whole,
        Returns (page 0 90) (.ok front)
        ∧ Returns (page 91 0xffffffffffffffff) (.ok back)
        ∧ Returns (page 0 0xffffffffffffffff) (.ok whole)
        ∧ whole.reports = front.reports ++ back.reports := by
  intro operations engine page
  obtain ⟨left, right, front, back, whole, leftScanned, rightScanned, frontRan, backRan, wholeRan,
      same⟩ :=
    aggregates_page_iff engine .max "metric" 0 90 0xffffffffffffffff 60 (by decide) (by decide)
      (by decide) (by decide) (by decide)
  have leftPoints : engine.storage.scanRange "metric" 0 90 = .ok [⟨0, ⟨1⟩⟩] := by rfl
  have rightPoints : engine.storage.scanRange "metric" (90 + 1) 0xffffffffffffffff
      = .ok [⟨120, ⟨2⟩⟩] := by rfl
  cases leftPoints.symm.trans leftScanned
  cases rightPoints.symm.trans rightScanned
  refine ⟨front, back, whole, frontRan, backRan, wholeRan, same.mpr ?_⟩
  intro point first next second
  cases first
  cases second
  decide

end GorillaTsdb.Querying

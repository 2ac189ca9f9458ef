import GorillaTsdb.Foundations.NestedGroups
import GorillaTsdb.Querying.Windows

/-! Coarse windows from fine ones.
The windows of a multiple of a size hold whole windows of that size. So their counts add up, and
the values that are picked from the points may be picked from the fine windows instead. Of tied
zeros either may be picked.
-/

namespace GorillaTsdb.Querying

open Foundations.Grouping

/-- A reported window as a point at its start, to be aggregated once more. -/
def AggregatedPoint.toPoint (self : AggregatedPoint) : DataPoint where
  timestamp := self.timestamp
  value := self.value

-----------------------------------------------------------------------------------------
-- Values
-----------------------------------------------------------------------------------------

/-- What stands in front of an item does not change which one is last, by induction on it. -/
theorem getLastD_append_cons {α : Type} (front back : List α) (item default : α)
    : (front ++ item :: back).getLastD default = back.getLastD item := by
  induction front generalizing default with
  | nil => exact List.getLastD_cons
  | cons first rest ih => exact List.getLastD_cons.trans (ih first)

/-- The last item of some groups is that of the last one, by induction on the groups. -/
theorem getLastD_flatten {α : Type} (group : ItemGroup α) (rest : List (ItemGroup α))
    : (group.rest ++ rest.flatMap ItemGroup.items).getLastD group.first
      = (rest.getLastD group).rest.getLastD (rest.getLastD group).first := by
  induction rest generalizing group with
  | nil => rw [List.flatMap_nil, List.append_nil, List.getLastD_nil]
  | cons next others ih =>
      rw [List.flatMap_cons, ItemGroup.items, List.cons_append, getLastD_append_cons, ih next,
        List.getLastD_cons]

/-- The value of the first or the last point of a coarse window is that of a fine one. -/
theorem aggregatedValue_place {aggregation : Aggregation}
    (place : aggregation = .first ∨ aggregation = .last) (start windowSize : UInt64)
    (windows : ItemGroup (ItemGroup DataPoint))
    : aggregatedValue aggregation windows.flatten.first windows.flatten.rest
      = aggregatedValue aggregation
          (windowReport aggregation start windowSize windows.first).toPoint
          (windows.rest.map fun window =>
            (windowReport aggregation start windowSize window).toPoint) := by
  rcases place with rfl | rfl
  · rfl
  · have last := getLastD_flatten windows.first windows.rest
    change ((windows.flatten.rest).getLastD windows.flatten.first).value = _
    rw [ItemGroup.flatten, last, aggregatedValue, List.getLastD_map]
    rfl

/-- What is picked from the picks of the fine windows is a number, and has the rank of what is
picked from all their points.
-/
theorem rank_foldl_flatten {ι : Type} [LinearOrder ι] {rank : F64 → ι} {pick : F64 → F64 → F64}
    {start : F64} (picking : Picking rank pick (fun value => value.isNan = false) start)
    (windows : ItemGroup (ItemGroup DataPoint))
    : let ofPoints := (windows.flatten.items.map DataPoint.value).foldl pick start
      let ofWindows := (windows.items.map fun window =>
        (window.items.map DataPoint.value).foldl pick start).foldl pick start
      ofWindows.isNan = false ∧ ofPoints.isNan = false ∧ rank ofWindows = rank ofPoints := by
  intro ofPoints ofWindows
  refine ⟨(picking.foldl_least _ picking.admits).1, (picking.foldl_least _ picking.admits).1, ?_⟩
  have parts : windows.flatten.items.map DataPoint.value
      = (windows.items.map fun window => window.items.map DataPoint.value).flatten := by
    rw [ItemGroup.items_flatten, List.flatMap_def, List.map_flatten, List.map_map]
    rfl
  have folded := picking.rank_foldl_parts
    (windows.items.map fun window => window.items.map DataPoint.value)
  rw [← parts, List.map_map] at folded
  exact folded

/-- The least or the greatest value of the fine windows is that of their points, as a number. -/
theorem aggregatedValue_extreme {aggregation : Aggregation}
    (extreme : aggregation = .min ∨ aggregation = .max) (start windowSize : UInt64)
    (windows : ItemGroup (ItemGroup DataPoint))
    : F64.SameNumber
        (aggregatedValue aggregation
          (windowReport aggregation start windowSize windows.first).toPoint
          (windows.rest.map fun window =>
            (windowReport aggregation start windowSize window).toPoint))
        (aggregatedValue aggregation windows.flatten.first windows.flatten.rest) := by
  rcases extreme with rfl | rfl
  · obtain ⟨left, right, same⟩ := rank_foldl_flatten F64.min_picking windows
    have folded := (F64.sameNumber_iff_rank left right).mpr same
    simpa only [aggregatedValue, windowReport, AggregatedPoint.toPoint, ItemGroup.items,
      List.map_cons, List.map_map, Function.comp_def] using folded
  · obtain ⟨left, right, same⟩ := rank_foldl_flatten F64.max_picking windows
    have folded := (F64.sameNumber_iff_rank left right).mpr (OrderDual.toDual.injective same)
    simpa only [aggregatedValue, windowReport, AggregatedPoint.toPoint, ItemGroup.items,
      List.map_cons, List.map_map, Function.comp_def] using folded

-----------------------------------------------------------------------------------------
-- Windows
-----------------------------------------------------------------------------------------

/-- The number of a coarse window is the quotient of that of the fine one. -/
theorem windowNumber_quotient {windowSize coarseSize : UInt64} {factor : Nat}
    (multiple : coarseSize.toNat = factor * windowSize.toNat) (start : UInt64) (point : DataPoint)
    : windowNumber start coarseSize point = windowNumber start windowSize point / factor := by
  rw [windowNumber, windowNumber, multiple, Nat.mul_comm, Nat.div_div_eq_div_mul]

/-- The fine windows in each coarse one. -/
def nestedWindows (firstPoint : DataPoint) (rest : List DataPoint) (windowSize : UInt64)
    (factor : Nat)
    : List (ItemGroup (ItemGroup DataPoint)) :=
  let number := windowNumber firstPoint.timestamp windowSize
  groups (fun window => window.number / factor) (number (rest.getLastD firstPoint) / factor + 1)
    (windowGroups firstPoint rest windowSize)

section Windows

variable {firstPoint : DataPoint} {rest : List DataPoint} {windowSize coarseSize : UInt64}
  {factor : Nat}

/-- The coarse windows are the fine ones put together. -/
theorem windowGroups_quotient
    (sorted : (firstPoint :: rest).Pairwise fun left right => left.timestamp ≤ right.timestamp)
    (multiple : coarseSize.toNat = factor * windowSize.toNat)
    : windowGroups firstPoint rest coarseSize
      = (nestedWindows firstPoint rest windowSize factor).map ItemGroup.flatten := by
  have below : ∀ point ∈ firstPoint :: rest,
      windowNumber firstPoint.timestamp windowSize point
        < windowNumber firstPoint.timestamp windowSize (rest.getLastD firstPoint) + 1 :=
    fun point member => Nat.lt_succ_of_le (windowNumber_le (le_getLastD sorted member))
  have coarse : windowNumber firstPoint.timestamp coarseSize
      = fun point => windowNumber firstPoint.timestamp windowSize point / factor :=
    funext (windowNumber_quotient multiple firstPoint.timestamp)
  rw [windowGroups, coarse]
  exact groups_quotient (sorted.imp windowNumber_le) below factor _

/-- The reports of the fine windows, as points. -/
def reportPoints (aggregation : Aggregation) (firstPoint : DataPoint) (rest : List DataPoint)
    (windowSize : UInt64)
    : List DataPoint :=
  (windowGroups firstPoint rest windowSize).map fun window =>
    (windowReport aggregation firstPoint.timestamp windowSize window).toPoint

/-- The first window is that of the first point. -/
theorem windowGroups_cons (firstPoint : DataPoint) (rest : List DataPoint) (windowSize : UInt64)
    : ∃ others more,
        windowGroups firstPoint rest windowSize
        = { number := 0, first := firstPoint, rest := others } :: more := by
  have zero : windowNumber firstPoint.timestamp windowSize firstPoint = 0 := by
    rw [windowNumber, Nat.sub_self, Nat.zero_div]
  exact groups_cons zero _

theorem windowReport_zero (aggregation : Aggregation) (start windowSize : UInt64)
    (first : DataPoint) (rest : List DataPoint)
    : (windowReport aggregation start windowSize { number := 0, first, rest }).timestamp
      = start := by
  rw [windowReport, Nat.zero_mul, Nat.add_zero, UInt64.ofNat_toNat]

/-- The reports start where the points start. -/
theorem exists_reportPoints (aggregation : Aggregation) (firstPoint : DataPoint)
    (rest : List DataPoint) (windowSize : UInt64)
    : ∃ firstReport restReports,
        reportPoints aggregation firstPoint rest windowSize = firstReport :: restReports
        ∧ firstReport.timestamp = firstPoint.timestamp := by
  obtain ⟨others, more, found⟩ := windowGroups_cons firstPoint rest windowSize
  rw [reportPoints, found, List.map_cons]
  exact ⟨_, _, rfl, windowReport_zero aggregation firstPoint.timestamp windowSize _ _⟩

/-- A report stands where its window starts, so its coarse window is that of its points. -/
theorem windowNumber_report (positive : 1 ≤ windowSize)
    (older : firstPoint.timestamp ≤ (rest.getLastD firstPoint).timestamp)
    (multiple : coarseSize.toNat = factor * windowSize.toNat)
    {window : ItemGroup DataPoint} (member : window ∈ windowGroups firstPoint rest windowSize)
    (aggregation : Aggregation)
    : windowNumber firstPoint.timestamp coarseSize
          (windowReport aggregation firstPoint.timestamp windowSize window).toPoint
        = window.number / factor := by
  have size : 0 < windowSize.toNat := UInt64.le_iff_toNat_le.mp positive
  have stands := windowReport_timestamp positive older member aggregation
  rw [windowNumber, AggregatedPoint.toPoint, stands, Nat.add_sub_cancel_left, multiple,
    Nat.mul_div_mul_right _ _ size]

/-- The reports come in the order of their windows, and none behind the last point. -/
theorem reportPoints_sorted (aggregation : Aggregation) (positive : 1 ≤ windowSize)
    (older : firstPoint.timestamp ≤ (rest.getLastD firstPoint).timestamp)
    : (reportPoints aggregation firstPoint rest windowSize).Pairwise
          (fun left right => left.timestamp ≤ right.timestamp)
      ∧ ∀ report ∈ reportPoints aggregation firstPoint rest windowSize,
          report.timestamp ≤ (rest.getLastD firstPoint).timestamp := by
  constructor
  · refine List.pairwise_map.mpr ((pairwise_groups _ _ _).imp_of_mem ?_)
    intro left right leftMember rightMember before
    have leftStands := windowReport_timestamp positive older leftMember aggregation
    have rightStands := windowReport_timestamp positive older rightMember aggregation
    have scaled := Nat.mul_le_mul_right windowSize.toNat before.le
    refine UInt64.le_iff_toNat_le.mpr ?_
    rw [AggregatedPoint.toPoint, AggregatedPoint.toPoint, leftStands, rightStands]
    omega
  · intro report member
    obtain ⟨window, windowMember, rfl⟩ := List.mem_map.mp member
    have stands := windowReport_timestamp positive older windowMember aggregation
    have scaled := Nat.mul_le_mul_right windowSize.toNat
      (Nat.le_of_lt_succ (mem_groups windowMember).1)
    have last := (windowNumber_bounds positive older).1
    refine UInt64.le_iff_toNat_le.mpr ?_
    rw [AggregatedPoint.toPoint, stands]
    omega

/-- Aggregated once more, the reports fall into the same coarse windows as their points. -/
theorem windowGroups_reportPoints (aggregation : Aggregation) (positive : 1 ≤ windowSize)
    (older : firstPoint.timestamp ≤ (rest.getLastD firstPoint).timestamp)
    (multiple : coarseSize.toNat = factor * windowSize.toNat) {firstReport : DataPoint}
    {restReports : List DataPoint}
    (reports : reportPoints aggregation firstPoint rest windowSize = firstReport :: restReports)
    (start : firstReport.timestamp = firstPoint.timestamp)
    : windowGroups firstReport restReports coarseSize
      = (nestedWindows firstPoint rest windowSize factor).map
          (ItemGroup.map fun window =>
            (windowReport aggregation firstPoint.timestamp windowSize window).toPoint) := by
  let report (window : ItemGroup DataPoint) : DataPoint :=
    (windowReport aggregation firstPoint.timestamp windowSize window).toPoint
  let number := windowNumber firstPoint.timestamp coarseSize
  let fine := windowGroups firstPoint rest windowSize
  have sorted := (reportPoints_sorted aggregation positive older).1
  rw [reports] at sorted
  have same : ∀ window ∈ fine, (number ∘ report) window = window.number / factor :=
    fun window member => windowNumber_report positive older multiple member aggregation
  have belowReports : ∀ window ∈ fine,
      window.number / factor < number (restReports.getLastD firstReport) + 1 := by
    intro window member
    have reported : report window ∈ firstReport :: restReports := by
      rw [← reports]
      exact List.mem_map_of_mem member
    rw [← same window member]
    exact Nat.lt_succ_of_le (windowNumber_le (le_getLastD sorted reported))
  have belowPoints : ∀ window ∈ fine,
      window.number / factor
        < windowNumber firstPoint.timestamp windowSize (rest.getLastD firstPoint) / factor + 1 := by
    intro window member
    have within := Nat.le_of_lt_succ (mem_groups member).1
    exact Nat.lt_succ_of_le (Nat.div_le_div_right within)
  rw [windowGroups, start, ← reports]
  refine (groups_map number report _ fine).trans (congrArg _ ?_)
  rw [groups_congr same]
  exact groups_bound belowReports belowPoints

/-- A report counts the points of the fine reports that start inside its window. -/
theorem count_nestedWindow (aggregation : Aggregation)
    (sorted : (firstPoint :: rest).Pairwise fun left right => left.timestamp ≤ right.timestamp)
    (positive : 1 ≤ windowSize) (multiple : coarseSize.toNat = factor * windowSize.toNat)
    (coarsePositive : 1 ≤ coarseSize) {windows : ItemGroup (ItemGroup DataPoint)}
    (member : windows ∈ nestedWindows firstPoint rest windowSize factor)
    : let report := windowReport aggregation firstPoint.timestamp coarseSize windows.flatten
      let fine := (windowGroups firstPoint rest windowSize).map
        (windowReport aggregation firstPoint.timestamp windowSize)
      report.count
      = ((fine.filter fun part =>
            report.timestamp ≤ part.timestamp
            && part.timestamp.toNat < report.timestamp.toNat + coarseSize.toNat).map
          AggregatedPoint.count).sum := by
  intro report fine
  have older := head_le sorted _ List.getLastD_mem_cons
  have size : 0 < windowSize.toNat := UInt64.le_iff_toNat_le.mp positive
  have coarse : windows.flatten ∈ windowGroups firstPoint rest coarseSize := by
    rw [windowGroups_quotient sorted multiple]
    exact List.mem_map_of_mem member
  have stands : report.timestamp.toNat
      = firstPoint.timestamp.toNat + windows.number * coarseSize.toNat :=
    windowReport_timestamp coarsePositive older coarse aggregation
  have inside : fine.filter (fun part =>
        report.timestamp ≤ part.timestamp
        && part.timestamp.toNat < report.timestamp.toNat + coarseSize.toNat)
      = windows.items.map (windowReport aggregation firstPoint.timestamp windowSize) := by
    rw [(mem_groups member).2, List.filter_map]
    refine congrArg _ (List.filter_congr fun window windowMember => ?_)
    have part := windowReport_timestamp positive older windowMember aggregation
    have factorPositive : 0 < factor := by
      have nonzero := UInt64.le_iff_toNat_le.mp coarsePositive
      rw [multiple] at nonzero
      exact Nat.pos_of_mul_pos_right nonzero
    have lower : windows.number * coarseSize.toNat ≤ window.number * windowSize.toNat
        ↔ windows.number * factor ≤ window.number := by
      rw [multiple, ← Nat.mul_assoc]
      exact Nat.mul_le_mul_right_iff size
    have upper : window.number * windowSize.toNat < (windows.number + 1) * coarseSize.toNat
        ↔ window.number < (windows.number + 1) * factor := by
      rw [multiple, ← Nat.mul_assoc]
      exact Nat.mul_lt_mul_right size
    have quotient : window.number / factor = windows.number
        ↔ windows.number * factor ≤ window.number
          ∧ window.number < (windows.number + 1) * factor := by
      rw [Nat.div_eq_iff factorPositive, Nat.add_one_mul]
      omega
    rw [Nat.add_one_mul] at upper
    rw [Function.comp_apply, Bool.eq_iff_iff, decide_eq_true_iff, quotient, ← lower, ← upper,
      Bool.and_eq_true, decide_eq_true_iff, decide_eq_true_iff, UInt64.le_iff_toNat_le, part,
      stands]
    omega
  rw [inside, List.map_map]
  change (windows.items.flatMap ItemGroup.items).length = _
  rw [List.length_flatMap]
  rfl

/-- Sorted points with room behind them are aggregated, given enough rounds. -/
theorem exists_rounds (aggregation : Aggregation)
    (sorted : (firstPoint :: rest).Pairwise fun left right => left.timestamp ≤ right.timestamp)
    (positive : 1 ≤ windowSize)
    (room : (rest.getLastD firstPoint).timestamp.toNat + windowSize.toNat < 2 ^ 64)
    : ∃ rounds,
        ∀ fuel ≥ rounds,
          aggregatePoints (firstPoint :: rest) aggregation windowSize fuel
          = some (.ok ((windowGroups firstPoint rest windowSize).map
              (windowReport aggregation firstPoint.timestamp windowSize))) := by
  have oldest := head_le sorted
  have within := windowsFit_of_room positive (oldest _ List.getLastD_mem_cons) room
  exact ⟨_, fun fuel enough => aggregatePoints_eq oldest positive within aggregation enough⟩

end Windows

/-- The windows of a multiple of a size are put together from those of the size. Aggregating the
reports once more gives windows at the same places. They have the same first and last values, be
they NaN or not, and the same least and greatest numbers; and every window counts what the fine
windows in it count.
-/
theorem windows_roll_up (aggregation : Aggregation) (firstPoint : DataPoint)
    (rest : List DataPoint) (windowSize coarseSize : UInt64) (factor : Nat)
    (sorted : (firstPoint :: rest).Pairwise fun left right => left.timestamp ≤ right.timestamp)
    (positive : 1 ≤ windowSize) (multiple : coarseSize.toNat = factor * windowSize.toNat)
    (coarsePositive : 1 ≤ coarseSize)
    (fits : (rest.getLastD firstPoint).timestamp.toNat + coarseSize.toNat < 2 ^ 64)
    : ∃ rounds fine coarse again,
        (∀ fuel ≥ rounds,
          aggregatePoints (firstPoint :: rest) aggregation windowSize fuel = some (.ok fine)
          ∧ aggregatePoints (firstPoint :: rest) aggregation coarseSize fuel = some (.ok coarse)
          ∧ aggregatePoints (fine.map AggregatedPoint.toPoint) aggregation coarseSize fuel
            = some (.ok again))
        ∧ again.map AggregatedPoint.timestamp = coarse.map AggregatedPoint.timestamp
        ∧ (aggregation = .first ∨ aggregation = .last
          → again.map AggregatedPoint.value = coarse.map AggregatedPoint.value)
        ∧ (aggregation = .min ∨ aggregation = .max
          → List.Forall₂ (fun left right => F64.SameNumber left.value right.value) again coarse)
        ∧ ∀ report ∈ coarse,
            report.count
            = ((fine.filter fun part =>
                  report.timestamp ≤ part.timestamp
                  && part.timestamp.toNat < report.timestamp.toNat + coarseSize.toNat).map
                AggregatedPoint.count).sum := by
  have oldest := head_le sorted
  have older := oldest _ List.getLastD_mem_cons
  have smaller : windowSize.toNat ≤ coarseSize.toNat := by
    rw [multiple]
    refine Nat.le_mul_of_pos_left _ (Nat.pos_of_ne_zero ?_)
    rintro rfl
    have nonzero := UInt64.le_iff_toNat_le.mp coarsePositive
    rw [multiple, Nat.zero_mul] at nonzero
    exact absurd nonzero (by decide)
  obtain ⟨firstReport, restReports, reports, start⟩ :=
    exists_reportPoints aggregation firstPoint rest windowSize
  obtain ⟨reportsSorted, bounded⟩ := reportPoints_sorted aggregation positive older
  rw [reports] at reportsSorted bounded
  have reportsOldest := head_le reportsSorted
  have lastReport := UInt64.le_iff_toNat_le.mp
    (bounded (restReports.getLastD firstReport) List.getLastD_mem_cons)
  obtain ⟨fineRounds, fineRuns⟩ := exists_rounds aggregation sorted positive
    (Nat.lt_of_le_of_lt (Nat.add_le_add_left smaller _) fits)
  obtain ⟨coarseRounds, coarseRuns⟩ := exists_rounds aggregation sorted coarsePositive fits
  obtain ⟨reportRounds, reportRuns⟩ := exists_rounds aggregation reportsSorted coarsePositive
    (Nat.lt_of_le_of_lt (Nat.add_le_add_right lastReport _) fits)
  let windows := nestedWindows firstPoint rest windowSize factor
  have coarseWindows : windowGroups firstPoint rest coarseSize = windows.map ItemGroup.flatten :=
    windowGroups_quotient sorted multiple
  rw [coarseWindows] at coarseRuns
  rw [windowGroups_reportPoints aggregation positive older multiple reports start, ← reports,
    start] at reportRuns
  refine ⟨fineRounds + coarseRounds + reportRounds,
    (windowGroups firstPoint rest windowSize).map
      (windowReport aggregation firstPoint.timestamp windowSize),
    (windows.map ItemGroup.flatten).map
      (windowReport aggregation firstPoint.timestamp coarseSize),
    (windows.map (ItemGroup.map fun window =>
        (windowReport aggregation firstPoint.timestamp windowSize window).toPoint)).map
      (windowReport aggregation firstPoint.timestamp coarseSize), ?_, ?_, ?_, ?_, ?_⟩
  · intro fuel enough
    refine ⟨fineRuns fuel (by omega), coarseRuns fuel (by omega), ?_⟩
    rw [List.map_map]
    exact reportRuns fuel (by omega)
  · simp only [List.map_map]
    rfl
  · intro place
    simp only [List.map_map]
    refine List.map_congr_left fun nested _ => ?_
    exact (aggregatedValue_place place firstPoint.timestamp windowSize nested).symm
  · intro extreme
    simp only [List.map_map, List.forall₂_map_left_iff, List.forall₂_map_right_iff,
      List.forall₂_same]
    intro nested _
    exact aggregatedValue_extreme extreme firstPoint.timestamp windowSize nested
  · intro report member
    obtain ⟨window, windowMember, rfl⟩ := List.mem_map.mp member
    obtain ⟨nested, nestedMember, rfl⟩ := List.mem_map.mp windowMember
    exact count_nestedWindow aggregation sorted positive multiple coarsePositive nestedMember

/-- Three windows of a minute become one of two minutes and one behind it. -/
theorem windows_roll_up_sample
    : ∃ rounds fine coarse again,
        (∀ fuel ≥ rounds,
          aggregatePoints [⟨0, ⟨1⟩⟩, ⟨60, ⟨2⟩⟩, ⟨125, ⟨3⟩⟩] .max 60 fuel = some (.ok fine)
          ∧ aggregatePoints [⟨0, ⟨1⟩⟩, ⟨60, ⟨2⟩⟩, ⟨125, ⟨3⟩⟩] .max 120 fuel
            = some (.ok coarse)
          ∧ aggregatePoints (fine.map AggregatedPoint.toPoint) .max 120 fuel = some (.ok again))
        ∧ List.Forall₂ (fun left right => F64.SameNumber left.value right.value) again coarse := by
  obtain ⟨rounds, fine, coarse, again, runs, -, -, same, -⟩ :=
    windows_roll_up .max ⟨0, ⟨1⟩⟩ [⟨60, ⟨2⟩⟩, ⟨125, ⟨3⟩⟩] 60 120 2 (by decide) (by decide)
      (by decide) (by decide) (by decide)
  exact ⟨rounds, fine, coarse, again, runs, same (.inr rfl)⟩

end GorillaTsdb.Querying

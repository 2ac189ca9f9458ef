import GorillaTsdb.Core.FloatPicks
import GorillaTsdb.Querying.Aggregation
import Mathlib.Data.List.Pairwise

/-! Windowed aggregation is a grouping of the points by the number of their window.
The loop visits the windows one after the other and filters all points for each. As long as the
window starts do not wrap, round `k` collects the points whose distance from the first one,
divided by the window size, is `k`.
-/

namespace GorillaTsdb.Querying

open Foundations.Grouping
open Foundations.WhileLoops

/-- The number of the window that a point falls into. -/
def windowNumber (start windowSize : UInt64) (point : DataPoint) : Nat :=
  (point.timestamp.toNat - start.toNat) / windowSize.toNat

/-- What is reported for a group of points. -/
def windowReport (aggregation : Aggregation) (start windowSize : UInt64)
    (group : ItemGroup DataPoint)
    : AggregatedPoint where
  timestamp := .ofNat (start.toNat + group.number * windowSize.toNat)
  value := aggregatedValue aggregation group.first group.rest
  count := group.items.length

/-- A round collects the points of its window number, since no point is older than the first
window.
-/
theorem windowPoints_eq {points : List DataPoint} {start windowSize : UInt64}
    (positive : 1 ≤ windowSize) (oldest : ∀ point ∈ points, start ≤ point.timestamp)
    {rounds : Nat} (fits : start.toNat + (rounds + 1) * windowSize.toNat < 2 ^ 64)
    : points.filter (fun point =>
          point.timestamp ≥ UInt64.ofNat (start.toNat + rounds * windowSize.toNat)
          && point.timestamp
            < UInt64.ofNat (start.toNat + rounds * windowSize.toNat) + windowSize)
      = points.filter fun point => windowNumber start windowSize point = rounds := by
  have size : 0 < windowSize.toNat := UInt64.le_iff_toNat_le.mp positive
  have next : (rounds + 1) * windowSize.toNat = rounds * windowSize.toNat + windowSize.toNat :=
    Nat.succ_mul ..
  refine List.filter_congr fun point member => ?_
  have first := UInt64.le_iff_toNat_le.mp (oldest point member)
  have number : windowNumber start windowSize point = rounds
      ↔ rounds * windowSize.toNat ≤ point.timestamp.toNat - start.toNat
        ∧ point.timestamp.toNat - start.toNat < (rounds + 1) * windowSize.toNat := by
    rw [windowNumber, Nat.div_eq_iff size]
    omega
  rw [Bool.eq_iff_iff, decide_eq_true_iff, number]
  simp only [Bool.and_eq_true, decide_eq_true_eq, ge_iff_le, UInt64.le_iff_toNat_le,
    UInt64.lt_iff_toNat_lt, UInt64.toNat_add, UInt64.toNat_ofNat']
  omega

/-- After some rounds, the loop stands at the next window and has reported the groups of the
earlier ones, by induction on the rounds.
-/
theorem aggregateWindow_iterate {points : List DataPoint} (aggregation : Aggregation)
    {start windowSize : UInt64} (positive : 1 ≤ windowSize)
    (oldest : ∀ point ∈ points, start ≤ point.timestamp)
    {rounds : Nat} (fits : start.toNat + rounds * windowSize.toNat < 2 ^ 64)
    : (aggregateWindow points aggregation windowSize)^[rounds]
          { currentWindowStart := start, result := [] }
      = {
          currentWindowStart := .ofNat (start.toNat + rounds * windowSize.toNat)
          result := (groups (windowNumber start windowSize) rounds points).map
            (windowReport aggregation start windowSize)
        } := by
  induction rounds with
  | zero => simp [groups]
  | succ rounds ih =>
      have next : (rounds + 1) * windowSize.toNat
          = rounds * windowSize.toNat + windowSize.toNat := Nat.succ_mul ..
      rw [Function.iterate_succ_apply', ih (by omega), aggregateWindow, groups_succ, groupOf]
      dsimp only
      rw [windowPoints_eq positive oldest fits, WindowLoop.mk.injEq]
      constructor
      · apply UInt64.toNat_inj.mp
        simp only [UInt64.toNat_add, UInt64.toNat_ofNat']
        omega
      · cases points.filter fun point => windowNumber start windowSize point = rounds with
        | nil => simp
        | cons first rest => simp [windowReport, ItemGroup.items]

/-- The groups of a list of points by window. -/
def windowGroups (firstPoint : DataPoint) (rest : List DataPoint) (windowSize : UInt64)
    : List (ItemGroup DataPoint) :=
  let number := windowNumber firstPoint.timestamp windowSize
  groups number (number (rest.getLastD firstPoint) + 1) (firstPoint :: rest)

/-- The points of a window and what is reported of them. -/
structure WindowReported (points : List DataPoint) (start windowSize : UInt64)
    (window : ItemGroup DataPoint)
    : Prop where
  items
    : window.items
      = points.filter fun point => windowNumber start windowSize point = window.number
  timestamp
    : ∀ aggregation,
        (windowReport aggregation start windowSize window).timestamp.toNat
        = start.toNat + window.number * windowSize.toNat
  size
    : ∀ aggregation,
        (windowReport aggregation start windowSize window).count = window.items.length
  count
    : (windowReport .count start windowSize window).value = F64.ofNat window.items.length
  first
    : window.items.head?.map DataPoint.value
      = some (windowReport .first start windowSize window).value
  last
    : window.items.getLast?.map DataPoint.value
      = some (windowReport .last start windowSize window).value
  min
    : (∀ point ∈ window.items, point.value.isNan = false)
      → let value := (windowReport .min start windowSize window).value
        value ∈ window.items.map DataPoint.value
        ∧ ∀ point ∈ window.items, value.toFloat ≤ point.value.toFloat
  max
    : (∀ point ∈ window.items, point.value.isNan = false)
      → let value := (windowReport .max start windowSize window).value
        value ∈ window.items.map DataPoint.value
        ∧ ∀ point ∈ window.items, point.value.toFloat ≤ value.toFloat

/-- Without NaN, the minimum of some points is their least value. -/
theorem aggregatedValue_min {firstPoint : DataPoint} {rest : List DataPoint}
    (numbers : ∀ point ∈ firstPoint :: rest, point.value.isNan = false)
    : aggregatedValue .min firstPoint rest ∈ (firstPoint :: rest).map DataPoint.value
      ∧ ∀ point ∈ firstPoint :: rest,
          (aggregatedValue .min firstPoint rest).toFloat ≤ point.value.toFloat := by
  have valueNumbers : ∀ value ∈ (firstPoint :: rest).map DataPoint.value, value.isNan = false :=
    List.forall_mem_map.mpr numbers
  obtain ⟨member, least⟩ := F64.min_picking.foldl_mem valueNumbers
  refine ⟨member, fun point pointMember => ?_⟩
  exact (F64.le_iff_rank (valueNumbers _ member) (numbers point pointMember)).mpr
    (least _ (List.mem_map_of_mem pointMember))

/-- Without NaN, the maximum of some points is their greatest value. -/
theorem aggregatedValue_max {firstPoint : DataPoint} {rest : List DataPoint}
    (numbers : ∀ point ∈ firstPoint :: rest, point.value.isNan = false)
    : aggregatedValue .max firstPoint rest ∈ (firstPoint :: rest).map DataPoint.value
      ∧ ∀ point ∈ firstPoint :: rest,
          point.value.toFloat ≤ (aggregatedValue .max firstPoint rest).toFloat := by
  have valueNumbers : ∀ value ∈ (firstPoint :: rest).map DataPoint.value, value.isNan = false :=
    List.forall_mem_map.mpr numbers
  obtain ⟨member, greatest⟩ := F64.max_picking.foldl_mem valueNumbers
  refine ⟨member, fun point pointMember => ?_⟩
  exact (F64.le_iff_rank (numbers point pointMember) (valueNumbers _ member)).mpr
    (greatest _ (List.mem_map_of_mem pointMember))

/-- No point of a sorted list is later than its last one. -/
theorem le_getLastD {firstPoint : DataPoint} {rest : List DataPoint}
    (sorted : (firstPoint :: rest).Pairwise fun left right => left.timestamp ≤ right.timestamp)
    {point : DataPoint} (member : point ∈ firstPoint :: rest)
    : point.timestamp ≤ (rest.getLastD firstPoint).timestamp := by
  have refl : Std.Refl fun left right : DataPoint => left.timestamp ≤ right.timestamp :=
    ⟨fun point => UInt64.le_refl point.timestamp⟩
  rw [← List.getLast_eq_getLastD (List.cons_ne_nil firstPoint rest)]
  exact sorted.rel_getLast member

/-- A point lies between the start of its window and the start of the next one. -/
theorem windowNumber_bounds {start windowSize : UInt64} {point : DataPoint}
    (positive : 1 ≤ windowSize) (older : start ≤ point.timestamp)
    : start.toNat + windowNumber start windowSize point * windowSize.toNat
        ≤ point.timestamp.toNat
      ∧ point.timestamp.toNat
        < start.toNat + (windowNumber start windowSize point + 1) * windowSize.toNat := by
  have size : 0 < windowSize.toNat := UInt64.le_iff_toNat_le.mp positive
  have first := UInt64.le_iff_toNat_le.mp older
  have started := Nat.div_mul_le_self (point.timestamp.toNat - start.toNat) windowSize.toNat
  have ended := Nat.lt_mul_div_succ (point.timestamp.toNat - start.toNat) size
  rw [Nat.mul_comm] at ended
  rw [windowNumber]
  omega

/-- The window of the last point ends within the type. -/
def WindowsFit (firstPoint : DataPoint) (rest : List DataPoint) (windowSize : UInt64) : Prop :=
  firstPoint.timestamp.toNat
      + (windowNumber firstPoint.timestamp windowSize (rest.getLastD firstPoint) + 1)
        * windowSize.toNat
    < 2 ^ 64

instance (firstPoint : DataPoint) (rest : List DataPoint) (windowSize : UInt64)
    : Decidable (WindowsFit firstPoint rest windowSize) :=
  inferInstanceAs (Decidable (_ < _))

/-- A larger bound does not change what the aggregation ends in. -/
theorem aggregatePoints_mono {points : List DataPoint} {aggregation : Aggregation}
    {windowSize : UInt64} {fuel more : Nat} (enough : fuel ≤ more)
    {answer : Except QueryError (List AggregatedPoint)}
    (ran : aggregatePoints points aggregation windowSize fuel = some answer)
    : aggregatePoints points aggregation windowSize more = some answer := by
  cases points with
  | nil => exact ran
  | cons firstPoint rest =>
      simp only [aggregatePoints, Option.map_eq_some_iff] at ran ⊢
      obtain ⟨ended, looped, rfl⟩ := ran
      exact ⟨ended, whileLoop_mono _ enough looped, rfl⟩

/-- The loop runs once for each window up to the one of the last point. -/
theorem aggregatePoints_eq {firstPoint : DataPoint} {rest : List DataPoint}
    {windowSize : UInt64}
    (oldest : ∀ point ∈ firstPoint :: rest, firstPoint.timestamp ≤ point.timestamp)
    (positive : 1 ≤ windowSize)
    (fits : WindowsFit firstPoint rest windowSize)
    (aggregation : Aggregation) {fuel : Nat}
    (enough
      : windowNumber firstPoint.timestamp windowSize (rest.getLastD firstPoint) + 1 ≤ fuel)
    : aggregatePoints (firstPoint :: rest) aggregation windowSize fuel
      = some (.ok ((windowGroups firstPoint rest windowSize).map
          (windowReport aggregation firstPoint.timestamp windowSize))) := by
  obtain ⟨started, ended⟩ :=
    windowNumber_bounds positive (oldest (rest.getLastD firstPoint) List.getLastD_mem_cons)
  unfold WindowsFit at fits
  -- no window start of the run wraps
  have stands : ∀ rounds,
      rounds ≤ windowNumber firstPoint.timestamp windowSize (rest.getLastD firstPoint) + 1
      → ((aggregateWindow (firstPoint :: rest) aggregation windowSize)^[rounds]
          { currentWindowStart := firstPoint.timestamp, result := [] }).currentWindowStart.toNat
        = firstPoint.timestamp.toNat + rounds * windowSize.toNat := by
    intro rounds bound
    have within := Nat.mul_le_mul_right windowSize.toNat bound
    rw [aggregateWindow_iterate aggregation positive oldest (by omega), UInt64.toNat_ofNat']
    exact Nat.mod_eq_of_lt (by omega)
  simp only [aggregatePoints]
  rw [whileLoop_of_rounds _ enough, aggregateWindow_iterate aggregation positive oldest]
  · rfl
  · omega
  · intro earlier before
    have within := Nat.mul_le_mul_right windowSize.toNat (Nat.le_of_lt_succ before)
    rw [decide_eq_true_iff, UInt64.le_iff_toNat_le, stands earlier (Nat.le_of_lt before)]
    omega
  · rw [decide_eq_false_iff_not, UInt64.le_iff_toNat_le, stands _ (Nat.le_refl _)]
    omega

/-- The windows fit if there is room for one more behind the last point. -/
theorem windowsFit_of_room {firstPoint : DataPoint} {rest : List DataPoint} {windowSize : UInt64}
    (positive : 1 ≤ windowSize)
    (older : firstPoint.timestamp ≤ (rest.getLastD firstPoint).timestamp)
    (room : (rest.getLastD firstPoint).timestamp.toNat + windowSize.toNat < 2 ^ 64)
    : WindowsFit firstPoint rest windowSize := by
  obtain ⟨started, -⟩ := windowNumber_bounds positive older
  rw [WindowsFit, Nat.add_one_mul]
  omega

/-- No point of a sorted list is earlier than its first one. -/
theorem head_le {firstPoint : DataPoint} {rest : List DataPoint}
    (sorted : (firstPoint :: rest).Pairwise fun left right => left.timestamp ≤ right.timestamp)
    : ∀ point ∈ firstPoint :: rest, firstPoint.timestamp ≤ point.timestamp := by
  intro point member
  rcases List.mem_cons.mp member with rfl | later
  · exact UInt64.le_refl _
  · exact (List.pairwise_cons.mp sorted).1 point later

/-- Later points have larger window numbers. -/
theorem windowNumber_le {start windowSize : UInt64} {left right : DataPoint}
    (before : left.timestamp ≤ right.timestamp)
    : windowNumber start windowSize left ≤ windowNumber start windowSize right :=
  Nat.div_le_div_right (Nat.sub_le_sub_right (UInt64.le_iff_toNat_le.mp before) _)

/-- The windows of sorted points, one after the other, hold the points in their order. -/
theorem windowGroups_items {firstPoint : DataPoint} {rest : List DataPoint} (windowSize : UInt64)
    (sorted : (firstPoint :: rest).Pairwise fun left right => left.timestamp ≤ right.timestamp)
    : (windowGroups firstPoint rest windowSize).flatMap ItemGroup.items = firstPoint :: rest := by
  refine (flatMap_groups (sorted.imp windowNumber_le) _).trans ?_
  rw [List.filter_eq_self]
  intro point member
  exact decide_eq_true (Nat.lt_succ_of_le (windowNumber_le (le_getLastD sorted member)))

/-- The start of a window is exact as long as the windows up to the last point do not wrap. -/
theorem windowReport_timestamp {firstPoint : DataPoint} {rest : List DataPoint}
    {windowSize : UInt64} (positive : 1 ≤ windowSize)
    (older : firstPoint.timestamp ≤ (rest.getLastD firstPoint).timestamp)
    {window : ItemGroup DataPoint} (member : window ∈ windowGroups firstPoint rest windowSize)
    (aggregation : Aggregation)
    : (windowReport aggregation firstPoint.timestamp windowSize window).timestamp.toNat
      = firstPoint.timestamp.toNat + window.number * windowSize.toNat := by
  obtain ⟨bound, -⟩ := mem_groups member
  obtain ⟨started, -⟩ := windowNumber_bounds positive older
  have within := Nat.mul_le_mul_right windowSize.toNat (Nat.le_of_lt_succ bound)
  have last := (rest.getLastD firstPoint).timestamp.toNat_lt
  rw [windowReport, UInt64.toNat_ofNat']
  exact Nat.mod_eq_of_lt (by omega)

/-- Every window of sorted points is reported as it should be. -/
theorem windowReported_of_mem {firstPoint : DataPoint} {rest : List DataPoint}
    {windowSize : UInt64} (positive : 1 ≤ windowSize)
    (older : firstPoint.timestamp ≤ (rest.getLastD firstPoint).timestamp)
    {window : ItemGroup DataPoint} (member : window ∈ windowGroups firstPoint rest windowSize)
    : WindowReported (firstPoint :: rest) firstPoint.timestamp windowSize window where
  items := (mem_groups member).2
  timestamp := windowReport_timestamp positive older member
  size := fun _ => rfl
  count := by rw [windowReport, aggregatedValue, List.length_map, ItemGroup.items]
  first := rfl
  last := by
    rw [ItemGroup.items, List.getLast?_cons, Option.map_some, windowReport, aggregatedValue,
      List.getLastD_eq_getLast?]
  min := aggregatedValue_min
  max := aggregatedValue_max

/-- Windowed aggregation of sorted points is a grouping by the number of the window, the same
for every aggregation. The groups in a row are the points, so every point is counted once.
-/
theorem aggregatePoints_groups (firstPoint : DataPoint) (rest : List DataPoint)
    (windowSize : UInt64)
    (sorted : (firstPoint :: rest).Pairwise fun left right => left.timestamp ≤ right.timestamp)
    (positive : 1 ≤ windowSize)
    (fits : (rest.getLastD firstPoint).timestamp.toNat + windowSize.toNat < 2 ^ 64)
    : let points := firstPoint :: rest
      let windows := windowGroups firstPoint rest windowSize
      (∀ aggregation,
        ∃ rounds,
          ∀ fuel ≥ rounds,
            aggregatePoints points aggregation windowSize fuel
            = some (.ok
                (windows.map (windowReport aggregation firstPoint.timestamp windowSize))))
      ∧ windows.flatMap ItemGroup.items = points
      ∧ (windows.map fun window => window.items.length).sum = points.length
      ∧ windows.Pairwise (fun left right => left.number < right.number)
      ∧ ∀ window ∈ windows, WindowReported points firstPoint.timestamp windowSize window := by
  intro points windows
  have oldest := head_le sorted
  have row : windows.flatMap ItemGroup.items = points := windowGroups_items windowSize sorted
  refine ⟨?_, row, ?_, pairwise_groups _ _ _, ?_⟩
  · intro aggregation
    have within := windowsFit_of_room positive (oldest _ List.getLastD_mem_cons) fits
    exact ⟨_, fun fuel enough => aggregatePoints_eq oldest positive within aggregation enough⟩
  · rw [← row, List.length_flatMap]
  · intro window member
    exact windowReported_of_mem positive (oldest _ List.getLastD_mem_cons) member

/-- Witness: two points share a window, and the one after them is empty. -/
theorem aggregatePoints_groups_sample
    : let points : List DataPoint := [⟨100, ⟨1⟩⟩, ⟨109, ⟨2⟩⟩, ⟨120, ⟨3⟩⟩]
      let windows := windowGroups ⟨100, ⟨1⟩⟩ [⟨109, ⟨2⟩⟩, ⟨120, ⟨3⟩⟩] 10
      windows.map ItemGroup.items = [[⟨100, ⟨1⟩⟩, ⟨109, ⟨2⟩⟩], [⟨120, ⟨3⟩⟩]]
      ∧ windows.map ItemGroup.number = [0, 2]
      ∧ windows.flatMap ItemGroup.items = points :=
  ⟨by decide, by decide,
    (aggregatePoints_groups ⟨100, ⟨1⟩⟩ [⟨109, ⟨2⟩⟩, ⟨120, ⟨3⟩⟩] 10 (by decide) (by decide)
      (by decide)).2.1⟩

end GorillaTsdb.Querying

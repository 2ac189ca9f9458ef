import GorillaTsdb.Querying.Termination
import GorillaTsdb.Querying.Windows
import GorillaTsdb.Storage.RangeQueries

/-! Window starts that stay in the range of the data.
The loop adds the window size once more after the last point. If this leaves the type, the next
start is a small number again, and the loop visits windows in front of the data.
-/

namespace GorillaTsdb.Querying

open Foundations.EventHistories
open Foundations.Grouping
open Foundations.ModularOrbits
open Foundations.WhileLoops
open GorillaTsdb.Storage

/-- The start of the window of a round, as the loop computes it. -/
def windowStart (firstPoint : DataPoint) (rest : List DataPoint) (aggregation : Aggregation)
    (windowSize : UInt64) (round : Nat)
    : UInt64 :=
  ((aggregateWindow (firstPoint :: rest) aggregation windowSize)^[round]
    { currentWindowStart := firstPoint.timestamp, result := [] }).currentWindowStart

/-- The loop runs its body in this round: the guard held in all rounds up to it. -/
def VisitedRound (firstPoint : DataPoint) (rest : List DataPoint) (aggregation : Aggregation)
    (windowSize : UInt64) (round : Nat)
    : Prop :=
  ∀ earlier ≤ round,
    windowStart firstPoint rest aggregation windowSize earlier
    ≤ (rest.getLastD firstPoint).timestamp

/-- The arithmetic of the loop stays in range: no sum overflows, every reported start lies
between the first and the last point, and no window is visited twice.
-/
structure WindowsInRange (firstPoint : DataPoint) (rest : List DataPoint)
    (aggregation : Aggregation) (windowSize : UInt64)
    : Prop where
  noOverflow
    : ∀ round,
        VisitedRound firstPoint rest aggregation windowSize round
        → (windowStart firstPoint rest aggregation windowSize round).toNat + windowSize.toNat
          < 2 ^ 64
  between
    : ∀ fuel reports,
        aggregatePoints (firstPoint :: rest) aggregation windowSize fuel = some (.ok reports)
        → ∀ report ∈ reports,
            firstPoint.timestamp ≤ report.timestamp
            ∧ report.timestamp ≤ (rest.getLastD firstPoint).timestamp
  once
    : ∀ earlier later,
        earlier < later
        → VisitedRound firstPoint rest aggregation windowSize later
        → windowStart firstPoint rest aggregation windowSize earlier
          ≠ windowStart firstPoint rest aggregation windowSize later

section Rounds

variable {firstPoint : DataPoint} {rest : List DataPoint} {aggregation : Aggregation}
  {windowSize : UInt64}

/-- As long as no start has left the type, it is the first one and so many window sizes. -/
theorem windowStart_toNat {round : Nat}
    (fits : firstPoint.timestamp.toNat + round * windowSize.toNat < 2 ^ 64)
    : (windowStart firstPoint rest aggregation windowSize round).toNat
      = firstPoint.timestamp.toNat + round * windowSize.toNat := by
  rw [windowStart, currentWindowStart_iterate, orbit, Nat.mod_eq_of_lt fits]

/-- The windows up to the one of the last point are always visited: they start at points of the
range.
-/
theorem visited_of_le (positive : 1 ≤ windowSize)
    (older : firstPoint.timestamp ≤ (rest.getLastD firstPoint).timestamp) {round : Nat}
    (within : round ≤ windowNumber firstPoint.timestamp windowSize (rest.getLastD firstPoint))
    : VisitedRound firstPoint rest aggregation windowSize round := by
  intro earlier before
  obtain ⟨started, -⟩ := windowNumber_bounds positive older
  have bound := Nat.mul_le_mul_right windowSize.toNat (Nat.le_trans before within)
  have last := (rest.getLastD firstPoint).timestamp.toNat_lt
  rw [UInt64.le_iff_toNat_le, windowStart_toNat (by omega)]
  omega

/-- Where the windows fit, no other round is visited. -/
theorem le_of_visited (positive : 1 ≤ windowSize)
    (older : firstPoint.timestamp ≤ (rest.getLastD firstPoint).timestamp)
    (fits : WindowsFit firstPoint rest windowSize) {round : Nat}
    (visited : VisitedRound firstPoint rest aggregation windowSize round)
    : round ≤ windowNumber firstPoint.timestamp windowSize (rest.getLastD firstPoint) := by
  by_contra beyond
  obtain ⟨-, ended⟩ := windowNumber_bounds positive older
  have next := visited _ (Nat.lt_of_not_le beyond)
  rw [UInt64.le_iff_toNat_le, Nat.succ_eq_add_one, windowStart_toNat fits] at next
  omega

/-- Where the windows fit, every report is one of a window of the range. -/
theorem reports_between (sorted
      : (firstPoint :: rest).Pairwise fun left right => left.timestamp ≤ right.timestamp)
    (positive : 1 ≤ windowSize) (fits : WindowsFit firstPoint rest windowSize)
    {fuel : Nat} {reports : List AggregatedPoint}
    (ran
      : aggregatePoints (firstPoint :: rest) aggregation windowSize fuel = some (.ok reports))
    {report : AggregatedPoint} (member : report ∈ reports)
    : firstPoint.timestamp ≤ report.timestamp
      ∧ report.timestamp ≤ (rest.getLastD firstPoint).timestamp := by
  have older := head_le sorted (rest.getLastD firstPoint) List.getLastD_mem_cons
  have whole := aggregatePoints_eq (head_le sorted) positive fits aggregation
    (Nat.le_max_right fuel _)
  rw [aggregatePoints_mono (Nat.le_max_left fuel _) ran] at whole
  cases whole
  obtain ⟨window, windowMember, rfl⟩ := List.mem_map.mp member
  have start := windowReport_timestamp positive older windowMember aggregation
  obtain ⟨bound, -⟩ := mem_groups windowMember
  obtain ⟨started, -⟩ := windowNumber_bounds positive older
  have within := Nat.mul_le_mul_right windowSize.toNat (Nat.le_of_lt_succ bound)
  rw [UInt64.le_iff_toNat_le, UInt64.le_iff_toNat_le, start]
  omega

/-- The arithmetic stays in range exactly if the windows fit.
Witness: the window of the last point is always visited, so its end may not leave the type.
-/
theorem windowsInRange_iff (sorted
      : (firstPoint :: rest).Pairwise fun left right => left.timestamp ≤ right.timestamp)
    (positive : 1 ≤ windowSize) (aggregation : Aggregation)
    : WindowsInRange firstPoint rest aggregation windowSize
      ↔ WindowsFit firstPoint rest windowSize := by
  have older := head_le sorted (rest.getLastD firstPoint) List.getLastD_mem_cons
  obtain ⟨started, -⟩ := windowNumber_bounds positive older
  have last := (rest.getLastD firstPoint).timestamp.toNat_lt
  constructor
  · intro inRange
    have room := inRange.noOverflow _ (visited_of_le positive older (Nat.le_refl _))
    rw [windowStart_toNat (by omega)] at room
    rw [WindowsFit, Nat.add_one_mul]
    omega
  · intro fits
    have stands {round : Nat} (visited : VisitedRound firstPoint rest aggregation windowSize round)
        : firstPoint.timestamp.toNat + (round + 1) * windowSize.toNat < 2 ^ 64 := by
      have bound := Nat.mul_le_mul_right windowSize.toNat
        (Nat.add_le_add_right (le_of_visited positive older fits visited) 1)
      unfold WindowsFit at fits
      omega
    refine ⟨?_, fun fuel reports ran report member =>
      reports_between sorted positive fits ran member, ?_⟩
    · intro round visited
      have room := stands visited
      rw [Nat.add_one_mul] at room
      rw [windowStart_toNat (by omega)]
      omega
    · intro earlier later before visited same
      have size := UInt64.le_iff_toNat_le.mp positive
      have room := stands visited
      have less := Nat.mul_le_mul_right windowSize.toNat (Nat.succ_le_of_lt before)
      have starts := congrArg UInt64.toNat same
      rw [Nat.add_one_mul] at room
      rw [Nat.succ_mul] at less
      rw [windowStart_toNat (by omega), windowStart_toNat (by omega)] at starts
      have one : (1 : UInt64).toNat = 1 := rfl
      omega

end Rounds

/-- After any run, aggregating the answer of a range query stays in range exactly if the window
of its last point ends within the type.
-/
theorem scanned_windows_in_range_iff (operations : List StoreOp) (key : TimeSeriesKey)
    (start finish : UInt64) {firstPoint : DataPoint} {rest : List DataPoint}
    (scanned
      : (after TSMap.step TSMap.new operations).scanRange key start finish
        = .ok (firstPoint :: rest))
    (aggregation : Aggregation) {windowSize : UInt64} (positive : 1 ≤ windowSize)
    : WindowsInRange firstPoint rest aggregation windowSize
      ↔ WindowsFit firstPoint rest windowSize :=
  windowsInRange_iff (TSMap.scanRange_sorted scanned) positive aggregation

theorem scanned_windows_in_range_iff_sample
    : WindowsInRange ⟨1000, ⟨1⟩⟩ [⟨1100, ⟨2⟩⟩] .sum 60 := by
  let operations : List StoreOp := [
    .insert "metric" ⟨1000, ⟨1⟩⟩, .insert "metric" ⟨1100, ⟨2⟩⟩
  ]
  have scanned : (after TSMap.step TSMap.new operations).scanRange "metric" 0 2000
      = .ok [⟨1000, ⟨1⟩⟩, ⟨1100, ⟨2⟩⟩] := rfl
  exact (scanned_windows_in_range_iff operations "metric" 0 2000 scanned .sum (by decide)).mpr
    (by decide)

/-- One window that is to cover everything: the first sum overflows. -/
theorem scanned_windows_overflow
    : ¬ (∀ operations key start finish firstPoint rest aggregation windowSize,
          (after TSMap.step TSMap.new operations).scanRange key start finish
            = .ok (firstPoint :: rest)
          → 1 ≤ windowSize
          → WindowsInRange firstPoint rest aggregation windowSize) := by
  intro inRange
  have scanned : (after TSMap.step TSMap.new [.insert "metric" ⟨1000, ⟨1⟩⟩]).scanRange
      "metric" 0 2000 = .ok [⟨1000, ⟨1⟩⟩] := rfl
  have fits := (windowsInRange_iff (TSMap.scanRange_sorted scanned) (by decide) .sum).mp
    (inRange _ _ _ _ _ _ .sum 0xffffffffffffffff scanned (by decide))
  exact absurd fits (by decide)

end GorillaTsdb.Querying

import GorillaTsdb.Foundations.CheckedPrograms
import GorillaTsdb.Querying.Downsampling
import GorillaTsdb.Querying.ExecutionOutcomes

/-! Queries in a debug build, where the end of a window that leaves the type is a panic.
The end of the window is the only sum of a query that can overflow. In a release build it wraps,
and the windows start over behind the end of time.
-/

namespace GorillaTsdb.Querying

open Foundations.CheckedPrograms
open Foundations.FueledPrograms
open Foundations.WhileLoops
open GorillaTsdb.Storage

-----------------------------------------------------------------------------------------
-- Queries with checks
-----------------------------------------------------------------------------------------

namespace Checked

/-- The loop body, whose addition is checked. -/
def aggregateWindow (points : List DataPoint) (aggregation : Aggregation) (windowSize : UInt64)
    (self : WindowLoop)
    : Except (Fault QueryError) WindowLoop :=
  if self.currentWindowStart.toNat + windowSize.toNat < 2 ^ 64 then
    .ok (Querying.aggregateWindow points aggregation windowSize self)
  else
    .error .panicked

/-- The condition of the loop; after a panic there is no further round. -/
def keepsOn (endTime : UInt64) : Except (Fault QueryError) WindowLoop → Bool
  | .ok self => self.currentWindowStart ≤ endTime
  | .error _ => false

/-- `aggregate_points`, or none if its loop is still running after `fuel` rounds. -/
def aggregatePoints (points : List DataPoint) (aggregation : Aggregation) (windowSize : UInt64)
    (fuel : Nat)
    : Option (Except (Fault QueryError) (List AggregatedPoint)) :=
  match points with
  | [] => some (.ok [])
  | firstPoint :: rest =>
      let startTime := firstPoint.timestamp
      let endTime := (rest.getLastD firstPoint).timestamp
      (whileLoop (keepsOn endTime) (· >>= aggregateWindow points aggregation windowSize) fuel
          (.ok { currentWindowStart := startTime, result := [] })).map
        (Except.map WindowLoop.result)

def QueryEngine.execute (self : QueryEngine) (query : Query) (fuel : Nat)
    : Option (Except (Fault QueryError) QueryResult) :=
  match valid : query.validate with
  | .error error => some (.error (.returned error))
  | .ok () =>
      match self.storage.scanRange query.key query.startTime query.endTime with
      | .error error => some (.error (.returned (.storageError error)))
      | .ok points =>
          if points.isEmpty then some (.ok (.points points))
          else
            let points := query.sample points
            match query.windowing valid with
            | some (aggregation, windowSize) =>
                (aggregatePoints points aggregation windowSize fuel).map
                  (Except.map QueryResult.aggregated)
            | none => some (.ok (.points points))

end Checked

-----------------------------------------------------------------------------------------
-- Windows
-----------------------------------------------------------------------------------------

section Windows

variable {firstPoint : DataPoint} {rest : List DataPoint} {windowSize : UInt64}

/-- Windows of size zero end where they start. -/
theorem windowsFit_zero (zero : windowSize = 0) : WindowsFit firstPoint rest windowSize := by
  rw [WindowsFit, zero, UInt64.toNat_zero, Nat.mul_zero]
  exact firstPoint.timestamp.toNat_lt

/-- A window that starts no later than the last point ends no later than the window of that
point.
-/
theorem windowEnd_le {rounds : Nat}
    (started
      : firstPoint.timestamp.toNat + rounds * windowSize.toNat
        ≤ (rest.getLastD firstPoint).timestamp.toNat)
    : rounds * windowSize.toNat + windowSize.toNat
      ≤ (windowNumber firstPoint.timestamp windowSize (rest.getLastD firstPoint) + 1)
        * windowSize.toNat := by
  rcases Nat.eq_zero_or_pos windowSize.toNat with zero | positive
  · simp [zero]
  · rw [← Nat.succ_mul]
    apply Nat.mul_le_mul_right
    apply Nat.succ_le_succ
    rw [windowNumber, Nat.le_div_iff_mul_le positive]
    omega

/-- Where the windows fit, no check of the loop fails. -/
theorem aggregatePoints_checked (fits : WindowsFit firstPoint rest windowSize)
    (aggregation : Aggregation) (fuel : Nat)
    : Checked.aggregatePoints (firstPoint :: rest) aggregation windowSize fuel
      = (aggregatePoints (firstPoint :: rest) aggregation windowSize fuel).map
          (Except.mapError Fault.returned) := by
  let stands (self : WindowLoop) : Prop :=
    ∃ rounds,
      self.currentWindowStart.toNat = firstPoint.timestamp.toNat + rounds * windowSize.toNat
  have looped
      : whileLoop (Checked.keepsOn (rest.getLastD firstPoint).timestamp)
          (· >>= Checked.aggregateWindow (firstPoint :: rest) aggregation windowSize) fuel
          (.ok { currentWindowStart := firstPoint.timestamp, result := [] })
        = (whileLoop
            (fun self => self.currentWindowStart ≤ (rest.getLastD firstPoint).timestamp)
            (aggregateWindow (firstPoint :: rest) aggregation windowSize) fuel
            { currentWindowStart := firstPoint.timestamp, result := [] }).map Except.ok := by
    refine whileLoop_map _ Except.ok stands (fun _ => rfl) ?_ ⟨0, by simp⟩ fuel
    rintro self ⟨rounds, start⟩ running
    have started := UInt64.le_iff_toNat_le.mp (of_decide_eq_true running)
    rw [start] at started
    have ends := windowEnd_le started
    unfold WindowsFit at fits
    refine ⟨if_pos (by omega), rounds + 1, ?_⟩
    rw [aggregateWindow, UInt64.toNat_add, start, Nat.mod_eq_of_lt (by omega), Nat.succ_mul,
      Nat.add_assoc]
  rw [Checked.aggregatePoints, aggregatePoints, looped, Option.map_map, Option.map_map]
  rfl

/-- The loop with checks comes to every window that starts within the type, by induction on the
rounds.
-/
theorem Checked.aggregateWindow_iterate (points : List DataPoint) (aggregation : Aggregation)
    {start windowSize : UInt64} {rounds : Nat}
    (within : start.toNat + rounds * windowSize.toNat < 2 ^ 64)
    : ∃ self,
        (· >>= Checked.aggregateWindow points aggregation windowSize)^[rounds]
            (.ok { currentWindowStart := start, result := [] })
          = .ok self
        ∧ self.currentWindowStart.toNat = start.toNat + rounds * windowSize.toNat := by
  induction rounds with
  | zero => exact ⟨_, rfl, by simp⟩
  | succ rounds ih =>
      rw [Nat.succ_mul] at within
      obtain ⟨self, reached, stands⟩ := ih (by omega)
      refine ⟨Querying.aggregateWindow points aggregation windowSize self, ?_, ?_⟩
      · rw [Function.iterate_succ_apply', reached]
        exact if_pos (by omega)
      · rw [Querying.aggregateWindow, UInt64.toNat_add, stands, Nat.mod_eq_of_lt (by omega),
          Nat.succ_mul, Nat.add_assoc]

/-- Where the windows do not fit, the check of the last one fails, after the loop has come to it.
-/
theorem aggregatePoints_panics
    (older : firstPoint.timestamp ≤ (rest.getLastD firstPoint).timestamp)
    (leaves : ¬ WindowsFit firstPoint rest windowSize) (aggregation : Aggregation)
    : Returns (Checked.aggregatePoints (firstPoint :: rest) aggregation windowSize)
        (.error .panicked) := by
  have positive : 1 ≤ windowSize := by
    by_contra small
    exact leaves (windowsFit_zero (UInt64.lt_one_iff.mp (UInt64.not_le.mp small)))
  obtain ⟨started, -⟩ := windowNumber_bounds positive older
  unfold WindowsFit at leaves
  generalize windowNumber firstPoint.timestamp windowSize (rest.getLastD firstPoint) = last
    at started leaves
  have inside := (rest.getLastD firstPoint).timestamp.toNat_lt
  obtain ⟨self, reached, stands⟩ := Checked.aggregateWindow_iterate (firstPoint :: rest)
    aggregation (Nat.lt_of_le_of_lt started inside)
  have failed
      : (· >>= Checked.aggregateWindow (firstPoint :: rest) aggregation windowSize)^[last + 1]
          (.ok { currentWindowStart := firstPoint.timestamp, result := [] })
        = .error .panicked := by
    rw [Function.iterate_succ_apply', reached]
    refine if_neg ?_
    rwa [stands, Nat.add_assoc, ← Nat.succ_mul]
  have running (earlier : Nat) (before : earlier < last + 1)
      : Checked.keepsOn (rest.getLastD firstPoint).timestamp
          ((· >>= Checked.aggregateWindow (firstPoint :: rest) aggregation windowSize)^[earlier]
            (.ok { currentWindowStart := firstPoint.timestamp, result := [] }))
        = true := by
    have below := Nat.mul_le_mul_right windowSize.toNat (Nat.le_of_lt_succ before)
    have within : firstPoint.timestamp.toNat + earlier * windowSize.toNat < 2 ^ 64 := by omega
    obtain ⟨self, reached, stands⟩ :=
      Checked.aggregateWindow_iterate (firstPoint :: rest) aggregation within
    rw [reached]
    refine decide_eq_true (UInt64.le_iff_toNat_le.mpr ?_)
    omega
  have ended := whileLoop_of_rounds _ (Nat.le_refl (last + 1)) running (by rw [failed]; rfl)
  refine ⟨last + 1, ?_⟩
  rw [Checked.aggregatePoints, ended, failed]
  rfl

end Windows

-----------------------------------------------------------------------------------------
-- Queries
-----------------------------------------------------------------------------------------

section Queries

variable {self : QueryEngine} {query : Query}

theorem Checked.QueryEngine.execute_of_valid (self : QueryEngine) {query : Query}
    (valid : query.validate = .ok ()) (fuel : Nat)
    : Checked.QueryEngine.execute self query fuel
      = match self.storage.scanRange query.key query.startTime query.endTime with
        | .error error => some (.error (.returned (.storageError error)))
        | .ok points =>
            if points.isEmpty then some (.ok (.points points))
            else
              match query.windowing valid with
              | some (aggregation, windowSize) =>
                  (Checked.aggregatePoints (query.sample points) aggregation windowSize fuel).map
                    (Except.map QueryResult.aggregated)
              | none => some (.ok (.points (query.sample points))) := by
  unfold Checked.QueryEngine.execute
  split
  case h_1 refused =>
    rw [valid] at refused
    cases refused
  case h_2 => rfl

/-- The query runs the loop over windows. -/
structure QueryEngine.Windows (engine : QueryEngine) (query : Query) : Prop where
  aggregates : query.aggregation.isSome
  sized : query.windowSize.isSome
  selects : engine.selectedPoints query ≠ []

theorem QueryEngine.Windows.valid (windows : self.Windows query) : query.validate = .ok () := by
  refine Query.validate_eq_ok.mpr ⟨?_, fun _ => windows.sized⟩
  by_contra reversed
  have refused : self.storage.scanRange query.key query.startTime query.endTime
      = .error (.invalidTimeRange query.startTime query.endTime) :=
    if_pos (UInt64.not_le.mp reversed)
  apply windows.selects
  rw [QueryEngine.selectedPoints, refused]

/-- A query without windows comes to the same in both builds, at once. -/
theorem QueryEngine.checked_of_not_windows (plain : ¬ self.Windows query) (fuel : Nat)
    : Checked.QueryEngine.execute self query fuel
        = (self.execute query fuel).map (Except.mapError Fault.returned)
      ∧ (self.execute query fuel).isSome := by
  cases valid : query.validate with
  | error error =>
      have refused : self.execute query fuel = some (.error error) := by
        unfold QueryEngine.execute
        split
        case h_1 other =>
          have same := Except.error.inj (other.symm.trans valid)
          rw [same]
        case h_2 accepted => cases accepted.symm.trans valid
      have refusedAlike
          : Checked.QueryEngine.execute self query fuel = some (.error (.returned error)) := by
        unfold Checked.QueryEngine.execute
        split
        case h_1 other =>
          have same := Except.error.inj (other.symm.trans valid)
          rw [same]
        case h_2 accepted => cases accepted.symm.trans valid
      rw [refused, refusedAlike]
      exact ⟨rfl, rfl⟩
  | ok _ =>
      have checked := Checked.QueryEngine.execute_of_valid self valid fuel
      rcases self.execute_cases valid with ⟨error, scanned, executed⟩ | ⟨scanned, executed⟩
        | ⟨points, scanned, holds, unwindowed, executed⟩
        | ⟨points, aggregation, windowSize, scanned, holds, aggregates, sized, -⟩
      · rw [checked, executed, scanned]
        exact ⟨rfl, rfl⟩
      · rw [checked, executed, scanned]
        exact ⟨rfl, rfl⟩
      · have windowed := (query.windowing_eq_none valid).mpr unwindowed
        rw [checked, executed, scanned]
        simp [holds, windowed, Except.mapError]
      · refine absurd ⟨?_, ?_, ?_⟩ plain
        · exact Option.isSome_of_eq_some aggregates
        · exact Option.isSome_of_eq_some sized
        · rw [QueryEngine.selectedPoints_eq scanned]
          exact query.sample_ne_nil holds

/-- A query with windows runs the loop of its build over its points. -/
theorem QueryEngine.Windows.executes (windows : self.Windows query)
    : ∃ firstPoint rest aggregation windowSize,
        self.selectedPoints query = firstPoint :: rest
        ∧ (firstPoint :: rest).Pairwise (fun left right => left.timestamp ≤ right.timestamp)
        ∧ query.aggregation = some aggregation
        ∧ query.windowSize = some windowSize
        ∧ ∀ fuel,
            Checked.QueryEngine.execute self query fuel
              = (Checked.aggregatePoints (firstPoint :: rest) aggregation windowSize fuel).map
                  (Except.map QueryResult.aggregated)
            ∧ self.execute query fuel
              = (aggregatePoints (firstPoint :: rest) aggregation windowSize fuel).map
                  (Except.map QueryResult.aggregated) := by
  have valid := windows.valid
  have selects := windows.selects
  rcases self.execute_cases valid with ⟨error, scanned, -⟩ | ⟨scanned, -⟩
    | ⟨points, -, -, unwindowed, -⟩
    | ⟨points, aggregation, windowSize, scanned, holds, aggregates, sized, executed⟩
  · rw [QueryEngine.selectedPoints, scanned] at selects
    exact absurd rfl selects
  · rw [QueryEngine.selectedPoints_eq scanned, query.sample_nil] at selects
    exact absurd rfl selects
  · have aggregates := windows.aggregates
    rw [unwindowed] at aggregates
    cases aggregates
  · obtain ⟨firstPoint, rest, chosen⟩ :=
      List.exists_cons_of_ne_nil (query.sample_ne_nil holds)
    refine ⟨firstPoint, rest, aggregation, windowSize,
      (QueryEngine.selectedPoints_eq scanned).trans chosen,
      QueryEngine.sample_sorted scanned chosen, aggregates, sized, fun fuel => ⟨?_, ?_⟩⟩
    · have windowed := (query.windowing_eq_some valid _ _).mpr ⟨aggregates, sized⟩
      rw [Checked.QueryEngine.execute_of_valid self valid, scanned]
      simp [holds, windowed, chosen]
    · rw [executed, chosen]

theorem QueryEngine.windowsExact_of_not_windows (plain : ¬ self.Windows query)
    : self.WindowsExact query := by
  intro aggregates windowSize sized
  split
  · trivial
  · next firstPoint rest selected =>
      refine absurd ⟨aggregates, Option.isSome_of_mem sized, ?_⟩ plain
      rw [selected]
      exact List.cons_ne_nil firstPoint rest

/-- The selected points are in the range of the query. -/
theorem QueryEngine.le_endTime {point : DataPoint} (member : point ∈ self.selectedPoints query)
    : point.timestamp ≤ query.endTime := by
  rw [QueryEngine.selectedPoints] at member
  split at member
  case h_1 => cases member
  case h_2 points scanned =>
    have found := (query.sample_sublist points).subset member
    obtain ⟨-, -, rfl⟩ := TSMap.scanRange_eq_ok.mp scanned
    have ranged := (List.mem_filter.mp ((List.mem_insertionSort _).mp found)).2
    rw [inRange, Bool.and_eq_true] at ranged
    exact of_decide_eq_true ranged.2

/-- A range that ends a window before the end of time has room for its windows. -/
theorem QueryEngine.windowsExact_of_room
    (room
      : ∀ windowSize ∈ query.windowSize, query.endTime.toNat + windowSize.toNat < 2 ^ 64)
    : self.WindowsExact query := by
  by_cases windows : self.Windows query
  · obtain ⟨firstPoint, rest, aggregation, windowSize, selected, sorted, -, sized, -⟩ :=
      windows.executes
    intro _ other found
    obtain rfl : windowSize = other := Option.some.inj (sized.symm.trans found)
    have last : (rest.getLastD firstPoint).timestamp ≤ query.endTime :=
      QueryEngine.le_endTime (selected ▸ List.getLastD_mem_cons)
    have fits := room windowSize sized
    rw [selected]
    by_cases positive : 1 ≤ windowSize
    · apply windowsFit_of_room positive (head_le sorted _ List.getLastD_mem_cons)
      exact Nat.lt_of_le_of_lt (Nat.add_le_add_right (UInt64.le_iff_toNat_le.mp last) _) fits
    · exact windowsFit_zero (UInt64.lt_one_iff.mp (UInt64.not_le.mp positive))
  · exact QueryEngine.windowsExact_of_not_windows windows

/-- Where the windows fit, both builds come to the same with the same bound. -/
theorem QueryEngine.WindowsExact.checked (exact : self.WindowsExact query) (fuel : Nat)
    : Checked.QueryEngine.execute self query fuel
      = (self.execute query fuel).map (Except.mapError Fault.returned) := by
  by_cases windows : self.Windows query
  · obtain ⟨firstPoint, rest, aggregation, windowSize, selected, -, -, sized, executed⟩ :=
      windows.executes
    have fits := exact windows.aggregates windowSize sized
    rw [selected] at fits
    rw [(executed fuel).1, (executed fuel).2, aggregatePoints_checked fits, Option.map_map,
      Option.map_map]
    refine congrArg (Option.map · _) (funext fun reports => ?_)
    cases reports <;> rfl
  · exact (QueryEngine.checked_of_not_windows windows fuel).1

theorem QueryEngine.checked_panics (leaves : ¬ self.WindowsExact query)
    : Returns (Checked.QueryEngine.execute self query) (.error .panicked) := by
  by_cases windows : self.Windows query
  · obtain ⟨firstPoint, rest, aggregation, windowSize, selected, sorted, -, sized, executed⟩ :=
      windows.executes
    have overflows : ¬ WindowsFit firstPoint rest windowSize := by
      intro fits
      apply leaves
      intro _ other found
      obtain rfl : windowSize = other := Option.some.inj (sized.symm.trans found)
      rwa [selected]
    obtain ⟨fuel, panicked⟩ :=
      aggregatePoints_panics (head_le sorted _ List.getLastD_mem_cons) overflows aggregation
    exact ⟨fuel, (executed fuel).1.trans (congrArg (Option.map _) panicked)⟩
  · exact absurd (QueryEngine.windowsExact_of_not_windows windows) leaves

/-- Windows that fit are passed, unless they have no size. -/
theorem QueryEngine.WindowsExact.hangs_iff (exact : self.WindowsExact query)
    : Hangs (self.execute query) ↔ self.Windows query ∧ query.windowSize = some 0 := by
  by_cases windows : self.Windows query
  · obtain ⟨firstPoint, rest, aggregation, windowSize, selected, sorted, -, sized, executed⟩ :=
      windows.executes
    have fits := exact windows.aggregates windowSize sized
    rw [selected] at fits
    rw [sized, Option.some.injEq, and_iff_right windows]
    constructor
    · intro hangs
      by_contra other
      have positive : 1 ≤ windowSize := by
        by_contra small
        exact other (UInt64.lt_one_iff.mp (UInt64.not_le.mp small))
      have ended := aggregatePoints_eq (head_le sorted) positive fits aggregation (Nat.le_refl _)
      cases (hangs _).symm.trans ((executed _).2.trans (congrArg (Option.map _) ended))
    · rintro rfl fuel
      refine (executed fuel).2.trans (Option.map_eq_none_iff.mpr ?_)
      refine Option.eq_none_iff_forall_ne_some.mpr fun reports ran => ?_
      cases reports with
      | error error => exact aggregatePoints_ne_error ran
      | ok reports =>
          have positive := aggregatePoints_positive (head_le sorted _ List.getLastD_mem_cons) ran
          exact absurd positive (by decide)
  · refine iff_of_false (fun hangs => ?_) fun both => windows both.1
    have answered := (QueryEngine.checked_of_not_windows windows 0).2
    rw [hangs 0] at answered
    cases answered

end Queries

/-- A query panics in a debug build exactly if the end of the window of its last point leaves the
type. Otherwise it comes to the same as in a release build, in as many rounds. It hangs exactly if
it has points and windows of size zero. There is no panic if the window size can be added to the
end of the range.
-/
theorem debug_queries_agree_iff (self : QueryEngine) (query : Query)
    : let debug := Checked.QueryEngine.execute self query
      (Returns debug (.error .panicked) ↔ ¬ self.WindowsExact query)
      ∧ (self.WindowsExact query
          → ∀ fuel, debug fuel = (self.execute query fuel).map (Except.mapError Fault.returned))
      ∧ (Hangs debug
          ↔ query.aggregation.isSome
            ∧ query.windowSize = some 0
            ∧ self.selectedPoints query ≠ [])
      ∧ ((∀ windowSize ∈ query.windowSize, query.endTime.toNat + windowSize.toNat < 2 ^ 64)
          → self.WindowsExact query) := by
  intro debug
  have hangsAlike (exact : self.WindowsExact query)
      : Hangs debug ↔ Hangs (self.execute query) := by
    refine forall_congr' fun fuel => ?_
    change Checked.QueryEngine.execute self query fuel = none ↔ _
    rw [exact.checked, Option.map_eq_none_iff]
  refine ⟨⟨?_, QueryEngine.checked_panics⟩, QueryEngine.WindowsExact.checked, ⟨?_, ?_⟩,
    QueryEngine.windowsExact_of_room⟩
  · rintro ⟨fuel, panicked⟩ exact
    obtain ⟨_ | _, -, made⟩ := Option.map_eq_some_iff.mp ((exact.checked fuel).symm.trans panicked)
    · cases made
    · cases made
  · intro hangs
    have exact : self.WindowsExact query := by
      by_contra leaves
      obtain ⟨fuel, panicked⟩ := QueryEngine.checked_panics leaves
      cases (hangs fuel).symm.trans panicked
    obtain ⟨windows, zero⟩ := exact.hangs_iff.mp ((hangsAlike exact).mp hangs)
    exact ⟨windows.aggregates, zero, windows.selects⟩
  · rintro ⟨aggregates, zero, selects⟩
    have exact : self.WindowsExact query := by
      intro _ windowSize sized
      split
      · trivial
      · exact windowsFit_zero (Option.some.inj (sized.symm.trans zero))
    have windows : self.Windows query := ⟨aggregates, Option.isSome_of_eq_some zero, selects⟩
    exact (hangsAlike exact).mpr (exact.hangs_iff.mpr ⟨windows, zero⟩)

end GorillaTsdb.Querying

import GorillaTsdb.Querying.AggregatePages
import GorillaTsdb.Storage.OpenBlocks

/-! Reports that stay.
Points that come behind all others open new windows or join the last one. So as long as no block
is sealed, a query that is repeated reports every window but the last as it did before.
-/

namespace GorillaTsdb.Querying

open Foundations.EventHistories
open Foundations.FueledPrograms
open Foundations.Grouping
open Foundations.StableSorting
open GorillaTsdb.Storage

/-- The later reports of a query are the earlier ones, of which the last may have grown. -/
def ReportsGrow (reports later : List AggregatedPoint) : Prop :=
  reports = []
  ∨ ∃ earlier last grown others,
      reports = earlier ++ [last]
      ∧ later = earlier ++ grown :: others
      ∧ grown.timestamp = last.timestamp
      ∧ last.count ≤ grown.count

/-- Points behind all others leave the windows before the last one as they are. -/
theorem windowReports_grow (aggregation : Aggregation) (windowSize : UInt64)
    {points later : List DataPoint}
    (sorted
      : (points ++ later).Pairwise fun left right => left.timestamp ≤ right.timestamp)
    : ReportsGrow (windowReports aggregation windowSize points)
        (windowReports aggregation windowSize (points ++ later)) := by
  cases points with
  | nil => exact .inl rfl
  | cons firstPoint rest =>
      obtain ⟨-, -, ordered⟩ := List.pairwise_append.mp sorted
      let number := windowNumber firstPoint.timestamp windowSize
      have behind : ∀ point ∈ later, number (rest.getLastD firstPoint) ≤ number point :=
        fun point member => windowNumber_le
          (ordered (rest.getLastD firstPoint) List.getLastD_mem_cons point member)
      have larger : number (rest.getLastD firstPoint)
          < number ((rest ++ later).getLastD firstPoint) + 1 := by
        refine Nat.lt_succ_of_le (windowNumber_le (le_getLastD sorted ?_))
        exact List.mem_append_left later List.getLastD_mem_cons
      obtain ⟨earlier, last, grown, others, front, whole, sameNumber, more⟩ :=
        groups_grow behind larger
      let report := windowReport aggregation firstPoint.timestamp windowSize
      refine .inr ⟨earlier.map report, report last, report grown, others.map report, ?_, ?_, ?_,
        more.length_le⟩
      · exact (congrArg (List.map report) front).trans List.map_append
      · exact (congrArg (List.map report) whole).trans List.map_append
      · change UInt64.ofNat (_ + grown.number * _) = UInt64.ofNat (_ + last.number * _)
        rw [sameNumber]

/-- A query with windows is repeated later in a run of clients. If no block of its key was sealed in
between, the points that were acknowledged since are not older than those that were open, and every
point has room for a window behind it, then every window but the last is reported again as it was.
-/
theorem finished_windows_stay (steps more : List ClientStep) (key : TimeSeriesKey)
    (aggregation : Aggregation) (low high windowSize : UInt64) (ordered : low ≤ high)
    (positive : 1 ≤ windowSize)
    (present : key ∈ (after TSMap.clientStep TSMap.new steps).keys)
    : let store := after TSMap.clientStep TSMap.new steps
      let later := after TSMap.clientStep store more
      let since := acknowledgedToClients key (history TSMap.clientStep store more)
      let query := (Query.new key low high).withAggregation aggregation windowSize
      (later.storageOf key).sealedBlocks.length = (store.storageOf key).sealedBlocks.length
      → (∀ point ∈ (store.storageOf key).currentPoints,
          ∀ next ∈ since, point.timestamp ≤ next.timestamp)
      → (∀ point ∈ (later.storageOf key).currentPoints,
          inRange low high point → point.timestamp.toNat + windowSize.toNat < 2 ^ 64)
      → ∃ first second,
          Returns ((QueryEngine.new store).execute query) (.ok first)
          ∧ Returns ((QueryEngine.new later).execute query) (.ok second)
          ∧ ReportsGrow first.reports second.reports := by
  intro store later since query unsealed inOrder room
  obtain ⟨logs, logsLater, represents, representsLater, known, evolves⟩ :=
    evolves_clientRun steps more
  have presentLater : key ∈ later.keys :=
    (representsLater.mem_keys key).mpr (known ((represents.mem_keys key).mp present))
  rcases storages_evolve represents representsLater (evolves key) with
    ⟨-, grown⟩ | ⟨sealedMore, -⟩
  · let sortedRange (points : List DataPoint) :=
      (points.filter (inRange low high)).insertionSort byTimestamp
    have scanned : store.scanRange key low high
        = .ok (sortedRange (store.storageOf key).currentPoints) :=
      store.scanRange_present present ordered
    have scannedLater : later.scanRange key low high
        = .ok (sortedRange (store.storageOf key).currentPoints ++ sortedRange since) := by
      have behind : ∀ point ∈ (store.storageOf key).currentPoints.filter (inRange low high),
          ∀ next ∈ since.filter (inRange low high), byTimestamp point next :=
        fun point member next nextMember =>
          inOrder point (List.mem_of_mem_filter member) next (List.mem_of_mem_filter nextMember)
      rw [later.scanRange_present presentLater ordered, grown, List.filter_append,
        insertionSort_append behind]
    have within : ∀ point ∈ sortedRange (store.storageOf key).currentPoints ++ sortedRange since,
        point.timestamp.toNat + windowSize.toNat < 2 ^ 64 := by
      intro point member
      obtain ⟨opened, inside⟩ := (TSMap.mem_scanRange scannedLater).mp member
      exact room point opened inside
    have withinFirst := (List.forall_mem_append.mp within).1
    obtain ⟨first, ran, reports⟩ :=
      (QueryEngine.new store).returns_reports positive aggregation scanned withinFirst
    obtain ⟨second, ranLater, reportsLater⟩ :=
      (QueryEngine.new later).returns_reports positive aggregation scannedLater within
    refine ⟨first, second, ran, ranLater, ?_⟩
    rw [reports, reportsLater]
    exact windowReports_grow aggregation windowSize (TSMap.scanRange_sorted scannedLater)
  · exact absurd unsealed sealedMore.ne'

/-- Witness: a third point joins the second window of a minute, and all times are queried. -/
theorem finished_windows_stay_sample
    : let steps : List ClientStep := [.insert "metric" ⟨0, ⟨1⟩⟩, .insert "metric" ⟨60, ⟨2⟩⟩]
      let more : List ClientStep := [.insert "metric" ⟨70, ⟨3⟩⟩]
      let store := after TSMap.clientStep TSMap.new steps
      let query := (Query.new "metric" 0 0xffffffffffffffff).withAggregation .last 60
      ∃ first second,
        Returns ((QueryEngine.new store).execute query) (.ok first)
        ∧ Returns ((QueryEngine.new (after TSMap.clientStep store more)).execute query)
            (.ok second)
        ∧ ReportsGrow first.reports second.reports := by
  intro steps more store query
  exact finished_windows_stay steps more "metric" .last 0 0xffffffffffffffff 60 (by decide)
    (by decide) (by decide) (by decide) (by decide) (by decide)

end GorillaTsdb.Querying

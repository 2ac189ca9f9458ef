import GorillaTsdb.Querying.AggregatePages
import GorillaTsdb.Storage.BatchInserts
import GorillaTsdb.Storage.OpenBlocks

/-! The server: it ingests four metrics and queries them, while a task seals expired blocks.
The task runs whenever the runtime lets it, so its rounds come anywhere between the inserts and
the queries, with any clock readings.
-/

namespace GorillaTsdb.Programs

open Foundations.EventHistories
open Foundations.FueledPrograms
open Foundations.Grouping
open Foundations.Simulations
open GorillaTsdb.Querying
open GorillaTsdb.Storage

-----------------------------------------------------------------------------------------
-- The program
-----------------------------------------------------------------------------------------

/-- The keys of `simulate_data_ingestion`. -/
def metricKeys : List TimeSeriesKey :=
  ["cpu.usage", "memory.usage", "disk.io", "network.bytes"]

/-- `simulate_metric_value`, with the sine of the platform. -/
def simulateMetricValue (sin : F64 → F64) (metricIdx timeIdx : Nat) : F64 :=
  let tenth := F64.fromBits 0x3fb999999999999a
  let base := sin (F64.ofNat timeIdx * tenth)
  match metricIdx with
  | 0 => F64.ofNat 50 + base * F64.ofNat 20 + F64.ofNat (timeIdx % 10)
  | 1 => F64.ofNat 60 + base * F64.ofNat 15 + F64.ofNat (timeIdx % 5) * F64.ofNat 2
  | 2 => F64.ofNat 1000 + base * F64.ofNat 500 + F64.ofNat (timeIdx % 20) * F64.ofNat 10
  | 3 => F64.ofNat 10000 + base * F64.ofNat 2000 + F64.ofNat (timeIdx % 15) * F64.ofNat 100
  | _ => F64.ofNat 0

/-- The point of a metric in a round of the loop. -/
def metricPoint (sin : F64 → F64) (startTime : UInt64) (metricIdx timeIdx : Nat) : DataPoint where
  timestamp := startTime + UInt64.ofNat timeIdx * 1000
  value := simulateMetricValue sin metricIdx timeIdx

/-- The inserts of a round of the loop, one for each metric. -/
def ingestionRound (sin : F64 → F64) (startTime : UInt64) (timeIdx : Nat)
    : List (TimeSeriesKey × DataPoint) :=
  metricKeys.zipIdx.map fun (key, metricIdx) =>
    (key, metricPoint sin startTime metricIdx timeIdx)

/-- The inserts of `simulate_data_ingestion`, in order; a failed one is logged and skipped. -/
def simulateDataIngestion (sin : F64 → F64) (startTime : UInt64)
    : List (TimeSeriesKey × DataPoint) :=
  (List.range 1000).flatMap (ingestionRound sin startTime)

theorem pointsAt_round (sin : F64 → F64) (startTime : UInt64) {key : TimeSeriesKey}
    {metricIdx : Nat} (member : (key, metricIdx) ∈ metricKeys.zipIdx) (timeIdx : Nat)
    : pointsAt key (ingestionRound sin startTime timeIdx)
      = [metricPoint sin startTime metricIdx timeIdx] := by
  simp only [metricKeys, List.zipIdx_cons, List.zipIdx_nil, List.mem_cons, Prod.mk.injEq,
    List.not_mem_nil, or_false] at member
  rcases member with ⟨rfl, rfl⟩ | ⟨rfl, rfl⟩ | ⟨rfl, rfl⟩ | ⟨rfl, rfl⟩
  · rfl
  · rfl
  · rfl
  · rfl

/-- Some rounds give each metric one point after the other, by induction on them. -/
theorem pointsAt_rounds (sin : F64 → F64) (startTime : UInt64) {key : TimeSeriesKey}
    {metricIdx : Nat} (member : (key, metricIdx) ∈ metricKeys.zipIdx) (rounds : List Nat)
    : pointsAt key (rounds.flatMap (ingestionRound sin startTime))
      = rounds.map (metricPoint sin startTime metricIdx) := by
  induction rounds with
  | nil => rfl
  | cons timeIdx rest ih =>
      rw [List.flatMap_cons, pointsAt_append, ih, pointsAt_round sin startTime member]
      rfl

/-- Every round inserts at each of the keys once. -/
theorem keys_round (sin : F64 → F64) (startTime : UInt64) (timeIdx : Nat)
    : (ingestionRound sin startTime timeIdx).map Prod.fst = metricKeys :=
  rfl

theorem keys_ingestion (sin : F64 → F64) (startTime : UInt64)
    : ((simulateDataIngestion sin startTime).map Prod.fst).toFinset = metricKeys.toFinset := by
  ext key
  simp only [simulateDataIngestion, List.map_flatMap, keys_round, List.mem_toFinset,
    List.mem_flatMap, List.mem_range]
  exact ⟨fun ⟨_, _, member⟩ => member, fun member => ⟨0, by decide, member⟩⟩

theorem length_ingestion (sin : F64 → F64) (startTime : UInt64)
    : (simulateDataIngestion sin startTime).length = 4000 := by
  have four (timeIdx : Nat) : (ingestionRound sin startTime timeIdx).length = 4 := rfl
  rw [simulateDataIngestion, List.length_flatMap]
  simp only [four, List.map_const', List.sum_replicate, List.length_range, smul_eq_mul]

/-- The points come a second apart, and no timestamp wraps. -/
theorem metricPoint_timestamp {startTime : UInt64} (room : startTime.toNat + 999000 < 2 ^ 64)
    (sin : F64 → F64) (metricIdx : Nat) {timeIdx : Nat} (below : timeIdx < 1000)
    : (metricPoint sin startTime metricIdx timeIdx).timestamp.toNat
      = startTime.toNat + timeIdx * 1000 := by
  have index : (UInt64.ofNat timeIdx).toNat = timeIdx := by
    rw [UInt64.toNat_ofNat']
    exact Nat.mod_eq_of_lt (by omega)
  have thousand : (1000 : UInt64).toNat = 1000 := rfl
  rw [metricPoint, UInt64.toNat_add, UInt64.toNat_mul, index, thousand,
    Nat.mod_eq_of_lt (by omega : timeIdx * 1000 < 2 ^ 64)]
  exact Nat.mod_eq_of_lt (by omega)

theorem ingestion_hasRoom {startTime : UInt64}
    (room : startTime.toNat + 999000 + blockDurationMs.toNat < 2 ^ 64) (sin : F64 → F64)
    : ∀ insert ∈ simulateDataIngestion sin startTime, HasRoom insert.2 := by
  intro insert member
  obtain ⟨timeIdx, inside, roundMember⟩ := List.mem_flatMap.mp member
  obtain ⟨⟨key, metricIdx⟩, -, rfl⟩ := List.mem_map.mp roundMember
  have below := List.mem_range.mp inside
  have within : startTime.toNat + 999000 < 2 ^ 64 := by omega
  have stands := metricPoint_timestamp within sin metricIdx below
  change (metricPoint sin startTime metricIdx timeIdx).timestamp.toNat + _ < _
  omega

-----------------------------------------------------------------------------------------
-- The run
-----------------------------------------------------------------------------------------

/-- Whatever comes between the inserts, every one of them has room. -/
theorem hasRoom_of_ingests {sin : F64 → F64} {startTime : UInt64}
    (room : startTime.toNat + 999000 + blockDurationMs.toNat < 2 ^ 64) {steps : List ClientStep}
    (ingests : insertsOf steps = simulateDataIngestion sin startTime)
    : ∀ insert ∈ insertsOf steps, HasRoom insert.2 := by
  rw [ingests]
  exact ingestion_hasRoom room sin

/-- However the sealing task interrupts the ingestion, no insert fails, and the statistics that are
logged at its end count 4 series and 4000 points. Each metric holds its thousand points in order.
-/
theorem server_ingests (sin : F64 → F64) (startTime : UInt64)
    (room : startTime.toNat + 999000 + blockDurationMs.toNat < 2 ^ 64) (steps : List ClientStep)
    (ingests : insertsOf steps = simulateDataIngestion sin startTime)
    : let store := after TSMap.clientStep TSMap.new steps
      results TSMap.clientStep TSMap.new steps = List.replicate steps.length (.ok ())
      ∧ store.getStats.seriesCount = 4
      ∧ store.getStats.totalPoints = 4000
      ∧ ∃ logs,
          Represents store logs
          ∧ ∀ key metricIdx,
              (key, metricIdx) ∈ metricKeys.zipIdx
              → (logs.log key).items
                = (List.range 1000).map (metricPoint sin startTime metricIdx) := by
  intro store
  have roomy := hasRoom_of_ingests room ingests
  have total := totalPoints_batch roomy
  obtain ⟨logs, represents, keys, items⟩ := represents_batch roomy
  rw [ingests] at items keys total
  refine ⟨results_batch roomy, ?_, total.trans (length_ingestion sin startTime), logs, represents,
    ?_⟩
  · exact represents.len.trans (congrArg Finset.card (keys.trans (keys_ingestion sin startTime)))
  · intro key metricIdx member
    exact (items key).trans (pointsAt_rounds sin startTime member _)

/-- Witness: nothing interrupts the ingestion, which starts at the epoch. -/
theorem server_ingests_alone
    : let sin (value : F64) : F64 := value
      let steps := (simulateDataIngestion sin 0).map fun insert =>
        ClientStep.insert insert.1 insert.2
      (after TSMap.clientStep TSMap.new steps).getStats.totalPoints = 4000 := by
  intro sin steps
  exact (server_ingests sin 0 (by decide) steps (insertsOf_inserts _)).2.2.1

section Queries

variable {sin : F64 → F64} {startTime : UInt64}
  (room : startTime.toNat + 999000 + blockDurationMs.toNat < 2 ^ 64) {steps : List ClientStep}
  (ingests : insertsOf steps = simulateDataIngestion sin startTime)

include room ingests

end Queries

end GorillaTsdb.Programs

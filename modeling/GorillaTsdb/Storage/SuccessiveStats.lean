import GorillaTsdb.Storage.ClientRuns
import Mathlib.Algebra.Order.BigOperators.Group.List

/-! Calls of `get_stats` one after the other, while clients insert and seal.
A call is no snapshot: it reads one storage at a time. But what a storage reports never falls, so
the store between two calls separates all reads of the first one from those of the second.
-/

namespace GorillaTsdb.Storage

open Foundations.EventHistories
open Foundations.SpreadReads

/-- The numbers that a storage reports and a call adds up. -/
inductive StatsField where
  | points
  | blocks
  | compressedSize
  deriving DecidableEq, Repr

def StatsField.share : StatsField → TimeSeriesStorage → Nat
  | .points, storage => storage.getStats.pointCount
  | .blocks, storage => storage.getStats.blockCount
  | .compressedSize, storage => storage.getStats.compressedSize

def StatsField.total : StatsField → StatsCall → Nat
  | .points, call => call.totalPoints
  | .blocks, call => call.totalBlocks
  | .compressedSize, call => call.totalCompressedSize

theorem StatsField.share_new (field : StatsField) (key : TimeSeriesKey)
    : field.share (TimeSeriesStorage.new key) = 0 := by
  cases field <;> rfl

theorem StatsField.total_visit (field : StatsField) (self : StatsCall) (key : TimeSeriesKey)
    : field.total (self.step (.visit key)).2
      = field.total self + field.share (self.store.storageOf key) := by
  cases field <;> rfl

theorem StatsField.total_client (field : StatsField) (self : StatsCall) (step : ClientStep)
    : field.total (self.step (.client step)).2 = field.total self := by
  cases field <;> rfl

/-- More records are no fewer bytes. -/
theorem compressedSize_le {self later : TimeSeriesStorage}
    (grows : self.sealedBlocks <+: later.sealedBlocks)
    : self.getStats.compressedSize ≤ later.getStats.compressedSize := by
  obtain ⟨more, records⟩ := grows
  simp only [TimeSeriesStorage.getStats, ← records, List.map_append, List.sum_append]
  omega

/-- No move lets a storage report less than before. -/
theorem TimeSeriesStorage.Moves.share_le {key : TimeSeriesKey} {self later : TimeSeriesStorage}
    {operation : StoreOp} {result : Except StorageError Unit}
    {closing : Option (ClosedBy × TimeSeriesBlock)}
    (moves : self.Moves key operation result closing later)
    {closed : List TimeSeriesBlock} {points : List DataPoint}
    (segmented : self.Segmented closed points) (field : StatsField)
    : field.share self ≤ field.share later := by
  obtain ⟨stays, grows⟩ := segmented.moves moves
  cases field with
  | points =>
      simp only [StatsField.share, segmented.counts.1, stays.counts.1, List.length_append]
      omega
  | compressedSize => exact compressedSize_le grows
  | blocks =>
      -- a sealed block was the open one, and its record takes its place
      have sealed {block : TimeSeriesBlock} {emptied : TimeSeriesStorage}
          (current : self.currentBlock = some block)
          (sealing : TimeSeriesStorage.sealCurrentBlock self = .ok () emptied)
          : emptied.sealedBlocks.length = self.sealedBlocks.length + 1 := by
        obtain ⟨-, after, -⟩ := segmented.sealCurrentBlock current sealing
        have before := congrArg List.length segmented.records
        have behind := congrArg List.length after.records
        simp only [List.length_map, List.length_append, List.length_singleton] at before behind
        omega
      simp only [StatsField.share, TimeSeriesStorage.getStats]
      cases moves with
      | rests silent => exact Nat.le_refl _
      | joins current accepts => simp [current, TimeSeriesStorage.growBlock]
      | opens empty accepts => simp [empty, TimeSeriesStorage.startBlock]
      | replaces current refuses sealing accepts =>
          have length := sealed current sealing
          simp only [current, TimeSeriesStorage.startBlock, Option.isSome_some, if_true, length]
          omega
      | fails current sealing =>
          have length := sealed current sealing
          simp only [current, Option.isSome_some, if_true, length]
          omega
      | expires current sealing =>
          have length := sealed current sealing
          simp only [current, Option.isSome_some, if_true, length]
          omega

/-- No run of clients lets a storage report less than before, by induction on the steps. -/
theorem TSMap.Sound.share_le_run {store : TSMap} (sound : store.Sound) (field : StatsField)
    (key : TimeSeriesKey) (steps : List ClientStep)
    : (after TSMap.clientStep store steps).Sound
      ∧ field.share (store.storageOf key)
        ≤ field.share ((after TSMap.clientStep store steps).storageOf key) := by
  induction steps generalizing store with
  | nil => exact ⟨sound, Nat.le_refl _⟩
  | cons step rest ih =>
      obtain ⟨closed, points, segmented⟩ := sound key
      have first := (sound.clientStep_moves step key).share_le segmented field
      obtain ⟨still, others⟩ := ih (sound.clientStep step)
      exact ⟨still, Nat.le_trans first others⟩

-----------------------------------------------------------------------------------------
-- One call
-----------------------------------------------------------------------------------------

/-- The steps of the other clients during a call. -/
def clientSteps (steps : List StatsStep) : List ClientStep :=
  steps.filterMap fun
    | .visit _ => none
    | .client step => some step

theorem clientSteps_clients (steps : List ClientStep)
    : clientSteps (steps.map .client) = steps := by
  rw [clientSteps, List.filterMap_map]
  exact List.filterMap_some

/-- A call changes nothing in the store, by induction on its steps. -/
theorem StatsCall.store_run (self : StatsCall) (steps : List StatsStep)
    : (after StatsCall.step self steps).store
      = after TSMap.clientStep self.store (clientSteps steps) := by
  induction steps generalizing self with
  | nil => rfl
  | cons step rest ih =>
      cases step with
      | visit key => exact ih (self.step (.visit key)).2
      | client step => exact ih (self.step (.client step)).2

/-- What the storages of these keys report in a store. -/
def StatsField.reported (field : StatsField) (store : TSMap) (keys : List TimeSeriesKey) : Nat :=
  (keys.map fun key => field.share (store.storageOf key)).sum

theorem StatsField.reported_le {field : StatsField} {earlier later : TSMap}
    (grows : ∀ key, field.share (earlier.storageOf key) ≤ field.share (later.storageOf key))
    (keys : List TimeSeriesKey)
    : field.reported earlier keys ≤ field.reported later keys :=
  List.sum_le_sum fun key _ => grows key

/-- A call adds up no less than its storages report when it begins, by induction on its steps. -/
theorem StatsCall.total_ge {self : StatsCall} (sound : self.store.Sound) (field : StatsField)
    (steps : List StatsStep)
    : field.total self + field.reported self.store (visitedKeys steps)
      ≤ field.total (after StatsCall.step self steps) := by
  induction steps generalizing self with
  | nil => exact Nat.le_refl _
  | cons step rest ih =>
      have still : (self.step step).2.store.Sound := by
        cases step with
        | visit key => exact sound
        | client step => exact sound.clientStep step
      refine Nat.le_trans ?_ (ih still)
      cases step with
      | visit key =>
          rw [field.total_visit]
          exact Nat.le_of_eq (Nat.add_assoc ..).symm
      | client step =>
          rw [field.total_client]
          apply Nat.add_le_add_left
          apply StatsField.reported_le
          intro key
          exact (sound.share_le_run field key [step]).2

/-- A call adds up no more than its storages report when it ends, by induction on its steps. -/
theorem StatsCall.total_le {self : StatsCall} (sound : self.store.Sound) (field : StatsField)
    (steps : List StatsStep)
    : field.total (after StatsCall.step self steps)
      ≤ field.total self
        + field.reported (after StatsCall.step self steps).store (visitedKeys steps) := by
  induction steps generalizing self with
  | nil => exact Nat.le_refl _
  | cons step rest ih =>
      cases step with
      | client step =>
          refine Nat.le_trans (ih (sound.clientStep step)) ?_
          rw [field.total_client]
          exact Nat.le_refl _
      | visit key =>
          have later : (self.step (.visit key)).2.store.Sound := sound
          have grown := (later.share_le_run field key (clientSteps rest)).2
          rw [← StatsCall.store_run] at grown
          refine Nat.le_trans (ih later) ?_
          rw [field.total_visit, Nat.add_assoc]
          apply Nat.add_le_add_left
          exact Nat.add_le_add_right grown _

-----------------------------------------------------------------------------------------
-- Two calls
-----------------------------------------------------------------------------------------

/-- Of two calls, the second one beginning when the first has ended or later, no total of the
second is below that of the first: points, blocks, bytes and series. In between and during both,
other clients insert and seal as they like.
-/
theorem getStats_never_falls (earlier between : List ClientStep) (first second : List StatsStep)
    (iteratesFirst
      : IteratesOnce (StatsCall.start (after TSMap.clientStep TSMap.new earlier)) first)
    (iteratesSecond
      : IteratesOnce
          (StatsCall.start
            (after TSMap.clientStep
              (after StatsCall.step
                (StatsCall.start (after TSMap.clientStep TSMap.new earlier)) first).store
              between))
          second)
    : let firstCall := after StatsCall.step
        (StatsCall.start (after TSMap.clientStep TSMap.new earlier)) first
      let secondCall := after StatsCall.step
        (StatsCall.start (after TSMap.clientStep firstCall.store between)) second
      firstCall.finish.totalPoints ≤ secondCall.finish.totalPoints
      ∧ firstCall.finish.totalBlocks ≤ secondCall.finish.totalBlocks
      ∧ firstCall.finish.totalCompressedSize ≤ secondCall.finish.totalCompressedSize
      ∧ firstCall.finish.seriesCount ≤ secondCall.finish.seriesCount := by
  intro firstCall secondCall
  let middle := after TSMap.clientStep firstCall.store between
  have sound : (after TSMap.clientStep TSMap.new earlier).Sound := sound_clientRun earlier
  have soundEnded : firstCall.store.Sound := by
    have whole := sound_clientRun (earlier ++ clientSteps first)
    rw [after_append] at whole
    rwa [StatsCall.store_run]
  have totals (field : StatsField) : field.total firstCall ≤ field.total secondCall := by
    have zero (store : TSMap) : field.total (StatsCall.start store) = 0 := by cases field <;> rfl
    have soundMiddle := (soundEnded.share_le_run field "" between).1
    have begun : (StatsCall.start (after TSMap.clientStep TSMap.new earlier)).store.Sound := sound
    have begunAgain : (StatsCall.start middle).store.Sound := soundMiddle
    have upper := StatsCall.total_le begun field first
    have lower := StatsCall.total_ge begunAgain field second
    have grows := StatsField.reported_le
      (fun key => (soundEnded.share_le_run field key between).2) (visitedKeys first)
    have covers : field.reported middle (visitedKeys first)
        ≤ field.reported middle (visitedKeys second) := by
      apply sum_le_of_covers iteratesFirst.distinct
      intro key _
      by_cases present : key ∈ middle.keys
      · refine Or.inr (iteratesSecond.covers key ?_)
        intro reached _
        exact StatsCall.mem_keys_after present reached
      · rw [middle.storageOf_of_notMem present]
        exact Or.inl (field.share_new key)
    rw [zero, Nat.zero_add] at upper lower
    exact Nat.le_trans upper (Nat.le_trans grows (Nat.le_trans covers lower))
  refine ⟨totals .points, totals .blocks, totals .compressedSize, ?_⟩
  have kept : firstCall.store.keys ⊆ secondCall.store.keys := by
    intro key present
    have between := StatsCall.mem_keys_after present (between.map .client)
    rw [StatsCall.store_run, clientSteps_clients] at between
    exact StatsCall.mem_keys_after between second
  exact firstCall.store.series.keys_nodup.length_le_of_subset kept

/-- Between the calls, the only series gets a second point. -/
theorem getStats_never_falls_example
    : let firstCall := after StatsCall.step
        (StatsCall.start (after TSMap.clientStep TSMap.new [.insert "cpu" ⟨1, ⟨1⟩⟩]))
        [.visit "cpu"]
      let secondCall := after StatsCall.step
        (StatsCall.start (after TSMap.clientStep firstCall.store [.insert "cpu" ⟨2, ⟨1⟩⟩]))
        [.visit "cpu"]
      firstCall.finish.totalPoints ≤ secondCall.finish.totalPoints := by
  intro firstCall secondCall
  have once {begun : StatsCall} (keys : begun.store.keys = ["cpu"])
      : IteratesOnce begun [.visit "cpu"] := by
    refine ⟨?_, by decide⟩
    intro key present
    have member : key ∈ begun.store.keys := present [] List.nil_prefix
    rwa [keys] at member
  exact (getStats_never_falls [.insert "cpu" ⟨1, ⟨1⟩⟩] [.insert "cpu" ⟨2, ⟨1⟩⟩] [.visit "cpu"]
    [.visit "cpu"] (once (by decide)) (once (by decide))).1

end GorillaTsdb.Storage

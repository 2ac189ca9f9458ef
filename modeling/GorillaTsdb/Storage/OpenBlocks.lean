import GorillaTsdb.Storage.LogStore

/-! What range queries keep and forget.
Between two moments of a run, the open points of a key have only grown, or a seal has taken all
of them away. So a query that is asked again returns all points that it returned before, or only
points that came since then.
-/

namespace GorillaTsdb.Storage

open Foundations.EventHistories
open Foundations.SegmentedLogs
open Foundations.Simulations

/-- The points of a key whose insert by some client returned `Ok`, in their order. -/
def acknowledgedToClients (key : TimeSeriesKey)
    (events : List (ClientStep × Except StorageError Unit))
    : List DataPoint :=
  acknowledged key (events.map (Prod.map ClientStep.atomically id))

-----------------------------------------------------------------------------------------
-- Logs
-----------------------------------------------------------------------------------------

theorem LogStore.keys_step (self : LogStore) (operation : StoreOp)
    : self.keys ⊆ (self.step operation).2.keys := by
  cases operation with
  | insert key point => exact Finset.subset_insert key self.keys
  | sealExpiredBlocks now => exact Finset.Subset.refl _

/-- A known key stays known, by induction on the operations. -/
theorem LogStore.keys_run (self : LogStore) (operations : List StoreOp)
    : self.keys ⊆ (after LogStore.step self operations).keys := by
  induction operations generalizing self with
  | nil => exact Finset.Subset.refl _
  | cons operation rest ih => exact (self.keys_step operation).trans (ih _)

theorem acknowledged_cons (key : TimeSeriesKey) (event : StoreOp × Except StorageError Unit)
    (events : List (StoreOp × Except StorageError Unit))
    : acknowledged key (event :: events) = acknowledged key [event] ++ acknowledged key events :=
  List.filterMap_append (l := [event])

/-- What an operation does to the log of a key: it pushes a point, or it closes the open segment
or not.
-/
theorem LogStore.step_log (self : LogStore) (operation : StoreOp) (key : TimeSeriesKey)
    : (∃ point,
          (self.step operation).2.log key = ((self.log key).push point).2
          ∧ acknowledged key [(operation, (self.step operation).1)]
            = if ((self.log key).push point).1 then [point] else [])
      ∨ ∃ due,
          (self.step operation).2.log key = (self.log key).closeIf due
          ∧ acknowledged key [(operation, (self.step operation).1)] = [] := by
  cases operation with
  | insert other point =>
      by_cases same : other = key
      · subst same
        refine .inl ⟨point, Function.update_self .., ?_⟩
        cases accepts : ((self.log other).push point).1 <;>
          simp [LogStore.step, LogStore.insert, acknowledged, accepts]
      · have unchanged : (self.step (.insert other point)).2.log key = self.log key :=
          Function.update_of_ne (Ne.symm same) _ _
        refine .inr ⟨fun _ => false, unchanged.trans ?_, ?_⟩
        · rw [SegmentedLog.closeIf]
          cases (self.log key).current <;> rfl
        · cases (self.step (.insert other point)).1 <;> simp [acknowledged, same]
  | sealExpiredBlocks now => exact .inr ⟨ended (now key), rfl, rfl⟩

/-- An operation opens, extends or closes the segment of its key. -/
theorem LogStore.evolves_step (self : LogStore) (operation : StoreOp) (key : TimeSeriesKey)
    : (self.log key).Evolves ((self.step operation).2.log key)
        (acknowledged key [(operation, (self.step operation).1)]) := by
  rcases self.step_log operation key with ⟨point, pushed, accepted⟩ | ⟨due, closed, none⟩
  · rw [pushed, accepted]
    exact (self.log key).evolves_push point
  · rw [closed, none]
    exact (self.log key).evolves_closeIf due

/-- So do the operations of a run, by induction on them. -/
theorem LogStore.evolves_run (self : LogStore) (operations : List StoreOp) (key : TimeSeriesKey)
    : (self.log key).Evolves ((after LogStore.step self operations).log key)
        (acknowledged key (history LogStore.step self operations)) := by
  induction operations generalizing self with
  | nil => exact .refl _
  | cons operation rest ih =>
      rw [history, acknowledged_cons]
      exact (self.evolves_step operation key).trans (ih _)

/-- An acknowledged point is the last item of its log. -/
theorem LogStore.items_step (self : LogStore) (operation : StoreOp) (key : TimeSeriesKey)
    : ((self.step operation).2.log key).items
      = (self.log key).items ++ acknowledged key [(operation, (self.step operation).1)] := by
  rcases self.step_log operation key with ⟨point, pushed, accepted⟩ | ⟨due, closed, none⟩
  · rw [pushed, accepted]
    exact (self.log key).items_push point
  · rw [closed, none, List.append_nil]
    exact (self.log key).items_closeIf due

/-- The items of a log are the acknowledged points, by induction on the operations. -/
theorem LogStore.items_run (self : LogStore) (operations : List StoreOp) (key : TimeSeriesKey)
    : ((after LogStore.step self operations).log key).items
      = (self.log key).items ++ acknowledged key (history LogStore.step self operations) := by
  induction operations generalizing self with
  | nil => exact (List.append_nil _).symm
  | cons operation rest ih =>
      have split := acknowledged_cons key (operation, (self.step operation).1)
        (history LogStore.step (self.step operation).2 rest)
      rw [after, ih, self.items_step operation key, history, split, List.append_assoc]

-----------------------------------------------------------------------------------------
-- Clients
-----------------------------------------------------------------------------------------

/-- Clients see the results that the logs have. -/
theorem history_atomically {store : TSMap} {logs : LogStore}
    (matched : Relation.Comp Atomic Represents store logs) (steps : List ClientStep)
    : (history TSMap.clientStep store steps).map (Prod.map ClientStep.atomically id)
      = history LogStore.step logs (steps.map ClientStep.atomically) := by
  refine clientStep_simulates_logs.history_eq ?_ matched steps
  rintro answer other ⟨middle, first, second⟩
  exact first.trans second

/-- The log of a key holds what clients were acknowledged. -/
theorem items_clientRun (steps : List ClientStep) (key : TimeSeriesKey)
    : ((after LogStore.step LogStore.new (steps.map ClientStep.atomically)).log key).items
      = acknowledgedToClients key (history TSMap.clientStep TSMap.new steps) := by
  rw [acknowledgedToClients, history_atomically ⟨TSMap.new, atomic_new, represents_new⟩ steps]
  exact LogStore.new.items_run _ key

/-- The logs at two moments of a run of clients. -/
theorem evolves_clientRun (steps more : List ClientStep)
    : let store := after TSMap.clientStep TSMap.new steps
      ∃ logs logsLater,
        Represents store logs
        ∧ Represents (after TSMap.clientStep store more) logsLater
        ∧ logs.keys ⊆ logsLater.keys
        ∧ ∀ key,
            (logs.log key).Evolves (logsLater.log key)
              (acknowledgedToClients key (history TSMap.clientStep store more)) := by
  intro store
  obtain ⟨-, matched⟩ :=
    clientStep_simulates_logs.run ⟨TSMap.new, atomic_new, represents_new⟩ steps
  obtain ⟨-, later⟩ := clientStep_simulates_logs.run matched more
  refine ⟨_, _, represents_of_atomic matched, represents_of_atomic later,
    LogStore.keys_run _ _, fun key => ?_⟩
  rw [acknowledgedToClients, history_atomically matched]
  exact LogStore.evolves_run _ _ key

section Moments

variable {store later : TSMap} {logs logsLater : LogStore}

/-- The storages of a key at two moments. -/
theorem storages_evolve (represents : Represents store logs)
    (representsLater : Represents later logsLater) {key : TimeSeriesKey}
    {accepted : List DataPoint} (evolves : (logs.log key).Evolves (logsLater.log key) accepted)
    : ((later.storageOf key).sealedBlocks = (store.storageOf key).sealedBlocks
        ∧ (later.storageOf key).currentPoints = (store.storageOf key).currentPoints ++ accepted)
      ∨ ((store.storageOf key).sealedBlocks.length < (later.storageOf key).sealedBlocks.length
        ∧ (later.storageOf key).currentPoints <:+ accepted) := by
  rw [represents.storageOf, representsLater.storageOf, currentPoints_storageOfLog,
    currentPoints_storageOfLog]
  rcases evolves with ⟨closed, current⟩ | ⟨closed, current⟩
  · exact .inl ⟨congrArg (List.map recordOf) closed, current⟩
  · refine .inr ⟨?_, current⟩
    rwa [storageOfLog, storageOfLog, List.length_map, List.length_map]

end Moments

/-- When a range is queried again in a run of clients, then either no block of its key was sealed
in between, and the answer holds all earlier points and those that were acknowledged since; or one
was sealed, and the answer holds none but some of the last that were acknowledged since.
-/
theorem scans_keep_all_or_none (steps more : List ClientStep) (key : TimeSeriesKey)
    (start finish : UInt64) (ordered : start ≤ finish)
    (present : key ∈ (after TSMap.clientStep TSMap.new steps).keys)
    : let store := after TSMap.clientStep TSMap.new steps
      let later := after TSMap.clientStep store more
      let since := acknowledgedToClients key (history TSMap.clientStep store more)
      ∃ first second,
        store.scanRange key start finish = .ok first
        ∧ later.scanRange key start finish = .ok second
        ∧ (((later.storageOf key).sealedBlocks = (store.storageOf key).sealedBlocks
            ∧ second.Perm (first ++ since.filter (inRange start finish)))
          ∨ ((store.storageOf key).sealedBlocks.length
                < (later.storageOf key).sealedBlocks.length
            ∧ ∃ recent,
                recent <:+ since
                ∧ second.Perm (recent.filter (inRange start finish)))) := by
  intro store later since
  obtain ⟨logs, logsLater, represents, representsLater, known, evolves⟩ :=
    evolves_clientRun steps more
  have presentLater : key ∈ later.keys :=
    (representsLater.mem_keys key).mpr (known ((represents.mem_keys key).mp present))
  refine ⟨_, _, store.scanRange_present present ordered,
    later.scanRange_present presentLater ordered, ?_⟩
  have sorted (points : List DataPoint) := List.perm_insertionSort byTimestamp points
  rcases storages_evolve represents representsLater (evolves key) with
    ⟨sealedSame, grown⟩ | ⟨sealedMore, recent⟩
  · refine .inl ⟨sealedSame, (sorted _).trans ?_⟩
    rw [grown, List.filter_append]
    exact (sorted _).symm.append_right _
  · exact .inr ⟨sealedMore, _, recent, sorted _⟩

/-- Witness: a round of a sealing pass comes too early for the block. -/
theorem scans_keep_all_or_none_example
    : let steps : List ClientStep := [.insert "metric" ⟨1000, ⟨1⟩⟩]
      let more : List ClientStep := [
        .sealIfExpired "metric" 2000, .insert "metric" ⟨2000, ⟨2⟩⟩
      ]
      let store := after TSMap.clientStep TSMap.new steps
      let later := after TSMap.clientStep store more
      ∃ first second,
        store.scanRange "metric" 0 5000 = .ok first
        ∧ later.scanRange "metric" 0 5000 = .ok second
        ∧ second.Perm (first ++ [⟨2000, ⟨2⟩⟩]) := by
  intro steps more store later
  obtain ⟨first, second, scanned, scannedLater, kept | forgotten⟩ :=
    scans_keep_all_or_none steps more "metric" 0 5000 (by decide) (by decide)
  · exact ⟨first, second, scanned, scannedLater, kept.2⟩
  · exact absurd forgotten.1 (by decide)

end GorillaTsdb.Storage

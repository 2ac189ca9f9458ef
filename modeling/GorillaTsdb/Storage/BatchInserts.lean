import GorillaTsdb.Storage.LogStore

/-! Batches of inserts that other clients and sealing passes interrupt.
A point is accepted if a window that starts with it does not wrap, whatever the open block covers.
So a batch of such points is never refused, and every key ends up with its points, in order.
-/

namespace GorillaTsdb.Storage

open Foundations.EventHistories
open Foundations.SegmentedLogs
open Foundations.Simulations

/-- The inserts among some steps, whoever makes them. -/
def insertsOf (steps : List ClientStep) : List (TimeSeriesKey × DataPoint) :=
  steps.filterMap fun
    | .insert key point => some (key, point)
    | .sealIfExpired _ _ => none

/-- The points of a key in a batch, in order. -/
def pointsAt (key : TimeSeriesKey) (batch : List (TimeSeriesKey × DataPoint)) : List DataPoint :=
  (batch.filter fun insert => insert.1 = key).map Prod.snd

/-- A window that starts with the point does not wrap. -/
def HasRoom (point : DataPoint) : Prop :=
  point.timestamp.toNat + blockDurationMs.toNat < 2 ^ 64

instance (point : DataPoint) : Decidable (HasRoom point) := inferInstanceAs (Decidable (_ < _))

theorem pointsAt_append (key : TimeSeriesKey) (first second : List (TimeSeriesKey × DataPoint))
    : pointsAt key (first ++ second) = pointsAt key first ++ pointsAt key second := by
  rw [pointsAt, List.filter_append, List.map_append]
  rfl

theorem insertsOf_append (first second : List ClientStep)
    : insertsOf (first ++ second) = insertsOf first ++ insertsOf second :=
  List.filterMap_append

/-- The steps of a client that makes the inserts of a batch. -/
theorem insertsOf_inserts (batch : List (TimeSeriesKey × DataPoint))
    : insertsOf (batch.map fun insert => .insert insert.1 insert.2) = batch := by
  rw [insertsOf, List.filterMap_map]
  exact List.filterMap_some

/-- Every insert of a batch is one of a point of its key. -/
theorem sum_length_pointsAt (batch : List (TimeSeriesKey × DataPoint))
    : ∑ key ∈ (batch.map Prod.fst).toFinset, (pointsAt key batch).length = batch.length := by
  have count (key : TimeSeriesKey)
      : (pointsAt key batch).length = (batch.map Prod.fst).count key := by
    rw [pointsAt, List.length_map, ← List.countP_eq_length_filter, List.count, List.countP_map]
    refine List.countP_congr fun insert _ => ?_
    simp
  simp only [count]
  rw [List.sum_toFinset_count_eq_length, List.length_map]

-----------------------------------------------------------------------------------------
-- Logs
-----------------------------------------------------------------------------------------

/-- A point with room is accepted: it becomes the last item of its key. -/
theorem LogStore.insert_accepts (self : LogStore) (key : TimeSeriesKey) {point : DataPoint}
    (room : HasRoom point)
    : (self.insert key point).1 = .ok ()
      ∧ ∀ other,
          ((self.insert key point).2.log other).items
          = (self.log other).items ++ pointsAt other [(key, point)] := by
  have accepted : ((self.log key).push point).1 = true := by
    rw [SegmentedLog.push]
    split
    · rfl
    · rw [dif_pos ((starts_iff point).mpr room)]
  have pushed := (self.log key).items_push point
  refine ⟨if_pos accepted, fun other => ?_⟩
  by_cases same : other = key
  · subst same
    simp [LogStore.insert, pushed, accepted, pointsAt]
  · simp [LogStore.insert, same, Ne.symm same, pointsAt]

/-- Steps whose points have room succeed, and every key gets its points, by induction on them. -/
theorem LogStore.after_batch (self : LogStore) {steps : List ClientStep}
    (room : ∀ insert ∈ insertsOf steps, HasRoom insert.2)
    : let operations := steps.map ClientStep.atomically
      let reached := after LogStore.step self operations
      results LogStore.step self operations = List.replicate steps.length (.ok ())
      ∧ reached.keys = self.keys ∪ ((insertsOf steps).map Prod.fst).toFinset
      ∧ ∀ key,
          (reached.log key).items = (self.log key).items ++ pointsAt key (insertsOf steps) := by
  induction steps generalizing self with
  | nil => simp [results, history, after, pointsAt, insertsOf]
  | cons step rest ih =>
      cases step with
      | insert key point =>
          obtain ⟨first, others⟩ := List.forall_mem_cons.mp room
          obtain ⟨result, items⟩ := self.insert_accepts key first
          obtain ⟨later, union, appended⟩ := ih (self.insert key point).2 others
          refine ⟨congrArg₂ List.cons result later, union.trans ?_, fun other => ?_⟩
          · ext other
            simp [LogStore.insert, insertsOf]
          · refine (appended other).trans ?_
            rw [items other, List.append_assoc, ← pointsAt_append]
            rfl
      | sealIfExpired key now =>
          obtain ⟨later, union, appended⟩ :=
            ih (self.sealExpired fun other => if key = other then now else 0) room
          refine ⟨congrArg (List.cons _) later, union, fun other => (appended other).trans ?_⟩
          exact congrArg (· ++ _) (SegmentedLog.items_closeIf _ _)

-----------------------------------------------------------------------------------------
-- Clients
-----------------------------------------------------------------------------------------

section Batch

variable {steps : List ClientStep} (room : ∀ insert ∈ insertsOf steps, HasRoom insert.2)

include room

/-- Clients are told that every step of a batch with room succeeded. -/
theorem results_batch
    : results TSMap.clientStep TSMap.new steps = List.replicate steps.length (.ok ()) := by
  obtain ⟨alike, -⟩ :=
    clientStep_simulates_logs.run ⟨TSMap.new, atomic_new, represents_new⟩ steps
  obtain ⟨succeeded, -, -⟩ := LogStore.new.after_batch room
  rw [← succeeded, ← List.forall₂_eq_eq_eq]
  refine alike.imp ?_
  rintro answer other ⟨middle, first, second⟩
  exact first.trans second

/-- The store then holds the logs of the batch. -/
theorem represents_batch
    : ∃ logs,
        Represents (after TSMap.clientStep TSMap.new steps) logs
        ∧ logs.keys = ((insertsOf steps).map Prod.fst).toFinset
        ∧ ∀ key, (logs.log key).items = pointsAt key (insertsOf steps) := by
  obtain ⟨-, keys, items⟩ := LogStore.new.after_batch room
  exact ⟨_, represents_clientRun steps, keys.trans (Finset.empty_union _), items⟩

/-- Every point of the batch counts once. -/
theorem totalPoints_batch
    : (after TSMap.clientStep TSMap.new steps).getStats.totalPoints
      = (insertsOf steps).length := by
  obtain ⟨logs, represents, keys, items⟩ := represents_batch room
  rw [represents.totalPoints, keys, ← sum_length_pointsAt]
  exact Finset.sum_congr rfl fun key _ => congrArg List.length (items key)

end Batch

/-- A batch whose points have room is accepted as a whole, however rounds of sealing passes come
between its inserts. Afterwards the log of every key, cut into blocks somehow, is the points of
the key in the order of the batch: none is lost, doubled or moved.
-/
theorem batch_survives (steps : List ClientStep)
    (room : ∀ insert ∈ insertsOf steps, HasRoom insert.2)
    : let store := after TSMap.clientStep TSMap.new steps
      results TSMap.clientStep TSMap.new steps = List.replicate steps.length (.ok ())
      ∧ (∃ logs,
          Represents store logs
          ∧ ∀ key, (logs.log key).items = pointsAt key (insertsOf steps))
      ∧ store.keys.toFinset = ((insertsOf steps).map Prod.fst).toFinset
      ∧ store.getStats.totalPoints = (insertsOf steps).length := by
  intro store
  obtain ⟨logs, represents, keys, items⟩ := represents_batch room
  exact ⟨results_batch room, ⟨logs, represents, items⟩, represents.keys.trans keys,
    totalPoints_batch room⟩

theorem batch_survives_sample
    : let steps : List ClientStep := [
        .insert "cpu" ⟨1, ⟨1⟩⟩, .sealIfExpired "cpu" 8000000, .insert "cpu" ⟨2, ⟨1⟩⟩
      ]
      (after TSMap.clientStep TSMap.new steps).getStats.totalPoints = 2 := by
  intro steps
  refine (batch_survives steps ?_).2.2.2
  simp only [steps, insertsOf, List.filterMap_cons, List.filterMap_nil, List.forall_mem_cons,
    HasRoom]
  decide

end GorillaTsdb.Storage

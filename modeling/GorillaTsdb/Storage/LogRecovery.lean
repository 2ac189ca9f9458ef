import GorillaTsdb.Storage.BatchInserts
import GorillaTsdb.Storage.LogFormat

/-! Rebuilding a store from a log.
Replay with `insert` as its callback makes the inserts of the entries in order, up to the first
one that is refused. Without a refusal the logs of the store are the entries, key by key.
-/

namespace GorillaTsdb.Storage

open Foundations.EventHistories
open Foundations.SegmentedLogs
open Foundations.Simulations
open Foundations.TokenStreams (bind_error bind_ok)

/-- The callback that puts the point of an entry into a store. -/
def recoverEntry (entry : WALEntry) : EStateM StorageError TSMap Unit :=
  TSMap.insert entry.key entry.point

/-- The operation of the store that the callback makes. -/
def WALEntry.recovering (entry : WALEntry) : StoreOp := .insert entry.key entry.point

/-- The points of a key, in the order of the entries. -/
def pointsOf (key : TimeSeriesKey) (entries : List WALEntry) : List DataPoint :=
  (entries.filter fun entry => entry.key = key).map WALEntry.point

/-- A window that starts with the point of the entry does not wrap. -/
def WALEntry.HasRoom (entry : WALEntry) : Prop :=
  entry.point.timestamp.toNat + blockDurationMs.toNat < 2 ^ 64

/-- The store accepts the inserts of the entries, one after the other. -/
def AcceptsEntries (store : TSMap) (entries : List WALEntry) : Prop :=
  results TSMap.step store (entries.map WALEntry.recovering)
  = List.replicate entries.length (.ok ())

/-- The callback goes through the entries as the store does through their inserts, by induction
on the entries: all are accepted, or the first one that is refused ends it.
-/
theorem forM_recoverEntry (store : TSMap) (entries : List WALEntry)
    : (AcceptsEntries store entries
        ∧ outcome (forM entries recoverEntry store)
          = (.ok (), after TSMap.step store (entries.map WALEntry.recovering)))
      ∨ ∃ earlier refused rest error reached,
          entries = earlier ++ refused :: rest
          ∧ AcceptsEntries store earlier
          ∧ (after TSMap.step store (earlier.map WALEntry.recovering)).step refused.recovering
            = (.error error, reached)
          ∧ outcome (forM entries recoverEntry store) = (.error error, reached) := by
  induction entries generalizing store with
  | nil => exact .inl ⟨rfl, rfl⟩
  | cons entry others ih =>
      cases ran : recoverEntry entry store with
      | ok _ next =>
          have first : store.step entry.recovering = (.ok (), next) := congrArg outcome ran
          have run : forM (entry :: others) recoverEntry store = forM others recoverEntry next := by
            rw [List.forM_cons, bind_ok ran]
          have later (operations : List StoreOp)
              : after TSMap.step store (entry.recovering :: operations)
                = after TSMap.step next operations := by
            rw [after, first]
          have accepts {more : List WALEntry} (accepted : AcceptsEntries next more)
              : AcceptsEntries store (entry :: more) := by
            rw [AcceptsEntries, List.map_cons, results, history, first]
            exact congrArg (List.cons _) accepted
          rw [run]
          rcases ih next with ⟨accepted, passed⟩
            | ⟨earlier, refused, rest, error, reached, split, accepted, refuses, failed⟩
          · refine .inl ⟨accepts accepted, ?_⟩
            rw [List.map_cons, later]
            exact passed
          · refine .inr ⟨entry :: earlier, refused, rest, error, reached,
              congrArg (entry :: ·) split, accepts accepted, ?_, failed⟩
            rw [List.map_cons, later]
            exact refuses
      | error error next =>
          have run : forM (entry :: others) recoverEntry store = .error error next := by
            rw [List.forM_cons, bind_error ran]
          refine .inr ⟨[], entry, others, error, next, rfl, rfl, congrArg outcome ran, ?_⟩
          rw [run]
          rfl

-----------------------------------------------------------------------------------------
-- Entries with room
-----------------------------------------------------------------------------------------

/-- The entries are a batch of inserts, without rounds of sealing passes. -/
theorem recovering_atomically (entries : List WALEntry)
    : entries.map WALEntry.recovering
        = (entries.map fun entry => ClientStep.insert entry.key entry.point).map
            ClientStep.atomically
      ∧ insertsOf (entries.map fun entry => ClientStep.insert entry.key entry.point)
        = entries.map fun entry => (entry.key, entry.point) := by
  constructor
  · rw [List.map_map]
    rfl
  · rw [← insertsOf_inserts (entries.map fun entry => (entry.key, entry.point)), List.map_map]
    rfl

theorem pointsOf_eq (key : TimeSeriesKey) (entries : List WALEntry)
    : pointsOf key entries = pointsAt key (entries.map fun entry => (entry.key, entry.point)) := by
  rw [pointsOf, pointsAt, List.filter_map, List.map_map]
  rfl

/-- Entries with room are all accepted. -/
theorem LogStore.after_recovering (self : LogStore) {entries : List WALEntry}
    (room : ∀ entry ∈ entries, entry.HasRoom)
    : let reached := after LogStore.step self (entries.map WALEntry.recovering)
      reached.keys = self.keys ∪ (entries.map WALEntry.key).toFinset
      ∧ ∀ key, (reached.log key).items = (self.log key).items ++ pointsOf key entries := by
  obtain ⟨operations, inserts⟩ := recovering_atomically entries
  have batchRoom : ∀ insert
      ∈ insertsOf (entries.map fun entry => ClientStep.insert entry.key entry.point),
      HasRoom insert.2 := by
    rw [inserts]
    exact List.forall_mem_map.mpr room
  obtain ⟨-, keys, items⟩ := self.after_batch batchRoom
  rw [← operations, inserts] at keys items
  rw [List.map_map] at keys
  refine ⟨keys, fun key => ?_⟩
  rw [pointsOf_eq]
  exact items key

/-- Every entry is a point of its key. -/
theorem sum_length_pointsOf (entries : List WALEntry)
    : ∑ key ∈ (entries.map WALEntry.key).toFinset, (pointsOf key entries).length
      = entries.length := by
  have whole := sum_length_pointsAt (entries.map fun entry => (entry.key, entry.point))
  rw [List.map_map, List.length_map] at whole
  simp only [pointsOf_eq]
  exact whole

/-- A new store after inserts holds what the logs hold after them. -/
theorem represents_inserts (operations : List StoreOp)
    : Represents (after TSMap.step TSMap.new operations)
        (after LogStore.step LogStore.new operations) := by
  obtain ⟨-, represents⟩ := step_simulates_logs.run represents_new operations
  rwa [List.map_id] at represents

/-- A refused entry has no room. -/
theorem not_hasRoom_of_refused {operations : List StoreOp} {refused : WALEntry}
    {error : StorageError} {reached : TSMap}
    (refuses
      : (after TSMap.step TSMap.new operations).step refused.recovering = (.error error, reached))
    : ¬ refused.HasRoom := by
  intro room
  have alike := ((represents_inserts operations).step refused.recovering).1
  have accepted := (LogStore.insert_accepts (after LogStore.step LogStore.new operations)
    refused.key room).1
  cases ((congrArg Prod.fst refuses).symm.trans alike).trans accepted

/-- Behind the callback, replay ends as the file does, or with the refusal. -/
theorem Decomposes.outcome_replay {bincode : Bincode} {contents tail : List UInt8}
    {entries : List WALEntry} {ending : Except StorageError Unit}
    (decomposes : Decomposes bincode contents entries tail ending) {σ : Type}
    (callback : WALEntry → EStateM StorageError σ Unit) (state : σ)
    : outcome (WriteAheadLog.replay bincode (some contents) callback state)
      = ((outcome (forM entries callback state)).1.bind fun _ =>
            ending.map fun _ => entries.length,
          (outcome (forM entries callback state)).2) := by
  rw [decomposes.replay]
  cases ran : forM entries callback state with
  | ok result later =>
      rw [bind_ok ran]
      cases ending <;> rfl
  | error error later =>
      rw [bind_error ran]
      rfl

/-- Replaying a file into a new store makes the inserts of its entries in order: all are accepted,
and replay ends as the file does, or all up to one that is refused, and replay returns the error of
that insert and leaves the store that it left. If every entry has room, none is refused, and every
key holds its entries, in order and each once.
-/
theorem recovery_rebuilds_store {bincode : Bincode} {contents tail : List UInt8}
    {entries : List WALEntry} {ending : Except StorageError Unit}
    (decomposes : Decomposes bincode contents entries tail ending)
    : let run := outcome
        (WriteAheadLog.replay bincode (some contents) recoverEntry TSMap.new)
      ((AcceptsEntries TSMap.new entries
          ∧ run
            = (ending.map fun _ => entries.length,
              after TSMap.step TSMap.new (entries.map WALEntry.recovering)))
        ∨ ∃ earlier refused rest error reached,
            entries = earlier ++ refused :: rest
            ∧ AcceptsEntries TSMap.new earlier
            ∧ ¬ refused.HasRoom
            ∧ (after TSMap.step TSMap.new (earlier.map WALEntry.recovering)).step
                refused.recovering
              = (.error error, reached)
            ∧ run = (.error error, reached))
      ∧ ((∀ entry ∈ entries, entry.HasRoom)
        → (run.1 = ending.map fun _ => entries.length)
          ∧ (∃ logs, Represents run.2 logs ∧ ∀ key, (logs.log key).items = pointsOf key entries)
          ∧ run.2.keys.toFinset = (entries.map WALEntry.key).toFinset
          ∧ run.2.getStats.totalPoints = entries.length) := by
  intro run
  have split : run = _ := decomposes.outcome_replay recoverEntry TSMap.new
  rcases forM_recoverEntry TSMap.new entries with ⟨accepted, passed⟩
    | ⟨earlier, refused, rest, error, reached, cut, accepted, refuses, failed⟩
  · rw [passed] at split
    refine ⟨.inl ⟨accepted, split⟩, fun room => ?_⟩
    obtain ⟨keys, items⟩ := LogStore.new.after_recovering room
    have represents := represents_inserts (entries.map WALEntry.recovering)
    have known : _ = (entries.map WALEntry.key).toFinset :=
      keys.trans (Finset.empty_union _)
    rw [split]
    refine ⟨rfl, ⟨_, represents, items⟩, represents.keys.trans known, ?_⟩
    rw [represents.totalPoints, known, ← sum_length_pointsOf entries]
    exact Finset.sum_congr rfl fun key _ => congrArg List.length (items key)
  · have full := not_hasRoom_of_refused refuses
    rw [failed] at split
    refine ⟨.inr ⟨earlier, refused, rest, error, reached, cut, accepted, full, refuses, split⟩,
      fun room => ?_⟩
    exact absurd (room refused (by simp [cut])) full

/-- Two entries of one key, behind which the file stops inside a length. -/
theorem recovery_rebuilds_store_sample
    : let entry (timestamp : UInt64) : WALEntry := ⟨"metric", ⟨timestamp, ⟨1⟩⟩, timestamp⟩
      let contents := [entry 1, entry 2].flatMap (frame fixedIntBincode) ++ [7, 7]
      (outcome (WriteAheadLog.replay fixedIntBincode (some contents) recoverEntry
        TSMap.new)).2.getStats.totalPoints = 2 := by
  intro entry contents
  have serializable (timestamp : UInt64) : fixedIntBincode.RoundTrips (entry timestamp) :=
    fixedIntBincode_roundTrips_metric _ _
  have decomposes : Decomposes fixedIntBincode contents [entry 1, entry 2] [7, 7] (.ok ()) := by
    refine ⟨⟨[frame _ (entry 1), frame _ (entry 2)], ?_, rfl⟩, .short (by decide)⟩
    exact .cons (serializable 1).isFrame (.cons (serializable 2).isFrame .nil)
  have room : ∀ other ∈ [entry 1, entry 2], other.HasRoom := by
    simp only [List.forall_mem_cons, WALEntry.HasRoom, entry]
    decide
  exact ((recovery_rebuilds_store decomposes).2 room).2.2.2

end GorillaTsdb.Storage

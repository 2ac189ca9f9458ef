import GorillaTsdb.Foundations.SpreadReads
import GorillaTsdb.Storage.StoreRuns

/-! The statistics of the store while other clients go on.
`get_stats` locks one storage at a time, so between two of its reads any insert and any sealing
of a single storage may happen. Each read is one step, and so is each step of another client.
-/

namespace GorillaTsdb.Storage

open Foundations.EventHistories
open Foundations.SpreadReads

-----------------------------------------------------------------------------------------
-- Steps
-----------------------------------------------------------------------------------------

/-- The body of the loop of `seal_expired_blocks`: one storage of the map, if it is there. -/
def TSMap.sealSeries (self : TSMap) (key : TimeSeriesKey) (now : UInt64) : TSMap :=
  match self.series.lookup key with
  | none => self
  | some storage => { series := self.series.insert key (storage.sealIfExpired now) }

/-- What another client does at once: an insert, or one round of a sealing pass. -/
inductive ClientStep where
  | insert (key : TimeSeriesKey) (point : DataPoint)
  | sealIfExpired (key : TimeSeriesKey) (now : UInt64)

def TSMap.clientStep (self : TSMap) : ClientStep → Except StorageError Unit × TSMap
  | .insert key point => outcome (TSMap.insert key point self)
  | .sealIfExpired key now => (.ok (), self.sealSeries key now)

/-- The shared store and the local variables of one `get_stats` call. -/
structure StatsCall where
  store : TSMap
  totalPoints : Nat
  totalBlocks : Nat
  totalCompressedSize : Nat

/-- A call of `get_stats` in front of its loop. -/
def StatsCall.start (store : TSMap) : StatsCall where
  store := store
  totalPoints := 0
  totalBlocks := 0
  totalCompressedSize := 0

/-- A round of the loop of `get_stats`, or a step of another client. -/
inductive StatsStep where
  | visit (key : TimeSeriesKey)
  | client (step : ClientStep)

/-- The map yields no key that it does not hold; visiting one would add nothing. -/
def StatsCall.step (self : StatsCall) : StatsStep → Except StorageError Unit × StatsCall
  | .visit key =>
      let stats := (self.store.storageOf key).getStats
      (.ok (),
        { self with
          totalPoints := self.totalPoints + stats.pointCount
          totalBlocks := self.totalBlocks + stats.blockCount
          totalCompressedSize := self.totalCompressedSize + stats.compressedSize })
  | .client step =>
      ((self.store.clientStep step).1, { self with store := (self.store.clientStep step).2 })

/-- The end of `get_stats`, which reads the length of the map once more. -/
def StatsCall.finish (self : StatsCall) : TSMapStats where
  seriesCount := self.store.len
  totalPoints := self.totalPoints
  totalBlocks := self.totalBlocks
  totalCompressedSize := self.totalCompressedSize

-----------------------------------------------------------------------------------------
-- The calls without other clients
-----------------------------------------------------------------------------------------

theorem TSMap.storageOf_of_notMem (self : TSMap) {key : TimeSeriesKey} (absent : key ∉ self.keys)
    : self.storageOf key = TimeSeriesStorage.new key := by
  have missing : self.series.lookup key = none := AList.lookup_eq_none.mpr absent
  rw [TSMap.storageOf, missing, Option.getD_none]

/-- Sealing one storage leaves the others alone. -/
theorem TSMap.storageOf_sealSeries (self : TSMap) (key other : TimeSeriesKey) (now : UInt64)
    : (self.sealSeries key now).storageOf other
      = if key = other then (self.storageOf other).sealIfExpired now
        else self.storageOf other := by
  unfold TSMap.sealSeries
  cases found : self.series.lookup key with
  | none =>
      by_cases same : key = other
      · subst same
        rw [if_pos rfl, TSMap.storageOf, found]
        rfl
      · rw [if_neg same]
  | some storage =>
      rw [self.storageOf_put]
      by_cases same : key = other
      · subst same
        rw [if_pos rfl, if_pos rfl, TSMap.storageOf, found, Option.getD_some]
      · rw [if_neg same, if_neg same]

/-- A sealing pass visits each of these storages once, by induction on their keys. -/
theorem TSMap.storageOf_sealRounds (self : TSMap) (now : TimeSeriesKey → UInt64)
    {keys : List TimeSeriesKey} (distinct : keys.Nodup) (key : TimeSeriesKey)
    : (after TSMap.clientStep self
          (keys.map fun other => .sealIfExpired other (now other))).storageOf key
      = if key ∈ keys then (self.storageOf key).sealIfExpired (now key)
        else self.storageOf key := by
  induction keys generalizing self with
  | nil => rfl
  | cons first rest ih =>
      obtain ⟨fresh, others⟩ := List.nodup_cons.mp distinct
      have later := ih (self.sealSeries first (now first)) others
      rw [self.storageOf_sealSeries] at later
      refine later.trans ?_
      by_cases same : first = key
      · subst same
        simp [fresh]
      · simp [same, Ne.symm same]

/-- The atomic sealing pass is the run of its rounds over all keys. -/
theorem TSMap.sealExpiredBlocks_rounds (self : TSMap) (now : TimeSeriesKey → UInt64)
    (key : TimeSeriesKey)
    : (after TSMap.clientStep self
          (self.keys.map fun other => .sealIfExpired other (now other))).storageOf key
      = (self.sealExpiredBlocks now).storageOf key := by
  have distinct : self.keys.Nodup := self.series.keys_nodup
  rw [self.storageOf_sealRounds now distinct, self.storageOf_sealExpiredBlocks]
  split
  case isTrue => rfl
  case isFalse absent =>
    rw [self.storageOf_of_notMem absent]
    rfl

/-- Visits without other clients add up what each storage reports, by induction on the keys. -/
theorem StatsCall.after_visits (self : StatsCall) (keys : List TimeSeriesKey)
    : let stats := keys.map fun key => (self.store.storageOf key).getStats
      after StatsCall.step self (keys.map .visit)
        = {
            store := self.store
            totalPoints := self.totalPoints + (stats.map TimeSeriesStats.pointCount).sum
            totalBlocks := self.totalBlocks + (stats.map TimeSeriesStats.blockCount).sum
            totalCompressedSize :=
              self.totalCompressedSize + (stats.map TimeSeriesStats.compressedSize).sum
          } := by
  induction keys generalizing self with
  | nil => rfl
  | cons key rest ih =>
      refine (ih (self.step (.visit key)).2).trans ?_
      simp [StatsCall.step, Nat.add_assoc]

/-- The atomic `get_stats` is the call that visits every key and meets no other client. -/
theorem StatsCall.getStats_visits (store : TSMap)
    : (after StatsCall.step (StatsCall.start store) (store.keys.map .visit)).finish
      = store.getStats := by
  have stats : (store.keys.map fun key => (store.storageOf key).getStats)
      = store.series.entries.map fun entry => entry.2.getStats := by
    rw [TSMap.keys, AList.keys, List.keys, List.map_map]
    apply List.map_congr_left
    intro entry member
    exact congrArg TimeSeriesStorage.getStats (store.storageOf_entry member)
  rw [StatsCall.after_visits]
  simp only [StatsCall.finish, StatsCall.start, Nat.zero_add, stats, TSMap.getStats]

-----------------------------------------------------------------------------------------
-- What the store holds while clients go on
-----------------------------------------------------------------------------------------

/-- The key of an insert that returned `Ok`. -/
def insertedKey : StatsStep × Except StorageError Unit → Option TimeSeriesKey
  | (.client (.insert key _), .ok _) => some key
  | _ => none

/-- Every storage represents as many points as inserts on its key have returned `Ok`. -/
def Ingested (events : List (StatsStep × Except StorageError Unit)) (store : TSMap) : Prop :=
  ∀ key, ∃ closed points,
    (store.storageOf key).Segmented closed points
    ∧ points.length = count insertedKey key events

theorem ingested_new : Ingested [] TSMap.new :=
  fun key => ⟨[], [], TimeSeriesStorage.segmented_new key, rfl⟩

theorem count_append (key : TimeSeriesKey) (events : List (StatsStep × Except StorageError Unit))
    (event : StatsStep × Except StorageError Unit)
    : count insertedKey key (events ++ [event])
      = count insertedKey key events + if insertedKey event = some key then 1 else 0 := by
  simp only [count, List.countP_append, List.countP_singleton, decide_eq_true_eq]

/-- An insert acknowledges a point for its own key if it returned `Ok`, and none otherwise. -/
theorem length_acknowledged (key other : TimeSeriesKey) (point : DataPoint)
    (result : Except StorageError Unit)
    : (acknowledged key [(.insert other point, result)]).length
      = if insertedKey (.client (.insert other point), result) = some key then 1 else 0 := by
  cases result with
  | error error => rfl
  | ok value =>
      by_cases same : other = key
      · simp [acknowledged, insertedKey, same]
      · simp [acknowledged, insertedKey, same]

section Steps

variable {events : List (StatsStep × Except StorageError Unit)} {state : StatsCall}

/-- No step loses a point or gains one that no insert brought, for any key. -/
theorem Ingested.step (ingested : Ingested events state.store) (step : StatsStep)
    : Ingested (events ++ [(step, (state.step step).1)]) (state.step step).2.store := by
  intro key
  obtain ⟨closed, points, segmented, length⟩ := ingested key
  rw [count_append]
  cases step with
  | visit other => exact ⟨closed, points, segmented, length⟩
  | client step =>
      cases step with
      | insert other point =>
          obtain ⟨stays, -⟩ := segmented.moves (state.store.step_moves key (.insert other point))
          refine ⟨_, _, stays, ?_⟩
          rw [List.length_append, length, length_acknowledged]
          rfl
      | sealIfExpired other now =>
          have storage : ((state.step (.client (.sealIfExpired other now))).2.store).storageOf key
              = if other = key then (state.store.storageOf key).sealIfExpired now
                else state.store.storageOf key :=
            state.store.storageOf_sealSeries other key now
          rw [storage]
          split
          case isTrue =>
            rcases (state.store.storageOf key).sealIfExpired_cases now with
              ⟨block, current, -, sealing⟩ | ⟨-, same⟩
            · obtain ⟨-, stays, -⟩ := segmented.sealCurrentBlock current sealing
              exact ⟨_, points, stays, length⟩
            · rw [same]
              exact ⟨closed, points, segmented, length⟩
          case isFalse => exact ⟨closed, points, segmented, length⟩

theorem Ingested.run (ingested : Ingested events state.store) (steps : List StatsStep)
    : Ingested (events ++ history StatsCall.step state steps)
        (after StatsCall.step state steps).store :=
  run_invariant (fun events (state : StatsCall) => Ingested events state.store)
    (fun holds step => holds.step step) ingested steps

/-- What a visit reads of a storage: the number of points inserted under its key so far. -/
theorem Ingested.pointCount (ingested : Ingested events state.store) (key : TimeSeriesKey)
    : (state.store.storageOf key).getStats.pointCount = count insertedKey key events := by
  obtain ⟨closed, points, segmented, length⟩ := ingested key
  rw [segmented.counts.1, length]

/-- A key under which a point was inserted is in the map. -/
theorem Ingested.mem_keys (ingested : Ingested events state.store) {key : TimeSeriesKey}
    {position : Nat} (mark : position ∈ marks insertedKey key events)
    : key ∈ state.store.keys := by
  by_contra absent
  have empty := ingested.pointCount key
  rw [state.store.storageOf_of_notMem absent, ← length_marks] at empty
  have none : marks insertedKey key events = [] := List.eq_nil_of_length_eq_zero empty.symm
  rw [none] at mark
  exact absurd mark List.not_mem_nil

/-- No step removes a key. -/
theorem StatsCall.mem_keys_step {key : TimeSeriesKey} (present : key ∈ state.store.keys)
    (step : StatsStep)
    : key ∈ (state.step step).2.store.keys := by
  have put (other : TimeSeriesKey) (storage : TimeSeriesStorage)
      : key ∈ ({ series := state.store.series.insert other storage } : TSMap).keys :=
    (AList.mem_insert state.store.series).mpr (Or.inr present)
  cases step with
  | visit other => exact present
  | client step =>
      cases step with
      | insert other point =>
          simp only [StatsCall.step, TSMap.clientStep, TSMap.insert]
          split
          · exact put other _
          · exact put other _
      | sealIfExpired other now =>
          simp only [StatsCall.step, TSMap.clientStep, TSMap.sealSeries]
          split
          · exact present
          · exact put other _

/-- No run removes a key, by induction on its steps. -/
theorem StatsCall.mem_keys_after {key : TimeSeriesKey} (present : key ∈ state.store.keys)
    (steps : List StatsStep)
    : key ∈ (after StatsCall.step state steps).store.keys := by
  induction steps generalizing state with
  | nil => exact present
  | cons step rest ih => exact ih (StatsCall.mem_keys_step present step)

end Steps

-----------------------------------------------------------------------------------------
-- The call
-----------------------------------------------------------------------------------------

/-- The keys that the call visits, in order. -/
def visitedKeys (steps : List StatsStep) : List TimeSeriesKey :=
  steps.filterMap fun
    | .visit key => some key
    | .client _ => none

/-- The visits of the call, each with the number of steps before it. -/
def visitsFrom : Nat → List StatsStep → List (TimeSeriesKey × Nat)
  | _, [] => []
  | time, .visit key :: rest => (key, time) :: visitsFrom (time + 1) rest
  | time, .client _ :: rest => visitsFrom (time + 1) rest

theorem visitsFrom_keys (time : Nat) (steps : List StatsStep)
    : (visitsFrom time steps).map Prod.fst = visitedKeys steps := by
  induction steps generalizing time with
  | nil => rfl
  | cons step rest ih =>
      cases step with
      | visit key => exact congrArg (key :: ·) (ih (time + 1))
      | client step => exact ih (time + 1)

theorem visitsFrom_late (time : Nat) (steps : List StatsStep)
    : ∀ visit ∈ visitsFrom time steps, time ≤ visit.2 := by
  induction steps generalizing time with
  | nil => exact List.forall_mem_nil _
  | cons step rest ih =>
      have later := fun visit member => Nat.le_of_succ_le (ih (time + 1) visit member)
      cases step with
      | visit key => exact List.forall_mem_cons.mpr ⟨Nat.le_refl time, later⟩
      | client step => exact later

theorem visitsFrom_clients (time : Nat) (steps : List ClientStep)
    : visitsFrom time (steps.map .client) = [] := by
  induction steps generalizing time with
  | nil => rfl
  | cons step rest ih => exact ih (time + 1)

/-- A run of the call adds up what it reads, each count at the time of its visit, by induction
on the steps.
-/
theorem StatsCall.totalPoints_run {events : List (StatsStep × Except StorageError Unit)}
    {state : StatsCall} (ingested : Ingested events state.store) (steps : List StatsStep)
    : (after StatsCall.step state steps).totalPoints
      = state.totalPoints
        + (counted insertedKey (events ++ history StatsCall.step state steps)
            (visitsFrom events.length steps)).length := by
  induction steps generalizing events state with
  | nil => rfl
  | cons step rest ih =>
      have later := ih (ingested.step step)
      rw [List.append_assoc, List.length_append, List.length_singleton] at later
      refine later.trans ?_
      cases step with
      | visit key =>
          have read := ingested.pointCount key
          simp only [length_counted, visitsFrom, List.map_cons, List.sum_cons, List.take_left,
            ← read]
          exact Nat.add_assoc _ _ _
      | client step => rfl

/-- What iterating over the map promises: a key that it holds throughout the call is visited, and
none is visited twice.
-/
structure IteratesOnce (begun : StatsCall) (during : List StatsStep) : Prop where
  covers
    : ∀ key,
        AllReached StatsCall.step (fun state => key ∈ state.store.keys) begun during
        → key ∈ visitedKeys during
  distinct : (visitedKeys during).Nodup

/-- Every key under which a point was inserted before the call is visited. -/
theorem IteratesOnce.visits_inserted {events : List (StatsStep × Except StorageError Unit)}
    {begun : StatsCall} {during : List StatsStep} (iterates : IteratesOnce begun during)
    (ingested : Ingested events begun.store) {key : TimeSeriesKey} {position : Nat}
    (mark : position ∈ marks insertedKey key events)
    : key ∈ visitedKeys during := by
  apply iterates.covers
  intro reached _
  exact StatsCall.mem_keys_after (ingested.mem_keys mark) reached

/-- Whatever other clients did before a call and do between its reads, each visit reads the
number of inserts on its key that have returned `Ok` so far, sealed or not. The total counts every
insert that returned before the call, none that came after it, and none twice.
-/
theorem getStats_counts_inserts (earlier : List ClientStep) (during : List StatsStep)
    (iterates
      : IteratesOnce
          (after StatsCall.step (StatsCall.start TSMap.new) (earlier.map .client)) during)
    : let fresh := StatsCall.start TSMap.new
      let begun := after StatsCall.step fresh (earlier.map .client)
      let before := history StatsCall.step fresh (earlier.map .client)
      let events := before ++ history StatsCall.step begun during
      let inserts := counted insertedKey events (visitsFrom before.length during)
      let stats := (after StatsCall.step begun during).finish
      (∀ front key rest,
          during = front ++ .visit key :: rest
          → ((after StatsCall.step begun front).store.storageOf key).getStats.pointCount
            = (marks insertedKey key (before ++ history StatsCall.step begun front)).length)
      ∧ stats.totalPoints = inserts.length
      ∧ inserts.Nodup
      ∧ owned insertedKey before ⊆ inserts
      ∧ inserts ⊆ owned insertedKey events
      ∧ before.countP (fun event => (insertedKey event).isSome) ≤ stats.totalPoints
      ∧ stats.totalPoints ≤ events.countP fun event => (insertedKey event).isSome := by
  intro fresh begun before events inserts stats
  have start : Ingested [] fresh.store := ingested_new
  have ingested : Ingested before begun.store := start.run (earlier.map .client)
  have zero : begun.totalPoints = 0 := by
    have run := StatsCall.totalPoints_run start (earlier.map .client)
    rwa [visitsFrom_clients] at run
  have points : stats.totalPoints = inserts.length := by
    have run := StatsCall.totalPoints_run ingested during
    rwa [zero, Nat.zero_add] at run
  have beginning : events.take before.length = before := List.take_left
  have covers (key : TimeSeriesKey) (position : Nat)
      (mark : position ∈ marks insertedKey key (events.take before.length))
      : key ∈ (visitsFrom before.length during).map Prod.fst := by
    rw [beginning] at mark
    rw [visitsFrom_keys]
    exact iterates.visits_inserted ingested mark
  have distinct := iterates.distinct
  rw [← visitsFrom_keys before.length] at distinct
  have includes := owned_subset_counted (visitsFrom_late _ during) covers
  obtain ⟨low, high⟩ := length_bounds (nodup_counted distinct) includes counted_subset_owned
  rw [beginning] at includes low
  rw [points]
  refine ⟨?_, rfl, nodup_counted distinct, includes, counted_subset_owned, low, high⟩
  intro front key rest _
  rw [length_marks]
  exact (ingested.run front).pointCount key

/-- Between the two visits, the key still to be visited gets a point and is sealed. -/
theorem getStats_counts_inserts_example
    : let earlier : List ClientStep := [.insert "cpu" ⟨1, ⟨1⟩⟩, .insert "disk" ⟨1, ⟨2⟩⟩]
      let during : List StatsStep := [
        .visit "disk", .client (.insert "cpu" ⟨2, ⟨1⟩⟩), .client (.sealIfExpired "cpu" 8000000),
        .client (.insert "disk" ⟨3, ⟨1⟩⟩), .visit "cpu"
      ]
      let begun := after StatsCall.step (StatsCall.start TSMap.new) (earlier.map .client)
      let stats := (after StatsCall.step begun during).finish
      2 ≤ stats.totalPoints ∧ stats.totalPoints ≤ 4 := by
  intro earlier during begun stats
  have iterates : IteratesOnce begun during := by
    refine ⟨?_, by decide⟩
    intro key present
    have keys : begun.store.keys = ["disk", "cpu"] := by decide
    have member := present [] List.nil_prefix
    change key ∈ begun.store.keys at member
    rw [keys] at member
    exact member
  exact (getStats_counts_inserts earlier during iterates).2.2.2.2.2

end GorillaTsdb.Storage

import GorillaTsdb.Foundations.Interleavings
import GorillaTsdb.Foundations.Simulations
import GorillaTsdb.Storage.ConcurrentStats
import GorillaTsdb.Storage.RangeScans

/-! Clients that share the store, one locked storage at a time.
A step of a client reads and writes the storage of one key. So runs may be reordered as long as
the steps on every key keep their order, and a sealing pass, which locks one storage after the
other while inserts go on, does what a pass at a single moment does.
-/

namespace GorillaTsdb.Storage

open Foundations.EventHistories
open Foundations.Interleavings
open Foundations.Simulations

-----------------------------------------------------------------------------------------
-- Stores that hold the same
-----------------------------------------------------------------------------------------

/-- The storage of a key, if the key is in the map. -/
def TSMap.entry (self : TSMap) (key : TimeSeriesKey) : Option TimeSeriesStorage :=
  self.series.lookup key

/-- Both maps hold the same keys with the same storages, in whatever order. -/
def TSMap.Same (left right : TSMap) : Prop := ∀ key, left.entry key = right.entry key

theorem TSMap.storageOf_eq (self : TSMap) (key : TimeSeriesKey)
    : self.storageOf key = (self.entry key).getD (TimeSeriesStorage.new key) :=
  rfl

section Same

variable {left right : TSMap}

theorem TSMap.Same.storageOf (same : left.Same right) (key : TimeSeriesKey)
    : left.storageOf key = right.storageOf key := by
  rw [left.storageOf_eq, right.storageOf_eq, same key]

theorem TSMap.Same.entries (same : left.Same right)
    : left.series.entries.Perm right.series.entries := by
  refine List.lookup_ext left.series.nodupKeys right.series.nodupKeys ?_
  intro key storage
  exact iff_of_eq (congrArg (storage ∈ ·) (same key))

theorem TSMap.Same.keys (same : left.Same right) : left.keys.Perm right.keys :=
  same.entries.map Sigma.fst

theorem TSMap.Same.getSeries (same : left.Same right) (key : TimeSeriesKey)
    : left.getSeries key = right.getSeries key :=
  congrArg (Option.map TimeSeriesStorage.toTimeSeries) (same key)

theorem TSMap.Same.scanRange (same : left.Same right) (key : TimeSeriesKey)
    (start finish : UInt64)
    : left.scanRange key start finish = right.scanRange key start finish := by
  have found : left.series.lookup key = right.series.lookup key := same key
  rw [TSMap.scanRange, TSMap.scanRange, found]

/-- The totals are sums over the storages, so their order does not matter. -/
theorem TSMap.Same.getStats (same : left.Same right) : left.getStats = right.getStats := by
  have stats (measure : TimeSeriesStats → Nat)
      : ((left.series.entries.map fun entry => entry.2.getStats).map measure).sum
        = ((right.series.entries.map fun entry => entry.2.getStats).map measure).sum :=
    ((same.entries.map _).map measure).sum_nat
  simp only [TSMap.getStats, TSMap.len, stats]
  rw [show left.series.keys.length = right.series.keys.length from same.keys.length_eq]

end Same

-----------------------------------------------------------------------------------------
-- Steps on one key
-----------------------------------------------------------------------------------------

/-- The key of the storage that a step locks. -/
def ClientStep.key : ClientStep → TimeSeriesKey
  | .insert key _ => key
  | .sealIfExpired key _ => key

/-- A step on the storage of its own key, which an insert creates if there is none. -/
def entryStep (found : Option TimeSeriesStorage)
    : ClientStep → Except StorageError Unit × Option TimeSeriesStorage
  | .insert key point =>
      let (result, storage) := outcome
        (TimeSeriesStorage.insertPoint point (found.getD (TimeSeriesStorage.new key)))
      (result, some storage)
  | .sealIfExpired _ now => (.ok (), found.map fun storage => storage.sealIfExpired now)

theorem TSMap.entry_put (self : TSMap) (key other : TimeSeriesKey) (storage : TimeSeriesStorage)
    : ({ series := self.series.insert key storage } : TSMap).entry other
      = if key = other then some storage else self.entry other := by
  split
  case isTrue same =>
    subst same
    exact AList.lookup_insert self.series
  case isFalse different => exact AList.lookup_insert_ne (Ne.symm different)

/-- An insert acts on the entry of its key. -/
theorem TSMap.insert_entry (self : TSMap) (key : TimeSeriesKey) (point : DataPoint)
    : (self.clientStep (.insert key point)).1
        = (entryStep (self.entry key) (.insert key point)).1
      ∧ ∀ other,
          (self.clientStep (.insert key point)).2.entry other
          = if key = other then (entryStep (self.entry key) (.insert key point)).2
            else self.entry other := by
  have storage := self.storageOf_eq key
  cases inserted : TimeSeriesStorage.insertPoint point (self.storageOf key) <;>
    simp [TSMap.clientStep, TSMap.insert, inserted, entryStep, ← storage, outcome,
      TSMap.entry_put]

/-- A round of a sealing pass acts on the entry of its key. -/
theorem TSMap.sealSeries_entry (self : TSMap) (key : TimeSeriesKey) (now : UInt64)
    (other : TimeSeriesKey)
    : (self.sealSeries key now).entry other
      = if key = other then (self.entry other).map fun storage => storage.sealIfExpired now
        else self.entry other := by
  by_cases owned : key = other
  · subst owned
    rw [if_pos rfl]
    unfold TSMap.sealSeries
    cases found : self.series.lookup key with
    | none =>
        rw [TSMap.entry, found]
        rfl
    | some storage =>
        rw [self.entry_put, if_pos rfl, TSMap.entry, found]
        rfl
  · rw [if_neg owned]
    unfold TSMap.sealSeries
    cases self.series.lookup key with
    | none => rfl
    | some storage => rw [self.entry_put, if_neg owned]

/-- The keys of the map are components that do not interact. -/
theorem TSMap.separates : Separates TSMap.clientStep ClientStep.key TSMap.entry entryStep where
  acts := by
    intro store step
    cases step with
    | insert key point =>
        obtain ⟨result, entries⟩ := store.insert_entry key point
        exact Prod.ext result ((entries key).trans (if_pos rfl))
    | sealIfExpired key now =>
        exact Prod.ext rfl ((store.sealSeries_entry key now key).trans (if_pos rfl))
  frame := by
    intro store step key different
    cases step with
    | insert other point =>
        exact ((store.insert_entry other point).2 key).trans (if_neg different)
    | sealIfExpired other now =>
        exact (store.sealSeries_entry other now key).trans (if_neg different)

/-- Runs in which the steps on every key come in the same order leave stores that hold the same
and answer the same, and every step has the same result in both, however they are interleaved.
-/
theorem clientRuns_agree (store : TSMap) (first second : List ClientStep)
    (same
      : ∀ key, project ClientStep.key key first = project ClientStep.key key second)
    : let left := after TSMap.clientStep store first
      let right := after TSMap.clientStep store second
      (∀ key,
        projectEvents ClientStep.key key (history TSMap.clientStep store first)
        = projectEvents ClientStep.key key (history TSMap.clientStep store second))
      ∧ left.Same right
      ∧ left.keys.Perm right.keys
      ∧ (∀ key, left.getSeries key = right.getSeries key)
      ∧ (∀ key start finish,
          left.scanRange key start finish = right.scanRange key start finish)
      ∧ left.getStats = right.getStats := by
  intro left right
  have start : ∀ key, store.entry key = store.entry key := fun _ => rfl
  have agree (key : TimeSeriesKey) := TSMap.separates.interleavings_agree start (same key)
  have holds : left.Same right := fun key => (agree key).1
  exact ⟨fun key => (agree key).2, holds, holds.keys, holds.getSeries, holds.scanRange,
    holds.getStats⟩

theorem clientRuns_agree_example
    : let cpu : List ClientStep := [.insert "cpu" ⟨1, ⟨1⟩⟩, .sealIfExpired "cpu" 8000000]
      let disk : List ClientStep := [.insert "disk" ⟨2, ⟨1⟩⟩, .insert "disk" ⟨3, ⟨1⟩⟩]
      (after TSMap.clientStep TSMap.new (cpu ++ disk)).getStats
      = (after TSMap.clientStep TSMap.new (disk ++ cpu)).getStats := by
  intro cpu disk
  refine (clientRuns_agree TSMap.new (cpu ++ disk) (disk ++ cpu) ?_).2.2.2.2.2
  intro key
  simp only [project_append]
  by_cases isCpu : "cpu" = key
  · subst isCpu
    simp [project, cpu, disk, ClientStep.key]
  · have none : project ClientStep.key key cpu = [] := by
      simp [project, cpu, ClientStep.key, isCpu]
    rw [none, List.nil_append, List.append_nil]

-----------------------------------------------------------------------------------------
-- Runs of atomic operations
-----------------------------------------------------------------------------------------

/-- The atomic operation that a step amounts to: a round of a sealing pass is a pass in which
every other storage reads the clock at zero.
-/
def ClientStep.atomically : ClientStep → StoreOp
  | .insert key point => .insert key point
  | .sealIfExpired key now => .sealExpiredBlocks fun other => if key = other then now else 0

/-- Every storage represents some points. -/
def TSMap.Sound (self : TSMap) : Prop :=
  ∀ key, ∃ closed points, (self.storageOf key).Segmented closed points

theorem sound_run (operations : List StoreOp)
    : (after TSMap.step TSMap.new operations).Sound := by
  intro key
  obtain ⟨closed, segmented⟩ := storeRun_segmented operations key
  exact ⟨closed, _, segmented⟩

theorem TSMap.Same.sound {left right : TSMap} (same : left.Same right) (sound : right.Sound)
    : left.Sound := by
  intro key
  rw [same.storageOf key]
  exact sound key

/-- No clock reading of zero seals a block that holds a point: its window ends later. -/
theorem TimeSeriesStorage.Segmented.sealIfExpired_zero {self : TimeSeriesStorage}
    {closed : List TimeSeriesBlock} {points : List DataPoint}
    (segmented : self.Segmented closed points)
    : self.sealIfExpired 0 = self := by
  rcases self.sealIfExpired_cases 0 with ⟨block, current, due, -⟩ | ⟨-, same⟩
  · have opened := segmented.current block current
    obtain ⟨point, member⟩ := List.exists_mem_of_ne_nil _ opened.holds
    have inside := (opened.built.windowed.inside point member).2
    simp only [TimeSeriesBlock.shouldSeal, opened.unsealed, Bool.false_eq_true, if_false,
      decide_eq_true_eq, ge_iff_le, UInt64.le_iff_toNat_le] at due
    rw [UInt64.lt_iff_toNat_lt] at inside
    have zero : (0 : UInt64).toNat = 0 := rfl
    omega
  · exact same

theorem TSMap.Sound.entry_zero {self : TSMap} (sound : self.Sound) (key : TimeSeriesKey)
    : (self.entry key).map (fun storage => storage.sealIfExpired 0) = self.entry key := by
  obtain ⟨closed, points, segmented⟩ := sound key
  rw [self.storageOf_eq] at segmented
  cases found : self.entry key with
  | none => rfl
  | some storage =>
      rw [found, Option.getD_some] at segmented
      rw [Option.map_some, segmented.sealIfExpired_zero]

/-- In a sound store, a step and its atomic operation have the same result and the same effect. -/
theorem TSMap.Sound.clientStep_atomically {self : TSMap} (sound : self.Sound)
    (step : ClientStep)
    : (self.clientStep step).1 = (self.step step.atomically).1
      ∧ (self.clientStep step).2.Same (self.step step.atomically).2 := by
  cases step with
  | insert key point => exact ⟨rfl, fun _ => rfl⟩
  | sealIfExpired key now =>
      refine ⟨rfl, fun other => ?_⟩
      have round := self.sealSeries_entry key now other
      have pass := self.lookup_sealExpiredBlocks (fun other => if key = other then now else 0) other
      refine round.trans (Eq.trans ?_ pass.symm)
      split
      case isTrue => rfl
      case isFalse => exact (sound.entry_zero other).symm

/-- In a sound store, a step makes the moves of its atomic operation. -/
theorem TSMap.Sound.clientStep_moves {self : TSMap} (sound : self.Sound) (step : ClientStep)
    (key : TimeSeriesKey)
    : (self.storageOf key).Moves key step.atomically (self.clientStep step).1
        (self.closing key step.atomically) ((self.clientStep step).2.storageOf key) := by
  obtain ⟨result, same⟩ := sound.clientStep_atomically step
  rw [result, same.storageOf key]
  exact self.step_moves key step.atomically

theorem TSMap.Sound.clientStep {self : TSMap} (sound : self.Sound) (step : ClientStep)
    : (self.clientStep step).2.Sound := by
  intro key
  obtain ⟨closed, points, segmented⟩ := sound key
  obtain ⟨stays, -⟩ := segmented.moves (sound.clientStep_moves step key)
  exact ⟨_, _, stays⟩

/-- Stores that hold the same answer a step alike. -/
theorem TSMap.Same.clientStep {left right : TSMap} (same : left.Same right) (step : ClientStep)
    : (left.clientStep step).1 = (right.clientStep step).1
      ∧ (left.clientStep step).2.Same (right.clientStep step).2 := by
  have alike := same step.key
  have moved := TSMap.separates.acts left step
  rw [alike, ← TSMap.separates.acts right step] at moved
  obtain ⟨results, entries⟩ := Prod.mk.inj moved
  refine ⟨results, fun key => ?_⟩
  by_cases owned : step.key = key
  · subst owned
    exact entries
  · rw [TSMap.separates.frame left step key owned, TSMap.separates.frame right step key owned]
    exact same key

/-- The store in the middle of a run of clients, and the one of a run of atomic operations that
holds the same.
-/
def Atomic (store atomic : TSMap) : Prop :=
  store.Same atomic ∧ ∃ operations, atomic = after TSMap.step TSMap.new operations

theorem atomic_new : Atomic TSMap.new TSMap.new := ⟨fun _ => rfl, [], rfl⟩

theorem Atomic.sound {store atomic : TSMap} (matched : Atomic store atomic) : store.Sound := by
  obtain ⟨same, operations, rfl⟩ := matched
  exact same.sound (sound_run operations)

/-- The store of the clients is simulated by the store of atomic operations. -/
theorem clientStep_simulates
    : Simulates TSMap.clientStep TSMap.step ClientStep.atomically Eq Atomic where
  stepped := by
    intro store atomic matched step
    obtain ⟨same, operations, reached⟩ := matched
    have sound : atomic.Sound := reached ▸ sound_run operations
    obtain ⟨result, moved⟩ := same.clientStep step
    obtain ⟨atomicResult, atomicMoved⟩ := sound.clientStep_atomically step
    refine ⟨result.trans atomicResult, fun key => (moved key).trans (atomicMoved key),
      operations ++ [step.atomically], ?_⟩
    rw [reached, after_append]
    rfl

theorem sound_clientRun (steps : List ClientStep)
    : (after TSMap.clientStep TSMap.new steps).Sound :=
  (clientStep_simulates.run atomic_new steps).2.sound

/-- The inserts of a run of clients, with their results. -/
def clientInserts (events : List (ClientStep × Except StorageError Unit))
    : List (TimeSeriesKey × DataPoint × Except StorageError Unit) :=
  events.filterMap fun
    | (.insert key point, result) => some (key, point, result)
    | (.sealIfExpired _ _, _) => none

/-- A round of a sealing pass. -/
def ClientStep.isRound : ClientStep → Bool
  | .insert _ _ => false
  | .sealIfExpired _ _ => true

/-- Rounds make no insert. -/
theorem clientInserts_rounds {events : List (ClientStep × Except StorageError Unit)}
    (areRounds : ∀ event ∈ events, event.1.isRound)
    : clientInserts events = [] := by
  refine List.filterMap_eq_nil_iff.mpr fun event member => ?_
  obtain ⟨step, result⟩ := event
  cases step with
  | insert key point => exact absurd (areRounds _ member) Bool.false_ne_true
  | sealIfExpired key now => rfl

/-- The inserts of a run of atomic operations, with their results. -/
def storeInserts (events : List (StoreOp × Except StorageError Unit))
    : List (TimeSeriesKey × DataPoint × Except StorageError Unit) :=
  events.filterMap fun
    | (.insert key point, result) => some (key, point, result)
    | (.sealExpiredBlocks _, _) => none

/-- Runs with the same results make the same inserts, by induction on the steps. -/
theorem storeInserts_atomically {store atomic : TSMap} {steps : List ClientStep}
    (alike
      : List.Forall₂ Eq (results TSMap.clientStep store steps)
          (results TSMap.step atomic (steps.map ClientStep.atomically)))
    : storeInserts (history TSMap.step atomic (steps.map ClientStep.atomically))
      = clientInserts (history TSMap.clientStep store steps) := by
  induction steps generalizing store atomic with
  | nil => rfl
  | cons step rest ih =>
      obtain ⟨first, others⟩ := List.forall₂_cons.mp alike
      have later := ih others
      cases step with
      | insert key point =>
          have same : (store.clientStep (.insert key point)).1
              = (atomic.step (.insert key point)).1 := first
          simp only [List.map_cons, ClientStep.atomically, history, storeInserts, clientInserts,
            List.filterMap_cons, same] at later ⊢
          exact congrArg _ later
      | sealIfExpired key now => exact later

/-- The rounds of a pass over all keys, in the order of the map. -/
def TSMap.rounds (self : TSMap) (now : TimeSeriesKey → UInt64) : List ClientStep :=
  self.keys.map fun key => .sealIfExpired key (now key)

/-- Rounds on different keys do what an atomic pass does that reads the same clock for these keys
and leaves the others alone.
-/
theorem TSMap.after_distinctRounds (self : TSMap) {rounds : List ClientStep}
    (areRounds : ∀ step ∈ rounds, step.isRound)
    (once : (rounds.map ClientStep.key).Nodup) {now : TimeSeriesKey → UInt64}
    (reads : ∀ key clock, .sealIfExpired key clock ∈ rounds → now key = clock)
    (others
      : ∀ key,
          key ∉ rounds.map ClientStep.key
          → (self.entry key).map (fun storage => storage.sealIfExpired (now key))
            = self.entry key)
    : (after TSMap.clientStep self rounds).Same (self.sealExpiredBlocks now) := by
  intro key
  obtain ⟨reached, -⟩ := TSMap.separates.project_run self rounds key
  refine reached.trans (Eq.trans ?_ (self.lookup_sealExpiredBlocks now key).symm)
  by_cases visited : key ∈ rounds.map ClientStep.key
  · obtain ⟨step, member, rfl⟩ := List.mem_map.mp visited
    rw [project_single once member]
    cases step with
    | insert other point => exact absurd (areRounds _ member) Bool.false_ne_true
    | sealIfExpired other clock =>
        have same : now other = clock := reads other clock member
        rw [← same]
        rfl
  · have none : project ClientStep.key key rounds = [] :=
      project_eq_nil fun step member same => visited (List.mem_map.mpr ⟨step, member, same⟩)
    rw [none]
    exact (others key visited).symm

/-- A pass without other clients in between makes no insert and is the atomic pass. -/
theorem TSMap.after_rounds (self : TSMap) (now : TimeSeriesKey → UInt64)
    : clientInserts (history TSMap.clientStep self (self.rounds now)) = []
      ∧ (after TSMap.clientStep self (self.rounds now)).Same (self.sealExpiredBlocks now) := by
  have areRounds : ∀ step ∈ self.rounds now, step.isRound := by
    intro step member
    obtain ⟨key, -, rfl⟩ := List.mem_map.mp member
    rfl
  have keys : (self.rounds now).map ClientStep.key = self.keys :=
    (List.map_map ..).trans (List.map_id _)
  refine ⟨clientInserts_rounds ?_, self.after_distinctRounds areRounds ?_ ?_ ?_⟩
  · intro event member
    apply areRounds
    rw [← history_operations self (self.rounds now)]
    exact List.mem_map_of_mem member
  · rw [keys]
    exact self.series.keys_nodup
  · intro key clock member
    obtain ⟨other, -, same⟩ := List.mem_map.mp member
    cases same
    rfl
  · intro key absent
    rw [keys] at absent
    have missing : self.series.lookup key = none := AList.lookup_eq_none.mpr absent
    rw [TSMap.entry, missing]
    rfl

/-- Every run of atomic operations is matched by clients, by induction on the operations. -/
theorem TSMap.Same.exists_clientRun {store atomic : TSMap} (same : store.Same atomic)
    (operations : List StoreOp)
    : ∃ steps,
        clientInserts (history TSMap.clientStep store steps)
          = storeInserts (history TSMap.step atomic operations)
        ∧ (after TSMap.clientStep store steps).Same (after TSMap.step atomic operations) := by
  induction operations generalizing store atomic with
  | nil => exact ⟨[], rfl, same⟩
  | cons operation rest ih =>
      cases operation with
      | insert key point =>
          obtain ⟨result, next⟩ := same.clientStep (.insert key point)
          obtain ⟨steps, inserts, reached⟩ := ih next
          refine ⟨.insert key point :: steps, ?_, reached⟩
          have first : (store.clientStep (.insert key point)).1
              = (atomic.step (.insert key point)).1 := result
          simp only [history, clientInserts, storeInserts, List.filterMap_cons, first]
            at inserts ⊢
          exact congrArg _ inserts
      | sealExpiredBlocks now =>
          obtain ⟨silent, passed⟩ := store.after_rounds now
          have next : (after TSMap.clientStep store (store.rounds now)).Same
              (atomic.sealExpiredBlocks now) := by
            intro key
            refine (passed key).trans ((store.lookup_sealExpiredBlocks now key).trans ?_)
            have alike : store.series.lookup key = atomic.series.lookup key := same key
            rw [alike]
            exact (atomic.lookup_sealExpiredBlocks now key).symm
          obtain ⟨steps, inserts, reached⟩ := ih next
          refine ⟨store.rounds now ++ steps, ?_, ?_⟩
          · rw [history_append, clientInserts, List.filterMap_append]
            exact (congrArg₂ (· ++ ·) silent inserts)
          · rw [after_append]
            exact reached

/-- Clients that interleave inserts and rounds of sealing passes in any way reach what atomic
operations reach, with the same inserts and results, and nothing else.
-/
theorem clients_reach_atomic_stores
    : (∀ steps,
        ∃ operations,
          storeInserts (history TSMap.step TSMap.new operations)
            = clientInserts (history TSMap.clientStep TSMap.new steps)
          ∧ (after TSMap.clientStep TSMap.new steps).Same
              (after TSMap.step TSMap.new operations))
      ∧ ∀ operations,
          ∃ steps,
            clientInserts (history TSMap.clientStep TSMap.new steps)
              = storeInserts (history TSMap.step TSMap.new operations)
            ∧ (after TSMap.clientStep TSMap.new steps).Same
                (after TSMap.step TSMap.new operations) := by
  refine ⟨?_, atomic_new.1.exists_clientRun⟩
  intro steps
  obtain ⟨alike, reached⟩ := clientStep_simulates.run atomic_new steps
  exact ⟨steps.map ClientStep.atomically, storeInserts_atomically alike, reached.1⟩

end GorillaTsdb.Storage

import GorillaTsdb.Storage.WalCrashes

/-! The entry count of the open log against the entries in its file.
Opening a log starts the count at zero and does not look into the file.
-/

namespace GorillaTsdb.Storage

open Foundations.EventHistories
open Foundations.TokenStreams (bind_ok)

-----------------------------------------------------------------------------------------
-- What replay returns
-----------------------------------------------------------------------------------------

/-- A callback that returns `Ok` for every entry. -/
def AcceptsAll {σ : Type} (callback : WALEntry → EStateM StorageError σ Unit) : Prop :=
  ∀ entry state, ∃ later, callback entry state = .ok () later

/-- Such a callback is given all entries, by induction on the entries. -/
theorem AcceptsAll.forM_ok {σ : Type} {callback : WALEntry → EStateM StorageError σ Unit}
    (accepts : AcceptsAll callback) (entries : List WALEntry) (state : σ)
    : ∃ later, forM entries callback state = .ok () later := by
  induction entries generalizing state with
  | nil => exact ⟨state, rfl⟩
  | cons entry others ih =>
      obtain ⟨next, accepted⟩ := accepts entry state
      obtain ⟨later, others_accepted⟩ := ih next
      refine ⟨later, ?_⟩
      rw [List.forM_cons, bind_ok accepted, others_accepted]

/-- The count of the open log is what replay returns, for any callback that accepts all. -/
def LogState.CountsEntries (bincode : Bincode) (self : LogState) : Prop :=
  ∀ (σ : Type) (callback : WALEntry → EStateM StorageError σ Unit),
    AcceptsAll callback
    → ∀ state,
        ∃ later,
          WriteAheadLog.replay bincode (some self.contents) callback state
          = .ok self.log.entryCount later

section Frames

variable {bincode : Bincode} {entries : List WALEntry}

/-- A file of whole frames is replayed to the number of its frames. -/
theorem replay_acceptsAll (roundTrips : ∀ entry ∈ entries, bincode.RoundTrips entry) {σ : Type}
    {callback : WALEntry → EStateM StorageError σ Unit} (accepts : AcceptsAll callback)
    (state : σ)
    : ∃ later,
        WriteAheadLog.replay bincode (some (entries.flatMap (frame bincode))) callback state
        = .ok entries.length later := by
  obtain ⟨later, accepted⟩ := accepts.forM_ok entries state
  refine ⟨later, ?_⟩
  rw [replay_frames callback roundTrips, bind_ok accepted]
  rfl

theorem LogState.countsEntries_iff {self : LogState}
    (roundTrips : ∀ entry ∈ entries, bincode.RoundTrips entry)
    (contents : self.contents = entries.flatMap (frame bincode))
    : self.CountsEntries bincode ↔ self.log.entryCount = entries.length := by
  rw [LogState.CountsEntries, contents]
  constructor
  · intro counts
    have acceptsAll : AcceptsAll fun _ : WALEntry => (pure () : EStateM StorageError Unit Unit) :=
      fun _ state => ⟨state, rfl⟩
    obtain ⟨counted, returned⟩ := counts Unit _ acceptsAll ()
    obtain ⟨replayed, whole⟩ := replay_acceptsAll roundTrips acceptsAll ()
    exact (EStateM.Result.ok.inj (returned.symm.trans whole)).1
  · intro same σ callback accepts state
    rw [same]
    exact replay_acceptsAll roundTrips accepts state

/-- A file of whole frames is empty only if there are none: each begins with a length. -/
theorem zero_eq_length_iff (roundTrips : ∀ entry ∈ entries, bincode.RoundTrips entry)
    : 0 = entries.length ↔ entries.flatMap (frame bincode) = [] := by
  cases entries with
  | nil => exact iff_of_true rfl rfl
  | cons entry others =>
      refine iff_of_false (by simp) ?_
      obtain ⟨encoded, serialized, -, -⟩ := roundTrips entry List.mem_cons_self
      rw [List.flatMap_cons, frame, serialized, List.append_assoc]
      intro empty
      have length := congrArg List.length empty
      rw [List.length_append, length_toLeBytes, List.length_nil] at length
      omega

end Frames

-----------------------------------------------------------------------------------------
-- Runs
-----------------------------------------------------------------------------------------

/-- The log after `create` on a path, with the file that may be there. -/
def LogState.opened (file : Option (List UInt8)) : LogState where
  log := (WriteAheadLog.create file).1
  contents := (WriteAheadLog.create file).2

/-- The log is only opened while its file is empty. -/
def OpensEmpty (state : LogState) : LogOp → Prop
  | .create => state.contents = []
  | _ => True

/-- A count of zero is right exactly for an empty file. -/
theorem LogState.countsEntries_of_zero {bincode : Bincode} {state : LogState}
    (whole : state.Whole bincode) (zero : state.log.entryCount = 0)
    : state.CountsEntries bincode ↔ state.contents = [] := by
  obtain ⟨entries, roundTrips, contents⟩ := whole
  rw [LogState.countsEntries_iff roundTrips contents, zero, contents]
  exact zero_eq_length_iff roundTrips

/-- Of the calls without a failure, only opening a log with entries loses the count. -/
theorem LogState.countsEntries_step {bincode : Bincode} {state : LogState}
    (whole : state.Whole bincode) (counts : state.CountsEntries bincode) (operation : LogOp)
    (sound : operation.Faultless ∧ operation.Serializable bincode)
    : (state.step bincode operation).2.Whole bincode
      ∧ ((state.step bincode operation).2.CountsEntries bincode
        ↔ OpensEmpty state operation) := by
  cases operation with
  | create => exact ⟨whole, LogState.countsEntries_of_zero whole rfl⟩
  | truncate =>
      have empty : (state.step bincode .truncate).2.Whole bincode :=
        ⟨[], List.forall_mem_nil _, rfl⟩
      exact ⟨empty, iff_of_true ((LogState.countsEntries_of_zero empty rfl).mpr rfl) trivial⟩
  | append entry fault =>
      obtain ⟨rfl, serializable⟩ := sound
      obtain ⟨entries, roundTrips, contents⟩ := whole
      have counted := (LogState.countsEntries_iff roundTrips contents).mp counts
      have allRoundTrip : ∀ other ∈ entries ++ [entry], bincode.RoundTrips other :=
        List.forall_mem_append.mpr ⟨roundTrips, List.forall_mem_singleton.mpr serializable⟩
      rw [state.step_append serializable]
      have written : state.contents ++ frame bincode entry
          = (entries ++ [entry]).flatMap (frame bincode) := by
        rw [List.flatMap_append, List.flatMap_singleton, contents]
      refine ⟨⟨_, allRoundTrip, written⟩, iff_of_true ?_ trivial⟩
      refine (LogState.countsEntries_iff allRoundTrip written).mpr ?_
      rw [List.length_append, List.length_singleton, counted]

/-- In every run of calls without a failure on a file of whole frames, the count is right in all
states exactly if no call opens the log while its file holds an entry, the first one included.
-/
theorem entry_count_agrees_iff (bincode : Bincode) (file : Option (List UInt8))
    (operations : List LogOp) (whole : (LogState.opened file).Whole bincode)
    (faultless : ∀ operation ∈ operations, operation.Faultless)
    (serializable : ∀ operation ∈ operations, operation.Serializable bincode)
    : AllReached (LogState.step bincode) (LogState.CountsEntries bincode)
        (LogState.opened file) operations
      ↔ file.getD [] = []
        ∧ AllSteps (LogState.step bincode) OpensEmpty (LogState.opened file) operations := by
  rw [allReached_iff_allSteps LogState.countsEntries_step whole fun operation member =>
    And.intro (faultless operation member) (serializable operation member)]
  exact and_congr_left fun _ => LogState.countsEntries_of_zero whole rfl

/-- A log that is truncated before it is opened again. -/
theorem entry_count_agrees_iff_sample
    : let entry : WALEntry := ⟨"metric", ⟨1000, ⟨1⟩⟩, 1000⟩
      AllReached (LogState.step fixedIntBincode) (LogState.CountsEntries fixedIntBincode)
        (LogState.opened none) [.append entry none, .truncate, .create, .append entry none] := by
  intro entry
  have serializable : fixedIntBincode.RoundTrips entry :=
    fixedIntBincode_roundTrips_metric _ _
  refine (entry_count_agrees_iff fixedIntBincode none _ ?_ ?_ ?_).mpr ⟨rfl, ?_⟩
  · exact ⟨[], List.forall_mem_nil _, rfl⟩
  · simp [LogOp.Faultless]
  · simp [LogOp.Serializable, serializable]
  · exact ⟨trivial, trivial, rfl, trivial, trivial⟩

/-- A log that is opened again after an append. -/
theorem reopened_count_lost
    : ¬ (∀ (bincode : Bincode) (operations : List LogOp),
          (∀ operation ∈ operations, operation.Faultless)
          → (∀ operation ∈ operations, operation.Serializable bincode)
          → AllReached (LogState.step bincode) (LogState.CountsEntries bincode)
              (LogState.opened none) operations) := by
  intro agrees
  let entry : WALEntry := ⟨"metric", ⟨1000, ⟨1⟩⟩, 1000⟩
  have serializable : fixedIntBincode.RoundTrips entry :=
    fixedIntBincode_roundTrips_metric _ _
  have reached := agrees fixedIntBincode [.append entry none, .create]
    (by simp [LogOp.Faultless]) (by simp [LogOp.Serializable, serializable])
  have whole : (after (LogState.step fixedIntBincode) (LogState.opened none)
      [.append entry none, .create]).Whole fixedIntBincode :=
    ⟨[entry], List.forall_mem_singleton.mpr serializable, rfl⟩
  have empty := (LogState.countsEntries_of_zero whole rfl).mp (reached _ (List.prefix_refl _))
  exact absurd empty (by decide)

end GorillaTsdb.Storage

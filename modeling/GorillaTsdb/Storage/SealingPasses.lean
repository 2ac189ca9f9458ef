import GorillaTsdb.Storage.ClientRuns

/-! A sealing pass that locks one storage after the other, with inserts in between.
On every key, some inserts come before the round of the pass and the others after it. Since keys
do not interact, all of the first kind may be moved in front of the pass and all others behind
it. A block that is due when the pass begins does not outlive it.
-/

namespace GorillaTsdb.Storage

open Foundations.EventHistories
open Foundations.Interleavings
open Foundations.Simulations

/-- The clock reading of the round on a key, or zero if the pass does not visit the key. -/
def passClock (during : List ClientStep) (key : TimeSeriesKey) : UInt64 :=
  match project ClientStep.key key (during.filter ClientStep.isRound) with
  | .sealIfExpired _ now :: _ => now
  | _ => 0

section Pass

variable {during : List ClientStep}

/-- The rounds of a pass visit no storage twice. -/
def OnePass (during : List ClientStep) : Prop :=
  ((during.filter ClientStep.isRound).map ClientStep.key).Nodup

theorem OnePass.passClock_eq (pass : OnePass during) {key : TimeSeriesKey} {now : UInt64}
    (member : .sealIfExpired key now ∈ during.filter ClientStep.isRound)
    : passClock during key = now := by
  have single : project ClientStep.key key (during.filter ClientStep.isRound)
      = [.sealIfExpired key now] := project_single pass member
  rw [passClock, single]

theorem passClock_of_notMem {key : TimeSeriesKey}
    (absent : key ∉ (during.filter ClientStep.isRound).map ClientStep.key)
    : passClock during key = 0 := by
  have none : project ClientStep.key key (during.filter ClientStep.isRound) = [] :=
    project_eq_nil fun step member same => absent (List.mem_map.mpr ⟨step, member, same⟩)
  rw [passClock, none]

/-- In a sound store, the rounds of a pass do what the atomic pass does. -/
theorem OnePass.after_rounds (pass : OnePass during) {store : TSMap} (sound : store.Sound)
    : (after TSMap.clientStep store (during.filter ClientStep.isRound)).Same
        (store.sealExpiredBlocks (passClock during)) := by
  apply store.after_distinctRounds
  · intro step member
    exact (List.mem_filter.mp member).2
  · exact pass
  · intro key now member
    exact pass.passClock_eq member
  · intro key absent
    rw [passClock_of_notMem absent]
    exact sound.entry_zero key

/-- The inserts of a pass in front of the round on their key. -/
def insertsBefore (during : List ClientStep) : List ClientStep :=
  early ClientStep.key ClientStep.isRound [] during

/-- The inserts of a pass behind the round on their key. -/
def insertsBehind (during : List ClientStep) : List ClientStep :=
  late ClientStep.key ClientStep.isRound [] during

/-- A pass with inserts in between is an interleaving of the inserts before it, its rounds alone
and the inserts behind it.
-/
theorem OnePass.project_split (pass : OnePass during) (key : TimeSeriesKey)
    : project ClientStep.key key during
      = project ClientStep.key key
          (insertsBefore during ++ during.filter ClientStep.isRound ++ insertsBehind during) :=
  (project_marks pass (List.not_mem_nil : key ∉ [])).symm

/-- The rounds of a pass insert nothing under any key. -/
theorem clientInserts_ofRounds (store : TSMap) (during : List ClientStep) (key : TimeSeriesKey)
    : clientInserts
        (projectEvents ClientStep.key key
          (history TSMap.clientStep store (during.filter ClientStep.isRound)))
      = [] := by
  apply clientInserts_rounds
  intro event member
  have step : event.1 ∈ during.filter ClientStep.isRound := by
    rw [← history_operations store (during.filter ClientStep.isRound)]
    exact List.mem_map_of_mem (List.mem_filter.mp member).1
  exact (List.mem_filter.mp step).2

end Pass

/-- A pass that locks one storage after the other, with inserts of other clients in between, is
an atomic pass at one moment. The inserts are split into those that come before it and those that
come behind it, on every key in their order, and get the same results on every key; the store
afterwards holds the same.
-/
theorem sealing_pass_serializes (earlier during : List ClientStep) (pass : OnePass during)
    : let begun := after TSMap.clientStep TSMap.new earlier
      let ended := after TSMap.clientStep begun during
      let before := after TSMap.clientStep begun (insertsBefore during)
      let passed := before.sealExpiredBlocks (passClock during)
      (insertsBefore during ++ insertsBehind during).Perm
          (during.filter fun step => !step.isRound)
      ∧ (∀ key,
          project ClientStep.key key (insertsBefore during ++ insertsBehind during)
          = project ClientStep.key key (during.filter fun step => !step.isRound))
      ∧ ended.Same (after TSMap.clientStep passed (insertsBehind during))
      ∧ ∀ key,
          clientInserts
            (projectEvents ClientStep.key key (history TSMap.clientStep begun during))
          = clientInserts
              (projectEvents ClientStep.key key
                (history TSMap.clientStep begun (insertsBefore during)
                  ++ history TSMap.clientStep passed (insertsBehind during))) := by
  intro begun ended before passed
  have sound : before.Sound := by
    have whole := sound_clientRun (earlier ++ insertsBefore during)
    rwa [after_append] at whole
  have alike := pass.after_rounds sound
  refine ⟨perm_unmarked [] during, fun key => project_unmarked pass List.not_mem_nil, ?_, ?_⟩
  · intro key
    have start : ∀ key, begun.entry key = begun.entry key := fun _ => rfl
    have moved := (TSMap.separates.interleavings_agree start (pass.project_split key)).1
    have behind : project ClientStep.key key (insertsBehind during)
        = project ClientStep.key key (insertsBehind during) := rfl
    rw [after_append, after_append] at moved
    exact moved.trans (TSMap.separates.interleavings_agree alike behind).1
  · intro key
    have start : ∀ key, begun.entry key = begun.entry key := fun _ => rfl
    have events := (TSMap.separates.interleavings_agree start (pass.project_split key)).2
    have behind := (TSMap.separates.interleavings_agree alike
      (rfl : project ClientStep.key key (insertsBehind during) = _)).2
    have silent := clientInserts_ofRounds before during key
    rw [events, history_append, history_append, after_append]
    simp only [projectEvents, List.filter_append, clientInserts, List.filterMap_append]
      at behind silent ⊢
    rw [silent, List.append_nil]
    exact congrArg _ (congrArg _ behind)

/-- Between the rounds on two keys, each key gets a point: one behind its round, one before. -/
theorem sealing_pass_serializes_example
    : let earlier : List ClientStep := [.insert "cpu" ⟨1, ⟨1⟩⟩, .insert "disk" ⟨1, ⟨1⟩⟩]
      let during : List ClientStep := [
        .sealIfExpired "cpu" 8000000, .insert "cpu" ⟨2, ⟨1⟩⟩, .insert "disk" ⟨2, ⟨1⟩⟩,
        .sealIfExpired "disk" 9000000
      ]
      let begun := after TSMap.clientStep TSMap.new earlier
      let passed := (after TSMap.clientStep begun [.insert "disk" ⟨2, ⟨1⟩⟩]).sealExpiredBlocks
        (passClock during)
      (after TSMap.clientStep begun during).Same
        (after TSMap.clientStep passed [.insert "cpu" ⟨2, ⟨1⟩⟩]) := by
  intro earlier during begun passed
  have pass : OnePass during := by
    rw [OnePass]
    decide
  exact (sealing_pass_serializes earlier during pass).2.2.1

-----------------------------------------------------------------------------------------
-- Due blocks
-----------------------------------------------------------------------------------------

/-- The block with more points at its end, perhaps. -/
structure TimeSeriesBlock.Extends (grown block : TimeSeriesBlock) : Prop where
  window : grown.startTime = block.startTime ∧ grown.endTime = block.endTime
  points : block.points <+: grown.points

/-- Behind these records, the storage has the record of the block, as it was when it was sealed. -/
def TimeSeriesStorage.HasSealed (storage : TimeSeriesStorage) (base : List CompressedBlock)
    (block : TimeSeriesBlock)
    : Prop :=
  ∃ (grown : TimeSeriesBlock) (record : CompressedBlock),
    grown.Extends block
    ∧ grown.compress = .ok record
    ∧ base ++ [record] <+: storage.sealedBlocks

/-- Behind these records, the block is still open or has been sealed. -/
def TimeSeriesStorage.Keeps (storage : TimeSeriesStorage) (base : List CompressedBlock)
    (block : TimeSeriesBlock)
    : Prop :=
  (∃ grown, storage.currentBlock = some grown ∧ grown.Extends block
    ∧ storage.sealedBlocks = base)
  ∨ storage.HasSealed base block

/-- Sealing appends the record of the open block. -/
theorem TimeSeriesStorage.Segmented.sealedBlocks_seal {self emptied : TimeSeriesStorage}
    {closed : List TimeSeriesBlock} {points : List DataPoint}
    (segmented : self.Segmented closed points) {block : TimeSeriesBlock}
    (current : self.currentBlock = some block)
    (sealing : TimeSeriesStorage.sealCurrentBlock self = .ok () emptied)
    : ∃ record,
        block.compress = .ok record ∧ emptied.sealedBlocks = self.sealedBlocks ++ [record] := by
  obtain ⟨record, compressing, count⟩ := block.seal.compress_total
  have positive : record.count > 0 :=
    count ▸ List.length_pos_of_ne_nil (segmented.current block current).holds
  simp only [TimeSeriesStorage.sealCurrentBlock, current, compressing, positive, if_true]
    at sealing
  obtain ⟨-, rfl⟩ := EStateM.Result.ok.inj sealing
  exact ⟨record, compressing, rfl⟩

section Keeping

variable {self emptied : TimeSeriesStorage} {closed : List TimeSeriesBlock}
  {points : List DataPoint} {base : List CompressedBlock} {block : TimeSeriesBlock}

theorem TimeSeriesStorage.HasSealed.grows (sealed : self.HasSealed base block)
    {later : TimeSeriesStorage} (grows : self.sealedBlocks <+: later.sealedBlocks)
    : later.HasSealed base block := by
  obtain ⟨grown, record, extended, compressed, behind⟩ := sealed
  exact ⟨grown, record, extended, compressed, behind.trans grows⟩

/-- Sealing the open block leaves a kept block sealed. -/
theorem TimeSeriesStorage.Keeps.seal (keeps : self.Keeps base block)
    (segmented : self.Segmented closed points) {other : TimeSeriesBlock}
    (current : self.currentBlock = some other)
    (sealing : TimeSeriesStorage.sealCurrentBlock self = .ok () emptied)
    : emptied.HasSealed base block := by
  obtain ⟨record, compressed, records⟩ := segmented.sealedBlocks_seal current sealing
  rcases keeps with ⟨grown, isOpen, extended, stays⟩ | sealed
  · obtain rfl := Option.some.inj (current.symm.trans isOpen)
    have behind : base ++ [record] = emptied.sealedBlocks := by rw [records, stays]
    exact ⟨other, record, extended, compressed, behind ▸ List.prefix_rfl⟩
  · exact sealed.grows (records ▸ List.prefix_append _ _)

/-- No move loses a block: it stays open, takes a point, or is sealed. -/
theorem TimeSeriesStorage.Keeps.moves {key : TimeSeriesKey} {operation : StoreOp}
    {result : Except StorageError Unit} {closing : Option (ClosedBy × TimeSeriesBlock)}
    {later : TimeSeriesStorage} (keeps : self.Keeps base block)
    (segmented : self.Segmented closed points)
    (moves : self.Moves key operation result closing later)
    : later.Keeps base block := by
  cases moves with
  | rests silent => exact keeps
  | joins current accepts =>
      rcases keeps with ⟨grown, isOpen, extended, stays⟩ | sealed
      · obtain rfl := Option.some.inj (current.symm.trans isOpen)
        exact .inl ⟨_, rfl,
          ⟨extended.window, extended.points.trans (List.prefix_append _ _)⟩, stays⟩
      · exact .inr (sealed.grows List.prefix_rfl)
  | opens empty accepts =>
      rcases keeps with ⟨grown, isOpen, -, -⟩ | sealed
      · cases empty.symm.trans isOpen
      · exact .inr (sealed.grows List.prefix_rfl)
  | replaces current refuses sealing accepts =>
      exact .inr ((keeps.seal segmented current sealing).grows List.prefix_rfl)
  | fails current sealing => exact .inr (keeps.seal segmented current sealing)
  | expires current sealing => exact .inr (keeps.seal segmented current sealing)

/-- A round whose clock has reached the end of the block leaves it sealed. -/
theorem TimeSeriesStorage.Keeps.sealIfExpired (keeps : self.Keeps base block)
    (segmented : self.Segmented closed points) {now : UInt64} (due : block.endTime ≤ now)
    : (self.sealIfExpired now).HasSealed base block := by
  rcases self.sealIfExpired_cases now with ⟨other, current, -, sealing⟩ | ⟨waits, same⟩
  · exact keeps.seal segmented current sealing
  · rw [same]
    rcases keeps with ⟨grown, isOpen, extended, -⟩ | sealed
    · have unsealed := (segmented.current grown isOpen).unsealed
      have waiting := waits grown isOpen
      rw [TimeSeriesBlock.shouldSeal, unsealed, extended.window.2] at waiting
      exact absurd due (of_decide_eq_false waiting)
    · exact sealed

end Keeping

/-- No run of clients loses a block, by induction on the steps. -/
theorem TSMap.Sound.keeps_run {store : TSMap} (sound : store.Sound) {key : TimeSeriesKey}
    {base : List CompressedBlock} {block : TimeSeriesBlock}
    (keeps : (store.storageOf key).Keeps base block) (steps : List ClientStep)
    : (after TSMap.clientStep store steps).Sound
      ∧ ((after TSMap.clientStep store steps).storageOf key).Keeps base block := by
  induction steps generalizing store with
  | nil => exact ⟨sound, keeps⟩
  | cons step rest ih =>
      obtain ⟨closed, points, segmented⟩ := sound key
      exact ih (sound.clientStep step) (keeps.moves segmented (sound.clientStep_moves step key))

/-- A sealed block stays sealed, by induction on the steps. -/
theorem TSMap.Sound.hasSealed_run {store : TSMap} (sound : store.Sound) {key : TimeSeriesKey}
    {base : List CompressedBlock} {block : TimeSeriesBlock}
    (sealed : (store.storageOf key).HasSealed base block) (steps : List ClientStep)
    : ((after TSMap.clientStep store steps).storageOf key).HasSealed base block := by
  induction steps generalizing store with
  | nil => exact sealed
  | cons step rest ih =>
      obtain ⟨closed, points, segmented⟩ := sound key
      obtain ⟨-, grows⟩ := segmented.moves (sound.clientStep_moves step key)
      exact ih (sound.clientStep step) (sealed.grows grows)

/-- No block that is due when a pass begins outlives it, whatever clients insert meanwhile: if
every key of the map is visited, and no earlier than the given time, then behind the records that
a key had comes the record of its due block, which may have taken more points before.
-/
theorem due_blocks_are_sealed (earlier during : List ClientStep) (clock : UInt64)
    (visits
      : ∀ key ∈ (after TSMap.clientStep TSMap.new earlier).keys,
          ∃ now, clock ≤ now ∧ .sealIfExpired key now ∈ during)
    : let begun := after TSMap.clientStep TSMap.new earlier
      let ended := after TSMap.clientStep begun during
      ∀ key,
        ∀ block ∈ (begun.storageOf key).currentBlock,
          block.endTime ≤ clock
          → (ended.storageOf key).HasSealed (begun.storageOf key).sealedBlocks block := by
  intro begun ended key block current due
  have present : key ∈ begun.keys := by
    by_contra absent
    rw [begun.storageOf_of_notMem absent] at current
    cases current
  obtain ⟨now, later, member⟩ := visits key present
  obtain ⟨front, back, split⟩ := List.append_of_mem member
  have keeps : (begun.storageOf key).Keeps (begun.storageOf key).sealedBlocks block :=
    .inl ⟨block, current, ⟨⟨rfl, rfl⟩, List.prefix_rfl⟩, rfl⟩
  obtain ⟨sound, kept⟩ := (sound_clientRun earlier).keeps_run keeps front
  obtain ⟨closed, points, segmented⟩ := sound key
  have sealed := kept.sealIfExpired segmented (UInt64.le_trans due later)
  have reached : ended
      = after TSMap.clientStep
          ((after TSMap.clientStep begun front).clientStep (.sealIfExpired key now)).2 back := by
    have whole : after TSMap.clientStep begun (front ++ .sealIfExpired key now :: back) = _ :=
      after_append begun front _
    rwa [← split] at whole
  rw [reached]
  apply (sound.clientStep _).hasSealed_run
  rw [TSMap.clientStep, TSMap.storageOf_sealSeries, if_pos rfl]
  exact sealed

theorem due_blocks_are_sealed_example
    : let begun := after TSMap.clientStep TSMap.new [.insert "cpu" ⟨1, ⟨1⟩⟩]
      let ended := after TSMap.clientStep begun
        [.insert "cpu" ⟨2, ⟨1⟩⟩, .sealIfExpired "cpu" 8000000]
      (ended.storageOf "cpu").HasSealed [] ⟨1, 7200001, [⟨1, ⟨1⟩⟩], false⟩ := by
  intro begun ended
  refine due_blocks_are_sealed [.insert "cpu" ⟨1, ⟨1⟩⟩]
    [.insert "cpu" ⟨2, ⟨1⟩⟩, .sealIfExpired "cpu" 8000000] 7200001 ?_ "cpu" _ rfl (by decide)
  intro key present
  have keys : (after TSMap.clientStep TSMap.new [.insert "cpu" ⟨1, ⟨1⟩⟩]).keys = ["cpu"] := by
    decide
  rw [keys, List.mem_singleton] at present
  subst present
  exact ⟨8000000, by decide, by simp⟩

end GorillaTsdb.Storage

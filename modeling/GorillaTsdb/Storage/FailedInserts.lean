import GorillaTsdb.Storage.StoreRuns

/-! What a refused insert leaves behind.
A new block refuses its own first point when its window would wrap around the end of time. By
then the entry of the key exists, and an open block that refused the point is sealed.
-/

namespace GorillaTsdb.Storage

open Foundations.EventHistories

/-- A new block accepts its own first point exactly if its window does not wrap. -/
theorem TimeSeriesBlock.canAccept_new_iff (timestamp : UInt64)
    : (TimeSeriesBlock.new timestamp).canAccept timestamp = true
      ↔ timestamp.toNat + blockDurationMs.toNat < 2 ^ 64 := by
  have duration := toNat_blockDurationMs
  have bound := timestamp.toNat_lt
  rw [TimeSeriesBlock.canAccept_iff]
  simp only [TimeSeriesBlock.new, UInt64.le_refl, true_and, UInt64.lt_iff_toNat_lt,
    UInt64.toNat_add]
  omega

/-- What a call of `insert_point` does: it returns `Ok`, since the open block or a new one
accepts the point, or the window of a new block wraps. In that case the storage is left alone if
no block was open, and has lost its open block otherwise.
-/
theorem TimeSeriesStorage.Segmented.insertPoint_outcome {self : TimeSeriesStorage}
    {closed : List TimeSeriesBlock} {points : List DataPoint}
    (segmented : self.Segmented closed points) (point : DataPoint)
    : ((point.timestamp.toNat + blockDurationMs.toNat < 2 ^ 64
          ∨ ∃ block ∈ self.currentBlock, block.canAccept point.timestamp = true)
        ∧ ∃ after, TimeSeriesStorage.insertPoint point self = .ok () after)
      ∨ (¬ point.timestamp.toNat + blockDurationMs.toNat < 2 ^ 64
        ∧ (∀ block ∈ self.currentBlock, block.canAccept point.timestamp = false)
        ∧ ∃ error after,
            TimeSeriesStorage.insertPoint point self = .error error after
            ∧ after.currentBlock = none
            ∧ (self.currentBlock = none → after = self)) := by
  rw [← TimeSeriesBlock.canAccept_new_iff]
  rcases self.insertPoint_cases point with ⟨block, current, accepts, joined⟩
    | ⟨none, opening⟩ | ⟨block, emptied, current, refuses, sealing, opening⟩
  · exact Or.inl ⟨Or.inr ⟨block, current, accepts⟩, _, joined⟩
  · rw [opening]
    rcases self.openBlock_cases point with ⟨accepts, opened⟩ | ⟨refuses, error, failed⟩
    · exact Or.inl ⟨Or.inl accepts, _, opened⟩
    · exact Or.inr ⟨by simp [refuses], by simp [none], error, self, failed, none, fun _ => rfl⟩
  · obtain ⟨none, -, -⟩ := segmented.sealCurrentBlock current sealing
    rw [opening]
    rcases TimeSeriesStorage.openBlock_cases _ point with ⟨accepts, opened⟩
      | ⟨windowWraps, error, failed⟩
    · exact Or.inl ⟨Or.inl accepts, _, opened⟩
    · refine Or.inr ⟨by simp [windowWraps], ?_, error, _, failed, none, by simp [current]⟩
      intro other member
      obtain rfl := Option.some.inj (current.symm.trans member)
      exact refuses

/-- Everything that the store shows of itself is the same before and after. -/
structure TSMap.Unchanged (before after : TSMap) : Prop where
  keys : after.keys.Perm before.keys
  len : after.len = before.len
  series : ∀ key, after.series.lookup key = before.series.lookup key
  noEmptySeries
    : ∀ key ∈ after.keys, key ∈ before.keys ∨ 0 < (after.storageOf key).getStats.pointCount

/-- Putting back the storage that a key has changes nothing. -/
theorem TSMap.unchanged_put (self : TSMap) {key : TimeSeriesKey}
    {storage : TimeSeriesStorage} (found : self.series.lookup key = some storage)
    : self.Unchanged { series := self.series.insert key storage } := by
  have member : key ∈ self.series.keys :=
    AList.mem_keys.mp (AList.lookup_isSome.mp (Option.isSome_of_eq_some found))
  have keys : (self.series.insert key storage).keys.Perm self.series.keys := by
    rw [AList.keys_insert]
    exact (List.perm_cons_erase member).symm
  refine ⟨keys, keys.length_eq, ?_, fun other stays => Or.inl (keys.mem_iff.mp stays)⟩
  intro other
  by_cases same : other = key
  · subst same
    rw [AList.lookup_insert, found]
  · rw [AList.lookup_insert_ne same]

/-- After any run, a refused insert leaves the store unchanged exactly if it cannot be refused,
because its window does not wrap or the open block accepts it, or if the key is in the store
already and has no open block.
-/
theorem insert_error_unchanged_iff (operations : List StoreOp) (key : TimeSeriesKey)
    (point : DataPoint)
    : let store := after TSMap.step TSMap.new operations
      (∀ error changed,
          TSMap.insert key point store = .error error changed → store.Unchanged changed)
      ↔ point.timestamp.toNat + blockDurationMs.toNat < 2 ^ 64
        ∨ (∃ block ∈ (store.storageOf key).currentBlock,
            block.canAccept point.timestamp = true)
        ∨ (key ∈ store.keys ∧ (store.storageOf key).currentBlock = none) := by
  intro store
  obtain ⟨closed, segmented⟩ := storeRun_segmented operations key
  rcases segmented.insertPoint_outcome point with ⟨admitted, after, inserted⟩
    | ⟨wraps, refuses, error, after, refused, emptied, untouched⟩
  · refine iff_of_true ?_ (admitted.imp id Or.inl)
    intro error changed failed
    simp only [TSMap.insert, store, inserted] at failed
    cases failed
  · constructor
    · intro unchanged
      have same := unchanged error { series := store.series.insert key after }
        (by simp only [TSMap.insert, store, refused])
      refine Or.inr (Or.inr ⟨?_, ?_⟩)
      · refine same.keys.mem_iff.mp ?_
        simp [TSMap.keys, AList.keys_insert]
      · have found := same.series key
        simp only [AList.lookup_insert] at found
        rw [TSMap.storageOf, ← found, Option.getD_some]
        exact emptied
    · rintro (fits | ⟨block, current, accepts⟩ | ⟨present, none⟩)
      · exact absurd fits wraps
      · exact absurd accepts (by simp [refuses block current])
      · intro _ changed failed
        simp only [TSMap.insert, store, refused] at failed
        cases failed
        rw [untouched none]
        refine store.unchanged_put ?_
        obtain ⟨storage, found⟩ := Option.isSome_iff_exists.mp
          (AList.lookup_isSome.mpr (AList.mem_keys.mpr present))
        rw [TSMap.storageOf, found, Option.getD_some]

/-- The last timestamp of all is refused, and the key of the refused point is in the store. -/
theorem insert_error_creates_series
    : ¬ (∀ operations key point error changed,
          TSMap.insert key point (after TSMap.step TSMap.new operations)
            = .error error changed
          → (after TSMap.step TSMap.new operations).Unchanged changed) := by
  intro unchanged
  let changed : TSMap := {
    series := TSMap.new.series.insert "metric" (TimeSeriesStorage.new "metric")
  }
  have refused : TSMap.insert "metric" ⟨18446744073709551615, ⟨1⟩⟩ TSMap.new
      = .error (.invalidTimeRange 18446744073709551615 7199999) changed := rfl
  have length : changed.len = TSMap.new.len := (unchanged [] "metric" _ _ changed refused).len
  exact absurd length (by decide)

end GorillaTsdb.Storage

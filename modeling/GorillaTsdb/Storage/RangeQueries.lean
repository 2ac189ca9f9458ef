import GorillaTsdb.Foundations.StableSorting
import GorillaTsdb.Storage.RangeScans

/-! The order of range queries: by timestamp, and by insertion where timestamps are equal.
An answer is a list of numbered inserts. The number of an insert is its place among all
acknowledged inserts of its key, so the order is strict and no insert appears twice.
-/

namespace GorillaTsdb.Storage

open Foundations.EventHistories
open Foundations.StableSorting

instance : IsTrans DataPoint byTimestamp := ⟨fun _ _ _ => UInt64.le_trans⟩

instance : Std.Total byTimestamp :=
  ⟨fun left right => UInt64.le_total left.timestamp right.timestamp⟩

/-- The order of `sort_by_key` on points that carry their numbers. -/
def byEntryTimestamp (left right : DataPoint × Nat) : Prop := byTimestamp left.1 right.1

instance : DecidableRel byEntryTimestamp :=
  fun left right => inferInstanceAs (Decidable (byTimestamp left.1 right.1))

instance : IsTrans (DataPoint × Nat) byEntryTimestamp :=
  ⟨fun _ _ _ first second => UInt64.le_trans first second⟩

instance : Std.Total byEntryTimestamp :=
  ⟨fun left right => UInt64.le_total left.1.timestamp right.1.timestamp⟩

/-- The test of `scan_range`, with both ends inside. -/
abbrev inRange (start finish : UInt64) (point : DataPoint) : Bool :=
  point.timestamp ≥ start && point.timestamp ≤ finish

/-- A present key is queried in its storage, if the range is not reversed. -/
theorem TSMap.scanRange_present (self : TSMap) {key : TimeSeriesKey} (present : key ∈ self.keys)
    {start finish : UInt64} (ordered : start ≤ finish)
    : self.scanRange key start finish
      = .ok
          (((self.storageOf key).currentPoints.filter (inRange start finish)).insertionSort
            byTimestamp) := by
  obtain ⟨storage, found⟩ := Option.isSome_iff_exists.mp
    (AList.lookup_isSome.mpr (AList.mem_keys.mpr present))
  simp only [TSMap.scanRange, if_neg (UInt64.not_lt.mpr ordered), TSMap.storageOf, found,
    Option.getD_some]
  exact storage.scanRange_eq start finish

/-- A query answers exactly for a present key and a range that is not reversed. -/
theorem TSMap.scanRange_eq_ok {self : TSMap} {key : TimeSeriesKey} {start finish : UInt64}
    {points : List DataPoint}
    : self.scanRange key start finish = .ok points
      ↔ start ≤ finish
        ∧ key ∈ self.keys
        ∧ points = ((self.storageOf key).currentPoints.filter
            (inRange start finish)).insertionSort byTimestamp := by
  constructor
  · intro scanned
    have whole := scanned
    unfold TSMap.scanRange at scanned
    split at scanned
    case isTrue => cases scanned
    case isFalse ordered =>
      split at scanned
      case h_1 => cases scanned
      case h_2 storage found =>
        have start_le := UInt64.not_lt.mp ordered
        have present : key ∈ self.keys := by
          rw [TSMap.keys, ← AList.mem_keys, ← AList.lookup_isSome, found]
          rfl
        rw [self.scanRange_present present start_le, Except.ok.injEq] at whole
        exact ⟨start_le, present, whole.symm⟩
  · intro answered
    obtain ⟨ordered, present, rfl⟩ := answered
    exact self.scanRange_present present ordered

/-- Every answer is ordered by timestamp. -/
theorem TSMap.scanRange_sorted {self : TSMap} {key : TimeSeriesKey} {start finish : UInt64}
    {points : List DataPoint} (scanned : self.scanRange key start finish = .ok points)
    : points.Pairwise fun left right => left.timestamp ≤ right.timestamp := by
  obtain ⟨-, -, rfl⟩ := TSMap.scanRange_eq_ok.mp scanned
  exact List.pairwise_insertionSort byTimestamp _

/-- The open points of a range with their numbers, in the order of the answer. -/
def TimeSeriesStorage.rangeEntries (self : TimeSeriesStorage) (offset : Nat)
    (start finish : UInt64)
    : List (DataPoint × Nat) :=
  ((self.currentPoints.zipIdx offset).filter fun entry => inRange start finish entry.1)
    |>.insertionSort byEntryTimestamp

theorem TimeSeriesStorage.mem_rangeEntries (self : TimeSeriesStorage) (offset : Nat)
    (start finish : UInt64) (entry : DataPoint × Nat)
    : entry ∈ self.rangeEntries offset start finish
      ↔ (offset ≤ entry.2 ∧ self.currentPoints[entry.2 - offset]? = some entry.1)
        ∧ start ≤ entry.1.timestamp
        ∧ entry.1.timestamp ≤ finish := by
  rw [TimeSeriesStorage.rangeEntries, List.mem_insertionSort, List.mem_filter,
    List.mem_zipIdx_iff_le_and_getElem?_sub]
  simp

/-- Without their numbers, the entries are the answer. -/
theorem TimeSeriesStorage.rangeEntries_points (self : TimeSeriesStorage) (offset : Nat)
    (start finish : UInt64)
    : (self.rangeEntries offset start finish).map Prod.fst
      = (self.currentPoints.filter (inRange start finish)).insertionSort byTimestamp := by
  have points : ((self.currentPoints.zipIdx offset).filter
        fun entry => inRange start finish entry.1).map Prod.fst
      = ((self.currentPoints.zipIdx offset).map Prod.fst).filter (inRange start finish) :=
    (List.filter_map (p := inRange start finish) (f := Prod.fst)).symm
  rw [List.zipIdx_map_fst] at points
  rw [← points]
  exact List.map_insertionSort (r := byEntryTimestamp) (s := byTimestamp) Prod.fst _
    fun _ _ _ _ => Iff.rfl

/-- The entries are ordered by timestamp and then by number. -/
theorem TimeSeriesStorage.rangeEntries_sorted (self : TimeSeriesStorage) (offset : Nat)
    (start finish : UInt64)
    : (self.rangeEntries offset start finish).Pairwise fun left right =>
        left.1.timestamp < right.1.timestamp
        ∨ (left.1.timestamp = right.1.timestamp ∧ left.2 < right.2) := by
  have numbered : (self.currentPoints.zipIdx offset).Pairwise fun left right =>
      left.2 < right.2 := by
    rw [← List.pairwise_map (f := Prod.snd), List.zipIdx_map_snd]
    exact List.pairwise_lt_range'
  have sorted : (self.rangeEntries offset start finish).Pairwise
      (Before byEntryTimestamp fun left right => left.2 < right.2) :=
    pairwise_insertionSort (numbered.filter _)
  refine sorted.imp ?_
  intro left right before
  obtain ⟨ordered, stable⟩ := before
  by_cases equal : right.1.timestamp ≤ left.1.timestamp
  · exact Or.inr ⟨UInt64.le_antisymm ordered equal, stable equal⟩
  · exact Or.inl (UInt64.not_le.mp equal)

/-- After any run, a query of a present key answers with inserts that were acknowledged for the
key and lie in the range, each at most once, by timestamp and then in the order of the inserts.
Every point of the open block that lies in the range is among them; the open block holds the
last of the acknowledged inserts.
-/
theorem scanRange_sound_ordered (operations : List StoreOp) (key : TimeSeriesKey)
    (present : key ∈ (after TSMap.step TSMap.new operations).keys) (start finish : UInt64)
    (ordered : start ≤ finish)
    : let store := after TSMap.step TSMap.new operations
      let inserted := acknowledged key (history TSMap.step TSMap.new operations)
      ∃ entries : List (DataPoint × Nat),
        store.scanRange key start finish = .ok (entries.map Prod.fst)
        ∧ (∀ entry ∈ entries,
            inserted[entry.2]? = some entry.1
            ∧ start ≤ entry.1.timestamp
            ∧ entry.1.timestamp ≤ finish)
        ∧ (entries.map Prod.snd).Nodup
        ∧ entries.Pairwise (fun left right =>
            left.1.timestamp < right.1.timestamp
            ∨ (left.1.timestamp = right.1.timestamp ∧ left.2 < right.2))
        ∧ ∀ place point,
            (store.storageOf key).currentPoints[place]? = some point
            → start ≤ point.timestamp
            → point.timestamp ≤ finish
            → (point, store.sealedCount key + place) ∈ entries := by
  intro store inserted
  let storage := store.storageOf key
  let offset := store.sealedCount key
  obtain ⟨closed, segmented⟩ := storeRun_segmented operations key
  have split : inserted.drop offset = storage.currentPoints := segmented.drop_sealed
  have accepted : ∀ entry ∈ storage.rangeEntries offset start finish,
      inserted[entry.2]? = some entry.1
      ∧ start ≤ entry.1.timestamp
      ∧ entry.1.timestamp ≤ finish := by
    intro entry member
    obtain ⟨⟨behind, found⟩, inside⟩ := (storage.mem_rangeEntries ..).mp member
    rw [← split, List.getElem?_drop, Nat.add_sub_cancel' behind] at found
    exact ⟨found, inside⟩
  have sorted := storage.rangeEntries_sorted offset start finish
  refine ⟨storage.rangeEntries offset start finish, ?_, accepted, ?_, sorted, ?_⟩
  · rw [storage.rangeEntries_points]
    exact store.scanRange_present present ordered
  · refine List.pairwise_map.mpr (sorted.imp_of_mem ?_)
    intro left right leftMember rightMember before same
    -- equal numbers mean equal points, which the order would have to tell apart
    have found := (accepted left leftMember).1
    rw [same, (accepted right rightMember).1, Option.some.injEq] at found
    rw [found, same] at before
    simp at before
  · intro place point found lower upper
    refine (storage.mem_rangeEntries ..).mpr ⟨⟨Nat.le_add_right _ _, ?_⟩, lower, upper⟩
    rwa [Nat.add_sub_cancel_left]

theorem scanRange_sound_ordered_sample
    : let operations : List StoreOp := [
        .insert "metric" ⟨1000, ⟨1⟩⟩, .insert "metric" ⟨3000, ⟨2⟩⟩, .insert "metric" ⟨2000, ⟨3⟩⟩,
        .insert "metric" ⟨2000, ⟨4⟩⟩
      ]
      ∃ entries : List (DataPoint × Nat),
        (after TSMap.step TSMap.new operations).scanRange "metric" 1500 2500
          = .ok (entries.map Prod.fst)
        ∧ (⟨2000, ⟨4⟩⟩, 3) ∈ entries := by
  intro operations
  obtain ⟨entries, scanned, -, -, -, complete⟩ := scanRange_sound_ordered operations "metric"
    (by decide) 1500 2500 (by decide)
  exact ⟨entries, scanned, complete 3 ⟨2000, ⟨4⟩⟩ rfl (by decide) (by decide)⟩

-----------------------------------------------------------------------------------------
-- Ranges in two parts
-----------------------------------------------------------------------------------------

/-- The timestamp behind one that is not the last does not wrap. -/
theorem toNat_add_one {middle high : UInt64} (before : middle < high)
    : (middle + 1).toNat = middle.toNat + 1 := by
  have bound := high.toNat_lt
  rw [UInt64.lt_iff_toNat_lt] at before
  rw [UInt64.toNat_add]
  exact Nat.mod_eq_of_lt (by simpa using Nat.lt_of_le_of_lt before bound)

/-- Of two adjacent ranges, every point of the first is before every point of the second. -/
theorem inRange_parts {low middle high : UInt64} (second : middle < high)
    {point next : DataPoint} (front : inRange low middle point)
    (back : inRange (middle + 1) high next)
    : point.timestamp < next.timestamp := by
  simp only [inRange, Bool.and_eq_true, decide_eq_true_eq, ge_iff_le, UInt64.le_iff_toNat_le,
    toNat_add_one second] at front back
  rw [UInt64.lt_iff_toNat_lt]
  omega

/-- Together, two adjacent ranges are one. -/
theorem inRange_or {low middle high : UInt64} (first : low ≤ middle) (second : middle < high)
    (point : DataPoint)
    : inRange low high point
      = (inRange low middle point || inRange (middle + 1) high point) := by
  have above := toNat_add_one second
  simp only [UInt64.le_iff_toNat_le, UInt64.lt_iff_toNat_lt] at first second
  rw [Bool.eq_iff_iff]
  simp only [inRange, Bool.or_eq_true, Bool.and_eq_true, decide_eq_true_eq, ge_iff_le,
    UInt64.le_iff_toNat_le, above]
  omega

/-- An answer holds the open points of the range, and no others. -/
theorem TSMap.mem_scanRange {self : TSMap} {key : TimeSeriesKey} {start finish : UInt64}
    {points : List DataPoint} (scanned : self.scanRange key start finish = .ok points)
    {point : DataPoint}
    : point ∈ points ↔ point ∈ (self.storageOf key).currentPoints ∧ inRange start finish point := by
  obtain ⟨-, -, rfl⟩ := TSMap.scanRange_eq_ok.mp scanned
  rw [List.mem_insertionSort, List.mem_filter]

/-- A range holds what its two parts hold, the later part behind the earlier one. -/
theorem TSMap.scanRange_parts (self : TSMap) {key : TimeSeriesKey} (present : key ∈ self.keys)
    {low middle high : UInt64} (first : low ≤ middle) (second : middle < high)
    : ∃ left right,
        self.scanRange key low middle = .ok left
        ∧ self.scanRange key (middle + 1) high = .ok right
        ∧ self.scanRange key low high = .ok (left ++ right)
        ∧ ∀ point ∈ left, ∀ next ∈ right, point.timestamp < next.timestamp := by
  have whole : low ≤ high := UInt64.le_trans first (UInt64.le_of_lt second)
  have rest : middle + 1 ≤ high := by
    rw [UInt64.le_iff_toNat_le, toNat_add_one second]
    exact UInt64.lt_iff_toNat_lt.mp second
  have front := self.scanRange_present present first
  have back := self.scanRange_present present rest
  refine ⟨_, _, front, back, ?_, ?_⟩
  · rw [self.scanRange_present present whole, ← insertionSort_filter_or]
    · refine congrArg (fun points => Except.ok (List.insertionSort byTimestamp points)) ?_
      exact List.filter_congr fun point _ => inRange_or first second point
    · intro point next inFront inBack
      have before := inRange_parts second inFront inBack
      exact ⟨UInt64.le_of_lt before, UInt64.not_le.mpr before⟩
  · intro point member next nextMember
    exact inRange_parts second (TSMap.mem_scanRange front |>.mp member).2
      (TSMap.mem_scanRange back |>.mp nextMember).2

/-- After any run, a query of a present key answers what the queries of two adjacent ranges
answer one after the other.
-/
theorem scanRange_adjacent (operations : List StoreOp) (key : TimeSeriesKey)
    (present : key ∈ (after TSMap.step TSMap.new operations).keys)
    (low middle high : UInt64) (first : low ≤ middle) (second : middle < high)
    : let store := after TSMap.step TSMap.new operations
      ∃ left right,
        store.scanRange key low middle = .ok left
        ∧ store.scanRange key (middle + 1) high = .ok right
        ∧ store.scanRange key low high = .ok (left ++ right) := by
  intro store
  obtain ⟨left, right, front, back, whole, -⟩ := store.scanRange_parts present first second
  exact ⟨left, right, front, back, whole⟩

theorem scanRange_adjacent_sample
    : let operations : List StoreOp := [
        .insert "metric" ⟨1000, ⟨1⟩⟩, .insert "metric" ⟨3000, ⟨2⟩⟩, .insert "metric" ⟨2000, ⟨3⟩⟩
      ]
      ∃ left right,
        (after TSMap.step TSMap.new operations).scanRange "metric" 0 2000 = .ok left
        ∧ (after TSMap.step TSMap.new operations).scanRange "metric" 2001 3000 = .ok right
        ∧ (after TSMap.step TSMap.new operations).scanRange "metric" 0 3000
          = .ok (left ++ right) := by
  intro operations
  exact scanRange_adjacent operations "metric" (by decide) 0 2000 3000 (by decide) (by decide)

end GorillaTsdb.Storage

import GorillaTsdb.Storage.Memory

/-! The points of one storage as consecutive segments, one for each block it ever filled.
A segment is cut where a block is sealed; all but the open one survive only as records.
-/

namespace GorillaTsdb.Storage

/-- A block as the store fills it: not sealed, and started by its own first point. -/
structure TimeSeriesBlock.Opened (block : TimeSeriesBlock) : Prop where
  built : block.Built
  unsealed : block.isSealed = false
  starts : block.points.head?.map DataPoint.timestamp = some block.startTime

theorem TimeSeriesBlock.Opened.holds {block : TimeSeriesBlock} (opened : block.Opened)
    : block.points ≠ [] := by
  intro empty
  simpa [empty] using opened.starts

/-- `add_point` returns `Ok` exactly for the timestamps that the block can accept. -/
theorem TimeSeriesBlock.addPoint_ok_iff (self after : TimeSeriesBlock) (point : DataPoint)
    : TimeSeriesBlock.addPoint point self = .ok () after
      ↔ self.canAccept point.timestamp = true
        ∧ after = { self with points := self.points ++ [point] } := by
  rcases self.addPoint_cases point with ⟨accepts, added⟩ | ⟨accepts, error, refused⟩
  · simp [accepts, added, eq_comm]
  · simp [accepts, refused]

/-- An accepted point keeps an open block open: its first point stays where it is. -/
theorem TimeSeriesBlock.Opened.addPoint {self after : TimeSeriesBlock} {point : DataPoint}
    (opened : self.Opened) (accepted : TimeSeriesBlock.addPoint point self = .ok () after)
    : after.Opened ∧ after.points = self.points ++ [point] := by
  obtain ⟨_, rfl⟩ := (self.addPoint_ok_iff after point).mp accepted
  refine ⟨⟨.added point opened.built accepted, opened.unsealed, ?_⟩, rfl⟩
  obtain ⟨first, rest, points⟩ := List.exists_cons_of_ne_nil opened.holds
  simpa [points] using opened.starts

/-- A new block that takes its own first point is open. -/
theorem TimeSeriesBlock.opened_new {block : TimeSeriesBlock} {point : DataPoint}
    (accepted
      : TimeSeriesBlock.addPoint point (TimeSeriesBlock.new point.timestamp) = .ok () block)
    : block.Opened ∧ block.points = [point] := by
  obtain ⟨_, rfl⟩ := (TimeSeriesBlock.addPoint_ok_iff _ block point).mp accepted
  exact ⟨⟨.added point (.created _) accepted, rfl, rfl⟩, rfl⟩

/-- The storage represents `points`, cut into the points of the blocks `closed` so far and
those of the open block.
-/
structure TimeSeriesStorage.Segmented (storage : TimeSeriesStorage)
    (closed : List TimeSeriesBlock) (points : List DataPoint)
    : Prop where
  pointsEq : points = closed.flatMap TimeSeriesBlock.points ++ storage.currentPoints
  closedOpened : ∀ block ∈ closed, block.Opened
  records : storage.sealedBlocks.map Except.ok = closed.map TimeSeriesBlock.compress
  current : ∀ block ∈ storage.currentBlock, block.Opened

theorem TimeSeriesStorage.segmented_new (key : TimeSeriesKey)
    : (TimeSeriesStorage.new key).Segmented [] [] :=
  ⟨rfl, List.forall_mem_nil _, rfl, by simp [TimeSeriesStorage.new]⟩

/-- Sealing never fails, whatever the storage holds. -/
theorem TimeSeriesStorage.sealCurrentBlock_total (self : TimeSeriesStorage)
    : ∃ after, TimeSeriesStorage.sealCurrentBlock self = .ok () after := by
  cases current : self.currentBlock with
  | none => exact ⟨self, by simp only [TimeSeriesStorage.sealCurrentBlock, current]⟩
  | some block =>
      obtain ⟨compressed, sealing, -⟩ := block.seal.compress_total
      simp only [TimeSeriesStorage.sealCurrentBlock, current, sealing]
      split
      · exact ⟨_, rfl⟩
      · exact ⟨_, rfl⟩

/-- Sealing moves the open block behind the closed ones and appends its record. -/
theorem TimeSeriesStorage.Segmented.sealCurrentBlock {self after : TimeSeriesStorage}
    {closed : List TimeSeriesBlock} {points : List DataPoint}
    (segmented : self.Segmented closed points) {block : TimeSeriesBlock}
    (current : self.currentBlock = some block)
    (sealing : TimeSeriesStorage.sealCurrentBlock self = .ok () after)
    : after.currentBlock = none
      ∧ after.Segmented (closed ++ [block]) points
      ∧ self.sealedBlocks <+: after.sealedBlocks := by
  have opened := segmented.current block current
  obtain ⟨compressed, compressing, count⟩ := block.seal.compress_total
  have positive : compressed.count > 0 := count ▸ List.length_pos_of_ne_nil opened.holds
  simp only [TimeSeriesStorage.sealCurrentBlock, current, compressing, positive, if_true] at sealing
  obtain ⟨-, rfl⟩ := EStateM.Result.ok.inj sealing
  refine ⟨rfl, ⟨?_, ?_, ?_, by simp⟩, List.prefix_append _ _⟩
  · rw [segmented.pointsEq]
    simp [TimeSeriesStorage.currentPoints, current]
  · exact List.forall_mem_append.mpr
      ⟨segmented.closedOpened, List.forall_mem_singleton.mpr opened⟩
  · rw [List.map_append, List.map_append, segmented.records]
    exact congrArg (closed.map TimeSeriesBlock.compress ++ [·]) compressing.symm

/-- The storage with one more point in its open block. -/
def TimeSeriesStorage.growBlock (self : TimeSeriesStorage) (block : TimeSeriesBlock)
    (point : DataPoint)
    : TimeSeriesStorage :=
  { self with currentBlock := some { block with points := block.points ++ [point] } }

/-- The storage with a new open block of one point. -/
def TimeSeriesStorage.startBlock (self : TimeSeriesStorage) (point : DataPoint)
    : TimeSeriesStorage :=
  { self with currentBlock := some { TimeSeriesBlock.new point.timestamp with points := [point] } }

/-- A point that the open block accepts joins the last segment. -/
theorem TimeSeriesStorage.Segmented.growBlock {self : TimeSeriesStorage}
    {closed : List TimeSeriesBlock} {points : List DataPoint}
    (segmented : self.Segmented closed points) {block : TimeSeriesBlock}
    (current : self.currentBlock = some block) {point : DataPoint}
    (accepts : block.canAccept point.timestamp = true)
    : (self.growBlock block point).Segmented closed (points ++ [point]) := by
  have added := (block.addPoint_ok_iff _ point).mpr ⟨accepts, rfl⟩
  obtain ⟨opened, -⟩ := (segmented.current block current).addPoint added
  refine ⟨?_, segmented.closedOpened, segmented.records, ?_⟩
  · rw [segmented.pointsEq]
    simp [TimeSeriesStorage.currentPoints, TimeSeriesStorage.growBlock, current]
  · intro other member
    obtain rfl := Option.mem_some.mp member
    exact opened

/-- A point whose own block accepts it starts a new segment. -/
theorem TimeSeriesStorage.Segmented.startBlock {self : TimeSeriesStorage}
    {closed : List TimeSeriesBlock} {points : List DataPoint}
    (segmented : self.Segmented closed points) (none : self.currentBlock = none)
    {point : DataPoint}
    (accepts : (TimeSeriesBlock.new point.timestamp).canAccept point.timestamp = true)
    : (self.startBlock point).Segmented closed (points ++ [point]) := by
  have added := (TimeSeriesBlock.addPoint_ok_iff _ _ point).mpr ⟨accepts, rfl⟩
  obtain ⟨opened, single⟩ := TimeSeriesBlock.opened_new added
  refine ⟨?_, segmented.closedOpened, segmented.records, ?_⟩
  · rw [segmented.pointsEq]
    simp [TimeSeriesStorage.currentPoints, TimeSeriesStorage.startBlock, none]
  · intro other member
    obtain rfl := Option.mem_some.mp member
    exact opened

/-- A new block takes its own first point and becomes the open one, or is refused and leaves
no trace.
-/
theorem TimeSeriesStorage.openBlock_cases (self : TimeSeriesStorage) (point : DataPoint)
    : ((TimeSeriesBlock.new point.timestamp).canAccept point.timestamp = true
        ∧ TimeSeriesStorage.openBlock point self = .ok () (self.startBlock point))
      ∨ ((TimeSeriesBlock.new point.timestamp).canAccept point.timestamp = false
        ∧ ∃ error, TimeSeriesStorage.openBlock point self = .error error self) := by
  rcases (TimeSeriesBlock.new point.timestamp).addPoint_cases point with ⟨accepts, added⟩
    | ⟨accepts, error, refused⟩
  · exact Or.inl ⟨accepts, by simp only [TimeSeriesStorage.openBlock, added]; rfl⟩
  · exact Or.inr ⟨accepts, error, by simp only [TimeSeriesStorage.openBlock, refused]⟩

/-- What `insert_point` can do: the point joins the open block, or it opens a new one, after the
open block was sealed if there was one.
-/
theorem TimeSeriesStorage.insertPoint_cases (self : TimeSeriesStorage) (point : DataPoint)
    : (∃ block,
        self.currentBlock = some block
        ∧ block.canAccept point.timestamp = true
        ∧ TimeSeriesStorage.insertPoint point self = .ok () (self.growBlock block point))
      ∨ (self.currentBlock = none
        ∧ TimeSeriesStorage.insertPoint point self = TimeSeriesStorage.openBlock point self)
      ∨ ∃ block emptied,
          self.currentBlock = some block
          ∧ block.canAccept point.timestamp = false
          ∧ TimeSeriesStorage.sealCurrentBlock self = .ok () emptied
          ∧ TimeSeriesStorage.insertPoint point self
            = TimeSeriesStorage.openBlock point emptied := by
  cases current : self.currentBlock with
  | none => exact Or.inr (Or.inl ⟨rfl, by simp only [TimeSeriesStorage.insertPoint, current]⟩)
  | some block =>
      cases accepts : block.canAccept point.timestamp with
      | true =>
          have added := (block.addPoint_ok_iff _ point).mpr ⟨accepts, rfl⟩
          refine Or.inl ⟨block, rfl, accepts, ?_⟩
          simp only [TimeSeriesStorage.insertPoint, current, accepts, if_true, added]
          rfl
      | false =>
          obtain ⟨emptied, sealing⟩ := self.sealCurrentBlock_total
          refine Or.inr (Or.inr ⟨block, emptied, rfl, accepts, sealing, ?_⟩)
          simp only [TimeSeriesStorage.insertPoint, current, accepts, Bool.false_eq_true,
            if_false, sealing]

/-- What the background pass can do: it seals an open block that is due, or does nothing. -/
theorem TimeSeriesStorage.sealIfExpired_cases (self : TimeSeriesStorage) (now : UInt64)
    : (∃ block,
        self.currentBlock = some block
        ∧ block.shouldSeal now = true
        ∧ TimeSeriesStorage.sealCurrentBlock self = .ok () (self.sealIfExpired now))
      ∨ ((∀ block ∈ self.currentBlock, block.shouldSeal now = false)
        ∧ self.sealIfExpired now = self) := by
  cases current : self.currentBlock with
  | none => exact Or.inr ⟨by simp, by simp only [TimeSeriesStorage.sealIfExpired, current]⟩
  | some block =>
      cases due : block.shouldSeal now with
      | true =>
          obtain ⟨emptied, sealing⟩ := self.sealCurrentBlock_total
          refine Or.inl ⟨block, rfl, due, ?_⟩
          simp only [TimeSeriesStorage.sealIfExpired, current, due, if_true, sealing]
      | false =>
          refine Or.inr ⟨by simpa using due, ?_⟩
          simp only [TimeSeriesStorage.sealIfExpired, current, due, Bool.false_eq_true, if_false]

/-- The count that a record would report, zero for an error. -/
def recordCount : Except StorageError CompressedBlock → Nat
  | .ok record => record.count
  | .error _ => 0

theorem recordCount_compress (block : TimeSeriesBlock)
    : recordCount block.compress = block.points.length := by
  obtain ⟨record, compressed, count⟩ := block.compress_total
  rw [compressed]
  exact count

/-- The records count the points of the closed segments. -/
theorem TimeSeriesStorage.Segmented.sum_counts {self : TimeSeriesStorage}
    {closed : List TimeSeriesBlock} {points : List DataPoint}
    (segmented : self.Segmented closed points)
    : (self.sealedBlocks.map CompressedBlock.count).sum
      = (closed.flatMap TimeSeriesBlock.points).length := by
  have counts : self.sealedBlocks.map CompressedBlock.count
      = closed.map fun block => block.points.length := by
    have records := congrArg (List.map recordCount) segmented.records
    simp only [List.map_map, Function.comp_def, recordCount_compress] at records
    exact records
  rw [counts, List.length_flatMap]

/-- Both counts of a storage are the number of its points. -/
theorem TimeSeriesStorage.Segmented.counts {self : TimeSeriesStorage}
    {closed : List TimeSeriesBlock} {points : List DataPoint}
    (segmented : self.Segmented closed points)
    : self.getStats.pointCount = points.length
      ∧ self.toTimeSeries.pointCount = points.length := by
  have total : points.length
      = (self.sealedBlocks.map CompressedBlock.count).sum + self.currentPoints.length := by
    rw [segmented.sum_counts, segmented.pointsEq, List.length_append]
  refine ⟨by rw [total, Nat.add_comm]; rfl, ?_⟩
  rw [total, TimeSeries.pointCount, TimeSeriesStorage.toTimeSeries]
  cases self.currentPoints <;> rfl

end GorillaTsdb.Storage

import GorillaTsdb.Storage.BlockClosings

/-! The blocks of a key whose timestamps never decrease.
The points of all blocks in a row are the acknowledged ones, so they are ordered within blocks
and across them. The distance between blocks has to be carried along the run.
-/

namespace GorillaTsdb.Storage

open Foundations.EventHistories

/-- The point lies at least one block duration behind the start of the block. -/
def Beyond (block : TimeSeriesBlock) (point : DataPoint) : Prop :=
  block.startTime.toNat + blockDurationMs.toNat ≤ point.timestamp.toNat

/-- Everything that arrived after an insert closed a block lies beyond that block, and something
did.
-/
structure Spaced (closed : List (ClosedBy × TimeSeriesBlock)) (points : List DataPoint)
    (storage : TimeSeriesStorage)
    : Prop where
  passed : ∀ closing ∈ closed, closing.1 = .insert → ∃ point ∈ points, Beyond closing.2 point
  closedBeyond
    : closed.Pairwise fun left right =>
        left.1 = .insert → ∀ point ∈ right.2.points, Beyond left.2 point
  openBeyond
    : ∀ closing ∈ closed,
        closing.1 = .insert → ∀ point ∈ storage.currentPoints, Beyond closing.2 point

theorem spaced_new (key : TimeSeriesKey) : Spaced [] [] (TimeSeriesStorage.new key) :=
  ⟨List.forall_mem_nil _, .nil, List.forall_mem_nil _⟩

/-- A point that no earlier one exceeds lies beyond every block that an insert closed. -/
theorem Spaced.beyond {closed : List (ClosedBy × TimeSeriesBlock)} {points : List DataPoint}
    {storage : TimeSeriesStorage} (spaced : Spaced closed points storage) {point : DataPoint}
    (latest : ∀ earlier ∈ points, byTimestamp earlier point)
    : ∀ closing ∈ closed, closing.1 = .insert → Beyond closing.2 point := by
  intro closing member cause
  obtain ⟨earlier, arrived, beyond⟩ := spaced.passed closing member cause
  exact Nat.le_trans beyond (UInt64.le_iff_toNat_le.mp (latest earlier arrived))

/-- A new point that lies beyond the closed blocks may join or start the open block. -/
theorem Spaced.receive {closed : List (ClosedBy × TimeSeriesBlock)} {points : List DataPoint}
    {before after : TimeSeriesStorage} (spaced : Spaced closed points before) {point : DataPoint}
    (received : after.currentPoints = before.currentPoints ++ [point])
    (beyond : ∀ closing ∈ closed, closing.1 = .insert → Beyond closing.2 point)
    : Spaced closed (points ++ [point]) after := by
  refine ⟨?_, spaced.closedBeyond, ?_⟩
  · intro closing member cause
    obtain ⟨earlier, arrived, passed⟩ := spaced.passed closing member cause
    exact ⟨earlier, List.mem_append_left _ arrived, passed⟩
  · intro closing member cause
    rw [received]
    exact List.forall_mem_append.mpr ⟨spaced.openBeyond closing member cause,
      List.forall_mem_singleton.mpr (beyond closing member cause)⟩

/-- The open block may be closed, by an insert only if its point lies beyond the block. -/
theorem Spaced.close {closed : List (ClosedBy × TimeSeriesBlock)} {points : List DataPoint}
    {before after : TimeSeriesStorage} (spaced : Spaced closed points before)
    {block : TimeSeriesBlock} (current : before.currentBlock = some block)
    (emptied : after.currentBlock = none) (cause : ClosedBy) (arrived : List DataPoint)
    (passed : cause = .insert → ∃ point ∈ arrived, Beyond block point)
    : Spaced (closed ++ [(cause, block)]) (points ++ arrived) after := by
  have held : before.currentPoints = block.points := by
    simp [TimeSeriesStorage.currentPoints, current]
  have nothing : after.currentPoints = [] := by
    simp [TimeSeriesStorage.currentPoints, emptied]
  refine ⟨?_, ?_, ?_⟩
  · refine List.forall_mem_append.mpr ⟨?_, List.forall_mem_singleton.mpr ?_⟩
    · intro closing member insert
      obtain ⟨point, earlier, beyond⟩ := spaced.passed closing member insert
      exact ⟨point, List.mem_append_left _ earlier, beyond⟩
    · intro insert
      obtain ⟨point, later, beyond⟩ := passed insert
      exact ⟨point, List.mem_append_right _ later, beyond⟩
  · refine List.pairwise_append.mpr ⟨spaced.closedBeyond, List.pairwise_singleton _ _, ?_⟩
    intro closing member last isLast
    obtain rfl := List.mem_singleton.mp isLast
    rw [← held]
    exact spaced.openBeyond closing member
  · intro closing _ _ point member
    rw [nothing] at member
    exact absurd member List.not_mem_nil

/-- An insert may close the open block and start another one with a point beyond all of them. -/
theorem Spaced.replace {closed : List (ClosedBy × TimeSeriesBlock)} {points : List DataPoint}
    {before emptied : TimeSeriesStorage} (spaced : Spaced closed points before)
    {block : TimeSeriesBlock} (current : before.currentBlock = some block)
    (empty : emptied.currentBlock = none) {point : DataPoint}
    (beyondClosed : ∀ closing ∈ closed, closing.1 = .insert → Beyond closing.2 point)
    (beyond : Beyond block point)
    : Spaced (closed ++ [(.insert, block)]) (points ++ [point]) (emptied.startBlock point) := by
  have closes := spaced.close current empty .insert [point] fun _ =>
    ⟨point, List.mem_singleton_self point, beyond⟩
  have started : (emptied.startBlock point).currentPoints = [point] := rfl
  refine ⟨closes.passed, closes.closedBeyond, ?_⟩
  rw [started]
  simp only [List.forall_mem_singleton]
  exact List.forall_mem_append.mpr
    ⟨beyondClosed, List.forall_mem_singleton.mpr fun _ => beyond⟩

/-- A point that an open block refuses without being older than its points lies beyond it. -/
theorem TimeSeriesBlock.Opened.beyond_of_refused {block : TimeSeriesBlock}
    (opened : block.Opened) {point : DataPoint}
    (refuses : block.canAccept point.timestamp = false)
    (latest : ∀ earlier ∈ block.points, byTimestamp earlier point)
    : Beyond block point := by
  obtain ⟨first, rest, points⟩ := List.exists_cons_of_ne_nil opened.holds
  have starts : first.timestamp = block.startTime := by simpa [points] using opened.starts
  have firstMember : first ∈ block.points := by simp [points]
  have start : block.startTime ≤ point.timestamp := starts ▸ latest first firstMember
  have duration := toNat_blockDurationMs
  -- the window holds the first point, so it does not wrap
  have fits := (opened.built.windowed.inside first firstMember).2
  rw [opened.built.windowed.window, starts] at fits
  have ended : ¬ point.timestamp < block.endTime := by
    intro inside
    exact absurd ((block.canAccept_iff _).mpr ⟨opened.unsealed, start, inside⟩) (by simp [refuses])
  rw [opened.built.windowed.window] at ended
  simp only [UInt64.lt_iff_toNat_lt, UInt64.toNat_add] at fits ended
  have bound := block.startTime.toNat_lt
  unfold Beyond
  omega

/-- A move keeps the spacing, if its point is not older than the earlier ones and its insert is
not refused.
-/
theorem Spaced.moves {key : TimeSeriesKey} {self after : TimeSeriesStorage}
    {operation : StoreOp} {result : Except StorageError Unit}
    {closing : Option (ClosedBy × TimeSeriesBlock)}
    (moves : self.Moves key operation result closing after)
    {closed : List (ClosedBy × TimeSeriesBlock)} {points : List DataPoint}
    (segmented : self.Segmented (closed.map Prod.snd) points)
    (spaced : Spaced closed points self)
    (latest
      : ∀ point ∈ acknowledged key [(operation, result)],
          ∀ earlier ∈ points, byTimestamp earlier point)
    (accepted : ∀ point, operation = .insert key point → result = .ok ())
    : Spaced (closed ++ closing.toList) (points ++ acknowledged key [(operation, result)])
        after := by
  have single (point : DataPoint)
      : acknowledged key [(.insert key point, .ok ())] = [point] := by simp [acknowledged]
  cases moves with
  | rests silent => simpa [silent] using spaced
  | @joins point block current accepts =>
      rw [single] at latest ⊢
      have arrived := List.forall_mem_singleton.mp latest
      simp only [Option.toList_none, List.append_nil]
      refine spaced.receive ?_ (spaced.beyond arrived)
      simp [TimeSeriesStorage.currentPoints, TimeSeriesStorage.growBlock, current]
  | @opens point empty accepts =>
      rw [single] at latest ⊢
      have arrived := List.forall_mem_singleton.mp latest
      simp only [Option.toList_none, List.append_nil]
      refine spaced.receive ?_ (spaced.beyond arrived)
      simp [TimeSeriesStorage.currentPoints, TimeSeriesStorage.startBlock, empty]
  | @replaces point block emptied current refuses sealing accepts =>
      rw [single] at latest ⊢
      have arrived := List.forall_mem_singleton.mp latest
      obtain ⟨empty, -, -⟩ := segmented.sealCurrentBlock current sealing
      have held : self.currentPoints = block.points := by
        simp [TimeSeriesStorage.currentPoints, current]
      have beyond : Beyond block point := by
        refine (segmented.current block current).beyond_of_refused refuses ?_
        intro earlier member
        refine arrived earlier ?_
        rw [segmented.pointsEq, held]
        exact List.mem_append_right _ member
      exact spaced.replace current empty (spaced.beyond arrived) beyond
  | fails current sealing => cases accepted _ rfl
  | expires current sealing =>
      obtain ⟨empty, -, -⟩ := segmented.sealCurrentBlock current sealing
      have closes := spaced.close current empty .expiry [] fun insert => by cases insert
      simpa [acknowledged] using closes

/-- The timestamps acknowledged for the key never decrease, and no insert for it fails. -/
def InOrder (key : TimeSeriesKey) (events : List (StoreOp × Except StorageError Unit)) : Prop :=
  (∀ point result, (.insert key point, result) ∈ events → result = .ok ())
  ∧ (acknowledged key events).Pairwise byTimestamp

theorem InOrder.of_append {key : TimeSeriesKey}
    {events later : List (StoreOp × Except StorageError Unit)}
    (inOrder : InOrder key (events ++ later))
    : InOrder key events := by
  refine ⟨fun point result member => inOrder.1 point result (List.mem_append_left _ member), ?_⟩
  have sorted := inOrder.2
  rw [acknowledged, List.filterMap_append] at sorted
  exact (List.pairwise_append.mp sorted).1

/-- The closed blocks of a key are tracked, and spaced as long as the key is in order. -/
def SpacedInOrder (key : TimeSeriesKey) (events : List ClosingEvent) (store : TSMap) : Prop :=
  ClosingsTracked key events store
  ∧ (InOrder key (clientEvents events)
    → Spaced (closings events) (acknowledged key (clientEvents events)) (store.storageOf key))

/-- Every operation keeps the blocks spaced. -/
theorem SpacedInOrder.step {key : TimeSeriesKey} {events : List ClosingEvent} {store : TSMap}
    (holds : SpacedInOrder key events store) (operation : StoreOp)
    : SpacedInOrder key
        (events ++ [(operation,
          (annotated TSMap.step (fun store => store.closing key) store operation).1)])
        (store.step operation).2 := by
  obtain ⟨tracked, spaced⟩ := holds
  refine ⟨tracked.step operation, ?_⟩
  intro inOrder
  have sorted := inOrder.2
  rw [acknowledged_clientEvents_append] at sorted ⊢
  rw [closings_append]
  rw [clientEvents, List.map_append] at inOrder
  refine Spaced.moves (store.step_moves key operation) tracked (spaced inOrder.of_append) ?_ ?_
  · intro point arrives earlier arrived
    exact (List.pairwise_append.mp sorted).2.2 earlier arrived point arrives
  · intro point isInsert
    subst isInsert
    exact inOrder.1 point _ (List.mem_append_right _ (List.mem_singleton_self _))

theorem spacedInOrder_new (key : TimeSeriesKey) : SpacedInOrder key [] TSMap.new :=
  ⟨closingsTracked_new key, fun _ => spaced_new key⟩

/-- The bounds of a record are the least and the greatest timestamp of the points, and less than
a block duration apart.
-/
structure Tight (record : CompressedBlock) (points : List DataPoint) : Prop where
  bounds
    : ∀ point ∈ points,
        record.startTimestamp ≤ point.timestamp ∧ point.timestamp ≤ record.endTimestamp
  startAttained : ∃ point ∈ points, point.timestamp = record.startTimestamp
  endAttained : ∃ point ∈ points, point.timestamp = record.endTimestamp
  short
    : record.endTimestamp.toNat < record.startTimestamp.toNat + blockDurationMs.toNat

/-- Points in order have their largest timestamp last. -/
theorem lastIsLatest_of_sorted {points : List DataPoint} (sorted : points.Pairwise byTimestamp)
    : LastIsLatest points := by
  intro last isLast point member
  obtain ⟨earlier, rfl⟩ := List.getLast?_eq_some_iff.mp isLast
  rcases List.mem_append.mp member with before | same
  · exact (List.pairwise_append.mp sorted).2.2 point before last (List.mem_singleton_self last)
  · rw [List.mem_singleton.mp same]
    exact UInt64.le_refl _

/-- The record of a block whose points are in order has tight bounds. -/
theorem TimeSeriesBlock.Opened.tight {block : TimeSeriesBlock} (opened : block.Opened)
    (sorted : block.points.Pairwise byTimestamp) {record : CompressedBlock}
    (compressed : block.compress = .ok record)
    : Tight record block.points ∧ record.startTimestamp = block.startTime := by
  have covers := (opened.covers_iff compressed).mpr (lastIsLatest_of_sorted sorted)
  obtain ⟨firstPoint, rest, points⟩ := List.exists_cons_of_ne_nil opened.holds
  have firstMember : firstPoint ∈ block.points := by simp [points]
  have lastMember : rest.getLastD firstPoint ∈ block.points := by
    rw [points]
    exact List.getLastD_mem_cons
  have starts : firstPoint.timestamp = block.startTime := by simpa [points] using opened.starts
  rw [TimeSeriesBlock.compress_eq points, Except.ok.injEq] at compressed
  subst compressed
  refine ⟨⟨covers.bounds, ⟨_, firstMember, rfl⟩, ⟨_, lastMember, rfl⟩, ?_⟩, starts⟩
  dsimp only
  rw [starts]
  exact (opened.built.windowed.range lastMember).2

/-- Blocks whose points are in order have records in order. -/
theorem Tight.ordered {left right : CompressedBlock} {earlier later : List DataPoint}
    (leftTight : Tight left earlier) (rightTight : Tight right later)
    (ordered : ∀ before ∈ earlier, ∀ behind ∈ later, byTimestamp before behind)
    : left.endTimestamp ≤ right.startTimestamp := by
  obtain ⟨last, lastMember, lastEq⟩ := leftTight.endAttained
  obtain ⟨first, firstMember, firstEq⟩ := rightTight.startAttained
  rw [← lastEq, ← firstEq]
  exact ordered last lastMember first firstMember

/-- The blocks of a key in order, with what closed them; the open block stands last. -/
def timeline (closed : List (ClosedBy × TimeSeriesBlock)) (storage : TimeSeriesStorage)
    : List (Option ClosedBy × TimeSeriesBlock) :=
  closed.map (Prod.map some id) ++ storage.currentBlock.toList.map fun block => (none, block)

theorem timeline_points (closed : List (ClosedBy × TimeSeriesBlock))
    (storage : TimeSeriesStorage)
    : (timeline closed storage).flatMap (fun entry => entry.2.points)
      = (closed.map Prod.snd).flatMap TimeSeriesBlock.points ++ storage.currentPoints := by
  rw [timeline, List.flatMap_append, List.flatMap_map, List.flatMap_map, List.flatMap_map]
  cases current : storage.currentBlock <;> simp [TimeSeriesStorage.currentPoints, current]

/-- The spacing of the closed blocks and the open one, as one relation on the timeline. -/
theorem Spaced.timeline {closed : List (ClosedBy × TimeSeriesBlock)} {points : List DataPoint}
    {storage : TimeSeriesStorage} (spaced : Spaced closed points storage)
    : (Storage.timeline closed storage).Pairwise fun left right =>
        left.1 = some .insert → ∀ point ∈ right.2.points, Beyond left.2 point := by
  refine List.pairwise_append.mpr ⟨?_, ?_, ?_⟩
  · refine List.pairwise_map.mpr (spaced.closedBeyond.imp ?_)
    intro left right beyond cause
    exact beyond (Option.some.inj cause)
  · cases storage.currentBlock <;> simp
  · intro left leftMember right rightMember cause
    obtain ⟨closing, member, rfl⟩ := List.mem_map.mp leftMember
    obtain ⟨block, current, rfl⟩ := List.mem_map.mp rightMember
    have held : storage.currentPoints = block.points := by
      simp [TimeSeriesStorage.currentPoints, Option.mem_toList.mp current]
    rw [← held]
    exact spaced.openBeyond closing member (Option.some.inj cause)

/-- Every block of the timeline was opened by its first point. -/
theorem timeline_opened {closed : List (ClosedBy × TimeSeriesBlock)} {points : List DataPoint}
    {storage : TimeSeriesStorage} (segmented : storage.Segmented (closed.map Prod.snd) points)
    : ∀ entry ∈ timeline closed storage, entry.2.Opened := by
  intro entry member
  rcases List.mem_append.mp member with isClosed | isOpen
  · obtain ⟨closing, closes, rfl⟩ := List.mem_map.mp isClosed
    exact segmented.closedOpened closing.2 (List.mem_map_of_mem closes)
  · obtain ⟨block, current, rfl⟩ := List.mem_map.mp isOpen
    exact segmented.current block (Option.mem_toList.mp current)

/-- After any run that keeps a key in order, the sealed blocks of the key, followed by its open
block, hold the acknowledged points; the bounds of each block are the least and the greatest of
its timestamps and less than a block duration apart; and each block ends no later than any later
one starts. Behind a block that an insert closed, every later one starts at least a block
duration after its start.
-/
theorem in_order_blocks (operations : List StoreOp) (key : TimeSeriesKey)
    (inOrder : InOrder key (history TSMap.step TSMap.new operations))
    : let storage := (after TSMap.step TSMap.new operations).storageOf key
      let closed := closings (closingHistory key operations)
      storage.sealedBlocks.map Except.ok = closed.map (fun closing => closing.2.compress)
      ∧ (timeline closed storage).flatMap (fun entry => entry.2.points)
        = acknowledged key (history TSMap.step TSMap.new operations)
      ∧ (∀ entry ∈ timeline closed storage,
          ∃ record, entry.2.compress = .ok record ∧ Tight record entry.2.points)
      ∧ (timeline closed storage).Pairwise (fun left right =>
          ∀ leftRecord rightRecord,
            left.2.compress = .ok leftRecord
            → right.2.compress = .ok rightRecord
            → leftRecord.endTimestamp ≤ rightRecord.startTimestamp
              ∧ (left.1 = some .insert
                → leftRecord.startTimestamp.toNat + blockDurationMs.toNat
                  ≤ rightRecord.startTimestamp.toNat)) := by
  intro storage closed
  have segmented : storage.Segmented (closed.map Prod.snd) _ :=
    closedBlocks_segmented key operations
  have held : (timeline closed storage).flatMap (fun entry => entry.2.points)
      = acknowledged key (history TSMap.step TSMap.new operations) := by
    rw [timeline_points, segmented.pointsEq]
  have spaced := (run_invariant (SpacedInOrder key) SpacedInOrder.step (spacedInOrder_new key)
    operations).2
  rw [after_annotated, List.nil_append] at spaced
  have distances := (spaced (by
    rw [← clientEvents_closingHistory key] at inOrder
    exact inOrder)).timeline
  have sorted := inOrder.2
  rw [← held, List.pairwise_flatMap] at sorted
  obtain ⟨within, across⟩ := sorted
  have opened := timeline_opened segmented
  refine ⟨?_, held, ?_, ?_⟩
  · rw [segmented.records, List.map_map]
    rfl
  · intro entry member
    obtain ⟨record, compressed, -⟩ := entry.2.compress_total
    exact ⟨record, compressed, ((opened entry member).tight (within entry member) compressed).1⟩
  · refine (across.and distances).imp_of_mem ?_
    intro left right leftMember rightMember ordered leftRecord rightRecord leftEq rightEq
    obtain ⟨leftTight, leftStart⟩ := (opened left leftMember).tight (within left leftMember) leftEq
    obtain ⟨rightTight, -⟩ := (opened right rightMember).tight (within right rightMember) rightEq
    refine ⟨leftTight.ordered rightTight ordered.1, fun cause => ?_⟩
    obtain ⟨first, firstMember, firstEq⟩ := rightTight.startAttained
    rw [leftStart, ← firstEq]
    exact ordered.2 cause first firstMember

/-- The expiry pass cuts between two points at 10, and the last insert closes their second
block.
-/
theorem in_order_blocks_sample
    : let operations : List StoreOp := [
        .insert "metric" ⟨10, ⟨1⟩⟩, .sealExpiredBlocks fun _ => 7200010,
        .insert "metric" ⟨10, ⟨2⟩⟩, .insert "metric" ⟨7200020, ⟨3⟩⟩
      ]
      ∀ entry ∈ timeline (closings (closingHistory "metric" operations))
          ((after TSMap.step TSMap.new operations).storageOf "metric"),
        ∃ record, entry.2.compress = .ok record ∧ Tight record entry.2.points := by
  intro operations
  refine (in_order_blocks operations "metric" ⟨?_, by decide⟩).2.2.1
  intro point result member
  have events : (history TSMap.step TSMap.new operations).map Prod.snd
      = [.ok (), .ok (), .ok (), .ok ()] := rfl
  have results := List.mem_map_of_mem (f := Prod.snd) member
  rw [events] at results
  simpa using results

end GorillaTsdb.Storage

import GorillaTsdb.Storage.BatchInserts
import GorillaTsdb.Storage.BlockOverflow

/-! The store of a debug build, whose arithmetic panics where that of a release build wraps.
The store computes with timestamps in two places: the end of a new block is an addition, and
compressing a block subtracts. Every other step is the same in both builds.
-/

namespace GorillaTsdb.Storage

open Foundations.CheckedPrograms
open Foundations.EventHistories
open Foundations.TokenStreams
open GorillaTsdb.Compression

-----------------------------------------------------------------------------------------
-- The store with checks
-----------------------------------------------------------------------------------------

namespace Checked

/-- `TimeSeriesBlock::new`, whose addition is checked. -/
def TimeSeriesBlock.new {σ : Type} (startTime : UInt64)
    : EStateM (Fault StorageError) σ TimeSeriesBlock :=
  checked (startTime.toNat + blockDurationMs.toNat < 2 ^ 64)
    (Storage.TimeSeriesBlock.new startTime)

/-- A panic of `compress` leaves the storage without the block that was taken out. -/
def TimeSeriesStorage.sealCurrentBlock : EStateM (Fault StorageError) TimeSeriesStorage Unit :=
  fun self =>
    match self.currentBlock with
    | none => .ok () self
    | some block =>
        let self := { self with currentBlock := none }
        match TimeSeriesBlock.compress block.seal with
        | .error fault => .error fault self
        | .ok compressed =>
            if compressed.count > 0 then
              .ok () { self with sealedBlocks := self.sealedBlocks ++ [compressed] }
            else
              .ok () self

def TimeSeriesStorage.openBlock (point : DataPoint)
    : EStateM (Fault StorageError) TimeSeriesStorage Unit := do
  let newBlock ← TimeSeriesBlock.new point.timestamp
  unchecked fun self =>
    match TimeSeriesBlock.addPoint point newBlock with
    | .error error _ => .error error self
    | .ok _ newBlock => .ok () { self with currentBlock := some newBlock }

def TimeSeriesStorage.insertPoint (point : DataPoint)
    : EStateM (Fault StorageError) TimeSeriesStorage Unit :=
  fun self =>
    match self.currentBlock with
    | none => TimeSeriesStorage.openBlock point self
    | some block =>
        if block.canAccept point.timestamp then
          match TimeSeriesBlock.addPoint point block with
          | .error error block =>
              .error (.returned error) { self with currentBlock := some block }
          | .ok _ block => .ok () { self with currentBlock := some block }
        else
          match TimeSeriesStorage.sealCurrentBlock self with
          | .error fault self => .error fault self
          | .ok _ self => TimeSeriesStorage.openBlock point self

/-- `seal_if_expired` discards an error, but not a panic. -/
def TimeSeriesStorage.sealIfExpired (now : UInt64)
    : EStateM (Fault StorageError) TimeSeriesStorage Unit :=
  fun self =>
    match self.currentBlock with
    | none => .ok () self
    | some block =>
        if block.shouldSeal now then
          match TimeSeriesStorage.sealCurrentBlock self with
          | .error .panicked self => .error .panicked self
          | .error (.returned _) self => .ok () self
          | .ok _ self => .ok () self
        else .ok () self

/-- A panic in the middle of an insert leaves the entry as it is then. -/
def TSMap.insert (key : TimeSeriesKey) (point : DataPoint)
    : EStateM (Fault StorageError) TSMap Unit :=
  fun self =>
    match TimeSeriesStorage.insertPoint point (self.storageOf key) with
    | .error fault storage => .error fault { series := self.series.insert key storage }
    | .ok _ storage => .ok () { series := self.series.insert key storage }

def TSMap.sealSeries (key : TimeSeriesKey) (now : UInt64)
    : EStateM (Fault StorageError) TSMap Unit :=
  fun self =>
    match self.series.lookup key with
    | none => .ok () self
    | some storage =>
        match TimeSeriesStorage.sealIfExpired now storage with
        | .error fault storage => .error fault { series := self.series.insert key storage }
        | .ok _ storage => .ok () { series := self.series.insert key storage }

/-- A step of a client in a debug build. -/
def ClientStep.run : ClientStep → EStateM (Fault StorageError) TSMap Unit
  | .insert key point => TSMap.insert key point
  | .sealIfExpired key now => TSMap.sealSeries key now

end Checked

/-- The same step in a release build, as a program. -/
def ClientStep.run : ClientStep → EStateM StorageError TSMap Unit
  | .insert key point => TSMap.insert key point
  | .sealIfExpired key now => fun self => .ok () (self.sealSeries key now)

theorem callStep_run : callStep ClientStep.run = TSMap.clientStep := by
  funext store step
  cases step <;> rfl

-----------------------------------------------------------------------------------------
-- The steps that are safe
-----------------------------------------------------------------------------------------

/-- All timestamps of the block have the same sign when they are read as signed numbers. -/
def TimeSeriesBlock.OneSided (block : TimeSeriesBlock) : Prop :=
  ∀ left ∈ block.points, ∀ right ∈ block.points, SameSide left.timestamp right.timestamp

instance (block : TimeSeriesBlock) : Decidable block.OneSided :=
  inferInstanceAs (Decidable (∀ left ∈ block.points, ∀ right ∈ block.points, _))

/-- The point joins the open block, or that block can be sealed and the point has room. -/
def TimeSeriesStorage.CanInsert (self : TimeSeriesStorage) (point : DataPoint) : Prop :=
  (∃ block ∈ self.currentBlock, block.canAccept point.timestamp = true)
  ∨ (∀ block ∈ self.currentBlock, block.OneSided) ∧ HasRoom point

def TimeSeriesStorage.CanSeal (self : TimeSeriesStorage) (now : UInt64) : Prop :=
  ∀ block ∈ self.currentBlock, block.shouldSeal now = true → block.OneSided

/-- What a step of a client must meet in front of a debug build. -/
def SafeStep (store : TSMap) : ClientStep → Prop
  | .insert key point => (store.storageOf key).CanInsert point
  | .sealIfExpired key now => (store.storageOf key).CanSeal now

-----------------------------------------------------------------------------------------
-- Sealing a block
-----------------------------------------------------------------------------------------

/-- While the timestamps stay on one side, the loop of `compress` does what it does without
checks, by induction on the points.
-/
theorem InWindow.loop_unchecked {low : Nat} {self : BlockCompressor}
    (inWindow : InWindow low self.1) (aligned : self.Aligned) {rest : List DataPoint}
    (range
      : ∀ point ∈ rest,
          low ≤ point.timestamp.toNat
          ∧ point.timestamp.toNat < low + blockDurationMs.toNat)
    (sides : ∀ point ∈ rest, SameSide point.timestamp self.1.lastTimestamp)
    (writer : BitWriter)
    : forM rest Checked.compressPoint (self, writer)
      = unchecked (forM rest compressPoint) (self, writer) := by
  induction rest generalizing self writer with
  | nil => rfl
  | cons point rest ih =>
      obtain ⟨pointRange, restRange⟩ := List.forall_mem_cons.mp range
      obtain ⟨side, restSides⟩ := List.forall_mem_cons.mp sides
      rcases inWindow.compressPoint_cases aligned pointRange.1 pointRange.2 writer with
        ⟨-, written⟩ | ⟨other, -⟩
      · have plain := BlockCompressor.encodesItem.emits aligned point writer
        rw [List.forM_cons, List.forM_cons, bind_ok written, unchecked, bind_ok plain]
        apply ih (inWindow.step pointRange.1 pointRange.2).2
          (BlockCompressor.encodesItem.keeps aligned point) restRange
        intro later member
        exact (restSides later member).trans side.symm
      · exact absurd side other

/-- Compressing a block of accepted points panics exactly if its timestamps lie on two sides. -/
theorem TimeSeriesBlock.Windowed.compress_checked {block : TimeSeriesBlock}
    (windowed : block.Windowed)
    : (block.OneSided
        → Checked.TimeSeriesBlock.compress block = block.compress.mapError Fault.returned)
      ∧ (¬ block.OneSided → Checked.TimeSeriesBlock.compress block = .error .panicked) := by
  cases points : block.points with
  | nil =>
      refine ⟨fun _ => ?_, fun fails => absurd (by simp [TimeSeriesBlock.OneSided, points]) fails⟩
      simp [Checked.TimeSeriesBlock.compress, TimeSeriesBlock.compress, points, Except.mapError]
  | cons firstPoint rest =>
      obtain ⟨firstRange, restRange⟩ := List.forall_mem_cons.mp
        fun point member => windowed.range (points ▸ member : point ∈ block.points)
      have inWindow : InWindow block.startTime.toNat (BlockCompressor.new firstPoint).1 :=
        inWindow_new firstRange.1 firstRange.2
      have aligned := BlockCompressor.aligned_new firstPoint
      constructor
      · intro oneSided
        have sides : ∀ point ∈ rest, SameSide point.timestamp firstPoint.timestamp := by
          intro point member
          exact oneSided point (points ▸ List.mem_cons_of_mem _ member) firstPoint
            (points ▸ List.mem_cons_self)
        have loop := inWindow.loop_unchecked aligned restRange sides BitWriter.new
        have checkedLoop : Checked.compressLoop (firstPoint :: rest)
            = forM rest Checked.compressPoint :=
          forM_skip_first Checked.compressPoint firstPoint rest
        simp only [Checked.TimeSeriesBlock.compress, TimeSeriesBlock.compress, points,
          checkedLoop, loop, unchecked, compressLoop_cons]
        cases forM rest compressPoint (BlockCompressor.new firstPoint, BitWriter.new) <;> rfl
      · intro twoSided
        rw [Checked.TimeSeriesBlock.compress_panics_iff points,
          inWindow.panics_loop_iff aligned restRange]
        by_contra sameSides
        have sides : ∀ point ∈ block.points,
            SameSide point.timestamp firstPoint.timestamp := by
          rw [points]
          refine List.forall_mem_cons.mpr ⟨Iff.rfl, fun point member => ?_⟩
          by_contra other
          exact sameSides ⟨point, member, other⟩
        apply twoSided
        intro left leftMember right rightMember
        exact (sides left leftMember).trans (sides right rightMember).symm

-----------------------------------------------------------------------------------------
-- The steps on one storage
-----------------------------------------------------------------------------------------

/-- The open block keeps its points in its window, so that compressing it is predictable. -/
def TimeSeriesStorage.OpenWindowed (self : TimeSeriesStorage) : Prop :=
  ∀ block ∈ self.currentBlock, block.Windowed

theorem TimeSeriesStorage.OpenWindowed.sealCurrentBlock {self : TimeSeriesStorage}
    (windowed : self.OpenWindowed)
    : ChecksIn self (∀ block ∈ self.currentBlock, block.OneSided)
        Checked.TimeSeriesStorage.sealCurrentBlock TimeSeriesStorage.sealCurrentBlock := by
  cases current : self.currentBlock with
  | none =>
      refine (ChecksIn.unchecked self TimeSeriesStorage.sealCurrentBlock).congr ?_ rfl |>.of_iff
        (by simp)
      simp only [Checked.TimeSeriesStorage.sealCurrentBlock, TimeSeriesStorage.sealCurrentBlock,
        unchecked, current]
  | some block =>
      have opened : block.seal.Windowed :=
        ⟨(windowed block current).window, (windowed block current).inside⟩
      obtain ⟨agrees, panics⟩ := opened.compress_checked
      obtain ⟨record, compressed, -⟩ := block.seal.compress_total
      have single : (∀ other ∈ some block, other.OneSided) ↔ block.OneSided := by simp
      refine ChecksIn.of_iff ⟨fun oneSided => ?_, fun twoSided => ?_⟩ single
      · simp only [Checked.TimeSeriesStorage.sealCurrentBlock, TimeSeriesStorage.sealCurrentBlock,
          unchecked, current, agrees oneSided, compressed, Except.mapError]
        split <;> rfl
      · refine ⟨{ self with currentBlock := none }, ?_⟩
        simp only [Checked.TimeSeriesStorage.sealCurrentBlock, current, panics twoSided]

theorem TimeSeriesStorage.checks_openBlock (self : TimeSeriesStorage) (point : DataPoint)
    : ChecksIn self (HasRoom point) (Checked.TimeSeriesStorage.openBlock point)
        (TimeSeriesStorage.openBlock point) :=
  ChecksIn.check _

theorem TimeSeriesStorage.OpenWindowed.insertPoint {self : TimeSeriesStorage}
    (windowed : self.OpenWindowed) (point : DataPoint)
    : ChecksIn self (self.CanInsert point) (Checked.TimeSeriesStorage.insertPoint point)
        (TimeSeriesStorage.insertPoint point) := by
  cases current : self.currentBlock with
  | none =>
      refine ((self.checks_openBlock point).congr ?_ ?_).of_iff ?_
      · simp only [Checked.TimeSeriesStorage.insertPoint, current]
      · simp only [TimeSeriesStorage.insertPoint, current]
      · simp [TimeSeriesStorage.CanInsert, current]
  | some block =>
      cases accepts : block.canAccept point.timestamp with
      | true =>
          refine ((ChecksIn.unchecked self (TimeSeriesStorage.insertPoint point)).congr ?_
            rfl).of_iff ?_
          · have added := (block.addPoint_ok_iff _ point).mpr ⟨accepts, rfl⟩
            simp only [Checked.TimeSeriesStorage.insertPoint, TimeSeriesStorage.insertPoint,
              unchecked, current, accepts, if_true, added]
          · simp [TimeSeriesStorage.CanInsert, current, accepts]
      | false =>
          -- the open block is sealed first, in both builds
          obtain ⟨emptied, sealing⟩ := self.sealCurrentBlock_total
          have both
              : ChecksIn self _
                  (Checked.TimeSeriesStorage.sealCurrentBlock
                    >>= fun _ => Checked.TimeSeriesStorage.openBlock point)
                  (TimeSeriesStorage.sealCurrentBlock
                    >>= fun _ => TimeSeriesStorage.openBlock point) :=
            windowed.sealCurrentBlock.bind sealing (emptied.checks_openBlock point)
          refine (both.congr ?_ ?_).of_iff ?_
          · simp only [Checked.TimeSeriesStorage.insertPoint, current, accepts,
              Bool.false_eq_true, if_false, bind_eq_match]
            cases Checked.TimeSeriesStorage.sealCurrentBlock self <;> rfl
          · simp only [TimeSeriesStorage.insertPoint, current, accepts, Bool.false_eq_true,
              if_false, bind_eq_match]
            cases TimeSeriesStorage.sealCurrentBlock self <;> rfl
          · simp [TimeSeriesStorage.CanInsert, current, accepts]

theorem TimeSeriesStorage.OpenWindowed.sealIfExpired {self : TimeSeriesStorage}
    (windowed : self.OpenWindowed) (now : UInt64)
    : ChecksIn self (self.CanSeal now) (Checked.TimeSeriesStorage.sealIfExpired now)
        (fun storage => .ok () (storage.sealIfExpired now)) := by
  cases current : self.currentBlock with
  | none =>
      refine ((ChecksIn.unchecked self fun storage => .ok () (storage.sealIfExpired now)).congr ?_
        rfl).of_iff ?_
      · simp only [Checked.TimeSeriesStorage.sealIfExpired, TimeSeriesStorage.sealIfExpired,
          unchecked, current]
      · simp [TimeSeriesStorage.CanSeal, current]
  | some block =>
      cases due : block.shouldSeal now with
      | false =>
          refine ((ChecksIn.unchecked self fun storage =>
            .ok () (storage.sealIfExpired now)).congr ?_ rfl).of_iff ?_
          · simp only [Checked.TimeSeriesStorage.sealIfExpired, TimeSeriesStorage.sealIfExpired,
              unchecked, current, due, Bool.false_eq_true, if_false]
          · simp [TimeSeriesStorage.CanSeal, current, due]
      | true =>
          obtain ⟨emptied, sealing⟩ := self.sealCurrentBlock_total
          have safe : self.CanSeal now ↔ ∀ block ∈ self.currentBlock, block.OneSided := by
            simp [TimeSeriesStorage.CanSeal, current, due]
          have checks := windowed.sealCurrentBlock
          refine ChecksIn.of_iff ⟨fun oneSided => ?_, fun twoSided => ?_⟩ safe
          · have sealed := (checks.agrees oneSided).trans (unchecked_ok sealing)
            simp only [Checked.TimeSeriesStorage.sealIfExpired, TimeSeriesStorage.sealIfExpired,
              unchecked, current, due, if_true, sealing, sealed]
          · obtain ⟨after, panicked⟩ := checks.panics twoSided
            refine ⟨after, ?_⟩
            simp only [Checked.TimeSeriesStorage.sealIfExpired, current, due, if_true, panicked]

-----------------------------------------------------------------------------------------
-- The steps on the store
-----------------------------------------------------------------------------------------

theorem TSMap.Sound.openWindowed {self : TSMap} (sound : self.Sound) (key : TimeSeriesKey)
    : (self.storageOf key).OpenWindowed := by
  intro block current
  obtain ⟨closed, points, segmented⟩ := sound key
  exact (segmented.current block current).built.windowed

/-- An insert is the one of the storage of its key. -/
theorem TSMap.insert_eq_zoom (key : TimeSeriesKey) (point : DataPoint)
    : TSMap.insert key point
      = zoom (fun self => self.storageOf key)
          (fun self storage => { series := self.series.insert key storage })
          (TimeSeriesStorage.insertPoint point) := by
  funext self
  simp only [TSMap.insert, zoom]
  cases TimeSeriesStorage.insertPoint point (self.storageOf key) <;> rfl

theorem Checked.TSMap.insert_eq_zoom (key : TimeSeriesKey) (point : DataPoint)
    : Checked.TSMap.insert key point
      = zoom (fun self => self.storageOf key)
          (fun self storage => { series := self.series.insert key storage })
          (Checked.TimeSeriesStorage.insertPoint point) := by
  funext self
  simp only [Checked.TSMap.insert, zoom]
  cases Checked.TimeSeriesStorage.insertPoint point (self.storageOf key) <;> rfl

/-- A step panics in a debug build exactly where it is not safe, and is the same elsewhere. -/
theorem TSMap.Sound.checksIn {self : TSMap} (sound : self.Sound) (step : ClientStep)
    : ChecksIn self (SafeStep self step) (Checked.ClientStep.run step) step.run := by
  cases step with
  | insert key point =>
      rw [Checked.ClientStep.run, ClientStep.run, TSMap.insert_eq_zoom,
        Checked.TSMap.insert_eq_zoom]
      exact ChecksIn.zoom _ _ ((sound.openWindowed key).insertPoint point)
  | sealIfExpired key now =>
      cases found : self.series.lookup key with
      | none =>
          have absent : self.storageOf key = TimeSeriesStorage.new key := by
            rw [TSMap.storageOf, found, Option.getD_none]
          refine ((ChecksIn.unchecked self _).congr ?_ rfl).of_iff ?_
          · simp only [Checked.ClientStep.run, Checked.TSMap.sealSeries, ClientStep.run, unchecked,
              TSMap.sealSeries, found]
          · simp [SafeStep, absent, TimeSeriesStorage.CanSeal, TimeSeriesStorage.new]
      | some storage =>
          have present : self.storageOf key = storage := by
            rw [TSMap.storageOf, found, Option.getD_some]
          have checks := ChecksIn.zoom (fun self : TSMap => self.storageOf key)
            (fun self storage => { series := self.series.insert key storage })
            ((sound.openWindowed key).sealIfExpired now)
          refine checks.congr ?_ ?_
          · simp only [Checked.ClientStep.run, Checked.TSMap.sealSeries, zoom, found, present]
            cases Checked.TimeSeriesStorage.sealIfExpired now storage <;> rfl
          · simp only [ClientStep.run, TSMap.sealSeries, zoom, found, present]

theorem checks_run (step : ClientStep)
    : Checks TSMap.Sound (fun store => SafeStep store step) (Checked.ClientStep.run step)
        step.run := by
  refine Checks.of_states (fun sound => sound.checksIn step) fun {store} sound => ?_
  have stays := sound.clientStep step
  rw [← callStep_run, callStep] at stays
  cases ran : step.run store <;> rwa [ran] at stays

-----------------------------------------------------------------------------------------
-- Points of one side
-----------------------------------------------------------------------------------------

/-- The inserts of a run: their points have room, and those of a key lie on one side. -/
structure Ordinary (batch : List (TimeSeriesKey × DataPoint)) : Prop where
  room : ∀ insert ∈ batch, HasRoom insert.2
  sides
    : ∀ key,
        ∀ left ∈ pointsAt key batch,
          ∀ right ∈ pointsAt key batch, SameSide left.timestamp right.timestamp

theorem Ordinary.of_append {first second : List (TimeSeriesKey × DataPoint)}
    (ordinary : Ordinary (first ++ second))
    : Ordinary first where
  room := fun insert member => ordinary.room insert (List.mem_append_left second member)
  sides := by
    intro key left leftMember right rightMember
    have sides := ordinary.sides key
    rw [pointsAt_append] at sides
    exact sides left (List.mem_append_left _ leftMember) right
      (List.mem_append_left _ rightMember)

/-- After ordinary inserts, every open block is one-sided. -/
theorem Ordinary.oneSided {steps : List ClientStep} (ordinary : Ordinary (insertsOf steps))
    (key : TimeSeriesKey)
    : ∀ block ∈ ((after TSMap.clientStep TSMap.new steps).storageOf key).currentBlock,
        block.OneSided := by
  intro block current
  obtain ⟨logs, represents, -, items⟩ := represents_batch ordinary.room
  have points : block.points = (logs.log key).current := by
    rw [← currentPoints_storageOfLog key, ← represents.storageOf key,
      TimeSeriesStorage.currentPoints, Option.mem_def.mp current]
    rfl
  have inserted {point : DataPoint} (member : point ∈ block.points)
      : point ∈ pointsAt key (insertsOf steps) := by
    rw [← items key]
    exact List.mem_append_right _ (points ▸ member)
  intro left leftMember right rightMember
  exact ordinary.sides key left (inserted leftMember) right (inserted rightMember)

/-- A run of ordinary inserts is safe, whatever the clock readings of its rounds. -/
theorem Ordinary.allSteps {steps : List ClientStep} (ordinary : Ordinary (insertsOf steps))
    : AllSteps TSMap.clientStep SafeStep TSMap.new steps := by
  refine allSteps_of_cuts fun before step rest cut => ?_
  rw [cut, insertsOf_append] at ordinary
  have oneSided := ordinary.of_append.oneSided
  cases step with
  | insert key point =>
      have last := List.mem_append_right (insertsOf before)
        (List.mem_cons_self : (key, point) ∈ insertsOf (.insert key point :: rest))
      exact .inr ⟨oneSided key, ordinary.room (key, point) last⟩
  | sealIfExpired key now => exact fun block current _ => oneSided key block current

/-- No step of a run of clients panics in a debug build exactly if, in the store of the release
build in front of every step, the block that the step closes is one-sided and the block that it
opens ends before the end of time. Then both builds have the same results and the same store. It is
enough that the timestamps of a key lie on one side of `2 ^ 63`, two hours before the end of time.
-/
theorem debug_builds_agree_iff (steps : List ClientStep)
    : let debug := callStep Checked.ClientStep.run
      ((∀ event ∈ history debug TSMap.new steps, event.2 ≠ .error .panicked)
        ↔ AllSteps TSMap.clientStep SafeStep TSMap.new steps)
      ∧ (AllSteps TSMap.clientStep SafeStep TSMap.new steps
          → history debug TSMap.new steps
              = (history TSMap.clientStep TSMap.new steps).map
                  (Prod.map id (Except.mapError Fault.returned))
            ∧ after debug TSMap.new steps = after TSMap.clientStep TSMap.new steps)
      ∧ (Ordinary (insertsOf steps) → AllSteps TSMap.clientStep SafeStep TSMap.new steps) := by
  intro debug
  have sound : TSMap.new.Sound := sound_run []
  have same := allSteps_unchecked_iff checks_run sound steps
  rw [callStep_run] at same
  refine ⟨(panic_free_iff checks_run sound steps).trans same, fun safe => ?_,
    Ordinary.allSteps⟩
  have agree := history_of_safe checks_run sound (same.mpr safe)
  rwa [callStep_run] at agree

end GorillaTsdb.Storage

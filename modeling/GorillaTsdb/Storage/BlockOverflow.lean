import GorillaTsdb.Compression.CheckedDecoders
import GorillaTsdb.Storage.BlockContents

/-! Compressing a block with the overflow checks of a debug build.
The timestamps of a window are close together, but they are subtracted as signed numbers. Two
timestamps on different sides of `2 ^ 63` are far apart then, and the subtraction overflows.
-/

namespace GorillaTsdb.Storage

open Foundations.TokenStreams
open Foundations.CheckedPrograms
open Foundations.SignedWords
open GorillaTsdb.Compression

-----------------------------------------------------------------------------------------
-- The compressor with checks
-----------------------------------------------------------------------------------------

namespace Checked

open GorillaTsdb.Compression.Checked (Program)

abbrev subI64 {σ : Type} (left right : Int64) : Program σ Int64 :=
  checked (FitsInt64 (left.toInt - right.toInt)) (left - right)

/-- `TimestampCompressor::compress`, whose two subtractions are checked. -/
def TimestampCompressor.compress (timestamp : UInt64)
    : Program (TimestampCompressor × BitWriter) Unit := do
  let self ← getFields
  let delta ← subI64 timestamp.toInt64 self.lastTimestamp.toInt64
  let deltaOfDelta ← subI64 delta self.lastDelta
  unchecked (onStream (writeDeltaOfDelta deltaOfDelta))
  setFields { self with lastTimestamp := timestamp, lastDelta := delta }

def compressPoint (point : DataPoint) : Program (BlockCompressor × BitWriter) Unit := do
  onFirst (TimestampCompressor.compress point.timestamp)
  onSecond (unchecked (ValueCompressor.compress point.value))

def compressLoop (points : List DataPoint) : Program (BlockCompressor × BitWriter) Unit :=
  forM points.zipIdx fun (point, i) => if i > 0 then compressPoint point else pure ()

/-- `TimeSeriesBlock::compress`, where a panic of the loop is one of the whole call. -/
def TimeSeriesBlock.compress (self : TimeSeriesBlock)
    : Except (Fault StorageError) CompressedBlock :=
  match self.points with
  | [] =>
      .ok {
        startTimestamp := self.startTime
        endTimestamp := self.startTime
        count := 0
        compressedData := []
      }
  | firstPoint :: rest =>
      match compressLoop self.points (BlockCompressor.new firstPoint, BitWriter.new) with
      | .error (.returned error) _ => .error (.returned (.compressionError error))
      | .error .panicked _ => .error .panicked
      | .ok _ (_, writer) =>
          .ok {
            startTimestamp := firstPoint.timestamp
            endTimestamp := (rest.getLastD firstPoint).timestamp
            count := self.points.length
            compressedData := writer.finish
          }

end Checked

-----------------------------------------------------------------------------------------
-- One point
-----------------------------------------------------------------------------------------

/-- Whether two timestamps have the same sign when they are read as signed numbers. -/
def SameSide (left right : UInt64) : Prop := left.toNat < 2 ^ 63 ↔ right.toNat < 2 ^ 63

instance (left right : UInt64) : Decidable (SameSide left right) :=
  inferInstanceAs (Decidable (_ ↔ _))

/-- Two timestamps of a window are subtracted without overflow exactly if they lie on the same
side.
-/
theorem fits_sub_iff {left right : UInt64}
    (near : (left.toNat : Int) - right.toNat < blockDurationMs.toNat
      ∧ (right.toNat : Int) - left.toNat < blockDurationMs.toNat)
    : FitsInt64 (left.toInt64.toInt - right.toInt64.toInt) ↔ SameSide left right := by
  have duration := toNat_blockDurationMs
  unfold SameSide
  rcases toInt_toInt64_cases left with ⟨leftSide, leftSigned⟩ | ⟨leftSide, leftSigned⟩
  all_goals
    rcases toInt_toInt64_cases right with ⟨rightSide, rightSigned⟩ | ⟨rightSide, rightSigned⟩
    all_goals
      rw [leftSigned, rightSigned]
      omega

/-- In a window, a timestamp on another side than the last one overflows. For any other one
the checks make no difference.
-/
theorem InWindow.compress_cases {low : Nat} {self : TimestampCompressor}
    (inWindow : InWindow low self) {timestamp : UInt64} (above : low ≤ timestamp.toNat)
    (below : timestamp.toNat < low + blockDurationMs.toNat) (writer : BitWriter)
    : (SameSide timestamp self.lastTimestamp
        ∧ Checked.TimestampCompressor.compress timestamp (self, writer)
          = .ok ()
              (self.advance timestamp,
                writer.pushBits (deltaOfDeltaBits (self.deltaOfDelta timestamp))))
      ∨ (¬ SameSide timestamp self.lastTimestamp
        ∧ Panics (Checked.TimestampCompressor.compress timestamp) (self, writer)) := by
  have window := inWindow
  obtain ⟨lastAbove, lastBelow, forward, backward⟩ := inWindow
  have near : (timestamp.toNat : Int) - self.lastTimestamp.toNat < blockDurationMs.toNat
      ∧ (self.lastTimestamp.toNat : Int) - timestamp.toNat < blockDurationMs.toNat := by omega
  have fits := fits_sub_iff near
  by_cases side : SameSide timestamp self.lastTimestamp
  · refine Or.inl ⟨side, ?_⟩
    obtain ⟨-, -, -, deltaForward, deltaBackward⟩ := window.step above below
    have duration := toNat_blockDurationMs
    have fitsAgain : FitsInt64
        ((timestamp.toInt64 - self.lastTimestamp.toInt64).toInt - self.lastDelta.toInt) := by
      simp only [TimestampCompressor.advance] at deltaForward deltaBackward
      omega
    have written := ((emits_writeDeltaOfDelta (self.deltaOfDelta timestamp)).onStream self) writer
    change (checked _ _ >>= _) _ = _
    rw [checked_bind (fits.mpr side), checked_bind fitsAgain]
    exact bind_ok (unchecked_ok written)
  · exact Or.inr ⟨side, Panics.fields (Panics.bind ⟨_, if_neg (mt fits.mp side)⟩)⟩

/-- A point overflows exactly if its timestamp does: the value compressor subtracts nothing
signed.
-/
theorem InWindow.compressPoint_cases {low : Nat} {self : BlockCompressor}
    (inWindow : InWindow low self.1) (aligned : self.Aligned) {point : DataPoint}
    (above : low ≤ point.timestamp.toNat)
    (below : point.timestamp.toNat < low + blockDurationMs.toNat) (writer : BitWriter)
    : (SameSide point.timestamp self.1.lastTimestamp
        ∧ Checked.compressPoint point (self, writer)
          = .ok () (self.advance point, writer.pushBits (pointBits (self.item point))))
      ∨ (¬ SameSide point.timestamp self.1.lastTimestamp
        ∧ Panics (Checked.compressPoint point) (self, writer)) := by
  rcases inWindow.compress_cases above below writer with ⟨side, written⟩ | ⟨side, panics⟩
  · refine Or.inl ⟨side, ?_⟩
    have first : onFirst (Checked.TimestampCompressor.compress point.timestamp) (self, writer)
        = .ok () ((self.1.advance point.timestamp, self.2),
            writer.pushBits (deltaOfDeltaBits (self.1.deltaOfDelta point.timestamp))) := by
      simp only [onFirst, written]
    have second := unchecked_ok (ValueCompressor.encodesItem.emits aligned.2 point.value
      (writer.pushBits (deltaOfDeltaBits (self.1.deltaOfDelta point.timestamp))))
    refine (bind_ok first).trans ?_
    simp only [onSecond, second]
    exact congrArg (fun writer => EStateM.Result.ok () (self.advance point, writer))
      (writerSink.push_append writer _ _)
  · exact Or.inr ⟨side, (panics.onFirst self.2).bind⟩

-----------------------------------------------------------------------------------------
-- A whole block
-----------------------------------------------------------------------------------------

/-- The loop panics exactly if some timestamp lies on another side than the last one before the
loop, by induction on the points: the first such timestamp is on another side than the one
before it.
-/
theorem InWindow.panics_loop_iff {low : Nat} {self : BlockCompressor}
    (inWindow : InWindow low self.1) (aligned : self.Aligned) {rest : List DataPoint}
    (range
      : ∀ point ∈ rest,
          low ≤ point.timestamp.toNat
          ∧ point.timestamp.toNat < low + blockDurationMs.toNat)
    (writer : BitWriter)
    : Panics (forM rest Checked.compressPoint) (self, writer)
      ↔ ∃ point ∈ rest, ¬ SameSide point.timestamp self.1.lastTimestamp := by
  induction rest generalizing self writer with
  | nil =>
      refine iff_of_false ?_ ?_
      · intro panics
        obtain ⟨after, panicked⟩ := panics
        cases panicked
      · simp
  | cons point rest ih =>
      obtain ⟨pointRange, restRange⟩ := List.forall_mem_cons.mp range
      rw [List.forM_cons]
      rcases inWindow.compressPoint_cases aligned pointRange.1 pointRange.2 writer with
        ⟨side, written⟩ | ⟨side, panics⟩
      · have sides (other : DataPoint)
            : SameSide other.timestamp (self.advance point).1.lastTimestamp
              ↔ SameSide other.timestamp self.1.lastTimestamp :=
          iff_congr Iff.rfl side
        rw [panics_bind_iff written, ih (inWindow.step pointRange.1 pointRange.2).2
          (BlockCompressor.encodesItem.keeps aligned point) restRange]
        simp only [sides, List.exists_mem_cons_iff, side, not_true, false_or]
      · exact iff_of_true panics.bind ⟨point, List.mem_cons_self, side⟩

/-- The delta-of-deltas that `compress` forms for a block, in wrapping arithmetic. -/
def TimeSeriesBlock.deltaOfDeltas (self : TimeSeriesBlock) : List Int64 :=
  match self.points with
  | [] => []
  | firstPoint :: rest => (blockItems firstPoint rest).map Prod.fst

/-- Compressing the block overflows nowhere, and no delta-of-delta reaches twice the window. -/
def TimeSeriesBlock.SealsSafely (self : TimeSeriesBlock) : Prop :=
  Checked.TimeSeriesBlock.compress self ≠ .error .panicked
  ∧ ∀ deltaOfDelta ∈ self.deltaOfDeltas,
      -2 * blockDurationMs.toNat < deltaOfDelta.toInt
      ∧ deltaOfDelta.toInt < 2 * blockDurationMs.toNat

/-- The call panics exactly if its loop over the points does. -/
theorem Checked.TimeSeriesBlock.compress_panics_iff {self : TimeSeriesBlock}
    {firstPoint : DataPoint} {rest : List DataPoint} (points : self.points = firstPoint :: rest)
    : Checked.TimeSeriesBlock.compress self = .error .panicked
      ↔ Panics (forM rest Checked.compressPoint)
          (BlockCompressor.new firstPoint, BitWriter.new) := by
  have loop : Checked.compressLoop (firstPoint :: rest) = forM rest Checked.compressPoint :=
    forM_skip_first Checked.compressPoint firstPoint rest
  simp only [Checked.TimeSeriesBlock.compress, points, loop, Panics]
  cases forM rest Checked.compressPoint (BlockCompressor.new firstPoint, BitWriter.new) with
  | ok result after => simp
  | error fault after => cases fault <;> simp

/-- A block of accepted points is compressed without overflow exactly if all of its timestamps
lie on one side of `2 ^ 63`. The bound on the delta-of-deltas needs no condition.
-/
theorem sealing_safe_iff {block : TimeSeriesBlock} (built : block.Built)
    : block.SealsSafely
      ↔ ∀ left ∈ block.points, ∀ right ∈ block.points,
          SameSide left.timestamp right.timestamp := by
  unfold TimeSeriesBlock.SealsSafely TimeSeriesBlock.deltaOfDeltas
  cases points : block.points with
  | nil => simp [Checked.TimeSeriesBlock.compress, points]
  | cons firstPoint rest =>
      have range {point : DataPoint} (member : point ∈ firstPoint :: rest) :=
        built.windowed.range (points ▸ member)
      obtain ⟨firstRange, restRange⟩ := List.forall_mem_cons.mp (fun _ => range)
      have inWindow : InWindow block.startTime.toNat (BlockCompressor.new firstPoint).1 :=
        inWindow_new firstRange.1 firstRange.2
      have loop := inWindow.panics_loop_iff (BlockCompressor.aligned_new firstPoint) restRange
        BitWriter.new
      rw [Ne, Checked.TimeSeriesBlock.compress_panics_iff points, loop]
      have bounded := built.windowed.items_bounded points
      constructor
      · intro safe left leftMember right rightMember
        have side : ∀ point ∈ firstPoint :: rest,
            SameSide point.timestamp firstPoint.timestamp :=
          List.forall_mem_cons.mpr ⟨Iff.rfl, fun point member =>
            by_contra fun other => safe.1 ⟨point, member, other⟩⟩
        exact (side left leftMember).trans (side right rightMember).symm
      · intro side
        refine ⟨?_, List.forall_mem_map.mpr bounded⟩
        intro fails
        obtain ⟨point, member, other⟩ := fails
        exact other (side point (List.mem_cons_of_mem _ member) firstPoint List.mem_cons_self)

/-- A block at 1000 with two points. -/
theorem sealing_safe_iff_sample
    : TimeSeriesBlock.SealsSafely ⟨1000, 7201000, [⟨1000, ⟨0⟩⟩, ⟨2000, ⟨0⟩⟩], false⟩ := by
  have created := TimeSeriesBlock.Built.created 1000
  have one : TimeSeriesBlock.addPoint ⟨1000, ⟨0⟩⟩ (TimeSeriesBlock.new 1000)
      = .ok () ⟨1000, 7201000, [⟨1000, ⟨0⟩⟩], false⟩ := rfl
  have two : TimeSeriesBlock.addPoint ⟨2000, ⟨0⟩⟩ ⟨1000, 7201000, [⟨1000, ⟨0⟩⟩], false⟩
      = .ok () ⟨1000, 7201000, [⟨1000, ⟨0⟩⟩, ⟨2000, ⟨0⟩⟩], false⟩ := rfl
  exact (sealing_safe_iff ((created.added _ one).added _ two)).mpr (by decide)

/-- The window of this block, which fits in a `u64`, contains `2 ^ 63`. -/
theorem sealing_overflows
    : ¬ (∀ block : TimeSeriesBlock,
          block.Built
          → block.startTime.toNat + blockDurationMs.toNat < 2 ^ 64
          → block.SealsSafely) := by
  intro safe
  have created := TimeSeriesBlock.Built.created 0x7fffffffffffffff
  have one : TimeSeriesBlock.addPoint ⟨0x7fffffffffffffff, ⟨0⟩⟩
        (TimeSeriesBlock.new 0x7fffffffffffffff)
      = .ok () ⟨0x7fffffffffffffff, 0x80000000006ddcff, [⟨0x7fffffffffffffff, ⟨0⟩⟩], false⟩ :=
    rfl
  have two : TimeSeriesBlock.addPoint ⟨0x8000000000000000, ⟨0⟩⟩
        ⟨0x7fffffffffffffff, 0x80000000006ddcff, [⟨0x7fffffffffffffff, ⟨0⟩⟩], false⟩
      = .ok () ⟨0x7fffffffffffffff, 0x80000000006ddcff,
          [⟨0x7fffffffffffffff, ⟨0⟩⟩, ⟨0x8000000000000000, ⟨0⟩⟩], false⟩ :=
    rfl
  exact (safe _ ((created.added _ one).added _ two) (by decide)).1 rfl

end GorillaTsdb.Storage

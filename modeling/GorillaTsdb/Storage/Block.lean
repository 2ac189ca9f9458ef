import GorillaTsdb.Compression.TimestampCodec
import GorillaTsdb.Compression.ValueCodec

/-! Blocks of points: accepting a point, sealing and compressing.
A block admits the timestamps of one window. Compressing it interleaves both codecs on one
bit stream, started from the first point, which itself is not written.
-/

namespace GorillaTsdb.Storage

open Foundations.TokenStreams
open GorillaTsdb.Compression

/-- The kinds of `std::io::Error` that the storage layer tells apart. -/
inductive IoErrorKind where
  | notFound
  | unexpectedEof
  | invalidData
  | other
  deriving DecidableEq, Repr

structure IoError where
  kind : IoErrorKind
  message : String
  deriving DecidableEq, Repr

inductive StorageError where
  | keyNotFound (key : TimeSeriesKey)
  | blockSealed
  | invalidTimeRange (start finish : UInt64)
  | compressionError (error : CompressionError)
  | ioError (error : IoError)
  deriving DecidableEq, Repr

-----------------------------------------------------------------------------------------
-- TimeSeriesBlock
-----------------------------------------------------------------------------------------

/-- `BLOCK_DURATION_MS`: two hours in milliseconds. -/
def blockDurationMs : UInt64 := 2 * 60 * 60 * 1000

theorem toNat_blockDurationMs : blockDurationMs.toNat = 7200000 := by decide

structure TimeSeriesBlock where
  startTime : UInt64
  endTime : UInt64
  points : List DataPoint
  isSealed : Bool
  deriving DecidableEq, Repr

/-- `new`; the addition wraps, as in a release build. -/
def TimeSeriesBlock.new (startTime : UInt64) : TimeSeriesBlock where
  startTime := startTime
  endTime := startTime + blockDurationMs
  points := []
  isSealed := false

def TimeSeriesBlock.canAccept (self : TimeSeriesBlock) (timestamp : UInt64) : Bool :=
  !self.isSealed && timestamp ≥ self.startTime && timestamp < self.endTime

def TimeSeriesBlock.addPoint (point : DataPoint) : EStateM StorageError TimeSeriesBlock Unit :=
  fun self =>
    if self.isSealed then .error .blockSealed self
    else if !self.canAccept point.timestamp then
      .error (.invalidTimeRange point.timestamp self.endTime) self
    else .ok () { self with points := self.points ++ [point] }

def TimeSeriesBlock.seal (self : TimeSeriesBlock) : TimeSeriesBlock :=
  { self with isSealed := true }

/-- `should_seal`, with the clock reading as an argument. -/
def TimeSeriesBlock.shouldSeal (self : TimeSeriesBlock) (now : UInt64) : Bool :=
  if self.isSealed then false else now ≥ self.endTime

/-- The two codecs that share one stream. -/
abbrev BlockCompressor := TimestampCompressor × ValueCompressor

/-- The codecs that `compress` creates for the first point of a block. -/
def BlockCompressor.new (firstPoint : DataPoint) : BlockCompressor :=
  (TimestampCompressor.new firstPoint.timestamp, ValueCompressor.new firstPoint.value)

/-- The loop body of `compress` for a point after the first. -/
def compressPoint (point : DataPoint)
    : EStateM CompressionError (BlockCompressor × BitWriter) Unit := do
  onFirst (TimestampCompressor.compress point.timestamp)
  onSecond (ValueCompressor.compress point.value)

/-- The loop of `compress` over the enumerated points. -/
def compressLoop (points : List DataPoint)
    : EStateM CompressionError (BlockCompressor × BitWriter) Unit :=
  forM points.zipIdx fun (point, i) => if i > 0 then compressPoint point else pure ()

def TimeSeriesBlock.compress (self : TimeSeriesBlock) : Except StorageError CompressedBlock :=
  match self.points with
  | [] =>
      .ok {
        startTimestamp := self.startTime
        endTimestamp := self.startTime
        count := 0
        compressedData := []
      }
  | firstPoint :: rest =>
      match compressLoop self.points (BlockCompressor.new firstPoint, BitWriter.new) with
      | .error error _ => .error (.compressionError error)
      | .ok _ (_, writer) =>
          .ok {
            startTimestamp := firstPoint.timestamp
            endTimestamp := (rest.getLastD firstPoint).timestamp
            count := self.points.length
            compressedData := writer.finish
          }

-----------------------------------------------------------------------------------------
-- Blocks that the methods build
-----------------------------------------------------------------------------------------

theorem TimeSeriesBlock.canAccept_iff (self : TimeSeriesBlock) (timestamp : UInt64)
    : self.canAccept timestamp = true
      ↔ self.isSealed = false ∧ self.startTime ≤ timestamp ∧ timestamp < self.endTime := by
  simp [TimeSeriesBlock.canAccept, and_assoc]

/-- `add_point` appends the point exactly when the block can accept its timestamp, and leaves
the block alone otherwise.
-/
theorem TimeSeriesBlock.addPoint_cases (self : TimeSeriesBlock) (point : DataPoint)
    : (self.canAccept point.timestamp = true
        ∧ TimeSeriesBlock.addPoint point self
          = .ok () { self with points := self.points ++ [point] })
      ∨ (self.canAccept point.timestamp = false
        ∧ ∃ error, TimeSeriesBlock.addPoint point self = .error error self) := by
  cases accepts : self.canAccept point.timestamp with
  | true =>
      have opened := ((self.canAccept_iff point.timestamp).mp accepts).1
      exact Or.inl ⟨rfl, by simp [TimeSeriesBlock.addPoint, opened, accepts]⟩
  | false =>
      refine Or.inr ⟨rfl, ?_⟩
      cases opened : self.isSealed with
      | true => exact ⟨_, by simp only [TimeSeriesBlock.addPoint, opened, if_true]; rfl⟩
      | false => exact ⟨_, by simp [TimeSeriesBlock.addPoint, opened, accepts]; rfl⟩

/-- The blocks that come from `new` by accepted points and sealing. -/
inductive TimeSeriesBlock.Built : TimeSeriesBlock → Prop where
  | created (startTime : UInt64) : Built (TimeSeriesBlock.new startTime)
  | added {self after : TimeSeriesBlock} (point : DataPoint) (built : Built self)
      (accepted : TimeSeriesBlock.addPoint point self = .ok () after)
      : Built after
  | closed {self : TimeSeriesBlock} (built : Built self) : Built self.seal

/-- The window of a block: its length, and the points inside it. -/
structure TimeSeriesBlock.Windowed (block : TimeSeriesBlock) : Prop where
  window : block.endTime = block.startTime + blockDurationMs
  inside
    : ∀ point ∈ block.points,
        block.startTime ≤ point.timestamp ∧ point.timestamp < block.endTime

theorem TimeSeriesBlock.windowed_new (startTime : UInt64)
    : (TimeSeriesBlock.new startTime).Windowed :=
  ⟨rfl, List.forall_mem_nil _⟩

/-- An accepted point lies in the window. -/
theorem TimeSeriesBlock.Windowed.addPoint {self after : TimeSeriesBlock} {point : DataPoint}
    (windowed : self.Windowed)
    (accepted : TimeSeriesBlock.addPoint point self = .ok () after)
    : after.Windowed := by
  rcases self.addPoint_cases point with ⟨accepts, added⟩ | ⟨_, error, refused⟩
  · obtain ⟨-, rfl⟩ := EStateM.Result.ok.inj (added.symm.trans accepted)
    have insideWindow := ((self.canAccept_iff point.timestamp).mp accepts).2
    exact ⟨windowed.window,
      List.forall_mem_append.mpr ⟨windowed.inside, List.forall_mem_singleton.mpr insideWindow⟩⟩
  · exact absurd (refused.symm.trans accepted) (by simp)

/-- Every built block keeps its points in its window, by induction on its construction. -/
theorem TimeSeriesBlock.Built.windowed {self : TimeSeriesBlock} (built : self.Built)
    : self.Windowed := by
  induction built with
  | created startTime => exact TimeSeriesBlock.windowed_new startTime
  | added point _ accepted ih => exact ih.addPoint accepted
  | closed _ ih => exact ⟨ih.window, ih.inside⟩

/-- Where a point was accepted the window does not wrap: it is a range of the numbers. -/
theorem TimeSeriesBlock.Windowed.range {self : TimeSeriesBlock} (windowed : self.Windowed)
    {point : DataPoint} (member : point ∈ self.points)
    : self.startTime.toNat ≤ point.timestamp.toNat
      ∧ point.timestamp.toNat < self.startTime.toNat + blockDurationMs.toNat := by
  obtain ⟨low, high⟩ := windowed.inside point member
  have duration := toNat_blockDurationMs
  rw [windowed.window] at high
  rw [UInt64.le_iff_toNat_le] at low
  rw [UInt64.lt_iff_toNat_lt, UInt64.toNat_add] at high
  omega

-----------------------------------------------------------------------------------------
-- The bits of a block
-----------------------------------------------------------------------------------------

/-- What the two codecs form for a point: a delta-of-delta and an XOR. -/
def BlockCompressor.item (self : BlockCompressor) (point : DataPoint) : Int64 × UInt64 :=
  (self.1.deltaOfDelta point.timestamp, self.2.xor point.value)

def BlockCompressor.advance (self : BlockCompressor) (point : DataPoint) : BlockCompressor :=
  (self.1.advance point.timestamp, self.2.advance point.value)

/-- The invariant of the shared run: the value window stays full. -/
def BlockCompressor.Aligned (self : BlockCompressor) : Prop := True ∧ self.2.FullWindow

theorem BlockCompressor.aligned_new (firstPoint : DataPoint)
    : (BlockCompressor.new firstPoint).Aligned :=
  ⟨trivial, rfl, rfl⟩

/-- The bits of a point: the timestamp item, then the value item. -/
def pointBits (item : Int64 × UInt64) : List Bool :=
  deltaOfDeltaBits item.1 ++ xorBits item.2

/-- The items of a block whose first point is `firstPoint`. -/
def blockItems (firstPoint : DataPoint) (rest : List DataPoint) : List (Int64 × UInt64) :=
  outputs BlockCompressor.item BlockCompressor.advance (BlockCompressor.new firstPoint) rest

/-- The two calls for a point append its bits, since each codec appends its own. -/
theorem BlockCompressor.encodesItem
    : writerSink.EncodesItem BlockCompressor.Aligned compressPoint pointBits
        BlockCompressor.item BlockCompressor.advance :=
  TimestampCompressor.encodesItem.interleave ValueCompressor.encodesItem
    DataPoint.timestamp DataPoint.value

/-- A loop that skips index zero passes over the first element only, by induction on the
elements behind it.
-/
theorem forM_skip_first {m : Type → Type} [Monad m] [LawfulMonad m] {α : Type}
    (body : α → m Unit) (first : α) (rest : List α)
    : (forM (first :: rest).zipIdx fun (pair : α × Nat) =>
          if pair.2 > 0 then body pair.1 else pure ())
        = forM rest body := by
  have later (elements : List α) (offset : Nat)
      : (forM (elements.zipIdx (offset + 1)) fun (pair : α × Nat) =>
            if pair.2 > 0 then body pair.1 else pure ())
          = forM elements body := by
    induction elements generalizing offset with
    | nil => rfl
    | cons element elements ih =>
        simp only [List.zipIdx_cons, List.forM_cons, Nat.zero_lt_succ, if_true, gt_iff_lt, ih]
  simp only [List.zipIdx_cons, List.forM_cons, gt_iff_lt, Nat.lt_irrefl, if_false, pure_bind]
  exact later rest 0

/-- The loop passes over the first point and compresses all others. -/
theorem compressLoop_cons (firstPoint : DataPoint) (rest : List DataPoint)
    : compressLoop (firstPoint :: rest) = forM rest compressPoint :=
  forM_skip_first compressPoint firstPoint rest

/-- What `compress` makes of the run of its loop over a block that holds a point. -/
theorem TimeSeriesBlock.compress_of_run {self : TimeSeriesBlock} {firstPoint : DataPoint}
    {rest : List DataPoint} (points : self.points = firstPoint :: rest)
    {codecs : BlockCompressor} {writer : BitWriter}
    (written
      : compressLoop (firstPoint :: rest) (BlockCompressor.new firstPoint, BitWriter.new)
        = .ok () (codecs, writer))
    : self.compress
      = .ok {
          startTimestamp := firstPoint.timestamp
          endTimestamp := (rest.getLastD firstPoint).timestamp
          count := rest.length + 1
          compressedData := writer.finish
        } := by
  simp only [TimeSeriesBlock.compress, points, written, List.length_cons]

/-- Compressing a block that holds a point succeeds. The record holds the timestamps of the
first and the last point, the count and the bits of every point but the first.
-/
theorem TimeSeriesBlock.compress_eq {self : TimeSeriesBlock} {firstPoint : DataPoint}
    {rest : List DataPoint} (points : self.points = firstPoint :: rest)
    : self.compress
      = .ok {
          startTimestamp := firstPoint.timestamp
          endTimestamp := (rest.getLastD firstPoint).timestamp
          count := rest.length + 1
          compressedData :=
            (BitWriter.new.pushBits ((blockItems firstPoint rest).flatMap pointBits)).finish
        } := by
  have written := BlockCompressor.encodesItem.forM (BlockCompressor.new firstPoint)
    (BlockCompressor.aligned_new firstPoint) rest BitWriter.new
  rw [← compressLoop_cons firstPoint] at written
  exact TimeSeriesBlock.compress_of_run points written

/-- Sealing never fails: a codec call only fails if a bit cannot be written. -/
theorem TimeSeriesBlock.compress_total (self : TimeSeriesBlock)
    : ∃ compressed,
        self.compress = .ok compressed ∧ compressed.count = self.points.length := by
  cases points : self.points with
  | nil => exact ⟨_, by simp only [TimeSeriesBlock.compress, points]; rfl, rfl⟩
  | cons firstPoint rest => exact ⟨_, TimeSeriesBlock.compress_eq points, rfl⟩

end GorillaTsdb.Storage

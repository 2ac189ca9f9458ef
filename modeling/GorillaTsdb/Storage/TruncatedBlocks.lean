import GorillaTsdb.Compression.MalformedStreams
import GorillaTsdb.Foundations.StarvedReaders
import GorillaTsdb.Storage.BlockStream

/-! Reading a block's stream after its end was lost.
The decoders take one bit after the other, so up to the missing bits they return what the full
stream gives. A byte that is missing held at least one bit of an item: the padding of the last
byte is less than a byte.
-/

namespace GorillaTsdb.Storage

open Foundations.BitSequences
open Foundations.TokenStreams
open GorillaTsdb.Compression

-----------------------------------------------------------------------------------------
-- The decoders on a cut stream
-----------------------------------------------------------------------------------------

/-- Fresh readers over bytes and over a beginning of them. -/
theorem cut_of_beginning {shorter bytes : List UInt8} (beginning : shorter <+: bytes)
    : readerSource.Cut (BitReader.new shorter) (BitReader.new bytes) :=
  unpack_beginning beginning

/-- `read_bit` returns the next bit, or stops where there is none. -/
theorem BitReader.starves_readBit
    : readerSource.Starves .insufficientData BitReader.readBit := by
  intro cut full readers
  obtain ⟨missing, unread⟩ := readers
  cases ahead : readerSource.unread cut with
  | nil =>
      have outside : cut.bitPosition ≥ cut.buffer.length * 8 := by
        simpa [readerSource, Nat.mul_comm] using ahead
      exact Or.inr ⟨cut, BitReader.readBit_past outside⟩
  | cons bit rest =>
      rw [ahead] at unread
      exact Or.inl ⟨_, 1, Nat.succ_le_succ (Nat.zero_le _),
        BitReader.reads_readBit bit cut rest ahead,
        BitReader.reads_readBit bit full (rest ++ missing) unread.symm⟩

theorem BitReader.starves_readBitsLoop (numBits : Nat) (value : UInt64)
    : readerSource.Starves .insufficientData (BitReader.readBitsLoop numBits value) := by
  induction numBits generalizing value with
  | zero => exact .pure readerSource _ value
  | succ numBits ih => exact BitReader.starves_readBit.bind fun bit => ih _

theorem BitReader.starves_readBits (numBits : Nat)
    : readerSource.Starves .insufficientData (BitReader.readBits numBits) :=
  BitReader.starves_readBitsLoop numBits 0

/-- Whatever the bits after a bit decide, a program that stops for lack of bits on both sides
does so after the bit.
-/
theorem starves_readDeltaOfDelta
    : readerSource.Starves .insufficientData readDeltaOfDelta := by
  refine BitReader.starves_readBit.bind fun bit => ?_
  split
  · exact .pure readerSource _ _
  refine BitReader.starves_readBit.bind fun bit => ?_
  split
  · exact (BitReader.starves_readBits 7).bind fun bits => .pure readerSource _ _
  refine BitReader.starves_readBit.bind fun bit => ?_
  split
  · refine (BitReader.starves_readBits 9).bind fun bits => ?_
    dsimp only
    split <;> exact .pure readerSource _ _
  refine BitReader.starves_readBit.bind fun bit => ?_
  split
  · refine (BitReader.starves_readBits 12).bind fun bits => ?_
    dsimp only
    split <;> exact .pure readerSource _ _
  · exact (BitReader.starves_readBits 32).bind fun bits => .pure readerSource _ _

theorem TimestampDecompressor.starves_decompress
    : readerSource.StarvesWith .insufficientData TimestampDecompressor.decompress :=
  .fields fun _ => starves_readDeltaOfDelta.onStream_bind fun _ => (Silent.setFields _ _).starves

theorem ValueDecompressor.starves_readXor
    : readerSource.StarvesWith .insufficientData ValueDecompressor.readXor := by
  refine .fields fun self => BitReader.starves_readBit.onStream_bind fun bit => ?_
  split
  · exact (BitReader.starves_readBits _).onStream_bind fun bits => (Silent.pure _).starves
  · refine (BitReader.starves_readBits 5).onStream_bind fun leading => ?_
    refine (BitReader.starves_readBits 6).onStream_bind fun meaningfulBits => ?_
    refine (BitReader.starves_readBits _).onStream_bind fun shiftedXor => ?_
    exact (Silent.setFields _ _).starves

/-- The value decompressor assigns its fields after its last bit only. -/
theorem ValueDecompressor.starves_decompress
    : readerSource.StarvesWith .insufficientData ValueDecompressor.decompress := by
  refine BitReader.starves_readBit.onStream_bind fun bit => ?_
  split
  · exact (Silent.fields fun self => Silent.pure _).starves
  · refine ValueDecompressor.starves_readXor.silent_bind fun xor => ?_
    exact Silent.fields fun self => Silent.setFields _ _

theorem DecoderCall.starves_run (call : DecoderCall)
    : readerSource.StarvesWith .insufficientData call.run := by
  cases call with
  | timestamp =>
      exact TimestampDecompressor.starves_decompress.onFirst.silent_bind fun _ => .pure _
  | value =>
      exact ValueDecompressor.starves_decompress.onSecond.silent_bind fun _ => .pure _

-----------------------------------------------------------------------------------------
-- Rounds as single calls
-----------------------------------------------------------------------------------------

/-- The calls of some rounds: a timestamp, then a value. -/
def alternatingCalls (rounds : Nat) : List DecoderCall :=
  (List.replicate rounds [DecoderCall.timestamp, DecoderCall.value]).flatten

/-- A round that returns is two calls that return. -/
theorem decompressPoint_calls {decoders after : Decoders} {timestamp : UInt64} {value : F64}
    (ran : decompressPoint decoders = .ok (timestamp, value) after)
    : ∃ between,
        DecoderCall.timestamp.run decoders = .ok (.timestamp timestamp) between
        ∧ DecoderCall.value.run between = .ok (.value value) after := by
  obtain ⟨first, between, ranFirst, ran⟩ := bind_eq_ok.mp ran
  obtain ⟨second, last, ranSecond, ran⟩ := bind_eq_ok.mp ran
  cases ran
  exact ⟨between, bind_ok ranFirst, bind_ok ranSecond⟩

/-- Rounds that return are calls that return, by induction on the rounds. -/
theorem repeatCall_calls {rounds : Nat} {decoders after : Decoders}
    {results : List (UInt64 × F64)}
    (ran : repeatCall decompressPoint rounds decoders = .ok results after)
    : ∃ decoded, (alternatingCalls rounds).mapM DecoderCall.run decoders = .ok decoded after := by
  induction rounds generalizing decoders results with
  | zero =>
      cases ran
      exact ⟨[], rfl⟩
  | succ rounds ih =>
      obtain ⟨⟨timestamp, value⟩, middle, round, ran⟩ := bind_eq_ok.mp ran
      obtain ⟨later, last, ranLater, ran⟩ := bind_eq_ok.mp ran
      cases ran
      obtain ⟨between, first, second⟩ := decompressPoint_calls round
      obtain ⟨decoded, others⟩ := ih ranLater
      exact ⟨_, mapM_cons_ok first (mapM_cons_ok second others)⟩

-----------------------------------------------------------------------------------------
-- Cut blocks
-----------------------------------------------------------------------------------------

/-- Every missing byte takes away a bit of an item. -/
theorem BitWriter.bits_missing {writer : BitWriter} {shorter : List UInt8}
    (strict : shorter.length < writer.finish.length)
    : 8 * shorter.length < writer.bitCount := by
  have sized : writer.finish.length = (writer.bitCount + 7) / 8 := writer.sized
  omega

/-- Over the full stream, the calls of all rounds return and consume all bits of the items. -/
theorem fullStream_calls (firstPoint : DataPoint) (rest : List DataPoint)
    : let writer := BitWriter.new.pushBits ((blockItems firstPoint rest).flatMap pointBits)
      ∃ decoded decoders,
        (alternatingCalls rest.length).mapM DecoderCall.run
            (Decoders.new writer.finish firstPoint.timestamp firstPoint.value)
          = .ok decoded
              (decoders, readerSource.advance (BitReader.new writer.finish) writer.bitCount) := by
  intro writer
  have rounds := BlockDecompressor.decodesItem.repeatCall (BlockDecompressor.new firstPoint)
    ⟨trivial, rfl, rfl⟩ (blockItems firstPoint rest) _ _ (unread_finish_pushBits _)
  have length : (blockItems firstPoint rest).length = rest.length := length_outputs _ _ _ _
  rw [length] at rounds
  obtain ⟨decoded, calls⟩ := repeatCall_calls rounds
  have total : writer.bitCount = ((blockItems firstPoint rest).flatMap pointBits).length := by
    rw [BitWriter.bitCount_pushBits, BitWriter.bitCount_new, Nat.zero_add]
  rw [← total] at calls
  exact ⟨decoded, _, calls⟩

/-- Over a stream that lost bytes at its end, the calls return what they return over the full
stream, up to one that stops for lack of bits. It comes before the calls of all points are made
and leaves both decoders as they were.
-/
theorem truncated_stream_detected {self : TimeSeriesBlock} {firstPoint : DataPoint}
    {rest : List DataPoint} {compressed : CompressedBlock}
    (written : { self with points := firstPoint :: rest }.compress = .ok compressed)
    {shorter : List UInt8} (beginning : shorter <+: compressed.compressedData)
    (strict : shorter ≠ compressed.compressedData)
    : ∃ before call later results decoders stoppedAt fullAt after,
        alternatingCalls (compressed.count - 1) = before ++ call :: later
        ∧ before.mapM DecoderCall.run
            (Decoders.new shorter firstPoint.timestamp firstPoint.value)
          = .ok results (decoders, stoppedAt)
        ∧ before.mapM DecoderCall.run
            (Decoders.new compressed.compressedData firstPoint.timestamp firstPoint.value)
          = .ok results (decoders, fullAt)
        ∧ call.run (decoders, stoppedAt) = .error .insufficientData (decoders, after)
        ∧ (alternatingCalls (compressed.count - 1)).mapM DecoderCall.run
            (Decoders.new shorter firstPoint.timestamp firstPoint.value)
          = .error .insufficientData (decoders, after) := by
  cases written.symm.trans (TimeSeriesBlock.compress_eq rfl)
  have missing := BitWriter.bits_missing
    (lt_of_le_of_ne beginning.length_le fun same => strict (beginning.eq_of_length same))
  obtain ⟨decoded, decoders, all⟩ := fullStream_calls firstPoint rest
  rcases Source.StarvesWith.mapM DecoderCall.starves_run (alternatingCalls rest.length)
      (BlockDecompressor.new firstPoint) (cut_of_beginning beginning) with
    ⟨results, after, count, within, -, ranFull⟩
    | ⟨before, call, later, results, kept, stoppedAt, fullAt, after, calls, ranCut, ranFull, stops⟩
  · have positions := (EStateM.Result.ok.inj (all.symm.trans ranFull)).2
    have same := congrArg (fun state => state.2.bitPosition) positions
    simp only [readerSource, BitReader.new, List.length_drop, length_unpack] at same within
    omega
  · refine ⟨before, call, later, results, kept, stoppedAt, fullAt, after, calls, ranCut, ranFull,
      stops, ?_⟩
    rw [Nat.add_sub_cancel, calls]
    exact mapM_stops ranCut stops

/-- Two equal points, and no byte of their stream: no call returns. -/
theorem truncated_stream_detected_sample
    : ∃ before call later results decoders stoppedAt fullAt after,
        alternatingCalls 1 = before ++ call :: later
        ∧ before.mapM DecoderCall.run (Decoders.new [] 0 ⟨0⟩)
          = .ok results (decoders, stoppedAt)
        ∧ before.mapM DecoderCall.run (Decoders.new [0] 0 ⟨0⟩)
          = .ok results (decoders, fullAt)
        ∧ call.run (decoders, stoppedAt) = .error .insufficientData (decoders, after)
        ∧ (alternatingCalls 1).mapM DecoderCall.run (Decoders.new [] 0 ⟨0⟩)
          = .error .insufficientData (decoders, after) := by
  have written
      : { TimeSeriesBlock.new 0 with points := [⟨0, ⟨0⟩⟩, ⟨0, ⟨0⟩⟩] }.compress
        = .ok ⟨0, 0, 2, [0]⟩ := rfl
  exact truncated_stream_detected written List.nil_prefix (by decide)

end GorillaTsdb.Storage

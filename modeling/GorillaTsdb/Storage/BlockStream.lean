import GorillaTsdb.Compression.ValueRoundTrip
import GorillaTsdb.Storage.Block

/-! Reading a block's stream back with both decompressors in turn.
A misread timestamp still occupies the bits that were written for it, so the values behind
it are found where they are.
-/

namespace GorillaTsdb.Storage

open Foundations.TokenStreams
open GorillaTsdb.Compression

/-- The two decompressors that read one stream. -/
abbrev BlockDecompressor := TimestampDecompressor × ValueDecompressor

def BlockDecompressor.new (firstPoint : DataPoint) : BlockDecompressor :=
  (TimestampDecompressor.new firstPoint.timestamp, ValueDecompressor.new firstPoint.value)

/-- One round: the timestamp decompressor reads, then the value decompressor. -/
def decompressPoint
    : EStateM CompressionError (BlockDecompressor × BitReader) (UInt64 × F64) := do
  let timestamp ← onFirst TimestampDecompressor.decompress
  let value ← onSecond ValueDecompressor.decompress
  pure (timestamp, value)

/-- The decompressors after an item, whatever became of its timestamp. -/
def BlockDecompressor.advance (self : BlockDecompressor) (item : Int64 × UInt64)
    : BlockDecompressor :=
  (self.1.advance (decodedDeltaOfDelta item.1), self.2.advance item.2)

/-- What a round returns for an item. -/
def BlockDecompressor.result (self : BlockDecompressor) (item : Int64 × UInt64)
    : UInt64 × F64 :=
  ((self.advance item).1.lastTimestamp, (self.advance item).2.lastValue)

/-- Each round reads one item: the codecs consume the bits that their counterparts wrote. -/
theorem BlockDecompressor.decodesItem
    : readerSource.DecodesItem (fun self => True ∧ self.2.FullWindow) decompressPoint pointBits
        BlockDecompressor.result BlockDecompressor.advance :=
  TimestampDecompressor.decodesItem.interleave ValueDecompressor.decodesItem

/-- The XORs of a block are those of its values. -/
theorem blockItems_xors (firstPoint : DataPoint) (rest : List DataPoint)
    : (blockItems firstPoint rest).map Prod.snd
      = outputs ValueCompressor.xor ValueCompressor.advance
          (ValueCompressor.new firstPoint.value) (rest.map DataPoint.value) :=
  map_outputs Prod.snd Prod.snd DataPoint.value (fun _ _ => rfl) (fun _ _ => rfl) _ rest

/-- The values that the rounds return for a block's items are the values of its points. -/
theorem decoded_values (firstPoint : DataPoint) (rest : List DataPoint)
    : (outputs BlockDecompressor.result BlockDecompressor.advance
          (BlockDecompressor.new firstPoint) (blockItems firstPoint rest)).map Prod.snd
      = rest.map DataPoint.value := by
  have values
      : (outputs BlockDecompressor.result BlockDecompressor.advance
            (BlockDecompressor.new firstPoint) (blockItems firstPoint rest)).map Prod.snd
        = outputs (fun self xor => (ValueDecompressor.advance self xor).lastValue)
            ValueDecompressor.advance (ValueDecompressor.new firstPoint.value)
            ((blockItems firstPoint rest).map Prod.snd) :=
    map_outputs Prod.snd Prod.snd Prod.snd (fun _ _ => rfl) (fun _ _ => rfl) _ _
  rw [values, blockItems_xors]
  exact ((ValueCompressor.new firstPoint.value).mirror_outputs (rest.map DataPoint.value)).1

/-- Alternating both decompressors over the stream of a block that holds a point never fails.
After every round the reader stands where the writer stood after the same points, and the
values returned so far are those of the points, whatever timestamps came with them.
-/
theorem blockStream_lockstep (self : TimeSeriesBlock) (firstPoint : DataPoint)
    (rest : List DataPoint)
    : ∃ compressed,
        { self with points := firstPoint :: rest }.compress = .ok compressed
        ∧ compressed.count = rest.length + 1
        ∧ ∀ rounds < compressed.count,
            ∃ encoders partialWriter results decoders,
              compressLoop (firstPoint :: rest.take rounds)
                  (BlockCompressor.new firstPoint, BitWriter.new)
                = .ok () (encoders, partialWriter)
              ∧ repeatCall decompressPoint rounds
                  (BlockDecompressor.new firstPoint, BitReader.new compressed.compressedData)
                = .ok results
                    (decoders,
                      {
                        buffer := compressed.compressedData
                        bitPosition := partialWriter.bitCount
                      })
              ∧ results.map Prod.snd = (rest.take rounds).map DataPoint.value := by
  obtain ⟨writer, written, lockstep⟩ := codec_lockstep BlockCompressor.encodesItem
    BlockDecompressor.decodesItem (BlockCompressor.new firstPoint)
    (BlockCompressor.aligned_new firstPoint) (BlockDecompressor.new firstPoint)
    ⟨trivial, rfl, rfl⟩ rest
  rw [← compressLoop_cons firstPoint] at written
  refine ⟨_, TimeSeriesBlock.compress_of_run rfl written, rfl, ?_⟩
  intro rounds within
  obtain ⟨partialWriter, partialWritten, decoded⟩ := lockstep rounds (Nat.le_of_lt_succ within)
  rw [← compressLoop_cons firstPoint] at partialWritten
  exact ⟨_, partialWriter, _, _, partialWritten, decoded,
    decoded_values firstPoint (rest.take rounds)⟩

end GorillaTsdb.Storage

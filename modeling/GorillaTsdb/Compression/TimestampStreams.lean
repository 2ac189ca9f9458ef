import GorillaTsdb.Compression.TimestampRoundTrip

/-! The finished bytes of a timestamp sequence determine the sequence.
What the decompressor gets wrong is therefore not lost in the bytes: a decoder that extends
every payload to the range of its bucket recovers all timestamps.
-/

namespace GorillaTsdb.Compression

open Foundations.TokenStreams
open Foundations.PrefixCodes

/-- Compress every timestamp and finish the writer. -/
def timestampStream (firstTimestamp : UInt64) (timestamps : List UInt64)
    : Except CompressionError (List UInt8) :=
  match forM timestamps TimestampCompressor.compress
      (TimestampCompressor.new firstTimestamp, BitWriter.new) with
  | .error error _ => .error error
  | .ok _ (_, writer) => .ok writer.finish

/-- The stream consists of the bits of the delta-of-deltas; no call fails. -/
theorem timestampStream_eq (firstTimestamp : UInt64) (timestamps : List UInt64)
    : timestampStream firstTimestamp timestamps
      = .ok
          (BitWriter.new.pushBits
            (((TimestampCompressor.new firstTimestamp).deltaOfDeltas timestamps).flatMap
              deltaOfDeltaBits)).finish := by
  have encoded := TimestampCompressor.encodesItem.forM
    (TimestampCompressor.new firstTimestamp) trivial timestamps BitWriter.new
  simp only [timestampStream, encoded, writerSink]
  rfl

/-- The delta-of-deltas of a sequence determine it, one timestamp after the other. -/
theorem TimestampCompressor.deltaOfDeltas_inj (compressor : TimestampCompressor)
    {left right : List UInt64}
    (same : compressor.deltaOfDeltas left = compressor.deltaOfDeltas right)
    : left = right := by
  have translated := (outputs_eq_iff_map id (fun first second => first = second)
    (by
      rintro state _ rfl item other
      exact (state.deltaOfDelta_inj item other).trans eq_comm)
    (by rintro state _ rfl item; rfl)
    (Eq.refl compressor) left right).mp same
  rw [List.map_id] at translated
  exact translated.symm

/-- The sequences in question: no subtraction overflows, and the exact delta-of-deltas lie in
the signed 32-bit range.
-/
structure NarrowTimestamps (firstTimestamp : UInt64) (timestamps : List UInt64) : Prop where
  noOverflow : NoOverflow firstTimestamp timestamps
  narrow
    : ∀ deltaOfDelta ∈ exactDeltaOfDeltas firstTimestamp timestamps,
        -2 ^ 31 ≤ deltaOfDelta ∧ deltaOfDelta < 2 ^ 31

/-- The delta-of-deltas that the compressor forms are the exact ones, so they are narrow. -/
theorem NarrowTimestamps.items_narrow {firstTimestamp : UInt64} {timestamps : List UInt64}
    (narrow : NarrowTimestamps firstTimestamp timestamps)
    : ∀ deltaOfDelta ∈ (TimestampCompressor.new firstTimestamp).deltaOfDeltas timestamps,
        -2 ^ 31 ≤ deltaOfDelta.toInt ∧ deltaOfDelta.toInt < 2 ^ 31 := by
  have formed : ((TimestampCompressor.new firstTimestamp).deltaOfDeltas timestamps).map
      Int64.toInt = exactDeltaOfDeltas firstTimestamp timestamps :=
    (TimestampCompressor.new firstTimestamp).deltaOfDeltas_exact timestamps
      narrow.noOverflow.1 narrow.noOverflow.2
  have range := narrow.narrow
  rwa [← formed, List.forall_mem_map] at range

/-- Equally long narrow sequences with the same stream are equal: the words of a prefix-free
code are cut apart in only one way, and the padding comes after them all.
-/
theorem NarrowTimestamps.eq_of_stream_eq {firstTimestamp : UInt64}
    {left right : List UInt64} (leftNarrow : NarrowTimestamps firstTimestamp left)
    (rightNarrow : NarrowTimestamps firstTimestamp right)
    (length : left.length = right.length)
    (same : timestampStream firstTimestamp left = timestampStream firstTimestamp right)
    : left = right := by
  rw [timestampStream_eq, timestampStream_eq, Except.ok.injEq] at same
  have stream := congrArg (fun bytes => readerSource.unread (BitReader.new bytes)) same
  simp only [unread_finish_pushBits] at stream
  have items := (deltaOfDeltaBits_prefixFree.flatMap leftNarrow.items_narrow
    rightNarrow.items_narrow (by simpa [TimestampCompressor.deltaOfDeltas] using length)
    stream).1
  exact (TimestampCompressor.new firstTimestamp).deltaOfDeltas_inj items

/-- Two narrow sequences of the same length with the same finished bytes are equal. So some
decoder recovers every narrow sequence from its first timestamp, its length and its bytes.
Witness: the decoder that returns the one sequence with these bytes.
-/
theorem timestampStream_uniquely_decodable
    : (∀ (firstTimestamp : UInt64) (left right : List UInt64),
          left.length = right.length
          → NarrowTimestamps firstTimestamp left
          → NarrowTimestamps firstTimestamp right
          → timestampStream firstTimestamp left = timestampStream firstTimestamp right
          → left = right)
      ∧ ∃ decode : UInt64 → Nat → List UInt8 → List UInt64,
          ∀ firstTimestamp timestamps,
            NarrowTimestamps firstTimestamp timestamps
            → ∃ bytes,
                timestampStream firstTimestamp timestamps = .ok bytes
                ∧ decode firstTimestamp timestamps.length bytes = timestamps := by
  refine ⟨fun _ _ _ length leftNarrow rightNarrow same =>
    leftNarrow.eq_of_stream_eq rightNarrow length same, ?_⟩
  let Written (firstTimestamp : UInt64) (count : Nat) (bytes : List UInt8)
      (timestamps : List UInt64) :=
    timestamps.length = count
    ∧ NarrowTimestamps firstTimestamp timestamps
    ∧ timestampStream firstTimestamp timestamps = .ok bytes
  refine ⟨fun firstTimestamp count bytes =>
    Classical.epsilon (Written firstTimestamp count bytes), ?_⟩
  intro firstTimestamp timestamps narrow
  have stream := timestampStream_eq firstTimestamp timestamps
  refine ⟨_, stream, ?_⟩
  obtain ⟨length, otherNarrow, written⟩ := Classical.epsilon_spec
    (p := Written firstTimestamp timestamps.length _) ⟨timestamps, rfl, narrow, stream⟩
  exact otherNarrow.eq_of_stream_eq narrow length (written.trans stream.symm)

/-- A jittery sequence and the one that the decompressor returns for it have different bytes. -/
theorem timestampStream_uniquely_decodable_sample
    : timestampStream 1000 [1010, 1015] ≠ timestampStream 1000 [1010, 1143] := by
  intro same
  have equal := timestampStream_uniquely_decodable.1 1000 [1010, 1015] [1010, 1143] rfl
    ⟨by decide, by decide⟩ ⟨by decide, by decide⟩ same
  exact absurd equal (by decide)

end GorillaTsdb.Compression

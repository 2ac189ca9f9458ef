import GorillaTsdb.Compression.TimestampRoundTrip

/-! Timestamps whose delta-of-delta does not fit the widest payload.
The last bucket takes every delta-of-delta that the others leave and keeps 32 bits of it, so a
jump that is too far is written as another one. No call ever fails.
-/

namespace GorillaTsdb.Compression

open Foundations.TokenStreams

/-- The delta-of-delta of a timestamp over the integers. -/
def TimestampCompressor.exactDeltaOfDelta (self : TimestampCompressor) (timestamp : UInt64)
    : Int :=
  asSigned timestamp - asSigned self.lastTimestamp - self.lastDelta.toInt

/-- In wrapping arithmetic, the compressor forms the exact delta-of-delta modulo `2 ^ 64`. -/
theorem TimestampCompressor.deltaOfDelta_eq (self : TimestampCompressor) (timestamp : UInt64)
    : self.deltaOfDelta timestamp = .ofInt (self.exactDeltaOfDelta timestamp) := by
  rw [TimestampCompressor.exactDeltaOfDelta, asSigned, asSigned, Int64.ofInt_sub, Int64.ofInt_sub,
    Int64.ofInt_toInt, Int64.ofInt_toInt, Int64.ofInt_toInt, TimestampCompressor.deltaOfDelta]

/-- A call refuses the timestamp and changes nothing, or it appends bits from which every
decompressor in the same state returns the timestamp, whatever bits come after them.
-/
def TimestampCompressor.Handles (self : TimestampCompressor) (timestamp : UInt64) : Prop :=
  ∀ writer,
    (∃ error,
      TimestampCompressor.compress timestamp (self, writer) = .error error (self, writer))
    ∨ ∃ after written bits,
        TimestampCompressor.compress timestamp (self, writer) = .ok () (after, written)
        ∧ written.bits = writer.bits ++ bits
        ∧ ∀ (decompressor : TimestampDecompressor) (reader : BitReader) (rest : List Bool),
            decompressor.Follows self
            → readerSource.unread reader = bits ++ rest
            → ∃ state,
                TimestampDecompressor.decompress (decompressor, reader) = .ok timestamp state

/-- The decompressor in the same state. -/
def TimestampCompressor.mirror (self : TimestampCompressor) : TimestampDecompressor where
  lastTimestamp := self.lastTimestamp
  lastDelta := self.lastDelta

theorem TimestampCompressor.mirror_follows (self : TimestampCompressor)
    : self.mirror.Follows self :=
  ⟨rfl, rfl⟩

/-- A timestamp is handled exactly if its delta-of-delta is read back as it was written: the
call never fails, and no other delta-of-delta leads to the timestamp.
-/
theorem TimestampCompressor.handles_iff_lossless (self : TimestampCompressor)
    (timestamp : UInt64)
    : self.Handles timestamp ↔ Lossless (self.deltaOfDelta timestamp) := by
  have compressed : writerSink.EmitsWith (TimestampCompressor.compress timestamp) self
      (deltaOfDeltaBits (self.deltaOfDelta timestamp)) () (self.advance timestamp) :=
    TimestampCompressor.encodesItem.emits trivial timestamp
  have decoded (decompressor : TimestampDecompressor)
      : readerSource.ReadsWith TimestampDecompressor.decompress decompressor
          (deltaOfDeltaBits (self.deltaOfDelta timestamp)) _ _ :=
    TimestampDecompressor.decodesItem.reads trivial (self.deltaOfDelta timestamp)
  rw [← decodedDeltaOfDelta_eq_iff]
  constructor
  · intro handles
    rcases handles BitWriter.new with ⟨error, failed⟩ | ⟨after, written, bits, ran, grown, reads⟩
    · cases failed.symm.trans (compressed BitWriter.new)
    · cases ran.symm.trans (compressed BitWriter.new)
      have same : bits = deltaOfDeltaBits (self.deltaOfDelta timestamp) := by
        simpa [writerSink, BitWriter.bits_pushBits] using grown.symm
      subst same
      have unread := unread_finish_pushBits (deltaOfDeltaBits (self.deltaOfDelta timestamp))
      obtain ⟨state, returned⟩ := reads self.mirror _ _ self.mirror_follows unread
      have result := returned.symm.trans (decoded self.mirror _ _ unread)
      exact (self.mirror_follows.advance_eq_iff timestamp _).mp
        (EStateM.Result.ok.inj result).1.symm
  · intro lossless writer
    refine Or.inr ⟨_, _, _, compressed writer, writer.bits_pushBits _, ?_⟩
    intro decompressor reader rest follows unread
    have result := decoded decompressor reader rest unread
    rw [lossless, (follows.advance timestamp).1] at result
    exact ⟨_, result⟩

/-- From every state, a timestamp is handled exactly if its delta-of-delta, in wrapping
arithmetic, is lossless. A jump out of the signed 32-bit range that does not wrap never is.
-/
theorem jump_handled_iff (compressor : TimestampCompressor) (timestamp : UInt64)
    : let exact := compressor.exactDeltaOfDelta timestamp
      (compressor.Handles timestamp ↔ Lossless (.ofInt exact))
      ∧ (FitsInt64 exact
        → exact < -2 ^ 31 ∨ 2 ^ 31 ≤ exact
        → ¬ compressor.Handles timestamp) := by
  intro exact
  have handled : compressor.Handles timestamp ↔ Lossless (.ofInt exact) := by
    rw [compressor.handles_iff_lossless, compressor.deltaOfDelta_eq]
  refine ⟨handled, ?_⟩
  intro fits far handles
  obtain ⟨-, -, -, low, high⟩ := handled.mp handles
  rw [Int64.toInt_ofInt_of_le fits.1 (by simpa using fits.2)] at low high
  omega

/-- The compressors that a run of calls leaves behind. -/
def TimestampCompressor.Reachable (self : TimestampCompressor) : Prop :=
  ∃ (firstTimestamp : UInt64) (timestamps : List UInt64) (writer : BitWriter),
    forM timestamps TimestampCompressor.compress
        (TimestampCompressor.new firstTimestamp, BitWriter.new)
      = .ok () (self, writer)

/-- A new compressor at 0 writes the jump to `2 ^ 31` as one to `-2 ^ 31`. -/
theorem far_jump_truncated
    : ¬ (∀ compressor : TimestampCompressor,
          compressor.Reachable
          → ∀ timestamp,
              compressor.exactDeltaOfDelta timestamp < -2 ^ 31
                ∨ 2 ^ 31 ≤ compressor.exactDeltaOfDelta timestamp
              → compressor.Handles timestamp) := by
  intro handled
  have handles := handled (TimestampCompressor.new 0) ⟨0, [], BitWriter.new, rfl⟩ 2147483648
    (by decide)
  rw [TimestampCompressor.handles_iff_lossless] at handles
  obtain ⟨-, -, -, -, high⟩ := handles
  exact absurd high (by decide)

end GorillaTsdb.Compression

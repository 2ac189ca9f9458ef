import GorillaTsdb.Compression.ValueCodec

/-! Every sequence of 64-bit patterns survives value compression bit for bit.
Compressor and decompressor hold the same fields after every value.
-/

namespace GorillaTsdb.Compression

open Foundations.TokenStreams

/-- The decompressor with the same fields as a compressor. -/
def ValueCompressor.mirror (self : ValueCompressor) : ValueDecompressor where
  lastValue := self.lastValue
  lastLeadingZeros := self.lastLeadingZeros
  lastTrailingZeros := self.lastTrailingZeros

/-- The XOR that the compressor formed leads the mirrored decompressor to the value. -/
theorem ValueCompressor.mirror_advance (self : ValueCompressor) (value : F64)
    : self.mirror.advance (self.xor value) = (self.advance value).mirror := by
  have restored : self.lastValue.toBits ^^^ (value.toBits ^^^ self.lastValue.toBits)
      = value.toBits := by
    rw [UInt64.xor_comm value.toBits, ← UInt64.xor_assoc, UInt64.xor_self, UInt64.zero_xor]
  simp only [ValueDecompressor.advance, ValueCompressor.mirror, ValueCompressor.xor,
    ValueCompressor.advance, restored, F64.fromBits]

/-- The items of a sequence are decoded as the sequence, and the mirrored states stay
mirrored, by induction on the sequence.
-/
theorem ValueCompressor.mirror_outputs (self : ValueCompressor) (values : List F64)
    : outputs (fun self xor => (ValueDecompressor.advance self xor).lastValue)
          ValueDecompressor.advance self.mirror
          (outputs ValueCompressor.xor ValueCompressor.advance self values)
        = values
      ∧ (outputs ValueCompressor.xor ValueCompressor.advance self values).foldl
            ValueDecompressor.advance self.mirror
          = (values.foldl ValueCompressor.advance self).mirror := by
  induction values generalizing self with
  | nil => exact ⟨rfl, rfl⟩
  | cons value rest ih =>
      obtain ⟨returned, states⟩ := ih (self.advance value)
      simp only [outputs, List.foldl_cons, self.mirror_advance, returned, states]
      exact ⟨rfl, trivial⟩

/-- Compressing any values and decompressing the finished stream returns them bit for bit.
After every number of values, including all of them, the decompressor has consumed exactly
the bits that the compressor had written for them and holds the same fields.
-/
theorem valueCodec_roundTrip (firstValue : F64) (values : List F64)
    : ∃ encoder writer,
        forM values ValueCompressor.compress (ValueCompressor.new firstValue, BitWriter.new)
          = .ok () (encoder, writer)
        ∧ ∀ count ≤ values.length,
            ∃ partialEncoder partialWriter,
              forM (values.take count) ValueCompressor.compress
                  (ValueCompressor.new firstValue, BitWriter.new)
                = .ok () (partialEncoder, partialWriter)
              ∧ repeatCall ValueDecompressor.decompress count
                  (ValueDecompressor.new firstValue, BitReader.new writer.finish)
                = .ok (values.take count)
                    (partialEncoder.mirror,
                      { buffer := writer.finish, bitPosition := partialWriter.bitCount }) := by
  obtain ⟨writer, written, lockstep⟩ := codec_lockstep ValueCompressor.encodesItem
    ValueDecompressor.decodesItem (ValueCompressor.new firstValue) ⟨rfl, rfl⟩
    (ValueCompressor.new firstValue).mirror ⟨rfl, rfl⟩ values
  refine ⟨_, writer, written, ?_⟩
  intro count within
  obtain ⟨partialWriter, partialWritten, decoded⟩ := lockstep count within
  obtain ⟨returned, states⟩ := (ValueCompressor.new firstValue).mirror_outputs
    (values.take count)
  rw [returned, states] at decoded
  exact ⟨_, partialWriter, partialWritten, decoded⟩

end GorillaTsdb.Compression

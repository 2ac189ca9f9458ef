import GorillaTsdb.Compression.BitIo
import GorillaTsdb.Core.DataModel
import GorillaTsdb.Foundations.PrefixCodes

/-! The XOR value codec and the bits that one value occupies.
Both window fields start at zero. Zero is also the widest window, so a compressor that starts
there never leaves it: the explicit-window form is dead code in every run.
-/

namespace GorillaTsdb.Compression

open Foundations.BitSequences
open Foundations.TokenStreams
open Foundations.PrefixCodes

/-- `usize` on a 64-bit target, with the wrapping arithmetic of a release build. -/
abbrev Usize := UInt64

/-- `u64::leading_zeros`. -/
def leadingZeros (word : UInt64) : Usize := .ofBitVec word.toBitVec.clz

/-- `u64::trailing_zeros`. -/
def trailingZeros (word : UInt64) : Usize := .ofBitVec word.toBitVec.ctz

structure ValueCompressor where
  lastValue : F64
  lastLeadingZeros : Usize
  lastTrailingZeros : Usize
  deriving DecidableEq, Repr

def ValueCompressor.new (firstValue : F64) : ValueCompressor where
  lastValue := firstValue
  lastLeadingZeros := 0
  lastTrailingZeros := 0

/-- The window forms of `ValueCompressor::compress`, after the leading one bit. -/
def ValueCompressor.writeXor (xor : UInt64)
    : EStateM CompressionError (ValueCompressor × BitWriter) Unit := do
  let self ← getFields
  let leading := leadingZeros xor
  let trailing := trailingZeros xor
  if leading ≥ self.lastLeadingZeros ∧ trailing ≥ self.lastTrailingZeros then
    onStream (BitWriter.writeBit 0)
    let meaningfulBits := 64 - self.lastLeadingZeros - self.lastTrailingZeros
    let shiftedXor := xor >>> self.lastTrailingZeros
    onStream (BitWriter.writeBits shiftedXor meaningfulBits.toNat)
  else
    onStream (BitWriter.writeBit 1)
    onStream (BitWriter.writeBits leading 5)
    let meaningfulBits := 64 - leading - trailing
    onStream (BitWriter.writeBits meaningfulBits 6)
    let shiftedXor := xor >>> trailing
    onStream (BitWriter.writeBits shiftedXor meaningfulBits.toNat)
    setFields { self with lastLeadingZeros := leading, lastTrailingZeros := trailing }

def ValueCompressor.compress (value : F64)
    : EStateM CompressionError (ValueCompressor × BitWriter) Unit := do
  let self ← getFields
  let currentBits := value.toBits
  let lastBits := self.lastValue.toBits
  if currentBits = lastBits then
    onStream (BitWriter.writeBit 0)
  else
    onStream (BitWriter.writeBit 1)
    ValueCompressor.writeXor (currentBits ^^^ lastBits)
    let self ← getFields
    setFields { self with lastValue := value }

structure ValueDecompressor where
  lastValue : F64
  lastLeadingZeros : Usize
  lastTrailingZeros : Usize
  deriving DecidableEq, Repr

def ValueDecompressor.new (firstValue : F64) : ValueDecompressor where
  lastValue := firstValue
  lastLeadingZeros := 0
  lastTrailingZeros := 0

/-- The window forms of `ValueDecompressor::decompress`, after the leading one bit.
A shift amount of 64 or more is masked, as a release build does.
-/
def ValueDecompressor.readXor
    : EStateM CompressionError (ValueDecompressor × BitReader) UInt64 := do
  let self ← getFields
  if (← onStream BitReader.readBit) == 0 then
    let meaningfulBits := 64 - self.lastLeadingZeros - self.lastTrailingZeros
    let shiftedXor ← onStream (BitReader.readBits meaningfulBits.toNat)
    pure (shiftedXor <<< self.lastTrailingZeros)
  else
    let leading ← onStream (BitReader.readBits 5)
    let meaningfulBits ← onStream (BitReader.readBits 6)
    let trailing := 64 - leading - meaningfulBits
    let shiftedXor ← onStream (BitReader.readBits meaningfulBits.toNat)
    setFields { self with lastLeadingZeros := leading, lastTrailingZeros := trailing }
    pure (shiftedXor <<< trailing)

def ValueDecompressor.decompress
    : EStateM CompressionError (ValueDecompressor × BitReader) F64 := do
  if (← onStream BitReader.readBit) == 0 then
    let self ← getFields
    pure self.lastValue
  else
    let xor ← ValueDecompressor.readXor
    let self ← getFields
    let currentBits := self.lastValue.toBits ^^^ xor
    let value := F64.fromBits currentBits
    setFields { self with lastValue := value }
    pure value

/-- The window that both sides start with: it covers the whole word. -/
def ValueCompressor.FullWindow (self : ValueCompressor) : Prop :=
  self.lastLeadingZeros = 0 ∧ self.lastTrailingZeros = 0

def ValueDecompressor.FullWindow (self : ValueDecompressor) : Prop :=
  self.lastLeadingZeros = 0 ∧ self.lastTrailingZeros = 0

/-- The bits of a value under the full window: its XOR with the last value, in full. -/
def xorBits (xor : UInt64) : List Bool :=
  if xor = 0 then [false] else [true] ++ ([false] ++ msbBits 64 xor.toNat)

/-- The XOR that `compress` forms for a value. -/
def ValueCompressor.xor (self : ValueCompressor) (value : F64) : UInt64 :=
  value.toBits ^^^ self.lastValue.toBits

def ValueCompressor.advance (self : ValueCompressor) (value : F64) : ValueCompressor :=
  { self with lastValue := value }

/-- The decompressor after an XOR; its last value is the one returned. -/
def ValueDecompressor.advance (self : ValueDecompressor) (xor : UInt64)
    : ValueDecompressor :=
  { self with lastValue := .fromBits (self.lastValue.toBits ^^^ xor) }

theorem F64.ext_bits {left right : F64} (same : left.toBits = right.toBits) : left = right := by
  cases left
  cases right
  exact congrArg F64.mk same

/-- The full window is reused for every changed value: no zero count is below zero. -/
theorem ValueCompressor.FullWindow.emits_writeXor {self : ValueCompressor}
    (window : self.FullWindow) (xor : UInt64)
    : writerSink.EmitsWith (ValueCompressor.writeXor xor) self
        ([false] ++ msbBits 64 xor.toNat) () self := by
  obtain ⟨leading, trailing⟩ := window
  refine Sink.EmitsWith.fields ?_
  have reuse : leadingZeros xor ≥ self.lastLeadingZeros
      ∧ trailingZeros xor ≥ self.lastTrailingZeros := by
    rw [leading, trailing]
    exact ⟨UInt64.zero_le, UInt64.zero_le⟩
  rw [if_pos reuse]
  refine ((BitWriter.emits_writeBit 0).onStream self).bind ?_
  have writes := (BitWriter.emits_writeBits (xor >>> 0) (Nat.le_refl 64)).onStream self
  simpa [leading, trailing] using writes

/-- A value is unchanged exactly if its XOR is zero. -/
theorem ValueCompressor.xor_eq_zero_iff (self : ValueCompressor) (value : F64)
    : self.xor value = 0 ↔ value.toBits = self.lastValue.toBits :=
  UInt64.xor_eq_zero_iff

/-- An unchanged value is a zero bit and leaves the state as it is. -/
theorem ValueCompressor.emits_unchanged {self : ValueCompressor} {value : F64}
    (zero : self.xor value = 0)
    : writerSink.EmitsWith (ValueCompressor.compress value) self [false] ()
        (self.advance value) := by
  have same := (self.xor_eq_zero_iff value).mp zero
  have unchanged : self.advance value = self := by
    rw [ValueCompressor.advance, F64.ext_bits same]
  refine Sink.EmitsWith.fields ?_
  rw [if_pos same, unchanged]
  exact (BitWriter.emits_writeBit 0).onStream self

/-- A changed value is a one bit and the bits of its XOR, whatever window they are cut to. -/
theorem ValueCompressor.emits_changed {self between : ValueCompressor} {value : F64}
    {bits : List Bool} (changed : self.xor value ≠ 0)
    (writes
      : writerSink.EmitsWith (ValueCompressor.writeXor (self.xor value)) self bits () between)
    : writerSink.EmitsWith (ValueCompressor.compress value) self ([true] ++ bits) ()
        (between.advance value) := by
  have different := mt (self.xor_eq_zero_iff value).mpr changed
  refine Sink.EmitsWith.fields ?_
  rw [if_neg different]
  refine ((BitWriter.emits_writeBit 1).onStream self).bind ?_
  refine Sink.EmitsWith.silent writes ?_
  exact Sink.EmitsWith.fields (writerSink.emitsWith_setFields between _)

/-- Under the full window every value is compressed as the bits of its XOR.
Witness: the XOR of an unchanged value is zero, and a changed one reuses the window.
-/
theorem ValueCompressor.encodesItem
    : writerSink.EncodesItem ValueCompressor.FullWindow ValueCompressor.compress xorBits
        ValueCompressor.xor ValueCompressor.advance where
  emits := by
    intro self window value
    by_cases zero : self.xor value = 0
    · rw [xorBits, if_pos zero]
      exact ValueCompressor.emits_unchanged zero
    · rw [xorBits, if_neg zero]
      exact ValueCompressor.emits_changed zero (window.emits_writeXor (self.xor value))
  keeps := fun window _ => window

/-- The full window is read back as a whole word. -/
theorem ValueDecompressor.FullWindow.reads_readXor {self : ValueDecompressor}
    (window : self.FullWindow) (xor : UInt64)
    : readerSource.ReadsWith ValueDecompressor.readXor self
        ([false] ++ msbBits 64 xor.toNat) xor self := by
  obtain ⟨leading, trailing⟩ := window
  refine Source.ReadsWith.fields ?_
  refine ((BitReader.reads_readBit false).onStream self).bind ?_
  have reads := (BitReader.reads_readBits 64 xor.toNat).onStream self
  have word : UInt64.ofNat (xor.toNat % 2 ^ 64) = xor := by
    rw [Nat.mod_eq_of_lt xor.toNat_lt, UInt64.ofNat_toNat]
  rw [word] at reads
  simpa [leading, trailing] using reads.silent (.pure readerSource self xor)

/-- A zero bit is read as the last value. -/
theorem ValueDecompressor.reads_unchanged (self : ValueDecompressor)
    : readerSource.ReadsWith ValueDecompressor.decompress self [false] self.lastValue self := by
  refine ((BitReader.reads_readBit false).onStream self).silent ?_
  exact Source.ReadsWith.fields (.pure readerSource _ _)

/-- A one bit is read as the last value changed by the XOR behind it. -/
theorem ValueDecompressor.reads_changed {self between : ValueDecompressor} {bits : List Bool}
    {xor : UInt64} (reads : readerSource.ReadsWith ValueDecompressor.readXor self bits xor between)
    : readerSource.ReadsWith ValueDecompressor.decompress self ([true] ++ bits)
        (between.advance xor).lastValue (between.advance xor) := by
  refine ((BitReader.reads_readBit true).onStream self).bind ?_
  refine Source.ReadsWith.silent reads ?_
  refine Source.ReadsWith.fields ?_
  exact (readerSource.readsWith_setFields between _).silent (.pure readerSource _ _)

/-- Under the full window every item is decompressed as the last value changed by its XOR. -/
theorem ValueDecompressor.decodesItem
    : readerSource.DecodesItem ValueDecompressor.FullWindow ValueDecompressor.decompress
        xorBits (fun self xor => (self.advance xor).lastValue) ValueDecompressor.advance where
  reads := by
    intro self window xor
    by_cases zero : xor = 0
    · have unchanged : self.advance xor = self := by
        simp [ValueDecompressor.advance, zero, F64.fromBits]
      rw [xorBits, if_pos zero, unchanged]
      exact self.reads_unchanged
    · rw [xorBits, if_neg zero]
      exact ValueDecompressor.reads_changed (window.reads_readXor xor)
  keeps := fun window _ => window

/-- An XOR is determined by its bits, since a changed value is written in full. -/
theorem xorBits_prefixFree : PrefixFree xorBits (fun _ => True) := by
  intro first second left right _ _ same
  unfold xorBits at same
  split at same <;> split at same
  case isTrue.isTrue zero other => exact ⟨zero.trans other.symm, (List.cons.inj same).2⟩
  case isTrue.isFalse => simp at same
  case isFalse.isTrue => simp at same
  case isFalse.isFalse =>
    simp only [List.cons_append, List.nil_append, List.cons.injEq, true_and] at same
    obtain ⟨words, rests⟩ := List.append_inj same (by simp)
    have values := mod_eq_of_msbBits_eq words
    rw [Nat.mod_eq_of_lt first.toNat_lt, Nat.mod_eq_of_lt second.toNat_lt] at values
    exact ⟨UInt64.toNat_inj.mp values, rests⟩

end GorillaTsdb.Compression

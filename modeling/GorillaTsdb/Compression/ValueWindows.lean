import GorillaTsdb.Compression.ValueCodec

/-! One step of the value codec from any window that both sides share.
The window forms are inverse to each other as long as the explicit form can hold its two counts:
it has five bits for the zeros in front and six for the meaningful bits. The window that a codec
starts with holds every XOR, so the explicit form is not needed there.
-/

namespace GorillaTsdb.Compression

open Foundations.BitSequences
open Foundations.TokenStreams

-----------------------------------------------------------------------------------------
-- Words inside a window
-----------------------------------------------------------------------------------------

/-- The ones of the word lie behind `leading` bits and in front of `trailing` ones. -/
structure InWindow (word : UInt64) (leading trailing : Nat) : Prop where
  narrow : word.toNat < 2 ^ (64 - leading)
  divides : 2 ^ trailing ∣ word.toNat

theorem toNat_lt_of_leadingZeros (word : UInt64)
    : word.toNat < 2 ^ (64 - (leadingZeros word).toNat) :=
  BitVec.toNat_lt_two_pow_sub_clz

theorem dvd_of_trailingZeros (word : UInt64)
    : 2 ^ (trailingZeros word).toNat ∣ word.toNat := by
  apply Nat.dvd_of_mod_eq_zero
  apply Nat.eq_of_testBit_eq
  intro index
  rw [Nat.testBit_mod_two_pow, Nat.zero_testBit]
  by_cases low : index < (trailingZeros word).toNat
  · have clear : word.toNat.testBit index = false := BitVec.getLsbD_false_of_lt_ctz low
    rw [clear, Bool.and_false]
  · rw [decide_eq_false low, Bool.false_and]

/-- A window that leaves out no more zeros than a word has at its ends holds the word. -/
theorem inWindow_of_counts {word : UInt64} {leading trailing : Nat}
    (front : leading ≤ (leadingZeros word).toNat) (back : trailing ≤ (trailingZeros word).toNat)
    : InWindow word leading trailing where
  narrow := (toNat_lt_of_leadingZeros word).trans_le
    (Nat.pow_le_pow_right Nat.two_pos (by omega))
  divides := (Nat.pow_dvd_pow 2 back).trans (dvd_of_trailingZeros word)

/-- The zeros at both ends of a word with a one in it leave room for that one. -/
theorem zeroCounts_lt {word : UInt64} (nonzero : word ≠ 0)
    : (leadingZeros word).toNat + (trailingZeros word).toNat ≤ 63 := by
  have positive : 0 < word.toNat := by
    rw [Nat.pos_iff_ne_zero]
    intro zero
    exact nonzero (UInt64.toNat_inj.mp zero)
  have low := Nat.le_of_dvd positive (dvd_of_trailingZeros word)
  have between := low.trans_lt (toNat_lt_of_leadingZeros word)
  have order := (Nat.pow_lt_pow_iff_right Nat.one_lt_two).mp between
  omega

/-- The number of bits in a window, as both sides compute it. -/
theorem toNat_windowWidth {leading trailing : Usize}
    (window : leading.toNat + trailing.toNat ≤ 64)
    : (64 - leading - trailing).toNat = 64 - leading.toNat - trailing.toNat := by
  have first : (64 - leading).toNat = 64 - leading.toNat := by
    apply UInt64.toNat_sub_of_le
    exact UInt64.le_iff_toNat_le.mpr (by change leading.toNat ≤ 64; omega)
  rw [← first]
  apply UInt64.toNat_sub_of_le
  exact UInt64.le_iff_toNat_le.mpr (by omega)

/-- A word is what its bits inside the window become when they are shifted back. -/
theorem InWindow.restored {word : UInt64} {leading trailing : Usize}
    (inside : InWindow word leading.toNat trailing.toNat)
    (window : leading.toNat + trailing.toNat ≤ 63)
    : UInt64.ofNat ((word >>> trailing).toNat % 2 ^ (64 - leading - trailing).toNat) <<< trailing
      = word := by
  have shift : (word >>> trailing).toNat = word.toNat / 2 ^ trailing.toNat := by
    rw [UInt64.toNat_shiftRight, Nat.shiftRight_eq_div_pow, Nat.mod_eq_of_lt (by omega)]
  have whole : word.toNat / 2 ^ trailing.toNat * 2 ^ trailing.toNat = word.toNat :=
    Nat.div_mul_cancel inside.divides
  have small : word.toNat / 2 ^ trailing.toNat < 2 ^ (64 - leading.toNat - trailing.toNat) := by
    apply Nat.div_lt_of_lt_mul
    rw [← Nat.pow_add]
    have width : trailing.toNat + (64 - leading.toNat - trailing.toNat) = 64 - leading.toNat := by
      omega
    rw [width]
    exact inside.narrow
  have fits : word.toNat / 2 ^ trailing.toNat < 2 ^ 64 :=
    (Nat.div_le_self _ _).trans_lt word.toNat_lt
  rw [toNat_windowWidth (by omega), shift, Nat.mod_eq_of_lt small]
  apply UInt64.toNat_inj.mp
  rw [UInt64.toNat_shiftLeft, UInt64.toNat_ofNat', Nat.mod_eq_of_lt fits, Nat.shiftLeft_eq,
    Nat.mod_eq_of_lt (by omega : trailing.toNat < 64), whole, Nat.mod_eq_of_lt word.toNat_lt]

-----------------------------------------------------------------------------------------
-- The two window forms
-----------------------------------------------------------------------------------------

/-- The last window holds the XOR, as the compressor tests it. -/
def ValueCompressor.Reuses (self : ValueCompressor) (xor : UInt64) : Prop :=
  leadingZeros xor ≥ self.lastLeadingZeros ∧ trailingZeros xor ≥ self.lastTrailingZeros

/-- The bits that a window of this size holds of the XOR. -/
def windowBits (leading trailing : Usize) (xor : UInt64) : List Bool :=
  msbBits (64 - leading - trailing).toNat (xor >>> trailing).toNat

/-- The window that the compressor takes over from an XOR that the last one does not hold. -/
def ValueCompressor.widen (self : ValueCompressor) (xor : UInt64) : ValueCompressor :=
  { self with lastLeadingZeros := leadingZeros xor, lastTrailingZeros := trailingZeros xor }

theorem length_windowBits_le {leading trailing : Usize}
    (window : leading.toNat + trailing.toNat ≤ 63)
    : (64 - leading - trailing).toNat ≤ 64 := by
  rw [toNat_windowWidth (by omega)]
  omega

/-- The reuse form is a zero bit and the bits of the last window. -/
theorem ValueCompressor.emits_reuse {self : ValueCompressor} {xor : UInt64}
    (window : self.lastLeadingZeros.toNat + self.lastTrailingZeros.toNat ≤ 63)
    (reuses : self.Reuses xor)
    : writerSink.EmitsWith (ValueCompressor.writeXor xor) self
        ([false] ++ windowBits self.lastLeadingZeros self.lastTrailingZeros xor) () self := by
  have condition : leadingZeros xor ≥ self.lastLeadingZeros
      ∧ trailingZeros xor ≥ self.lastTrailingZeros := reuses
  refine Sink.EmitsWith.fields ?_
  rw [if_pos condition]
  refine ((BitWriter.emits_writeBit 0).onStream self).bind ?_
  exact (BitWriter.emits_writeBits _ (length_windowBits_le window)).onStream self

/-- The explicit form is a one bit, five and six bits for the counts and the meaningful bits. -/
theorem ValueCompressor.emits_explicit {self : ValueCompressor} {xor : UInt64}
    (nonzero : xor ≠ 0) (outside : ¬ self.Reuses xor)
    : writerSink.EmitsWith (ValueCompressor.writeXor xor) self
        ([true]
          ++ (msbBits 5 (leadingZeros xor).toNat
            ++ (msbBits 6 (64 - leadingZeros xor - trailingZeros xor).toNat
              ++ windowBits (leadingZeros xor) (trailingZeros xor) xor)))
        () (self.widen xor) := by
  have condition : ¬ (leadingZeros xor ≥ self.lastLeadingZeros
      ∧ trailingZeros xor ≥ self.lastTrailingZeros) := outside
  refine Sink.EmitsWith.fields ?_
  rw [if_neg condition]
  refine ((BitWriter.emits_writeBit 1).onStream self).bind ?_
  refine ((BitWriter.emits_writeBits _ (by decide)).onStream self).bind ?_
  refine ((BitWriter.emits_writeBits _ (by decide)).onStream self).bind ?_
  have width := length_windowBits_le (zeroCounts_lt nonzero)
  refine ((BitWriter.emits_writeBits _ width).onStream self).silent ?_
  exact writerSink.emitsWith_setFields self _

/-- The reuse form is read as the bits of the last window, shifted back. -/
theorem ValueDecompressor.reads_reuse (self : ValueDecompressor) (xor : UInt64)
    : readerSource.ReadsWith ValueDecompressor.readXor self
        ([false] ++ windowBits self.lastLeadingZeros self.lastTrailingZeros xor)
        (UInt64.ofNat
            ((xor >>> self.lastTrailingZeros).toNat
              % 2 ^ (64 - self.lastLeadingZeros - self.lastTrailingZeros).toNat)
          <<< self.lastTrailingZeros)
        self := by
  refine Source.ReadsWith.fields ?_
  refine ((BitReader.reads_readBit false).onStream self).bind ?_
  exact ((BitReader.reads_readBits _ _).onStream self).silent (.pure readerSource self _)

/-- The explicit form is read as its counts say, each modulo what its bits can hold. -/
theorem ValueDecompressor.reads_explicit (self : ValueDecompressor)
    (leading meaningful payload : Nat)
    : let readLeading := UInt64.ofNat (leading % 2 ^ 5)
      let readMeaningful := UInt64.ofNat (meaningful % 2 ^ 6)
      let trailing := 64 - readLeading - readMeaningful
      readerSource.ReadsWith ValueDecompressor.readXor self
        ([true]
          ++ (msbBits 5 leading
            ++ (msbBits 6 meaningful ++ msbBits (meaningful % 2 ^ 6) payload)))
        (UInt64.ofNat (payload % 2 ^ (meaningful % 2 ^ 6)) <<< trailing)
        { self with lastLeadingZeros := readLeading, lastTrailingZeros := trailing } := by
  intro readLeading readMeaningful trailing
  have count : readMeaningful.toNat = meaningful % 2 ^ 6 := by
    apply UInt64.toNat_ofNat_of_lt'
    exact (Nat.mod_lt _ (Nat.two_pow_pos 6)).trans (by decide)
  rw [← count]
  refine Source.ReadsWith.fields ?_
  refine ((BitReader.reads_readBit true).onStream self).bind ?_
  refine ((BitReader.reads_readBits 5 leading).onStream self).bind ?_
  refine ((BitReader.reads_readBits 6 meaningful).onStream self).bind ?_
  refine ((BitReader.reads_readBits readMeaningful.toNat payload).onStream self).silent ?_
  exact (readerSource.readsWith_setFields self _).silent (.pure readerSource _ _)

-----------------------------------------------------------------------------------------
-- One step
-----------------------------------------------------------------------------------------

/-- Both sides hold the same last value and the same window. -/
structure Mirrors (encoder : ValueCompressor) (decoder : ValueDecompressor) : Prop where
  lastValue : encoder.lastValue.toBits = decoder.lastValue.toBits
  leading : encoder.lastLeadingZeros = decoder.lastLeadingZeros
  trailing : encoder.lastTrailingZeros = decoder.lastTrailingZeros

/-- Compressing a value and decompressing the bits that this appended returns the value, and both
sides still mirror each other. The writer may hold bits already, and others may follow.
-/
def StepInverts (encoder : ValueCompressor) (decoder : ValueDecompressor) (value : F64) : Prop :=
  ∀ writer, ∃ nextEncoder nextWriter bits,
    ValueCompressor.compress value (encoder, writer) = .ok () (nextEncoder, nextWriter)
    ∧ nextWriter.bits = writer.bits ++ bits
    ∧ ∀ reader rest,
        readerSource.unread reader = bits ++ rest
        → ∃ result nextDecoder nextReader,
            ValueDecompressor.decompress (decoder, reader)
              = .ok result (nextDecoder, nextReader)
            ∧ result.toBits = value.toBits
            ∧ Mirrors nextEncoder nextDecoder

/-- What a step does can be told from the bits it appends and what the decompressor makes of
them, which may be less than all of them.
-/
theorem stepInverts_iff_of_bits {encoder nextEncoder : ValueCompressor}
    {decoder nextDecoder : ValueDecompressor} {value result : F64} {taken left : List Bool}
    (emits
      : writerSink.EmitsWith (ValueCompressor.compress value) encoder (taken ++ left) ()
          nextEncoder)
    (reads
      : readerSource.ReadsWith ValueDecompressor.decompress decoder taken result nextDecoder)
    : StepInverts encoder decoder value
      ↔ result.toBits = value.toBits ∧ Mirrors nextEncoder nextDecoder := by
  constructor
  · intro inverts
    obtain ⟨_, _, bits, compressed, appended, decodes⟩ := inverts BitWriter.new
    cases (emits BitWriter.new).symm.trans compressed
    have same : bits = taken ++ left := by
      have written := BitWriter.new.bits_pushBits (taken ++ left)
      exact List.append_cancel_left (appended.symm.trans written)
    subst same
    have unread := unread_finish_pushBits (taken ++ left)
    obtain ⟨_, _, _, decompressed, bitwise, mirrors⟩ := decodes _ _ unread
    have first := reads _ _ (unread.trans (List.append_assoc ..))
    cases first.symm.trans decompressed
    exact ⟨bitwise, mirrors⟩
  · intro both writer
    obtain ⟨bitwise, mirrors⟩ := both
    refine ⟨_, _, _, emits writer, writer.bits_pushBits _, ?_⟩
    intro reader rest unread
    have ran := reads reader (left ++ rest) (unread.trans (List.append_assoc ..))
    exact ⟨_, _, _, ran, bitwise, mirrors⟩

/-- A step whose bits are all taken. -/
theorem stepInverts_iff {encoder nextEncoder : ValueCompressor}
    {decoder nextDecoder : ValueDecompressor} {value result : F64} {bits : List Bool}
    (emits
      : writerSink.EmitsWith (ValueCompressor.compress value) encoder bits () nextEncoder)
    (reads : readerSource.ReadsWith ValueDecompressor.decompress decoder bits result nextDecoder)
    : StepInverts encoder decoder value
      ↔ result.toBits = value.toBits ∧ Mirrors nextEncoder nextDecoder := by
  rw [← List.append_nil bits] at emits
  exact stepInverts_iff_of_bits emits reads

section Steps

variable {encoder : ValueCompressor} {decoder : ValueDecompressor} {value : F64}

/-- The decompressor undoes the XOR, since its last value is the compressor's. -/
theorem Mirrors.xor_undone (same : Mirrors encoder decoder)
    : decoder.lastValue.toBits ^^^ encoder.xor value = value.toBits := by
  rw [ValueCompressor.xor, same.lastValue, UInt64.xor_comm value.toBits, ← UInt64.xor_assoc,
    UInt64.xor_self, UInt64.zero_xor]

/-- An unchanged value leaves everything as it is. -/
theorem stepInverts_unchanged (same : Mirrors encoder decoder) (zero : encoder.xor value = 0)
    : StepInverts encoder decoder value := by
  have unchanged := (encoder.xor_eq_zero_iff value).mp zero
  refine (stepInverts_iff (ValueCompressor.emits_unchanged zero)
    decoder.reads_unchanged).mpr ⟨?_, ?_⟩
  · exact (unchanged.trans same.lastValue).symm
  · exact ⟨unchanged.trans same.lastValue, same.leading, same.trailing⟩

/-- The reuse form is inverted from every shared window that leaves room for a bit. -/
theorem stepInverts_reuse (same : Mirrors encoder decoder)
    (window : encoder.lastLeadingZeros.toNat + encoder.lastTrailingZeros.toNat ≤ 63)
    (nonzero : encoder.xor value ≠ 0) (reuses : encoder.Reuses (encoder.xor value))
    : StepInverts encoder decoder value := by
  have writes := ValueCompressor.emits_changed nonzero
    (ValueCompressor.emits_reuse window reuses)
  have inside : InWindow (encoder.xor value) encoder.lastLeadingZeros.toNat
      encoder.lastTrailingZeros.toNat :=
    inWindow_of_counts (UInt64.le_iff_toNat_le.mp reuses.1) (UInt64.le_iff_toNat_le.mp reuses.2)
  have reads := decoder.reads_reuse (encoder.xor value)
  rw [← same.leading, ← same.trailing, inside.restored window] at reads
  refine (stepInverts_iff writes (ValueDecompressor.reads_changed reads)).mpr ⟨?_, ?_⟩
  · exact same.xor_undone
  · exact ⟨same.xor_undone.symm, same.leading, same.trailing⟩

/-- Five bits hold the leading zeros of the XOR and six bits its meaningful bits. -/
def CountsFit (xor : UInt64) : Prop :=
  (leadingZeros xor).toNat < 2 ^ 5
  ∧ (64 - leadingZeros xor - trailingZeros xor).toNat < 2 ^ 6

section Explicit

variable {xor : UInt64} (formed : encoder.xor value = xor)

include formed

/-- A changed value whose XOR the last window does not hold is written in the explicit form. -/
theorem ValueCompressor.emits_widened (nonzero : xor ≠ 0) (outside : ¬ encoder.Reuses xor)
    : writerSink.EmitsWith (ValueCompressor.compress value) encoder
        ([true]
          ++ ([true]
            ++ (msbBits 5 (leadingZeros xor).toNat
              ++ (msbBits 6 (64 - leadingZeros xor - trailingZeros xor).toNat
                ++ windowBits (leadingZeros xor) (trailingZeros xor) xor))))
        () ((encoder.widen xor).advance value) := by
  subst formed
  exact ValueCompressor.emits_changed nonzero (ValueCompressor.emits_explicit nonzero outside)

/-- Where six bits hold the meaningful bits, the step is inverted exactly if five bits hold the
leading zeros. Otherwise the decompressor takes over another count of them.
-/
theorem stepInverts_short_iff (same : Mirrors encoder decoder) (nonzero : xor ≠ 0)
    (outside : ¬ encoder.Reuses xor)
    (short : (64 - leadingZeros xor - trailingZeros xor).toNat < 2 ^ 6)
    : StepInverts encoder decoder value ↔ (leadingZeros xor).toNat < 2 ^ 5 := by
  have writes := ValueCompressor.emits_widened formed nonzero outside
  have reads := ValueDecompressor.reads_changed
    (decoder.reads_explicit (leadingZeros xor).toNat
      (64 - leadingZeros xor - trailingZeros xor).toNat (xor >>> trailingZeros xor).toNat)
  rw [Nat.mod_eq_of_lt short, UInt64.ofNat_toNat] at reads
  rw [stepInverts_iff writes reads]
  constructor
  · intro both
    have kept := congrArg UInt64.toNat both.2.leading
    change (leadingZeros xor).toNat = (UInt64.ofNat _).toNat at kept
    rw [UInt64.toNat_ofNat'] at kept
    omega
  · intro few
    have front : UInt64.ofNat ((leadingZeros xor).toNat % 2 ^ 5) = leadingZeros xor := by
      rw [Nat.mod_eq_of_lt few, UInt64.ofNat_toNat]
    have back (leading trailing : UInt64)
        : 64 - leading - (64 - leading - trailing) = trailing := by
      grind
    have inside : InWindow xor (leadingZeros xor).toNat (trailingZeros xor).toNat :=
      inWindow_of_counts (Nat.le_refl _) (Nat.le_refl _)
    have undone : decoder.lastValue.toBits ^^^ encoder.xor value = value.toBits :=
      same.xor_undone
    rw [formed] at undone
    rw [front, back, inside.restored (zeroCounts_lt nonzero)]
    exact ⟨undone, undone.symm, rfl, rfl⟩

/-- Where every bit is meaningful, six bits stand for none: the decompressor leaves the word
unread and takes over another count of trailing zeros.
-/
theorem not_stepInverts_fullWord (nonzero : xor ≠ 0) (outside : ¬ encoder.Reuses xor)
    (full : ¬ (64 - leadingZeros xor - trailingZeros xor).toNat < 2 ^ 6)
    : ¬ StepInverts encoder decoder value := by
  intro inverts
  have writes := ValueCompressor.emits_widened formed nonzero outside
  have reads := ValueDecompressor.reads_changed
    (decoder.reads_explicit (leadingZeros xor).toNat
      (64 - leadingZeros xor - trailingZeros xor).toNat (xor >>> trailingZeros xor).toNat)
  have width := toNat_windowWidth (Nat.le_succ_of_le (zeroCounts_lt nonzero))
  have front : (leadingZeros xor).toNat = 0 := by omega
  have back : (trailingZeros xor).toNat = 0 := by omega
  have whole : (64 - leadingZeros xor - trailingZeros xor).toNat = 64 := by omega
  rw [front, whole] at reads writes
  have split
      : writerSink.EmitsWith (ValueCompressor.compress value) encoder
          ([true] ++ ([true] ++ (msbBits 5 0 ++ msbBits 6 64))
            ++ windowBits (leadingZeros xor) (trailingZeros xor) xor)
          () _ :=
    writes
  have mirrors := ((stepInverts_iff_of_bits split reads).mp inverts).2
  have kept := congrArg UInt64.toNat mirrors.trailing
  change (trailingZeros xor).toNat = 64 at kept
  omega

end Explicit

/-- The explicit form is inverted exactly if both counts fit. -/
theorem stepInverts_explicit_iff (same : Mirrors encoder decoder)
    (nonzero : encoder.xor value ≠ 0) (outside : ¬ encoder.Reuses (encoder.xor value))
    : StepInverts encoder decoder value ↔ CountsFit (encoder.xor value) := by
  by_cases short
      : (64 - leadingZeros (encoder.xor value) - trailingZeros (encoder.xor value)).toNat < 2 ^ 6
  · rw [stepInverts_short_iff rfl same nonzero outside short]
    exact (and_iff_left short).symm
  · refine iff_of_false (not_stepInverts_fullWord rfl nonzero outside short) ?_
    exact fun fits => short fits.2

/-- The form that the compressor chooses for the value can carry its XOR. -/
def ValueCompressor.Carries (self : ValueCompressor) (value : F64) : Prop :=
  value.toBits = self.lastValue.toBits
  ∨ self.Reuses (self.xor value)
  ∨ CountsFit (self.xor value)

theorem stepInverts_iff_of_window (same : Mirrors encoder decoder)
    (window : encoder.lastLeadingZeros.toNat + encoder.lastTrailingZeros.toNat ≤ 63)
    (value : F64)
    : StepInverts encoder decoder value ↔ encoder.Carries value := by
  unfold ValueCompressor.Carries
  rw [← encoder.xor_eq_zero_iff value]
  by_cases zero : encoder.xor value = 0
  · exact iff_of_true (stepInverts_unchanged same zero) (Or.inl zero)
  by_cases reuses : encoder.Reuses (encoder.xor value)
  · exact iff_of_true (stepInverts_reuse same window zero reuses) (Or.inr (Or.inl reuses))
  · rw [stepInverts_explicit_iff same zero reuses, or_iff_right zero, or_iff_right reuses]

/-- No zero count is below zero, so the full window holds every XOR. -/
theorem ValueCompressor.FullWindow.reuses (full : encoder.FullWindow) (xor : UInt64)
    : encoder.Reuses xor := by
  obtain ⟨leading, trailing⟩ := full
  rw [ValueCompressor.Reuses, leading, trailing]
  exact ⟨UInt64.zero_le, UInt64.zero_le⟩

/-- From every window that both sides share and that leaves room for a bit, a step is inverted
exactly if the value is unchanged, or its XOR lies in the window, or its counts fit. The full
window, which both sides start with, is kept by every step, and every step from it is inverted.
-/
theorem stepInverts_iff_carries (same : Mirrors encoder decoder)
    (window : encoder.lastLeadingZeros.toNat + encoder.lastTrailingZeros.toNat ≤ 63)
    (value : F64)
    : (StepInverts encoder decoder value ↔ encoder.Carries value)
      ∧ (∀ firstValue,
          (ValueCompressor.new firstValue).FullWindow
          ∧ (ValueDecompressor.new firstValue).FullWindow)
      ∧ (encoder.FullWindow
        → StepInverts encoder decoder value
          ∧ ∀ writer,
              ∃ nextEncoder nextWriter,
                ValueCompressor.compress value (encoder, writer)
                  = .ok () (nextEncoder, nextWriter)
                ∧ nextEncoder.FullWindow) := by
  have inverted := stepInverts_iff_of_window same window value
  refine ⟨inverted, fun _ => ⟨⟨rfl, rfl⟩, ⟨rfl, rfl⟩⟩, fun full => ⟨?_, fun writer => ?_⟩⟩
  · exact inverted.mpr (.inr (.inl (full.reuses _)))
  · exact ⟨_, _, ValueCompressor.encodesItem.emits full value writer,
      ValueCompressor.encodesItem.keeps full value⟩

end Steps

theorem stepInverts_iff_carries_example
    : StepInverts ⟨⟨0⟩, 16, 40⟩ ⟨⟨0⟩, 16, 40⟩ ⟨0x00ff000000000000⟩ := by
  have same : Mirrors ⟨⟨0⟩, 16, 40⟩ ⟨⟨0⟩, 16, 40⟩ := ⟨rfl, rfl, rfl⟩
  refine (stepInverts_iff_carries same (by decide) _).1.mpr (Or.inr (Or.inr ?_))
  exact ⟨by decide +kernel, by decide +kernel⟩

/-- Neither an XOR with 63 zeros in front nor one with 64 meaningful bits is carried by the
explicit form, into which a window without the last bit forces both.
-/
theorem explicit_form_not_inverted
    : ¬ StepInverts ⟨⟨0⟩, 0, 1⟩ ⟨⟨0⟩, 0, 1⟩ ⟨1⟩
      ∧ ¬ StepInverts ⟨⟨0⟩, 0, 1⟩ ⟨⟨0⟩, 0, 1⟩ ⟨0x8000000000000001⟩ := by
  have same : Mirrors ⟨⟨0⟩, 0, 1⟩ ⟨⟨0⟩, 0, 1⟩ := ⟨rfl, rfl, rfl⟩
  constructor
  · intro inverts
    have fits := (stepInverts_explicit_iff same (by decide) (by
      intro reuses
      exact absurd reuses.2 (by decide +kernel))).mp inverts
    exact absurd fits.1 (by decide +kernel)
  · intro inverts
    have fits := (stepInverts_explicit_iff same (by decide) (by
      intro reuses
      exact absurd reuses.2 (by decide +kernel))).mp inverts
    exact absurd fits.2 (by decide +kernel)

end GorillaTsdb.Compression

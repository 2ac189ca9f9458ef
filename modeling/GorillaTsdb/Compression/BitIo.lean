import GorillaTsdb.Foundations.BitSequences
import GorillaTsdb.Foundations.TokenStreams

/-! The bit writer and bit reader shared by both codecs, and the bit sequences they stand for.
`usize` counters are natural numbers: a stream of 2^61 bytes does not fit in memory.
-/

namespace GorillaTsdb.Compression

open Foundations.BitSequences
open Foundations.TokenStreams

inductive CompressionError where
  | invalidBitLength (length : Nat)
  | bufferOverflow
  | insufficientData
  | invalidFormat
  deriving DecidableEq, Repr

-----------------------------------------------------------------------------------------
-- BitWriter
-----------------------------------------------------------------------------------------

/-- The bytes written so far and the number of bits in them.
The fields are private to the writer, so its two invariants travel with it: the buffer has
exactly the bytes that the bits need, and the bits after the last written one are zero.
-/
structure BitWriter where
  buffer : List UInt8
  bitCount : Nat
  sized : buffer.length = (bitCount + 7) / 8
  padded : ∀ position, bitCount ≤ position → bitAt buffer position = false

def BitWriter.new : BitWriter where
  buffer := []
  bitCount := 0
  sized := rfl
  padded := by simp [bitAt]

/-- The buffer of `write_bit` after the push that makes room for the bit. -/
def BitWriter.room (self : BitWriter) : List UInt8 :=
  if self.bitCount % 8 = 0 then self.buffer ++ [0] else self.buffer

theorem BitWriter.room_length (self : BitWriter)
    : self.room.length = (self.bitCount + 1 + 7) / 8 := by
  have sized := self.sized
  unfold BitWriter.room
  split
  · simp only [List.length_append, List.length_singleton]
    omega
  · omega

theorem BitWriter.bitAt_room (self : BitWriter) (position : Nat)
    : bitAt self.room position = bitAt self.buffer position := by
  unfold BitWriter.room
  split
  · exact bitAt_append_zero self.buffer position
  · rfl

theorem BitWriter.room_holds_bit (self : BitWriter)
    : self.bitCount / 8 < self.room.length := by
  rw [self.room_length]
  omega

/-- The body of `write_bit`, for a bit that is already a truth value. -/
def BitWriter.pushBit (self : BitWriter) (bit : Bool) : BitWriter where
  buffer :=
    if bit then
      self.room.modify (self.bitCount / 8) (· ||| 1 <<< UInt8.ofNat (7 - self.bitCount % 8))
    else self.room
  bitCount := self.bitCount + 1
  sized := by
    split
    · rw [List.length_modify, self.room_length]
    · exact self.room_length
  padded := by
    intro position later
    have clear := self.padded position (by omega)
    split
    · rw [bitAt_setBit self.room_holds_bit, self.bitAt_room, clear]
      simpa using (by omega : position ≠ self.bitCount)
    · rw [self.bitAt_room, clear]

/-- `write_bit`: any non-zero byte writes a one. It always returns `Ok`. -/
def BitWriter.writeBit (bit : UInt8) : EStateM CompressionError BitWriter Unit :=
  fun self => .ok () (self.pushBit (bit != 0))

/-- `write_bits`: the loop over `(0..num_bits).rev()`. -/
def BitWriter.writeBits (value : UInt64) : Nat → EStateM CompressionError BitWriter Unit
  | 0 => pure ()
  | i + 1 => do
      BitWriter.writeBit ((value >>> UInt64.ofNat i) &&& 1).toUInt8
      BitWriter.writeBits value i

def BitWriter.finish (self : BitWriter) : List UInt8 := self.buffer

/-- The bits written so far, in writing order. -/
def BitWriter.bits (self : BitWriter) : List Bool :=
  leadingBits self.buffer self.bitCount

/-- Writing a bit sequence, one bit at a time. -/
def BitWriter.pushBits (self : BitWriter) (bits : List Bool) : BitWriter :=
  bits.foldl BitWriter.pushBit self

/-- A writer is a sink of bits. -/
def writerSink : Sink BitWriter Bool where
  push := BitWriter.pushBits
  push_nil := fun _ => rfl
  push_append := by intro writer left right; simp [BitWriter.pushBits]

@[simp]
theorem BitWriter.bits_new : BitWriter.new.bits = [] := rfl

@[simp]
theorem BitWriter.bitCount_new : BitWriter.new.bitCount = 0 := rfl

/-- A pushed bit is appended and no earlier bit changes. -/
theorem BitWriter.bits_pushBit (self : BitWriter) (bit : Bool)
    : (self.pushBit bit).bits = self.bits ++ [bit] := by
  have last : bitAt (self.pushBit bit).buffer self.bitCount = bit := by
    have clear := self.padded self.bitCount (Nat.le_refl _)
    cases bit
    · simpa [BitWriter.pushBit, self.bitAt_room] using clear
    · simp [BitWriter.pushBit, bitAt_setBit self.room_holds_bit]
  have earlier : leadingBits (self.pushBit bit).buffer self.bitCount = self.bits := by
    apply leadingBits_congr
    intro position before
    cases bit
    · simp [BitWriter.pushBit, self.bitAt_room]
    · simp [BitWriter.pushBit, bitAt_setBit self.room_holds_bit, self.bitAt_room,
        Nat.ne_of_lt before]
  unfold BitWriter.bits
  rw [show (self.pushBit bit).bitCount = self.bitCount + 1 from rfl, leadingBits_succ, last,
    earlier, BitWriter.bits]

/-- Pushed sequences are appended, by induction on the sequence. -/
theorem BitWriter.bits_pushBits (self : BitWriter) (bits : List Bool)
    : (self.pushBits bits).bits = self.bits ++ bits := by
  induction bits generalizing self with
  | nil => simp [BitWriter.pushBits]
  | cons bit rest ih =>
      have step := ih (self.pushBit bit)
      rw [self.bits_pushBit, List.append_assoc] at step
      exact step

@[simp]
theorem BitWriter.bitCount_pushBits (self : BitWriter) (bits : List Bool)
    : (self.pushBits bits).bitCount = self.bitCount + bits.length := by
  have count := congrArg List.length (self.bits_pushBits bits)
  simpa [BitWriter.bits] using count

/-- The finished bytes are the written bits and less than a byte of zero padding. -/
theorem BitWriter.unpack_finish (self : BitWriter)
    : unpack self.finish
      = self.bits ++ List.replicate (8 * self.finish.length - self.bitCount) false := by
  have sized := self.sized
  have within : self.bitCount ≤ 8 * self.buffer.length := by omega
  exact unpack_padded within self.padded

/-- One bit of a word, as `write_bits` extracts it. -/
theorem extractBit (value : UInt64) {index : Nat} (small : index < 64)
    : ((((value >>> UInt64.ofNat index) &&& 1).toUInt8) != 0) = value.toNat.testBit index := by
  have shifted
      : ((value >>> UInt64.ofNat index) &&& 1).toUInt8.toNat
        = (value.toNat.testBit index).toNat := by
    rw [Nat.toNat_testBit]
    simp only [UInt64.toNat_toUInt8, UInt64.toNat_and, UInt64.toNat_shiftRight,
      UInt64.toNat_ofNat', UInt64.reduceToNat, Nat.and_one_is_mod,
      Nat.shiftRight_eq_div_pow]
    rw [Nat.mod_eq_of_lt (by omega : index < 2 ^ 64), Nat.mod_eq_of_lt small]
    omega
  cases expected : value.toNat.testBit index
  · have zero : ((value >>> UInt64.ofNat index) &&& 1).toUInt8 = 0 := by
      apply UInt8.toNat_inj.mp
      rw [shifted, expected]
      rfl
    simp [zero]
  · have one : ((value >>> UInt64.ofNat index) &&& 1).toUInt8 = 1 := by
      apply UInt8.toNat_inj.mp
      rw [shifted, expected]
      rfl
    simp [one]

/-- `write_bit` appends its bit. -/
theorem BitWriter.emits_writeBit (bit : UInt8)
    : writerSink.Emits (BitWriter.writeBit bit) [bit != 0] :=
  fun _ => rfl

/-- `write_bits` appends the low bits of its value, most significant first, by induction on
the width.
-/
theorem BitWriter.emits_writeBits (value : UInt64) {numBits : Nat} (small : numBits ≤ 64)
    : writerSink.Emits (BitWriter.writeBits value numBits) (msbBits numBits value.toNat) := by
  induction numBits with
  | zero => exact .pure writerSink
  | succ i ih =>
      have bit := BitWriter.emits_writeBit ((value >>> UInt64.ofNat i) &&& 1).toUInt8
      rw [extractBit value small] at bit
      exact bit.bind (ih (Nat.le_of_succ_le small))

-----------------------------------------------------------------------------------------
-- BitReader
-----------------------------------------------------------------------------------------

structure BitReader where
  buffer : List UInt8
  bitPosition : Nat
  deriving DecidableEq, Repr

def BitReader.new (buffer : List UInt8) : BitReader := { buffer, bitPosition := 0 }

/-- `read_bit`; the guard keeps the byte index inside the buffer. -/
def BitReader.readBit : EStateM CompressionError BitReader UInt8 := fun self =>
  if self.bitPosition ≥ self.buffer.length * 8 then .error .insufficientData self
  else
    let byteIndex := self.bitPosition / 8
    let bitIndex := 7 - self.bitPosition % 8
    let bit := (self.buffer.getD byteIndex 0 >>> UInt8.ofNat bitIndex) &&& 1
    .ok bit { self with bitPosition := self.bitPosition + 1 }

/-- The loop of `read_bits`, with the value read so far. -/
def BitReader.readBitsLoop : Nat → UInt64 → EStateM CompressionError BitReader UInt64
  | 0, value => pure value
  | numBits + 1, value => do
      let bit ← BitReader.readBit
      BitReader.readBitsLoop numBits ((value <<< 1) ||| bit.toUInt64)

def BitReader.readBits (numBits : Nat) : EStateM CompressionError BitReader UInt64 :=
  BitReader.readBitsLoop numBits 0

/-- The loop of `peek_bits`, with the position it looks at and the value read so far. -/
def BitReader.peekBitsLoop (self : BitReader)
    : Nat → Nat → UInt64 → Except CompressionError UInt64
  | 0, _, value => .ok value
  | numBits + 1, pos, value =>
      if pos ≥ self.buffer.length * 8 then .error .insufficientData
      else
        let byteIndex := pos / 8
        let bitIndex := 7 - pos % 8
        let bit := (self.buffer.getD byteIndex 0 >>> UInt8.ofNat bitIndex) &&& 1
        self.peekBitsLoop numBits (pos + 1) ((value <<< 1) ||| bit.toUInt64)

/-- `peek_bits` borrows the reader, so it has no new position to return. -/
def BitReader.peekBits (self : BitReader) (numBits : Nat) : Except CompressionError UInt64 :=
  self.peekBitsLoop numBits self.bitPosition 0

/-- A reader is a source of bits. -/
def readerSource : Source BitReader Bool where
  unread := fun reader => (unpack reader.buffer).drop reader.bitPosition
  advance := fun reader count => { reader with bitPosition := reader.bitPosition + count }
  unread_advance := by intro reader count; simp
  advance_zero := by intro reader; rfl
  advance_advance := by intro reader first second; simp [Nat.add_assoc]

/-- A fresh reader over a finished writer sees the written bits and the padding. -/
theorem unread_finish (writer : BitWriter)
    : readerSource.unread (BitReader.new writer.finish)
      = writer.bits
        ++ List.replicate (8 * writer.finish.length - writer.bitCount) false :=
  writer.unpack_finish

/-- A fresh reader over finished bits sees these bits in front of the padding. -/
theorem unread_finish_pushBits (bits : List Bool)
    : readerSource.unread (BitReader.new (BitWriter.new.pushBits bits).finish)
      = bits
        ++ List.replicate (8 * (BitWriter.new.pushBits bits).finish.length - bits.length)
            false := by
  rw [unread_finish, BitWriter.bits_pushBits, BitWriter.bitCount_pushBits, BitWriter.bits_new,
    BitWriter.bitCount_new, List.nil_append, Nat.zero_add]

/-- One bit of a byte, as `read_bit` extracts it. -/
theorem shiftedBit (byte : UInt8) {index : Nat} (small : index < 8)
    : (byte >>> UInt8.ofNat index) &&& 1 = if byte.toNat.testBit index then 1 else 0 := by
  apply UInt8.toNat_inj.mp
  have extracted
      : ((byte >>> UInt8.ofNat index) &&& 1).toNat = (byte.toNat.testBit index).toNat := by
    rw [Nat.toNat_testBit]
    simp only [UInt8.toNat_and, UInt8.toNat_shiftRight, UInt8.toNat_ofNat',
      UInt8.reduceToNat, Nat.and_one_is_mod, Nat.shiftRight_eq_div_pow]
    rw [Nat.mod_eq_of_lt (by omega : index < 2 ^ 8), Nat.mod_eq_of_lt small]
  rw [extracted]
  cases byte.toNat.testBit index <;> rfl

/-- `read_bit` fails at the end of the buffer and stays there. -/
theorem BitReader.readBit_past {self : BitReader}
    (past : self.bitPosition ≥ self.buffer.length * 8)
    : BitReader.readBit self = .error .insufficientData self :=
  if_pos past

/-- `read_bit` returns the next unread bit as a byte. -/
theorem BitReader.reads_readBit (bit : Bool)
    : readerSource.Reads BitReader.readBit [bit] (if bit then 1 else 0) := by
  intro reader rest unread
  have inside : reader.bitPosition < 8 * reader.buffer.length := by
    by_contra outside
    have empty : readerSource.unread reader = [] := by
      simpa [readerSource, List.drop_eq_nil_iff] using Nat.le_of_not_lt outside
    rw [empty] at unread
    exact absurd unread (by simp)
  have first : bitAt reader.buffer reader.bitPosition = bit := by
    have split := unpack_drop inside
    exact (List.cons.inj (split.symm.trans unread)).1
  unfold BitReader.readBit
  rw [if_neg (by omega)]
  simp only [shiftedBit _ (by omega : 7 - reader.bitPosition % 8 < 8)]
  unfold bitAt at first
  rw [first]
  rfl

/-- Appending a bit to a word doubles it and adds the bit. -/
theorem appendBit (value : Nat) (bit : Bool)
    : (UInt64.ofNat value <<< 1) ||| (if bit then 1 else 0 : UInt8).toUInt64
      = UInt64.ofNat (2 * value + bit.toNat) := by
  have doubled : (UInt64.ofNat value <<< 1).toNat = 2 ^ 1 * (value % 2 ^ 63) := by
    simp only [UInt64.toNat_shiftLeft, UInt64.toNat_ofNat', UInt64.reduceToNat,
      Nat.shiftLeft_eq, Nat.reduceMod, Nat.pow_one]
    omega
  have small : (if bit then 1 else 0 : UInt8).toUInt64.toNat = bit.toNat := by
    cases bit <;> rfl
  have narrow : bit.toNat < 2 ^ 1 := bit.toNat_lt
  apply UInt64.toNat_inj.mp
  rw [UInt64.toNat_or, doubled, small, ← Nat.two_pow_add_eq_or_of_lt narrow,
    UInt64.toNat_ofNat']
  omega

/-- The loop of `read_bits` accumulates the bits it reads, by induction on the bits. -/
theorem BitReader.reads_readBitsLoop (bits : List Bool) (value : Nat)
    : readerSource.Reads (BitReader.readBitsLoop bits.length (UInt64.ofNat value)) bits
        (UInt64.ofNat (accumulate value bits)) := by
  induction bits generalizing value with
  | nil => exact .pure readerSource _
  | cons bit rest ih =>
      have step := ih (2 * value + bit.toNat)
      rw [← appendBit] at step
      exact (BitReader.reads_readBit bit).bind step

/-- `read_bits` returns the number that the next unread bits stand for. -/
theorem BitReader.reads_readBits (numBits value : Nat)
    : readerSource.Reads (BitReader.readBits numBits) (msbBits numBits value)
        (UInt64.ofNat (value % 2 ^ numBits)) := by
  have loop := BitReader.reads_readBitsLoop (msbBits numBits value) 0
  rw [length_msbBits, accumulate_msbBits, Nat.zero_mul, Nat.zero_add] at loop
  exact loop

-----------------------------------------------------------------------------------------
-- Codecs over one finished stream
-----------------------------------------------------------------------------------------

section Codecs

variable {κ δ ι α β : Type}
  {encodable : κ → Prop} {decodable : δ → Prop} {code : ι → List Bool}
  {compress : α → EStateM CompressionError (κ × BitWriter) Unit}
  {item : κ → α → ι} {encoderNext : κ → α → κ}
  {decompress : EStateM CompressionError (δ × BitReader) β}
  {value : δ → ι → β} {decoderNext : δ → ι → δ}

/-- A decoder of the encoder's items stays aligned on the finished stream of a whole run:
after any number of calls it stands where the encoder stood after as many calls, and its
results are those of the encoder's items.
Witness: the items of a prefix of the inputs are a prefix of the items.
-/
theorem codec_lockstep
    (encodes : writerSink.EncodesItem encodable compress code item encoderNext)
    (decodes : readerSource.DecodesItem decodable decompress code value decoderNext)
    (encoder : κ) (encoderInside : encodable encoder)
    (decoder : δ) (decoderInside : decodable decoder) (inputs : List α)
    : ∃ writer,
        forM inputs compress (encoder, BitWriter.new)
          = .ok () (inputs.foldl encoderNext encoder, writer)
        ∧ ∀ count ≤ inputs.length,
            ∃ partialWriter,
              forM (inputs.take count) compress (encoder, BitWriter.new)
                = .ok () ((inputs.take count).foldl encoderNext encoder, partialWriter)
              ∧ repeatCall decompress count (decoder, BitReader.new writer.finish)
                = .ok
                    (outputs value decoderNext decoder
                      (outputs item encoderNext encoder (inputs.take count)))
                    ((outputs item encoderNext encoder (inputs.take count)).foldl
                        decoderNext decoder,
                      { buffer := writer.finish, bitPosition := partialWriter.bitCount }) := by
  refine ⟨_, encodes.forM encoder encoderInside inputs BitWriter.new, ?_⟩
  intro count within
  refine ⟨_, encodes.forM encoder encoderInside (inputs.take count) BitWriter.new, ?_⟩
  have length : (outputs item encoderNext encoder (inputs.take count)).length = count := by
    simpa using within
  have stream
      : (outputs item encoderNext encoder inputs).flatMap code
        = (outputs item encoderNext encoder (inputs.take count)).flatMap code
          ++ ((outputs item encoderNext encoder inputs).drop count).flatMap code := by
    rw [outputs_take, ← List.flatMap_append, List.take_append_drop]
  have unread := unread_finish_pushBits ((outputs item encoderNext encoder inputs).flatMap code)
  have ahead := unread.trans ((congrArg (· ++ _) stream).trans (List.append_assoc ..))
  have decoded := decodes.repeatCall decoder decoderInside
    (outputs item encoderNext encoder (inputs.take count)) _ _ ahead
  rw [length] at decoded
  simp only [writerSink, BitWriter.bitCount_pushBits, BitWriter.bitCount_new]
  exact decoded

end Codecs

end GorillaTsdb.Compression

import GorillaTsdb.Compression.BitIo
import GorillaTsdb.Foundations.PrefixCodes
import GorillaTsdb.Foundations.SignedWords

/-! The delta-of-delta timestamp codec and the bits that one delta-of-delta occupies.
Arithmetic wraps, as in a release build; `Int64` and the unsigned types wrap the same way.
-/

namespace GorillaTsdb.Compression

open Foundations.BitSequences
open Foundations.TokenStreams
open Foundations.PrefixCodes
open Foundations.SignedWords

-----------------------------------------------------------------------------------------
-- TimestampCompressor
-----------------------------------------------------------------------------------------

structure TimestampCompressor where
  lastTimestamp : UInt64
  lastDelta : Int64
  deriving DecidableEq, Repr

def TimestampCompressor.new (firstTimestamp : UInt64) : TimestampCompressor where
  lastTimestamp := firstTimestamp
  lastDelta := 0

/-- The `if` chain of `TimestampCompressor::compress`. -/
def writeDeltaOfDelta (deltaOfDelta : Int64) : EStateM CompressionError BitWriter Unit :=
  if deltaOfDelta = 0 then
    BitWriter.writeBit 0
  else if deltaOfDelta ≥ -63 ∧ deltaOfDelta ≤ 64 then do
    BitWriter.writeBits 0b10 2
    BitWriter.writeBits (deltaOfDelta.toUInt64.toUInt8.toUInt64 &&& 0x7F) 7
  else if deltaOfDelta ≥ -255 ∧ deltaOfDelta ≤ 256 then do
    BitWriter.writeBits 0b110 3
    BitWriter.writeBits (deltaOfDelta.toUInt64.toUInt16.toUInt64 &&& 0x1FF) 9
  else if deltaOfDelta ≥ -2047 ∧ deltaOfDelta ≤ 2048 then do
    BitWriter.writeBits 0b1110 4
    BitWriter.writeBits (deltaOfDelta.toUInt64.toUInt16.toUInt64 &&& 0xFFF) 12
  else do
    BitWriter.writeBits 0b1111 4
    BitWriter.writeBits deltaOfDelta.toUInt64.toUInt32.toUInt64 32

def TimestampCompressor.compress (timestamp : UInt64)
    : EStateM CompressionError (TimestampCompressor × BitWriter) Unit := do
  let self ← getFields
  let delta := timestamp.toInt64 - self.lastTimestamp.toInt64
  let deltaOfDelta := delta - self.lastDelta
  onStream (writeDeltaOfDelta deltaOfDelta)
  setFields { self with lastTimestamp := timestamp, lastDelta := delta }

-----------------------------------------------------------------------------------------
-- TimestampDecompressor
-----------------------------------------------------------------------------------------

structure TimestampDecompressor where
  lastTimestamp : UInt64
  lastDelta : Int64
  deriving DecidableEq, Repr

def TimestampDecompressor.new (firstTimestamp : UInt64) : TimestampDecompressor where
  lastTimestamp := firstTimestamp
  lastDelta := 0

/-- The nested reads of `TimestampDecompressor::decompress`.
The nine- and twelve-bit payloads are sign-extended by hand, the seven-bit one is not.
-/
def readDeltaOfDelta : EStateM CompressionError BitReader Int64 := do
  if (← BitReader.readBit) == 0 then
    pure 0
  else
    let nextBit ← BitReader.readBit
    if nextBit == 0 then
      let bits := (← BitReader.readBits 7).toUInt8
      pure bits.toInt8.toInt64
    else
      let nextBit ← BitReader.readBit
      if nextBit == 0 then
        let bits := (← BitReader.readBits 9).toUInt16
        if bits &&& 0x100 != 0 then
          pure (bits ||| 0xFE00).toInt16.toInt64
        else
          pure bits.toInt16.toInt64
      else
        let nextBit ← BitReader.readBit
        if nextBit == 0 then
          let bits := (← BitReader.readBits 12).toUInt16
          if bits &&& 0x800 != 0 then
            pure (bits ||| 0xF000).toInt16.toInt64
          else
            pure bits.toInt16.toInt64
        else
          pure (← BitReader.readBits 32).toUInt32.toInt32.toInt64

def TimestampDecompressor.decompress
    : EStateM CompressionError (TimestampDecompressor × BitReader) UInt64 := do
  let self ← getFields
  let deltaOfDelta ← onStream readDeltaOfDelta
  let delta := self.lastDelta + deltaOfDelta
  let timestamp := (self.lastTimestamp.toInt64 + delta).toUInt64
  setFields { self with lastTimestamp := timestamp, lastDelta := delta }
  pure timestamp

-----------------------------------------------------------------------------------------
-- The five buckets
-----------------------------------------------------------------------------------------

/-- The five item shapes, named by their payload width. -/
inductive Bucket where
  | zero
  | seven
  | nine
  | twelve
  | full
  deriving DecidableEq, Repr

def Bucket.header : Bucket → List Bool
  | .zero => [false]
  | .seven => [true, false]
  | .nine => [true, true, false]
  | .twelve => [true, true, true, false]
  | .full => [true, true, true, true]

def Bucket.width : Bucket → Nat
  | .zero => 0
  | .seven => 7
  | .nine => 9
  | .twelve => 12
  | .full => 32

/-- What the decompressor makes of a payload. -/
def Bucket.extend : Bucket → Nat → Int64
  | .zero, _ => 0
  | .seven, payload => .ofNat payload
  | .nine, payload => .ofInt ((payload : Int).bmod (2 ^ 9))
  | .twelve, payload => .ofInt ((payload : Int).bmod (2 ^ 12))
  | .full, payload => .ofInt ((payload : Int).bmod (2 ^ 32))

/-- The bucket that the compressor chooses. -/
def bucketOf (deltaOfDelta : Int64) : Bucket :=
  if deltaOfDelta = 0 then .zero
  else if deltaOfDelta ≥ -63 ∧ deltaOfDelta ≤ 64 then .seven
  else if deltaOfDelta ≥ -255 ∧ deltaOfDelta ≤ 256 then .nine
  else if deltaOfDelta ≥ -2047 ∧ deltaOfDelta ≤ 2048 then .twelve
  else .full

/-- The bits of an item: the bucket's header, then the payload modulo its width. -/
def Bucket.item (bucket : Bucket) (payload : Nat) : List Bool :=
  bucket.header ++ msbBits bucket.width payload

def deltaOfDeltaBits (deltaOfDelta : Int64) : List Bool :=
  (bucketOf deltaOfDelta).item deltaOfDelta.toUInt64.toNat

/-- The delta-of-delta that the decompressor reads where the compressor wrote this one. -/
def decodedDeltaOfDelta (deltaOfDelta : Int64) : Int64 :=
  (bucketOf deltaOfDelta).extend
    (deltaOfDelta.toUInt64.toNat % 2 ^ (bucketOf deltaOfDelta).width)

/-- Writing a masked payload writes the payload: the mask keeps every written bit. -/
theorem emits_payload {value : UInt64} {width payload : Nat} (small : width ≤ 64)
    (masked : value.toNat % 2 ^ width = payload % 2 ^ width)
    : writerSink.Emits (BitWriter.writeBits value width) (msbBits width payload) := by
  have writes := BitWriter.emits_writeBits value small
  rwa [← msbBits_mod value.toNat (Nat.le_refl width), masked,
    msbBits_mod payload (Nat.le_refl width)] at writes

/-- The compressor writes the header and the payload of the bucket it chooses. -/
theorem emits_writeDeltaOfDelta (deltaOfDelta : Int64)
    : writerSink.Emits (writeDeltaOfDelta deltaOfDelta) (deltaOfDeltaBits deltaOfDelta) := by
  unfold writeDeltaOfDelta deltaOfDeltaBits bucketOf
  split
  · exact BitWriter.emits_writeBit 0
  split
  · refine (BitWriter.emits_writeBits 0b10 (by decide)).bind (emits_payload (by decide) ?_)
    simpa using mask_payload deltaOfDelta.toUInt64.toNat (by decide : 7 ≤ 8)
  split
  · refine (BitWriter.emits_writeBits 0b110 (by decide)).bind (emits_payload (by decide) ?_)
    simpa using mask_payload deltaOfDelta.toUInt64.toNat (by decide : 9 ≤ 16)
  split
  · refine (BitWriter.emits_writeBits 0b1110 (by decide)).bind (emits_payload (by decide) ?_)
    simpa using mask_payload deltaOfDelta.toUInt64.toNat (by decide : 12 ≤ 16)
  · refine (BitWriter.emits_writeBits 0b1111 (by decide)).bind (emits_payload (by decide) ?_)
    simp

/-- The decompressor recognises every bucket by its header and reads the whole payload. -/
theorem reads_readDeltaOfDelta (bucket : Bucket) (payload : Nat)
    : readerSource.Reads readDeltaOfDelta (bucket.item payload)
        (bucket.extend (payload % 2 ^ bucket.width)) := by
  have one := BitReader.reads_readBit true
  have zero := BitReader.reads_readBit false
  have small : payload % 2 ^ bucket.width < 2 ^ bucket.width :=
    Nat.mod_lt _ (Nat.two_pow_pos _)
  let decided : Int64 → EStateM CompressionError BitReader Int64 := pure
  cases bucket with
  | zero => exact zero.returns rfl
  | seven =>
      refine one.bind (zero.bind ((BitReader.reads_readBits 7 payload).returns ?_))
      exact congrArg pure (signed_byte small)
  | nine =>
      refine one.bind (one.bind (zero.bind ((BitReader.reads_readBits 9 payload).returns ?_)))
      have extended := signExtend_word (by decide : 8 < 15) small
      simp only [UInt64.toUInt16_ofNat']
      exact (apply_ite decided _ _ _).symm.trans (congrArg decided extended)
  | twelve =>
      refine one.bind (one.bind (one.bind (zero.bind
        ((BitReader.reads_readBits 12 payload).returns ?_))))
      have extended := signExtend_word (by decide : 11 < 15) small
      simp only [UInt64.toUInt16_ofNat']
      exact (apply_ite decided _ _ _).symm.trans (congrArg decided extended)
  | full =>
      refine one.bind (one.bind (one.bind (one.bind
        ((BitReader.reads_readBits 32 payload).returns ?_))))
      exact congrArg pure (signed_doubleWord small)

-----------------------------------------------------------------------------------------
-- Items of whole calls
-----------------------------------------------------------------------------------------

/-- The delta-of-delta that `compress` forms for a timestamp. -/
def TimestampCompressor.deltaOfDelta (self : TimestampCompressor) (timestamp : UInt64)
    : Int64 :=
  timestamp.toInt64 - self.lastTimestamp.toInt64 - self.lastDelta

/-- The delta-of-delta determines the timestamp, since wrapping subtraction is injective. -/
theorem TimestampCompressor.deltaOfDelta_inj (self : TimestampCompressor)
    (first second : UInt64)
    : self.deltaOfDelta first = self.deltaOfDelta second ↔ first = second := by
  constructor
  · intro same
    have signed : first.toInt64 = second.toInt64 := by
      simp only [TimestampCompressor.deltaOfDelta] at same
      grind
    simpa only [UInt64.toUInt64_toInt64] using congrArg Int64.toUInt64 signed
  · rintro rfl
    rfl

/-- The compressor after a timestamp. -/
def TimestampCompressor.advance (self : TimestampCompressor) (timestamp : UInt64)
    : TimestampCompressor where
  lastTimestamp := timestamp
  lastDelta := timestamp.toInt64 - self.lastTimestamp.toInt64

/-- The decompressor after a delta-of-delta; its last timestamp is the one returned. -/
def TimestampDecompressor.advance (self : TimestampDecompressor) (deltaOfDelta : Int64)
    : TimestampDecompressor where
  lastTimestamp := (self.lastTimestamp.toInt64 + (self.lastDelta + deltaOfDelta)).toUInt64
  lastDelta := self.lastDelta + deltaOfDelta

/-- Every timestamp is compressed as the bits of its delta-of-delta. -/
theorem TimestampCompressor.encodesItem
    : writerSink.EncodesItem (fun _ => True) TimestampCompressor.compress deltaOfDeltaBits
        TimestampCompressor.deltaOfDelta TimestampCompressor.advance where
  emits := by
    intro self _ timestamp
    refine Sink.EmitsWith.fields ?_
    exact ((emits_writeDeltaOfDelta (self.deltaOfDelta timestamp)).onStream self).silent
      (writerSink.emitsWith_setFields self (self.advance timestamp))
  keeps := fun _ _ => trivial

/-- Every item is decompressed as the delta-of-delta that its bucket extends to. -/
theorem TimestampDecompressor.decodesItem
    : readerSource.DecodesItem (fun _ => True) TimestampDecompressor.decompress
        deltaOfDeltaBits
        (fun self deltaOfDelta =>
          (self.advance (decodedDeltaOfDelta deltaOfDelta)).lastTimestamp)
        (fun self deltaOfDelta => self.advance (decodedDeltaOfDelta deltaOfDelta)) where
  reads := by
    intro self _ deltaOfDelta
    refine Source.ReadsWith.fields ?_
    refine ((reads_readDeltaOfDelta _ _).onStream self).silent ?_
    exact (readerSource.readsWith_setFields self _).silent (.pure readerSource _ _)
  keeps := fun _ _ => trivial

/-- The bucket and the signed range it covers, as the compressor's comparisons fix them. -/
theorem bucketOf_cases (deltaOfDelta : Int64)
    : (bucketOf deltaOfDelta = .zero ∧ deltaOfDelta.toInt = 0)
      ∨ (bucketOf deltaOfDelta = .seven
          ∧ -63 ≤ deltaOfDelta.toInt ∧ deltaOfDelta.toInt ≤ 64 ∧ deltaOfDelta.toInt ≠ 0)
      ∨ (bucketOf deltaOfDelta = .nine
          ∧ -255 ≤ deltaOfDelta.toInt ∧ deltaOfDelta.toInt ≤ 256
          ∧ (deltaOfDelta.toInt < -63 ∨ 64 < deltaOfDelta.toInt))
      ∨ (bucketOf deltaOfDelta = .twelve
          ∧ -2047 ≤ deltaOfDelta.toInt ∧ deltaOfDelta.toInt ≤ 2048
          ∧ (deltaOfDelta.toInt < -255 ∨ 256 < deltaOfDelta.toInt))
      ∨ (bucketOf deltaOfDelta = .full
          ∧ (deltaOfDelta.toInt < -2047 ∨ 2048 < deltaOfDelta.toInt)) := by
  have limits : (-63 : Int64).toInt = -63 ∧ (64 : Int64).toInt = 64
      ∧ (-255 : Int64).toInt = -255 ∧ (256 : Int64).toInt = 256
      ∧ (-2047 : Int64).toInt = -2047 ∧ (2048 : Int64).toInt = 2048 := by decide
  unfold bucketOf
  simp only [ge_iff_le, Int64.le_iff_toInt_le, ← Int64.toInt_inj, Int64.toInt_zero, limits]
  split_ifs with zero seven nine twelve
  · exact Or.inl ⟨rfl, zero⟩
  · exact Or.inr (Or.inl ⟨rfl, seven.1, seven.2, zero⟩)
  · exact Or.inr (Or.inr (Or.inl ⟨rfl, nine.1, nine.2, by omega⟩))
  · exact Or.inr (Or.inr (Or.inr (Or.inl ⟨rfl, twelve.1, twelve.2, by omega⟩)))
  · exact Or.inr (Or.inr (Or.inr (Or.inr ⟨rfl, by omega⟩)))

/-- The delta-of-deltas that the decompressor reads back as they were written. -/
def Lossless (deltaOfDelta : Int64) : Prop :=
  ¬ (-63 ≤ deltaOfDelta.toInt ∧ deltaOfDelta.toInt ≤ -1)
  ∧ deltaOfDelta.toInt ≠ 256
  ∧ deltaOfDelta.toInt ≠ 2048
  ∧ -2 ^ 31 ≤ deltaOfDelta.toInt
  ∧ deltaOfDelta.toInt < 2 ^ 31

theorem decodedDeltaOfDelta_bucket {deltaOfDelta : Int64} {bucket : Bucket}
    (chosen : bucketOf deltaOfDelta = bucket)
    : decodedDeltaOfDelta deltaOfDelta
      = bucket.extend (deltaOfDelta.toUInt64.toNat % 2 ^ bucket.width) := by
  rw [decodedDeltaOfDelta, chosen]

/-- The signed value that the decompressor reads, for each bucket: the seven-bit remainder
is never negative, the wider ones are balanced.
-/
theorem decodedDeltaOfDelta_toInt (deltaOfDelta : Int64)
    : (decodedDeltaOfDelta deltaOfDelta).toInt
      = match bucketOf deltaOfDelta with
        | .zero => 0
        | .seven => deltaOfDelta.toInt % 128
        | .nine => deltaOfDelta.toInt.bmod (2 ^ 9)
        | .twelve => deltaOfDelta.toInt.bmod (2 ^ 12)
        | .full => deltaOfDelta.toInt.bmod (2 ^ 32) := by
  cases chosen : bucketOf deltaOfDelta
  all_goals rw [decodedDeltaOfDelta_bucket chosen]
  case zero => rfl
  case seven =>
    have payload := toInt_payload deltaOfDelta (by decide : 7 ≤ 64)
    exact (Int64.toInt_ofNat_of_lt (by simp only [Bucket.width]; omega)).trans payload
  case nine => exact toInt_extended deltaOfDelta (by decide)
  case twelve => exact toInt_extended deltaOfDelta (by decide)
  case full => exact toInt_extended deltaOfDelta (by decide)

/-- An item is read back exactly when its payload survives the extension of its bucket. -/
theorem decodedDeltaOfDelta_eq_iff (deltaOfDelta : Int64)
    : decodedDeltaOfDelta deltaOfDelta = deltaOfDelta ↔ Lossless deltaOfDelta := by
  rw [← Int64.toInt_inj, decodedDeltaOfDelta_toInt]
  unfold Lossless
  rcases bucketOf_cases deltaOfDelta with ⟨bucket, range⟩ | ⟨bucket, range⟩ | ⟨bucket, range⟩
    | ⟨bucket, range⟩ | ⟨bucket, range⟩
  all_goals
    rw [bucket]
    dsimp only
  · omega
  · change deltaOfDelta.toInt % 128 = deltaOfDelta.toInt ↔ _
    omega
  · exact (bmod_eq_self_iff _ (by decide : 0 < 2 ^ 8)).trans (by omega)
  · exact (bmod_eq_self_iff _ (by decide : 0 < 2 ^ 11)).trans (by omega)
  · exact (bmod_eq_self_iff _ (by decide : 0 < 2 ^ 31)).trans (by omega)

/-- Items with different headers or payloads differ inside any stream, by bucket cases. -/
theorem Bucket.item_prefixFree {first second : Bucket} {left right : Nat}
    {restLeft restRight : List Bool}
    (same : first.item left ++ restLeft = second.item right ++ restRight)
    : first = second
      ∧ left % 2 ^ first.width = right % 2 ^ first.width
      ∧ restLeft = restRight := by
  have header : first = second := by
    cases first <;> cases second <;> first | rfl | simp [Bucket.item, Bucket.header] at same
  subst second
  obtain ⟨items, rests⟩ := List.append_inj same (by simp [Bucket.item])
  exact ⟨rfl, mod_eq_of_msbBits_eq (List.append_inj items rfl).2, rests⟩

/-- Inside the signed 32-bit range, a delta-of-delta is determined by its bits.
Witness: every bucket's range is narrower than its payload's remainders.
-/
theorem deltaOfDeltaBits_prefixFree
    : PrefixFree deltaOfDeltaBits
        (fun deltaOfDelta => -2 ^ 31 ≤ deltaOfDelta.toInt ∧ deltaOfDelta.toInt < 2 ^ 31) := by
  intro first second left right firstRange secondRange same
  obtain ⟨buckets, payloads, rests⟩ := Bucket.item_prefixFree same
  refine ⟨Int64.toInt_inj.mp ?_, rests⟩
  have narrow : (bucketOf first).width ≤ 64 := by cases bucketOf first <;> decide
  have remainders
      : first.toInt % 2 ^ (bucketOf first).width = second.toInt % 2 ^ (bucketOf first).width := by
    rw [← toInt_payload first narrow, payloads, toInt_payload second narrow]
  rcases bucketOf_cases first with ⟨bucket, range⟩ | ⟨bucket, range⟩ | ⟨bucket, range⟩
    | ⟨bucket, range⟩ | ⟨bucket, range⟩
  all_goals
    have other := bucketOf_cases second
    rw [← buckets, bucket] at other
    simp only [bucket, Bucket.width] at remainders
    simp only [reduceCtorEq, false_and, true_and, false_or, or_false] at other
    omega

end GorillaTsdb.Compression

import GorillaTsdb.Compression.TimestampRoundTrip
import GorillaTsdb.Foundations.DoubleSums
import Mathlib.Algebra.BigOperators.Ring.Finset
import Mathlib.Tactic.SplitIfs

/-! How far decoded timestamps are off.
A delta-of-delta that is read back wrong is wrong by a fixed amount for its bucket. The
decompressor sums what it reads twice, so a decoded timestamp is off by the double sum of these
errors, and all of them are multiples of 128.
-/

namespace GorillaTsdb.Compression

open Foundations.DoubleSums
open Foundations.SignedWords
open Foundations.TokenStreams

/-- What the decompressor reads beyond the delta-of-delta that was written. -/
def decodingError (deltaOfDelta : Int64) : Int :=
  if -63 ≤ deltaOfDelta.toInt ∧ deltaOfDelta.toInt ≤ -1 then 128
  else if deltaOfDelta.toInt = 256 then -512
  else if deltaOfDelta.toInt = 2048 then -4096
  else deltaOfDelta.toInt.bmod (2 ^ 32) - deltaOfDelta.toInt

/-- How far the decoded timestamp at an index is behind the one that was compressed. -/
def timestampDrift (deltaOfDeltas : List Int64) (index : Nat) : Int :=
  doubleSum (deltaOfDeltas.map decodingError) index

/-- A timestamp that is off by a drift, in the wrapping arithmetic of the decompressor. -/
def driftBy (drift : Int) (timestamp : UInt64) : UInt64 :=
  (timestamp.toInt64 + .ofInt drift).toUInt64

/-- The error, bucket by bucket. -/
theorem decodedDeltaOfDelta_error (deltaOfDelta : Int64)
    : (decodedDeltaOfDelta deltaOfDelta).toInt
      = deltaOfDelta.toInt + decodingError deltaOfDelta := by
  rw [decodedDeltaOfDelta_toInt, decodingError]
  rcases bucketOf_cases deltaOfDelta with ⟨bucket, range⟩ | ⟨bucket, range⟩ | ⟨bucket, range⟩
    | ⟨bucket, range⟩ | ⟨bucket, range⟩
  all_goals rw [bucket]
  · change 0 = _
    simp only [Int.bmod, Nat.reducePow, Nat.cast_ofNat]
    omega
  · change deltaOfDelta.toInt % 128 = _
    simp only [Int.bmod, Nat.reducePow, Nat.cast_ofNat]
    omega
  · change deltaOfDelta.toInt.bmod (2 ^ 9) = _
    simp only [Int.bmod, Nat.reducePow, Nat.cast_ofNat]
    omega
  · change deltaOfDelta.toInt.bmod (2 ^ 12) = _
    simp only [Int.bmod, Nat.reducePow, Nat.cast_ofNat]
    omega
  · change deltaOfDelta.toInt.bmod (2 ^ 32) = _
    omega

theorem decodedDeltaOfDelta_drifts (deltaOfDelta : Int64)
    : decodedDeltaOfDelta deltaOfDelta
      = deltaOfDelta + .ofInt (decodingError deltaOfDelta) := by
  rw [← Int64.ofInt_toInt (decodedDeltaOfDelta deltaOfDelta), decodedDeltaOfDelta_error,
    Int64.ofInt_add, Int64.ofInt_toInt]

theorem dvd_decodingError (deltaOfDelta : Int64) : 128 ∣ decodingError deltaOfDelta := by
  simp only [decodingError, Int.bmod, Nat.reducePow, Nat.cast_ofNat]
  split_ifs <;> omega

theorem dvd_timestampDrift (deltaOfDeltas : List Int64) (index : Nat)
    : 128 ∣ timestampDrift deltaOfDeltas index := by
  rw [timestampDrift, doubleSum]
  refine Finset.dvd_sum fun earlier _ => ?_
  rw [nsmul_eq_mul]
  refine Dvd.dvd.mul_left ?_ _
  rcases lt_or_ge earlier deltaOfDeltas.length with inside | outside
  · rw [List.getD_eq_getElem _ _ (by simpa using inside), List.getElem_map]
    exact dvd_decodingError _
  · rw [List.getD_eq_default _ _ (by simpa using outside)]
    exact dvd_zero 128

/-- A drift by a multiple of 128 leaves the remainder as it was. -/
theorem driftBy_mod {drift : Int} (multiple : 128 ∣ drift) (timestamp : UInt64)
    : (driftBy drift timestamp).toNat % 128 = timestamp.toNat % 128 := by
  have wrapped : ((driftBy drift timestamp).toNat : Int)
      = (timestamp.toNat + drift) % 2 ^ 64 := by
    rw [driftBy, toNat_toUInt64, Int64.toInt_add, toInt_toInt64, Int64.toInt_ofInt]
    simp only [Int.bmod, Int64.size, Nat.reducePow, Nat.cast_ofNat]
    omega
  omega

-----------------------------------------------------------------------------------------
-- Decompressors beside compressors
-----------------------------------------------------------------------------------------

/-- A decompressor that is off by a position and a velocity. -/
structure Drifted (position velocity : Int) (decompressor : TimestampDecompressor)
    (compressor : TimestampCompressor)
    : Prop where
  timestamp : decompressor.lastTimestamp = driftBy position compressor.lastTimestamp
  delta : decompressor.lastDelta = compressor.lastDelta + .ofInt velocity

section Drifted

variable {position velocity : Int} {decompressor : TimestampDecompressor}
  {compressor : TimestampCompressor}

theorem drifted_new (firstTimestamp : UInt64)
    : Drifted 0 0 (TimestampDecompressor.new firstTimestamp)
        (TimestampCompressor.new firstTimestamp) where
  timestamp :=
    congrArg Int64.toUInt64 (Int64.add_zero firstTimestamp.toInt64).symm
  delta := rfl

/-- The error of an item adds to the velocity, and with it to the position. -/
theorem Drifted.advance (drifted : Drifted position velocity decompressor compressor)
    (timestamp : UInt64)
    : let deltaOfDelta := compressor.deltaOfDelta timestamp
      let changed := velocity + decodingError deltaOfDelta
      Drifted (position + changed) changed
        (decompressor.advance (decodedDeltaOfDelta deltaOfDelta))
        (compressor.advance timestamp) := by
  intro deltaOfDelta changed
  have delta : decompressor.lastDelta + decodedDeltaOfDelta deltaOfDelta
      = timestamp.toInt64 - compressor.lastTimestamp.toInt64 + .ofInt changed := by
    have formed : deltaOfDelta
        = timestamp.toInt64 - compressor.lastTimestamp.toInt64 - compressor.lastDelta := rfl
    rw [decodedDeltaOfDelta_drifts, drifted.delta, Int64.ofInt_add, formed]
    grind
  have timestamps : decompressor.lastTimestamp.toInt64
        + (decompressor.lastDelta + decodedDeltaOfDelta deltaOfDelta)
      = timestamp.toInt64 + .ofInt (position + changed) := by
    rw [delta, drifted.timestamp, driftBy, Int64.toInt64_toUInt64,
      Int64.ofInt_add position changed]
    grind
  exact ⟨congrArg Int64.toUInt64 timestamps, delta⟩

/-- The decoded timestamps are off by the positions that the errors lead to, by induction on the
timestamps.
-/
theorem Drifted.timestamps (drifted : Drifted position velocity decompressor compressor)
    (timestamps : List UInt64)
    : decompressor.timestamps (compressor.deltaOfDeltas timestamps)
      = List.zipWith driftBy
          (positions position velocity
            ((compressor.deltaOfDeltas timestamps).map decodingError))
          timestamps := by
  induction timestamps generalizing position velocity decompressor compressor with
  | nil => rfl
  | cons timestamp rest ih =>
      have next := drifted.advance timestamp
      exact congrArg₂ List.cons next.timestamp (ih next)

end Drifted

/-- Every decoded timestamp is off by its drift. -/
theorem decoded_timestamps (firstTimestamp : UInt64) (timestamps : List UInt64)
    : let deltaOfDeltas := (TimestampCompressor.new firstTimestamp).deltaOfDeltas timestamps
      (TimestampDecompressor.new firstTimestamp).timestamps deltaOfDeltas
      = timestamps.mapIdx fun index => driftBy (timestampDrift deltaOfDeltas index) := by
  intro deltaOfDeltas
  rw [(drifted_new firstTimestamp).timestamps]
  refine List.ext_getElem ?_ fun index left right => ?_
  · simp [TimestampCompressor.deltaOfDeltas]
  · rw [List.getElem_zipWith, List.getElem_mapIdx, getElem_positions, nsmul_zero, add_zero,
      zero_add]
    rfl

end GorillaTsdb.Compression

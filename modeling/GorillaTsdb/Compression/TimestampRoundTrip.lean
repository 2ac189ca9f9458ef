import GorillaTsdb.Compression.TimestampCodec

/-! Which timestamp sequences survive compression and decompression.
The deciding fact is local: a sequence survives exactly when each of its delta-of-deltas
does, because decoder state stays equal to encoder state up to the first one that does not.
-/

namespace GorillaTsdb.Compression

open Foundations.TokenStreams

/-- Compress every timestamp, finish the writer and decompress once per timestamp. -/
def timestampRoundTrip (firstTimestamp : UInt64) (timestamps : List UInt64)
    : Except CompressionError (List UInt64) :=
  match forM timestamps TimestampCompressor.compress
      (TimestampCompressor.new firstTimestamp, BitWriter.new) with
  | .error error _ => .error error
  | .ok _ (_, writer) =>
      match repeatCall TimestampDecompressor.decompress timestamps.length
          (TimestampDecompressor.new firstTimestamp, BitReader.new writer.finish) with
      | .error error _ => .error error
      | .ok decoded _ => .ok decoded

/-- The delta-of-deltas that a compressor forms for a sequence, in wrapping arithmetic. -/
def TimestampCompressor.deltaOfDeltas (self : TimestampCompressor) (timestamps : List UInt64)
    : List Int64 :=
  outputs TimestampCompressor.deltaOfDelta TimestampCompressor.advance self timestamps

/-- The timestamps that a decompressor returns for a sequence of items. -/
def TimestampDecompressor.timestamps (self : TimestampDecompressor)
    (deltaOfDeltas : List Int64)
    : List UInt64 :=
  outputs
    (fun self deltaOfDelta => (self.advance (decodedDeltaOfDelta deltaOfDelta)).lastTimestamp)
    (fun self deltaOfDelta => self.advance (decodedDeltaOfDelta deltaOfDelta))
    self deltaOfDeltas

/-- The whole pipeline decodes the items that the compressor formed; no call fails. -/
theorem timestampRoundTrip_eq (firstTimestamp : UInt64) (timestamps : List UInt64)
    : timestampRoundTrip firstTimestamp timestamps
      = .ok
          ((TimestampDecompressor.new firstTimestamp).timestamps
            ((TimestampCompressor.new firstTimestamp).deltaOfDeltas timestamps)) := by
  have encoded := TimestampCompressor.encodesItem.forM
    (TimestampCompressor.new firstTimestamp) trivial timestamps BitWriter.new
  have decoded := TimestampDecompressor.decodesItem.repeatCall
    (TimestampDecompressor.new firstTimestamp) trivial
    ((TimestampCompressor.new firstTimestamp).deltaOfDeltas timestamps)
    _ _ (unread_finish_pushBits _)
  simp only [TimestampCompressor.deltaOfDeltas, length_outputs] at decoded
  simp only [timestampRoundTrip, encoded, writerSink, decoded]
  rfl

/-- A decompressor in the state of a compressor. -/
def TimestampDecompressor.Follows (decompressor : TimestampDecompressor)
    (compressor : TimestampCompressor)
    : Prop :=
  decompressor.lastTimestamp = compressor.lastTimestamp
  ∧ decompressor.lastDelta = compressor.lastDelta

/-- The delta-of-delta that the compressor formed leads back to the timestamp. -/
theorem TimestampDecompressor.Follows.advance {decompressor : TimestampDecompressor}
    {compressor : TimestampCompressor} (follows : decompressor.Follows compressor)
    (timestamp : UInt64)
    : (decompressor.advance (compressor.deltaOfDelta timestamp)).lastTimestamp = timestamp
      ∧ (decompressor.advance (compressor.deltaOfDelta timestamp)).Follows
          (compressor.advance timestamp) := by
  obtain ⟨sameTimestamp, sameDelta⟩ := follows
  have delta : decompressor.lastDelta + compressor.deltaOfDelta timestamp
      = timestamp.toInt64 - compressor.lastTimestamp.toInt64 := by
    rw [sameDelta, TimestampCompressor.deltaOfDelta]
    grind
  have returned
      : (decompressor.advance (compressor.deltaOfDelta timestamp)).lastTimestamp = timestamp := by
    have total : compressor.lastTimestamp.toInt64
        + (timestamp.toInt64 - compressor.lastTimestamp.toInt64) = timestamp.toInt64 := by grind
    simp only [TimestampDecompressor.advance, delta, sameTimestamp, total,
      UInt64.toUInt64_toInt64]
  exact ⟨returned, returned, delta⟩

/-- From equal states, only the delta-of-delta itself leads to its timestamp: a wrong one is
never cancelled by wrapping.
-/
theorem TimestampDecompressor.Follows.advance_eq_iff {decompressor : TimestampDecompressor}
    {compressor : TimestampCompressor} (follows : decompressor.Follows compressor)
    (timestamp : UInt64) (deltaOfDelta : Int64)
    : (decompressor.advance deltaOfDelta).lastTimestamp = timestamp
      ↔ deltaOfDelta = compressor.deltaOfDelta timestamp := by
  constructor
  · intro returned
    have expected := (follows.advance timestamp).1
    have same : decompressor.lastTimestamp.toInt64 + (decompressor.lastDelta + deltaOfDelta)
        = decompressor.lastTimestamp.toInt64
          + (decompressor.lastDelta + compressor.deltaOfDelta timestamp) := by
      have words := congrArg UInt64.toInt64 (returned.trans expected.symm)
      simpa only [TimestampDecompressor.advance, Int64.toInt64_toUInt64] using words
    grind
  · rintro rfl
    exact (follows.advance timestamp).1

/-- From equal states, a sequence is decoded as itself exactly when every item is lossless,
by induction on the sequence: the states stay equal as long as the items are.
-/
theorem TimestampDecompressor.Follows.timestamps_eq_iff
    {decompressor : TimestampDecompressor} {compressor : TimestampCompressor}
    (follows : decompressor.Follows compressor) (timestamps : List UInt64)
    : decompressor.timestamps (compressor.deltaOfDeltas timestamps) = timestamps
      ↔ ∀ deltaOfDelta ∈ compressor.deltaOfDeltas timestamps, Lossless deltaOfDelta := by
  induction timestamps generalizing decompressor compressor with
  | nil => simp [TimestampCompressor.deltaOfDeltas, TimestampDecompressor.timestamps, outputs]
  | cons timestamp rest ih =>
      have head := follows.advance_eq_iff timestamp
        (decodedDeltaOfDelta (compressor.deltaOfDelta timestamp))
      rw [decodedDeltaOfDelta_eq_iff] at head
      simp only [TimestampCompressor.deltaOfDeltas, TimestampDecompressor.timestamps, outputs,
        List.cons.injEq, List.forall_mem_cons, head]
      apply and_congr_right
      intro lossless
      rw [(decodedDeltaOfDelta_eq_iff _).mpr lossless]
      exact ih (follows.advance timestamp).2

/-- A timestamp sequence survives the round trip exactly when all its delta-of-deltas, formed
in wrapping arithmetic, are lossless.
-/
theorem timestampRoundTrip_eq_iff (firstTimestamp : UInt64) (timestamps : List UInt64)
    : timestampRoundTrip firstTimestamp timestamps = .ok timestamps
      ↔ ∀ deltaOfDelta ∈ (TimestampCompressor.new firstTimestamp).deltaOfDeltas timestamps,
          Lossless deltaOfDelta := by
  have start : (TimestampDecompressor.new firstTimestamp).Follows
      (TimestampCompressor.new firstTimestamp) := ⟨rfl, rfl⟩
  rw [timestampRoundTrip_eq, Except.ok.injEq, start.timestamps_eq_iff]

/-- From equal states, the timestamps before any position are decoded as themselves if the
items before it are lossless: they are the run over these timestamps alone.
-/
theorem TimestampDecompressor.Follows.timestamps_take
    {decompressor : TimestampDecompressor} {compressor : TimestampCompressor}
    (follows : decompressor.Follows compressor) (timestamps : List UInt64) (position : Nat)
    (lossless
      : ∀ deltaOfDelta ∈ (compressor.deltaOfDeltas timestamps).take position,
          Lossless deltaOfDelta)
    : (decompressor.timestamps (compressor.deltaOfDeltas timestamps)).take position
      = timestamps.take position := by
  have items : (compressor.deltaOfDeltas timestamps).take position
      = compressor.deltaOfDeltas (timestamps.take position) :=
    (outputs_take _ _ compressor timestamps position).symm
  have decoded
      : (decompressor.timestamps (compressor.deltaOfDeltas timestamps)).take position
        = decompressor.timestamps ((compressor.deltaOfDeltas timestamps).take position) :=
    (outputs_take _ _ decompressor _ position).symm
  rw [items] at lossless
  rw [decoded, items]
  exact (follows.timestamps_eq_iff _).mpr lossless

/-- Every sequence is decoded without an error. It comes back unchanged exactly if all its
delta-of-deltas, formed in wrapping arithmetic, are lossless; and the timestamps before any
position come back if the delta-of-deltas before it are lossless.
-/
theorem timestampRoundTrip_lossless_domain (firstTimestamp : UInt64)
    (timestamps : List UInt64)
    : let deltaOfDeltas := (TimestampCompressor.new firstTimestamp).deltaOfDeltas timestamps
      ∃ decoded,
        timestampRoundTrip firstTimestamp timestamps = .ok decoded
        ∧ (decoded = timestamps ↔ ∀ deltaOfDelta ∈ deltaOfDeltas, Lossless deltaOfDelta)
        ∧ ∀ position,
            (∀ deltaOfDelta ∈ deltaOfDeltas.take position, Lossless deltaOfDelta)
            → decoded.take position = timestamps.take position := by
  intro deltaOfDeltas
  have start : (TimestampDecompressor.new firstTimestamp).Follows
      (TimestampCompressor.new firstTimestamp) := ⟨rfl, rfl⟩
  exact ⟨_, timestampRoundTrip_eq firstTimestamp timestamps,
    start.timestamps_eq_iff timestamps, start.timestamps_take timestamps⟩

/-- The differences of successive integers, the first one taken from `last`. -/
def differences : Int → List Int → List Int
  | _, [] => []
  | last, value :: rest => (value - last) :: differences value rest

/-- A timestamp as the `i64` that the codec casts it to. -/
def asSigned (timestamp : UInt64) : Int := timestamp.toInt64.toInt

/-- The exact deltas of a sequence, without wrapping. -/
def exactDeltas (firstTimestamp : UInt64) (timestamps : List UInt64) : List Int :=
  differences (asSigned firstTimestamp) (timestamps.map asSigned)

/-- The exact delta-of-deltas of a sequence; the first delta is compared with zero. -/
def exactDeltaOfDeltas (firstTimestamp : UInt64) (timestamps : List UInt64) : List Int :=
  differences 0 (exactDeltas firstTimestamp timestamps)

abbrev FitsInt64 (value : Int) : Prop := -2 ^ 63 ≤ value ∧ value < 2 ^ 63

/-- No subtraction of the compressor overflows on this sequence. -/
abbrev NoOverflow (firstTimestamp : UInt64) (timestamps : List UInt64) : Prop :=
  (∀ delta ∈ exactDeltas firstTimestamp timestamps, FitsInt64 delta)
  ∧ ∀ deltaOfDelta ∈ exactDeltaOfDeltas firstTimestamp timestamps, FitsInt64 deltaOfDelta

/-- A subtraction that does not overflow is exact. -/
theorem toInt_sub_exact {left right : Int64} (fits : FitsInt64 (left.toInt - right.toInt))
    : (left - right).toInt = left.toInt - right.toInt := by
  rw [Int64.toInt_sub]
  exact Int.bmod_eq_of_le_mul_two (by omega) (by omega)

/-- So is an addition. -/
theorem toInt_add_exact {left right : Int64} (fits : FitsInt64 (left.toInt + right.toInt))
    : (left + right).toInt = left.toInt + right.toInt := by
  rw [Int64.toInt_add]
  exact Int.bmod_eq_of_le_mul_two (by omega) (by omega)

/-- Without overflow the compressor forms the exact delta-of-deltas, by induction on the
sequence with the compressor's last delta as the running value.
-/
theorem TimestampCompressor.deltaOfDeltas_exact (compressor : TimestampCompressor)
    (timestamps : List UInt64)
    (deltasFit
      : ∀ delta ∈ differences (asSigned compressor.lastTimestamp) (timestamps.map asSigned),
          FitsInt64 delta)
    (deltaOfDeltasFit
      : ∀ deltaOfDelta ∈
          differences compressor.lastDelta.toInt
            (differences (asSigned compressor.lastTimestamp) (timestamps.map asSigned)),
          FitsInt64 deltaOfDelta)
    : (compressor.deltaOfDeltas timestamps).map Int64.toInt
      = differences compressor.lastDelta.toInt
          (differences (asSigned compressor.lastTimestamp) (timestamps.map asSigned)) := by
  induction timestamps generalizing compressor with
  | nil => rfl
  | cons timestamp rest ih =>
      simp only [List.map_cons, differences, List.forall_mem_cons] at deltasFit deltaOfDeltasFit
      have delta : (timestamp.toInt64 - compressor.lastTimestamp.toInt64).toInt
          = asSigned timestamp - asSigned compressor.lastTimestamp :=
        toInt_sub_exact deltasFit.1
      have deltaOfDelta : (compressor.deltaOfDelta timestamp).toInt
          = asSigned timestamp - asSigned compressor.lastTimestamp
            - compressor.lastDelta.toInt := by
        rw [TimestampCompressor.deltaOfDelta,
          toInt_sub_exact (by rw [delta]; exact deltaOfDeltasFit.1),
          delta]
      have later := ih (compressor.advance timestamp) deltasFit.2
        (by simpa only [TimestampCompressor.advance, delta] using deltaOfDeltasFit.2)
      simp only [TimestampCompressor.advance, delta] at later
      simp only [TimestampCompressor.deltaOfDeltas, outputs, List.map_cons, differences,
        deltaOfDelta]
      exact congrArg _ later

/-- Without overflow and inside the signed 32-bit range, a sequence survives the round trip
exactly when no delta-of-delta lies in `[-63, -1]` or equals 256 or 2048.
-/
theorem timestampRoundTrip_exact_iff (firstTimestamp : UInt64) (timestamps : List UInt64)
    (exact : NoOverflow firstTimestamp timestamps)
    (narrow
      : ∀ deltaOfDelta ∈ exactDeltaOfDeltas firstTimestamp timestamps,
          -2 ^ 31 ≤ deltaOfDelta ∧ deltaOfDelta < 2 ^ 31)
    : timestampRoundTrip firstTimestamp timestamps = .ok timestamps
      ↔ ∀ deltaOfDelta ∈ exactDeltaOfDeltas firstTimestamp timestamps,
          ¬ (-63 ≤ deltaOfDelta ∧ deltaOfDelta ≤ -1)
          ∧ deltaOfDelta ≠ 256
          ∧ deltaOfDelta ≠ 2048 := by
  have formed : ((TimestampCompressor.new firstTimestamp).deltaOfDeltas timestamps).map
      Int64.toInt = exactDeltaOfDeltas firstTimestamp timestamps :=
    (TimestampCompressor.new firstTimestamp).deltaOfDeltas_exact timestamps exact.1 exact.2
  rw [timestampRoundTrip_eq_iff]
  rw [← formed, List.forall_mem_map] at narrow ⊢
  apply forall₂_congr
  intro deltaOfDelta member
  have range := narrow deltaOfDelta member
  simp only [Lossless, range.1, range.2, and_true]

theorem timestampRoundTrip_exact_iff_sample
    : timestampRoundTrip 1000 [1010, 1021, 1032, 2020]
      = .ok [1010, 1021, 1032, 2020] :=
  (timestampRoundTrip_exact_iff 1000 [1010, 1021, 1032, 2020] (by decide) (by decide)).mpr
    (by decide)

/-- A step that is five milliseconds shorter than the one before is read back as a longer
one: the seven-bit payload of `-5` is decoded as `123`.
-/
theorem timestampRoundTrip_loses_jitter
    : ¬ (∀ firstTimestamp timestamps,
          NoOverflow firstTimestamp timestamps
          → (∀ deltaOfDelta ∈ exactDeltaOfDeltas firstTimestamp timestamps,
              -2 ^ 31 ≤ deltaOfDelta ∧ deltaOfDelta < 2 ^ 31)
          → timestampRoundTrip firstTimestamp timestamps = .ok timestamps) := by
  intro survives
  have claimed := survives 1000 [1010, 1015] (by decide) (by decide)
  have decoded : timestampRoundTrip 1000 [1010, 1015] = .ok [1010, 1143] := by
    rw [timestampRoundTrip_eq]
    decide
  rw [decoded] at claimed
  exact absurd claimed (by decide)

end GorillaTsdb.Compression

import GorillaTsdb.Compression.CheckedDecoders

/-! Both decompressors on one arbitrary buffer, called in any number and order.
A header that no compressor writes can make a value call panic, and a jump out of the range of
`i64` a timestamp call. Nothing else can: the condition is exact, for every run.
-/

namespace GorillaTsdb.Compression

open Foundations.EventHistories
open Foundations.TokenStreams
open Foundations.CheckedPrograms

inductive DecoderCall where
  | timestamp
  | value
  deriving DecidableEq, Repr

inductive Decoded where
  | timestamp (timestamp : UInt64)
  | value (value : F64)
  deriving DecidableEq, Repr

abbrev Decoders := (TimestampDecompressor × ValueDecompressor) × BitReader

def Decoders.new (buffer : List UInt8) (firstTimestamp : UInt64) (firstValue : F64)
    : Decoders :=
  ((TimestampDecompressor.new firstTimestamp, ValueDecompressor.new firstValue),
    BitReader.new buffer)

/-- A call as a release build makes it. -/
def DecoderCall.run : DecoderCall → EStateM CompressionError Decoders Decoded
  | .timestamp => do
      let timestamp ← onFirst TimestampDecompressor.decompress
      pure (.timestamp timestamp)
  | .value => do
      let value ← onSecond ValueDecompressor.decompress
      pure (.value value)

/-- A call as a debug build makes it. -/
def DecoderCall.runChecked : DecoderCall → Checked.Program Decoders Decoded
  | .timestamp => do
      let timestamp ← onFirst Checked.TimestampDecompressor.decompress
      pure (.timestamp timestamp)
  | .value => do
      let value ← onSecond Checked.ValueDecompressor.decompress
      pure (.value value)

/-- The bits in front of a call describe an item that can be decoded without overflow. -/
def SafeCall (call : DecoderCall) (decoders : Decoders) : Prop :=
  decoders.2.Addressable
  ∧ match call with
    | .timestamp => decoders.1.1.SafeInput (readerSource.unread decoders.2)
    | .value => ValueDecompressor.SafeInput (readerSource.unread decoders.2)

/-- The decoders of any run over an addressable buffer. -/
def Decoding : Decoders → Prop :=
  Within (fun fields => True ∧ fields.2.InWord) BitReader.Addressable

theorem decoding_new {buffer : List UInt8} (addressable : (BitReader.new buffer).Addressable)
    (firstTimestamp : UInt64) (firstValue : F64)
    : Decoding (Decoders.new buffer firstTimestamp firstValue) :=
  ⟨⟨trivial, ValueDecompressor.inWord_new firstValue⟩, addressable⟩

/-- A call panics exactly if it is not safe. -/
theorem DecoderCall.checks_run (call : DecoderCall)
    : Checks Decoding (SafeCall call) call.runChecked call.run := by
  cases call with
  | timestamp =>
      refine Checks.of_iff _
        ((TimestampDecompressor.checks_decompress.onFirst ValueDecompressor.InWord).bind_total
          fun _ => .pure _) ?_
      exact fun decoders inside => and_iff_right inside.2
  | value =>
      refine Checks.of_iff _
        ((ValueDecompressor.checks_decompress.onSecond fun _ => True).bind_total
          fun _ => .pure _) ?_
      exact fun decoders inside => and_iff_right inside.2

/-- Over a buffer that is not addressable, every call panics at its first bit. -/
theorem DecoderCall.panics_of_large (call : DecoderCall) {decoders : Decoders}
    (large : ¬ decoders.2.Addressable)
    : Panics call.runChecked decoders := by
  have first : Panics Checked.BitReader.readBit decoders.2 := by
    refine ⟨decoders.2, ?_⟩
    rw [Checked.BitReader.readBit, get_bind]
    exact bind_error (if_neg large)
  cases call with
  | timestamp =>
      refine Panics.bind ?_
      rw [onFirst_eq_zoom]
      refine Panics.zoom (Panics.fields (Panics.bind (Panics.onStream ?_)))
      exact first.bind
  | value =>
      refine Panics.bind ?_
      rw [onSecond_eq_zoom]
      exact Panics.zoom (Panics.bind (Panics.onStream first))

/-- No call of a run panics exactly if, in the state before each call, the buffer is addressable
and the item that the unread bits begin with is decoded without overflow.
-/
theorem decoders_panic_free_iff (buffer : List UInt8) (firstTimestamp : UInt64)
    (firstValue : F64) (calls : List DecoderCall)
    : let decoders := Decoders.new buffer firstTimestamp firstValue
      (∀ event ∈ history (callStep DecoderCall.runChecked) decoders calls,
        event.2 ≠ .error .panicked)
      ↔ AllSteps (callStep DecoderCall.runChecked)
          (fun decoders call => SafeCall call decoders) decoders calls := by
  intro decoders
  by_cases addressable : decoders.2.Addressable
  · exact panic_free_iff DecoderCall.checks_run
      (decoding_new addressable firstTimestamp firstValue) calls
  · cases calls with
    | nil => exact iff_of_true (List.forall_mem_nil _) trivial
    | cons call rest =>
        obtain ⟨after, panicked⟩ := call.panics_of_large addressable
        refine iff_of_false (fun returns => ?_) fun steps => addressable steps.1.1
        refine returns _ List.mem_cons_self ?_
        rw [callStep, panicked, outcome]

/-- The header announces 31 leading zeros and 63 meaningful bits. -/
theorem decoders_panic
    : ¬ (∀ buffer firstTimestamp firstValue calls,
          ∀ event ∈ history (callStep DecoderCall.runChecked)
            (Decoders.new buffer firstTimestamp firstValue) calls,
            event.2 ≠ .error .panicked) := by
  intro returns
  exact returns [0xFF, 0xF8] 0 ⟨0⟩ [.value] _ List.mem_cons_self rfl

/-- In a run of safe calls, the checks make no difference. -/
theorem decoders_unchecked (buffer : List UInt8) (firstTimestamp : UInt64) (firstValue : F64)
    {calls : List DecoderCall}
    (addressable : (BitReader.new buffer).Addressable)
    (steps
      : AllSteps (callStep DecoderCall.runChecked)
          (fun decoders call => SafeCall call decoders)
          (Decoders.new buffer firstTimestamp firstValue) calls)
    : history (callStep DecoderCall.runChecked)
          (Decoders.new buffer firstTimestamp firstValue) calls
        = (history (callStep DecoderCall.run)
            (Decoders.new buffer firstTimestamp firstValue) calls).map
            (Prod.map id (Except.mapError Fault.returned))
      ∧ after (callStep DecoderCall.runChecked)
          (Decoders.new buffer firstTimestamp firstValue) calls
        = after (callStep DecoderCall.run)
            (Decoders.new buffer firstTimestamp firstValue) calls :=
  history_of_safe DecoderCall.checks_run (decoding_new addressable firstTimestamp firstValue)
    steps

end GorillaTsdb.Compression

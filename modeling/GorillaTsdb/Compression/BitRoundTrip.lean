import GorillaTsdb.Compression.BitIo
import Mathlib.Algebra.BigOperators.Group.List.Basic

/-! The bit writer and the bit reader against each other, over any sequence of calls.
The reader's two loops, one that moves the position and one that keeps it, return the same.
-/

namespace GorillaTsdb.Compression

open Foundations.BitSequences
open Foundations.TokenStreams

-----------------------------------------------------------------------------------------
-- Peeking
-----------------------------------------------------------------------------------------

/-- The loop of `peek_bits` does what the loop of `read_bits` does from its position, by
induction on the rounds.
-/
theorem BitReader.peekBitsLoop_eq (self : BitReader) (numBits pos : Nat) (value : UInt64)
    : self.peekBitsLoop numBits pos value
      = match BitReader.readBitsLoop numBits value { self with bitPosition := pos } with
        | .ok result _ => .ok result
        | .error error _ => .error error := by
  induction numBits generalizing pos value with
  | zero => rfl
  | succ numBits ih =>
      unfold BitReader.peekBitsLoop BitReader.readBitsLoop
      by_cases past : pos ≥ self.buffer.length * 8
      · rw [if_pos past, bind_error (BitReader.readBit_past past)]
      · have bit : BitReader.readBit { self with bitPosition := pos } = .ok _ _ := if_neg past
        rw [if_neg past, bind_ok bit]
        exact ih (pos + 1) _

/-- `peek_bits` returns what `read_bits` would. -/
theorem BitReader.peekBits_eq (self : BitReader) (numBits : Nat)
    : self.peekBits numBits
      = match BitReader.readBits numBits self with
        | .ok result _ => .ok result
        | .error error _ => .error error :=
  self.peekBitsLoop_eq numBits self.bitPosition 0

-----------------------------------------------------------------------------------------
-- Reading past the end
-----------------------------------------------------------------------------------------

/-- The loop of `read_bits` stops at the end of the buffer, by induction on the rounds. -/
theorem BitReader.readBitsLoop_past (self : BitReader) (numBits : Nat) (value : UInt64)
    (inside : self.bitPosition ≤ 8 * self.buffer.length)
    (past : 8 * self.buffer.length < self.bitPosition + numBits)
    : ∃ stopped,
        BitReader.readBitsLoop numBits value self = .error .insufficientData stopped := by
  induction numBits generalizing self value with
  | zero => omega
  | succ numBits ih =>
      unfold BitReader.readBitsLoop
      by_cases atEnd : self.bitPosition ≥ self.buffer.length * 8
      · exact ⟨self, bind_error (BitReader.readBit_past atEnd)⟩
      · have bit : BitReader.readBit self = .ok _ _ := if_neg atEnd
        rw [bind_ok bit]
        exact ih _ _ (by dsimp only; omega) (by dsimp only; omega)

-----------------------------------------------------------------------------------------
-- Sequences of calls
-----------------------------------------------------------------------------------------

/-- A call that writes bits. -/
inductive WriteCall where
  | writeBit (bit : UInt8)
  | writeBits (value : UInt64) (numBits : Nat)

def WriteCall.run : WriteCall → EStateM CompressionError BitWriter Unit
  | .writeBit bit => BitWriter.writeBit bit
  | .writeBits value numBits => BitWriter.writeBits value numBits

/-- The number of bits that the call writes. -/
def WriteCall.numBits : WriteCall → Nat
  | .writeBit _ => 1
  | .writeBits _ numBits => numBits

/-- The number that the written bits stand for. -/
def WriteCall.written : WriteCall → Nat
  | .writeBit bit => if bit = 0 then 0 else 1
  | .writeBits value numBits => value.toNat % 2 ^ numBits

def WriteCall.bits (call : WriteCall) : List Bool :=
  msbBits call.numBits call.written

@[simp]
theorem WriteCall.length_bits (call : WriteCall) : call.bits.length = call.numBits :=
  length_msbBits ..

theorem WriteCall.written_lt (call : WriteCall) : call.written < 2 ^ call.numBits := by
  cases call with
  | writeBit bit =>
      simp only [WriteCall.written, WriteCall.numBits]
      split
      · exact Nat.two_pow_pos 1
      · exact Nat.one_lt_two_pow Nat.one_ne_zero
  | writeBits value numBits => exact Nat.mod_lt _ (Nat.two_pow_pos numBits)

/-- Either call appends its bits. -/
theorem WriteCall.emits_run (call : WriteCall) (narrow : call.numBits ≤ 64)
    : writerSink.Emits call.run call.bits := by
  cases call with
  | writeBit bit =>
      have emits := BitWriter.emits_writeBit bit
      have same : [bit != 0] = (WriteCall.writeBit bit).bits := by
        by_cases zero : bit = 0
        · simp [zero, WriteCall.bits, WriteCall.numBits, WriteCall.written, msbBits]
        · simp [zero, WriteCall.bits, WriteCall.numBits, WriteCall.written, msbBits]
      rwa [same] at emits
  | writeBits value numBits =>
      have small : numBits ≤ 64 := narrow
      have emits := BitWriter.emits_writeBits value small
      rwa [← msbBits_mod value.toNat (Nat.le_refl numBits)] at emits

/-- `read_bits` with the width of a call returns what the call wrote. -/
theorem WriteCall.reads_bits (call : WriteCall)
    : readerSource.Reads (BitReader.readBits call.numBits) call.bits
        (UInt64.ofNat call.written) := by
  have reads := BitReader.reads_readBits call.numBits call.written
  rwa [Nat.mod_eq_of_lt call.written_lt] at reads

/-- The bits of a run of calls. -/
def totalBits (calls : List WriteCall) : Nat :=
  (calls.map WriteCall.numBits).sum

theorem length_flatMap_bits (calls : List WriteCall)
    : (calls.flatMap WriteCall.bits).length = totalBits calls := by
  simp [totalBits, List.length_flatMap]

theorem totalBits_take_le (calls : List WriteCall) (count : Nat)
    : totalBits (calls.take count) ≤ totalBits calls := by
  have split := List.sum_take_add_sum_drop (calls.map WriteCall.numBits) count
  rw [← List.map_take] at split
  exact Nat.le.intro split

theorem emits_calls {calls : List WriteCall} (narrow : ∀ call ∈ calls, call.numBits ≤ 64)
    : writerSink.Emits (forM calls WriteCall.run) (calls.flatMap WriteCall.bits) := by
  apply Sink.Emits.forM
  intro call member
  exact call.emits_run (narrow call member)

/-- A reader over the finished bytes of a run of calls returns what any beginning of the run
wrote and then stands behind its bits.
-/
theorem reads_written (calls : List WriteCall) (count : Nat)
    : (calls.take count).mapM (fun call => BitReader.readBits call.numBits)
          (BitReader.new (BitWriter.new.pushBits (calls.flatMap WriteCall.bits)).finish)
      = .ok ((calls.take count).map fun call => UInt64.ofNat call.written)
          { buffer := (BitWriter.new.pushBits (calls.flatMap WriteCall.bits)).finish,
            bitPosition := totalBits (calls.take count) } := by
  have split : calls.flatMap WriteCall.bits
      = (calls.take count).flatMap WriteCall.bits
        ++ (calls.drop count).flatMap WriteCall.bits := by
    rw [← List.flatMap_append, List.take_append_drop]
  have unread := unread_finish_pushBits (calls.flatMap WriteCall.bits)
  have ahead := unread.trans ((congrArg (· ++ _) split).trans (List.append_assoc ..))
  have reads : readerSource.Reads _ _ _ :=
    .mapM fun call (_ : call ∈ calls.take count) => call.reads_bits
  have ran := reads _ _ ahead
  rw [length_flatMap_bits] at ran
  simpa [readerSource, BitReader.new] using ran

/-- The words that are read stand for the numbers that were written. -/
theorem toNat_written {calls : List WriteCall} (narrow : ∀ call ∈ calls, call.numBits ≤ 64)
    : (calls.map fun call => UInt64.ofNat call.written).map UInt64.toNat
      = calls.map WriteCall.written := by
  rw [List.map_map]
  apply List.map_congr_left
  intro call member
  have wide := Nat.pow_le_pow_right Nat.two_pos (narrow call member)
  exact UInt64.toNat_ofNat_of_lt' (Nat.lt_of_lt_of_le call.written_lt wide)

/-- Whatever calls are made on a new writer, the finished bytes are as many as their bits need
and end in zero bits; a reader returns the written numbers in order and fails past the last byte.
In every state of a reader, peeking returns what reading would.
-/
theorem bitIo_roundTrips (calls : List WriteCall) (narrow : ∀ call ∈ calls, call.numBits ≤ 64)
    : (∃ writer,
        forM calls WriteCall.run BitWriter.new = .ok () writer
        ∧ writer.finish.length = (totalBits calls + 7) / 8
        ∧ (∀ position ≥ totalBits calls, bitAt writer.finish position = false)
        ∧ ∀ count,
            ∃ results reader,
              (calls.take count).mapM (fun call => BitReader.readBits call.numBits)
                  (BitReader.new writer.finish)
                = .ok results reader
              ∧ results.map UInt64.toNat = (calls.take count).map WriteCall.written
              ∧ ∀ numBits,
                  8 * writer.finish.length < totalBits (calls.take count) + numBits
                  → ∃ stopped,
                      BitReader.readBits numBits reader = .error .insufficientData stopped)
      ∧ ∀ (reader : BitReader) (numBits : Nat),
          reader.peekBits numBits
          = match BitReader.readBits numBits reader with
            | .ok value _ => .ok value
            | .error error _ => .error error := by
  refine ⟨?_, BitReader.peekBits_eq⟩
  have counted : (BitWriter.new.pushBits (calls.flatMap WriteCall.bits)).bitCount
      = totalBits calls := by
    rw [BitWriter.bitCount_pushBits, BitWriter.bitCount_new, Nat.zero_add, length_flatMap_bits]
  have sized := (BitWriter.new.pushBits (calls.flatMap WriteCall.bits)).sized
  have padded := (BitWriter.new.pushBits (calls.flatMap WriteCall.bits)).padded
  rw [counted] at sized padded
  refine ⟨_, emits_calls narrow BitWriter.new, sized, padded, ?_⟩
  intro count
  have shorter := totalBits_take_le calls count
  refine ⟨_, _, reads_written calls count,
    toNat_written fun call member => narrow call (List.mem_of_mem_take member), ?_⟩
  intro numBits past
  refine BitReader.readBitsLoop_past _ numBits 0 ?_ past
  change totalBits (calls.take count) ≤ 8 * (BitWriter.new.pushBits _).buffer.length
  omega

/-- Both kinds of calls at once, across a byte boundary and with a word of full width. -/
theorem bitIo_roundTrips_example
    : (∀ call ∈ [WriteCall.writeBit 9, .writeBits 0xFFFF 10, .writeBits 0 0, .writeBits 7 64],
        call.numBits ≤ 64)
      ∧ ∃ writer,
          forM [WriteCall.writeBit 9, .writeBits 0xFFFF 10, .writeBits 0 0, .writeBits 7 64]
              WriteCall.run BitWriter.new
            = .ok () writer
          ∧ writer.finish.length = 10 := by
  have narrow
      : ∀ call ∈ [WriteCall.writeBit 9, .writeBits 0xFFFF 10, .writeBits 0 0, .writeBits 7 64],
          call.numBits ≤ 64 := by
    decide
  obtain ⟨⟨writer, ran, sized, _⟩, _⟩ := bitIo_roundTrips _ narrow
  exact ⟨narrow, writer, ran, sized⟩

end GorillaTsdb.Compression

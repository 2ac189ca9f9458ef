import GorillaTsdb.Compression.TimestampRoundTrip
import GorillaTsdb.Compression.ValueCodec
import GorillaTsdb.Foundations.CheckedPrograms

/-! Both decompressors with the overflow checks of a debug build, on any buffer.
Every addition, subtraction and multiplication that could leave its type, every shift amount
and every index is checked as the source computes it. Each call panics exactly under a condition
on the fields and on the item that the unread bits begin with.
-/

namespace GorillaTsdb.Compression

open Foundations.BitSequences
open Foundations.TokenStreams
open Foundations.CheckedPrograms

-----------------------------------------------------------------------------------------
-- The items that the decoders accept
-----------------------------------------------------------------------------------------

/-- `read_bit` succeeds exactly on a bit. -/
theorem BitReader.parses_readBit
    : readerSource.Parses BitReader.readBit (fun bit => [bit])
        (fun bit => if bit then 1 else 0) where
  reads := BitReader.reads_readBit
  takes := by
    intro reader result after ran
    have inside : reader.bitPosition < 8 * reader.buffer.length := by
      by_contra outside
      rw [BitReader.readBit_past (by omega)] at ran
      cases ran
    have unread : readerSource.unread reader = [bitAt reader.buffer reader.bitPosition] ++ _ :=
      unpack_drop inside
    cases ran.symm.trans (BitReader.reads_readBit _ reader _ unread)
    exact ⟨_, _, unread, rfl, _, rfl⟩

/-- A program may go on differently after either bit. -/
theorem BitReader.takes_branch {α : Type} {next : UInt8 → EStateM CompressionError BitReader α}
    {accepted : List Bool → α → Prop}
    (zero : readerSource.Takes (next 0) fun more result => accepted (false :: more) result)
    (one : readerSource.Takes (next 1) fun more result => accepted (true :: more) result)
    : readerSource.Takes (BitReader.readBit >>= next) accepted := by
  refine BitReader.parses_readBit.takes_bind fun bit => ?_
  cases bit with
  | false => exact zero
  | true => exact one

/-- The loop of `read_bits` takes a bit per round, by induction on the rounds. -/
theorem BitReader.takes_readBitsLoop (numBits : Nat) (value : UInt64)
    : readerSource.Takes (BitReader.readBitsLoop numBits value) fun tokens _ =>
        tokens.length = numBits := by
  induction numBits generalizing value with
  | zero => exact .pure rfl
  | succ numBits ih =>
      refine BitReader.parses_readBit.takes_bind fun bit => ?_
      exact (ih _).imp fun length => congrArg Nat.succ length

/-- `read_bits` succeeds exactly on numbers of its width. -/
theorem BitReader.parses_readBits (numBits : Nat)
    : readerSource.Parses (BitReader.readBits numBits)
        (fun payload : Fin (2 ^ numBits) => msbBits numBits payload)
        (fun payload => UInt64.ofNat payload) where
  reads := by
    intro payload
    have reads := BitReader.reads_readBits numBits payload
    rwa [Nat.mod_eq_of_lt payload.isLt] at reads
  takes := by
    refine (BitReader.takes_readBitsLoop numBits 0).imp ?_
    intro tokens _ length
    subst length
    obtain ⟨payload, small, same⟩ := exists_msbBits tokens
    exact ⟨⟨payload, small⟩, same⟩

/-- The timestamp reader succeeds exactly on the items of the five buckets. -/
theorem parses_readDeltaOfDelta
    : readerSource.Parses readDeltaOfDelta
        (fun item : (bucket : Bucket) × Fin (2 ^ bucket.width) => item.1.item item.2)
        (fun item => item.1.extend item.2) where
  reads := by
    intro item
    have reads := reads_readDeltaOfDelta item.1 item.2
    rwa [Nat.mod_eq_of_lt item.2.isLt] at reads
  takes := by
    refine BitReader.takes_branch (.pure ⟨⟨.zero, 0⟩, rfl⟩) ?_
    refine BitReader.takes_branch ?_ ?_
    · refine (BitReader.parses_readBits 7).takes_bind fun payload => ?_
      exact .pure ⟨⟨.seven, payload⟩, rfl⟩
    refine BitReader.takes_branch ?_ ?_
    · refine (BitReader.parses_readBits 9).takes_bind fun payload => ?_
      dsimp only
      split <;> exact .pure ⟨⟨.nine, payload⟩, rfl⟩
    refine BitReader.takes_branch ?_ ?_
    · refine (BitReader.parses_readBits 12).takes_bind fun payload => ?_
      dsimp only
      split <;> exact .pure ⟨⟨.twelve, payload⟩, rfl⟩
    · refine (BitReader.parses_readBits 32).takes_bind fun payload => ?_
      exact .pure ⟨⟨.full, payload⟩, rfl⟩

-----------------------------------------------------------------------------------------
-- The decoders with checks
-----------------------------------------------------------------------------------------

namespace Checked

abbrev Program (σ α : Type) := EStateM (Fault CompressionError) σ α

abbrev addI64 {σ : Type} (left right : Int64) : Program σ Int64 :=
  checked (FitsInt64 (left.toInt + right.toInt)) (left + right)

abbrev subUsize {σ : Type} (left right : Usize) : Program σ Usize :=
  checked (right ≤ left) (left - right)

/-- `<<` on a `u64`, which checks the shift amount and no bit that it drops. -/
abbrev shlU64 {σ : Type} (word : UInt64) (amount : Usize) : Program σ UInt64 :=
  checked (amount < 64) (word <<< amount)

def BitReader.readBit : Program BitReader UInt8 := do
  let self ← get
  let limit ← checked (self.buffer.length * 8 < 2 ^ 64) (self.buffer.length * 8)
  if self.bitPosition ≥ limit then throw (.returned .insufficientData)
  else
    let byteIndex := self.bitPosition / 8
    let bitIndex ← checked (self.bitPosition % 8 ≤ 7) (7 - self.bitPosition % 8)
    let byte ← checked (byteIndex < self.buffer.length) (self.buffer.getD byteIndex 0)
    let shifted ← checked (bitIndex < 8) (byte >>> UInt8.ofNat bitIndex)
    let bit := shifted &&& 1
    let bitPosition ← checked (self.bitPosition + 1 < 2 ^ 64) (self.bitPosition + 1)
    set { self with bitPosition }
    pure bit

def BitReader.readBitsLoop : Nat → UInt64 → Program BitReader UInt64
  | 0, value => pure value
  | numBits + 1, value => do
      let bit ← BitReader.readBit
      BitReader.readBitsLoop numBits ((value <<< 1) ||| bit.toUInt64)

def BitReader.readBits (numBits : Nat) : Program BitReader UInt64 :=
  BitReader.readBitsLoop numBits 0

def readDeltaOfDelta : Program BitReader Int64 := do
  if (← BitReader.readBit) == 0 then
    pure 0
  else
    let nextBit ← BitReader.readBit
    if nextBit == 0 then
      let bits := (← BitReader.readBits 7).toUInt8
      pure bits.toInt8.toInt64
    else
      let nextBit ← BitReader.readBit
      if nextBit == 0 then
        let bits := (← BitReader.readBits 9).toUInt16
        if bits &&& 0x100 != 0 then
          pure (bits ||| 0xFE00).toInt16.toInt64
        else
          pure bits.toInt16.toInt64
      else
        let nextBit ← BitReader.readBit
        if nextBit == 0 then
          let bits := (← BitReader.readBits 12).toUInt16
          if bits &&& 0x800 != 0 then
            pure (bits ||| 0xF000).toInt16.toInt64
          else
            pure bits.toInt16.toInt64
        else
          pure (← BitReader.readBits 32).toUInt32.toInt32.toInt64

def TimestampDecompressor.decompress
    : Program (TimestampDecompressor × BitReader) UInt64 := do
  let self ← getFields
  let deltaOfDelta ← onStream readDeltaOfDelta
  let delta ← addI64 self.lastDelta deltaOfDelta
  let timestamp := (← addI64 self.lastTimestamp.toInt64 delta).toUInt64
  setFields { self with lastTimestamp := timestamp, lastDelta := delta }
  pure timestamp

/-- The fields are assigned before the last shift, whose amount may be too large. -/
def ValueDecompressor.readXor : Program (ValueDecompressor × BitReader) UInt64 := do
  let self ← getFields
  if (← onStream BitReader.readBit) == 0 then
    let remaining ← subUsize 64 self.lastLeadingZeros
    let meaningfulBits ← subUsize remaining self.lastTrailingZeros
    let shiftedXor ← onStream (BitReader.readBits meaningfulBits.toNat)
    shlU64 shiftedXor self.lastTrailingZeros
  else
    let leading ← onStream (BitReader.readBits 5)
    let meaningfulBits ← onStream (BitReader.readBits 6)
    let remaining ← subUsize 64 leading
    let trailing ← subUsize remaining meaningfulBits
    let shiftedXor ← onStream (BitReader.readBits meaningfulBits.toNat)
    setFields { self with lastLeadingZeros := leading, lastTrailingZeros := trailing }
    shlU64 shiftedXor trailing

def ValueDecompressor.decompress : Program (ValueDecompressor × BitReader) F64 := do
  if (← onStream BitReader.readBit) == 0 then
    let self ← getFields
    pure self.lastValue
  else
    let xor ← ValueDecompressor.readXor
    let self ← getFields
    let currentBits := self.lastValue.toBits ^^^ xor
    let value := F64.fromBits currentBits
    setFields { self with lastValue := value }
    pure value

end Checked

-----------------------------------------------------------------------------------------
-- Where the checks fail
-----------------------------------------------------------------------------------------

/-- The number of bits of the buffer is a `usize`. -/
def BitReader.Addressable (self : BitReader) : Prop := self.buffer.length * 8 < 2 ^ 64

/-- No check of `read_bit` fails but the one on the number of bits. -/
theorem checks_readBit
    : Checks BitReader.Addressable (fun _ => True) Checked.BitReader.readBit
        BitReader.readBit where
  agrees := by
    intro self addressable _
    unfold BitReader.Addressable at addressable
    rw [Checked.BitReader.readBit, get_bind, checked_bind addressable]
    by_cases ended : self.bitPosition ≥ self.buffer.length * 8
    · rw [unchecked_error (BitReader.readBit_past ended), if_pos ended]
      rfl
    · have byte : self.bitPosition / 8 < self.buffer.length := by omega
      rw [if_neg ended, checked_bind (by omega : self.bitPosition % 8 ≤ 7), checked_bind byte,
        checked_bind (by omega : 7 - self.bitPosition % 8 < 8),
        checked_bind (by omega : self.bitPosition + 1 < 2 ^ 64), unchecked, BitReader.readBit,
        if_neg ended]
      rfl
  panics := fun _ fails => absurd trivial fails
  keeps := by
    intro self addressable _
    unfold BitReader.readBit
    split <;> exact addressable

/-- By induction on the number of bits. -/
theorem checks_readBitsLoop (numBits : Nat) (value : UInt64)
    : Checks BitReader.Addressable (fun _ => True)
        (Checked.BitReader.readBitsLoop numBits value)
        (BitReader.readBitsLoop numBits value) := by
  induction numBits generalizing value with
  | zero => exact .pure value
  | succ numBits ih => exact checks_readBit.bind_total fun bit => ih _

theorem checks_readBits (numBits : Nat)
    : Checks BitReader.Addressable (fun _ => True) (Checked.BitReader.readBits numBits)
        (BitReader.readBits numBits) :=
  checks_readBitsLoop numBits 0

/-- Reading a delta-of-delta computes nothing that could leave its type. -/
theorem checks_readDeltaOfDelta
    : Checks BitReader.Addressable (fun _ => True) Checked.readDeltaOfDelta
        readDeltaOfDelta := by
  have decided {choice : Prop} [Decidable choice]
      {program program' : Checked.Program BitReader Int64}
      {plain plain' : EStateM CompressionError BitReader Int64}
      (yes : Checks BitReader.Addressable (fun _ => True) program plain)
      (no : Checks BitReader.Addressable (fun _ => True) program' plain')
      : Checks BitReader.Addressable (fun _ => True) (if choice then program else program')
          (if choice then plain else plain') := by
    split
    · exact yes
    · exact no
  refine checks_readBit.bind_total fun first => decided (.pure _) ?_
  refine checks_readBit.bind_total fun second => decided ?_ ?_
  · exact (checks_readBits 7).bind_total fun bits => .pure _
  refine checks_readBit.bind_total fun third => decided ?_ ?_
  · exact (checks_readBits 9).bind_total fun bits => decided (.pure _) (.pure _)
  refine checks_readBit.bind_total fun fourth => decided ?_ ?_
  · exact (checks_readBits 12).bind_total fun bits => decided (.pure _) (.pure _)
  · exact (checks_readBits 32).bind_total fun bits => .pure _

/-- Both sums of a timestamp call stay within an `i64`. -/
def TimestampDecompressor.SafeInput (self : TimestampDecompressor) (unread : List Bool)
    : Prop :=
  ∀ (bucket : Bucket) (payload : Fin (2 ^ bucket.width)) (rest : List Bool),
    unread = bucket.item payload ++ rest
    → let delta := self.lastDelta.toInt + (bucket.extend payload).toInt
      FitsInt64 delta ∧ FitsInt64 (self.lastTimestamp.toInt64.toInt + delta)

theorem TimestampDecompressor.checks_decompress
    : Checks (Within (fun _ => True) BitReader.Addressable)
        (OnUnread readerSource TimestampDecompressor.SafeInput)
        Checked.TimestampDecompressor.decompress TimestampDecompressor.decompress := by
  refine Checks.fields fun {self} _ => Checks.of_iff _ (Checks.parse
    (fun deltaOfDelta _ _ =>
      let delta := self.lastDelta.toInt + deltaOfDelta.toInt
      FitsInt64 delta ∧ FitsInt64 (self.lastTimestamp.toInt64.toInt + delta))
    checks_readDeltaOfDelta parses_readDeltaOfDelta fun deltaOfDelta => ?_) ?_
  · refine Checks.of_iff
      (fun _ =>
        FitsInt64 (self.lastDelta.toInt + deltaOfDelta.toInt)
        ∧ FitsInt64 (self.lastTimestamp.toInt64.toInt + (self.lastDelta + deltaOfDelta).toInt)
        ∧ True) ?_ ?_
    · refine Checks.check fun _ => Checks.check fun _ => ?_
      exact (Checks.setFields trivial).bind_total fun _ => .pure _
    · refine fun _ _ => and_congr_right fun fits => ?_
      rw [toInt_add_exact fits, and_true]
  · intro state _
    simp only [OnUnread, TimestampDecompressor.SafeInput, Sigma.forall]

/-- The window fields describe a part of a 64-bit word. -/
def ValueDecompressor.InWord (self : ValueDecompressor) : Prop :=
  self.lastLeadingZeros ≤ 64
  ∧ self.lastTrailingZeros ≤ 64 - self.lastLeadingZeros
  ∧ self.lastTrailingZeros < 64

theorem ValueDecompressor.inWord_new (firstValue : F64)
    : (ValueDecompressor.new firstValue).InWord :=
  (by decide : (0 : Usize) ≤ 64 ∧ (0 : Usize) ≤ 64 - 0 ∧ (0 : Usize) < 64)

/-- A new window is a part of a 64-bit word, and not an empty one at its end. -/
def ValueDecompressor.SafeInput (unread : List Bool) : Prop :=
  ∀ (leading : Fin 32) (meaningful : Fin 64) (rest : List Bool),
    unread = [true, true] ++ msbBits 5 leading ++ msbBits 6 meaningful ++ rest
    → 1 ≤ leading.val + meaningful.val ∧ leading.val + meaningful.val ≤ 64

/-- What the checks of a new window demand. The shift is reached if its bits can be read. -/
def NewWindowFits (leading meaningful : Usize) (tokens : List Bool) : Prop :=
  leading ≤ 64
  ∧ meaningful ≤ 64 - leading
  ∧ ∀ (payload : Fin (2 ^ meaningful.toNat)) (rest : List Bool),
      tokens = msbBits meaningful.toNat payload ++ rest → 64 - leading - meaningful < 64

/-- Without meaningful bits, nothing needs to be read for the shift. -/
theorem newWindowFits_iff (leading : Fin 32) (meaningful : Fin 64) (tokens : List Bool)
    : NewWindowFits (UInt64.ofNat leading) (UInt64.ofNat meaningful) tokens
      ↔ 1 ≤ leading.val + meaningful.val ∧ leading.val + meaningful.val ≤ 64 := by
  have leadingNat : (UInt64.ofNat leading).toNat = leading := by
    rw [UInt64.toNat_ofNat']
    omega
  have meaningfulNat : (UInt64.ofNat meaningful).toNat = meaningful := by
    rw [UInt64.toNat_ofNat']
    omega
  have small : UInt64.ofNat leading ≤ 64 := by
    rw [UInt64.le_iff_toNat_le, leadingNat]
    exact Nat.le_of_lt (by simpa using Nat.lt_trans leading.isLt (by decide : 32 < 64))
  have remaining := UInt64.toNat_sub_of_le 64 (UInt64.ofNat leading) small
  rw [leadingNat, (by rfl : (64 : UInt64).toNat = 64)] at remaining
  have fits : UInt64.ofNat meaningful ≤ 64 - UInt64.ofNat leading
      ↔ leading.val + meaningful.val ≤ 64 := by
    rw [UInt64.le_iff_toNat_le, meaningfulNat, remaining]
    omega
  rw [NewWindowFits, and_iff_right small, fits, and_comm]
  refine and_congr_left fun within => ?_
  have trailing := UInt64.toNat_sub_of_le _ _ (fits.mpr within)
  rw [remaining, meaningfulNat] at trailing
  rw [UInt64.lt_iff_toNat_lt, trailing, (by rfl : (64 : UInt64).toNat = 64)]
  constructor
  · intro shifts
    by_contra empty
    have none : meaningful.val = 0 := by omega
    have shift := shifts ⟨0, Nat.two_pow_pos _⟩ tokens (by rw [meaningfulNat, none]; rfl)
    omega
  · intro nonempty payload rest _
    omega

/-- Behind the bits that announce a new window, its fields may be met one after the other. -/
theorem ValueDecompressor.safeInput_iff (tokens : List Bool)
    : ValueDecompressor.SafeInput (true :: true :: tokens)
      ↔ ∀ (leading : Fin (2 ^ 5)) rest,
          tokens = msbBits 5 leading ++ rest
          → ∀ (meaningful : Fin (2 ^ 6)) rest',
              rest = msbBits 6 meaningful ++ rest'
              → NewWindowFits (UInt64.ofNat leading) (UInt64.ofNat meaningful) rest' := by
  constructor
  · intro safe leading rest first meaningful rest' second
    refine (newWindowFits_iff leading meaningful rest').mpr ?_
    refine safe leading meaningful rest' ?_
    rw [first, second, List.append_assoc, List.append_assoc]
    rfl
  · intro fits leading meaningful rest unread
    refine (newWindowFits_iff leading meaningful rest).mp ?_
    rw [List.append_assoc, List.append_assoc] at unread
    exact fits leading _ (List.cons.inj (List.cons.inj unread).2).2 meaningful rest rfl

/-- The old window passes its checks in any state; a new one is checked as it is read. -/
theorem ValueDecompressor.checks_readXor
    : Checks (Within ValueDecompressor.InWord BitReader.Addressable)
        (OnUnread readerSource fun _ tokens => ValueDecompressor.SafeInput (true :: tokens))
        Checked.ValueDecompressor.readXor ValueDecompressor.readXor := by
  refine Checks.fields fun {self} window => Checks.of_iff _ (Checks.parse
    (fun bit _ tokens =>
      if bit == 0 then True
      else
        ∀ (leading : Fin (2 ^ 5)) rest,
          tokens = msbBits 5 leading ++ rest
          → ∀ (meaningful : Fin (2 ^ 6)) rest',
              rest = msbBits 6 meaningful ++ rest'
              → NewWindowFits (UInt64.ofNat leading) (UInt64.ofNat meaningful) rest')
    checks_readBit BitReader.parses_readBit fun bit => Checks.ite (fun _ => ?_) fun _ => ?_) ?_
  · -- the old window
    refine Checks.check_passed window.1 (Checks.check_passed window.2.1 ?_)
    exact (checks_readBits _).onStream.bind_total fun _ => Checks.check_last_passed window.2.2
  · -- a new window
    refine Checks.parse
      (fun leading _ tokens =>
        ∀ (meaningful : Fin (2 ^ 6)) rest,
          tokens = msbBits 6 meaningful ++ rest
          → NewWindowFits leading (UInt64.ofNat meaningful) rest)
      (checks_readBits 5) (BitReader.parses_readBits 5) fun leading => ?_
    refine Checks.parse (fun meaningful _ tokens => NewWindowFits leading meaningful tokens)
      (checks_readBits 6) (BitReader.parses_readBits 6) fun meaningful => ?_
    refine Checks.check fun fitsLeading => Checks.check fun fitsMeaningful => ?_
    refine Checks.parse (fun _ _ _ => 64 - leading - meaningful < 64)
      (checks_readBits _) (BitReader.parses_readBits _) fun shiftedXor => ?_
    have less : 64 - leading - meaningful ≤ 64 - leading := by
      rw [UInt64.le_iff_toNat_le, UInt64.toNat_sub_of_le _ _ fitsMeaningful]
      exact Nat.sub_le _ _
    exact Checks.of_iff (fun _ => 64 - leading - meaningful < 64)
      (Checks.setFields_check fun fitsShift => ⟨fitsLeading, less, fitsShift⟩) fun _ _ => Iff.rfl
  · intro state _
    constructor
    · intro safe bit rest unread
      cases bit with
      | false => trivial
      | true =>
          refine (ValueDecompressor.safeInput_iff rest).mp ?_
          change ValueDecompressor.SafeInput (true :: ([true] ++ rest))
          rwa [← unread]
    · intro fits leading meaningful rest unread
      refine (ValueDecompressor.safeInput_iff _).mpr (fits true _ ?_) leading meaningful rest rfl
      exact (List.cons.inj unread).2

/-- A value call is safe exactly if a new window that it may read is. -/
theorem ValueDecompressor.checks_decompress
    : Checks (Within ValueDecompressor.InWord BitReader.Addressable)
        (OnUnread readerSource fun _ tokens => ValueDecompressor.SafeInput tokens)
        Checked.ValueDecompressor.decompress ValueDecompressor.decompress := by
  refine Checks.of_iff _ (Checks.parse
    (fun bit _ tokens => if bit == 0 then True else ValueDecompressor.SafeInput (true :: tokens))
    checks_readBit BitReader.parses_readBit fun bit => Checks.ite (fun _ => ?_) fun _ => ?_) ?_
  · exact Checks.of_iff (OnUnread readerSource fun _ _ => True)
      (Checks.fields fun _ => .pure _) fun _ _ => Iff.rfl
  · refine ValueDecompressor.checks_readXor.bind_total fun xor => ?_
    refine Checks.of_iff (OnUnread readerSource fun _ _ => True)
      (Checks.fields fun {self} window => ?_) fun _ _ => Iff.rfl
    refine Checks.bind_total (Checks.setFields ?_) fun _ => .pure _
    exact window
  · intro state _
    constructor
    · intro safe bit rest unread
      cases bit with
      | false => trivial
      | true =>
          change ValueDecompressor.SafeInput ([true] ++ rest)
          rwa [← unread]
    · intro fits leading meaningful rest unread
      exact fits true _ unread leading meaningful rest rfl

end GorillaTsdb.Compression

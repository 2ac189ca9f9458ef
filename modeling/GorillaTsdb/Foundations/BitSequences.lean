import Mathlib.Data.Nat.Bitwise
import Mathlib.Data.List.Basic
import Mathlib.Tactic.IntervalCases
import Mathlib.Tactic.Ring

/-! Byte strings and numbers read as bit sequences, most significant bit first.
Nothing here depends on who writes the bits; byte-oriented writers and readers are related
to these sequences in their own modules.
-/

namespace Foundations.BitSequences

/-- The `width` low bits of `value`, most significant first. -/
def msbBits : Nat → Nat → List Bool
  | 0, _ => []
  | width + 1, value => value.testBit width :: msbBits width value

/-- The number read from `bits` after `acc`: every bit doubles it and is added to it. -/
def accumulate (acc : Nat) (bits : List Bool) : Nat :=
  bits.foldl (fun value bit => 2 * value + bit.toNat) acc

@[simp]
theorem length_msbBits (width value : Nat) : (msbBits width value).length = width := by
  induction width with
  | zero => rfl
  | succ width ih => simp [msbBits, ih]

/-- Reading a fixed-width sequence back yields the value modulo the width, by induction on
the width: the leading bit is the quotient of the longer remainder.
-/
theorem accumulate_msbBits (acc width value : Nat)
    : accumulate acc (msbBits width value) = acc * 2 ^ width + value % 2 ^ width := by
  induction width generalizing acc with
  | zero => simp [accumulate, msbBits, Nat.mod_one]
  | succ width ih =>
      have split : value % 2 ^ (width + 1)
          = 2 ^ width * (value.testBit width).toNat + value % 2 ^ width := by
        rw [Nat.mod_pow_succ, Nat.toNat_testBit, Nat.add_comm]
      have step := ih (2 * acc + (value.testBit width).toNat)
      simp only [accumulate, msbBits, List.foldl_cons] at step ⊢
      rw [step, split, Nat.pow_succ]
      ring

/-- The bits above a remainder do not appear in a narrower sequence. -/
theorem msbBits_mod {width bound : Nat} (value : Nat) (narrow : width ≤ bound)
    : msbBits width (value % 2 ^ bound) = msbBits width value := by
  induction width with
  | zero => rfl
  | succ width ih =>
      have below : width < bound := narrow
      simp only [msbBits, Nat.testBit_mod_two_pow, below, decide_true, Bool.true_and,
        ih (Nat.le_of_succ_le narrow)]

/-- Equal fixed-width sequences carry equal remainders, by reading both back. -/
theorem mod_eq_of_msbBits_eq {width left right : Nat}
    (same : msbBits width left = msbBits width right)
    : left % 2 ^ width = right % 2 ^ width := by
  have read := congrArg (accumulate 0) same
  simpa only [accumulate_msbBits, Nat.zero_mul, Nat.zero_add] using read

/-- Every bit sequence is the fixed-width sequence of a number, by induction on the sequence. -/
theorem exists_msbBits (bits : List Bool)
    : ∃ value < 2 ^ bits.length, bits = msbBits bits.length value := by
  induction bits with
  | nil => exact ⟨0, Nat.one_pos, rfl⟩
  | cons bit rest ih =>
      obtain ⟨value, small, same⟩ := ih
      have bound : bit.toNat < 2 := bit.toNat_lt
      refine ⟨2 ^ rest.length * bit.toNat + value, ?_, ?_⟩
      · rw [List.length_cons, Nat.pow_succ]
        have whole := Nat.mul_le_mul_left (2 ^ rest.length) (Nat.le_of_lt_succ bound)
        omega
      · have top : (2 ^ rest.length * bit.toNat + value).testBit rest.length = bit := by
          rw [Nat.testBit_two_pow_mul_add _ small, if_neg (Nat.lt_irrefl _), Nat.sub_self]
          cases bit <;> rfl
        have low : (2 ^ rest.length * bit.toNat + value) % 2 ^ rest.length = value := by
          rw [Nat.mul_add_mod, Nat.mod_eq_of_lt small]
        rw [List.length_cons, msbBits, top, ← msbBits_mod _ (Nat.le_refl rest.length), low, ← same]

/-- The bit at `position` of a byte string; positions past its end read as zero. -/
def bitAt (bytes : List UInt8) (position : Nat) : Bool :=
  (bytes.getD (position / 8) 0).toNat.testBit (7 - position % 8)

/-- The first `count` bits of a byte string. -/
def leadingBits (bytes : List UInt8) (count : Nat) : List Bool :=
  (List.range count).map (bitAt bytes)

/-- All bits of a byte string. -/
def unpack (bytes : List UInt8) : List Bool :=
  leadingBits bytes (8 * bytes.length)

@[simp]
theorem length_leadingBits (bytes : List UInt8) (count : Nat)
    : (leadingBits bytes count).length = count := by
  simp [leadingBits]

@[simp]
theorem length_unpack (bytes : List UInt8) : (unpack bytes).length = 8 * bytes.length := by
  simp [unpack]

theorem leadingBits_congr {left right : List UInt8} {count : Nat}
    (same : ∀ position < count, bitAt left position = bitAt right position)
    : leadingBits left count = leadingBits right count := by
  apply List.map_congr_left
  intro position member
  exact same position (List.mem_range.mp member)

theorem leadingBits_succ (bytes : List UInt8) (count : Nat)
    : leadingBits bytes (count + 1) = leadingBits bytes count ++ [bitAt bytes count] := by
  simp [leadingBits, List.range_succ]

/-- Bytes whose bits from `count` on are zero unpack to their leading bits and padding. -/
theorem unpack_padded {bytes : List UInt8} {count : Nat}
    (within : count ≤ 8 * bytes.length)
    (padded : ∀ position, count ≤ position → bitAt bytes position = false)
    : unpack bytes
      = leadingBits bytes count ++ List.replicate (8 * bytes.length - count) false := by
  apply List.ext_getElem
  · simp; omega
  · intro position _ _
    by_cases early : position < count
    · rw [List.getElem_append_left (by simpa using early)]
      simp [unpack, leadingBits]
    · rw [List.getElem_append_right (by simpa using early)]
      simpa [unpack, leadingBits] using padded position (by omega)

/-- Unread bits begin with the bit at the current position. -/
theorem unpack_drop {bytes : List UInt8} {position : Nat}
    (within : position < 8 * bytes.length)
    : (unpack bytes).drop position
      = bitAt bytes position :: (unpack bytes).drop (position + 1) := by
  rw [List.drop_eq_getElem_cons (by simpa using within)]
  simp [unpack, leadingBits]

/-- The bits of a byte string begin with those of its beginning. -/
theorem unpack_beginning {shorter bytes : List UInt8} (beginning : shorter <+: bytes)
    : unpack shorter <+: unpack bytes := by
  obtain ⟨more, rfl⟩ := beginning
  have same : leadingBits shorter (8 * shorter.length)
      = leadingBits (shorter ++ more) (8 * shorter.length) := by
    apply leadingBits_congr
    intro position inside
    have byte : position / 8 < shorter.length := by omega
    simp only [bitAt, List.getD_eq_getElem?_getD, List.getElem?_append_left byte]
  rw [unpack, same, unpack, List.length_append, Nat.mul_add]
  simp only [leadingBits, List.range_add, List.map_append]
  exact List.prefix_append _ _

/-- A fresh zero byte changes no bit, since missing bytes already read as zero. -/
theorem bitAt_append_zero (bytes : List UInt8) (position : Nat)
    : bitAt (bytes ++ [0]) position = bitAt bytes position := by
  unfold bitAt
  congr 2
  by_cases inside : position / 8 < bytes.length
  · simp [List.getD_eq_getElem?_getD, List.getElem?_append_left inside]
  · simp only [List.getD_eq_getElem?_getD]
    rw [List.getElem?_append_right (by omega), List.getElem?_eq_none (by omega : bytes.length ≤ _)]
    cases position / 8 - bytes.length <;> simp

/-- One bit of a byte after a single bit has been set in it. -/
theorem testBit_setBit (byte : UInt8) {index : Nat} (small : index < 8) (bit : Nat)
    : (byte ||| 1 <<< UInt8.ofNat index).toNat.testBit bit
      = (byte.toNat.testBit bit || decide (bit = index)) := by
  have shift : (1 <<< UInt8.ofNat index : UInt8).toNat = 2 ^ index := by
    interval_cases index <;> rfl
  rw [UInt8.toNat_or, Nat.testBit_or, shift, Nat.testBit_two_pow]
  congr 1
  simp [eq_comm]

/-- Setting the bit at `target` inside its byte sets exactly that bit of the string. -/
theorem bitAt_setBit {bytes : List UInt8} {target : Nat}
    (within : target / 8 < bytes.length) (position : Nat)
    : bitAt
          (bytes.modify (target / 8) (· ||| 1 <<< UInt8.ofNat (7 - target % 8)))
          position
      = (bitAt bytes position || decide (position = target)) := by
  unfold bitAt
  simp only [List.getD_eq_getElem?_getD, List.getElem?_modify]
  by_cases sameByte : target / 8 = position / 8
  · have inside : position / 8 < bytes.length := sameByte ▸ within
    simp only [if_pos sameByte, List.getElem?_eq_getElem inside, Option.map_eq_map,
      Option.map_some, Option.getD_some]
    rw [testBit_setBit _ (by omega)]
    congr 2
    rw [eq_iff_iff]
    omega
  · have different : position ≠ target := fun same => sameByte (by rw [same])
    simp [sameByte, different]

end Foundations.BitSequences

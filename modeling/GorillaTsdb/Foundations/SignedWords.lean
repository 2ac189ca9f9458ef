import Mathlib.Data.Nat.Bitwise
import Mathlib.Tactic.Ring

/-! Two's-complement payloads inside fixed-width words: masks, truncations and sign
extension, stated with balanced remainders.
-/

namespace Foundations.SignedWords

/-- A 16-bit word read as a signed one. -/
theorem toInt_toInt16 (word : UInt16)
    : word.toInt16.toInt = (word.toNat : Int).bmod (2 ^ 16) :=
  BitVec.toInt_eq_toNat_bmod word.toBitVec

/-- A 32-bit word read as a signed one. -/
theorem toInt_toInt32 (word : UInt32)
    : word.toInt32.toInt = (word.toNat : Int).bmod (2 ^ 32) :=
  BitVec.toInt_eq_toNat_bmod word.toBitVec

/-- A 64-bit word read as a signed one. -/
theorem toInt_toInt64 (word : UInt64)
    : word.toInt64.toInt = (word.toNat : Int).bmod (2 ^ 64) :=
  BitVec.toInt_eq_toNat_bmod word.toBitVec

/-- Words from the middle of the range on are read as negative ones. -/
theorem toInt_toInt64_cases (word : UInt64)
    : (word.toNat < 2 ^ 63 ∧ word.toInt64.toInt = word.toNat)
      ∨ (2 ^ 63 ≤ word.toNat ∧ word.toInt64.toInt = word.toNat - 2 ^ 64) := by
  have small := word.toNat_lt
  rw [toInt_toInt64]
  rcases Nat.lt_or_ge word.toNat (2 ^ 63) with low | high
  · exact Or.inl ⟨low, Int.bmod_eq_of_le_mul_two (by omega) (by omega)⟩
  · refine Or.inr ⟨high, ?_⟩
    rw [← Int.sub_bmod_right]
    exact Int.bmod_eq_of_le_mul_two (by omega) (by omega)

/-- The signed difference of two words is the balanced difference of their values. -/
theorem toInt_sub_toInt64 (left right : UInt64)
    : (left.toInt64 - right.toInt64).toInt
      = ((left.toNat : Int) - right.toNat).bmod (2 ^ 64) := by
  rw [Int64.toInt_sub, toInt_toInt64, toInt_toInt64, Int.sub_bmod_bmod, Int.bmod_sub_bmod]

/-- A 64-bit word is its signed value modulo the word size. -/
theorem toNat_toUInt64 (value : Int64)
    : (value.toUInt64.toNat : Int) = value.toInt % 2 ^ 64 := by
  have signed : value.toInt = (value.toUInt64.toNat : Int).bmod (2 ^ 64) :=
    BitVec.toInt_eq_toNat_bmod value.toBitVec
  have small := value.toUInt64.toNat_lt
  rw [signed, Int.bmod_def]
  split <;> omega

/-- The low bits of a word are the signed value's remainder. -/
theorem toInt_payload (value : Int64) {width : Nat} (narrow : width ≤ 64)
    : ((value.toUInt64.toNat % 2 ^ width : Nat) : Int) = value.toInt % 2 ^ width := by
  push_cast
  rw [toNat_toUInt64, Int.emod_emod_of_dvd]
  exact pow_dvd_pow 2 narrow

/-- Sign-extending the low bits of a word yields the balanced remainder of its value. -/
theorem toInt_extended (value : Int64) {width : Nat} (narrow : width ≤ 63)
    : (Int64.ofInt (((value.toUInt64.toNat % 2 ^ width : Nat) : Int).bmod (2 ^ width))).toInt
      = value.toInt.bmod (2 ^ width) := by
  have bound : 2 ^ width ≤ 2 ^ 63 := Nat.pow_le_pow_right (by decide) narrow
  have lower := Int.le_bmod (x := value.toInt) (Nat.two_pow_pos width)
  have upper := Int.bmod_lt (x := value.toInt) (Nat.two_pow_pos width)
  have remainder := Int.emod_bmod value.toInt (2 ^ width)
  rw [Nat.cast_pow, Nat.cast_ofNat] at remainder
  rw [toInt_payload value (by omega), remainder, Int64.toInt_ofInt_of_le (by omega) (by omega)]

/-- A balanced remainder is the value itself exactly on the balanced range. -/
theorem bmod_eq_self_iff (value : Int) {half : Nat} (positive : 0 < half)
    : value.bmod (2 * half) = value ↔ -half ≤ value ∧ value < half := by
  have lower := Int.le_bmod (x := value) (by omega : 0 < 2 * half)
  have upper := Int.bmod_lt (x := value) (by omega : 0 < 2 * half)
  constructor
  · intro same
    omega
  · rintro ⟨above, below⟩
    exact Int.bmod_eq_of_le_mul_two (by omega) (by omega)

/-- Masking a truncated word keeps the payload under the mask. -/
theorem mask_payload (value : Nat) {width bound : Nat} (narrow : width ≤ bound)
    : (value % 2 ^ bound &&& (2 ^ width - 1)) % 2 ^ width = value % 2 ^ width := by
  rw [Nat.and_two_pow_sub_one_eq_mod, Nat.mod_mod, Nat.mod_mod_of_dvd]
  exact Nat.pow_dvd_pow 2 narrow

/-- The top bit of a payload says whether it reaches half of its range. -/
theorem testBit_top {width payload : Nat} (small : payload < 2 ^ (width + 1))
    : payload.testBit width = decide (2 ^ width ≤ payload) := by
  rw [Nat.testBit_eq_decide_div_mod_eq]
  have double : 2 ^ (width + 1) = 2 * 2 ^ width := by ring
  have positive : 0 < 2 ^ width := Nat.two_pow_pos width
  by_cases high : 2 ^ width ≤ payload
  · have one : payload / 2 ^ width = 1 := by
      rw [Nat.div_eq_iff positive]
      omega
    simp [one, high]
  · have zero : payload / 2 ^ width = 0 := Nat.div_eq_of_lt (by omega)
    simp [zero, high]

/-- Setting every bit above a payload in a 16-bit word adds those bits. -/
theorem fill_word {width payload : Nat} (narrow : width < 16) (small : payload < 2 ^ width)
    : (UInt16.ofNat payload ||| UInt16.ofNat (2 ^ 16 - 2 ^ width)).toNat
      = payload + (2 ^ 16 - 2 ^ width) := by
  have less : 2 ^ width ≤ 2 ^ 16 := Nat.pow_le_pow_right (by decide) (Nat.le_of_lt narrow)
  have positive : 0 < 2 ^ width := Nat.two_pow_pos width
  have fill : 2 ^ 16 - 2 ^ width = 2 ^ width * (2 ^ (16 - width) - 1) := by
    rw [Nat.mul_sub, ← Nat.pow_add, Nat.add_sub_cancel' (Nat.le_of_lt narrow), Nat.mul_one]
  rw [UInt16.toNat_or, UInt16.toNat_ofNat', UInt16.toNat_ofNat', Nat.mod_eq_of_lt (by omega),
    Nat.mod_eq_of_lt (by omega), fill, Nat.or_comm, ← Nat.two_pow_add_eq_or_of_lt small,
    Nat.add_comm]

/-- Hand-written sign extension of a payload inside a 16-bit word: its top bit decides
whether every bit above it is set.
Witness: in the upper half both sides are the payload less its range, in the lower half
both are the payload.
-/
theorem signExtend_word {width payload : Nat} (narrow : width < 15)
    (small : payload < 2 ^ (width + 1))
    : (if UInt16.ofNat payload &&& UInt16.ofNat (2 ^ width) != 0 then
          (UInt16.ofNat payload ||| UInt16.ofNat (2 ^ 16 - 2 ^ (width + 1))).toInt16.toInt64
        else (UInt16.ofNat payload).toInt16.toInt64)
      = Int64.ofInt ((payload : Int).bmod (2 ^ (width + 1))) := by
  have double : 2 ^ (width + 1) = 2 * 2 ^ width := by ring
  have less : 2 ^ (width + 1) ≤ 2 ^ 15 := Nat.pow_le_pow_right (by decide) narrow
  have positive : 0 < 2 ^ width := Nat.two_pow_pos width
  have plain : (UInt16.ofNat payload).toNat = payload := by
    rw [UInt16.toNat_ofNat', Nat.mod_eq_of_lt (by omega)]
  have signed : (UInt16.ofNat payload &&& UInt16.ofNat (2 ^ width) != 0)
      = decide (2 ^ width ≤ payload) := by
    have masked : (UInt16.ofNat payload &&& UInt16.ofNat (2 ^ width)).toNat
        = (decide (2 ^ width ≤ payload)).toNat * 2 ^ width := by
      rw [UInt16.toNat_and, plain, UInt16.toNat_ofNat', Nat.mod_eq_of_lt (by omega),
        Nat.and_two_pow, testBit_top small]
    by_cases high : 2 ^ width ≤ payload
    · simp only [high, decide_true, Bool.toNat_true, Nat.one_mul] at masked
      simp only [high, decide_true, bne_iff_ne, ne_eq, ← UInt16.toNat_inj, masked,
        UInt16.toNat_zero]
      omega
    · simp only [high, decide_false, Bool.toNat_false, Nat.zero_mul] at masked
      simpa [high, ← UInt16.toNat_inj] using masked
  apply Int64.toInt_inj.mp
  rw [signed, Int64.toInt_ofInt]
  by_cases high : 2 ^ width ≤ payload
  · have wrapped : (payload : Int).bmod (2 ^ (width + 1)) = payload - (2 ^ (width + 1) : Nat) := by
      rw [← Int.sub_bmod_right]
      exact Int.bmod_eq_of_le_mul_two (by omega) (by omega)
    have filled : ((payload + (2 ^ 16 - 2 ^ (width + 1)) : Nat) : Int).bmod (2 ^ 16)
        = payload - (2 ^ (width + 1) : Nat) := by
      rw [← Int.sub_bmod_right, Int.bmod_eq_of_le_mul_two (by omega) (by omega)]
      omega
    simp only [high, decide_true, if_true, Int16.toInt_toInt64, toInt_toInt16,
      fill_word (by omega : width + 1 < 16) small, wrapped, filled]
    rw [Int.bmod_eq_of_le_mul_two] <;> simp only [Int64.size] <;> omega
  · have wrapped : (payload : Int).bmod (2 ^ (width + 1)) = payload :=
      Int.bmod_eq_of_le_mul_two (by omega) (by omega)
    have unfilled : (payload : Int).bmod (2 ^ 16) = payload :=
      Int.bmod_eq_of_le_mul_two (by omega) (by omega)
    simp only [high, decide_false, Bool.false_eq_true, if_false, Int16.toInt_toInt64,
      toInt_toInt16, plain, wrapped, unfilled]
    rw [Int.bmod_eq_of_le_mul_two] <;> simp only [Int64.size] <;> omega

/-- A payload below the sign bit of a byte is non-negative as a signed byte. -/
theorem signed_byte {payload : Nat} (small : payload < 2 ^ 7)
    : (UInt64.ofNat payload).toUInt8.toInt8.toInt64 = Int64.ofNat payload := by
  apply Int64.toInt_inj.mp
  rw [Int64.toInt_ofNat_of_lt (by omega), Int8.toInt_toInt64, UInt64.toUInt8_ofNat',
    UInt8.toInt8_ofNat', Int8.toInt_ofNat_of_lt small]

/-- A 32-bit payload is sign-extended by the conversion itself. -/
theorem signed_doubleWord {payload : Nat} (small : payload < 2 ^ 32)
    : (UInt64.ofNat payload).toUInt32.toInt32.toInt64
      = Int64.ofInt ((payload : Int).bmod (2 ^ 32)) := by
  apply Int64.toInt_inj.mp
  have lower := Int.le_bmod (x := (payload : Int)) (m := 2 ^ 32) (by decide)
  have upper := Int.bmod_lt (x := (payload : Int)) (m := 2 ^ 32) (by decide)
  rw [Int32.toInt_toInt64, toInt_toInt32, UInt64.toUInt32_ofNat', UInt32.toNat_ofNat',
    Nat.mod_eq_of_lt small, Int64.toInt_ofInt_of_le (by omega) (by omega)]

end Foundations.SignedWords

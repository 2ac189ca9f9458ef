import Mathlib.Data.Nat.Digits.Defs

/-! Fixed-width little-endian numbers as bytes.
Reading back is Mathlib's base-256 evaluation of the bytes.
-/

namespace Foundations.LittleEndian

/-- The low bytes of a number, least significant first. -/
def leBytes : Nat → Nat → List UInt8
  | 0, _ => []
  | width + 1, value => UInt8.ofNat value :: leBytes width (value / 256)

/-- The number that the bytes stand for, least significant first. -/
def ofLeBytes (bytes : List UInt8) : Nat := Nat.ofDigits 256 (bytes.map UInt8.toNat)

@[simp]
theorem length_leBytes (width value : Nat) : (leBytes width value).length = width := by
  induction width generalizing value with
  | zero => rfl
  | succ width ih => simp [leBytes, ih]

/-- Reading back the low bytes of a number yields its remainder, by induction on the width. -/
theorem ofLeBytes_leBytes (width value : Nat)
    : ofLeBytes (leBytes width value) = value % 256 ^ width := by
  induction width generalizing value with
  | zero => simp [leBytes, ofLeBytes, Nat.mod_one]
  | succ width ih =>
      have rest := ih (value / 256)
      unfold ofLeBytes at rest ⊢
      have low : (UInt8.ofNat value).toNat = value % 256 := UInt8.toNat_ofNat' ..
      have power : 256 ^ (width + 1) = 256 * 256 ^ width := Nat.pow_succ'
      rw [leBytes, List.map_cons, Nat.ofDigits_cons, rest, low, power, Nat.mod_mul]

end Foundations.LittleEndian

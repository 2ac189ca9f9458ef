import GorillaTsdb.Core.DataModel

/-! Arithmetic on 64-bit floats, through the built-in floats on the same bit patterns.
A NaN that an operation produces has the canonical pattern; the payload is unspecified anyway.
-/

namespace GorillaTsdb

def F64.toFloat (self : F64) : Float := .ofBits self.toBits

def F64.ofFloat (value : Float) : F64 := .fromBits value.toBits

/-- `as f64` for a `usize`. -/
def F64.ofNat (value : Nat) : F64 := .ofFloat (.ofModel (.ofNat value))

instance : Add F64 := ⟨fun left right => .ofFloat (left.toFloat + right.toFloat)⟩

instance : Sub F64 := ⟨fun left right => .ofFloat (left.toFloat - right.toFloat)⟩

instance : Mul F64 := ⟨fun left right => .ofFloat (left.toFloat * right.toFloat)⟩

instance : Div F64 := ⟨fun left right => .ofFloat (left.toFloat / right.toFloat)⟩

def F64.sqrt (self : F64) : F64 := .ofFloat self.toFloat.sqrt

/-- `f64::INFINITY`. -/
def F64.infinity : F64 := .fromBits 0x7ff0000000000000

/-- `f64::NEG_INFINITY`. -/
def F64.negInfinity : F64 := .fromBits 0xfff0000000000000

def F64.isNan (self : F64) : Bool := self.toFloat.isNaN

/-- `f64::min`: a NaN gives way to the other argument. Which of two zeros is returned is left open
there; as in compiled code, it is the other argument here.
-/
def F64.min (self other : F64) : F64 :=
  if self.isNan || decide (other.toFloat ≤ self.toFloat) then other else self

/-- `f64::max`: a NaN gives way to the other argument, and one zero to another. -/
def F64.max (self other : F64) : F64 :=
  if self.isNan || decide (self.toFloat ≤ other.toFloat) then other else self

/-- `Iterator::sum`, which starts from negative zero. -/
def F64.sum (values : List F64) : F64 := values.foldl (· + ·) (.fromBits 0x8000000000000000)

/-- `f64::ceil`: a number with a fraction is rounded up; zero keeps the sign. -/
def F64.ceil (self : F64) : F64 :=
  match self.toFloat.toModel.unpack with
  | .finite sign mantissa exponent _ =>
      if 0 ≤ exponent then self
      else
        let unit : Nat := 2 ^ (-exponent).toNat
        let whole := -(-sign.apply mantissa / (unit : Int))
        .ofFloat (.ofModel (.pack (.normalize .binary64 whole 0 sign)))
  | _ => self

/-- `as usize`, which truncates and saturates. -/
def F64.toUsize (self : F64) : Nat := self.toFloat.toUInt64.toNat

end GorillaTsdb

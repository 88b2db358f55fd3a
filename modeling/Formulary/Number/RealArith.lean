import Formulary.Decimal.Basic

/-!
# Real arithmetic

The operations on real numbers that complex arithmetic and the writing of formulas are built from.
No law is asked of them: they may round, overflow, and know a zero with a sign.

* `RealArith R`: the operations.
* Numerals of `R` are read through `RealArith.ofDecimal`, once `RealArith` is opened.
* `RealArith.le`, `RealArith.abs`, `RealArith.isNaN`: comparisons built from the operations.
-/

namespace Formulary

universe u

/-- The operations of a type of real numbers. -/
class RealArith (R : Type u) extends Add R, Sub R, Mul R, Div R, Neg R, BEq R where
  /-- The number nearest to a decimal. -/
  ofDecimal : Decimal → R
  /-- The number without an exponent, in as few digits as read back as the number. -/
  text : R → String
  /-- The first number is less than the second. -/
  lt : R → R → Bool
  /-- The number is neither infinite nor undefined. -/
  isFinite : R → Bool
  /-- The number has a minus sign, be it a zero. -/
  signBit : R → Bool
  /-- The greatest integer that is not above a finite number. -/
  floor? : R → Option Int
  sqrt : R → R
  exp : R → R
  log : R → R
  sin : R → R
  cos : R → R
  sinh : R → R
  cosh : R → R
  /-- The angle of the point with the second argument as abscissa and the first as ordinate. -/
  atan2 : R → R → R
  /-- The length of the vector with these two coordinates. -/
  hypot : R → R → R
  /-- The first argument to the power of the second. -/
  power : R → R → R
  cbrt : R → R
  erf : R → R
  gamma : R → R

namespace RealArith

variable {R : Type u} [RealArith R]

scoped instance (priority := low) (n : Nat) : OfNat R n :=
  ⟨ofDecimal ⟨n, 0⟩⟩

scoped instance (priority := low) : OfScientific R :=
  ⟨fun m negative e => ofDecimal ⟨m, if negative then -(e : Int) else e⟩⟩

/-- The number of a natural number. -/
def ofNat (n : Nat) : R :=
  ofDecimal ⟨n, 0⟩

/-- The number of an integer. -/
def ofInt : Int → R
  | .ofNat n => ofNat n
  | .negSucc n => -ofNat (n + 1)

/-- The first number is at most the second; false if one is undefined. -/
def le (a b : R) : Bool :=
  lt a b || a == b

/-- The number without its sign. -/
def abs (a : R) : R :=
  if signBit a then -a else a

/-- The number is undefined: it differs from itself. -/
def isNaN (a : R) : Bool :=
  !(a == a)

/-- The number is one of the two infinities. -/
def isInfinite (a : R) : Bool :=
  !isFinite a && a == a

/-- The positive infinity. -/
def infinity : R :=
  1 / 0

/-- The undefined number. -/
def undefined : R :=
  0 / 0

/-- The ratio of a circle's circumference to its diameter. -/
def pi : R :=
  3.141592653589793

/-- Euler's number. -/
def euler : R :=
  2.718281828459045

/-- The golden ratio. -/
def golden : R :=
  1.618033988749895

/-- The natural logarithm of ten. -/
def logTen : R :=
  2.302585092994046

/-- The natural logarithm of two. -/
def logTwo : R :=
  0.6931471805599453

/-- The distance of one to the next greater number. -/
def epsilon : R :=
  2.220446049250313e-16

end RealArith

end Formulary

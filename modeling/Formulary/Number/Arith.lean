import Formulary.Operator

/-!
# Arithmetic of formulas

What evaluating, simplifying and differentiating a formula asks of its numbers. No law is asked:
statements that need one take it as a hypothesis.

* `Arith K`: the operations of the numbers `K`.
* `BinaryOp.apply`: the operation of a binary operator.
-/

namespace Formulary

universe u

/-- The operations on the numbers of a formula. -/
class Arith (K : Type u) extends Add K, Sub K, Mul K, Div K, Neg K, BEq K where
  /-- The number of a natural number. -/
  ofNat : Nat → K
  /-- The first number to the power of the second. -/
  pow : K → K → K
  /-- The value of a builtin function. -/
  apply : Builtin → K → K
  /-- The form in which a computed value is kept: parts that are zero have no minus sign. -/
  normalize : K → K
  /-- The number is neither infinite nor undefined. -/
  isFinite : K → Bool
  /-- The number is real and less than zero. -/
  isNegative : K → Bool
  /-- The number lies in the right half plane. -/
  isRight : K → Bool
  /-- The number is an integer of 32 bits, sign included. -/
  integer? : K → Option Int

namespace Arith

variable {K : Type u} [Arith K]

/-- The number equals zero. -/
def isZero (v : K) : Bool :=
  v == (ofNat 0 : K)

end Arith

/-- The operation of a binary operator. -/
def BinaryOp.apply {K : Type u} [Arith K] : BinaryOp → K → K → K
  | .add, a, b => a + b
  | .sub, a, b => a - b
  | .mul, a, b => a * b
  | .div, a, b => a / b
  | .pow, a, b => Arith.pow a b

end Formulary

import Formulary.Number.Elementary

/-!
# Powers of a complex number

* `Complex.powNat`: natural powers by repeated squaring.
* `Complex.powInt`: integer powers; a negative one is a power of the reciprocal.
* `Complex.integer?`: the integer that a number is, if it fits a signed word of 32 bits.
* `Complex.pow`: any power. The power zero is one, integer powers are products, a zero base has
  the power zero to every exponent in the right half plane, and all else goes through the logarithm.
-/

namespace Formulary.Complex

open RealArith

universe u

variable {R : Type u} [RealArith R]

/-- `acc` times `base` to the power `n`, where `n` is halved and `base` squared before each look at
the last binary digit of `n`. -/
def squareMultiply (acc base : Complex R) (n : Nat) : Complex R :=
  if 1 < n then
    let n := n / 2
    let base := base * base
    squareMultiply (if n % 2 = 1 then acc * base else acc) base n
  else acc
termination_by n

/-- Natural powers by repeated squaring: square while the exponent is even, then go on with a
product that collects a factor for each binary digit one. -/
def powNat (z : Complex R) (n : Nat) : Complex R :=
  if n = 0 then one
  else if n % 2 = 0 then powNat (z * z) (n / 2)
  else squareMultiply z z n
termination_by n

/-- Integer powers. -/
def powInt (z : Complex R) : Int → Complex R
  | .ofNat n => powNat z n
  | .negSucc n => powNat z.inverse (n + 1)

/-- The integer of 32 bits, sign included, that the number is. -/
def integer? (z : Complex R) : Option Int :=
  match floor? z.re with
  | some n =>
    if z.im == 0 && decide (-0x80000000 ≤ n) && decide (n < 0x80000000) && ofInt n == z.re then
      some n
    else none
  | none => none

/-- The real power of a number, in polar coordinates. -/
def powReal (z : Complex R) (r : R) : Complex R :=
  if r == 0 then one else ofPolar (power z.norm r) (z.arg * r)

/-- The power through the logarithm. -/
def powLog (z w : Complex R) : Complex R :=
  if w == zero then one else exp (w * z.ln)

/-- The power of a number. -/
def pow (z w : Complex R) : Complex R :=
  if w == zero then one
  else
    match integer? w with
    | some n => powInt z n
    | none => if z == zero && lt 0 w.re then zero else powLog z w

end Formulary.Complex

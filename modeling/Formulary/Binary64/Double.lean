import Formulary.Binary64.CubeRoot
import Formulary.Binary64.Erf
import Formulary.Binary64.Gamma
import Formulary.Binary64.Hypot

/-!
# Doubles whose undefined value has a sign

Every double has a sign, the undefined one too. It shows where a root is taken: the root of a number
with a minus sign is imaginary.

* `Double`: a number or an infinity, or the undefined double with its sign.
* `Double.ofFloat`: what an operation of the machine gives. An operation that has no value, such as
  the difference of two infinities, gives the undefined double with a minus sign.
* `Double.map`, `Double.map₂`: an operation of the machine on doubles. An undefined operand is handed
  on with its sign, the first one if there are two.
-/

namespace Formulary

/-- A double. -/
inductive Double where
  /-- A number or an infinity. -/
  | defined (value : Float)
  /-- No number, with a sign. -/
  | undefined (negative : Bool)
  deriving Repr, Inhabited

namespace Double

/-- The double that an operation gives on defined operands. -/
def ofFloat (value : Float) : Double :=
  if value.isNaN then undefined true else defined value

/-- The value without the sign of the undefined double. -/
def toFloat : Double → Float
  | defined value => value
  | undefined _ => 0.0 / 0.0

/-- An operation on one double. -/
def map (f : Float → Float) : Double → Double
  | defined a => ofFloat (f a)
  | undefined negative => undefined negative

/-- An operation on two doubles. -/
def map₂ (f : Float → Float → Float) : Double → Double → Double
  | defined a, defined b => ofFloat (f a b)
  | defined _, undefined negative => undefined negative
  | undefined negative, _ => undefined negative

/-- A question about two doubles that is answered by no if one is undefined. -/
def both (p : Float → Float → Bool) : Double → Double → Bool
  | defined a, defined b => p a b
  | _, _ => false

/-- The double with the other sign. -/
def negate : Double → Double
  | defined a => defined (-a)
  | undefined negative => undefined !negative

/-- The double has a minus sign. -/
def signBit : Double → Bool
  | defined a => Binary64.signBit a
  | undefined negative => negative

/-- The length of a vector. One infinite coordinate makes it infinite whatever the other one is. -/
def hypot (a b : Double) : Double :=
  if a.toFloat.isInf || b.toFloat.isInf then defined (Float.ofBits 0x7ff0000000000000)
  else map₂ Binary64.hypot a b

/-- The first double to the power of the second. A power to the exponent zero is one, and so is a
power of one, even where the other operand is undefined. -/
def power (a b : Double) : Double :=
  if b.toFloat == 0.0 || a.toFloat == 1.0 then defined 1.0 else map₂ Float.pow a b

/-- The gamma function. At its poles it is undefined without a minus sign. -/
def gamma : Double → Double
  | defined a =>
    if Binary64.isWhole a && decide (a < 0.0) then undefined false else ofFloat (Binary64.gamma a)
  | undefined negative => undefined negative

theorem map₂_undefined_left (f : Float → Float → Float) (negative : Bool) (b : Double) :
    map₂ f (undefined negative) b = undefined negative := by
  cases b <;> rfl

end Double

end Formulary

import Formulary.Binary64.Double
import Formulary.Number.RealArith

/-!
# The arithmetic of doubles

Doubles are the real numbers that formulas are computed with.
-/

namespace Formulary

instance : RealArith Double where
  add := Double.map₂ (· + ·)
  sub := Double.map₂ (· - ·)
  mul := Double.map₂ (· * ·)
  div := Double.map₂ (· / ·)
  neg := Double.negate
  beq := Double.both (· == ·)
  ofDecimal d := .defined (Binary64.ofDecimal d)
  text a := Binary64.text a.toFloat
  lt := Double.both fun a b => decide (a < b)
  isFinite a := a.toFloat.isFinite
  signBit := Double.signBit
  floor? a := Binary64.floor? a.toFloat
  sqrt := Double.map Float.sqrt
  exp := Double.map Float.exp
  log := Double.map Float.log
  sin := Double.map Float.sin
  cos := Double.map Float.cos
  sinh := Double.map Float.sinh
  cosh := Double.map Float.cosh
  atan2 := Double.map₂ Float.atan2
  hypot := Double.hypot
  power := Double.power
  cbrt := Double.map Binary64.cbrt
  erf := Double.map Binary64.erf
  gamma := Double.gamma

end Formulary

import Formulary.Number.Arith
import Formulary.Number.Special

/-!
# Formulas over complex numbers

Complex numbers over any real arithmetic have the arithmetic of formulas.

* `Complex.apply`: the builtin functions.
-/

namespace Formulary

open RealArith

universe u

variable {R : Type u} [RealArith R]

/-- The value of a builtin function at a complex number. -/
def Complex.apply : Builtin → Complex R → Complex R
  | .arcsin => asin
  | .arccos => acos
  | .arctan => atan
  | .arcsinh => asinh
  | .arccosh => acosh
  | .arctanh => atanh
  | .sin => sin
  | .cos => cos
  | .tan => tan
  | .sinh => sinh
  | .cosh => cosh
  | .tanh => tanh
  | .sqrt => sqrt
  | .cbrt => cbrt
  | .exp => exp
  | .ln | .log => ln
  | .log10 => log10
  | .log2 => log2
  | .erf => erf
  | .gamma => gamma

instance : Arith (Complex R) where
  ofNat n := Complex.ofReal (RealArith.ofNat n)
  pow := Complex.pow
  apply := Complex.apply
  normalize := Complex.normalize
  isFinite := Complex.isFinite
  isNegative := Complex.isNegative
  isRight z := lt 0 z.re
  integer? := Complex.integer?

end Formulary

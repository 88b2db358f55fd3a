import Formulary.Number.Complex

/-!
# Elementary functions of a complex number

Roots, exponentials, logarithms, and the circular and hyperbolic functions with their inverses, each
by one closed formula over the real functions.

* `Complex.exp`, `Complex.ln`, `Complex.log10`, `Complex.log2`, `Complex.sqrt`.
* `Complex.sin`, `Complex.cos`, `Complex.tan` and `Complex.sinh`, `Complex.cosh`, `Complex.tanh`.
* `Complex.asin`, `Complex.acos`, `Complex.atan` and `Complex.asinh`, `Complex.acosh`,
  `Complex.atanh`.

The branch cuts lie on the real axis or on the imaginary one; on a cut the sign of a zero part
decides which side is taken.
-/

namespace Formulary.Complex

open RealArith

universe u

variable {R : Type u} [RealArith R]

/-! ### Exponential, logarithm and root -/

/-- The exponential. Where the real part is infinite, a zero or an undefined angle does not spoil
the length: nothing turns into nothing, and infinity stays on the real axis. -/
def exp (z : Complex R) : Complex R :=
  if isInfinite z.re then
    if lt z.re 0 then
      if RealArith.isFinite z.im then ofPolar (RealArith.exp z.re) z.im else ⟨0, 0⟩
    else if z.im == 0 || !RealArith.isFinite z.im then
      ⟨z.re, if isInfinite z.im then undefined else z.im⟩
    else ofPolar (RealArith.exp z.re) z.im
  else if isNaN z.re && z.im == 0 then z
  else ofPolar (RealArith.exp z.re) z.im

/-- The principal logarithm. -/
def ln (z : Complex R) : Complex R :=
  ⟨RealArith.log z.norm, z.arg⟩

/-- The logarithm to the base ten. -/
def log10 (z : Complex R) : Complex R :=
  z.ln.unscale logTen

/-- The logarithm to the base two. -/
def log2 (z : Complex R) : Complex R :=
  z.ln.unscale logTwo

/-- The root in the right half plane. Real and imaginary numbers have theirs without trigonometry;
on the negative real axis the sign of the zero imaginary part is kept. -/
def sqrt (z : Complex R) : Complex R :=
  if z.im == 0 then
    if signBit z.re then
      let im := RealArith.sqrt (-z.re)
      ⟨0, if signBit z.im then -im else im⟩
    else ⟨RealArith.sqrt z.re, z.im⟩
  else if z.re == 0 then
    let x := RealArith.sqrt (RealArith.abs z.im / 2)
    ⟨x, if signBit z.im then -x else x⟩
  else ofPolar (RealArith.sqrt z.norm) (z.arg / 2)

/-! ### Circular and hyperbolic functions -/

/-- The sine. -/
def sin (z : Complex R) : Complex R :=
  ⟨RealArith.sin z.re * RealArith.cosh z.im, RealArith.cos z.re * RealArith.sinh z.im⟩

/-- The cosine. -/
def cos (z : Complex R) : Complex R :=
  ⟨RealArith.cos z.re * RealArith.cosh z.im, -RealArith.sin z.re * RealArith.sinh z.im⟩

/-- The tangent, from the doubled parts. -/
def tan (z : Complex R) : Complex R :=
  let a := z.re + z.re
  let b := z.im + z.im
  unscale ⟨RealArith.sin a, RealArith.sinh b⟩ (RealArith.cos a + RealArith.cosh b)

/-- The hyperbolic sine. -/
def sinh (z : Complex R) : Complex R :=
  ⟨RealArith.sinh z.re * RealArith.cos z.im, RealArith.cosh z.re * RealArith.sin z.im⟩

/-- The hyperbolic cosine. -/
def cosh (z : Complex R) : Complex R :=
  ⟨RealArith.cosh z.re * RealArith.cos z.im, RealArith.sinh z.re * RealArith.sin z.im⟩

/-- The hyperbolic tangent, from the doubled parts. -/
def tanh (z : Complex R) : Complex R :=
  let a := z.re + z.re
  let b := z.im + z.im
  unscale ⟨RealArith.sinh a, RealArith.sin b⟩ (RealArith.cosh a + RealArith.cos b)

/-! ### Inverse functions -/

/-- The number two. -/
def two : Complex R :=
  one + one

/-- The angle whose sine the number is. -/
def asin (z : Complex R) : Complex R :=
  -unit * ((one - z * z).sqrt + unit * z).ln

/-- The angle whose cosine the number is. -/
def acos (z : Complex R) : Complex R :=
  -unit * (unit * (one - z * z).sqrt + z).ln

/-- The angle whose tangent the number is; infinite at the two imaginary units. -/
def atan (z : Complex R) : Complex R :=
  if z == unit then ⟨0, infinity⟩
  else if z == -unit then ⟨0, -infinity⟩
  else ((one + unit * z).ln - (one - unit * z).ln) / (two * unit)

/-- The inverse of the hyperbolic sine. -/
def asinh (z : Complex R) : Complex R :=
  (z + (one + z * z).sqrt).ln

/-- The inverse of the hyperbolic cosine. -/
def acosh (z : Complex R) : Complex R :=
  two * (((z + one) / two).sqrt + ((z - one) / two).sqrt).ln

/-- The inverse of the hyperbolic tangent; infinite at one and minus one. -/
def atanh (z : Complex R) : Complex R :=
  if z == one then ⟨infinity, 0⟩
  else if z == -one then ⟨-infinity, 0⟩
  else ((one + z).ln - (one - z).ln) / two

end Formulary.Complex

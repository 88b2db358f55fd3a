import Formulary.Number.Power

/-!
# Special functions of a complex number

On the real axis the real functions are used. Elsewhere the error function has its power series near
zero and a continued fraction further out, and the gamma function an approximation in the right half
plane with the reflection formula for the left.

* `Complex.cbrt`: the real cube root of a real number, the principal one of any other.
* `Complex.erf`: the error function; the left half plane is reflected to the right.
* `Complex.gamma`: the gamma function.
-/

namespace Formulary.Complex

open RealArith

universe u

variable {R : Type u} [RealArith R]

/-- The real cube root of a real number, else the principal root. -/
def cbrt (z : Complex R) : Complex R :=
  if z.im == 0 then ⟨RealArith.cbrt z.re, 0⟩ else z.powReal (1 / 3)

/-! ### The error function -/

/-- The greatest number of terms of the series, the first one counted. -/
def erfTerms : Nat := 200

/-- The number of levels of the continued fraction. -/
def erfcDepth : Nat := 80

/-- Adds the terms of index `n`, `n + 1`, … of the series to `sum`, at most `left` of them and none
after one that no longer counts. `p` is the power and factorial part of the term before. -/
def erfSum (z2 : Complex R) : (left : Nat) → (n : Nat) → (p sum : Complex R) → Complex R
  | 0, _, _, sum => sum
  | left + 1, n, p, sum =>
    let p := (-p * z2).unscale (ofNat n)
    let term := p.unscale (ofNat (2 * n + 1))
    let sum := sum + term
    if le term.norm (epsilon * sum.norm) then sum else erfSum z2 left (n + 1) p sum

/-- The error function by its power series. -/
def erfSeries (z : Complex R) : Complex R :=
  (erfSum (z * z) (erfTerms - 1) 1 z z).scale (2 / RealArith.sqrt pi)

/-- The continued fraction with denominators from level `k` down to level one around `f`. -/
def erfcLevels (z : Complex R) : (k : Nat) → (f : Complex R) → Complex R
  | 0, f => f
  | k + 1, f => erfcLevels z k (z + realDiv (ofNat (k + 1) / 2) f)

/-- What the error function lacks to one, by a continued fraction in the right half plane. -/
def erfcFraction (z : Complex R) : Complex R :=
  (exp (-z * z)).unscale (RealArith.sqrt pi) / erfcLevels z erfcDepth z

/-- The error function in the right half plane. -/
def erfRight (z : Complex R) : Complex R :=
  if lt z.norm 3 then erfSeries z else one - erfcFraction z

/-- The error function. -/
def erf (z : Complex R) : Complex R :=
  if z.im == 0 then ⟨RealArith.erf z.re, 0⟩
  else if lt z.re 0 then -erfRight (-z)
  else erfRight z

/-! ### The gamma function -/

/-- The parameter of the approximation. -/
def lanczosShift : R := 7

/-- The constant of the approximation. -/
def lanczosConstant : R := 0.9999999999998099

/-- The numerators of the fractions with the denominators `z + 1`, `z + 2`, …. -/
def lanczosNumerators : List R :=
  [676.5203681218851, -1259.1392167224028, 771.3234287776531, -176.6150291621406,
   12.507343278686905, -0.13857109526572012, 9.984369578019572e-6, 1.5056327351493116e-7]

/-- The sum of the fractions `c / (z + k)`, added to `sum` one by one. -/
def lanczosSum (z : Complex R) : (k : Nat) → (cs : List R) → (sum : Complex R) → Complex R
  | _, [], sum => sum
  | k, c :: cs, sum => lanczosSum z (k + 1) cs (sum + realDiv c (z.addReal (ofNat k)))

/-- The gamma function in the right half plane. -/
def gammaRight (z : Complex R) : Complex R :=
  let z := ⟨z.re - 1, z.im⟩
  let x := lanczosSum z 1 lanczosNumerators (ofReal lanczosConstant)
  let t := (z.addReal lanczosShift).addReal 0.5
  (t.powLog (z.addReal 0.5)).scale (RealArith.sqrt (2 * pi)) * exp (-t) * x

/-- The gamma function. Left of one half the value is reflected from the right. -/
def gamma (z : Complex R) : Complex R :=
  if z.im == 0 then ⟨RealArith.gamma z.re, 0⟩
  else if lt z.re 0.5 then
    realDiv pi (sin (z.scale pi) * gammaRight (one - z))
  else gammaRight z

end Formulary.Complex

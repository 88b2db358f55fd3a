import Formulary.Binary64.Polynomial

/-!
# The real gamma function

* `Binary64.gamma`: factorials at small whole numbers, a quotient of polynomials with a power and an
  exponential elsewhere, and the reflection formula for negative numbers.
-/

namespace Formulary.Binary64

/-- The whole number is even. -/
def isEven (x : Float) : Bool :=
  match floor? x with
  | some n => n % 2 == 0
  | none => false

/-- The double is a whole number. -/
def isWhole (x : Float) : Bool :=
  match floor? x with
  | some n => Float.ofInt n == x
  | none => false

/-- The sine of `π·x` for a positive number. -/
def sinPi (x : Float) : Float :=
  let half := x * 0.5
  let turn := 2.0 * (half - Float.ofInt ((floor? half).getD 0))
  let n := ((floor? (4.0 * turn)).getD 0 + 1) / 2
  let a := (turn - Float.ofInt n * 0.5) * 3.141592653589793
  match n with
  | 1 => cosSmall a
  | 2 => sinSmall (-a)
  | 3 => -cosSmall a
  | _ => sinSmall a

/-- The coefficients of the numerator, the constant one first. -/
def gammaNumerator : List Float :=
  [23531376880.410759688572007674451636754734846804940,
   42919803642.649098768957899047001988850926355848959,
   35711959237.355668049440185451547166705960488635843,
   17921034426.037209699919755754458931112671403265390,
   6039542586.3520280050642916443072979210699388420708,
   1439720407.3117216736632230727949123939715485786372,
   248874557.86205415651146038641322942321632125127801,
   31426415.585400194380614231628318205362874684987640,
   2876370.6289353724412254090516208496135991145378768,
   186056.26539522349504029498971604569928220784236328,
   8071.6720023658162106380029022722506138218516325024,
   210.82427775157934587250973392071336271166969580291,
   2.5066282746310002701649081771338373386264310793408]

/-- The coefficients of the denominator `x·(x + 1)···(x + 11)`, the constant one first. -/
def gammaDenominator : List Float :=
  [0.0, 39916800.0, 120543840.0, 150917976.0, 105258076.0, 45995730.0, 13339535.0, 2637558.0,
   357423.0, 32670.0, 1925.0, 66.0, 1.0]

/-- The quotient of the two polynomials at a positive number; both are divided by the twelfth power
of a great one, which keeps them in range. -/
def gammaQuotient (x : Float) : Float :=
  if x < 8.0 then
    gammaNumerator.foldr (fun c v => v * x + c) 0.0 /
      gammaDenominator.foldr (fun c v => v * x + c) 0.0
  else
    gammaNumerator.foldl (fun v c => v / x + c) 0.0 /
      gammaDenominator.foldl (fun v c => v / x + c) 0.0

/-- The factorial of a natural number. -/
def factorial : Nat → Nat
  | 0 => 1
  | n + 1 => (n + 1) * factorial n

/-- The gamma function of a number that is not whole, up to 184 in size. -/
def gammaMid (x : Float) : Float :=
  let shift := 5.524680040776729583740234375
  let size := x.abs
  let y := size + shift
  let dy := if shift < size then y - size - shift else y - shift - size
  let z := size - 0.5
  let r := gammaQuotient size * expMid (-y)
  let negative := x < 0.0
  let r := if negative then -3.141592653589793 / (sinPi size * size * r) else r
  let dy := if negative then -dy else dy
  let z := if negative then -z else z
  let r := r + dy * (shift + 0.5) * r / y
  let w := powMid y (0.5 * z)
  r * w * w

/-- The gamma function. It is undefined at negative whole numbers. -/
def gamma (x : Float) : Float :=
  let size := x.abs
  if !x.isFinite then x + Float.ofBits 0x7ff0000000000000
  else if size < twoPow (-54) then 1.0 / x
  else if isWhole x && x < 0.0 then 0.0 / 0.0
  else if isWhole x && x ≤ 23.0 then
    Float.ofNat (factorial ((floor? x).getD 1 - 1).toNat)
  else if 184.0 ≤ size then
    if x < 0.0 then if isEven x then 0.0 else -0.0 else x * twoPow 1023
  else gammaMid x

example : gamma 5.0 == 24.0 ∧ gamma 170.5 == 5.562092414559999e305 := by decide +kernel

end Formulary.Binary64

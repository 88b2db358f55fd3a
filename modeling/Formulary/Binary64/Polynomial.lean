import Formulary.Binary64.Decode

/-!
# Exponential, power, sine and cosine in plain operations

The special functions need these on moderate arguments, where they are sums and products of
doubles. A polynomial is evaluated from its last coefficient.

* `Binary64.polynomial`: `c₀ + x·(c₁ + x·(c₂ + …))`.
* `Binary64.expMid`: the exponential for arguments up to 700 in size.
* `Binary64.powMid`: powers of numbers from 1 up whose value and exponent are in the middle of the
  range, from the logarithm to the base two in two doubles.
* `Binary64.sinSmall`, `Binary64.cosSmall`: sine and cosine up to a quarter turn over two.
-/

namespace Formulary.Binary64

/-- The value of the polynomial with these coefficients, the constant one first. -/
def polynomial (x : Float) : List Float → Float
  | [] => 0.0
  | [c] => c
  | c :: cs => c + x * polynomial x cs

/-- The integer that is nearest to zero among the two around a finite double. -/
def truncate (x : Float) : Int :=
  if x < 0.0 then -((floor? (-x)).getD 0) else (floor? x).getD 0

/-! ### Exponential -/

/-- The coefficients of the remainder `x - x·(eˣ + 1)/(eˣ - 1)` in `x²`. -/
def expCoefficients : List Float :=
  [1.66666666666666019037e-01, -2.77777777770155933842e-03, 6.61375632143793436117e-05,
   -1.65339022054652515390e-06, 4.13813679705723846039e-08]

/-- The exponential of `high - low`, at most half the logarithm of two in size. -/
def expReduced (high low : Float) : Float :=
  let x := high - low
  let xx := x * x
  let c := x - xx * polynomial xx expCoefficients
  1.0 + (x * c / (2.0 - c) - low + high)

/-- The exponential of a number up to 700 in size. -/
def expMid (x : Float) : Float :=
  let size := x.abs
  if size < Float.ofBits 0x3e30000100000000 then 1.0 + x
  else if size < Float.ofBits 0x3fd62e4300000000 then expReduced x 0.0
  else
    let k : Int :=
      if size < Float.ofBits 0x3ff0a2b200000000 then if x < 0.0 then -1 else 1
      else truncate (1.44269504088896338700e+00 * x + if x < 0.0 then -0.5 else 0.5)
    let f := Float.ofInt k
    expReduced (x - f * 6.93147180369123816490e-01) (f * 1.90821492927058770002e-10) * twoPow k

/-! ### Power -/

/-- The coefficients of the logarithm's series in the square of `(x - 1)/(x + 1)`. -/
def logCoefficients : List Float :=
  [5.99999999999994648725e-01, 4.28571428578550184252e-01, 3.33333329818377432918e-01,
   2.72728123808534006489e-01, 2.30660745775561754067e-01, 2.06975017800338417784e-01]

/-- The logarithm to the base two of a positive normal number, as a leading part with the lower half
of its bits clear and the rest. -/
def logTwoParts (x : Float) : Float × Float :=
  let high := x.toBits.toNat >>> 32
  let n₀ : Int := (high >>> 20 : Nat) - 1023
  let j := high % 0x100000
  let middle := decide (0x3988e < j) && decide (j < 0xbb67a)
  let upper := decide (0xbb67a ≤ j)
  let n := if upper then n₀ + 1 else n₀
  let top := j + (if upper then 0x3fe00000 else 0x3ff00000)
  let a := Float.ofBits (UInt64.ofNat (top <<< 32 + x.toBits.toNat % 0x100000000))
  let base := if middle then 1.5 else 1.0
  let u := a - base
  let v := 1.0 / (a + base)
  let s := u * v
  let sHigh := clearLow s
  let tHigh := Float.ofBits (UInt64.ofNat
    (((top / 2 ||| 0x20000000) + 0x80000 + (if middle then 0x40000 else 0)) <<< 32))
  let tLow := a - (tHigh - base)
  let sLow := v * ((u - sHigh * tHigh) - sHigh * tLow)
  let s2 := s * s
  let r := s2 * s2 * polynomial s2 logCoefficients + sLow * (sHigh + s)
  let q := sHigh * sHigh
  let wHigh := clearLow (3.0 + q + r)
  let wLow := r - ((wHigh - 3.0) - q)
  let u := sHigh * wHigh
  let v := sLow * wHigh + wLow * s
  let pHigh := clearLow (u + v)
  let pLow := v - (pHigh - u)
  let zHigh := 9.61796700954437255859e-01 * pHigh
  let zLow := -7.02846165095275826516e-09 * pHigh + pLow * 9.61796693925975554329e-01 +
    (if middle then 1.35003920212974897128e-08 else 0.0)
  let dHigh := if middle then 5.84962487220764160156e-01 else 0.0
  let t := Float.ofInt n
  let lead := clearLow (((zHigh + zLow) + dHigh) + t)
  (lead, zLow - (((lead - t) - dHigh) - zHigh))

/-- Two to the power of `high + low`, in the middle of the range. -/
def twoPowParts (high low : Float) : Float :=
  let z := low + high
  let n : Int :=
    if z.abs < Float.ofBits 0x3fe0000100000000 then 0
    else truncate (clearLow z + if z < 0.0 then -0.5 else 0.5)
  let high := high - Float.ofInt n
  let t := clearLow (low + high)
  let u := t * 6.93147182464599609375e-01
  let v := (low - (t - high)) * 6.93147180559945286227e-01 + t * -1.90465429995776804525e-09
  let z := u + v
  let w := v - (z - u)
  let zz := z * z
  let c := z - zz * polynomial zz expCoefficients
  let r := z * c / (c - 2.0) - (w + z * w)
  (1.0 - (r - z)) * twoPow n

/-- A number of at least one to a power, both and the value in the middle of the range. -/
def powMid (x y : Float) : Float :=
  if y == 0.0 then 1.0
  else if y == 1.0 then x
  else if y == -1.0 then 1.0 / x
  else if y == 2.0 then x * x
  else if y == 0.5 then Float.sqrt x
  else
    let (t, rest) := logTwoParts x
    let yHigh := clearLow y
    twoPowParts (yHigh * t) ((y - yHigh) * t + y * rest)

/-! ### Sine and cosine -/

/-- The sine of a number up to `π/4` in size. -/
def sinSmall (x : Float) : Float :=
  let z := x * x
  let w := z * z
  let r := 8.33333333332248946124e-03 +
    z * (-1.98412698298579493134e-04 + z * 2.75573137070700676789e-06) +
    z * w * (-2.50507602534068634195e-08 + z * 1.58969099521155010221e-10)
  x + z * x * (-1.66666666666666324348e-01 + z * r)

/-- The cosine of a number up to `π/4` in size. -/
def cosSmall (x : Float) : Float :=
  let z := x * x
  let w := z * z
  let r := z * polynomial z
      [4.16666666666666019037e-02, -1.38888888888741095749e-03, 2.48015872894767294178e-05] +
    w * w * polynomial z
      [-2.75573143513906633035e-07, 2.08757232129817482790e-09, -1.13596475577881948265e-11]
  let half := 0.5 * z
  let w := 1.0 - half
  w + (((1.0 - w) - half) + (z * r - x * 0.0))

end Formulary.Binary64

import Formulary.Binary64.Polynomial

/-!
# The real error function

* `Binary64.erf`: quotients of polynomials on `[0, 0.84375]` and `[0.84375, 1.25]`, an exponential
  with such a quotient in the exponent up to 6, and one beyond.
-/

namespace Formulary.Binary64

/-- What the error function lacks to one on `[0.84375, 1.25]`. -/
def erfcMiddle (x : Float) : Float :=
  let s := x - 1.0
  let p := polynomial s
    [-2.36211856075265944077e-03, 4.14856118683748331666e-01, -3.72207876035701323847e-01,
     3.18346619901161753674e-01, -1.10894694282396677476e-01, 3.54783043256182359371e-02,
     -2.16637559486879084300e-03]
  let q := polynomial s
    [1.0, 1.06420880400844228286e-01, 5.40397917702171048937e-01, 7.18286544141962662868e-02,
     1.26171219808761642112e-01, 1.36370839120290507362e-02, 1.19844998467991074170e-02]
  1.0 - 8.45062911510467529297e-01 - p / q

/-- What the error function lacks to one on `[0.84375, 28]`. -/
def erfcFar (x : Float) : Float :=
  if x < 1.25 then erfcMiddle x
  else
    let s := 1.0 / (x * x)
    let near := x < Float.ofBits 0x4006db6d00000000
    let r := polynomial s (if near then
        [-9.86494403484714822705e-03, -6.93858572707181764372e-01, -1.05586262253232909814e+01,
         -6.23753324503260060396e+01, -1.62396669462573470355e+02, -1.84605092906711035994e+02,
         -8.12874355063065934246e+01, -9.81432934416914548592e+00]
      else
        [-9.86494292470009928597e-03, -7.99283237680523006574e-01, -1.77579549177547519889e+01,
         -1.60636384855821916062e+02, -6.37566443368389627722e+02, -1.02509513161107724954e+03,
         -4.83519191608651397019e+02])
    let t := polynomial s (if near then
        [1.0, 1.96512716674392571292e+01, 1.37657754143519042600e+02, 4.34565877475229228821e+02,
         6.45387271733267880336e+02, 4.29008140027567833386e+02, 1.08635005541779435134e+02,
         6.57024977031928170135e+00, -6.04244152148580987438e-02]
      else
        [1.0, 3.03380607434824582924e+01, 3.25792512996573918826e+02, 1.53672958608443695994e+03,
         3.19985821950859553908e+03, 2.55305040643316442583e+03, 4.74528541206955367215e+02,
         -2.24409524465858183362e+01])
    let z := clearLow x
    expMid (-z * z - 0.5625) * expMid ((z - x) * (z + x) + r / t) / x

/-- The error function. -/
def erf (x : Float) : Float :=
  let size := x.abs
  if x.isNaN then x
  else if size < 0.84375 then
    if size < twoPow (-28) then 0.125 * (8.0 * x + 1.02703333676410069053e+00 * x)
    else
      let z := x * x
      let r := polynomial z
        [1.28379167095512558561e-01, -3.25042107247001499370e-01, -2.84817495755985104766e-02,
         -5.77027029648944159157e-03, -2.37630166566501626084e-05]
      let s := polynomial z
        [1.0, 3.97917223959155352819e-01, 6.50222499887672944485e-02, 5.08130628187576562776e-03,
         1.32494738004321644526e-04, -3.96022827877536812320e-06]
      x + x * (r / s)
  else
    let y := if size < 6.0 then 1.0 - erfcFar size else 1.0
    if x < 0.0 then -y else y

example : erf 1.0 == 0.8427007929497149 ∧ erf (-7.0) == -1.0 := by decide +kernel

end Formulary.Binary64

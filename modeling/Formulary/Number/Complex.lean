import Formulary.Number.RealArith

/-!
# Complex numbers

Complex numbers over any real arithmetic. Each operation is one fixed formula in the real ones, so
that rounding and the signs of zeros are determined.

* `Complex R`: a real and an imaginary part.
* Sums, differences, products, quotients and negation, part by part or by the schoolbook formulas.
* `Complex.normalize`: adds a positive zero to both parts, which turns a negative zero positive.
* `Complex.ofPolar`, `Complex.norm`, `Complex.arg`: polar coordinates.
* `Complex.label`: both parts in one text.
-/

namespace Formulary

open RealArith

universe u

/-- A number with a real and an imaginary part. -/
@[ext]
structure Complex (R : Type u) where
  re : R
  im : R
  deriving DecidableEq, Repr, Inhabited

namespace Complex

variable {R : Type u} [RealArith R]

/-- A real number as a complex one. -/
def ofReal (r : R) : Complex R :=
  ⟨r, 0⟩

/-- Zero. -/
def zero : Complex R :=
  ⟨0, 0⟩

/-- One. -/
def one : Complex R :=
  ⟨1, 0⟩

/-- The imaginary unit. -/
def unit : Complex R :=
  ⟨0, 1⟩

instance : BEq (Complex R) :=
  ⟨fun z w => z.re == w.re && z.im == w.im⟩

instance : Add (Complex R) :=
  ⟨fun z w => ⟨z.re + w.re, z.im + w.im⟩⟩

instance : Sub (Complex R) :=
  ⟨fun z w => ⟨z.re - w.re, z.im - w.im⟩⟩

instance : Mul (Complex R) :=
  ⟨fun z w => ⟨z.re * w.re - z.im * w.im, z.re * w.im + z.im * w.re⟩⟩

instance : Neg (Complex R) :=
  ⟨fun z => ⟨-z.re, -z.im⟩⟩

/-- The square of the distance to zero. -/
def normSq (z : Complex R) : R :=
  z.re * z.re + z.im * z.im

instance : Div (Complex R) :=
  ⟨fun z w =>
    let n := w.normSq
    ⟨(z.re * w.re + z.im * w.im) / n, (z.im * w.re - z.re * w.im) / n⟩⟩

theorem add_def (z w : Complex R) : z + w = ⟨z.re + w.re, z.im + w.im⟩ := rfl

theorem sub_def (z w : Complex R) : z - w = ⟨z.re - w.re, z.im - w.im⟩ := rfl

theorem mul_def (z w : Complex R) :
    z * w = ⟨z.re * w.re - z.im * w.im, z.re * w.im + z.im * w.re⟩ := rfl

theorem neg_def (z : Complex R) : -z = ⟨-z.re, -z.im⟩ := rfl

theorem div_def (z w : Complex R) :
    z / w = ⟨(z.re * w.re + z.im * w.im) / w.normSq,
      (z.im * w.re - z.re * w.im) / w.normSq⟩ := rfl

/-- Both parts multiplied by a real number. -/
def scale (z : Complex R) (r : R) : Complex R :=
  ⟨z.re * r, z.im * r⟩

/-- Both parts divided by a real number. -/
def unscale (z : Complex R) (r : R) : Complex R :=
  ⟨z.re / r, z.im / r⟩

/-- A real number added to the real part alone. -/
def addReal (z : Complex R) (r : R) : Complex R :=
  ⟨z.re + r, z.im⟩

/-- A real number divided by a complex one. -/
def realDiv (r : R) (z : Complex R) : Complex R :=
  let n := z.normSq
  ⟨r * z.re / n, (0 - r * z.im) / n⟩

/-- The reciprocal. -/
def inverse (z : Complex R) : Complex R :=
  let n := z.normSq
  ⟨z.re / n, -z.im / n⟩

/-- A positive zero added to both parts: no part stays a negative zero. -/
def normalize (z : Complex R) : Complex R :=
  ⟨z.re + 0, z.im + 0⟩

/-- Both parts are finite. -/
def isFinite (z : Complex R) : Bool :=
  RealArith.isFinite z.re && RealArith.isFinite z.im

/-- The number is real and less than zero. -/
def isNegative (z : Complex R) : Bool :=
  z.im == 0 && lt z.re 0

/-- The distance to zero. -/
def norm (z : Complex R) : R :=
  hypot z.re z.im

/-- The angle to the positive real axis. -/
def arg (z : Complex R) : R :=
  atan2 z.im z.re

/-- The number at a distance and an angle. -/
def ofPolar (r theta : R) : Complex R :=
  ⟨r * cos theta, r * sin theta⟩

/-- Both parts with the imaginary unit; the imaginary part shows its sign before its size. -/
def label (z : Complex R) : String :=
  if lt z.im 0 then text z.re ++ "-" ++ text (0 - z.im) ++ "i"
  else text z.re ++ "+" ++ text z.im ++ "i"

end Complex

end Formulary

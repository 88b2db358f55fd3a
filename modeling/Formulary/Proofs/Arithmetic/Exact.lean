import Mathlib.Analysis.SpecialFunctions.Gamma.Basic
import Mathlib.Analysis.SpecialFunctions.Pow.Real
import Mathlib.NumberTheory.Real.GoldenRatio
import Formulary.Number.ComplexArith

/-!
# Exact real arithmetic

The real numbers as an arithmetic for formulas: nothing is rounded and nothing overflows. Operations
without a real value give an infinity or the undefined number, as they do for machine numbers. There
is one zero only.

* `Exact`: a real number, an infinity, or the undefined number.
* `Exact.extend`: a function of real numbers with its values at the two infinities.
* `Exact.constants`: the constants which the library writes as decimals. Without rounding these
  decimals stand for the constants themselves.
* The instance of `RealArith`.
-/

namespace Formulary

noncomputable section

/-- A real number, an infinity, or the result of an operation that has none. -/
inductive Exact where
  | finite (value : ℝ)
  | infinite (negative : Bool)
  | undefined

namespace Exact

/-- The sign of a real number; zero has none. -/
def isBelow (a : ℝ) : Bool :=
  decide (a < 0)

/-- A real function with its values at the two infinities. -/
def extend (f : ℝ → Exact) (atInfinity : Bool → Exact) : Exact → Exact
  | finite a => f a
  | infinite negative => atInfinity negative
  | undefined => undefined

/-- The number with the other sign. -/
def neg : Exact → Exact :=
  extend (fun a => finite (-a)) fun negative => infinite !negative

/-- The sum. Infinities of two signs have none. -/
def add : Exact → Exact → Exact
  | finite a, finite b => finite (a + b)
  | infinite s, infinite t => if s = t then infinite s else undefined
  | infinite s, finite _ | finite _, infinite s => infinite s
  | undefined, _ | _, undefined => undefined

/-- The product. An infinity times zero has none. -/
def mul : Exact → Exact → Exact
  | finite a, finite b => finite (a * b)
  | infinite s, infinite t => infinite (s ^^ t)
  | infinite s, finite a | finite a, infinite s =>
    if a = 0 then undefined else infinite (s ^^ isBelow a)
  | undefined, _ | _, undefined => undefined

/-- The quotient. Divided by zero a number becomes infinite, unless it is zero itself. -/
def div : Exact → Exact → Exact
  | finite a, finite b =>
    if b = 0 then if a = 0 then undefined else infinite (isBelow a) else finite (a / b)
  | finite _, infinite _ => finite 0
  | infinite s, finite b => infinite (s ^^ isBelow b)
  | infinite _, infinite _ => undefined
  | undefined, _ | _, undefined => undefined

/-- Equality of numbers; the undefined number equals nothing. -/
def beq : Exact → Exact → Bool
  | finite a, finite b => decide (a = b)
  | infinite s, infinite t => s == t
  | _, _ => false

/-- The order of numbers; the undefined number has no place in it. -/
def lt : Exact → Exact → Bool
  | finite a, finite b => decide (a < b)
  | infinite s, finite _ => s
  | finite _, infinite t => !t
  | infinite s, infinite t => s && !t
  | undefined, _ | _, undefined => false

/-- The number is a real number. -/
def isFinite : Exact → Bool
  | finite _ => true
  | _ => false

/-- The number is less than zero. -/
def signBit : Exact → Bool
  | finite a => isBelow a
  | infinite negative => negative
  | undefined => false

/-- The greatest integer that is not above a real number. -/
def floor? : Exact → Option Int
  | finite a => some ⌊a⌋
  | _ => none

/-! ### Functions -/

/-- The root of a number that is not negative. -/
def sqrt : Exact → Exact :=
  extend (fun a => if a < 0 then undefined else finite √a)
    fun negative => if negative then undefined else infinite false

def exp : Exact → Exact :=
  extend (fun a => finite (Real.exp a)) fun negative =>
    if negative then finite 0 else infinite false

/-- The logarithm, which is infinite at zero. -/
def log : Exact → Exact :=
  extend
    (fun a => if a < 0 then undefined else if a = 0 then infinite true else finite (Real.log a))
    fun negative => if negative then undefined else infinite false

def sin : Exact → Exact :=
  extend (fun a => finite (Real.sin a)) fun _ => undefined

def cos : Exact → Exact :=
  extend (fun a => finite (Real.cos a)) fun _ => undefined

def sinh : Exact → Exact :=
  extend (fun a => finite (Real.sinh a)) infinite

def cosh : Exact → Exact :=
  extend (fun a => finite (Real.cosh a)) fun _ => infinite false

/-- The coordinate of a point so far out that finite coordinates count as zero. -/
def heading : Exact → ℝ
  | infinite negative => if negative then -1 else 1
  | _ => 0

/-- The angle of the point with the second argument as abscissa and the first as ordinate. -/
def atan2 : Exact → Exact → Exact
  | finite b, finite a => finite (⟨a, b⟩ : ℂ).arg
  | undefined, _ | _, undefined => undefined
  | b, a => finite (⟨heading a, heading b⟩ : ℂ).arg

/-- The length of a vector. One infinite coordinate makes it infinite. -/
def hypot : Exact → Exact → Exact
  | finite a, finite b => finite ‖(⟨a, b⟩ : ℂ)‖
  | infinite _, _ | _, infinite _ => infinite false
  | _, _ => undefined

/-- The first number to the power of the second. A negative number has powers to integers only. -/
def power : Exact → Exact → Exact
  | finite a, finite b =>
    if a = 0 ∧ b < 0 then infinite false
    else if a < 0 ∧ b ≠ ⌊b⌋ then undefined
    else finite (a ^ b)
  | infinite false, finite b =>
    if b = 0 then finite 1 else if b < 0 then finite 0 else infinite false
  | _, _ => undefined

/-- The real cube root. -/
def cbrt : Exact → Exact :=
  extend (fun a => finite (SignType.sign a * |a| ^ (1 / 3 : ℝ))) infinite

/-- The error function. -/
def erf : Exact → Exact :=
  extend (fun a => finite (2 / √Real.pi * ∫ t in 0..a, Real.exp (-(t * t))))
    fun negative => finite (if negative then -1 else 1)

open Classical in
/-- The gamma function, infinite at zero and undefined at its other poles. -/
def gamma : Exact → Exact :=
  extend
    (fun a =>
      if a = 0 then infinite false
      else if ∃ n : ℕ, a = -n then undefined
      else finite (Real.Gamma a))
    fun negative => if negative then undefined else infinite false

/-! ### Decimals -/

/-- The decimals by which the library writes constants, and the constants. -/
def constants : List (Decimal × ℝ) :=
  [(⟨3141592653589793, -15⟩, Real.pi),
   (⟨2718281828459045, -15⟩, Real.exp 1),
   (⟨1618033988749895, -15⟩, Real.goldenRatio),
   (⟨2302585092994046, -15⟩, Real.log 10),
   (⟨6931471805599453, -16⟩, Real.log 2)]

/-- What a decimal stands for: a constant, or its own value. -/
def ofDecimal (d : Decimal) : Exact :=
  finite ((constants.lookup d).getD (d.digits * (10 : ℝ) ^ d.exponent))

end Exact

instance : RealArith Exact where
  add := Exact.add
  sub a b := a.add b.neg
  mul := Exact.mul
  div := Exact.div
  neg := Exact.neg
  beq := Exact.beq
  ofDecimal := Exact.ofDecimal
  -- a real number has no last digit, and no value depends on how numbers are written
  text _ := ""
  lt := Exact.lt
  isFinite := Exact.isFinite
  signBit := Exact.signBit
  floor? := Exact.floor?
  sqrt := Exact.sqrt
  exp := Exact.exp
  log := Exact.log
  sin := Exact.sin
  cos := Exact.cos
  sinh := Exact.sinh
  cosh := Exact.cosh
  atan2 := Exact.atan2
  hypot := Exact.hypot
  power := Exact.power
  cbrt := Exact.cbrt
  erf := Exact.erf
  gamma := Exact.gamma

end

end Formulary

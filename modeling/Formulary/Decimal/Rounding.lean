import Formulary.Decimal.Basic

/-!
# Decimals near a fraction

A positive fraction `num / den` is compared with the grid of the multiples of `10 ^ k`.

* `gridFloor`: the index of the greatest grid point that is not above the fraction.
* `magnitude`: the least power of ten above a fraction, from an upper bound on it.
* `shortest`: the fewest digits that name a point of an interval, the nearest of those.
* `rounded`: a fixed number of digits, a half going to the even neighbour.
-/

namespace Formulary.Decimal

/-- The fraction `num / den` over the grid of multiples of `10 ^ k`: the same ratio, counted in grid
steps. -/
def inSteps (num den : Nat) (k : Int) : Nat × Nat :=
  match k with
  | .ofNat n => (num, den * Nat.pow 10 n)
  | .negSucc n => (num * Nat.pow 10 (n + 1), den)

/-- The index of the greatest multiple of `10 ^ k` that is at most `num / den`. -/
def gridFloor (num den : Nat) (k : Int) : Nat :=
  (inSteps num den k).1 / (inSteps num den k).2

/-- The least `p` with `num / den < 10 ^ p` that at most `steps` steps down from `p` reach, where
`num / den < 10 ^ p` holds. -/
def magnitude (num den : Nat) : (steps : Nat) → (p : Int) → Int
  | 0, p => p
  | n + 1, p => if gridFloor num den (p - 1) = 0 then magnitude num den n (p - 1) else p

/-! ### Fewest digits -/

/-- An interval of fractions over one denominator, around a value in it. -/
structure Bracket where
  low : Nat
  value : Nat
  high : Nat
  den : Nat
  /-- The ends belong to the interval. -/
  closed : Bool
  deriving Repr

/-- The grid point of index `n` lies in the interval. -/
def Bracket.holds (b : Bracket) (k : Int) (n : Nat) : Bool :=
  let (low, step) := inSteps b.low b.den k
  let high := (inSteps b.high b.den k).1
  if b.closed then decide (low ≤ n * step) && decide (n * step ≤ high)
  else decide (low < n * step) && decide (n * step < high)

/-- Of the two grid points around the value the one in the interval; of two the nearer, and the
upper one where they are equally near. -/
def Bracket.gridPoint? (b : Bracket) (k : Int) : Option Nat :=
  let (value, step) := inSteps b.value b.den k
  let n := value / step
  if b.holds k n then
    if b.holds k (n + 1) && decide ((n + 1) * step - value ≤ value - n * step) then some (n + 1)
    else some n
  else if b.holds k (n + 1) then some (n + 1) else none

/-- The first decimal in the interval on the grids of `10 ^ k`, `10 ^ (k - 1)`, …; on the last grid
the one below the value. -/
def Bracket.search (b : Bracket) : (grids : Nat) → (k : Int) → Decimal
  | 0, k => ⟨gridFloor b.value b.den k, k⟩
  | n + 1, k =>
    match b.gridPoint? k with
    | some d => ⟨d, k⟩
    | none => b.search n (k - 1)

/-- The decimal of the interval with the fewest digits, nearest to the value; `top` is the exponent
of the coarsest grid that is tried. -/
def shortest (b : Bracket) (top : Int) : Decimal :=
  b.search 24 top

/-! ### A fixed number of digits -/

/-- The quotient rounded to the nearest number, a half to the even one. -/
def divNearestEven (a b : Nat) : Nat :=
  let q := a / b
  let r := a % b
  if 2 * r < b then q else if b < 2 * r then q + 1 else if q % 2 = 0 then q else q + 1

/-- The fraction `num / den`, at least `10 ^ (p - 1)` and less than `10 ^ p`, with `count`
digits. -/
def rounded (count : Nat) (num den : Nat) (p : Int) : Decimal :=
  let k := p - count
  let (a, b) := inSteps num den k
  let d := divNearestEven a b
  if d = Nat.pow 10 count then ⟨Nat.pow 10 (count - 1), k + 1⟩ else ⟨d, k⟩

example : divNearestEven 5 2 = 2 ∧ divNearestEven 7 2 = 4 ∧ divNearestEven 8 3 = 3 := by decide

example : shortest ⟨1, 2, 3, 20, true⟩ 0 = ⟨1, -1⟩ := by decide +kernel

end Formulary.Decimal

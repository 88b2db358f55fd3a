import Formulary.Formula.Basic

/-!
# Values over an interval

* `maxIntervalPoints`: the number of points that no interval reaches.
* `IntervalRefusal`: why an interval gives no points.
* `intervalPoints`: the points `min`, `min + step`, … up to `max`.
* `Formula.interval`: the real values at these points.
-/

namespace Formulary

open RealArith

universe u

/-- An interval has fewer steps than this. -/
def maxIntervalPoints : Nat :=
  0x1000000

/-- Why an interval gives no points. -/
inductive IntervalRefusal (R : Type u) where
  /-- The bounds are not finite or in the wrong order, or the step is not finite and positive. -/
  | empty (min max step : R)
  /-- There would be too many points. -/
  | tooLong (min max step : R)
  deriving DecidableEq, Repr

variable {R : Type u} [RealArith R]

/-- The bounds and the step of an interval in words. -/
def intervalLabel (min max step : R) : String :=
  "interval [" ++ text min ++ ", " ++ text max ++ "] with step " ++ text step

/-- The warning that an interval gives no points. -/
def IntervalRefusal.message : IntervalRefusal R → String
  | .empty min max step => "empty " ++ intervalLabel min max step
  | .tooLong min max step =>
    intervalLabel min max step ++ " exceeds " ++ toString maxIntervalPoints ++ " points"

/-- The number of steps that fit between the bounds, if it is finite and below the limit. -/
def stepCount? (min max step : R) : Option Nat :=
  match floor? ((max - min) / step) with
  | some n => if n < maxIntervalPoints then some n.toNat else none
  | none => none

/-- The points `min + i * step` from `min` to `max`. -/
def intervalPoints (min max step : R) : Except (IntervalRefusal R) (List R) :=
  if isFinite min && isFinite max && le min max && isFinite step && !(le step 0) then
    match stepCount? min max step with
    | some n => .ok ((List.range (n + 1)).map fun i => min + ofNat i * step)
    | none => .error (.tooLong min max step)
  else .error (.empty min max step)

/-- The real value at each point of an interval. -/
def Formula.interval (f : Formula R) (min max step : R) :
    Except (IntervalRefusal R) (List (R × Except EvalError R)) :=
  (intervalPoints min max step).map fun xs =>
    xs.zip ((f.program.evalBatch (xs.map .ofReal) f.vars .real).map (·.map Complex.re))

end Formulary

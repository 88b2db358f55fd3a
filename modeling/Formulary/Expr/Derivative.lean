import Formulary.Expr.Simplify

/-!
# Derivatives

* `diffBinary`: the rule of an operator, from the operands and their derivatives.
* `outerDerivative?`: the derivative of a function at its operand; four functions have none.
* `Expr.differentiate`: the derivative by the argument, as the rules give it.
* `Expr.derivative`: the same, simplified.

The outermost function without a rule is reported, of several the leftmost.
-/

namespace Formulary.Expr

universe u

variable {K : Type u} [Arith K]

/-- The derivative of `a op b` from the derivatives of its operands. -/
def diffBinary (op : BinaryOp) (a b a' b' : Expr K) : Expr K :=
  match op with
  | .add => plus a' b'
  | .sub => minus a' b'
  | .mul => plus (times b a') (times a b')
  | .div => dividedBy (minus (times b a') (times a b')) (toPower b (nat 2))
  | .pow =>
    plus (times (times b (toPower a (minus b (nat 1)))) a')
      (times (times (toPower a b) (applied .log a)) b')

/-- The derivative of a function at the operand `a`. -/
def outerDerivative? (f : Builtin) (a : Expr K) : Option (Expr K) :=
  let square := toPower a (nat 2)
  match f with
  | .sin => some (applied .cos a)
  | .cos => some (neg (applied .sin a))
  | .tan => some (dividedBy (nat 1) (toPower (applied .cos a) (nat 2)))
  | .arcsin => some (dividedBy (nat 1) (applied .sqrt (minus (nat 1) square)))
  | .arccos => some (neg (dividedBy (nat 1) (applied .sqrt (minus (nat 1) square))))
  | .arctan => some (dividedBy (nat 1) (plus (nat 1) square))
  | .sinh => some (applied .cosh a)
  | .cosh => some (applied .sinh a)
  | .tanh => some (dividedBy (nat 1) (toPower (applied .cosh a) (nat 2)))
  | .arcsinh => some (dividedBy (nat 1) (applied .sqrt (plus square (nat 1))))
  | .arccosh => some (dividedBy (nat 1) (applied .sqrt (minus square (nat 1))))
  | .arctanh => some (dividedBy (nat 1) (minus (nat 1) square))
  | .sqrt => some (dividedBy (nat 1) (times (nat 2) (applied .sqrt a)))
  | .exp => some (exponential a)
  | .ln | .log => some (dividedBy (nat 1) a)
  | .log10 => some (dividedBy (nat 1) (times a (applied .log (nat 10))))
  | .cbrt | .log2 | .erf | .gamma => none

/-- The derivative by the argument, as the rules give it. -/
def differentiate : Expr K → Except DerivativeError (Expr K)
  | number _ | named _ _ => .ok (nat 0)
  | argument => .ok (nat 1)
  | neg a =>
    match a.differentiate with
    | .ok a' => .ok (neg a')
    | .error e => .error e
  | binary op a b _ =>
    match a.differentiate with
    | .error e => .error e
    | .ok a' =>
      match b.differentiate with
      | .error e => .error e
      | .ok b' => .ok (diffBinary op a b a' b')
  | call f a p =>
    match outerDerivative? f a with
    | none => .error ⟨f, p⟩
    | some outer =>
      match a.differentiate with
      | .ok a' => .ok (times outer a')
      | .error e => .error e

/-- The simplified derivative by the argument. -/
def derivative (a : Expr K) : Except DerivativeError (Expr K) :=
  a.differentiate.map simplify

end Formulary.Expr

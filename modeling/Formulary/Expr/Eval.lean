import Formulary.Vars

/-!
# Values of expressions

* `EvalMode`: complex arithmetic, or real arithmetic in which negative numbers have no logarithm.
* `evalBinary`, `evalCall`, `evalNamed`: the value of one operator, one function, one variable.
* `Expr.eval`: the value of a tree. Operands are evaluated from left to right, and the first error
  ends the evaluation.
* `callNamed`: the value of a function given by name.
-/

namespace Formulary

universe u

/-- How values outside the real line are treated. -/
inductive EvalMode where
  | complex
  /-- A logarithm of a negative number is an error. -/
  | real
  deriving DecidableEq, Repr, Inhabited

variable {K : Type u} [Arith K]

/-- The value of an operator. An exact zero is no divisor. -/
def evalBinary (op : BinaryOp) (a b : K) (position : Position) : Except EvalError K :=
  if op = .div ∧ Arith.isZero b then .error (.divisionByZero position)
  else .ok (Arith.normalize (op.apply a b))

/-- The value of a function. -/
def evalCall (f : Builtin) (a : K) (position : Position) (mode : EvalMode) : Except EvalError K :=
  if mode = .real ∧ f.isLogarithm ∧ Arith.isNegative a then .error (.logOfNegative f position)
  else .ok (Arith.normalize (Arith.apply f a))

/-- The value of a variable. -/
def evalNamed (vars : Vars K) (name : String) (position : Position) : Except EvalError K :=
  match vars.get? name with
  | some v => .ok v
  | none => .error (.undefinedVariable name position)

namespace Expr

/-- The value of a tree where the argument has the value `x`. -/
def eval (x : K) (vars : Vars K) (mode : EvalMode) : Expr K → Except EvalError K
  | number v => .ok v
  | argument => .ok x
  | named name p => evalNamed vars name p
  | neg a =>
    match a.eval x vars mode with
    | .ok v => .ok (Arith.normalize (-v))
    | .error e => .error e
  | binary op a b p =>
    match a.eval x vars mode with
    | .error e => .error e
    | .ok v =>
      match b.eval x vars mode with
      | .error e => .error e
      | .ok w => evalBinary op v w p
  | call f a p =>
    match a.eval x vars mode with
    | .ok v => evalCall f v p mode
    | .error e => .error e

end Expr

/-- The value of a function given by name. -/
def callNamed (name : String) (a : K) : Except EvalError K :=
  match Builtin.named? name with
  | some f => evalCall f a none .complex
  | none => .error (.unknownFunction name none)

end Formulary

import Formulary.Expr.Basic
import Formulary.Number.ComplexArith

/-!
# Formulas as text

The text of a tree has no parentheses but those that reading it back needs.

* `numberText`: a number; a number with two parts stands in parentheses.
* `Expr.binding`, `Expr.needsParens`: how tightly a text holds together, and where that is too
  loose.
* `Expr.text`: the text of a tree.
-/

namespace Formulary

open RealArith

universe u

variable {R : Type u} [RealArith R]

/-- A text in parentheses. -/
def parenthesized (s : String) : String :=
  "(" ++ s ++ ")"

/-- The text of a number: real, imaginary, or both parts in parentheses. -/
def numberText (v : Complex R) : String :=
  if v.im == 0 then text v.re
  else if v.re == 0 then text v.im ++ "i"
  else if lt v.im 0 then parenthesized (text v.re ++ "-" ++ text (-v.im) ++ "i")
  else parenthesized (text v.re ++ "+" ++ text v.im ++ "i")

/-- The text of the number begins with a minus sign. -/
def isMinusNumber (v : Complex R) : Bool :=
  (v.im == 0 && lt v.re 0) || (v.re == 0 && lt v.im 0)

namespace Expr

/-- The binding of what never needs parentheses: tighter than every operator. -/
def atomBinding : Nat := 7

/-- How tightly the text of the tree holds together as an operand. A number with a minus sign holds
together like a negation. -/
def binding : Expr (Complex R) → Nat
  | binary op _ _ _ => op.precedence
  | neg _ => Operator.neg.precedence
  | number v => if isMinusNumber v then Operator.neg.precedence else atomBinding
  | _ => atomBinding

/-- The operand of an operator needs parentheses. At equal precedence only the operand on the side
to which the operator groups goes without. -/
def needsParens (op : BinaryOp) (isLeft : Bool) (a : Expr (Complex R)) : Bool :=
  if a.binding = op.precedence then isLeft == op.isRightAssoc
  else decide (a.binding < op.precedence)

/-- The text of a tree. -/
def text : Expr (Complex R) → String
  | number v => numberText v
  | argument => argumentName
  | named name _ => name
  | neg a => if a.isBinary then "-" ++ parenthesized a.text else "-" ++ a.text
  | binary op a b _ =>
    (if needsParens op true a then parenthesized a.text else a.text) ++ op.symbol ++
      (if needsParens op false b then parenthesized b.text else b.text)
  | call f a _ => f.name ++ parenthesized a.text

end Expr

end Formulary

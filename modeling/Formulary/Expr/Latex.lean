import Formulary.Expr.Text

/-!
# Formulas as typeset markup

* `Expr.typeset`: the markup of a tree, and whether it is a fraction, which never needs parentheses.
* `Expr.latex`: the markup alone. A quotient is a fraction unless both operands are one byte long,
  exponents are in braces, and functions have parentheses that grow with their operand.
-/

namespace Formulary

open RealArith

universe u

variable {R : Type u} [RealArith R]

/-- Markup in braces. -/
def braced (s : String) : String :=
  "\x7b" ++ s ++ "\x7d"

/-- Markup in parentheses that grow with it. -/
def leftRight (s : String) : String :=
  "\\left(" ++ s ++ "\\right)"

/-- The markup of a number. -/
def numberMarkup (v : Complex R) : String :=
  if v.im != 0 && v.re != 0 then
    leftRight (text v.re ++ (if lt v.im 0 then "-" else "+") ++ text (RealArith.abs v.im) ++ "i")
  else numberText v

/-- The names that stand for Greek letters. -/
def greekNames : List String :=
  ["pi", "phi"]

/-- The markup of a name. -/
def nameMarkup (name : String) : String :=
  if name ∈ greekNames then "\\" ++ name else name

/-- The quotient of two operands with these markups is a fraction. -/
def isLongQuotient (a b : String) : Bool :=
  decide (1 < a.utf8ByteSize) || decide (1 < b.utf8ByteSize)

/-- The markup of an operand from its own and whether that is a fraction. -/
def operandMarkup (op : BinaryOp) (isLeft : Bool) (a : Expr (Complex R)) (m : String × Bool) :
    String :=
  if !m.2 && Expr.needsParens op isLeft a then leftRight m.1 else m.1

/-- The markup of a quotient and whether it is a fraction. -/
def quotientMarkup (a b : String) : String × Bool :=
  if isLongQuotient a b then ("\\frac" ++ braced a ++ braced b, true) else (a ++ "/" ++ b, false)

namespace Expr

/-- The markup of a tree and whether it is a fraction. -/
def typeset : Expr (Complex R) → String × Bool
  | number v => (numberMarkup v, false)
  | argument => (argumentName, false)
  | named name _ => (nameMarkup name, false)
  | neg a => ("-" ++ if a.isBinary then leftRight a.typeset.1 else a.typeset.1, false)
  | binary op a b _ =>
    let m := a.typeset
    let n := b.typeset
    match op with
    | .div => quotientMarkup m.1 n.1
    | .pow => (operandMarkup .pow true a m ++ "^" ++ braced n.1, false)
    | .mul =>
      (operandMarkup .mul true a m ++ (if b.isNumber then " \\cdot " else " ") ++
        operandMarkup .mul false b n, false)
    | .add => (operandMarkup .add true a m ++ "+" ++ operandMarkup .add false b n, false)
    | .sub => (operandMarkup .sub true a m ++ "-" ++ operandMarkup .sub false b n, false)
  | call f a _ =>
    let m := a.typeset
    match f with
    | .sqrt => ("\\sqrt" ++ braced m.1, false)
    | .cbrt => ("\\sqrt[3]" ++ braced m.1, false)
    | f => (f.markup ++ leftRight m.1, false)

/-- The markup of a tree. -/
def latex (a : Expr (Complex R)) : String :=
  a.typeset.1

/-- The tree is typeset as a fraction. -/
def isFraction (a : Expr (Complex R)) : Bool :=
  a.typeset.2

end Expr

end Formulary

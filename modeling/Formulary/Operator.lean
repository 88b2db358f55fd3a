import Formulary.Builtin

/-!
# Operators

* `Operator`: what an operator token asks for, parentheses and function application included.
* `Operator.precedence`, `Operator.isRightAssoc`: how tightly it binds and which way it groups.
* `BinaryOp`: the five operators that join two operands.
* `Operator.binary?`: the binary operator that an operator token builds, inverse to
  `BinaryOp.operator`.
-/

namespace Formulary

/-- The meaning of an operator token. -/
inductive Operator where
  | apply (function : Builtin)
  | openParen
  | closeParen
  | add
  | sub
  | neg
  | mul
  | div
  | pow
  deriving DecidableEq, Repr, Inhabited

namespace Operator

/-- How tightly the operator binds; a higher number binds tighter. -/
def precedence : Operator → Nat
  | apply _ => 6
  | neg => 5
  | pow => 4
  | mul | div => 2
  | add | sub => 1
  | openParen | closeParen => 0

/-- Among operators of its own precedence it groups to the right. -/
def isRightAssoc : Operator → Bool
  | apply _ | neg | pow => true
  | _ => false

/-- The sign the operator is written with. -/
def symbol : Operator → String
  | apply _ => "func"
  | openParen => "("
  | closeParen => ")"
  | add => "+"
  | sub | neg => "-"
  | mul => "*"
  | div => "/"
  | pow => "^"

/-- The operator a character stands for. A minus is read as subtraction: whether it negates depends
on what stands before it. -/
def ofChar? : Char → Option Operator
  | '(' => some openParen
  | ')' => some closeParen
  | '+' => some add
  | '-' => some sub
  | '*' => some mul
  | '/' => some div
  | '^' => some pow
  | _ => none

end Operator

/-- An operator between two operands. -/
inductive BinaryOp where
  | add | sub | mul | div | pow
  deriving DecidableEq, Repr, Inhabited

namespace BinaryOp

/-- The operator token that builds it. -/
def operator : BinaryOp → Operator
  | add => .add
  | sub => .sub
  | mul => .mul
  | div => .div
  | pow => .pow

/-- The sign it is written with. -/
def symbol (op : BinaryOp) : String :=
  op.operator.symbol

/-- How tightly it binds. -/
def precedence (op : BinaryOp) : Nat :=
  op.operator.precedence

/-- It groups to the right among operators of its own precedence. -/
def isRightAssoc (op : BinaryOp) : Bool :=
  op.operator.isRightAssoc

end BinaryOp

/-- The binary operator that an operator token builds, if it builds one. -/
def Operator.binary? : Operator → Option BinaryOp
  | .add => some .add
  | .sub => some .sub
  | .mul => some .mul
  | .div => some .div
  | .pow => some .pow
  | _ => none

theorem Operator.binary?_operator (op : BinaryOp) : op.operator.binary? = some op := by
  cases op <;> rfl

theorem Operator.operator_of_binary? {o : Operator} {op : BinaryOp} (h : o.binary? = some op) :
    op.operator = o := by
  cases o <;> simp [Operator.binary?] at h <;> subst h <;> rfl

end Formulary

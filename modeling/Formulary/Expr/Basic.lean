import Formulary.Error
import Formulary.Number.Arith
import Formulary.Text.Lowercase

/-!
# Expressions

The tree of a formula in the one argument `x`, over any type of numbers.

* `Expr K`: the tree. Nodes that can fail carry the place in the text they were read from.
* `Expr.beq`: equality of trees; places in the text do not count.
* `Expr.size`, `Expr.containsArgument`, `Expr.variableNames`, `Expr.position`: questions about a
  tree.
-/

namespace Formulary

universe u

/-- The tree of a formula. -/
inductive Expr (K : Type u) where
  | number (value : K)
  /-- The argument of the formula. -/
  | argument
  /-- A variable, which gets its value from a table. -/
  | named (name : String) (position : Position)
  | neg (operand : Expr K)
  | binary (op : BinaryOp) (left right : Expr K) (position : Position)
  | call (function : Builtin) (operand : Expr K) (position : Position)
  deriving DecidableEq, Repr, Inhabited

/-- The name of the argument in formulas. -/
def argumentName : String := "x"

/-- The name of the variable that stands for Euler's number. -/
def eulerName : String := "e"

namespace Expr

variable {K : Type u}

/-! ### Building trees without a place in a text -/

/-- The whole number `n`. -/
def nat [Arith K] (n : Nat) : Expr K :=
  number (Arith.ofNat n)

/-- The number minus one. -/
def minusOne [Arith K] : Expr K :=
  number (-(Arith.ofNat 1))

/-- The variable of a name in any letter case, or the argument if that is its name. -/
def ofNameAnyCase (name : String) : Expr K :=
  let lowered := Text.lowerString name
  if lowered = argumentName then argument else named lowered none

/-- A call of a function. -/
def applied (f : Builtin) (a : Expr K) : Expr K :=
  call f a none

/-- A sum. -/
def plus (a b : Expr K) : Expr K :=
  binary .add a b none

/-- A difference. -/
def minus (a b : Expr K) : Expr K :=
  binary .sub a b none

/-- A product. -/
def times (a b : Expr K) : Expr K :=
  binary .mul a b none

/-- A quotient. -/
def dividedBy (a b : Expr K) : Expr K :=
  binary .div a b none

/-- A power. -/
def toPower (a b : Expr K) : Expr K :=
  binary .pow a b none

/-- The exponential, as a power of Euler's number. -/
def exponential (a : Expr K) : Expr K :=
  toPower (named eulerName none) a

/-! ### Equality -/

/-- The trees are equal up to the places in a text they carry. -/
def beq [BEq K] : Expr K → Expr K → Bool
  | number v, number w => v == w
  | argument, argument => true
  | named n _, named m _ => n == m
  | neg a, neg b => beq a b
  | binary op a b _, binary op' a' b' _ => op == op' && beq a a' && beq b b'
  | call f a _, call g b _ => f == g && beq a b
  | _, _ => false

instance [BEq K] : BEq (Expr K) :=
  ⟨beq⟩

/-! ### Questions about a tree -/

/-- The value of a number. -/
def value? : Expr K → Option K
  | number v => some v
  | _ => none

/-- The tree is a number. -/
def isNumber : Expr K → Bool
  | number _ => true
  | _ => false

/-- The tree is a negation. -/
def isNeg : Expr K → Bool
  | neg _ => true
  | _ => false

/-- The tree is an operator between two operands. -/
def isBinary : Expr K → Bool
  | binary .. => true
  | _ => false

/-- The tree is the variable that stands for Euler's number. -/
def isEuler : Expr K → Bool
  | named name _ => name == eulerName
  | _ => false

/-- The place in the text the root was read from. -/
def position : Expr K → Position
  | named _ p | binary _ _ _ p | call _ _ p => p
  | _ => none

/-- The argument occurs in the tree. -/
def containsArgument : Expr K → Bool
  | argument => true
  | number _ | named _ _ => false
  | neg a => a.containsArgument
  | binary _ a b _ => a.containsArgument || b.containsArgument
  | call _ a _ => a.containsArgument

/-- The number of nodes. -/
def size : Expr K → Nat
  | number _ | argument | named _ _ => 1
  | neg a => 1 + a.size
  | binary _ a b _ => 1 + a.size + b.size
  | call _ a _ => 1 + a.size

theorem size_pos (a : Expr K) : 0 < a.size := by
  cases a <;> simp only [size] <;> omega

/-- A name joins a list of names unless it is there. -/
def addName (names : List String) (name : String) : List String :=
  if name ∈ names then names else names ++ [name]

/-- The names of the variables, after the names found before. -/
def collectNames (names : List String) : Expr K → List String
  | number _ | argument => names
  | named name _ => addName names name
  | neg a => collectNames names a
  | binary _ a b _ => collectNames (collectNames names a) b
  | call _ a _ => collectNames names a

/-- The names of the variables in the order of their first use. -/
def variableNames (a : Expr K) : List String :=
  collectNames [] a

end Expr

end Formulary

import Formulary.Expr.Simplify

/-!
# Rules that call one another

The rules of simplification as a rewriting: whatever a rule makes of the operands is handed to the
rules of the operator it has then, until none applies. A sum with a negative operand goes to the
rules for differences and back, factors change sides, signs come off one by one, and a power with a
negative exponent goes through the rules for powers and for quotients.

* `settleSum?`, `settleDifference?`, `settleProduct?`, `settleQuotient?`, `settlePower?`: the rules
  of each operator, which call `again` where they go on.
* `settle?`: two operands joined by an operator, by the rules and what they call.
* `settleCall?`: a function applied to an operand.
* `Expr.settled?`: the whole tree from the leaves up.

Nothing is said here about whether this comes to an end. The depth is how many calls may stand in
one another, and `none` says that they wanted more. The functions `Expr.operation`,
`Expr.application` and `Expr.simplify` know the result without going on.
-/

namespace Formulary.Expr

universe u

variable {K : Type u} [Arith K]

/-! ### Operators -/

section Rules

variable (again : BinaryOp → Expr K → Expr K → Position → Option (Expr K))

/-- A product or a quotient goes on without the signs of its operands. -/
def settleSigns? (op : BinaryOp) (a b : Expr K) (p : Position) : Option (Expr K) :=
  if a.isNegative && b.isNegative then again op a.negated b.negated p
  else if a.isNeg then (again op a.negated b p).map negated
  else if b.isNeg then (again op a b.negated p).map negated
  else some (binary op a b p)

/-- A sum with a negative operand goes on as a difference, one of equal operands as a product. -/
def settleSum? (a b : Expr K) (p : Position) : Option (Expr K) :=
  if b == nat 0 then some a
  else if a == nat 0 then some b
  else if b.isNegative then again .sub a b.negated p
  else if a == b then again .mul (nat 2) a none
  else some (binary .add a b p)

/-- A difference with a negative operand goes on as a sum. -/
def settleDifference? (a b : Expr K) (p : Position) : Option (Expr K) :=
  if b == nat 0 then some a
  else if a == nat 0 then some b.negated
  else if b.isNegative then again .add a b.negated p
  else if a == b then some (nat 0)
  else some (binary .sub a b p)

/-- A product with a number on the right goes on with its factors exchanged. -/
def settleProduct? (a b : Expr K) (p : Position) : Option (Expr K) :=
  if a == nat 0 || b == nat 0 then some (nat 0)
  else if a == nat 1 then some b
  else if b == nat 1 then some a
  else if a == minusOne then some b.negated
  else if b == minusOne then some a.negated
  else if b.isNumber && !a.isNumber then again .mul b a p
  else settleSigns? again .mul a b p

/-- A quotient by one or minus one is no quotient. -/
def settleQuotient? (a b : Expr K) (p : Position) : Option (Expr K) :=
  if b == nat 1 then some a
  else if b == minusOne then some a.negated
  else settleSigns? again .div a b p

/-- An integer power goes on without the sign of its base. -/
def settleBase? (a b : Expr K) (p : Position) : Option (Expr K) :=
  match a, integerExponent? b with
  | neg c, some k => if k % 2 = 0 then again .pow c b p else (again .pow c b p).map negated
  | a, _ => some (binary .pow a b p)

/-- A power whose exponent undoes a logarithm to its base is no power. -/
def settleInverse? (a b : Expr K) (p : Position) : Option (Expr K) :=
  match b with
  | call .log10 c _ => if a == nat 10 then some c else settleBase? again a b p
  | call .log c _ | call .ln c _ => if a.isEuler then some c else settleBase? again a b p
  | _ => settleBase? again a b p

/-- A power with a negative exponent goes on without the sign, and then as a reciprocal. -/
def settlePower? (a b : Expr K) (p : Position) : Option (Expr K) :=
  if isZeroPower a b then some (nat 0)
  else if a == nat 1 || b == nat 0 then some (nat 1)
  else if b == nat 1 then some a
  else if b.isNumber && b.isNegative then
    (again .pow a b.negated p).bind fun r => again .div (nat 1) r none
  else settleInverse? again a b p

/-- The rules of an operator. -/
def settleRules? (op : BinaryOp) (a b : Expr K) (p : Position) : Option (Expr K) :=
  match op with
  | .add => settleSum? again a b p
  | .sub => settleDifference? again a b p
  | .mul => settleProduct? again a b p
  | .div => settleQuotient? again a b p
  | .pow => settlePower? again a b p

end Rules

/-- Two operands joined: two numbers become one if they can, else the rules of the operator apply. -/
def settle? : Nat → BinaryOp → Expr K → Expr K → Position → Option (Expr K)
  | 0, _, _, _, _ => none
  | depth + 1, op, a, b, p =>
    match foldNumbers? op a b with
    | some r => some r
    | none => settleRules? (settle? depth) op a b p

/-! ### Functions -/

/-- A function of a negation goes on without the sign if it is odd or even. -/
def settleOperand? (again : Builtin → Expr K → Position → Option (Expr K)) (f : Builtin) (a : Expr K)
    (p : Position) : Option (Expr K) :=
  match f, a with
  | .sin, neg b => (again .sin b p).map negated
  | .tan, neg b => (again .tan b p).map negated
  | .cos, neg b => again .cos b p
  | f, a => some (call f a p)

/-- A function applied to an operand: a value if one is known or computed, else what becomes of the
operand. -/
def settleCall? : Nat → Builtin → Expr K → Position → Option (Expr K)
  | 0, _, _, _ => none
  | depth + 1, f, a, p =>
    match knownValue? f a <|> foldCall? f a with
    | some r => some r
    | none => settleOperand? (settleCall? depth) f a p

/-! ### Whole trees -/

/-- The tree with the rules applied from the leaves up. -/
def settled? (depth : Nat) : Expr K → Option (Expr K)
  | neg a => (a.settled? depth).map negated
  | binary op a b p =>
    (a.settled? depth).bind fun a => (b.settled? depth).bind fun b => settle? depth op a b p
  | call f a p => (a.settled? depth).bind fun a => settleCall? depth f a p
  | a => some a

end Formulary.Expr

import Formulary.Expr.Basic

/-!
# Simplification

A tree is simplified from the leaves up. For each operator there is one function that joins two
simplified operands; the first rule that applies decides, and what it gives no rule applies to.

* `foldNumbers?`: two numbers become one unless a divisor is zero or the result is not finite.
* `negated`, `hoisted`: minus signs leave products and quotients, at most one staying in front.
* `product`, `quotient`, `difference`, `sum`, `power`, `application`: the rules of each operator.
* `Expr.simplify`: the whole tree.

A rule that takes the sign off an operand goes on with the rules for operands without one
(`sumUnsigned`, `differenceUnsigned`, `powerUnsigned`), so no rule is tried twice and the
definitions need no recursion.
-/

namespace Formulary.Expr

universe u

variable {K : Type u} [Arith K]

/-- A computed number as a tree. -/
def literal (v : K) : Expr K :=
  number (Arith.normalize v)

/-! ### Signs -/

/-- The negation of a simplified tree; two negations cancel. -/
def negated : Expr K → Expr K
  | number v => literal (-v)
  | neg a => a
  | a => neg a

/-- The tree has a minus sign in front: a negation or a negative real number. -/
def isNegative : Expr K → Bool
  | number v => Arith.isNegative v
  | neg _ => true
  | _ => false

/-! ### Numbers -/

/-- The number that an operator makes of two numbers, unless the divisor is zero or the result is
not finite. -/
def foldNumbers? (op : BinaryOp) : Expr K → Expr K → Option (Expr K)
  | number v, number w =>
    if op = .div ∧ Arith.isZero w then none
    else if Arith.isFinite (op.apply v w) then some (literal (op.apply v w)) else none
  | _, _ => none

/-- The operands joined: a number if they can be folded into one, else the operator. -/
def joined (op : BinaryOp) (a b : Expr K) (p : Position) : Expr K :=
  (foldNumbers? op a b).getD (binary op a b p)

/-! ### Products and quotients -/

/-- A product or a quotient with its signs in front: two signs cancel, and a negation of one operand
becomes one of the whole. -/
def hoisted (op : BinaryOp) (a b : Expr K) (p : Position) : Expr K :=
  if a.isNegative && b.isNegative then joined op a.negated b.negated p
  else if a.isNeg then (joined op a.negated b p).negated
  else if b.isNeg then (joined op a b.negated p).negated
  else binary op a b p

/-- The rules of a product of operands that are not both numbers that fold: zero, one and minus one
as a factor, and a number goes to the left. -/
def productRules (a b : Expr K) (p : Position) : Expr K :=
  if a == nat 0 || b == nat 0 then nat 0
  else if a == nat 1 then b
  else if b == nat 1 then a
  else if a == minusOne then b.negated
  else if b == minusOne then a.negated
  else if b.isNumber && !a.isNumber then hoisted .mul b a p
  else hoisted .mul a b p

/-- The product of simplified trees. -/
def product (a b : Expr K) (p : Position) : Expr K :=
  (foldNumbers? .mul a b).getD (productRules a b p)

/-- The quotient of simplified trees. -/
def quotient (a b : Expr K) (p : Position) : Expr K :=
  (foldNumbers? .div a b).getD
    (if b == nat 1 then a
    else if b == minusOne then a.negated
    else hoisted .div a b p)

/-! ### Sums and differences -/

/-- A sum whose right operand has no minus sign; a tree plus itself is twice the tree. -/
def sumUnsigned (a b : Expr K) (p : Position) : Expr K :=
  (foldNumbers? .add a b).getD
    (if a == b then product (nat 2) a none else binary .add a b p)

/-- A difference whose right operand has no minus sign; a tree less itself is zero. -/
def differenceUnsigned (a b : Expr K) (p : Position) : Expr K :=
  (foldNumbers? .sub a b).getD (if a == b then nat 0 else binary .sub a b p)

/-- The sum of simplified trees. -/
def sum (a b : Expr K) (p : Position) : Expr K :=
  (foldNumbers? .add a b).getD
    (if b == nat 0 then a
    else if a == nat 0 then b
    else if b.isNegative then differenceUnsigned a b.negated p
    else sumUnsigned a b p)

/-- The difference of simplified trees. -/
def difference (a b : Expr K) (p : Position) : Expr K :=
  (foldNumbers? .sub a b).getD
    (if b == nat 0 then a
    else if a == nat 0 then b.negated
    else if b.isNegative then sumUnsigned a b.negated p
    else differenceUnsigned a b p)

/-! ### Powers -/

/-- The number that the exponent is, if it is an integer of 32 bits. -/
def integerExponent? (b : Expr K) : Option Int :=
  b.value?.bind Arith.integer?

/-- The power of a base that has a minus sign: even powers drop it, odd ones put it in front. -/
def signedPower (a b : Expr K) (p : Position) : Expr K :=
  match a, integerExponent? b with
  | neg c, some k => if k % 2 = 0 then binary .pow c b p else neg (binary .pow c b p)
  | a, _ => binary .pow a b p

/-- The power whose exponent undoes a logarithm to its base, or any other. -/
def inversePower (a b : Expr K) (p : Position) : Expr K :=
  match b with
  | call .log10 c _ => if a == nat 10 then c else signedPower a b p
  | call .log c _ | call .ln c _ => if a.isEuler then c else signedPower a b p
  | _ => signedPower a b p

/-- The base is zero and the exponent is no number outside the right half plane. -/
def isZeroPower (a b : Expr K) : Bool :=
  a == nat 0 && b.value?.all Arith.isRight

/-- The power of simplified trees where the exponent is no negative number. -/
def powerUnsigned (a b : Expr K) (p : Position) : Expr K :=
  (foldNumbers? .pow a b).getD
    (if isZeroPower a b then nat 0
    else if a == nat 1 || b == nat 0 then nat 1
    else if b == nat 1 then a
    else inversePower a b p)

/-- The power of simplified trees. A negative number as exponent makes a reciprocal. -/
def power (a b : Expr K) (p : Position) : Expr K :=
  (foldNumbers? .pow a b).getD
    (if isZeroPower a b then nat 0
    else if a == nat 1 || b == nat 0 then nat 1
    else if b == nat 1 then a
    else if b.isNumber && b.isNegative then quotient (nat 1) (powerUnsigned a b.negated p) none
    else inversePower a b p)

/-! ### Function applications -/

/-- The value of a function at the tree where it is known exactly. -/
def knownValue? (f : Builtin) (a : Expr K) : Option (Expr K) :=
  match f with
  | .log | .ln => if a.isEuler then some (nat 1) else none
  | .log10 => if a == nat 10 then some (nat 1) else none
  | .sin | .tan => if a == nat 0 then some (nat 0) else none
  | .cos => if a == nat 0 then some (nat 1) else none
  | _ => none

/-- The number that a function makes of a number, unless it is a logarithm of a negative number or
the result is not finite. -/
def foldCall? (f : Builtin) : Expr K → Option (Expr K)
  | number v =>
    if f.isLogarithm && Arith.isNegative v then none
    else if Arith.isFinite (Arith.apply f v) then some (literal (Arith.apply f v)) else none
  | _ => none

/-- A function applied to a tree that may have a minus sign: odd functions put it in front, even
ones drop it. -/
def signedCall (f : Builtin) (a : Expr K) (p : Position) : Expr K :=
  match f, a with
  | .sin, neg b => neg (call .sin b p)
  | .tan, neg b => neg (call .tan b p)
  | .cos, neg b => call .cos b p
  | f, a => call f a p

/-- The application of a function to a simplified tree. -/
def application (f : Builtin) (a : Expr K) (p : Position) : Expr K :=
  (knownValue? f a <|> foldCall? f a).getD (signedCall f a p)

/-! ### Whole trees -/

/-- The operator joins two simplified trees. -/
def operation (op : BinaryOp) (a b : Expr K) (p : Position) : Expr K :=
  match op with
  | .add => sum a b p
  | .sub => difference a b p
  | .mul => product a b p
  | .div => quotient a b p
  | .pow => power a b p

/-- The simplified tree. -/
def simplify : Expr K → Expr K
  | neg a => a.simplify.negated
  | binary op a b p => operation op a.simplify b.simplify p
  | call f a p => application f a.simplify p
  | a => a

end Formulary.Expr

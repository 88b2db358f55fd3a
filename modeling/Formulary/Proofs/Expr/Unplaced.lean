import Formulary.Expr.Derivative
import Formulary.Expr.Latex
import Formulary.Expr.Script
import Formulary.Proofs.Expr.Positions

/-!
# What is made of trees without places

Simplifying, differentiating and writing a tree ask many questions about it, and none about places:
of a tree without places they make what they make of the tree, without places.

* `unplaced_ite`, `unplaced_getD`: taking the places off what a rule gives.
* `foldNumbers?_unplaced`, `unplaced_hoisted`, `unplaced_product` and so on: each rule.
* **`unplaced_simplify`**: simplifying.
* `DerivativeError.unplaced`, `unplacedDerivative`: an error and a derivative without places.
* **`differentiate_unplaced`**, `derivative_unplaced`: differentiating.
* `text_unplaced`, `typeset_unplaced`, `lua_unplaced`, `luaChunk_unplaced`: writing.
-/

namespace Formulary

universe u

/-- The error without the place of the call. -/
def DerivativeError.unplaced (e : DerivativeError) : DerivativeError :=
  { e with position := none }

namespace Expr

variable {K : Type u}

/-! ### Questions about a tree -/

@[simp]
theorem isNumber_unplaced (a : Expr K) : a.unplaced.isNumber = a.isNumber := by
  cases a <;> rfl

@[simp]
theorem isNeg_unplaced (a : Expr K) : a.unplaced.isNeg = a.isNeg := by
  cases a <;> rfl

@[simp]
theorem isBinary_unplaced (a : Expr K) : a.unplaced.isBinary = a.isBinary := by
  cases a <;> rfl

@[simp]
theorem isEuler_unplaced (a : Expr K) : a.unplaced.isEuler = a.isEuler := by
  cases a <;> rfl

@[simp]
theorem value?_unplaced (a : Expr K) : a.unplaced.value? = a.value? := by
  cases a <;> rfl

theorem collectNames_unplaced (names : List String) (a : Expr K) :
    collectNames names a.unplaced = collectNames names a := by
  induction a generalizing names with
  | number v => rfl
  | argument => rfl
  | named n p => rfl
  | neg a ih => exact ih names
  | binary op a b p iha ihb => rw [unplaced, collectNames, iha, ihb, collectNames]
  | call f a p ih => exact ih names

theorem variableNames_unplaced (a : Expr K) : a.unplaced.variableNames = a.variableNames :=
  collectNames_unplaced [] a

/-! ### Choices between trees -/

@[simp]
theorem unplaced_ite (c : Prop) [Decidable c] (a b : Expr K) :
    (if c then a else b).unplaced = if c then a.unplaced else b.unplaced :=
  apply_ite unplaced c a b

@[simp]
theorem unplaced_getD (o : Option (Expr K)) (a : Expr K) :
    (o.getD a).unplaced = (o.map unplaced).getD a.unplaced := by
  cases o <;> rfl

@[simp]
theorem unplaced_signedCall (f : Builtin) (a : Expr K) (p : Position) :
    (signedCall f a p).unplaced = signedCall f a.unplaced none := by
  cases f <;> cases a <;> rfl

section Rules

variable [Arith K]

@[simp]
theorem isNegative_unplaced (a : Expr K) : a.unplaced.isNegative = a.isNegative := by
  cases a <;> rfl

@[simp]
theorem integerExponent?_unplaced (a : Expr K) :
    integerExponent? a.unplaced = integerExponent? a := by
  rw [integerExponent?, value?_unplaced, integerExponent?]

@[simp]
theorem unplaced_nat (n : Nat) : (nat n : Expr K).unplaced = nat n :=
  rfl

@[simp]
theorem unplaced_beq_nat (a : Expr K) (n : Nat) : (a.unplaced == nat n) = (a == nat n) :=
  beq_unplaced a (nat n)

@[simp]
theorem unplaced_beq_minusOne (a : Expr K) : (a.unplaced == minusOne) = (a == minusOne) :=
  beq_unplaced a minusOne

@[simp]
theorem unplaced_beq_unplaced (a b : Expr K) : (a.unplaced == b.unplaced) = (a == b) :=
  beq_unplaced a b

@[simp]
theorem isZeroPower_unplaced (a b : Expr K) :
    isZeroPower a.unplaced b.unplaced = isZeroPower a b := by
  simp [isZeroPower]

/-! ### Simplification -/

@[simp]
theorem unplaced_negated (a : Expr K) : a.negated.unplaced = a.unplaced.negated := by
  cases a <;> rfl

@[simp]
theorem foldNumbers?_unplaced (op : BinaryOp) (a b : Expr K) :
    foldNumbers? op a.unplaced b.unplaced = (foldNumbers? op a b).map unplaced := by
  cases a <;> cases b <;> try rfl
  simp only [unplaced, foldNumbers?]
  split
  · rfl
  · split <;> rfl

@[simp]
theorem unplaced_joined (op : BinaryOp) (a b : Expr K) (p : Position) :
    (joined op a b p).unplaced = joined op a.unplaced b.unplaced none := by
  simp [joined, unplaced]

@[simp]
theorem unplaced_hoisted (op : BinaryOp) (a b : Expr K) (p : Position) :
    (hoisted op a b p).unplaced = hoisted op a.unplaced b.unplaced none := by
  simp [hoisted, unplaced]

@[simp]
theorem unplaced_product (a b : Expr K) (p : Position) :
    (product a b p).unplaced = product a.unplaced b.unplaced none := by
  simp [product, productRules]

@[simp]
theorem unplaced_quotient (a b : Expr K) (p : Position) :
    (quotient a b p).unplaced = quotient a.unplaced b.unplaced none := by
  simp [quotient]

@[simp]
theorem unplaced_sumUnsigned (a b : Expr K) (p : Position) :
    (sumUnsigned a b p).unplaced = sumUnsigned a.unplaced b.unplaced none := by
  simp [sumUnsigned, unplaced]

@[simp]
theorem unplaced_differenceUnsigned (a b : Expr K) (p : Position) :
    (differenceUnsigned a b p).unplaced = differenceUnsigned a.unplaced b.unplaced none := by
  simp [differenceUnsigned, unplaced]

@[simp]
theorem unplaced_sum (a b : Expr K) (p : Position) :
    (sum a b p).unplaced = sum a.unplaced b.unplaced none := by
  simp [sum]

@[simp]
theorem unplaced_difference (a b : Expr K) (p : Position) :
    (difference a b p).unplaced = difference a.unplaced b.unplaced none := by
  simp [difference]

@[simp]
theorem unplaced_signedPower (a b : Expr K) (p : Position) :
    (signedPower a b p).unplaced = signedPower a.unplaced b.unplaced none := by
  unfold signedPower
  rw [integerExponent?_unplaced]
  cases a <;> cases integerExponent? b <;> try rfl
  exact unplaced_ite _ _ _

@[simp]
theorem unplaced_inversePower (a b : Expr K) (p : Position) :
    (inversePower a b p).unplaced = inversePower a.unplaced b.unplaced none := by
  cases b with
  | call f c q =>
    have hsigned := unplaced_signedPower a (call f c q) p
    rw [unplaced] at hsigned ⊢
    cases f <;> simp [inversePower, hsigned]
  | _ => exact unplaced_signedPower a _ p

@[simp]
theorem unplaced_powerUnsigned (a b : Expr K) (p : Position) :
    (powerUnsigned a b p).unplaced = powerUnsigned a.unplaced b.unplaced none := by
  simp [powerUnsigned]

@[simp]
theorem unplaced_power (a b : Expr K) (p : Position) :
    (power a b p).unplaced = power a.unplaced b.unplaced none := by
  simp [power]

theorem knownValue?_unplaced (f : Builtin) (a : Expr K) :
    knownValue? f a.unplaced = (knownValue? f a).map unplaced := by
  cases f <;> simp [knownValue?, apply_ite (Option.map unplaced)]

theorem foldCall?_unplaced (f : Builtin) (a : Expr K) :
    foldCall? f a.unplaced = (foldCall? f a).map unplaced := by
  cases a <;> try rfl
  simp only [unplaced, foldCall?]
  split
  · rfl
  · split <;> rfl

theorem unplaced_application (f : Builtin) (a : Expr K) (p : Position) :
    (application f a p).unplaced = application f a.unplaced none := by
  rw [application, unplaced_getD, unplaced_signedCall, application, knownValue?_unplaced,
    foldCall?_unplaced]
  cases knownValue? f a <;> rfl

/-- The operators join trees without places as they join trees. -/
theorem unplaced_operation (op : BinaryOp) (a b : Expr K) (p : Position) :
    (operation op a b p).unplaced = operation op a.unplaced b.unplaced none := by
  cases op with
  | add => exact unplaced_sum a b p
  | sub => exact unplaced_difference a b p
  | mul => exact unplaced_product a b p
  | div => exact unplaced_quotient a b p
  | pow => exact unplaced_power a b p

/-- **Simplifying does not look at places.** -/
theorem unplaced_simplify (a : Expr K) : a.simplify.unplaced = a.unplaced.simplify := by
  induction a with
  | number v => rfl
  | argument => rfl
  | named n p => rfl
  | neg a ih => rw [simplify, unplaced_negated, ih, unplaced, simplify]
  | binary op a b p iha ihb => rw [simplify, unplaced_operation, iha, ihb, unplaced, simplify]
  | call f a p ih => rw [simplify, unplaced_application, ih, unplaced, simplify]

/-! ### Derivatives -/

theorem unplaced_diffBinary (op : BinaryOp) (a b a' b' : Expr K) :
    (diffBinary op a b a' b').unplaced =
      diffBinary op a.unplaced b.unplaced a'.unplaced b'.unplaced := by
  cases op <;> rfl

theorem outerDerivative?_unplaced (f : Builtin) (a : Expr K) :
    outerDerivative? f a.unplaced = (outerDerivative? f a).map unplaced := by
  cases f <;> rfl

/-- The derivative, or the error, without places. -/
def unplacedDerivative (r : Except DerivativeError (Expr K)) : Except DerivativeError (Expr K) :=
  (r.map unplaced).mapError DerivativeError.unplaced

/-- **Differentiating does not look at places.** -/
theorem differentiate_unplaced (a : Expr K) :
    a.unplaced.differentiate = unplacedDerivative a.differentiate := by
  induction a with
  | number v => rfl
  | argument => rfl
  | named n p => rfl
  | neg a ih =>
    rw [unplaced, differentiate, ih, differentiate]
    cases a.differentiate <;> rfl
  | binary op a b p iha ihb =>
    rw [unplaced, differentiate, iha, ihb, differentiate]
    cases a.differentiate with
    | error e => rfl
    | ok a' =>
      cases b.differentiate with
      | error e => rfl
      | ok b' => exact congrArg Except.ok (unplaced_diffBinary op a b a' b').symm
  | call f a p ih =>
    rw [unplaced, differentiate, outerDerivative?_unplaced, ih, differentiate]
    cases outerDerivative? f a with
    | none => rfl
    | some outer => cases a.differentiate <;> rfl

theorem derivative_unplaced (a : Expr K) :
    a.unplaced.derivative = unplacedDerivative a.derivative := by
  rw [derivative, differentiate_unplaced, derivative]
  cases a.differentiate with
  | error e => rfl
  | ok a' => exact congrArg Except.ok (unplaced_simplify a').symm

end Rules

/-! ### Writing -/

section Writing

variable {R : Type u} [RealArith R]

@[simp]
theorem binding_unplaced (a : Expr (Complex R)) : a.unplaced.binding = a.binding := by
  cases a <;> rfl

@[simp]
theorem needsParens_unplaced (op : BinaryOp) (isLeft : Bool) (a : Expr (Complex R)) :
    needsParens op isLeft a.unplaced = needsParens op isLeft a := by
  rw [needsParens, binding_unplaced, needsParens]

theorem text_unplaced (a : Expr (Complex R)) : a.unplaced.text = a.text := by
  induction a with
  | number v => rfl
  | argument => rfl
  | named n p => rfl
  | neg a ih => simp only [unplaced, text, ih, isBinary_unplaced]
  | binary op a b p iha ihb => simp only [unplaced, text, iha, ihb, needsParens_unplaced]
  | call f a p ih => simp only [unplaced, text, ih]

theorem typeset_unplaced (a : Expr (Complex R)) : a.unplaced.typeset = a.typeset := by
  induction a with
  | number v => rfl
  | argument => rfl
  | named n p => rfl
  | neg a ih => simp only [unplaced, typeset, ih, isBinary_unplaced]
  | binary op a b p iha ihb =>
    simp only [unplaced, typeset, iha, ihb, operandMarkup, needsParens_unplaced,
      isNumber_unplaced]
  | call f a p ih => simp only [unplaced, typeset, ih]

theorem latex_unplaced (a : Expr (Complex R)) : a.unplaced.latex = a.latex :=
  congrArg Prod.fst (typeset_unplaced a)

theorem lua_unplaced (a : Expr (Complex R)) : a.unplaced.lua = a.lua := by
  induction a with
  | number v => rfl
  | argument => rfl
  | named n p => rfl
  | neg a ih => rw [unplaced, lua, ih, lua]
  | binary op a b p iha ihb => rw [unplaced, lua, iha, ihb, lua]
  | call f a p ih => rw [unplaced, lua, ih, lua]

theorem luaChunk_unplaced (a : Expr (Complex R)) (vars : Vars (Complex R)) :
    a.unplaced.luaChunk vars = a.luaChunk vars := by
  rw [luaChunk, lua_unplaced, variableNames_unplaced, luaChunk]

end Writing

end Expr

end Formulary

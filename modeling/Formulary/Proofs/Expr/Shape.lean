import Formulary.Proofs.Expr.Normal

/-!
# The shape of simplified trees

What a reader of a simplified tree can rely on, said of the tree and not of the rules: where minus
signs, numbers, zeros and ones do not stand.

* `IsNormal.of_mem`: all trees in a normal tree are normal.
* `settled_of_mem`: the operands in a normal tree are settled.
* `HasShape`: what does not occur anywhere in the tree.
* **`hasShape_simplify`**: it does not occur in a simplified tree.
-/

namespace Formulary.Expr

universe u

variable {K : Type u} [Arith K]

/-! ### Nodes of normal trees -/

/-- All trees in a normal tree are normal. -/
theorem IsNormal.of_mem {s t : Expr K} (ht : IsNormal t) (hs : s ∈ t.subtrees) : IsNormal s := by
  refine of_mem_subtrees (Q := IsNormal) (fun h => ?_) (fun h => ?_) (fun h => ?_) ht hs
  · cases h with
    | neg ha hnum hneg => exact ha
  · cases h with
    | binary p ha hb hfold hs => exact ⟨ha, hb⟩
  · cases h with
    | call p ha hs => exact ha

theorem settled_of_mem {op : BinaryOp} {a b t : Expr K} {p : Position} (ht : IsNormal t)
    (h : binary op a b p ∈ t.subtrees) : Settled op a b := by
  cases ht.of_mem h with
  | binary p ha hb hfold hs => exact hs

/-- A tree without a sign is no negative number. -/
theorem not_isNegative_number {b : Expr K} (h : b.isNegative = false) {v : K} (hb : b = number v) :
    Arith.isNegative v = false := by
  rw [hb] at h
  exact h

/-! ### The shape -/

/-- The number is not zero, one or minus one. -/
structure IsProperFactor (a : Expr K) : Prop where
  ne_zero : (a == nat 0) = false
  ne_one : (a == nat 1) = false
  ne_minusOne : (a == minusOne) = false

/-- What does not occur anywhere in the tree `t`. -/
structure HasShape (t : Expr K) : Prop where
  /-- A minus sign stands before no number and before no other minus sign. -/
  negation {a : Expr K} (h : neg a ∈ t.subtrees) : a.isNumber = false ∧ a.isNeg = false
  /-- Factors, dividends and divisors are no negations. -/
  factors {op : BinaryOp} {a b : Expr K} {p : Position} (hop : op ∈ [BinaryOp.mul, .div])
    (h : binary op a b p ∈ t.subtrees) : a.isNeg = false ∧ b.isNeg = false
  /-- What is added or taken away is no negation and no negative number. -/
  summand {op : BinaryOp} {a b : Expr K} {p : Position} (hop : op ∈ [BinaryOp.add, .sub])
    (h : binary op a b p ∈ t.subtrees) :
    b.isNeg = false ∧ ∀ v, b = number v → Arith.isNegative v = false
  /-- Sums and differences have no zero and no two equal operands. -/
  summands {op : BinaryOp} {a b : Expr K} {p : Position} (hop : op ∈ [BinaryOp.add, .sub])
    (h : binary op a b p ∈ t.subtrees) :
    (a == nat 0) = false ∧ (b == nat 0) = false ∧ (a == b) = false
  /-- A number stands on the right of a product only if one stands on the left. -/
  numbersLeft {a b : Expr K} {p : Position} (h : binary .mul a b p ∈ t.subtrees)
    (hb : b.isNumber = true) : a.isNumber = true
  /-- Products have no factor zero, one or minus one. -/
  properFactors {a b : Expr K} {p : Position} (h : binary .mul a b p ∈ t.subtrees) :
    IsProperFactor a ∧ IsProperFactor b
  /-- No divisor is one or minus one. -/
  divisor {a b : Expr K} {p : Position} (h : binary .div a b p ∈ t.subtrees) :
    (b == nat 1) = false ∧ (b == minusOne) = false
  /-- No exponent is zero, one or a negative number. -/
  exponent {a b : Expr K} {p : Position} (h : binary .pow a b p ∈ t.subtrees) :
    (b == nat 0) = false ∧ (b == nat 1) = false ∧ ∀ v, b = number v → Arith.isNegative v = false
  /-- No base is one. -/
  base {a b : Expr K} {p : Position} (h : binary .pow a b p ∈ t.subtrees) : (a == nat 1) = false
  /-- No negation has an integer of 32 bits as exponent. -/
  negatedBase {a : Expr K} {v : K} {p : Position}
    (h : binary .pow (neg a) (number v) p ∈ t.subtrees) : Arith.integer? v = none
  /-- Sines, cosines and tangents are not taken of negations. -/
  circular {f : Builtin} {a : Expr K} {p : Position} (hf : f ∈ [Builtin.sin, .cos, .tan])
    (h : call f a p ∈ t.subtrees) : a.isNeg = false

theorem sumSettled_of_settled {op : BinaryOp} {a b : Expr K} (hop : op ∈ [BinaryOp.add, .sub])
    (h : Settled op a b) : SumSettled a b := by
  simp only [List.mem_cons, List.not_mem_nil, or_false] at hop
  rcases hop with rfl | rfl
  · exact h
  · exact h

theorem signsSettled_of_settled {op : BinaryOp} {a b : Expr K} (hop : op ∈ [BinaryOp.mul, .div])
    (h : Settled op a b) : SignsSettled a b := by
  simp only [List.mem_cons, List.not_mem_nil, or_false] at hop
  rcases hop with rfl | rfl
  · exact h.2
  · exact h.2

/-- Normal trees have the shape. -/
theorem hasShape_of_isNormal {t : Expr K} (ht : IsNormal t) : HasShape t where
  negation h := by
    cases ht.of_mem h with
    | neg ha hnum hneg => exact ⟨hnum, hneg⟩
  factors hop h := by
    have hs := signsSettled_of_settled hop (settled_of_mem ht h)
    exact ⟨hs.left, hs.right⟩
  summand hop h := by
    have hs := sumSettled_of_settled hop (settled_of_mem ht h)
    exact ⟨isNeg_of_isNegative hs.right_unsigned, fun _ => not_isNegative_number hs.right_unsigned⟩
  summands hop h := by
    have hs := sumSettled_of_settled hop (settled_of_mem ht h)
    exact ⟨hs.left_ne_zero, hs.right_ne_zero, hs.ne⟩
  numbersLeft h := by
    have hs : FactorsSettled _ _ := (settled_of_mem ht h).1
    exact hs.number_left
  properFactors h := by
    have hs : FactorsSettled _ _ := (settled_of_mem ht h).1
    exact ⟨⟨hs.left_ne_zero, hs.left_ne_one, hs.left_ne_minusOne⟩,
      ⟨hs.right_ne_zero, hs.right_ne_one, hs.right_ne_minusOne⟩⟩
  divisor h := by
    have hs : DivisorSettled _ := (settled_of_mem ht h).1
    exact ⟨hs.ne_one, hs.ne_minusOne⟩
  exponent h := by
    have hs : PowerSettled _ _ := settled_of_mem ht h
    refine ⟨hs.exponent_ne_zero, hs.exponent_ne_one, fun v hv => ?_⟩
    have hunsigned := hs.exponent_unsigned
    rw [hv] at hunsigned
    exact hunsigned
  base h := by
    have hs : PowerSettled _ _ := settled_of_mem ht h
    exact hs.base_ne_one
  negatedBase {a v p} h := by
    have hs : PowerSettled _ _ := settled_of_mem ht h
    have hunsigned : (Arith.integer? v).isSome = false := hs.base_unsigned
    exact Option.not_isSome_iff_eq_none.1 (Bool.not_eq_true _ ▸ hunsigned)
  circular hf h := by
    cases ht.of_mem h with
    | call p ha hs => exact hs.unsigned hf

/-- **Simplified trees have the shape**, whatever their numbers are. -/
theorem hasShape_simplify [NegationLaws K] (a : Expr K) : HasShape a.simplify :=
  hasShape_of_isNormal (isNormal_simplify a)

open RealArith in
/-- Machine numbers have the laws: signs, a power with the exponent `1 - 4` and a product of numbers
that are too large to fold. -/
theorem hasShape_simplify_double :
    HasShape (times (neg (toPower (neg argument) (minus (nat 1) (nat 4))))
      (times (number ⟨1e200, 0⟩) (number ⟨1e200, 0⟩)) : Expr (Complex Double)).simplify :=
  hasShape_simplify _

end Formulary.Expr

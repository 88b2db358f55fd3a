import Formulary.Proofs.Arithmetic.WholeLaws
import Formulary.Proofs.Expr.RuleClosed
import Formulary.Proofs.Expr.RuleValues

/-!
# Derivatives of polynomials

A polynomial is differentiated by the same rule as all powers, with a logarithm and an exponent that
is one less. It is left to simplification to make a polynomial of the result: the logarithm stands
beside a factor zero, and where the exponent could become negative there is one, too.

* `IsPolynomial a`: numbers and the argument are joined by signs, sums, differences, products and
  powers to a natural number.
* `isPolynomial_power`, `isPolynomial_simplify`: the rules keep polynomials.
* `product_of_zero`: a product with zero is a number, whatever the other factor is.
* `baseFactor`, `exponentTerm`, `isPolynomial_diffPower`: the rule for powers.
* **`exists_derivative`**: polynomials have derivatives, and these are polynomials.
* `nthDerivative`, `exists_nthDerivative`: the derivatives of all orders.
-/

namespace Formulary.Expr

open RealArith

universe u

variable {R : Type u} [RealArith R]

/-- A tree of finite numbers and the argument whose operators are signs, sums, differences, products
and powers with a natural number as exponent. -/
inductive IsPolynomial : Expr (Complex R) → Prop where
  | number {v : Complex R} (hv : v.isFinite = true) : IsPolynomial (number v)
  | argument : IsPolynomial argument
  | neg {a : Expr (Complex R)} (ha : IsPolynomial a) : IsPolynomial (neg a)
  | ring {op : BinaryOp} {a b : Expr (Complex R)} {p : Position} (hop : op ∈ ringOperators)
    (ha : IsPolynomial a) (hb : IsPolynomial b) : IsPolynomial (binary op a b p)
  | power {a : Expr (Complex R)} {v : Complex R} {n : ℕ} {p : Position} (ha : IsPolynomial a)
    (hv : v.isFinite = true) (hn : v.IsNat n) : IsPolynomial (binary .pow a (number v) p)

/-- Evaluation of a polynomial cannot fail: it divides by nothing and looks nothing up. -/
theorem IsPolynomial.exists_eval {a : Expr (Complex R)} (ha : a.IsPolynomial) (x : Complex R)
    (vars : Vars (Complex R)) (mode : EvalMode) : ∃ v, a.eval x vars mode = .ok v := by
  induction ha with
  | number hv => exact ⟨_, rfl⟩
  | argument => exact ⟨_, rfl⟩
  | neg ha ih =>
    obtain ⟨v, hv⟩ := ih
    exact ⟨_, eval_neg hv⟩
  | ring hop ha hb iha ihb =>
    obtain ⟨v, hv⟩ := iha
    obtain ⟨w, hw⟩ := ihb
    exact ⟨_, eval_binary_of_allowed (allowed_of_ne (ne_of_mem_ringOperators hop).1) hv hw⟩
  | power ha hv hn ih =>
    obtain ⟨v, hv⟩ := ih
    exact ⟨_, eval_binary_of_allowed (allowed_of_ne (by decide)) hv rfl⟩

theorem IsPolynomial.of_mem {a s : Expr (Complex R)} (ha : a.IsPolynomial) (hs : s ∈ a.subtrees) :
    s.IsPolynomial := by
  refine of_mem_subtrees (Q := IsPolynomial) (fun ha => ?_) (fun ha => ?_) (fun ha => ?_) ha hs
  · cases ha with
    | neg ha => exact ha
  · cases ha with
    | ring _ ha hb => exact ⟨ha, hb⟩
    | power ha hv _ => exact ⟨ha, .number hv⟩
  · cases ha

variable [WholeLaws R] {op : BinaryOp} {a b a' b' : Expr (Complex R)} {v : Complex R} {n : ℕ}
  {p : Position}

/-! ### Rules -/

theorem isFinite_nat (h : n ≤ 10) : (Arith.ofNat n : Complex R).isFinite = true := by
  show (RealArith.isFinite (RealArith.ofNat n : R) && RealArith.isFinite (0 : R)) = true
  rw [SignLaws.isFinite_ofNat n h]
  exact SignLaws.isFinite_ofNat 0 (by omega)

theorem isFinite_normalize {v : Complex R} (h : v.isFinite = true) :
    (Arith.normalize v).isFinite = true := by
  obtain ⟨hre, him⟩ := Complex.isFinite_iff.1 h
  exact Complex.isFinite_iff.2 ⟨(SignLaws.isFinite_add_zero _).trans hre,
    (SignLaws.isFinite_add_zero _).trans him⟩

/-- Computed numbers are polynomials. -/
theorem isPolynomial_literal (h : Arith.isFinite v = true) : (literal v).IsPolynomial :=
  .number (isFinite_normalize h)

theorem isPolynomial_nat (h : n ≤ 10) : (nat n : Expr (Complex R)).IsPolynomial :=
  .number (isFinite_nat h)

theorem ringClosed_isPolynomial : RingClosed (IsPolynomial (R := R)) where
  whole := isPolynomial_nat
  opposite {v} h := by
    cases h with
    | number hv =>
      obtain ⟨hre, him⟩ := Complex.isFinite_iff.1 hv
      exact isPolynomial_literal (Complex.isFinite_iff.2
        ⟨(SignLaws.isFinite_neg _).trans hre, (SignLaws.isFinite_neg _).trans him⟩)
  computed := isPolynomial_literal
  neg_iff := ⟨fun h => by cases h with | neg h => exact h, .neg⟩
  binary h ha hb := .ring h ha hb

/-- No natural number is negative, so no power is turned into a quotient. -/
theorem isPolynomial_power (ha : a.IsPolynomial) (hv : v.isFinite = true) (hn : v.IsNat n) :
    (power a (number v) p).IsPolynomial := by
  have hneg : (number v).isNegative = false := by
    show (v.im == 0 && lt v.re 0) = false
    rw [WholeLaws.not_lt_zero v.re n hn.2, Bool.and_false]
  refine foldNumbers?_getD (fun _ => isPolynomial_literal) fun _ => ?_
  split
  · exact isPolynomial_nat (by omega)
  · split
    · exact isPolynomial_nat (by omega)
    · split
      · exact ha
      · rw [hneg, Bool.and_false, if_neg Bool.false_ne_true]
        show (signedPower a (number v) p).IsPolynomial
        unfold signedPower
        split
        · cases ha with
          | neg ha =>
            split
            · exact .power ha hv hn
            · exact .neg (.power ha hv hn)
        · exact .power ha hv hn

theorem isPolynomial_simplify (ha : a.IsPolynomial) : a.simplify.IsPolynomial := by
  induction ha with
  | number hv => exact .number hv
  | argument => exact .argument
  | neg ha ih => exact ringClosed_isPolynomial.negated ih
  | ring hop ha hb iha ihb => exact ringClosed_isPolynomial.operation hop iha ihb
  | power ha hv hn ih => exact isPolynomial_power ih hv hn

/-! ### Derivatives -/

omit [WholeLaws R] in
/-- A product with a factor zero is folded, or it is the number zero. The other factor need not even
have a value. -/
theorem product_of_zero (h : (a == nat 0 || b == nat 0) = true) :
    product a b p = nat 0 ∨ ∃ v w, a = number v ∧ b = number w ∧ Arith.isFinite (v * w) = true ∧
      product a b p = literal (v * w) := by
  have hrules : productRules a b p = nat 0 := if_pos h
  unfold product
  rw [hrules]
  cases hfold : foldNumbers? .mul a b with
  | none => exact .inl rfl
  | some r =>
    unfold foldNumbers? at hfold
    split at hfold
    · split at hfold
      · cases hfold
      · split at hfold
        · next v w _ hfin =>
          cases hfold
          exact .inr ⟨v, w, rfl, rfl, hfin, rfl⟩
        · cases hfold
    · cases hfold

theorem isPolynomial_product_of_zero (h : (a == nat 0 || b == nat 0) = true) :
    (product a b p).IsPolynomial := by
  obtain h | ⟨v, w, -, -, hfin, h⟩ := product_of_zero (p := p) h
  · rw [h]
    exact isPolynomial_nat (by omega)
  · rw [h]
    exact isPolynomial_literal hfin

theorem nat_zero_beq : ((nat 0 : Expr (Complex R)) == nat 0) = true := by
  have hzero : ((0 : R) == 0) = true := SignLaws.beq_self 0 (SignLaws.isFinite_ofNat 0 (by omega))
  exact Bool.and_eq_true_iff.2 ⟨hzero, hzero⟩

theorem number_beq_nat_zero (hn : v.IsNat 0) : (number v == nat 0) = true :=
  Bool.and_eq_true_iff.2 ⟨WholeLaws.beq_zero _ hn.2, hn.1⟩

/-- The exponent less one is folded. -/
theorem difference_one (hv : v.isFinite = true) (hn : v.IsNat (n + 1)) :
    Arith.isFinite (v - Arith.ofNat 1) = true ∧
      difference (number v) (nat 1) p = literal (v - Arith.ofNat 1) := by
  have hfin : Arith.isFinite (v - Arith.ofNat 1) = true := by
    refine Complex.isFinite_iff.2 ⟨WholeLaws.isFinite_sub_one _ n hn.2, ?_⟩
    show RealArith.isFinite (v.im - 0) = true
    rw [WholeLaws.sub_zero _ (Complex.isFinite_iff.1 hv).2]
    exact (Complex.isFinite_iff.1 hv).2
  refine ⟨hfin, ?_⟩
  have hfold : foldNumbers? .sub (number v) (nat 1) = some (literal (v - Arith.ofNat 1)) :=
    if_pos hfin
  unfold difference
  rw [hfold]
  rfl

theorem exists_isNat_sub_one (hv : v.isFinite = true) (hn : v.IsNat (n + 1)) :
    ∃ m, (Arith.normalize (v - Arith.ofNat 1)).IsNat m := by
  obtain ⟨m, hm⟩ := WholeLaws.sub_one v.re n hn.2
  refine ⟨m, ?_, hm⟩
  show (v.im - 0 + 0 == 0) = true
  rw [SignLaws.add_zero_beq, WholeLaws.sub_zero _ (Complex.isFinite_iff.1 hv).2]
  exact hn.1

/-- The derivative of the power `a ^ v` by its base, as it is simplified. -/
def baseFactor (a : Expr (Complex R)) (v : Complex R) : Expr (Complex R) :=
  product (number v) (power a (difference (number v) (nat 1) none) none) none

/-- What the rule for powers adds for the derivative of the exponent, as it is simplified where that
derivative is zero. -/
def exponentTerm (a : Expr (Complex R)) (v : Complex R) : Expr (Complex R) :=
  product (product (power a (number v) none) (application .log a none) none) (nat 0) none

omit [WholeLaws R] in
theorem simplify_diffPower : (diffBinary .pow a (number v) a' (nat 0)).simplify =
    sum (product (baseFactor a.simplify v) a'.simplify none) (exponentTerm a.simplify v) none :=
  rfl

/-- There is no power to an exponent less than zero: where it would occur it has a factor zero. -/
theorem isPolynomial_baseFactor (ha : a.IsPolynomial) (hv : v.isFinite = true) (hn : v.IsNat n) :
    (baseFactor a v).IsPolynomial := by
  cases n with
  | zero => exact isPolynomial_product_of_zero (by rw [number_beq_nat_zero hn, Bool.true_or])
  | succ n =>
    obtain ⟨hfin, hdifference⟩ := difference_one (p := none) hv hn
    obtain ⟨m, hm⟩ := exists_isNat_sub_one hv hn
    rw [baseFactor, hdifference]
    exact ringClosed_isPolynomial.product (.number hv)
      (isPolynomial_power ha (isFinite_normalize hfin) hm)

/-- There is no logarithm. -/
theorem isPolynomial_exponentTerm : (exponentTerm a v).IsPolynomial :=
  isPolynomial_product_of_zero (by rw [nat_zero_beq, Bool.or_true])

/-- The rule for powers, simplified. -/
theorem isPolynomial_diffPower (ha : a.simplify.IsPolynomial) (ha' : a'.simplify.IsPolynomial)
    (hv : v.isFinite = true) (hn : v.IsNat n) :
    (diffBinary .pow a (number v) a' (nat 0)).simplify.IsPolynomial := by
  rw [simplify_diffPower]
  exact ringClosed_isPolynomial.sum
    (ringClosed_isPolynomial.product (isPolynomial_baseFactor ha hv hn) ha')
    isPolynomial_exponentTerm

theorem isPolynomial_diffBinary (hop : op ∈ ringOperators) (ha : a.simplify.IsPolynomial)
    (hb : b.simplify.IsPolynomial) (ha' : a'.simplify.IsPolynomial)
    (hb' : b'.simplify.IsPolynomial) : (diffBinary op a b a' b').simplify.IsPolynomial := by
  cases op with
  | add => exact ringClosed_isPolynomial.sum ha' hb'
  | sub => exact ringClosed_isPolynomial.difference ha' hb'
  | mul =>
    exact ringClosed_isPolynomial.sum (ringClosed_isPolynomial.product hb ha')
      (ringClosed_isPolynomial.product ha hb')
  | div => exact absurd hop (by decide)
  | pow => exact absurd hop (by decide)

/-- A polynomial has a derivative, and simplified that is a polynomial. -/
theorem exists_differentiate (ha : a.IsPolynomial) :
    ∃ a', a.differentiate = .ok a' ∧ a'.simplify.IsPolynomial := by
  induction ha with
  | number hv => exact ⟨nat 0, rfl, isPolynomial_nat (by omega)⟩
  | argument => exact ⟨nat 1, rfl, isPolynomial_nat (by omega)⟩
  | neg ha ih =>
    obtain ⟨a', hd, ha'⟩ := ih
    refine ⟨.neg a', ?_, ringClosed_isPolynomial.negated ha'⟩
    simp only [differentiate, hd]
  | ring hop ha hb iha ihb =>
    obtain ⟨a', hda, ha'⟩ := iha
    obtain ⟨b', hdb, hb'⟩ := ihb
    refine ⟨_, ?_, isPolynomial_diffBinary hop (isPolynomial_simplify ha)
      (isPolynomial_simplify hb) ha' hb'⟩
    simp only [differentiate, hda, hdb]
  | power ha hv hn ih =>
    obtain ⟨a', hd, ha'⟩ := ih
    refine ⟨_, ?_, isPolynomial_diffPower (isPolynomial_simplify ha) ha' hv hn⟩
    simp only [differentiate, hd]

theorem exists_derivative (ha : a.IsPolynomial) : ∃ b, a.derivative = .ok b ∧ b.IsPolynomial := by
  obtain ⟨a', hd, ha'⟩ := exists_differentiate ha
  refine ⟨a'.simplify, ?_, ha'⟩
  unfold derivative
  rw [hd]
  rfl

/-- The derivative of an order, each one simplified. -/
def nthDerivative {K : Type u} [Arith K] : ℕ → Expr K → Except DerivativeError (Expr K)
  | 0, a => .ok a
  | n + 1, a => (a.derivative).bind (nthDerivative n)

theorem exists_nthDerivative (ha : a.IsPolynomial) (n : ℕ) :
    ∃ b, a.nthDerivative n = .ok b ∧ b.IsPolynomial := by
  induction n generalizing a with
  | zero => exact ⟨a, rfl, ha⟩
  | succ n ih =>
    obtain ⟨b, hb, hpoly⟩ := exists_derivative ha
    obtain ⟨c, hc, hpoly'⟩ := ih hpoly
    refine ⟨c, ?_, hpoly'⟩
    rw [nthDerivative, hb]
    exact hc

end Formulary.Expr

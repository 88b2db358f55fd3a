import Formulary.Binary64.Arith
import Formulary.Proofs.Expr.ExactValues
import Formulary.Proofs.Expr.Polynomials

/-!
# Formal derivatives of polynomials

Without rounding a polynomial tree stands for a polynomial, and its derivative for the formal
derivative. Zero to the power zero is one on both sides.

* `toPolynomial a`: the polynomial that a tree stands for.
* `eval_toPolynomial`: the value of the tree at a number is the value of the polynomial.
* `toPolynomial_operation`, `toPolynomial_power`: the rules stand for what the operators stand for.
* `toPolynomial_differentiate`: the derivative stands for the formal derivative.
* **`nthDerivative_of_isPolynomial`**: the derivatives of all orders.
-/

namespace Formulary.Expr

open RealArith Exact Polynomial

noncomputable section

universe u

/-- The natural number that an exponent is. -/
def exponent : Expr (Complex Exact) → ℕ
  | number v => ⌊(value v).re⌋₊
  | _ => 0

/-- The polynomial that a tree stands for. Quotients, calls and variables stand for nothing. -/
def toPolynomial : Expr (Complex Exact) → ℂ[X]
  | number v => C (value v)
  | argument => X
  | named .. | call .. => 0
  | neg a => -a.toPolynomial
  | binary op a b _ =>
    match op with
    | .add => a.toPolynomial + b.toPolynomial
    | .sub => a.toPolynomial - b.toPolynomial
    | .mul => a.toPolynomial * b.toPolynomial
    | .div => 0
    | .pow => a.toPolynomial ^ b.exponent

variable {op : BinaryOp} {a b a' b' : Expr (Complex Exact)} {v w : Complex Exact} {n : ℕ}
  {p : Position}

/-! ### Values -/

theorem eq_point_of_isNat (h : v.IsNat n) : v = point n := by
  obtain ⟨him, hre⟩ := h
  rw [zero_eq] at him
  have hre := Exact.isNat_iff.1 hre
  have him := eq_of_beq him
  obtain ⟨re, im⟩ := v
  simp only at hre him
  rw [hre, him, point, Complex.natCast_re, Complex.natCast_im]

theorem isNat_point (n : ℕ) : (point n).IsNat n := by
  refine ⟨?_, Exact.isNat_iff.2 ?_⟩
  · rw [zero_eq, point, Complex.natCast_im]
    exact decide_eq_true rfl
  · rw [point, Complex.natCast_re]

theorem exponent_of_isNat (h : v.IsNat n) : (number v).exponent = n := by
  rw [eq_point_of_isNat h, exponent, value_point, Complex.natCast_re, Nat.floor_natCast]

theorem apply_point (hop : op ∈ ringOperators) (z w : ℂ) :
    ∃ r, op.apply (point z) (point w) = point r := by
  cases op with
  | add => exact ⟨_, point_add z w⟩
  | sub => exact ⟨_, point_sub z w⟩
  | mul => exact ⟨_, point_mul z w⟩
  | div => exact absurd hop (by decide)
  | pow => exact absurd hop (by decide)

theorem pow_point_natCast (z : ℂ) (n : ℕ) :
    Arith.pow (point z) (point n) = point (z ^ n) := by
  have h : z ≠ 0 ∨ (n : ℂ) = 0 ∨ 0 < (n : ℂ).re := by
    rcases n.eq_zero_or_pos with rfl | hn
    · exact .inr (.inl Nat.cast_zero)
    · exact .inr (.inr (by rw [Complex.natCast_re]; exact_mod_cast hn))
  rw [pow_point h, Complex.cpow_natCast]

/-- The value of a polynomial tree is the value of the polynomial. -/
theorem eval_toPolynomial (ha : a.IsPolynomial) (z : ℂ) (vars : Vars (Complex Exact))
    (mode : EvalMode) : a.eval (point z) vars mode = .ok (point (a.toPolynomial.eval z)) := by
  induction ha with
  | number hv =>
    obtain ⟨w, rfl⟩ := isFinite_iff_point.1 hv
    rw [toPolynomial, eval_C, value_point]
    rfl
  | argument =>
    rw [toPolynomial, eval_X]
    rfl
  | neg ha ih =>
    rw [eval_neg ih, toPolynomial, Polynomial.eval_neg, point_neg, normalize_exact]
  | @ring op a b p hop ha hb iha ihb =>
    rw [eval_binary_of_allowed (allowed_of_ne (ne_of_mem_ringOperators hop).1) iha ihb]
    cases op with
    | add => rw [BinaryOp.apply, toPolynomial, eval_add, point_add, normalize_exact]
    | sub => rw [BinaryOp.apply, toPolynomial, eval_sub, point_sub, normalize_exact]
    | mul => rw [BinaryOp.apply, toPolynomial, eval_mul, point_mul, normalize_exact]
    | div => exact absurd hop (by decide)
    | pow => exact absurd hop (by decide)
  | @power a v n p ha hv hn ih =>
    rw [eval_binary_of_allowed (allowed_of_ne (by decide)) ih rfl, toPolynomial,
      exponent_of_isNat hn, eval_pow, eq_point_of_isNat hn, BinaryOp.apply, pow_point_natCast,
      normalize_exact]

theorem gives_toPolynomial (ha : a.IsPolynomial) (z : ℂ) :
    Gives IsFinite (point z) .constants .complex a (point (a.toPolynomial.eval z)) :=
  ⟨eval_toPolynomial ha z _ _,
    fun _ hs => ⟨_, eval_toPolynomial (ha.of_mem hs) z _ _, isFinite_point _⟩⟩

/-- Polynomial trees with the same values everywhere stand for the same polynomial. -/
theorem toPolynomial_eq (ha : a.IsPolynomial) (hb : b.IsPolynomial)
    (h : ∀ z, ∃ v, Gives IsFinite (point z) .constants .complex a v ∧
      Gives IsFinite (point z) .constants .complex b v) : a.toPolynomial = b.toPolynomial := by
  refine Polynomial.funext fun z => ?_
  obtain ⟨v, hv, hv'⟩ := h z
  have heq := (gives_toPolynomial ha z).eval.symm.trans (hv.eval.trans hv'.eval.symm)
  rw [(gives_toPolynomial hb z).eval] at heq
  exact point_injective (Except.ok.inj heq)

/-! ### Rules -/

theorem toPolynomial_negated (ha : a.IsPolynomial) : a.negated.toPolynomial = -a.toPolynomial :=
  toPolynomial_eq (b := neg a) (ringClosed_isPolynomial.negated ha) (.neg ha) fun z =>
    ⟨_, gives_negated exact_operatorLaws (gives_toPolynomial ha z),
      gives_neg exact_operatorLaws (gives_toPolynomial ha z)⟩

/-- The rules of an operator stand for what the operator stands for. -/
theorem toPolynomial_operation (hop : op ∈ ringOperators) (ha : a.IsPolynomial)
    (hb : b.IsPolynomial) :
    (operation op a b p).toPolynomial = (binary op a b p).toPolynomial := by
  obtain ⟨hdiv, hpow⟩ := ne_of_mem_ringOperators hop
  refine toPolynomial_eq (ringClosed_isPolynomial.operation hop ha hb) (.ring hop ha hb) fun z => ?_
  have hga := gives_toPolynomial ha z
  have hgb := gives_toPolynomial hb z
  obtain ⟨r, hr⟩ := apply_point hop (a.toPolynomial.eval z) (b.toPolynomial.eval z)
  have hfin : IsFinite (Arith.normalize
      (op.apply (point (a.toPolynomial.eval z)) (point (b.toPolynomial.eval z)))) := by
    rw [normalize_exact, hr]
    exact isFinite_point r
  exact ⟨_, gives_operation exact_operatorLaws hpow hga hgb (allowed_of_ne hdiv) hfin,
    gives_binary op hga hgb (allowed_of_ne hdiv) hfin⟩

theorem toPolynomial_power (ha : a.IsPolynomial) (hv : v.isFinite = true) (hn : v.IsNat n) :
    (power a (number v) p).toPolynomial = a.toPolynomial ^ n := by
  rw [← exponent_of_isNat hn]
  refine toPolynomial_eq (b := binary .pow a (number v) p) (isPolynomial_power ha hv hn)
    (.power ha hv hn) fun z => ?_
  have hga := gives_toPolynomial ha z
  have hgb : Gives IsFinite (point z) .constants .complex (number v) v := gives_number hv
  have hfin : IsFinite (Arith.normalize (Arith.pow (point (a.toPolynomial.eval z)) v)) := by
    rw [normalize_exact, eq_point_of_isNat hn, pow_point_natCast]
    exact isFinite_point _
  have hsafe : SafeExponent a (number v) v := fun _ hnot => absurd hnot.symm Bool.false_ne_true
  exact ⟨_, gives_power exact_operatorLaws exact_powerLaws
      (fun _ hlog => absurd hlog Bool.false_ne_true) hga hgb hsafe hfin,
    gives_binary .pow hga hgb (allowed_of_ne (by decide)) hfin⟩

theorem toPolynomial_simplify (ha : a.IsPolynomial) :
    a.simplify.toPolynomial = a.toPolynomial := by
  induction ha with
  | number hv => rfl
  | argument => rfl
  | neg ha ih => exact (toPolynomial_negated (isPolynomial_simplify ha)).trans (congrArg Neg.neg ih)
  | @ring op a b p hop ha hb iha ihb =>
    show (operation op a.simplify b.simplify p).toPolynomial = _
    rw [toPolynomial_operation hop (isPolynomial_simplify ha) (isPolynomial_simplify hb)]
    cases op with
    | add => exact congrArg₂ (· + ·) iha ihb
    | sub => exact congrArg₂ (· - ·) iha ihb
    | mul => exact congrArg₂ (· * ·) iha ihb
    | div => rfl
    | pow => exact absurd hop (by decide)
  | @power a v n p ha hv hn ih =>
    show (power a.simplify (number v) p).toPolynomial = a.toPolynomial ^ (number v).exponent
    rw [toPolynomial_power (isPolynomial_simplify ha) hv hn, ih, exponent_of_isNat hn]

theorem toPolynomial_nat (n : ℕ) : (nat n : Expr (Complex Exact)).toPolynomial = n := by
  rw [nat, toPolynomial, point_ofNat, value_point, C_eq_natCast]

/-! ### Products with zero -/

/-- The number is zero, or it is undefined. -/
def Vanishes (a : Exact) : Prop :=
  a = finite 0 ∨ a = undefined

theorem vanishes_zero_mul (a : Exact) : Vanishes (finite 0 * a) := by
  cases a with
  | finite r => exact .inl (congrArg finite (zero_mul r))
  | infinite s => exact .inr (if_pos rfl)
  | undefined => exact .inr rfl

theorem vanishes_mul_zero (a : Exact) : Vanishes (a * finite 0) := by
  cases a with
  | finite r => exact .inl (congrArg finite (mul_zero r))
  | infinite s => exact .inr (if_pos rfl)
  | undefined => exact .inr rfl

theorem Vanishes.add {a b : Exact} (ha : Vanishes a) (hb : Vanishes b) : Vanishes (a + b) := by
  rcases ha with rfl | rfl
  · rcases hb with rfl | rfl
    · exact .inl (congrArg finite (add_zero 0))
    · exact .inr rfl
  · exact .inr rfl

theorem Vanishes.neg {a : Exact} (ha : Vanishes a) : Vanishes (-a) := by
  rcases ha with rfl | rfl
  · exact .inl (congrArg finite neg_zero)
  · exact .inr rfl

theorem Vanishes.eq_zero {a : Exact} (ha : Vanishes a) (hfin : RealArith.isFinite a = true) :
    a = finite 0 := by
  rcases ha with rfl | rfl
  · rfl
  · exact absurd hfin Bool.false_ne_true

/-- A product with zero is zero if it is finite. -/
theorem mul_eq_zero_of_isFinite (h : v = point 0 ∨ w = point 0)
    (hfin : Arith.isFinite (v * w) = true) : v * w = point 0 := by
  obtain ⟨hre, him⟩ := Complex.isFinite_iff.1 hfin
  rcases h with rfl | rfl
  · exact Complex.ext
      (((vanishes_zero_mul _).add (vanishes_zero_mul _).neg).eq_zero hre)
      (((vanishes_zero_mul _).add (vanishes_zero_mul _)).eq_zero him)
  · exact Complex.ext
      (((vanishes_mul_zero _).add (vanishes_mul_zero _).neg).eq_zero hre)
      (((vanishes_mul_zero _).add (vanishes_mul_zero _)).eq_zero him)

theorem toPolynomial_product_of_zero (h : (a == nat 0 || b == nat 0) = true) :
    (product a b p).toPolynomial = 0 := by
  have hbeq {u : Complex Exact} (hu : (number u == nat 0) = true) : u = point 0 := by
    have heq : u = Arith.ofNat 0 := eq_of_beq_exact hu
    rw [heq, point_ofNat, Nat.cast_zero]
  obtain hzero | ⟨v, w, rfl, rfl, hfin, hvalue⟩ := product_of_zero (p := p) h
  · rw [hzero, toPolynomial_nat, Nat.cast_zero]
  · have hmul := mul_eq_zero_of_isFinite ((Bool.or_eq_true_iff.1 h).imp hbeq hbeq) hfin
    rw [hvalue, hmul, literal, normalize_exact, toPolynomial, value_point, map_zero]

/-! ### Derivatives -/

theorem toPolynomial_sum (ha : a.IsPolynomial) (hb : b.IsPolynomial) :
    (sum a b p).toPolynomial = a.toPolynomial + b.toPolynomial :=
  toPolynomial_operation (show BinaryOp.add ∈ ringOperators by decide) ha hb

theorem toPolynomial_difference (ha : a.IsPolynomial) (hb : b.IsPolynomial) :
    (difference a b p).toPolynomial = a.toPolynomial - b.toPolynomial :=
  toPolynomial_operation (show BinaryOp.sub ∈ ringOperators by decide) ha hb

theorem toPolynomial_product (ha : a.IsPolynomial) (hb : b.IsPolynomial) :
    (product a b p).toPolynomial = a.toPolynomial * b.toPolynomial :=
  toPolynomial_operation (show BinaryOp.mul ∈ ringOperators by decide) ha hb

theorem isNat_sub_one (hn : v.IsNat (n + 1)) : (Arith.normalize (v - Arith.ofNat 1)).IsNat n := by
  have hvalue : Arith.normalize (v - Arith.ofNat 1) = point n := by
    rw [eq_point_of_isNat hn, point_ofNat, point_sub, normalize_exact, Nat.cast_succ, Nat.cast_one,
      add_sub_cancel_right]
  rw [hvalue]
  exact isNat_point n

theorem toPolynomial_baseFactor (ha : a.IsPolynomial) (hv : v.isFinite = true) (hn : v.IsNat n) :
    (baseFactor a v).toPolynomial = n * a.toPolynomial ^ (n - 1) := by
  cases n with
  | zero =>
    rw [Nat.cast_zero, zero_mul]
    exact toPolynomial_product_of_zero (by rw [number_beq_nat_zero hn, Bool.true_or])
  | succ n =>
    obtain ⟨hfin, hdifference⟩ := difference_one (p := none) hv hn
    have hm := isNat_sub_one hn
    have hpower := isPolynomial_power (p := none) ha (isFinite_normalize hfin) hm
    rw [baseFactor, hdifference, literal, toPolynomial_product (.number hv) hpower,
      toPolynomial_power ha (isFinite_normalize hfin) hm, toPolynomial, eq_point_of_isNat hn,
      value_point, C_eq_natCast, Nat.add_sub_cancel]

theorem toPolynomial_exponentTerm : (exponentTerm a v).toPolynomial = 0 :=
  toPolynomial_product_of_zero (by rw [nat_zero_beq, Bool.or_true])

/-- The simplified derivative of a polynomial tree stands for the formal derivative. -/
theorem toPolynomial_differentiate (ha : a.IsPolynomial) (hd : a.differentiate = .ok a') :
    a'.simplify.toPolynomial = Polynomial.derivative a.toPolynomial := by
  induction ha generalizing a' with
  | number hv =>
    cases hd
    rw [toPolynomial, derivative_C]
    exact (toPolynomial_nat 0).trans Nat.cast_zero
  | argument =>
    cases hd
    rw [toPolynomial, derivative_X]
    exact (toPolynomial_nat 1).trans Nat.cast_one
  | neg ha ih =>
    obtain ⟨b', hdb, hb'⟩ := exists_differentiate ha
    simp only [differentiate, hdb] at hd
    cases hd
    rw [toPolynomial, derivative_neg, ← ih hdb]
    exact toPolynomial_negated hb'
  | @ring op a b p hop ha hb iha ihb =>
    obtain ⟨a', hda, ha'⟩ := exists_differentiate ha
    obtain ⟨b', hdb, hb'⟩ := exists_differentiate hb
    simp only [differentiate, hda, hdb] at hd
    cases hd
    have ha₁ := isPolynomial_simplify ha
    have hb₁ := isPolynomial_simplify hb
    cases op with
    | add =>
      rw [toPolynomial, derivative_add, ← iha hda, ← ihb hdb]
      exact toPolynomial_sum ha' hb'
    | sub =>
      rw [toPolynomial, derivative_sub, ← iha hda, ← ihb hdb]
      exact toPolynomial_difference ha' hb'
    | mul =>
      have hleft := ringClosed_isPolynomial.product (p := none) hb₁ ha'
      have hright := ringClosed_isPolynomial.product (p := none) ha₁ hb'
      rw [toPolynomial, derivative_mul, ← iha hda, ← ihb hdb, mul_comm]
      refine (toPolynomial_sum hleft hright).trans ?_
      rw [toPolynomial_product hb₁ ha', toPolynomial_product ha₁ hb', toPolynomial_simplify ha,
        toPolynomial_simplify hb]
    | div => exact absurd hop (by decide)
    | pow => exact absurd hop (by decide)
  | @power a v n p ha hv hn ih =>
    obtain ⟨a', hda, ha'⟩ := exists_differentiate ha
    simp only [differentiate, hda] at hd
    cases hd
    have ha₁ := isPolynomial_simplify ha
    have hfactor := isPolynomial_baseFactor ha₁ hv hn
    have hproduct := ringClosed_isPolynomial.product (p := none) hfactor ha'
    rw [simplify_diffPower, toPolynomial_sum hproduct isPolynomial_exponentTerm,
      toPolynomial_product hfactor ha', toPolynomial_exponentTerm, add_zero,
      toPolynomial_baseFactor ha₁ hv hn, toPolynomial_simplify ha, ih hda, toPolynomial,
      exponent_of_isNat hn, derivative_pow, C_eq_natCast]

theorem toPolynomial_derivative (ha : a.IsPolynomial) (hd : a.derivative = .ok b) :
    b.toPolynomial = Polynomial.derivative a.toPolynomial := by
  obtain ⟨a', hda, -⟩ := exists_differentiate ha
  unfold derivative at hd
  rw [hda] at hd
  cases hd
  exact toPolynomial_differentiate ha hda

theorem toPolynomial_nthDerivative (ha : a.IsPolynomial) (h : a.nthDerivative n = .ok b) :
    b.toPolynomial = Polynomial.derivative^[n] a.toPolynomial := by
  induction n generalizing a with
  | zero =>
    cases h
    rfl
  | succ n ih =>
    obtain ⟨a', hd, ha'⟩ := exists_derivative ha
    rw [nthDerivative, hd] at h
    rw [Function.iterate_succ_apply, ← toPolynomial_derivative ha hd]
    exact ih ha' h

/-- In every arithmetic with the laws of natural numbers a polynomial has derivatives of every order,
and they are polynomials, which have a value everywhere. In exact arithmetic they stand for the
formal derivatives, and have their values. -/
theorem nthDerivative_of_isPolynomial (R : Type u) [RealArith R] [WholeLaws R] :
    (∀ a : Expr (Complex R), a.IsPolynomial → ∀ n, ∃ b, a.nthDerivative n = .ok b ∧
      b.IsPolynomial ∧ ∀ x vars mode, ∃ v, b.eval x vars mode = .ok v) ∧
    ∀ a : Expr (Complex Exact), a.IsPolynomial → ∀ n, ∃ b, a.nthDerivative n = .ok b ∧
      b.toPolynomial = Polynomial.derivative^[n] a.toPolynomial ∧
      ∀ z vars mode, b.eval (point z) vars mode = .ok (point (b.toPolynomial.eval z)) := by
  refine ⟨fun a ha n => ?_, fun a ha n => ?_⟩
  · obtain ⟨b, hb, hpoly⟩ := exists_nthDerivative ha n
    exact ⟨b, hb, hpoly, hpoly.exists_eval⟩
  · obtain ⟨b, hb, hpoly⟩ := exists_nthDerivative ha n
    exact ⟨b, hb, toPolynomial_nthDerivative ha hb, eval_toPolynomial hpoly⟩

/-- The cube: in machine numbers and without rounding. -/
theorem nthDerivative_cube :
    (∃ b, (toPower argument (nat 3) : Expr (Complex Double)).nthDerivative 4 = .ok b ∧
      ∀ x vars mode, ∃ v, b.eval x vars mode = .ok v) ∧
    ∃ b, (toPower argument (nat 3) : Expr (Complex Exact)).nthDerivative 2 = .ok b ∧
      b.toPolynomial = 6 * X := by
  have hdouble : (toPower argument (nat 3) : Expr (Complex Double)).IsPolynomial := by
    have hfin : (Arith.ofNat 3 : Complex Double).isFinite = true := isFinite_nat (by omega)
    have hnat : (Arith.ofNat 3 : Complex Double).IsNat 3 := by decide +kernel
    exact .power .argument hfin hnat
  have hnat : (Arith.ofNat 3 : Complex Exact).IsNat 3 := by
    rw [point_ofNat]
    exact isNat_point 3
  have hexact : (toPower argument (nat 3) : Expr (Complex Exact)).IsPolynomial :=
    .power .argument (isFinite_nat (by omega)) hnat
  obtain ⟨hmachine, hformal⟩ := nthDerivative_of_isPolynomial Double
  obtain ⟨b, hb, -, heval⟩ := hmachine _ hdouble 4
  obtain ⟨c, hc, hvalue, -⟩ := hformal _ hexact 2
  refine ⟨⟨b, hb, heval⟩, c, hc, hvalue.trans ?_⟩
  have hcube : (toPower argument (nat 3) : Expr (Complex Exact)).toPolynomial = X ^ 3 := by
    show X ^ (number _).exponent = _
    rw [exponent_of_isNat hnat]
  rw [hcube, iterate_derivative_X_pow_eq_natCast_mul]
  show ((6 : ℕ) : ℂ[X]) * X ^ 1 = 6 * X
  rw [pow_one, Nat.cast_ofNat]

end

end Formulary.Expr

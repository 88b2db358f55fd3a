import Formulary.Expr.Derivative
import Formulary.Proofs.Arithmetic.DifferentialField
import Formulary.Proofs.Arithmetic.ExactTotal
import Formulary.Proofs.Expr.Subtrees

/-!
# Derivatives in a field with a derivation

The rules of differentiation do not mention limits. So they are stated for any field with a
derivation `D`, in which the argument has the derivative one, all other leaves have the derivative
zero, and powers and functions have the derivatives that the textbooks give.

* `Interpretation L K`: elements of `K` for the leaves of trees over the numbers `L`, and operations
  for powers and functions.
* `Expr.denote`, `Expr.Defined`: the element that a tree stands for, and that none of its quotients
  has the denominator zero.
* `Interpretation.IsDifferential I D`: the derivatives of leaves, powers and functions.
* `denote_diffBinary`, `denote_outerDerivative`: the rules of operators and functions.
* **`denote_differentiate`**: the derivative of a tree stands for the derivative of what the tree
  stands for.
-/

namespace Formulary

universe u w

/-- What trees over the numbers `L` stand for in `K`. -/
structure Interpretation (L : Type u) (K : Type w) where
  argument : K
  literal : L → K
  named : String → K
  power : K → K → K
  apply : Builtin → K → K

variable {L : Type u} {K : Type w} [Field K]

/-- What an operator stands for. -/
def Interpretation.operate (I : Interpretation L K) : BinaryOp → K → K → K
  | .add, u, v => u + v
  | .sub, u, v => u - v
  | .mul, u, v => u * v
  | .div, u, v => u / v
  | .pow, u, v => I.power u v

namespace Expr

/-- The element that a tree stands for. -/
def denote (I : Interpretation L K) : Expr L → K
  | number v => I.literal v
  | argument => I.argument
  | named n _ => I.named n
  | neg a => -a.denote I
  | binary op a b _ => I.operate op (a.denote I) (b.denote I)
  | call f a _ => I.apply f (a.denote I)

/-- No quotient in the tree has the denominator zero. -/
def Defined (I : Interpretation L K) : Expr L → Prop
  | number _ | argument | named _ _ => True
  | neg a | call _ a _ => a.Defined I
  | binary op a b _ => a.Defined I ∧ b.Defined I ∧ (op = .div → b.denote I ≠ 0)

end Expr

/-- The leaves and the functions have the derivatives that the rules of differentiation claim.
Functions whose derivative is a quotient are differentiated only where it is defined. -/
structure Interpretation.IsDifferential [Arith L] (I : Interpretation L K) (D : Derivation ℤ K K) :
    Prop where
  argument : D I.argument = 1
  literal (v : L) : D (I.literal v) = 0
  named (n : String) : D (I.named n) = 0
  whole (n : ℕ) (h : n ≤ 10) : I.literal (Arith.ofNat n) = n
  power_two (a : K) : I.power a 2 = a * a
  exp_eq (a : K) : I.apply .exp a = I.power (I.named eulerName) a
  power (u v : K) :
    D (I.power u v) = v * I.power u (v - 1) * D u + I.power u v * I.apply .log u * D v
  sin (a : K) : D (I.apply .sin a) = I.apply .cos a * D a
  cos (a : K) : D (I.apply .cos a) = -I.apply .sin a * D a
  tan (a : K) (h : I.apply .cos a ^ 2 ≠ 0) : D (I.apply .tan a) = D a / I.apply .cos a ^ 2
  sinh (a : K) : D (I.apply .sinh a) = I.apply .cosh a * D a
  cosh (a : K) : D (I.apply .cosh a) = I.apply .sinh a * D a
  tanh (a : K) (h : I.apply .cosh a ^ 2 ≠ 0) : D (I.apply .tanh a) = D a / I.apply .cosh a ^ 2
  sqrt (a : K) (h : 2 * I.apply .sqrt a ≠ 0) : D (I.apply .sqrt a) = D a / (2 * I.apply .sqrt a)
  exp (a : K) : D (I.apply .exp a) = I.apply .exp a * D a
  log (a : K) (h : a ≠ 0) : D (I.apply .log a) = D a / a
  ln (a : K) (h : a ≠ 0) : D (I.apply .ln a) = D a / a
  log10 (a : K) (h : a * I.apply .log 10 ≠ 0) :
    D (I.apply .log10 a) = D a / (a * I.apply .log 10)
  arcsin (a : K) (h : I.apply .sqrt (1 - a ^ 2) ≠ 0) :
    D (I.apply .arcsin a) = D a / I.apply .sqrt (1 - a ^ 2)
  arccos (a : K) (h : I.apply .sqrt (1 - a ^ 2) ≠ 0) :
    D (I.apply .arccos a) = -D a / I.apply .sqrt (1 - a ^ 2)
  arctan (a : K) (h : 1 + a ^ 2 ≠ 0) : D (I.apply .arctan a) = D a / (1 + a ^ 2)
  arcsinh (a : K) (h : I.apply .sqrt (a ^ 2 + 1) ≠ 0) :
    D (I.apply .arcsinh a) = D a / I.apply .sqrt (a ^ 2 + 1)
  arccosh (a : K) (h : I.apply .sqrt (a ^ 2 - 1) ≠ 0) :
    D (I.apply .arccosh a) = D a / I.apply .sqrt (a ^ 2 - 1)
  arctanh (a : K) (h : 1 - a ^ 2 ≠ 0) : D (I.apply .arctanh a) = D a / (1 - a ^ 2)

namespace Expr

variable {I : Interpretation L K} {a b a' b' : Expr L}

/-! ### What built trees stand for -/

section Built

theorem denote_plus : (plus a b).denote I = a.denote I + b.denote I := rfl

theorem denote_minus : (minus a b).denote I = a.denote I - b.denote I := rfl

theorem denote_times : (times a b).denote I = a.denote I * b.denote I := rfl

theorem denote_dividedBy : (dividedBy a b).denote I = a.denote I / b.denote I := rfl

theorem denote_toPower : (toPower a b).denote I = I.power (a.denote I) (b.denote I) := rfl

theorem denote_applied (f : Builtin) {u : K} (h : a.denote I = u) :
    (applied f a).denote I = I.apply f u :=
  congrArg (I.apply f) h

theorem denote_neg : (neg a).denote I = -a.denote I := rfl

theorem defined_dividedBy (h : (dividedBy a b).Defined I) : b.denote I ≠ 0 :=
  h.2.2 rfl

end Built

/-! ### The rules -/

section Rules

variable [Arith L] {D : Derivation ℤ K K} (laws : I.IsDifferential D)

include laws

theorem denote_nat {n : ℕ} (h : n ≤ 10) : (nat n : Expr L).denote I = n :=
  laws.whole n h

theorem denote_square : (toPower a (nat 2)).denote I = a.denote I ^ 2 := by
  rw [denote_toPower, denote_nat laws (by omega), Nat.cast_ofNat, laws.power_two, pow_two]

/-- The rule of an operator makes the derivative of a tree from the derivatives of its operands. -/
theorem denote_diffBinary (op : BinaryOp) (ha : a'.denote I = D (a.denote I))
    (hb : b'.denote I = D (b.denote I)) :
    (diffBinary op a b a' b').denote I = D (I.operate op (a.denote I) (b.denote I)) := by
  cases op with
  | add =>
    show a'.denote I + b'.denote I = D (a.denote I + b.denote I)
    rw [ha, hb, map_add]
  | sub =>
    show a'.denote I - b'.denote I = D (a.denote I - b.denote I)
    rw [ha, hb, map_sub]
  | mul =>
    show b.denote I * a'.denote I + a.denote I * b'.denote I = D (a.denote I * b.denote I)
    rw [ha, hb, D.leibniz, smul_eq_mul, smul_eq_mul, add_comm]
  | div =>
    show (b.denote I * a'.denote I - a.denote I * b'.denote I) / (toPower b (nat 2)).denote I =
      D (a.denote I / b.denote I)
    rw [ha, hb, denote_square laws, D.leibniz_div, smul_eq_mul, smul_eq_mul, smul_eq_mul, inv_pow,
      div_eq_inv_mul]
  | pow =>
    have hone : (nat 1 : Expr L).denote I = 1 := by
      rw [denote_nat laws (by omega), Nat.cast_one]
    show b.denote I * I.power (a.denote I) (b.denote I - (nat 1).denote I) * a'.denote I +
        I.power (a.denote I) (b.denote I) * I.apply .log (a.denote I) * b'.denote I =
      D (I.power (a.denote I) (b.denote I))
    rw [ha, hb, hone, laws.power]

theorem denote_oneMinusSquare :
    (minus (nat 1) (toPower a (nat 2))).denote I = 1 - a.denote I ^ 2 := by
  rw [denote_minus, denote_nat laws (by omega), denote_square laws, Nat.cast_one]

theorem denote_onePlusSquare :
    (plus (nat 1) (toPower a (nat 2))).denote I = 1 + a.denote I ^ 2 := by
  rw [denote_plus, denote_nat laws (by omega), denote_square laws, Nat.cast_one]

theorem denote_squarePlusOne :
    (plus (toPower a (nat 2)) (nat 1)).denote I = a.denote I ^ 2 + 1 := by
  rw [denote_plus, denote_nat laws (by omega), denote_square laws, Nat.cast_one]

theorem denote_squareMinusOne :
    (minus (toPower a (nat 2)) (nat 1)).denote I = a.denote I ^ 2 - 1 := by
  rw [denote_minus, denote_nat laws (by omega), denote_square laws, Nat.cast_one]

theorem denote_twice : (times (nat 2) a).denote I = 2 * a.denote I := by
  rw [denote_times, denote_nat laws (by omega), Nat.cast_ofNat]

/-- A derivative with the numerator one: the law that the function has outside the zeros of the
denominator may be used, because the tree of the derivative is defined. -/
theorem denote_reciprocal {u v w : K} (hden : a.denote I = v) (hlaw : v ≠ 0 → w = u / v)
    (hdefined : (dividedBy (nat 1) a).Defined I) : (dividedBy (nat 1) a).denote I * u = w := by
  have hne : v ≠ 0 := hden ▸ defined_dividedBy hdefined
  rw [denote_dividedBy, denote_nat laws (by omega), Nat.cast_one, one_div_mul_eq_div, hden,
    hlaw hne]

/-- The rule of a function is the chain rule. -/
theorem denote_outerDerivative {f : Builtin} (h : outerDerivative? f a = some a')
    (hdefined : a'.Defined I) : a'.denote I * D (a.denote I) = D (I.apply f (a.denote I)) := by
  cases f with
  | sin =>
    cases h
    exact (laws.sin _).symm
  | cos =>
    cases h
    exact (laws.cos _).symm
  | sinh =>
    cases h
    exact (laws.sinh _).symm
  | cosh =>
    cases h
    exact (laws.cosh _).symm
  | exp =>
    -- the rule writes the exponential as a power of Euler's number
    cases h
    rw [laws.exp, laws.exp_eq]
    rfl
  | tan =>
    cases h
    exact denote_reciprocal laws (denote_square laws) (laws.tan _) hdefined
  | tanh =>
    cases h
    exact denote_reciprocal laws (denote_square laws) (laws.tanh _) hdefined
  | sqrt =>
    cases h
    exact denote_reciprocal laws (denote_twice laws) (laws.sqrt _) hdefined
  | log =>
    cases h
    exact denote_reciprocal laws rfl (laws.log _) hdefined
  | ln =>
    cases h
    exact denote_reciprocal laws rfl (laws.ln _) hdefined
  | log10 =>
    cases h
    have hten : (times a (applied .log (nat 10))).denote I = a.denote I * I.apply .log 10 := by
      rw [denote_times, denote_applied .log (denote_nat laws (by omega)), Nat.cast_ofNat]
    exact denote_reciprocal laws hten (laws.log10 _) hdefined
  | arcsin =>
    cases h
    exact denote_reciprocal laws (denote_applied .sqrt (denote_oneMinusSquare laws))
      (laws.arcsin _) hdefined
  | arccos =>
    cases h
    rw [denote_neg, neg_mul_comm]
    exact denote_reciprocal laws (denote_applied .sqrt (denote_oneMinusSquare laws))
      (laws.arccos _) hdefined
  | arctan =>
    cases h
    exact denote_reciprocal laws (denote_onePlusSquare laws) (laws.arctan _) hdefined
  | arcsinh =>
    cases h
    exact denote_reciprocal laws (denote_applied .sqrt (denote_squarePlusOne laws))
      (laws.arcsinh _) hdefined
  | arccosh =>
    cases h
    exact denote_reciprocal laws (denote_applied .sqrt (denote_squareMinusOne laws))
      (laws.arccosh _) hdefined
  | arctanh =>
    cases h
    exact denote_reciprocal laws (denote_oneMinusSquare laws) (laws.arctanh _) hdefined
  | cbrt | log2 | erf | gamma => cases h

end Rules

/-! ### Whole trees -/

/-- All functions but four have a rule. -/
theorem exists_outerDerivative [Arith L] {f : Builtin}
    (h : f ∉ [Builtin.cbrt, .log2, .erf, .gamma]) (a : Expr L) :
    ∃ outer, outerDerivative? f a = some outer := by
  cases f with
  | cbrt | log2 | erf | gamma => exact absurd (by decide) h
  | _ => exact ⟨_, rfl⟩

theorem defined_of_diffBinary [Arith L] {op : BinaryOp} (h : (diffBinary op a b a' b').Defined I) :
    a'.Defined I ∧ b'.Defined I := by
  cases op with
  | add => exact ⟨h.1, h.2.1⟩
  | sub => exact ⟨h.1, h.2.1⟩
  | mul => exact ⟨h.1.2.1, h.2.1.2.1⟩
  | div => exact ⟨h.1.1.2.1, h.1.2.1.2.1⟩
  | pow => exact ⟨h.1.2.1, h.2.1.2.1⟩

/-- A tree that calls no function without a rule has a derivative. Where neither the tree nor the
derivative has a denominator that is zero, the derivative stands for the derivative of what the tree
stands for. -/
theorem denote_differentiate [Arith L] {D : Derivation ℤ K K} (laws : I.IsDifferential D)
    (ha : ∀ f b p, call f b p ∈ a.subtrees → f ∉ [Builtin.cbrt, .log2, .erf, .gamma]) :
    ∃ a', a.differentiate = .ok a' ∧
      (a.Defined I → a'.Defined I → a'.denote I = D (a.denote I)) := by
  induction a with
  | number v =>
    refine ⟨nat 0, rfl, fun _ _ => ?_⟩
    rw [denote_nat laws (by omega), Nat.cast_zero]
    exact (laws.literal v).symm
  | argument =>
    refine ⟨nat 1, rfl, fun _ _ => ?_⟩
    rw [denote_nat laws (by omega), Nat.cast_one]
    exact laws.argument.symm
  | named n p =>
    refine ⟨nat 0, rfl, fun _ _ => ?_⟩
    rw [denote_nat laws (by omega), Nat.cast_zero]
    exact (laws.named n).symm
  | neg a ih =>
    obtain ⟨a', ha', hvalue⟩ := ih fun f b p h => ha f b p (.tail _ h)
    refine ⟨neg a', ?_, fun hdef hdef' => ?_⟩
    · simp only [differentiate, ha']
    · rw [denote_neg, denote_neg, map_neg, hvalue hdef hdef']
  | binary op a b p iha ihb =>
    obtain ⟨a', ha', hvalue₁⟩ := iha fun f c q h => ha f c q (.tail _ (List.mem_append_left _ h))
    obtain ⟨b', hb', hvalue₂⟩ := ihb fun f c q h => ha f c q (.tail _ (List.mem_append_right _ h))
    refine ⟨diffBinary op a b a' b', ?_, fun hdef hdef' => ?_⟩
    · simp only [differentiate, ha', hb']
    · obtain ⟨hdef₁, hdef₂⟩ := defined_of_diffBinary hdef'
      exact denote_diffBinary laws op (hvalue₁ hdef.1 hdef₁) (hvalue₂ hdef.2.1 hdef₂)
  | call f a p ih =>
    obtain ⟨a', ha', hvalue⟩ := ih fun g b q h => ha g b q (.tail _ h)
    obtain ⟨outer, houter⟩ := exists_outerDerivative (ha f a p (mem_subtrees_self _)) a
    refine ⟨times outer a', ?_, fun hdef hdef' => ?_⟩
    · simp only [differentiate, ha', houter]
    · rw [denote_times, hvalue hdef hdef'.2.1]
      exact denote_outerDerivative laws houter hdef'.1

end Expr

/-! ### Rational functions -/

noncomputable section

open RationalFunction

/-- An element with a given derivative. -/
def antiderivative (z : RationalFunction) : RationalFunction :=
  Classical.choose (exists_formalDerivative_eq z)

theorem formalDerivative_antiderivative (z : RationalFunction) :
    formalDerivative (antiderivative z) = z :=
  Classical.choose_spec (exists_formalDerivative_eq z)

open Classical in
/-- Powers with the integers as exponents. -/
def integerPower (u v : RationalFunction) : RationalFunction :=
  if h : ∃ k : ℤ, (k : RationalFunction) = v then u ^ choose h else 0

theorem integerPower_intCast (u : RationalFunction) (k : ℤ) : integerPower u k = u ^ k := by
  have h : ∃ l : ℤ, (l : RationalFunction) = k := ⟨k, rfl⟩
  rw [integerPower, dif_pos h, Int.cast_injective (Classical.choose_spec h)]

theorem integerPower_eq_zero (u : RationalFunction) {v : RationalFunction}
    (h : ¬∃ k : ℤ, (k : RationalFunction) = v) : integerPower u v = 0 :=
  dif_neg h

open Classical in
/-- A complex number that is rational as a rational function; others are zero. -/
def rationalPart (z : ℂ) : RationalFunction :=
  if h : ∃ q : ℚ, (q : ℂ) = z then (choose h : ℚ) else 0

theorem rationalPart_natCast (n : ℕ) : rationalPart n = n := by
  have h : ∃ q : ℚ, (q : ℂ) = (n : ℂ) := ⟨n, Rat.cast_natCast n⟩
  have hq : Classical.choose h = n :=
    Rat.cast_injective ((Classical.choose_spec h).trans (Rat.cast_natCast n).symm)
  rw [rationalPart, dif_pos h, hq, Rat.cast_natCast]

/-- A logarithm. -/
def formalLog (a : RationalFunction) : RationalFunction :=
  antiderivative (formalDerivative a / a)

/-- Rational numbers stand for themselves, and the argument for an element with the derivative one.
Functions whose derivative is a rational expression are antiderivatives of it; the circular and the
hyperbolic functions, of which there are none, are zero. -/
def formalInterpretation : Interpretation ℂ RationalFunction where
  argument := antiderivative 1
  literal := rationalPart
  named _ := (2 : ℕ)
  power := integerPower
  apply
    | .log, a | .ln, a => formalLog a
    | .log10, a => antiderivative (formalDerivative a / (a * formalLog (10 : ℕ)))
    | .arctan, a => antiderivative (formalDerivative a / (1 + a ^ 2))
    | .arctanh, a => antiderivative (formalDerivative a / (1 - a ^ 2))
    | .exp, a => integerPower (2 : ℕ) a
    | _, _ => 0

theorem formalDerivative_intCast (k : ℤ) : formalDerivative (k : RationalFunction) = 0 := by
  rw [← eq_intCast (algebraMap ℤ RationalFunction) k]
  exact formalDerivative.map_algebraMap k

theorem formalDerivative_ratCast (q : ℚ) : formalDerivative (q : RationalFunction) = 0 := by
  have hden : formalDerivative (q.den : RationalFunction) = 0 := by
    exact_mod_cast formalDerivative_intCast q.den
  rw [Rat.cast_def, formalDerivative.leibniz_div_const _ _ hden, formalDerivative_intCast,
    smul_zero]

theorem formalDerivative_rationalPart (z : ℂ) : formalDerivative (rationalPart z) = 0 := by
  unfold rationalPart
  split
  · exact formalDerivative_ratCast _
  · exact map_zero _

/-- The law of powers, whose exponents are integers or count as such. -/
theorem formalDerivative_integerPower (u v w : RationalFunction) :
    formalDerivative (integerPower u v) = v * integerPower u (v - 1) * formalDerivative u +
      integerPower u v * w * formalDerivative v := by
  by_cases hv : ∃ k : ℤ, (k : RationalFunction) = v
  · obtain ⟨k, rfl⟩ := hv
    have hpred : ((k : RationalFunction) - 1) = (k - 1 : ℤ) := by
      rw [Int.cast_sub, Int.cast_one]
    rw [hpred, integerPower_intCast, integerPower_intCast, formalDerivative_intCast,
      formalDerivative.leibniz_zpow, mul_zero, add_zero, zsmul_eq_mul, smul_eq_mul, mul_assoc]
  · have hpred : ¬∃ k : ℤ, (k : RationalFunction) = v - 1 := by
      rintro ⟨k, hk⟩
      refine hv ⟨k + 1, ?_⟩
      rw [Int.cast_add, hk, Int.cast_one, sub_add_cancel]
    rw [integerPower_eq_zero u hv, integerPower_eq_zero u hpred, map_zero, mul_zero, zero_mul,
      zero_mul, zero_mul, add_zero]

theorem formalInterpretation_isDifferential :
    formalInterpretation.IsDifferential formalDerivative where
  argument := formalDerivative_antiderivative 1
  literal := formalDerivative_rationalPart
  named _ := formalDerivative.map_natCast 2
  whole n _ := rationalPart_natCast n
  power_two a := by
    have h := integerPower_intCast a 2
    rw [Int.cast_ofNat] at h
    exact h.trans (zpow_two a)
  exp_eq a := rfl
  power u v := formalDerivative_integerPower u v _
  sin a := by
    show formalDerivative 0 = 0 * formalDerivative a
    rw [map_zero, zero_mul]
  cos a := by
    show formalDerivative 0 = -0 * formalDerivative a
    rw [map_zero, neg_zero, zero_mul]
  tan a h := absurd (zero_pow two_ne_zero) h
  sinh a := by
    show formalDerivative 0 = 0 * formalDerivative a
    rw [map_zero, zero_mul]
  cosh a := by
    show formalDerivative 0 = 0 * formalDerivative a
    rw [map_zero, zero_mul]
  tanh a h := absurd (zero_pow two_ne_zero) h
  sqrt a h := absurd (mul_zero 2) h
  exp a := by
    show formalDerivative (integerPower (2 : ℕ) a) = integerPower (2 : ℕ) a * formalDerivative a
    rw [formalDerivative_integerPower _ a 1, formalDerivative.map_natCast, mul_zero, zero_add,
      mul_one]
  log a _ := formalDerivative_antiderivative _
  ln a _ := formalDerivative_antiderivative _
  log10 a _ := formalDerivative_antiderivative _
  arcsin a h := absurd rfl h
  arccos a h := absurd rfl h
  arctan a _ := formalDerivative_antiderivative _
  arcsinh a h := absurd rfl h
  arccosh a h := absurd rfl h
  arctanh a _ := formalDerivative_antiderivative _

namespace Expr

/-- The derivative of `log x / x` by the rules, in the field of rational functions. -/
theorem denote_differentiate_formal :
    let a : Expr ℂ := dividedBy (applied .log argument) argument
    formalInterpretation.IsDifferential formalDerivative ∧
      (∀ f b p, call f b p ∈ a.subtrees → f ∉ [Builtin.cbrt, .log2, .erf, .gamma]) ∧
      ∃ a', a.differentiate = .ok a' ∧ a.Defined formalInterpretation ∧
        a'.Defined formalInterpretation ∧
        a'.denote formalInterpretation = formalDerivative (a.denote formalInterpretation) := by
  intro a
  have hcalls : ∀ f b p, call f b p ∈ a.subtrees → f ∉ [Builtin.cbrt, .log2, .erf, .gamma] := by
    intro f b p h
    simp only [a, subtrees, dividedBy, applied, List.cons_append, List.nil_append, List.mem_cons,
      List.not_mem_nil, or_false, reduceCtorEq, false_or, call.injEq] at h
    obtain ⟨rfl, -, -⟩ := h
    decide
  have hx : (argument : Expr ℂ).denote formalInterpretation ≠ 0 := by
    intro hzero
    have hone : formalDerivative 0 = 1 := hzero ▸ formalDerivative_antiderivative 1
    rw [map_zero] at hone
    exact zero_ne_one hone
  have hsquare : (toPower argument (nat 2) : Expr ℂ).denote formalInterpretation ≠ 0 := by
    rw [denote_square formalInterpretation_isDifferential]
    exact pow_ne_zero 2 hx
  obtain ⟨a', ha', hvalue⟩ := denote_differentiate formalInterpretation_isDifferential hcalls
  have hdefined : a.Defined formalInterpretation := ⟨trivial, trivial, fun _ => hx⟩
  have hdefined' : a'.Defined formalInterpretation := by
    cases ha'
    refine ⟨?_, ?_, fun _ => hsquare⟩
    · simp only [minus, times, dividedBy, applied, nat, Defined, reduceCtorEq, false_imp_iff,
        true_imp_iff, and_true, true_and]
      exact hx
    · simp only [toPower, nat, Defined, reduceCtorEq, false_imp_iff, and_true]
  exact ⟨formalInterpretation_isDifferential, hcalls, a', ha', hdefined, hdefined',
    hvalue hdefined hdefined'⟩

end Expr

end

end Formulary

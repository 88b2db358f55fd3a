import Mathlib
import Formulary.Number.ComplexArith
import Formulary.Proofs.Arithmetic.Exact
import Formulary.Proofs.Arithmetic.FieldLaws

/-!
# Exact complex arithmetic

Complex numbers whose parts are exact and finite are the complex numbers of mathematics, and the
operations of formulas are the operations of mathematics on them.

* `Exact.finite_add`, `Exact.finite_div` and others: exact real numbers.
* `normalize_exact`: exact numbers are kept as they are.
* `point`: a complex number of mathematics as a number of formulas.
* **`isFinite_iff_point`**: the finite numbers are these.
* `point_add`, `point_mul`, `point_div`, `exp_point`, `ln_point`: the operations at finite numbers.
* `exists_point_of_isFinite_log`: a logarithm is finite at the numbers other than zero only.
* `sin_point_neg`, `cos_point_neg`, `tan_point_neg`: odd and even functions. The tangent is odd even
  where it is infinite.
-/

namespace Formulary

open RealArith

noncomputable section

namespace Exact

/-! ### Real numbers -/

/-- Whole numbers are none of the constants. -/
theorem ofDecimal_whole (n : ℕ) : Exact.ofDecimal ⟨n, 0⟩ = finite n := by
  have hne (m : ℕ) {k : ℤ} (hk : 0 ≠ k) : ((⟨n, 0⟩ : Decimal) == ⟨m, k⟩) = false := by
    rw [beq_eq_false_iff_ne]
    intro h
    exact hk (congrArg Decimal.exponent h)
  simp [Exact.ofDecimal, constants, List.lookup, hne]

theorem ofNat_eq (n : ℕ) : (RealArith.ofNat n : Exact) = finite n :=
  ofDecimal_whole n

/-- The decimal of a constant stands for the constant. -/
theorem ofDecimal_of_lookup {d : Decimal} {r : ℝ} (h : constants.lookup d = some r) :
    Exact.ofDecimal d = finite r := by
  rw [Exact.ofDecimal, h, Option.getD_some]

@[simp] theorem zero_eq : (0 : Exact) = finite 0 :=
  (ofDecimal_whole 0).trans (congrArg finite Nat.cast_zero)

@[simp] theorem one_eq : (1 : Exact) = finite 1 :=
  (ofDecimal_whole 1).trans (congrArg finite Nat.cast_one)

@[simp] theorem finite_add (a b : ℝ) : finite a + finite b = finite (a + b) := rfl

theorem add_zero_eq (a : Exact) : a + 0 = a := by
  rw [zero_eq]
  cases a with
  | finite r => exact congrArg finite (add_zero r)
  | _ => rfl

@[simp] theorem finite_neg (a : ℝ) : -finite a = finite (-a) := rfl

@[simp] theorem finite_sub (a b : ℝ) : finite a - finite b = finite (a - b) :=
  congrArg finite (sub_eq_add_neg a b).symm

@[simp] theorem finite_mul (a b : ℝ) : finite a * finite b = finite (a * b) := rfl

theorem finite_div (a : ℝ) {b : ℝ} (hb : b ≠ 0) : finite a / finite b = finite (a / b) :=
  if_neg hb

theorem finite_div_zero (a : ℝ) :
    finite a / finite 0 = if a = 0 then undefined else infinite (isBelow a) :=
  if_pos rfl

@[simp] theorem finite_beq (a b : ℝ) : (finite a == finite b) = decide (a = b) := rfl

@[simp] theorem finite_lt (a b : ℝ) : RealArith.lt (finite a) (finite b) = decide (a < b) := rfl

@[simp] theorem isFinite_finite (a : ℝ) : RealArith.isFinite (finite a) = true := rfl

theorem isFinite_iff {a : Exact} : RealArith.isFinite a = true ↔ ∃ r, a = finite r := by
  cases a with
  | finite r => exact ⟨fun _ => ⟨r, rfl⟩, fun _ => rfl⟩
  | infinite s => exact ⟨fun h => absurd h Bool.false_ne_true, fun ⟨r, hr⟩ => by cases hr⟩
  | undefined => exact ⟨fun h => absurd h Bool.false_ne_true, fun ⟨r, hr⟩ => by cases hr⟩

/-- Numbers that test equal are equal. -/
theorem eq_of_beq {a b : Exact} (h : (a == b) = true) : a = b := by
  cases a with
  | finite r =>
    cases b with
    | finite s => exact congrArg finite (of_decide_eq_true h)
    | _ => exact absurd h Bool.false_ne_true
  | infinite s =>
    cases b with
    | infinite t => exact congrArg infinite (LawfulBEq.eq_of_beq h)
    | _ => exact absurd h Bool.false_ne_true
  | undefined => exact absurd h Bool.false_ne_true

end Exact

open Exact

/-! ### Complex numbers -/

/-- A complex number of mathematics as a number of formulas. -/
def point (z : ℂ) : Complex Exact :=
  ⟨finite z.re, finite z.im⟩

theorem eq_of_parts {z w : ℂ} (hre : z.re = w.re) (him : z.im = w.im) : z = w :=
  Complex.equivRealProd.injective (Prod.ext hre him)

theorem point_injective {z w : ℂ} (h : point z = point w) : z = w := by
  injection h with hre him
  injection hre with hre
  injection him with him
  exact eq_of_parts hre him

/-- The finite numbers are the complex numbers of mathematics. -/
theorem isFinite_iff_point {v : Complex Exact} : Arith.isFinite v = true ↔ ∃ z, v = point z := by
  obtain ⟨re, im⟩ := v
  constructor
  · intro h
    obtain ⟨hre, him⟩ := Bool.and_eq_true_iff.1 h
    obtain ⟨r, rfl⟩ := Exact.isFinite_iff.1 hre
    obtain ⟨s, rfl⟩ := Exact.isFinite_iff.1 him
    exact ⟨⟨r, s⟩, rfl⟩
  · rintro ⟨z, hz⟩
    rw [hz]
    rfl

theorem isFinite_point (z : ℂ) : Arith.isFinite (point z) = true := rfl

theorem point_add (z w : ℂ) : point z + point w = point (z + w) := by
  simp [point, Complex.add_def]

theorem point_sub (z w : ℂ) : point z - point w = point (z - w) := by
  simp [point, Complex.sub_def]

theorem point_neg (z : ℂ) : -point z = point (-z) := by
  simp [point, Complex.neg_def]

theorem point_mul (z w : ℂ) : point z * point w = point (z * w) := by
  simp [point, Complex.mul_def]

theorem point_ofNat (n : ℕ) : (Arith.ofNat n : Complex Exact) = point n := by
  show (⟨Exact.ofDecimal ⟨n, 0⟩, (0 : Exact)⟩ : Complex Exact) = _
  simp [point, ofDecimal_whole]

theorem sumSquares_ne_zero {w : ℂ} (hw : w ≠ 0) : w.re * w.re + w.im * w.im ≠ 0 := by
  have h := mt (Complex.normSq_eq_zero (z := w)).1 hw
  rwa [Complex.normSq_apply] at h

theorem point_div (z : ℂ) {w : ℂ} (hw : w ≠ 0) : point z / point w = point (z / w) := by
  have hne := sumSquares_ne_zero hw
  simp only [point, Complex.div_def, Complex.normSq, finite_mul, finite_add, finite_sub,
    finite_div _ hne, Complex.div_re, Complex.div_im, Complex.normSq_apply]
  congr 2
  · ring
  · ring

theorem point_inverse {z : ℂ} (hz : z ≠ 0) : (point z).inverse = point z⁻¹ := by
  have hne := sumSquares_ne_zero hz
  simp [point, Complex.inverse, Complex.normSq, finite_div _ hne, Complex.inv_re, Complex.inv_im,
    Complex.normSq_apply]

theorem point_beq_zero (z : ℂ) : (point z == Complex.zero) = decide (z = 0) := by
  show ((finite z.re == (0 : Exact)) && (finite z.im == (0 : Exact))) = _
  rw [zero_eq, finite_beq, finite_beq, ← Bool.decide_and]
  congr 1
  exact propext ⟨fun h => eq_of_parts h.1 h.2, fun h => by rw [h]; exact ⟨rfl, rfl⟩⟩

theorem one_eq_point : (Complex.one : Complex Exact) = point 1 := by
  simp [point, Complex.one]

theorem zero_eq_point : (Complex.zero : Complex Exact) = point 0 := by
  simp [point, Complex.zero]

theorem isNegative_point (z : ℂ) :
    Arith.isNegative (point z) = true ↔ z.im = 0 ∧ z.re < 0 := by
  show ((finite z.im == (0 : Exact)) && RealArith.lt (finite z.re) (0 : Exact)) = true ↔ _
  simp

/-- There is no negative zero, so numbers are kept as they are. -/
theorem normalize_exact (v : Complex Exact) : Arith.normalize v = v := by
  show (⟨v.re + 0, v.im + 0⟩ : Complex Exact) = v
  rw [Exact.add_zero_eq, Exact.add_zero_eq]

/-! ### Exponential and logarithm -/

theorem exp_point (z : ℂ) : (point z).exp = point z.exp := by
  have hinf : RealArith.isInfinite (finite z.re) = false := rfl
  have hnan : RealArith.isNaN (finite z.re) = false := by
    simp [RealArith.isNaN]
  simp only [point, Complex.exp, hinf, hnan, Bool.false_and, Bool.false_eq_true, if_false,
    Complex.ofPolar, Complex.exp_re, Complex.exp_im]
  rfl

theorem ln_point {z : ℂ} (hz : z ≠ 0) : (point z).ln = point z.log := by
  have hpos : 0 < ‖z‖ := norm_pos_iff.2 hz
  have hlog : Exact.log (finite ‖z‖) = finite (Real.log ‖z‖) := by
    simp only [Exact.log, Exact.extend, if_neg hpos.not_gt, if_neg hpos.ne']
  simp only [point, Complex.log_re, Complex.log_im, ← hlog]
  rfl

/-- Only numbers other than zero have a logarithm. -/
theorem exists_point_of_isFinite_log {v : Complex Exact}
    (h : RealArith.isFinite v.ln.re = true) : ∃ z, z ≠ 0 ∧ v = point z := by
  obtain ⟨re, im⟩ := v
  change Exact.isFinite (Exact.log (Exact.hypot re im)) = true at h
  cases re with
  | finite r =>
    cases im with
    | finite s =>
      refine ⟨⟨r, s⟩, fun hzero => ?_, rfl⟩
      simp [Exact.hypot, hzero, Exact.log, Exact.extend, Exact.isFinite] at h
    | _ => simp [Exact.hypot, Exact.log, Exact.extend, Exact.isFinite] at h
  | infinite s => cases im <;> simp [Exact.hypot, Exact.log, Exact.extend, Exact.isFinite] at h
  | undefined => cases im <;> simp [Exact.hypot, Exact.log, Exact.extend, Exact.isFinite] at h

theorem logTen_eq : (RealArith.logTen : Exact) = finite (Real.log 10) :=
  ofDecimal_of_lookup rfl

theorem euler_eq : (RealArith.euler : Exact) = finite (Real.exp 1) :=
  ofDecimal_of_lookup rfl

theorem pi_eq : (RealArith.pi : Exact) = finite Real.pi :=
  ofDecimal_of_lookup rfl

theorem log_ten_ne_zero : Real.log 10 ≠ 0 :=
  (Real.log_pos (by norm_num)).ne'

theorem log10_point {z : ℂ} (hz : z ≠ 0) :
    (point z).log10 = point (z.log / (Real.log 10 : ℝ)) := by
  rw [Complex.log10, ln_point hz]
  simp only [Complex.unscale, logTen_eq, point, finite_div _ log_ten_ne_zero, Complex.div_ofReal_re,
    Complex.div_ofReal_im]

theorem exists_point_of_isFinite_log10 {v : Complex Exact}
    (h : RealArith.isFinite v.log10.re = true) : ∃ z, z ≠ 0 ∧ v = point z := by
  refine exists_point_of_isFinite_log ?_
  change RealArith.isFinite (v.ln.re / (RealArith.logTen : Exact)) = true at h
  rw [logTen_eq] at h
  cases hln : v.ln.re with
  | finite r => rfl
  | infinite s =>
    rw [hln] at h
    exact absurd h Bool.false_ne_true
  | undefined =>
    rw [hln] at h
    exact absurd h Bool.false_ne_true

/-! ### Circular functions -/

/-- The sign of a dividend is the sign of the quotient, even if the divisor is zero. -/
theorem finite_neg_div (a b : ℝ) : finite (-a) / finite b = -(finite a / finite b) := by
  by_cases hb : b = 0
  · rw [hb, finite_div_zero, finite_div_zero]
    by_cases ha : a = 0
    · rw [ha, neg_zero, if_pos rfl]
      rfl
    · rw [if_neg ha, if_neg (neg_ne_zero.2 ha)]
      have hbelow : isBelow (-a) = !isBelow a := by
        rw [isBelow, isBelow, ← decide_not, decide_eq_decide, neg_lt_zero, not_lt]
        exact ⟨le_of_lt, fun h => lt_of_le_of_ne h (Ne.symm ha)⟩
      rw [hbelow]
      rfl
  · rw [finite_div _ hb, finite_div _ hb, finite_neg, neg_div]

theorem sin_point (z : ℂ) :
    (point z).sin = point ⟨Real.sin z.re * Real.cosh z.im, Real.cos z.re * Real.sinh z.im⟩ := rfl

theorem cos_point (z : ℂ) :
    (point z).cos = point ⟨Real.cos z.re * Real.cosh z.im, -Real.sin z.re * Real.sinh z.im⟩ := rfl

theorem sin_point_neg (z : ℂ) : (point (-z)).sin = -(point z).sin := by
  rw [sin_point, sin_point, point_neg]
  simp [point]

theorem cos_point_neg (z : ℂ) : (point (-z)).cos = (point z).cos := by
  rw [cos_point, cos_point]
  simp [point]

theorem tan_point (z : ℂ) :
    (point z).tan =
      ⟨finite (Real.sin (z.re + z.re)) / finite (Real.cos (z.re + z.re) + Real.cosh (z.im + z.im)),
       finite (Real.sinh (z.im + z.im)) /
         finite (Real.cos (z.re + z.re) + Real.cosh (z.im + z.im))⟩ := rfl

theorem tan_point_neg (z : ℂ) : (point (-z)).tan = -(point z).tan := by
  have hdouble (r : ℝ) : -r + -r = -(r + r) := by ring
  simp only [tan_point, Complex.neg_re, Complex.neg_im, hdouble, Real.sin_neg, Real.cos_neg,
    Real.sinh_neg, Real.cosh_neg, finite_neg_div, Complex.neg_def]

theorem sin_point_zero : (point 0).sin = point 0 := by
  rw [sin_point]
  simp [point]

theorem cos_point_zero : (point 0).cos = point 1 := by
  rw [cos_point]
  simp [point]

theorem tan_point_zero : (point 0).tan = point 0 := by
  have htwo : (1 : ℝ) + 1 ≠ 0 := by norm_num
  rw [tan_point]
  simp [point, finite_div _ htwo]

end

end Formulary

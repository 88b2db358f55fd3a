import Formulary.Proofs.Arithmetic.ExactPower

/-!
# The laws of exact arithmetic

Exact complex arithmetic satisfies the laws behind the rules of simplification on its finite
numbers, Euler's number being the constant of that name.

* `IsFinite`: the numbers that have the laws.
* **`exact_operatorLaws`**, **`exact_fieldLaws`**, **`exact_powerLaws`**: the laws.
-/

namespace Formulary

open RealArith Exact

noncomputable section

/-- The property on which exact arithmetic has the laws. -/
def IsFinite (v : Complex Exact) : Prop :=
  Arith.isFinite v = true

theorem ne_zero_of_isZero {z : ℂ} (h : Arith.isZero (point z) = false) : z ≠ 0 := by
  change (point z == Arith.ofNat 0) = false at h
  rw [point_ofNat, Nat.cast_zero, ← zero_eq_point, point_beq_zero] at h
  exact of_decide_eq_false h

theorem isZero_eq_false {z : ℂ} (h : z ≠ 0) : Arith.isZero (point z) = false := by
  show (point z == Arith.ofNat 0) = false
  rw [point_ofNat, Nat.cast_zero, ← zero_eq_point, point_beq_zero]
  exact decide_eq_false h

theorem eq_of_beq_exact {v w : Complex Exact} (h : (v == w) = true) : v = w := by
  obtain ⟨hre, him⟩ := Bool.and_eq_true_iff.1 h
  exact Complex.ext (Exact.eq_of_beq hre) (Exact.eq_of_beq him)

theorem exact_operatorLaws : OperatorLawsOn IsFinite where
  normalize_eq _ := normalize_exact _
  eq_of_beq _ h := (eq_of_beq_exact h).trans (normalize_exact _).symm
  zero_beq := by
    rw [point_ofNat, Nat.cast_zero]
    nth_rewrite 2 [← zero_eq_point]
    rw [point_beq_zero, decide_eq_true rfl]
  whole {n} _ := by
    rw [point_ofNat]
    exact isFinite_point n
  neg {a} ha := by
    obtain ⟨z, rfl⟩ := isFinite_iff_point.1 ha
    rw [normalize_exact, point_neg]
    exact isFinite_point (-z)
  add_comm {a b} ha hb _ := by
    obtain ⟨z, rfl⟩ := isFinite_iff_point.1 ha
    obtain ⟨w, rfl⟩ := isFinite_iff_point.1 hb
    rw [point_add, point_add, add_comm]
  mul_comm {a b} ha hb _ := by
    obtain ⟨z, rfl⟩ := isFinite_iff_point.1 ha
    obtain ⟨w, rfl⟩ := isFinite_iff_point.1 hb
    rw [point_mul, point_mul, mul_comm]
  zero_add {a} ha := by
    obtain ⟨z, rfl⟩ := isFinite_iff_point.1 ha
    rw [normalize_exact, point_ofNat, point_add, Nat.cast_zero, zero_add]
  one_mul {a} ha := by
    obtain ⟨z, rfl⟩ := isFinite_iff_point.1 ha
    rw [normalize_exact, point_ofNat, point_mul, Nat.cast_one, one_mul]
  zero_mul {a} ha := by
    obtain ⟨z, rfl⟩ := isFinite_iff_point.1 ha
    rw [normalize_exact, point_ofNat, point_mul, Nat.cast_zero, zero_mul]
  minusOne_mul {a} ha := by
    obtain ⟨z, rfl⟩ := isFinite_iff_point.1 ha
    simp only [normalize_exact]
    rw [point_ofNat, point_neg, point_mul, point_neg, Nat.cast_one, neg_one_mul]
  div_one {a} ha := by
    obtain ⟨z, rfl⟩ := isFinite_iff_point.1 ha
    rw [normalize_exact, point_ofNat, Nat.cast_one, point_div z one_ne_zero, div_one]
  div_minusOne {a} ha := by
    obtain ⟨z, rfl⟩ := isFinite_iff_point.1 ha
    simp only [normalize_exact]
    rw [point_ofNat, point_neg, Nat.cast_one, point_div z (neg_ne_zero.2 one_ne_zero), point_neg,
      div_neg, div_one]
  add_self {a} ha _ := by
    obtain ⟨z, rfl⟩ := isFinite_iff_point.1 ha
    rw [point_ofNat, point_add, point_mul, Nat.cast_ofNat, two_mul]
  sub_self {a} ha := by
    obtain ⟨z, rfl⟩ := isFinite_iff_point.1 ha
    rw [normalize_exact, point_ofNat, point_sub, Nat.cast_zero, sub_self]
  zero_sub {a} ha := by
    obtain ⟨z, rfl⟩ := isFinite_iff_point.1 ha
    rw [point_ofNat, point_sub, point_neg, Nat.cast_zero, zero_sub]
  add_neg {a b} ha hb _ := by
    obtain ⟨z, rfl⟩ := isFinite_iff_point.1 ha
    obtain ⟨w, rfl⟩ := isFinite_iff_point.1 hb
    simp only [normalize_exact]
    rw [point_neg, point_add, point_sub, sub_eq_add_neg]
  sub_neg {a b} ha hb _ := by
    obtain ⟨z, rfl⟩ := isFinite_iff_point.1 ha
    obtain ⟨w, rfl⟩ := isFinite_iff_point.1 hb
    simp only [normalize_exact]
    rw [point_neg, point_sub, point_add, sub_neg_eq_add]
  neg_neg {a} ha := by
    obtain ⟨z, rfl⟩ := isFinite_iff_point.1 ha
    simp only [normalize_exact]
    rw [point_neg, point_neg, neg_neg]
  neg_mul {a b} ha hb _ := by
    obtain ⟨z, rfl⟩ := isFinite_iff_point.1 ha
    obtain ⟨w, rfl⟩ := isFinite_iff_point.1 hb
    simp only [normalize_exact]
    rw [point_neg, point_mul, point_mul, point_neg, neg_mul]
  neg_div {a b} ha hb h _ := by
    obtain ⟨z, rfl⟩ := isFinite_iff_point.1 ha
    obtain ⟨w, rfl⟩ := isFinite_iff_point.1 hb
    have hw := ne_zero_of_isZero h
    simp only [normalize_exact]
    rw [point_neg, point_div _ hw, point_div _ hw, point_neg, neg_div]
  div_neg {a b} ha hb h _ := by
    obtain ⟨z, rfl⟩ := isFinite_iff_point.1 ha
    obtain ⟨w, rfl⟩ := isFinite_iff_point.1 hb
    have hw := ne_zero_of_isZero h
    simp only [normalize_exact]
    rw [point_neg, point_div _ (neg_ne_zero.2 hw), point_div _ hw, point_neg, div_neg]

theorem log10_ten : (point 10).log10 = point 1 := by
  have hten : (Real.log 10 : ℂ) ≠ 0 := Complex.ofReal_ne_zero.2 log_ten_ne_zero
  have hlog : Complex.log 10 = (Real.log 10 : ℝ) := Complex.ofNat_log.symm
  rw [log10_point (OfNat.ofNat_ne_zero 10), hlog, div_self hten]

theorem exact_fieldLaws : FieldLawsOn IsFinite where
  toOperatorLawsOn := exact_operatorLaws
  sin_neg {a} ha _ := by
    obtain ⟨z, rfl⟩ := isFinite_iff_point.1 ha
    simp only [normalize_exact]
    rw [point_neg]
    exact sin_point_neg z
  tan_neg {a} ha _ := by
    obtain ⟨z, rfl⟩ := isFinite_iff_point.1 ha
    simp only [normalize_exact]
    rw [point_neg]
    exact tan_point_neg z
  cos_neg {a} ha _ := by
    obtain ⟨z, rfl⟩ := isFinite_iff_point.1 ha
    simp only [normalize_exact]
    rw [point_neg]
    exact cos_point_neg z
  sin_zero := by
    rw [normalize_exact, point_ofNat, Nat.cast_zero]
    exact sin_point_zero
  tan_zero := by
    rw [normalize_exact, point_ofNat, Nat.cast_zero]
    exact tan_point_zero
  cos_zero := by
    rw [normalize_exact, point_ofNat, point_ofNat, Nat.cast_zero, Nat.cast_one]
    exact cos_point_zero
  log10_ten := by
    rw [normalize_exact, point_ofNat, point_ofNat, Nat.cast_ofNat, Nat.cast_one]
    exact log10_ten

/-! ### Powers -/

theorem euler_eq_point :
    (Complex.ofReal RealArith.euler : Complex Exact) = point (Real.exp 1 : ℝ) := by
  rw [Complex.ofReal, euler_eq, zero_eq]
  rfl

theorem exp_one_ne_zero : ((Real.exp 1 : ℝ) : ℂ) ≠ 0 :=
  Complex.ofReal_ne_zero.2 (Real.exp_pos 1).ne'

theorem log_exp_one : Complex.log (Real.exp 1 : ℝ) = 1 := by
  rw [← Complex.ofReal_log (Real.exp_pos 1).le, Real.log_exp, Complex.ofReal_one]

theorem apply_naturalLog {f : Builtin} (hf : f.isNaturalLog = true) (v : Complex Exact) :
    Arith.apply f v = v.ln := by
  cases f <;> first | rfl | exact absurd hf Bool.false_ne_true

theorem naturalLog_euler {f : Builtin} (hf : f.isNaturalLog = true) :
    Arith.apply f (Complex.ofReal RealArith.euler : Complex Exact) = point 1 := by
  rw [apply_naturalLog hf, euler_eq_point, ln_point exp_one_ne_zero, log_exp_one]

theorem exact_powerLaws : PowerLawsOn IsFinite (Complex.ofReal RealArith.euler) where
  pow_zero {a} ha := by
    obtain ⟨z, rfl⟩ := isFinite_iff_point.1 ha
    rw [normalize_exact, point_ofNat, point_ofNat, Nat.cast_zero, pow_point (.inr (.inl rfl)),
      Complex.cpow_zero, Nat.cast_one]
  pow_one {a} ha := by
    obtain ⟨z, rfl⟩ := isFinite_iff_point.1 ha
    have hre : (0 : ℝ) < (1 : ℂ).re := Complex.one_re ▸ zero_lt_one
    rw [normalize_exact, point_ofNat, Nat.cast_one, pow_point (.inr (.inr hre)), Complex.cpow_one]
  one_pow {b} hb := by
    obtain ⟨w, rfl⟩ := isFinite_iff_point.1 hb
    rw [normalize_exact, point_ofNat, Nat.cast_one, pow_point (.inl one_ne_zero), Complex.one_cpow]
  zero_pow {b} hb h hr := by
    obtain ⟨w, rfl⟩ := isFinite_iff_point.1 hb
    rw [normalize_exact, point_ofNat, Nat.cast_zero] at hr ⊢
    rw [pow_point (of_isFinite_pow hr), Complex.zero_cpow (ne_zero_of_isZero h)]
  isRight_zero := by
    show RealArith.lt (0 : Exact) (Arith.ofNat 0 : Complex Exact).re = false
    rw [point_ofNat, Nat.cast_zero, zero_eq]
    exact decide_eq_false (lt_irrefl (0 : ℝ))
  pow_negative {a b} ha hb h hr := by
    obtain ⟨z, rfl⟩ := isFinite_iff_point.1 ha
    obtain ⟨w, rfl⟩ := isFinite_iff_point.1 hb
    obtain ⟨-, hre⟩ := (isNegative_point w).1 h
    have hw : w ≠ 0 := fun hzero => by simp [hzero] at hre
    rw [normalize_exact] at hr
    have hz : z ≠ 0 := by
      have hcases := of_isFinite_pow hr
      have hnot := hre.not_gt
      tauto
    have hne : z ^ (-w) ≠ 0 := fun hzero => hz ((Complex.cpow_eq_zero_iff _ _).1 hzero).1
    simp only [normalize_exact]
    rw [point_neg, pow_point (.inl hz), pow_point (.inl hz), point_ofNat, Nat.cast_one]
    refine ⟨isFinite_point _, isZero_eq_false hne, ?_⟩
    rw [point_div 1 hne, Complex.cpow_neg, one_div, inv_inv]
  pow_even {a b k} ha hb h hk _ := by
    obtain ⟨z, rfl⟩ := isFinite_iff_point.1 ha
    obtain ⟨w, rfl⟩ := isFinite_iff_point.1 hb
    obtain rfl := eq_of_integer? h
    simp only [normalize_exact]
    rw [point_neg]
    by_cases hz : z = 0
    · rw [hz, neg_zero]
    · rw [pow_point (.inl hz), pow_point (.inl (neg_ne_zero.2 hz)), Complex.cpow_intCast,
        Complex.cpow_intCast, (Int.even_iff.2 hk).neg_zpow]
  pow_odd {a b k} ha hb h hk hr := by
    obtain ⟨z, rfl⟩ := isFinite_iff_point.1 ha
    obtain ⟨w, rfl⟩ := isFinite_iff_point.1 hb
    obtain rfl := eq_of_integer? h
    rw [normalize_exact] at hr
    have hcases := of_isFinite_pow hr
    simp only [normalize_exact]
    rw [point_neg, pow_point (hcases.imp_left neg_ne_zero.2), pow_point hcases, point_neg,
      Complex.cpow_intCast, Complex.cpow_intCast,
      (Int.odd_iff.2 (Int.emod_two_ne_zero.1 hk)).neg_zpow]
  ten_pow_log10 {a} _ h := by
    simp only [normalize_exact] at h ⊢
    obtain ⟨hre, -⟩ := Bool.and_eq_true_iff.1 h
    obtain ⟨z, hz, rfl⟩ := exists_point_of_isFinite_log10 hre
    have hten : (Real.log 10 : ℂ) ≠ 0 := Complex.ofReal_ne_zero.2 log_ten_ne_zero
    have hlog : Complex.log 10 = (Real.log 10 : ℝ) := Complex.ofNat_log.symm
    show Arith.pow _ (point z).log10 = _
    rw [log10_point hz, point_ofNat, Nat.cast_ofNat,
      pow_point (.inl (OfNat.ofNat_ne_zero 10)),
      Complex.cpow_def_of_ne_zero (OfNat.ofNat_ne_zero 10), hlog, mul_div_cancel₀ _ hten,
      Complex.exp_log hz]
  euler_pow_log {a f} hf _ h := by
    simp only [normalize_exact, apply_naturalLog hf] at h ⊢
    obtain ⟨hre, -⟩ := Bool.and_eq_true_iff.1 h
    obtain ⟨z, hz, rfl⟩ := exists_point_of_isFinite_log hre
    rw [ln_point hz, euler_eq_point, pow_point (.inl exp_one_ne_zero),
      Complex.cpow_def_of_ne_zero exp_one_ne_zero, log_exp_one, one_mul, Complex.exp_log hz]
  log_euler hf := by
    rw [normalize_exact, naturalLog_euler hf, point_ofNat, Nat.cast_one]

end

end Formulary

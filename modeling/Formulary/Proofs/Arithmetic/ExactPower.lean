import Formulary.Proofs.Arithmetic.ExactComplex

/-!
# Powers in exact arithmetic

A power is taken by repeated squaring or through the logarithm. Without rounding both give the power
of mathematics, and zero has finite powers only where mathematics gives it some.

* **`pow_point`**: the power at finite numbers.
* `isFinite_exp_eq_false`: where the exponential is not finite.
* **`of_isFinite_pow`**: a power is finite only if the base is not zero, the exponent is zero, or
  the exponent lies in the right half plane.
-/

namespace Formulary

open RealArith Exact

noncomputable section

/-! ### Powers -/

theorem squareMultiply_point (u z : ℂ) (n : ℕ) :
    Complex.squareMultiply (point u) (point z) n = point (u * z ^ (n - n % 2)) := by
  induction n using Nat.strong_induction_on generalizing u z with
  | _ n ih =>
    rw [Complex.squareMultiply]
    split
    · next h =>
      have hlt : n / 2 < n := by omega
      show Complex.squareMultiply (if n / 2 % 2 = 1 then point u * (point z * point z) else point u)
        (point z * point z) (n / 2) = _
      rw [point_mul]
      split
      · next hodd =>
        rw [point_mul, ih _ hlt, hodd, mul_assoc, ← pow_two, ← pow_mul, ← pow_add]
        congr 3
        omega
      · next heven =>
        rw [ih _ hlt, ← pow_two, ← pow_mul]
        congr 3
        omega
    · next h =>
      have hzero : n - n % 2 = 0 := by omega
      rw [hzero, pow_zero, mul_one]

theorem powNat_point (z : ℂ) (n : ℕ) : (point z).powNat n = point (z ^ n) := by
  induction n using Nat.strong_induction_on generalizing z with
  | _ n ih =>
    rw [Complex.powNat]
    split
    · next h => rw [h, pow_zero, one_eq_point]
    · split
      · next h heven =>
        rw [point_mul, ih _ (by omega), ← pow_two, ← pow_mul]
        congr 2
        omega
      · next h hodd =>
        rw [squareMultiply_point, ← pow_succ']
        congr 2
        omega

theorem powInt_point {z : ℂ} (hz : z ≠ 0) (k : ℤ) : (point z).powInt k = point (z ^ k) := by
  cases k with
  | ofNat n => exact (powNat_point z n).trans (congrArg point (zpow_natCast z n).symm)
  | negSucc n =>
    show (point z).inverse.powNat (n + 1) = _
    rw [point_inverse hz, powNat_point, inv_pow, zpow_negSucc]

theorem ofInt_eq (k : ℤ) : (RealArith.ofInt k : Exact) = finite k := by
  cases k with
  | ofNat n => exact ofDecimal_whole n
  | negSucc n =>
    show -Exact.ofDecimal ⟨n + 1, 0⟩ = _
    rw [ofDecimal_whole, finite_neg, Int.cast_negSucc]

/-- The integers of 32 bits are integers. -/
theorem eq_of_integer? {w : ℂ} {k : ℤ} (h : Arith.integer? (point w) = some k) : w = k := by
  change Complex.integer? (point w) = some k at h
  unfold Complex.integer? at h
  split at h
  · next n hn =>
    split at h
    · next hk =>
      cases h
      obtain ⟨hk, hre⟩ := Bool.and_eq_true_iff.1 hk
      obtain ⟨hk, -⟩ := Bool.and_eq_true_iff.1 hk
      obtain ⟨him, -⟩ := Bool.and_eq_true_iff.1 hk
      rw [ofInt_eq] at hre
      have hre : (k : ℝ) = w.re := of_decide_eq_true hre
      have him : w.im = 0 := by simpa [point] using him
      refine eq_of_parts ?_ ?_
      · rw [Complex.intCast_re, hre]
      · rw [Complex.intCast_im, him]
    · cases h
  · cases h

theorem integer?_point {k : ℤ} (hlow : -0x80000000 ≤ k) (hhigh : k < 0x80000000) :
    Arith.integer? (point k) = some k := by
  have hpoint : point k = ⟨finite k, finite 0⟩ := by
    rw [point, Complex.intCast_re, Complex.intCast_im]
  have hfloor : RealArith.floor? (finite k) = some k := congrArg some (Int.floor_intCast k)
  show Complex.integer? (point k) = some k
  rw [hpoint, Complex.integer?]
  simp [hfloor, ofInt_eq, hlow, hhigh]

/-- The power as the library takes it is the power of mathematics, unless the base is zero and the
exponent is one for which zero has no power. -/
theorem pow_point {z w : ℂ} (h : z ≠ 0 ∨ w = 0 ∨ 0 < w.re) :
    Arith.pow (point z) (point w) = point (z ^ w) := by
  show Complex.pow (point z) (point w) = _
  unfold Complex.pow
  rw [point_beq_zero, point_beq_zero]
  by_cases hw : w = 0
  · rw [if_pos (decide_eq_true hw), hw, Complex.cpow_zero, one_eq_point]
  · rw [if_neg (by simpa using hw)]
    cases hk : Complex.integer? (point w) with
    | some k =>
      obtain rfl := eq_of_integer? hk
      rw [Complex.cpow_intCast]
      by_cases hz : z = 0
      · have hpos : 0 < k := by
          have hre : (0 : ℝ) < ((k : ℤ) : ℂ).re := by tauto
          exact_mod_cast (Complex.intCast_re k ▸ hre)
        obtain ⟨n, rfl⟩ := Int.eq_ofNat_of_zero_le hpos.le
        rw [zpow_natCast]
        exact powNat_point z n
      · exact powInt_point hz k
    | none =>
      show (if _ then Complex.zero else Complex.powLog (point z) (point w)) = _
      by_cases hz : z = 0
      · have hre : 0 < w.re := by tauto
        have hlt : RealArith.lt (0 : Exact) (point w).re = true := by
          rw [zero_eq]
          exact decide_eq_true hre
        rw [hlt, if_pos (by simpa using hz), hz, Complex.zero_cpow hw, zero_eq_point]
      · rw [if_neg (by simp [hz]), Complex.powLog, point_beq_zero, if_neg (by simpa using hw),
          ln_point hz, point_mul, exp_point, Complex.cpow_def_of_ne_zero hz, mul_comm]

/-! #### Where zero has no power -/

/-- The number neither of whose parts is defined. -/
def nowhere : Complex Exact :=
  ⟨.undefined, .undefined⟩

theorem squareMultiply_nowhere (n : ℕ) :
    Complex.squareMultiply nowhere nowhere n = nowhere := by
  induction n using Nat.strong_induction_on with
  | _ n ih =>
    rw [Complex.squareMultiply]
    split
    · next h =>
      show Complex.squareMultiply (if n / 2 % 2 = 1 then nowhere else nowhere) nowhere (n / 2) = _
      rw [ite_self]
      exact ih _ (by omega)
    · rfl

theorem powNat_nowhere {n : ℕ} (hn : n ≠ 0) : nowhere.powNat n = nowhere := by
  induction n using Nat.strong_induction_on with
  | _ n ih =>
    rw [Complex.powNat, if_neg hn]
    split
    · exact ih (n / 2) (by omega) (by omega)
    · exact squareMultiply_nowhere n

theorem inverse_zero : (point 0).inverse = nowhere := by
  have hquotient : finite 0 / finite 0 = .undefined := by
    rw [finite_div_zero, if_pos rfl]
  simp [point, Complex.inverse, Complex.normSq, nowhere, hquotient]

/-- Products with infinity are not finite. -/
theorem isFinite_infinite_mul (s : Bool) (a : Exact) :
    RealArith.isFinite (infinite s * a) = false := by
  cases a with
  | finite r =>
    show RealArith.isFinite (if r = 0 then .undefined else infinite (s ^^ isBelow r)) = false
    split <;> rfl
  | infinite t => rfl
  | undefined => rfl

/-- The exponential is infinite at the right end of the plane and undefined where the real part
is. -/
theorem isFinite_exp_eq_false {v : Complex Exact} (h : v.re = infinite false ∨ v.re = .undefined) :
    Arith.isFinite v.exp = false := by
  have hparts {u : Complex Exact} (hu : RealArith.isFinite u.re = false) :
      Arith.isFinite u = false :=
    Bool.and_eq_false_iff.2 (.inl hu)
  refine hparts ?_
  obtain ⟨re, im⟩ := v
  obtain rfl | rfl := h
  · show RealArith.isFinite (if (im == 0 || !RealArith.isFinite im) = true then
        (⟨infinite false, _⟩ : Complex Exact)
      else Complex.ofPolar (infinite false) im).re = false
    split
    · rfl
    · exact isFinite_infinite_mul false _
  · show RealArith.isFinite (if (im == 0) = true then (⟨.undefined, im⟩ : Complex Exact)
      else Complex.ofPolar .undefined im).re = false
    split <;> rfl

theorem ln_point_zero : (point 0).ln = ⟨infinite true, finite 0⟩ := by
  have hnorm : Exact.log (finite ‖(0 : ℂ)‖) = infinite true := by
    rw [norm_zero, Exact.log, Exact.extend, if_neg (lt_irrefl _), if_pos rfl]
  have harg : finite (0 : ℂ).arg = finite 0 := congrArg finite Complex.arg_zero
  show (⟨Exact.log (finite ‖(0 : ℂ)‖), finite (0 : ℂ).arg⟩ : Complex Exact) = _
  rw [hnorm, harg]

/-- In the left half plane the exponent turns the infinite logarithm of zero around, and on its edge
it leaves nothing defined. -/
theorem mul_ln_zero_re {w : ℂ} (h : w.re ≤ 0) :
    (point w * (point 0).ln).re = infinite false ∨ (point w * (point 0).ln).re = .undefined := by
  have hre : (point w * (point 0).ln).re =
      (if w.re = 0 then .undefined else infinite (true ^^ isBelow w.re)) - finite (w.im * 0) := by
    rw [ln_point_zero]
    rfl
  rw [hre]
  obtain hlt | heq := h.lt_or_eq
  · rw [if_neg hlt.ne, isBelow, decide_eq_true hlt]
    exact .inl rfl
  · rw [if_pos heq]
    exact .inr rfl

/-- Zero has powers with the exponent zero and those in the right half plane only. -/
theorem of_isFinite_pow {z w : ℂ} (h : Arith.isFinite (Arith.pow (point z) (point w)) = true) :
    z ≠ 0 ∨ w = 0 ∨ 0 < w.re := by
  by_contra hnot
  push Not at hnot
  obtain ⟨rfl, hw, hre⟩ := hnot
  change Arith.isFinite (Complex.pow (point 0) (point w)) = true at h
  unfold Complex.pow at h
  rw [point_beq_zero, point_beq_zero, if_neg (by simpa using hw)] at h
  cases hk : Complex.integer? (point w) with
  | some k =>
    obtain rfl := eq_of_integer? hk
    have hneg : k < 0 := by
      have hle : k ≤ 0 := by exact_mod_cast (Complex.intCast_re k ▸ hre)
      exact lt_of_le_of_ne hle (by exact_mod_cast hw)
    obtain ⟨n, rfl⟩ := Int.eq_negSucc_of_lt_zero hneg
    rw [hk] at h
    change Arith.isFinite ((point 0).inverse.powNat (n + 1)) = true at h
    rw [inverse_zero, powNat_nowhere n.succ_ne_zero] at h
    exact absurd h Bool.false_ne_true
  | none =>
    have hright : RealArith.lt (0 : Exact) (point w).re = false := by
      rw [zero_eq]
      exact decide_eq_false hre.not_gt
    rw [hk] at h
    change Arith.isFinite (if _ then Complex.zero else Complex.powLog (point 0) (point w)) = true
      at h
    rw [hright, Bool.and_false, if_neg Bool.false_ne_true, Complex.powLog, point_beq_zero,
      if_neg (by simpa using hw)] at h
    refine absurd h (Bool.not_eq_true _ ▸ isFinite_exp_eq_false (mul_ln_zero_re hre))
end

end Formulary

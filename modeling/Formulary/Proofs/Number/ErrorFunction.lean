import Formulary.Proofs.Arithmetic.ExactComplex
import Formulary.Proofs.Arithmetic.SymmetryLaws

/-!
# The error function of negated numbers

The error function is odd: what it gives at a number and at its negation differs in the sign. Off
the imaginary axis one of the two numbers is reflected, and on it the terms of the series have their
signs turned one by one. The continued fraction however is subtracted from one on both ends of the
imaginary axis, and there the function is not odd.

* `erfSum_neg`, `erfSeries_neg`: one term of the series and the whole of it at a negated number.
* `erf_neg_of_ne`: off the imaginary axis.
* **`erf_neg`**: everywhere but at the ends of the imaginary axis.
* `erfcLevels_axis`, `erfcFraction_axis`: the continued fraction at two opposite numbers on the axis.
* **`erf_neg_axis`**: the error function is not odd there.
-/

namespace Formulary.Complex

open RealArith

universe u

/-! ### The series -/

section Series

variable {R : Type u} [RealArith R] [SymmetryLaws R]

/-- Adding up negated terms gives the negated sum, and ends at the same term. -/
theorem erfSum_neg {z2 z2' p p' sum sum' : Complex R} (left n : Nat) (hz2 : SameNumber z2' z2)
    (hp : SameNumber p' (-p)) (hsum : SameNumber sum' (-sum)) :
    SameNumber (erfSum z2' left n p' sum') (-erfSum z2 left n p sum) := by
  induction left generalizing n p p' sum sum' with
  | zero => exact hsum
  | succ left ih =>
    have hpower : SameNumber ((-p' * z2').unscale (ofNat n)) (-(-p * z2).unscale (ofNat n)) :=
      calc
        SameNumber ((-p' * z2').unscale (ofNat n)) ((-(-p) * z2).unscale (ofNat n)) :=
          (hp.neg.mul hz2).unscale _
        SameNumber _ ((-(-p * z2)).unscale (ofNat n)) := (neg_mul_same _ _).unscale _
        SameNumber _ (-(-p * z2).unscale (ofNat n)) := neg_unscale_same _ _
    simp only [erfSum]
    generalize (-p' * z2').unscale (ofNat n) = q' at hpower ⊢
    generalize (-p * z2).unscale (ofNat n) = q at hpower ⊢
    have hterm : SameNumber (q'.unscale (ofNat (2 * n + 1))) (-q.unscale (ofNat (2 * n + 1))) :=
      (hpower.unscale _).trans (neg_unscale_same _ _)
    generalize q'.unscale (ofNat (2 * n + 1)) = term' at hterm ⊢
    generalize q.unscale (ofNat (2 * n + 1)) = term at hterm ⊢
    have hnext : SameNumber (sum' + term') (-(sum + term)) :=
      (hsum.add hterm).trans (neg_add_same _ _)
    -- the lengths do not change, and so both sums end here or neither does
    have hnorm {z z' : Complex R} (h : SameNumber z' (-z)) : Formulary.SameNumber z'.norm z.norm :=
      h.norm.trans (norm_neg_same z)
    rw [le_congr (hnorm hterm) (SymmetryLaws.mul_congr (.refl epsilon) (hnorm hnext))]
    split
    · exact hnext
    · exact ih (n + 1) hpower hnext

theorem erfSeries_neg (z : Complex R) : SameNumber (erfSeries (-z)) (-erfSeries z) := by
  have hsquare : SameNumber (-z * -z) (z * z) :=
    calc
      SameNumber (-z * -z) (-(z * -z)) := neg_mul_same _ _
      SameNumber _ (-(-(z * z))) := (mul_neg_same _ _).neg
      SameNumber _ (z * z) := .of_eq (Complex.neg_neg _)
  exact ((erfSum_neg (erfTerms - 1) 1 hsquare (.refl _) (.refl _)).scale _).trans
    (neg_scale_same _ _)

/-! ### The regions -/

theorem neg_beq_zero (a : R) : (-a == 0) = (a == 0) := by
  rw [SignLaws.neg_beq, SignLaws.beq_neg_zero]

/-- Off the imaginary axis one of the two numbers is reflected. -/
theorem erf_neg_of_ne {z : Complex R} (hfinite : z.isFinite = true) (him : (z.im == 0) = false)
    (hre : (z.re == 0) = false) : erf (-z) = -erf z := by
  have hnegim : ((-z).im == 0) = false := (neg_beq_zero z.im).trans him
  have hneglt : lt (-z).re 0 = lt 0 z.re := SignLaws.neg_lt_zero z.re
  unfold erf
  simp only [him, hnegim, Bool.false_eq_true, if_false, hneglt]
  cases hlt : lt z.re 0 with
  | true => simp only [not_zero_lt_of_lt_zero hlt, Bool.false_eq_true, if_false, if_true, Complex.neg_neg]
  | false =>
    have hpos : lt 0 z.re = true :=
      SymmetryLaws.zero_lt z.re (Bool.and_eq_true_iff.1 hfinite).1 hlt hre
    simp only [hpos, Bool.false_eq_true, if_false, if_true, Complex.neg_neg]

/-- On the imaginary axis neither number is reflected, and near zero both have their series. -/
theorem erf_neg_of_series {z : Complex R} (him : (z.im == 0) = false) (hre : (z.re == 0) = true)
    (hnorm : lt z.norm 3 = true) : SameNumber (erf (-z)) (-erf z) := by
  have hnegim : ((-z).im == 0) = false := (neg_beq_zero z.im).trans him
  have hnotlt {a : R} (ha : (a == 0) = true) : lt a 0 = false := by
    have hboth := SignLaws.lt_zero_and_beq_zero a
    rwa [ha, Bool.and_true] at hboth
  have hlt : lt z.re 0 = false := hnotlt hre
  have hneglt : lt (-z).re 0 = false := hnotlt ((neg_beq_zero z.re).trans hre)
  have hnegnorm : lt (-z).norm 3 = true :=
    (SymmetryLaws.lt_congr (norm_neg_same z) (.refl 3)).trans hnorm
  unfold erf erfRight
  simp only [him, hnegim, hlt, hneglt, hnorm, hnegnorm, Bool.false_eq_true, if_false, if_true]
  exact erfSeries_neg z

/-- **The error function is odd.** At a finite number off the real axis and at its negation it gives
opposite numbers, but for the signs of zeros, unless the number lies on the imaginary axis outside
the circle of the series. -/
theorem erf_neg {z : Complex R} (hfinite : z.isFinite = true) (him : (z.im == 0) = false)
    (haxis : (z.re == 0) = true → lt z.norm 3 = true) :
    (∀ c, (erf (-z) == c) = (-erf z == c)) ∧
      ((erf z).isFinite = true → (erf (-z) == -erf z) = true) := by
  have hsame : SameNumber (erf (-z)) (-erf z) := by
    cases hre : z.re == 0 with
    | false => exact .of_eq (erf_neg_of_ne hfinite him hre)
    | true => exact erf_neg_of_series him hre (haxis hre)
  refine ⟨hsame.beq_eq, fun h => ?_⟩
  obtain ⟨hre, him⟩ := Bool.and_eq_true_iff.1 h
  rw [hsame.beq_eq]
  show (-(erf z).re == -(erf z).re && -(erf z).im == -(erf z).im) = true
  rw [SignLaws.beq_self _ ((SignLaws.isFinite_neg _).trans hre),
    SignLaws.beq_self _ ((SignLaws.isFinite_neg _).trans him)]
  rfl

end Series

/-- Machine numbers have the laws: two numbers near zero on the imaginary axis. -/
theorem erf_neg_double :
    ∃ z : Complex Double, z.isFinite = true ∧ (z.im == 0) = false ∧ (z.re == 0) = true ∧
      lt z.norm 3 = true ∧ (erf (-z) == -erf z) = true := by
  have hfinite : (⟨0, 0.01⟩ : Complex Double).isFinite = true := by decide +kernel
  have him : ((⟨0, 0.01⟩ : Complex Double).im == 0) = false := by decide +kernel
  have hnorm : lt (⟨0, 0.01⟩ : Complex Double).norm 3 = true := by decide +kernel
  have hvalue : (erf (⟨0, 0.01⟩ : Complex Double)).isFinite = true := by decide +kernel
  exact ⟨⟨0, 0.01⟩, hfinite, him, by decide +kernel, hnorm,
    (erf_neg hfinite him fun _ => hnorm).2 hvalue⟩

/-! ### The ends of the imaginary axis -/

open Exact (finite zero_eq one_eq finite_add finite_sub finite_mul finite_neg finite_div finite_beq
  finite_lt ofNat_eq)

/-- A number on the imaginary axis. -/
noncomputable def axis (y : ℝ) : Complex Exact :=
  point ⟨0, y⟩

theorem realDiv_axis (r : ℝ) {y : ℝ} (hy : y ≠ 0) : realDiv (finite r) (axis y) = axis (-(r / y)) := by
  have hsquare : (0 : ℝ) * 0 + y * y ≠ 0 := by simpa using hy
  simp only [realDiv, normSq, axis, point, finite_mul, finite_add, zero_eq, finite_sub,
    finite_div _ hsquare]
  congr 2
  · simp
  · field_simp
    ring

theorem axis_add (y y' : ℝ) : axis y + axis y' = axis (y + y') := by
  simp [axis, point, add_def]

/-- At two opposite numbers the denominators of the continued fraction stay on the axis, on the same
sides as the numbers. -/
theorem erfcLevels_axis {s : ℝ} (hs : s * s = 1) {k : ℕ} (hk : k ≤ 80) {g : ℝ} (hg : 4 ≤ g) :
    ∃ g', 4 ≤ g' ∧ erfcLevels (axis (s * 20)) k (axis (s * g)) = axis (s * g') := by
  -- the numerators are at most 40, and so a denominator from 4 on gives the next one from 10 on
  induction k generalizing g with
  | zero => exact ⟨g, hg, rfl⟩
  | succ k ih =>
    have hs0 : s ≠ 0 := fun h => by simp [h] at hs
    have hg0 : g ≠ 0 := by linarith
    let r : ℝ := (k + 1 : ℕ) / 2
    have hnumerator : (ofNat (k + 1) / 2 : Exact) = finite r := by
      have htwo : (2 : Exact) = finite 2 := ofNat_eq 2
      rw [ofNat_eq, htwo, finite_div _ two_ne_zero]
    have hfraction : r / (s * g) = s * (r / g) := by
      rw [div_eq_iff (mul_ne_zero hs0 hg0)]
      calc
        r = (s * s) * (r / g * g) := by rw [hs, one_mul, div_mul_cancel₀ r hg0]
        _ = s * (r / g) * (s * g) := by ring
    have hlevel : axis (s * 20) + realDiv (ofNat (k + 1) / 2) (axis (s * g)) =
        axis (s * (20 - r / g)) := by
      rw [hnumerator, realDiv_axis r (mul_ne_zero hs0 hg0), axis_add, hfraction]
      congr 1
      ring
    have hr : r ≤ 40 := by
      have hcast : ((k + 1 : ℕ) : ℝ) ≤ 80 := by exact_mod_cast hk
      simp only [r]
      linarith
    have hbound : r / g ≤ 10 := by
      rw [div_le_iff₀ (by linarith)]
      linarith
    rw [erfcLevels, hlevel]
    exact ih (by omega) (by linarith)

theorem sqrt_pi_eq : RealArith.sqrt (RealArith.pi : Exact) = finite √Real.pi := by
  rw [pi_eq]
  exact if_neg Real.pi_pos.not_gt

theorem unscale_ofReal (r : ℝ) {d : ℝ} (hd : d ≠ 0) :
    (point (r : ℂ)).unscale (finite d) = point ((r / d : ℝ) : ℂ) := by
  simp [unscale, point, finite_div _ hd]

/-- A real number divided by one on the axis is on the axis. -/
theorem div_axis (r : ℝ) {y : ℝ} (hy : y ≠ 0) : point (r : ℂ) / axis y = axis (-(r / y)) := by
  have hne : (⟨0, y⟩ : ℂ) ≠ 0 := fun h => hy (congrArg (fun w : ℂ => w.im) h)
  unfold axis
  rw [point_div _ hne]
  congr 1
  refine eq_of_parts ?_ ?_
  · simp [Complex.div_re]
  · simp [Complex.div_im, Complex.normSq_apply]
    field_simp

/-- The continued fraction is imaginary at both numbers. -/
theorem erfcFraction_axis {s : ℝ} (hs : s * s = 1) :
    ∃ c, erfcFraction (axis (s * 20)) = axis c := by
  obtain ⟨g, hg, hlevels⟩ := erfcLevels_axis hs (le_refl 80) (show (4 : ℝ) ≤ 20 by norm_num)
  have hs0 : s ≠ 0 := fun h => by simp [h] at hs
  have hg0 : g ≠ 0 := by linarith
  have hexponent : (-(⟨0, s * 20⟩ : ℂ) * ⟨0, s * 20⟩ : ℂ) = (400 : ℝ) := by
    refine eq_of_parts ?_ ?_
    · simp
      linear_combination 400 * hs
    · simp
  have hexp : (-axis (s * 20) * axis (s * 20)).exp = point ((Real.exp 400 : ℝ) : ℂ) := by
    unfold axis
    rw [point_neg, point_mul, exp_point, hexponent, Complex.ofReal_exp]
  refine ⟨-(Real.exp 400 / √Real.pi / (s * g)), ?_⟩
  unfold erfcFraction erfcDepth
  rw [hexp, hlevels, sqrt_pi_eq, unscale_ofReal _ (Real.sqrt_pos.2 Real.pi_pos).ne',
    div_axis _ (mul_ne_zero hs0 hg0)]

/-- So the real part of the error function is one at both. -/
theorem erf_axis {s : ℝ} (hs : s * s = 1) :
    ∃ c, erf (axis (s * 20)) = ⟨finite 1, finite c⟩ := by
  obtain ⟨c, hc⟩ := erfcFraction_axis hs
  have hs0 : s ≠ 0 := fun h => by simp [h] at hs
  have him : ((axis (s * 20)).im == 0) = false := by simp [axis, point, hs0]
  have hlt : lt (axis (s * 20)).re 0 = false := by simp [axis, point]
  have hnorm : lt (axis (s * 20)).norm 3 = false := by
    have hthree : (3 : Exact) = finite 3 := ofNat_eq 3
    have hsquare : ‖(⟨0, s * 20⟩ : ℂ)‖ ^ 2 = 400 := by
      rw [Complex.sq_norm, Complex.normSq_apply]
      linear_combination 400 * hs
    have hle : 3 ≤ ‖(⟨0, s * 20⟩ : ℂ)‖ := by nlinarith [norm_nonneg (⟨0, s * 20⟩ : ℂ)]
    show lt (finite ‖(⟨0, s * 20⟩ : ℂ)‖) 3 = false
    rw [hthree, finite_lt]
    exact decide_eq_false (not_lt.2 hle)
  refine ⟨-c, ?_⟩
  have hone : (one : Complex Exact) - axis c = ⟨finite 1, finite (-c)⟩ := by
    simp [one, axis, point, sub_def]
  unfold erf erfRight
  simp only [him, hlt, hnorm, hc, hone, Bool.false_eq_true, if_false]

/-- The error function is not odd at the ends of the imaginary axis: its real part is one at `20i`
and at `-20i`. -/
theorem erf_neg_axis :
    (axis 20).isFinite = true ∧ ((axis 20).im == 0) = false ∧ (erf (axis 20)).isFinite = true ∧
      (erf (-axis 20)).isFinite = true ∧ (erf (-axis 20) == -erf (axis 20)) = false := by
  -- neither number is reflected, and so the same one is subtracted from on both ends
  obtain ⟨c, hc⟩ := erf_axis (s := 1) (by norm_num)
  obtain ⟨d, hd⟩ := erf_axis (s := -1) (by norm_num)
  have hneg : -axis 20 = axis (-1 * 20) := by
    simp [axis, point, neg_def]
  rw [one_mul] at hc
  rw [hneg, hc, hd]
  refine ⟨rfl, ?_, rfl, rfl, ?_⟩
  · simp [axis, point]
  · show (finite 1 == -finite 1 && finite d == -finite c) = false
    have hne : (1 : ℝ) ≠ -1 := by norm_num
    rw [finite_neg, finite_beq, decide_eq_false hne, Bool.false_and]

end Formulary.Complex

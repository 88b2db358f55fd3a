import Mathlib.Algebra.CharP.Algebra
import Mathlib.Algebra.DualNumber
import Mathlib.Algebra.MvPolynomial.Cardinal
import Mathlib.RingTheory.Derivation.Basic
import Mathlib.RingTheory.Localization.FractionRing
import Mathlib.RingTheory.MvPolynomial.Basic

/-!
# A field in which every element is a derivative

The rational functions in countably many variables are countable. So there are enough variables to
give each rational function to one of them as derivative, and logarithms can be chosen freely.

* `RationalFunction`: rational functions over the rational numbers.
* `slope`: the derivatives of the variables. Every rational function is among them.
* `withSlope`: a rational function together with its derivative, as a dual number.
* `formalDerivative`: the derivation that comes from these derivatives.
* **`exists_formalDerivative_eq`**: every element has an antiderivative.
-/

namespace Formulary

open MvPolynomial TrivSqZeroExt

noncomputable section

/-- Polynomials in countably many variables. -/
abbrev Polynomials : Type :=
  MvPolynomial ℕ ℤ

/-- Rational functions in countably many variables. -/
def RationalFunction : Type :=
  FractionRing Polynomials

namespace RationalFunction

instance : Field RationalFunction :=
  inferInstanceAs (Field (FractionRing Polynomials))

instance : Algebra Polynomials RationalFunction :=
  inferInstanceAs (Algebra Polynomials (FractionRing Polynomials))

instance : IsFractionRing Polynomials RationalFunction :=
  inferInstanceAs (IsFractionRing Polynomials (FractionRing Polynomials))

instance : CharZero RationalFunction :=
  charZero_of_injective_algebraMap (IsFractionRing.injective Polynomials RationalFunction)

instance : Countable RationalFunction := by
  have hpolynomials : Countable Polynomials := by
    rw [← Cardinal.mk_le_aleph0_iff]
    refine MvPolynomial.cardinalMk_le_max.trans ?_
    simp
  have hpair : Function.Surjective fun p : Polynomials × nonZeroDivisors Polynomials =>
      IsLocalization.mk' RationalFunction p.1 p.2 := by
    intro z
    obtain ⟨⟨p, q⟩, h⟩ := IsLocalization.mk'_surjective (nonZeroDivisors Polynomials) z
    exact ⟨(p, q), h⟩
  exact hpair.countable

/-! ### The derivation -/

/-- A list of all rational functions: the derivatives of the variables. -/
def slope : ℕ → RationalFunction :=
  Classical.choose (exists_surjective_nat RationalFunction)

theorem slope_surjective : Function.Surjective slope :=
  Classical.choose_spec (exists_surjective_nat RationalFunction)

/-- A polynomial together with its derivative. -/
def polynomialWithSlope : Polynomials →+* DualNumber RationalFunction :=
  eval₂Hom (Int.castRingHom _) fun n =>
    inl (algebraMap Polynomials RationalFunction (X n)) + inr (slope n)

theorem polynomialWithSlope_X (n : ℕ) :
    polynomialWithSlope (X n) =
      inl (algebraMap Polynomials RationalFunction (X n)) + inr (slope n) :=
  eval₂Hom_X' _ _ n

/-- Without the derivative the polynomial is left. -/
theorem fst_polynomialWithSlope (p : Polynomials) :
    (polynomialWithSlope p).fst = algebraMap _ RationalFunction p := by
  have h : (fstHom RationalFunction RationalFunction RationalFunction).toRingHom.comp
      polynomialWithSlope = algebraMap Polynomials RationalFunction := by
    refine MvPolynomial.ringHom_ext (fun k => ?_) fun n => ?_
    · simp
    · show (polynomialWithSlope (X n)).fst = _
      rw [polynomialWithSlope_X, fst_add, fst_inl, fst_inr, add_zero]
  exact DFunLike.congr_fun h p

theorem isUnit_polynomialWithSlope (p : nonZeroDivisors Polynomials) :
    IsUnit (polynomialWithSlope p.1) := by
  rw [isUnit_iff_isUnit_fst, fst_polynomialWithSlope, isUnit_iff_ne_zero]
  exact IsFractionRing.to_map_ne_zero_of_mem_nonZeroDivisors p.2

/-- A rational function together with its derivative. -/
def withSlope : RationalFunction →+* DualNumber RationalFunction :=
  IsLocalization.lift isUnit_polynomialWithSlope

theorem withSlope_polynomial (p : Polynomials) :
    withSlope (algebraMap _ _ p) = polynomialWithSlope p :=
  IsLocalization.lift_eq _ p

theorem fst_withSlope (z : RationalFunction) : (withSlope z).fst = z := by
  have h : (fstHom RationalFunction RationalFunction RationalFunction).toRingHom.comp withSlope =
      RingHom.id RationalFunction := by
    refine IsLocalization.ringHom_ext (nonZeroDivisors Polynomials) (RingHom.ext fun p => ?_)
    show (withSlope (algebraMap _ _ p)).fst = algebraMap _ _ p
    rw [withSlope_polynomial, fst_polynomialWithSlope]
  exact DFunLike.congr_fun h z

theorem snd_withSlope_mul (z w : RationalFunction) :
    (withSlope (z * w)).snd = z * (withSlope w).snd + w * (withSlope z).snd := by
  rw [map_mul, snd_mul, fst_withSlope, fst_withSlope, smul_eq_mul, op_smul_eq_smul, smul_eq_mul]

/-- The derivation in which every variable has the derivative that the list gives it. -/
def formalDerivative : Derivation ℤ RationalFunction RationalFunction :=
  Derivation.mk' ((sndHom RationalFunction RationalFunction).toAddMonoidHom.comp
    withSlope.toAddMonoidHom).toIntLinearMap snd_withSlope_mul

theorem formalDerivative_apply (z : RationalFunction) : formalDerivative z = (withSlope z).snd :=
  rfl

/-- Every element has an antiderivative. -/
theorem exists_formalDerivative_eq (z : RationalFunction) : ∃ w, formalDerivative w = z := by
  obtain ⟨n, rfl⟩ := slope_surjective z
  refine ⟨algebraMap _ _ (X n : Polynomials), ?_⟩
  rw [formalDerivative_apply, withSlope_polynomial, polynomialWithSlope_X, snd_add, snd_inl,
    snd_inr, zero_add]

end RationalFunction

end

end Formulary

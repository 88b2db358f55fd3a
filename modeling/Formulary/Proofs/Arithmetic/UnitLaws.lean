import Formulary.Proofs.Arithmetic.FieldLaws
import Formulary.Proofs.Arithmetic.SymmetryLaws
import Formulary.Proofs.Arithmetic.ZeroLaws
import Formulary.Proofs.Binary64.Exactness

/-!
# Machine numbers have the laws of the operators

Sums and products of machine numbers are neither associative nor distributive. Yet the laws of the
operators ask for neither. They ask what zero, one, minus one and signs do in an operation, and there
nothing is rounded that is not rounded alike on both sides.

* `UnitLaws R`: sums, products and quotients with zero and one, and the order of two operands.
* The instance for `Double`: machine numbers obey them.
* `Complex.IsKept`: finite numbers without negative zero, the form in which values are kept.
* `Complex.one_mul_same`, `Complex.div_neg_same` and others: the same for complex numbers.
* **`Complex.isKept_operatorLaws`**: kept numbers have the laws of the operators.
-/

namespace Formulary

open RealArith

universe u

/-- The laws of zero and one in sums, products and quotients. -/
class UnitLaws (R : Type u) [RealArith R] : Prop extends ZeroLaws R, SymmetryLaws R where
  same_of_beq {a b : R} (h : (a == b) = true) : SameNumber a b
  /-- There is one zero in kept form. -/
  kept_eq {a b : R} (h : SameNumber a b) (hf : RealArith.isFinite a = true) : a + 0 = b + 0
  add_comm (a b : R) : SameNumber (a + b) (b + a)
  mul_comm (a b : R) : SameNumber (a * b) (b * a)
  mul_one (a : R) : SameNumber (a * 1) a
  mul_zero (a : R) (hf : RealArith.isFinite a = true) : SameNumber (a * 0) 0
  div_one (a : R) : SameNumber (a / 1) a
  add_self (a : R) : SameNumber (a + a) (2 * a)
  sub_self (a : R) (hf : RealArith.isFinite a = true) : SameNumber (a - a) 0
  /-- A square does not know the sign, not even that of a zero. -/
  mul_self_eq {a b : R} (h : SameNumber a (-b)) (hf : RealArith.isFinite b = true) : a * a = b * b
  one_mul_one_add : (1 * 1 + 0 * 0 : R) = 1

/-! ### Machine numbers -/

namespace Double

open Float.Model Binary64

theorem plusZero_of_alike {u v : UnpackedFloat} (h : Alike u v) : plusZero u = plusZero v := by
  cases h with
  | refl => rfl
  | zero => rfl

/-- Finite doubles that stand for the same number are equal. -/
theorem eq_of_view {a b : Double} (hf : RealArith.isFinite a = true) (h : view a = view b) :
    a = b := by
  obtain ⟨x, rfl, hx⟩ := exists_of_isFinite hf
  have hb : RealArith.isFinite b = true := by
    rw [isFinite_view, ← h, ← isFinite_view]
    exact hf
  obtain ⟨y, rfl, hy⟩ := exists_of_isFinite hb
  exact congrArg defined (unpacked_injective h)

end Double

open Double Binary64 in
/-- Machine numbers obey the laws of zero and one. -/
instance : UnitLaws Double where
  same_of_beq h := by
    rw [beq_view] at h
    exact same_iff_alike.2 (Alike.of_beq h)
  kept_eq {a b} h hf := by
    have hkept : RealArith.isFinite (a + 0) = true := (SignLaws.isFinite_add_zero a).trans hf
    refine eq_of_view hkept ?_
    rw [view_add_zero, view_add_zero, plusZero_of_alike (same_iff_alike.1 h)]
  add_comm a b := by
    rw [same_iff_alike, view_add, view_add, unpacked_add_comm]
    exact .refl _
  mul_comm a b := by
    rw [same_iff_alike, view_mul, view_mul, unpacked_mul_comm]
    exact .refl _
  mul_one a := by
    rw [same_iff_alike, view_mul_one]
    exact .refl _
  mul_zero a hf := by
    rw [isFinite_view] at hf
    rw [same_iff_alike, view_mul]
    exact (alike_mul_zero hf .positive).stored
  div_one a := by
    rw [same_iff_alike, view_div_one]
    exact .refl _
  add_self a := by
    rw [same_iff_alike, view_add_self]
    exact .refl _
  sub_self a hf := by
    rw [isFinite_view] at hf
    rw [same_iff_alike, view_sub]
    exact (alike_sub_self hf).stored
  mul_self_eq {a b} h hf := by
    have hview := same_iff_alike.1 h
    rw [view_neg] at hview
    obtain ⟨y, rfl, hy⟩ := exists_of_isFinite hf
    have ha : RealArith.isFinite a = true := by
      rw [isFinite_view, hview.isFinite_eq, ← view_neg, ← isFinite_view, SignLaws.isFinite_neg]
      exact hf
    obtain ⟨x, rfl, hx⟩ := exists_of_isFinite ha
    have hsquare : x * x = y * y := congrArg packed (hview.mul_self_eq)
    show ofFloat (x * x) = ofFloat (y * y)
    rw [hsquare]
  one_mul_one_add := rfl

/-! ### Real numbers -/

variable {R : Type u} [RealArith R] [UnitLaws R]

theorem add_zero_same (a : R) : SameNumber (a + 0) a :=
  SignLaws.add_zero_beq a

theorem neg_zero_same : SameNumber (-0 : R) 0 := fun c => by
  rw [SymmetryLaws.beq_comm, SignLaws.beq_neg_zero, SymmetryLaws.beq_comm]

theorem sub_zero_same (a : R) : SameNumber (a - 0) a :=
  calc
    SameNumber (a - 0) (a + -0) := SymmetryLaws.sub_same a 0
    SameNumber _ (a + 0) := SymmetryLaws.add_congr (.refl a) neg_zero_same
    SameNumber _ a := add_zero_same a

theorem zero_mul_same {a : R} (hf : RealArith.isFinite a = true) : SameNumber (0 * a) 0 :=
  (UnitLaws.mul_comm 0 a).trans (UnitLaws.mul_zero a hf)

theorem one_mul_same (a : R) : SameNumber (1 * a) a :=
  (UnitLaws.mul_comm 1 a).trans (UnitLaws.mul_one a)

/-! ### Complex numbers -/

namespace Complex

variable {z z' w : Complex R}

/-- The number is finite and no part of it is a zero with a minus sign. -/
structure IsKept (z : Complex R) : Prop where
  isFinite : z.isFinite = true
  noMinusZero : z.noMinusZero = true

theorem normalize_same (z : Complex R) : SameNumber z.normalize z :=
  ⟨add_zero_same z.re, add_zero_same z.im⟩

theorem isFinite_normalize_eq (z : Complex R) : z.normalize.isFinite = z.isFinite := by
  show (RealArith.isFinite (z.re + 0) && RealArith.isFinite (z.im + 0)) = _
  rw [SignLaws.isFinite_add_zero, SignLaws.isFinite_add_zero]
  rfl

theorem isFinite_neg (h : z.isFinite = true) : (-z).isFinite = true := by
  obtain ⟨hre, him⟩ := isFinite_iff.1 h
  exact isFinite_iff.2 ⟨(SignLaws.isFinite_neg _).trans hre, (SignLaws.isFinite_neg _).trans him⟩

theorem isKept_normalize (h : z.isFinite = true) : z.normalize.IsKept :=
  ⟨isFinite_normalize h, noMinusZero_normalize z⟩

theorem IsKept.normalize_eq (h : z.IsKept) : z.normalize = z := by
  obtain ⟨hre, him⟩ := isFinite_iff.1 h.isFinite
  obtain ⟨hre', him'⟩ := noMinusZero_iff.1 h.noMinusZero
  exact Complex.ext (ZeroLaws.add_zero _ hre hre') (ZeroLaws.add_zero _ him him')

/-- What is the same number as a finite one is kept like it. -/
theorem normalize_eq_of_same (h : SameNumber z w) (hw : w.isFinite = true) :
    z.normalize = w.normalize := by
  obtain ⟨hre, him⟩ := isFinite_iff.1 hw
  exact Complex.ext (UnitLaws.kept_eq h.re.symm hre).symm (UnitLaws.kept_eq h.im.symm him).symm

/-- What is the same number as a result in kept form is kept like it. -/
theorem normalize_eq_of_kept (h : SameNumber z w) (hw : w.normalize.IsKept) :
    z.normalize = w.normalize :=
  normalize_eq_of_same h ((isFinite_normalize_eq w).symm.trans hw.isFinite)

theorem normalize_eq_self (h : SameNumber z w) (hw : w.IsKept) : z.normalize = w :=
  (normalize_eq_of_same h hw.isFinite).trans hw.normalize_eq

/-! #### Operations -/

theorem add_comm_same (z w : Complex R) : SameNumber (z + w) (w + z) :=
  ⟨UnitLaws.add_comm _ _, UnitLaws.add_comm _ _⟩

theorem mul_comm_same (z w : Complex R) : SameNumber (z * w) (w * z) where
  re := sub_congr (UnitLaws.mul_comm _ _) (UnitLaws.mul_comm _ _)
  im :=
    calc
      Formulary.SameNumber (z.re * w.im + z.im * w.re) (w.im * z.re + w.re * z.im) :=
        SymmetryLaws.add_congr (UnitLaws.mul_comm _ _) (UnitLaws.mul_comm _ _)
      Formulary.SameNumber _ (w.re * z.im + w.im * z.re) := UnitLaws.add_comm _ _

theorem sub_same (z w : Complex R) : SameNumber (z - w) (z + -w) :=
  ⟨SymmetryLaws.sub_same _ _, SymmetryLaws.sub_same _ _⟩

/-- A real number multiplies both parts. -/
theorem ofReal_mul_same (r : R) (hz : z.isFinite = true) :
    SameNumber (ofReal r * z) ⟨r * z.re, r * z.im⟩ := by
  obtain ⟨hre, him⟩ := isFinite_iff.1 hz
  constructor
  · calc
      Formulary.SameNumber (r * z.re - 0 * z.im) (r * z.re - 0) :=
        sub_congr (.refl _) (zero_mul_same him)
      Formulary.SameNumber _ (r * z.re) := sub_zero_same _
  · calc
      Formulary.SameNumber (r * z.im + 0 * z.re) (r * z.im + 0) :=
        SymmetryLaws.add_congr (.refl _) (zero_mul_same hre)
      Formulary.SameNumber _ (r * z.im) := add_zero_same _

theorem one_mul_same (hz : z.isFinite = true) : SameNumber (ofReal 1 * z) z :=
  (ofReal_mul_same 1 hz).trans ⟨Formulary.one_mul_same _, Formulary.one_mul_same _⟩

theorem zero_mul_same (hz : z.isFinite = true) : SameNumber (ofReal 0 * z) (ofReal 0) := by
  obtain ⟨hre, him⟩ := isFinite_iff.1 hz
  exact (ofReal_mul_same 0 hz).trans ⟨Formulary.zero_mul_same hre, Formulary.zero_mul_same him⟩

theorem add_self_same (hz : z.isFinite = true) : SameNumber (ofReal 2 * z) (z + z) :=
  (ofReal_mul_same 2 hz).trans ⟨(UnitLaws.add_self _).symm, (UnitLaws.add_self _).symm⟩

theorem sub_self_same (hz : z.isFinite = true) : SameNumber (z - z) (ofReal 0) := by
  obtain ⟨hre, him⟩ := isFinite_iff.1 hz
  exact ⟨UnitLaws.sub_self _ hre, UnitLaws.sub_self _ him⟩

theorem zero_add_same (z : Complex R) : SameNumber (ofReal 0 + z) z :=
  (add_comm_same _ z).trans ⟨add_zero_same _, add_zero_same _⟩

theorem zero_sub_same (z : Complex R) : SameNumber (ofReal 0 - z) (-z) :=
  (sub_same _ z).trans (zero_add_same (-z))

theorem normSq_one : (ofReal 1 : Complex R).normSq = 1 :=
  UnitLaws.one_mul_one_add

theorem div_one_same (hz : z.isFinite = true) : SameNumber (z / ofReal 1) z := by
  obtain ⟨hre, him⟩ := isFinite_iff.1 hz
  rw [div_def, normSq_one]
  constructor
  · calc
      Formulary.SameNumber ((z.re * 1 + z.im * 0) / 1) (z.re * 1 + z.im * 0) := UnitLaws.div_one _
      Formulary.SameNumber _ (z.re + 0) :=
        SymmetryLaws.add_congr (UnitLaws.mul_one _) (UnitLaws.mul_zero _ him)
      Formulary.SameNumber _ z.re := add_zero_same _
  · calc
      Formulary.SameNumber ((z.im * 1 - z.re * 0) / 1) (z.im * 1 - z.re * 0) := UnitLaws.div_one _
      Formulary.SameNumber _ (z.im - 0) := sub_congr (UnitLaws.mul_one _) (UnitLaws.mul_zero _ hre)
      Formulary.SameNumber _ z.im := sub_zero_same _

theorem neg_div_same (z w : Complex R) : SameNumber (-z / w) (-(z / w)) where
  re :=
    calc
      Formulary.SameNumber ((-z.re * w.re + -z.im * w.im) / w.normSq)
          (-(z.re * w.re + z.im * w.im) / w.normSq) :=
        SymmetryLaws.div_congr ((SymmetryLaws.add_congr (SymmetryLaws.neg_mul _ _)
          (SymmetryLaws.neg_mul _ _)).trans (SymmetryLaws.neg_add _ _)) _
      Formulary.SameNumber _ (-((z.re * w.re + z.im * w.im) / w.normSq)) :=
        SymmetryLaws.neg_div _ _
  im :=
    calc
      Formulary.SameNumber ((-z.im * w.re - -z.re * w.im) / w.normSq)
          (-(z.im * w.re - z.re * w.im) / w.normSq) :=
        SymmetryLaws.div_congr ((sub_congr (SymmetryLaws.neg_mul _ _)
          (SymmetryLaws.neg_mul _ _)).trans (neg_sub_same _ _)) _
      Formulary.SameNumber _ (-((z.im * w.re - z.re * w.im) / w.normSq)) :=
        SymmetryLaws.neg_div _ _

theorem SameNumber.div_left (h : SameNumber z z') (w : Complex R) : SameNumber (z / w) (z' / w) where
  re := SymmetryLaws.div_congr (SymmetryLaws.add_congr (SymmetryLaws.mul_congr h.re (.refl _))
    (SymmetryLaws.mul_congr h.im (.refl _))) _
  im := SymmetryLaws.div_congr (sub_congr (SymmetryLaws.mul_congr h.im (.refl _))
    (SymmetryLaws.mul_congr h.re (.refl _))) _

theorem normSq_eq_of_same (h : SameNumber z (-w)) (hw : w.isFinite = true) :
    z.normSq = w.normSq := by
  obtain ⟨hre, him⟩ := isFinite_iff.1 hw
  unfold normSq
  rw [UnitLaws.mul_self_eq h.re hre, UnitLaws.mul_self_eq h.im him]

/-- A divisor with the other sign gives the quotient with the other sign. The sign of a zero in it
does not show: all that is divided by is the square of its length. -/
theorem div_neg_same (z : Complex R) (h : SameNumber z' (-w)) (hw : w.isFinite = true) :
    SameNumber (z / z') (-(z / w)) := by
  have hmul {r t t' : R} (h : Formulary.SameNumber t (-t')) :
      Formulary.SameNumber (r * t) (-(r * t')) :=
    (SymmetryLaws.mul_congr (.refl r) h).trans (SymmetryLaws.mul_neg r t')
  rw [div_def, normSq_eq_of_same h hw]
  constructor
  · calc
      Formulary.SameNumber ((z.re * z'.re + z.im * z'.im) / w.normSq)
          (-(z.re * w.re + z.im * w.im) / w.normSq) :=
        SymmetryLaws.div_congr ((SymmetryLaws.add_congr (hmul h.re) (hmul h.im)).trans
          (SymmetryLaws.neg_add _ _)) _
      Formulary.SameNumber _ (-((z.re * w.re + z.im * w.im) / w.normSq)) :=
        SymmetryLaws.neg_div _ _
  · calc
      Formulary.SameNumber ((z.im * z'.re - z.re * z'.im) / w.normSq)
          (-(z.im * w.re - z.re * w.im) / w.normSq) :=
        SymmetryLaws.div_congr ((sub_congr (hmul h.re) (hmul h.im)).trans (neg_sub_same _ _)) _
      Formulary.SameNumber _ (-((z.im * w.re - z.re * w.im) / w.normSq)) :=
        SymmetryLaws.neg_div _ _

/-! #### The laws of the operators -/

theorem isKept_ofNat {n : Nat} (h : n ≤ 10) : (Arith.ofNat n : Complex R).IsKept where
  isFinite := isFinite_iff.2 ⟨SignLaws.isFinite_ofNat n h, SignLaws.isFinite_ofNat 0 (by omega)⟩
  noMinusZero := noMinusZero_iff.2 ⟨ZeroLaws.isMinusZero_ofDecimal _, ZeroLaws.isMinusZero_ofDecimal _⟩

theorem opposite_same (z : Complex R) : SameNumber (Arith.normalize (-z)) (-z) :=
  normalize_same (-z)

/-- Kept numbers have the laws of the operators, however sums and products are rounded. -/
theorem isKept_operatorLaws : OperatorLawsOn fun z : Complex R => z.IsKept where
  normalize_eq ha := ha.normalize_eq
  eq_of_beq {a b} ha h := by
    obtain ⟨hre, him⟩ := Bool.and_eq_true_iff.1 h
    have hsame : SameNumber b a := ⟨(UnitLaws.same_of_beq hre).symm, (UnitLaws.same_of_beq him).symm⟩
    exact (normalize_eq_self hsame ha).symm
  zero_beq := Bool.and_eq_true_iff.2 ⟨SignLaws.beq_self _ (SignLaws.isFinite_ofNat 0 (by omega)),
    SignLaws.beq_self _ (SignLaws.isFinite_ofNat 0 (by omega))⟩
  whole h := isKept_ofNat h
  neg ha := isKept_normalize (isFinite_neg ha.isFinite)
  add_comm _ _ hr := normalize_eq_of_kept (add_comm_same _ _) hr
  mul_comm _ _ hr := normalize_eq_of_kept (mul_comm_same _ _) hr
  zero_add ha := normalize_eq_self (zero_add_same _) ha
  one_mul ha := normalize_eq_self (one_mul_same ha.isFinite) ha
  zero_mul ha := normalize_eq_self (zero_mul_same ha.isFinite) (isKept_ofNat (by omega))
  minusOne_mul {a} ha := by
    refine normalize_eq_of_same ?_ (isFinite_neg ha.isFinite)
    calc
      SameNumber (Arith.normalize (-ofReal 1) * a) (-ofReal 1 * a) :=
        (opposite_same _).mul (.refl a)
      SameNumber _ (-(ofReal 1 * a)) := neg_mul_same _ _
      SameNumber _ (-a) := (one_mul_same ha.isFinite).neg
  div_one ha := normalize_eq_self (div_one_same ha.isFinite) ha
  div_minusOne {a} ha := by
    refine normalize_eq_of_same ?_ (isFinite_neg ha.isFinite)
    exact (div_neg_same a (opposite_same _) (isKept_ofNat (n := 1) (by omega)).isFinite).trans
      (div_one_same ha.isFinite).neg
  add_self ha hr := normalize_eq_of_kept (add_self_same ha.isFinite) hr
  sub_self ha := normalize_eq_self (sub_self_same ha.isFinite) (isKept_ofNat (by omega))
  zero_sub ha := normalize_eq_of_same (zero_sub_same _) (isFinite_neg ha.isFinite)
  add_neg {a b} _ _ hr := by
    refine normalize_eq_of_kept ?_ hr
    exact ((SameNumber.refl a).add (opposite_same b)).trans (sub_same a b).symm
  sub_neg {a b} _ _ hr := by
    refine normalize_eq_of_kept ?_ hr
    calc
      SameNumber (a - Arith.normalize (-b)) (a + -Arith.normalize (-b)) := sub_same _ _
      SameNumber _ (a + -(-b)) := (SameNumber.refl a).add (opposite_same b).neg
      SameNumber _ (a + b) := .of_eq (by rw [Complex.neg_neg])
  neg_neg {a} ha := by
    refine normalize_eq_self ?_ ha
    exact (opposite_same a).neg.trans (.of_eq (Complex.neg_neg a))
  neg_mul {a b} _ _ hr := by
    refine normalize_eq_of_same ?_ (isFinite_neg hr.isFinite)
    calc
      SameNumber (Arith.normalize (-a) * b) (-a * b) := (opposite_same a).mul (.refl b)
      SameNumber _ (-(a * b)) := neg_mul_same _ _
      SameNumber _ (-Arith.normalize (a * b)) := (normalize_same (a * b)).symm.neg
  neg_div {a b} _ _ _ hr := by
    refine normalize_eq_of_same ?_ (isFinite_neg hr.isFinite)
    calc
      SameNumber (Arith.normalize (-a) / b) (-a / b) := (opposite_same a).div_left b
      SameNumber _ (-(a / b)) := neg_div_same _ _
      SameNumber _ (-Arith.normalize (a / b)) := (normalize_same (a / b)).symm.neg
  div_neg {a b} _ hb _ hr := by
    refine normalize_eq_of_same ?_ (isFinite_neg hr.isFinite)
    exact (div_neg_same a (opposite_same b) hb.isFinite).trans (normalize_same (a / b)).symm.neg

end Complex

end Formulary

import Formulary.Proofs.Binary64.Symmetry

/-!
# Signs of sums, products and lengths

What an arithmetic does with the signs of operands: a result is rounded like the one with the other
sign. It need not keep the sign of a zero, and does not show it in any other number but in quotients
by it.

* `SameNumber a b`: the two numbers equal the same numbers. They are one number but for the sign of a
  zero, or both undefined.
* `SymmetryLaws R`: the laws.
* `same_iff_alike` and the instance for `Double`: machine numbers obey them, infinities and undefined
  numbers included.
* `Complex.SameNumber` with `add`, `mul`, `unscale` and others: the same for both parts.
* `Complex.neg_mul_same`, `Complex.mul_neg_same`, `Complex.neg_unscale_same`: complex numbers with
  other signs.
-/

namespace Formulary

open RealArith

universe u

/-- The two numbers equal the same numbers. -/
def SameNumber {R : Type u} [RealArith R] (a b : R) : Prop :=
  ∀ c, (a == c) = (b == c)

namespace SameNumber

variable {R : Type u} [RealArith R] {a b c : R}

theorem refl (a : R) : SameNumber a a :=
  fun _ => rfl

theorem symm (h : SameNumber a b) : SameNumber b a :=
  fun c => (h c).symm

theorem trans (h : SameNumber a b) (h' : SameNumber b c) : SameNumber a c :=
  fun d => (h d).trans (h' d)

instance : Trans (SameNumber (R := R)) SameNumber SameNumber :=
  ⟨trans⟩

end SameNumber

/-- The laws of signs in sums, products, quotients and lengths. -/
class SymmetryLaws (R : Type u) [RealArith R] : Prop extends SignLaws R where
  beq_comm (a b : R) : (a == b) = (b == a)
  /-- A finite number that is neither below zero nor equal to it is above it. -/
  zero_lt (a : R) (h : RealArith.isFinite a = true) (hlt : lt a 0 = false)
    (hne : (a == 0) = false) : lt 0 a = true
  lt_congr {a a' b b' : R} (h : SameNumber a a') (h' : SameNumber b b') : lt a b = lt a' b'
  add_congr {a a' b b' : R} (h : SameNumber a a') (h' : SameNumber b b') :
    SameNumber (a + b) (a' + b')
  mul_congr {a a' b b' : R} (h : SameNumber a a') (h' : SameNumber b b') :
    SameNumber (a * b) (a' * b')
  /-- In a divisor the sign of a zero shows. -/
  div_congr {a a' : R} (h : SameNumber a a') (b : R) : SameNumber (a / b) (a' / b)
  hypot_congr {a a' b b' : R} (h : SameNumber a a') (h' : SameNumber b b') :
    SameNumber (hypot a b) (hypot a' b')
  sub_same (a b : R) : SameNumber (a - b) (a + -b)
  neg_add (a b : R) : SameNumber (-a + -b) (-(a + b))
  neg_mul (a b : R) : SameNumber (-a * b) (-(a * b))
  mul_neg (a b : R) : SameNumber (a * -b) (-(a * b))
  neg_div (a b : R) : SameNumber (-a / b) (-(a / b))
  hypot_neg (a b : R) : SameNumber (hypot (-a) (-b)) (hypot a b)

/-! ### Machine numbers -/

namespace Double

open Float.Model Binary64

/-- Doubles equal the same doubles if their numbers are alike. -/
theorem same_iff_alike {a b : Double} : SameNumber a b ↔ Alike (view a) (view b) := by
  constructor
  · intro h
    cases hnan : (view a).isNaN with
    | true =>
      have hb := h b
      rw [beq_view, beq_view] at hb
      have hview : view a = .notANumber := by
        cases hview : view a with
        | notANumber => rfl
        | _ =>
          rw [hview] at hnan
          cases hnan
      rw [hview] at hb ⊢
      -- the number `b` does not equal itself
      cases hview' : view b with
      | notANumber => exact .refl _
      | _ =>
        rw [hview', unpacked_beq_self_of_not_isNaN rfl] at hb
        exact absurd hb Bool.false_ne_true
    | false =>
      have hself := h a
      rw [beq_view, beq_view, unpacked_beq_self_of_not_isNaN hnan] at hself
      exact (Alike.of_beq hself.symm).symm
  · intro h c
    rw [beq_view, beq_view]
    unfold UnpackedFloat.beq
    rw [h.compare_left]

end Double

open Double Binary64 in
/-- Machine numbers obey the laws of symmetry. -/
instance : SymmetryLaws Double where
  beq_comm a b := by rw [beq_view, beq_view, unpacked_beq_comm]
  zero_lt a h hlt hne := by
    rw [isFinite_view] at h
    rw [lt_view] at hlt ⊢
    rw [beq_view] at hne
    exact unpacked_zero_lt h hlt hne
  lt_congr h h' := by
    rw [same_iff_alike] at h h'
    rw [lt_view, lt_view]
    unfold Float.Model.UnpackedFloat.lt
    rw [h.compare_left, h'.compare_right]
  add_congr h h' := by
    rw [same_iff_alike] at h h' ⊢
    rw [view_add, view_add]
    exact (h.add _ h').stored
  mul_congr h h' := by
    rw [same_iff_alike] at h h' ⊢
    rw [view_mul, view_mul]
    exact (h.mul _ h').stored
  div_congr h b := by
    rw [same_iff_alike] at h ⊢
    rw [view_div, view_div]
    exact (h.div _ (view b)).stored
  hypot_congr {a a' b b'} h h' := by
    rw [same_iff_alike] at h h' ⊢
    show Alike (view (Double.hypot a b)) (view (Double.hypot a' b'))
    rw [view_hypot, view_hypot, h.lengthOf_eq h']
    exact .refl _
  sub_same a b := by
    rw [same_iff_alike, view_sub, view_add, view_neg, sub_eq_add_neg]
    exact .refl _
  neg_add a b := by
    rw [same_iff_alike, view_add, view_neg, view_neg, view_neg, view_add, ← stored_neg]
    exact (add_neg _ _ _).stored
  neg_mul a b := by
    rw [same_iff_alike, view_mul, view_neg, view_neg, view_mul, ← stored_neg, mul_neg_left]
    exact .refl _
  mul_neg a b := by
    rw [same_iff_alike, view_mul, view_neg, view_neg, view_mul, ← stored_neg, unpacked_mul_comm,
      mul_neg_left, unpacked_mul_comm]
    exact .refl _
  neg_div a b := by
    rw [same_iff_alike, view_div, view_neg, view_neg, view_div, ← stored_neg, div_neg_left]
    exact .refl _
  hypot_neg a b := by
    rw [same_iff_alike]
    show Alike (view (Double.hypot (-a) (-b))) (view (Double.hypot a b))
    rw [view_hypot, view_hypot, view_neg, view_neg, lengthOf_neg]
    exact .refl _

/-! ### Real numbers -/

variable {R : Type u} [RealArith R] [SymmetryLaws R]

section Real

variable {a a' b b' : R}

theorem neg_congr (h : SameNumber a a') : SameNumber (-a) (-a') := fun c => by
  rw [SignLaws.neg_beq, SignLaws.neg_beq, h (-c)]

theorem sub_congr (h : SameNumber a a') (h' : SameNumber b b') : SameNumber (a - b) (a' - b') :=
  calc
    SameNumber (a - b) (a + -b) := SymmetryLaws.sub_same a b
    SameNumber _ (a' + -b') := SymmetryLaws.add_congr h (neg_congr h')
    SameNumber _ (a' - b') := (SymmetryLaws.sub_same a' b').symm

theorem neg_sub_same (a b : R) : SameNumber (-a - -b) (-(a - b)) :=
  calc
    SameNumber (-a - -b) (-a + -(-b)) := SymmetryLaws.sub_same _ _
    SameNumber _ (-(a + -b)) := SymmetryLaws.neg_add _ _
    SameNumber _ (-(a - b)) := neg_congr (SymmetryLaws.sub_same a b).symm

theorem beq_congr (h : SameNumber a a') (h' : SameNumber b b') : (a == b) = (a' == b') := by
  rw [h b, SymmetryLaws.beq_comm, h' a', SymmetryLaws.beq_comm]

theorem le_congr (h : SameNumber a a') (h' : SameNumber b b') : le a b = le a' b' := by
  unfold le
  rw [SymmetryLaws.lt_congr h h', beq_congr h h']

end Real

/-! ### Complex numbers -/

namespace Complex

/-- Both parts equal the same numbers. -/
structure SameNumber (z w : Complex R) : Prop where
  re : Formulary.SameNumber z.re w.re
  im : Formulary.SameNumber z.im w.im

namespace SameNumber

variable {z z' w w' u : Complex R}

omit [SymmetryLaws R]

theorem refl (z : Complex R) : SameNumber z z :=
  ⟨.refl _, .refl _⟩

theorem of_eq (h : z = w) : SameNumber z w :=
  h ▸ .refl z

theorem symm (h : SameNumber z w) : SameNumber w z :=
  ⟨h.re.symm, h.im.symm⟩

theorem trans (h : SameNumber z w) (h' : SameNumber w u) : SameNumber z u :=
  ⟨h.re.trans h'.re, h.im.trans h'.im⟩

instance : Trans (SameNumber (R := R)) SameNumber SameNumber :=
  ⟨trans⟩

theorem beq_eq (h : SameNumber z w) (c : Complex R) : (z == c) = (w == c) := by
  show (z.re == c.re && z.im == c.im) = (w.re == c.re && w.im == c.im)
  rw [h.re, h.im]

end SameNumber

namespace SameNumber

variable {z z' w w' : Complex R}

theorem neg (h : SameNumber z z') : SameNumber (-z) (-z') :=
  ⟨neg_congr h.re, neg_congr h.im⟩

theorem add (h : SameNumber z z') (h' : SameNumber w w') : SameNumber (z + w) (z' + w') :=
  ⟨SymmetryLaws.add_congr h.re h'.re, SymmetryLaws.add_congr h.im h'.im⟩

theorem mul (h : SameNumber z z') (h' : SameNumber w w') : SameNumber (z * w) (z' * w') :=
  ⟨sub_congr (SymmetryLaws.mul_congr h.re h'.re) (SymmetryLaws.mul_congr h.im h'.im),
    SymmetryLaws.add_congr (SymmetryLaws.mul_congr h.re h'.im) (SymmetryLaws.mul_congr h.im h'.re)⟩

theorem unscale (h : SameNumber z z') (r : R) : SameNumber (z.unscale r) (z'.unscale r) :=
  ⟨SymmetryLaws.div_congr h.re r, SymmetryLaws.div_congr h.im r⟩

theorem scale (h : SameNumber z z') (r : R) : SameNumber (z.scale r) (z'.scale r) :=
  ⟨SymmetryLaws.mul_congr h.re (.refl r), SymmetryLaws.mul_congr h.im (.refl r)⟩

theorem norm (h : SameNumber z z') : Formulary.SameNumber z.norm z'.norm :=
  SymmetryLaws.hypot_congr h.re h.im

end SameNumber

protected theorem neg_neg (z : Complex R) : -(-z) = z :=
  Complex.ext (SignLaws.neg_neg z.re) (SignLaws.neg_neg z.im)

theorem neg_add_same (z w : Complex R) : SameNumber (-z + -w) (-(z + w)) :=
  ⟨SymmetryLaws.neg_add _ _, SymmetryLaws.neg_add _ _⟩

theorem neg_mul_same (z w : Complex R) : SameNumber (-z * w) (-(z * w)) where
  re :=
    calc
      Formulary.SameNumber (-z.re * w.re - -z.im * w.im) (-(z.re * w.re) - -(z.im * w.im)) :=
        sub_congr (SymmetryLaws.neg_mul _ _) (SymmetryLaws.neg_mul _ _)
      Formulary.SameNumber _ (-(z.re * w.re - z.im * w.im)) := neg_sub_same _ _
  im :=
    calc
      Formulary.SameNumber (-z.re * w.im + -z.im * w.re) (-(z.re * w.im) + -(z.im * w.re)) :=
        SymmetryLaws.add_congr (SymmetryLaws.neg_mul _ _) (SymmetryLaws.neg_mul _ _)
      Formulary.SameNumber _ (-(z.re * w.im + z.im * w.re)) := SymmetryLaws.neg_add _ _

theorem mul_neg_same (z w : Complex R) : SameNumber (z * -w) (-(z * w)) where
  re :=
    calc
      Formulary.SameNumber (z.re * -w.re - z.im * -w.im) (-(z.re * w.re) - -(z.im * w.im)) :=
        sub_congr (SymmetryLaws.mul_neg _ _) (SymmetryLaws.mul_neg _ _)
      Formulary.SameNumber _ (-(z.re * w.re - z.im * w.im)) := neg_sub_same _ _
  im :=
    calc
      Formulary.SameNumber (z.re * -w.im + z.im * -w.re) (-(z.re * w.im) + -(z.im * w.re)) :=
        SymmetryLaws.add_congr (SymmetryLaws.mul_neg _ _) (SymmetryLaws.mul_neg _ _)
      Formulary.SameNumber _ (-(z.re * w.im + z.im * w.re)) := SymmetryLaws.neg_add _ _

theorem neg_unscale_same (z : Complex R) (r : R) : SameNumber ((-z).unscale r) (-z.unscale r) :=
  ⟨SymmetryLaws.neg_div _ _, SymmetryLaws.neg_div _ _⟩

theorem neg_scale_same (z : Complex R) (r : R) : SameNumber ((-z).scale r) (-z.scale r) :=
  ⟨SymmetryLaws.neg_mul _ _, SymmetryLaws.neg_mul _ _⟩

theorem norm_neg_same (z : Complex R) : Formulary.SameNumber (-z).norm z.norm :=
  SymmetryLaws.hypot_neg _ _

end Complex

end Formulary

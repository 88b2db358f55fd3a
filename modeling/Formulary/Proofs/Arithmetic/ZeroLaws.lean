import Formulary.Proofs.Arithmetic.SignLaws
import Formulary.Proofs.Binary64.Sign

/-!
# Exact sums with zero

Adding zero is exact but for the negative zero, which it turns positive. Where no negative zero
occurs, a number is not changed by being kept (`Arith.normalize`), and a real and an imaginary
numeral put together are their sum.

* `isMinusZero`: the number is a zero with a minus sign. `Complex.noMinusZero`: no part is one.
* `ZeroLaws R`: the laws, and what the written form of a number shows of its sign.
* The instance for `Double`: machine numbers obey them.
* `Complex.noMinusZero_normalize`, `Complex.isFinite_normalize`: what is kept of complex numbers.
-/

namespace Formulary

open RealArith

universe u

/-- The number is a zero with a minus sign. -/
def isMinusZero {R : Type u} [RealArith R] (a : R) : Bool :=
  a == 0 && signBit a

/-- The laws of zero. -/
class ZeroLaws (R : Type u) [RealArith R] : Prop extends SignLaws R where
  add_zero (a : R) (hf : RealArith.isFinite a = true) (h : isMinusZero a = false) : a + 0 = a
  zero_add (a : R) (hf : RealArith.isFinite a = true) (h : isMinusZero a = false) : 0 + a = a
  sub_zero (a : R) (hf : RealArith.isFinite a = true) (h : isMinusZero a = false) : a - 0 = a
  zero_sub (a : R) (hf : RealArith.isFinite a = true) (h : lt 0 a = true) : 0 - a = -a
  /-- A sum with zero is not changed by zero. -/
  add_zero_add_zero (a : R) : a + 0 + 0 = a + 0
  /-- Zero may be left out of a sum with a finite number, whatever else is added to. -/
  add_zero_add (a b : R) (h : isMinusZero a = false) (hf : RealArith.isFinite b = true) :
    a + 0 + b = a + b
  isMinusZero_add_zero (a : R) : isMinusZero (a + 0) = false
  /-- There is one zero without a minus sign. -/
  eq_zero (a : R) (h : (a == 0) = true) (h' : isMinusZero a = false) : a = 0
  isMinusZero_ofDecimal (d : Decimal) : isMinusZero (ofDecimal d : R) = false
  lt_ofDecimal_zero (d : Decimal) : lt (ofDecimal d : R) 0 = false
  /-- A negative number is written with a minus sign before its negation. -/
  text_eq_neg (a : R) (h : lt a 0 = true) : text a = "-" ++ text (-a)

/-! ### Complex numbers -/

namespace Complex

variable {R : Type u} [RealArith R]

/-- No part of the number is a zero with a minus sign. -/
def noMinusZero (v : Complex R) : Bool :=
  !isMinusZero v.re && !isMinusZero v.im

theorem noMinusZero_iff {v : Complex R} :
    v.noMinusZero = true ↔ isMinusZero v.re = false ∧ isMinusZero v.im = false := by
  unfold noMinusZero
  rw [Bool.and_eq_true, Bool.not_eq_true', Bool.not_eq_true']

theorem isFinite_iff {v : Complex R} :
    v.isFinite = true ↔ RealArith.isFinite v.re = true ∧ RealArith.isFinite v.im = true := by
  unfold isFinite
  exact Bool.and_eq_true_iff

/-- What is kept has no negative zero if adding zero gives none. -/
theorem noMinusZero_kept (h : ∀ r : R, isMinusZero (r + 0) = false) (v : Complex R) :
    v.normalize.noMinusZero = true :=
  noMinusZero_iff.2 ⟨h v.re, h v.im⟩

variable [ZeroLaws R]

theorem noMinusZero_normalize (v : Complex R) : v.normalize.noMinusZero = true :=
  noMinusZero_kept ZeroLaws.isMinusZero_add_zero v

theorem isFinite_normalize {v : Complex R} (h : v.isFinite = true) : v.normalize.isFinite = true := by
  obtain ⟨hre, him⟩ := isFinite_iff.1 h
  exact isFinite_iff.2 ⟨(SignLaws.isFinite_add_zero _).trans hre,
    (SignLaws.isFinite_add_zero _).trans him⟩

theorem isFinite_opposite {v : Complex R} (h : v.isFinite = true) :
    (Arith.opposite v).isFinite = true := by
  obtain ⟨hre, him⟩ := isFinite_iff.1 h
  exact isFinite_normalize (isFinite_iff.2 ⟨(SignLaws.isFinite_neg _).trans hre,
    (SignLaws.isFinite_neg _).trans him⟩)

end Complex

/-! ### Machine numbers -/

namespace Double

open Float.Model Binary64

theorem isMinusZero_minusZero : isMinusZero (defined (-0.0)) = true := by
  decide +kernel

theorem unpacked_minusZero : unpacked (-0.0) = .zero .negative :=
  rfl

theorem eq_minusZero {x : Float} (h : unpacked x = .zero .negative) : x = -0.0 :=
  unpacked_injective (h.trans unpacked_minusZero.symm)

theorem ne_of_not_isMinusZero {x : Float} (h : isMinusZero (defined x) = false) :
    unpacked x ≠ .zero .negative := by
  intro hx
  rw [eq_minusZero hx, isMinusZero_minusZero] at h
  exact Bool.false_ne_true h.symm

theorem zero_of_beq_zero {x : Float} (h : (defined x == 0) = true) : ∃ s, unpacked x = .zero s := by
  rw [beq_view] at h
  change (unpacked x).beq (.zero .positive) = true at h
  cases hx : unpacked x with
  | zero s => exact ⟨s, rfl⟩
  | notANumber =>
    rw [hx] at h
    exact absurd h Bool.false_ne_true
  | infinity s =>
    rw [hx] at h
    cases s <;> exact absurd h Bool.false_ne_true
  | finite s m e hm =>
    rw [hx] at h
    cases s <;> exact absurd h Bool.false_ne_true

theorem ofFloat_of_isNaN {x : Float} (h : x.isNaN = true) : ofFloat x = undefined true := by
  unfold ofFloat
  rw [h]
  rfl

theorem ofFloat_of_not_isNaN {x : Float} (h : x.isNaN = false) : ofFloat x = defined x := by
  unfold ofFloat
  rw [h]
  rfl

theorem not_isNaN_of_isFinite {x : Float} (h : x.isFinite = true) : x.isNaN = false := by
  rw [isFinite_eq] at h
  rw [isNaN_eq]
  cases hx : unpacked x with
  | notANumber =>
    rw [hx] at h
    exact absurd h Bool.false_ne_true
  | _ => rfl

theorem ofFloat_of_isFinite {x : Float} (h : x.isFinite = true) : ofFloat x = defined x :=
  ofFloat_of_not_isNaN (not_isNaN_of_isFinite h)

theorem isFinite_float_neg (x : Float) : (-x).isFinite = x.isFinite := by
  rw [isFinite_eq, isFinite_eq, unpacked_neg]
  cases unpacked x <;> rfl

/-- Finite doubles are defined. -/
theorem exists_of_isFinite {a : Double} (h : RealArith.isFinite a = true) :
    ∃ x : Float, a = defined x ∧ x.isFinite = true := by
  cases a with
  | defined x => exact ⟨x, rfl, h⟩
  | undefined s =>
    rw [isFinite_view] at h
    exact absurd h Bool.false_ne_true

theorem not_isMinusZero_of_ne {x : Float} (h : unpacked x ≠ .zero .negative) :
    isMinusZero (defined x) = false := by
  cases hzero : (defined x == 0) with
  | false =>
    unfold isMinusZero
    rw [hzero, Bool.false_and]
  | true =>
    obtain ⟨s, hs⟩ := zero_of_beq_zero hzero
    cases s with
    | negative => exact absurd hs h
    | positive =>
      obtain rfl : x = 0.0 := unpacked_injective hs
      decide +kernel

theorem not_isMinusZero_of_isPlus {x : Float} (h : isPlus (unpacked x) = true) :
    isMinusZero (defined x) = false := by
  refine not_isMinusZero_of_ne fun hx => ?_
  rw [hx] at h
  exact absurd h Bool.false_ne_true

theorem add_zero_ne (x : Float) : unpacked (x + 0.0) ≠ .zero .negative := by
  rw [unpacked_add_zero]
  cases unpacked x with
  | zero s => exact fun h => by cases h
  | _ => exact fun h => by cases h

theorem isNaN_add {x : Float} (h : x.isNaN = true) (y : Float) : (x + y).isNaN = true := by
  rw [isNaN_eq] at h
  cases hx : unpacked x with
  | notANumber =>
    show (unpacked (packed (UnpackedFloat.add Format.binary64 (unpacked x) (unpacked y)))).isNaN = true
    rw [hx]
    have hadd : UnpackedFloat.add Format.binary64 .notANumber (unpacked y) = .notANumber := by
      cases unpacked y <;> rfl
    rw [hadd]
    rfl
  | _ =>
    rw [hx] at h
    exact absurd h Bool.false_ne_true

end Double

open Double Binary64 in
/-- Machine numbers obey the laws of zero. -/
instance : ZeroLaws Double where
  add_zero a hf h := by
    obtain ⟨x, rfl, hx⟩ := exists_of_isFinite hf
    show ofFloat (x + 0.0) = _
    rw [add_zero_of_ne (ne_of_not_isMinusZero h), ofFloat_of_isFinite hx]
  zero_add a hf h := by
    obtain ⟨x, rfl, hx⟩ := exists_of_isFinite hf
    show ofFloat (0.0 + x) = _
    rw [zero_add_of_ne (ne_of_not_isMinusZero h), ofFloat_of_isFinite hx]
  sub_zero a hf h := by
    obtain ⟨x, rfl, hx⟩ := exists_of_isFinite hf
    show ofFloat (x - 0.0) = _
    rw [sub_zero_eq, ofFloat_of_isFinite hx]
  zero_sub a hf h := by
    obtain ⟨x, rfl, hx⟩ := exists_of_isFinite hf
    have hne : ∀ s, unpacked x ≠ .zero s := by
      intro s hs
      rw [lt_view] at h
      change Float.Model.UnpackedFloat.lt (.zero .positive) (unpacked x) = true at h
      rw [hs] at h
      exact absurd h Bool.false_ne_true
    show ofFloat (0.0 - x) = defined (-x)
    rw [zero_sub_of_ne hne, ofFloat_of_isFinite ((isFinite_float_neg x).trans hx)]
  add_zero_add_zero a := by
    cases a with
    | undefined s => rfl
    | defined x =>
      show ofFloat (x + 0.0) + 0 = ofFloat (x + 0.0)
      cases hnan : (x + 0.0).isNaN with
      | true =>
        rw [ofFloat_of_isNaN hnan]
        rfl
      | false =>
        rw [ofFloat_of_not_isNaN hnan]
        show ofFloat (x + 0.0 + 0.0) = _
        rw [add_zero_of_ne (add_zero_ne x), ofFloat_of_not_isNaN hnan]
  add_zero_add a b h hf := by
    obtain ⟨y, rfl, hy⟩ := exists_of_isFinite hf
    cases a with
    | undefined s => rfl
    | defined x =>
      show ofFloat (x + 0.0) + defined y = ofFloat (x + y)
      rw [add_zero_of_ne (ne_of_not_isMinusZero h)]
      cases hnan : x.isNaN with
      | true =>
        rw [ofFloat_of_isNaN hnan, ofFloat_of_isNaN (isNaN_add hnan y)]
        rfl
      | false =>
        rw [ofFloat_of_not_isNaN hnan]
        rfl
  isMinusZero_add_zero a := by
    cases a with
    | undefined s => rfl
    | defined x =>
      show isMinusZero (ofFloat (x + 0.0)) = false
      cases hnan : (x + 0.0).isNaN with
      | true =>
        rw [ofFloat_of_isNaN hnan]
        rfl
      | false =>
        rw [ofFloat_of_not_isNaN hnan]
        exact not_isMinusZero_of_ne (add_zero_ne x)
  eq_zero a h h' := by
    cases a with
    | undefined s => exact absurd h Bool.false_ne_true
    | defined x =>
      obtain ⟨s, hs⟩ := zero_of_beq_zero h
      cases s with
      | negative => exact absurd hs (ne_of_not_isMinusZero h')
      | positive => exact congrArg defined (unpacked_injective hs)
  isMinusZero_ofDecimal d := not_isMinusZero_of_isPlus (isPlus_ofDecimal d)
  lt_ofDecimal_zero d := by
    rw [lt_view]
    have hplus := isPlus_ofDecimal d
    change (unpacked (Binary64.ofDecimal d)).lt (.zero .positive) = false
    cases hu : unpacked (Binary64.ofDecimal d) with
    | notANumber => rfl
    | zero s => rfl
    | infinity s =>
      rw [hu] at hplus
      obtain rfl := sign_eq_of_isPlus hplus
      rfl
    | finite s m e hm =>
      rw [hu] at hplus
      obtain rfl := sign_eq_of_isPlus hplus
      rfl
  text_eq_neg a h := by
    cases a with
    | undefined s => exact absurd h Bool.false_ne_true
    | defined x =>
      rw [lt_view] at h
      exact Binary64.text_eq_neg h

end Formulary

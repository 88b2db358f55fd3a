import Formulary.Number.ComplexArith
import Formulary.Proofs.Binary64.Word

/-!
# Comparison, negation and the sign of zero

What an arithmetic does with signs, apart from any result of its sums, products and functions.

* `SignLaws R`: the laws. Adding a positive zero, by which computed values are kept, changes no
  comparison.
* The instance for `Double`: machine numbers obey them, infinities and undefined numbers included.
* `NegationLaws K`: what they give for the numbers of a formula, where the negation of a number is
  its kept form (`Arith.opposite`). Complex numbers have it by the laws of their parts.
-/

namespace Formulary

open RealArith

universe u

/-- The laws of comparison, equality and negation. -/
class SignLaws (R : Type u) [RealArith R] : Prop where
  neg_neg (a : R) : -(-a) = a
  /-- A sign may change sides in an equation. -/
  neg_beq (a b : R) : (-a == b) = (a == -b)
  beq_neg_zero (a : R) : (a == -0) = (a == 0)
  neg_lt_zero (a : R) : lt (-a) 0 = lt 0 a
  add_zero_beq (a b : R) : (a + 0 == b) = (a == b)
  beq_add_zero (a b : R) : (a == b + 0) = (a == b)
  add_zero_lt_zero (a : R) : lt (a + 0) 0 = lt a 0
  zero_lt_add_zero (a : R) : lt 0 (a + 0) = lt 0 a
  /-- A number is not both below zero and equal to it. -/
  lt_zero_and_beq_zero (a : R) : (lt a 0 && a == 0) = false
  /-- A number is not both below and above zero. -/
  lt_zero_and_zero_lt (a : R) : (lt a 0 && lt 0 a) = false
  isFinite_neg (a : R) : RealArith.isFinite (-a) = RealArith.isFinite a
  isFinite_add_zero (a : R) : RealArith.isFinite (a + 0) = RealArith.isFinite a
  /-- A finite number equals itself: it is defined. -/
  beq_self (a : R) (h : RealArith.isFinite a = true) : (a == a) = true
  isFinite_ofNat (n : Nat) (h : n ≤ 10) : RealArith.isFinite (RealArith.ofNat n : R) = true
  /-- Equal numbers are on the same side of zero. -/
  lt_zero_congr (a b : R) (h : (a == b) = true) : lt a 0 = lt b 0
  zero_lt_one : lt (0 : R) 1 = true

/-! ### The numbers of formulas -/

/-- The negation of a number in the form in which computed values are kept. -/
def Arith.opposite {K : Type u} [Arith K] (v : K) : K :=
  Arith.normalize (-v)

/-- What the opposite of a negative number is not. -/
class NegationLaws (K : Type u) [Arith K] : Prop where
  isNegative_opposite (v : K) (h : Arith.isNegative v = true) :
    Arith.isNegative (Arith.opposite v) = false
  opposite_beq_zero (v : K) (h : Arith.isNegative v = true) :
    (Arith.opposite v == Arith.ofNat 0) = false
  opposite_beq_minusOne (v : K) (h : Arith.isNegative v = true) :
    (Arith.opposite v == -(Arith.ofNat 1)) = false
  /-- The opposite is one for minus one only. -/
  opposite_beq_one (v : K) (h : (Arith.opposite v == Arith.ofNat 1) = true) :
    (v == -(Arith.ofNat 1)) = true

section Complex

variable {R : Type u} [RealArith R] [SignLaws R]

theorem not_lt_zero_of_zero_lt {a : R} (h : lt 0 a = true) : lt a 0 = false := by
  have h' := SignLaws.lt_zero_and_zero_lt a
  rw [h, Bool.and_true] at h'
  exact h'

theorem not_zero_lt_of_lt_zero {a : R} (h : lt a 0 = true) : lt 0 a = false := by
  have h' := SignLaws.lt_zero_and_zero_lt a
  rw [h, Bool.true_and] at h'
  exact h'

theorem kept_beq (a b : R) : (-a + 0 == b) = (a == -b) := by
  rw [SignLaws.add_zero_beq, SignLaws.neg_beq]

theorem kept_beq_self (a : R) : (-a + 0 == -a + 0) = (a == a) := by
  rw [kept_beq, ← SignLaws.neg_beq, SignLaws.beq_add_zero, SignLaws.neg_beq, SignLaws.neg_neg]

namespace Complex

omit [SignLaws R] in
theorem isNegative_iff (v : Complex R) :
    v.isNegative = true ↔ (v.im == 0) = true ∧ lt v.re 0 = true := by
  unfold isNegative
  exact Bool.and_eq_true_iff

instance : NegationLaws (Complex R) where
  isNegative_opposite v h := by
    obtain ⟨-, hre⟩ := (isNegative_iff v).1 h
    show (_ && lt (-v.re + 0) 0) = false
    rw [SignLaws.add_zero_lt_zero, SignLaws.neg_lt_zero, not_zero_lt_of_lt_zero hre, Bool.and_false]
  opposite_beq_zero v h := by
    obtain ⟨-, hre⟩ := (isNegative_iff v).1 h
    have hne := SignLaws.lt_zero_and_beq_zero v.re
    rw [hre, Bool.true_and] at hne
    show ((-v.re + 0 == 0) && _) = false
    rw [kept_beq, SignLaws.beq_neg_zero, hne, Bool.false_and]
  opposite_beq_minusOne v h := by
    obtain ⟨-, hre⟩ := (isNegative_iff v).1 h
    have hne : (v.re == 1) = false := by
      rw [Bool.eq_false_iff]
      intro heq
      rw [SignLaws.lt_zero_congr _ _ heq, not_lt_zero_of_zero_lt SignLaws.zero_lt_one] at hre
      exact Bool.false_ne_true hre
    show ((-v.re + 0 == -1) && _) = false
    rw [kept_beq, SignLaws.neg_neg, hne, Bool.false_and]
  opposite_beq_one v h := by
    obtain ⟨hre, him⟩ := Bool.and_eq_true_iff.1 h
    rw [← h]
    show ((v.re == -1) && (v.im == -0)) = ((-v.re + 0 == 1) && (-v.im + 0 == 0))
    rw [kept_beq, kept_beq]

/-- The opposite of a number that equals itself equals itself. -/
theorem opposite_beq_self (v : Complex R) :
    (Arith.opposite v == Arith.opposite v) = (v == v) := by
  show ((-v.re + 0 == -v.re + 0) && (-v.im + 0 == -v.im + 0)) = _
  rw [kept_beq_self, kept_beq_self]
  rfl

theorem normalize_beq_self {v : Complex R} (h : v.isFinite = true) :
    (v.normalize == v.normalize) = true := by
  obtain ⟨hre, him⟩ := Bool.and_eq_true_iff.1 h
  show ((v.re + 0 == v.re + 0) && (v.im + 0 == v.im + 0)) = true
  rw [SignLaws.beq_self _ ((SignLaws.isFinite_add_zero _).trans hre),
    SignLaws.beq_self _ ((SignLaws.isFinite_add_zero _).trans him)]
  rfl

end Complex

end Complex

/-! ### Machine numbers -/

namespace Double

open Float.Model Binary64

/-- The unpacked number that a double stands for; its sign is lost if it is undefined. -/
def view : Double → UnpackedFloat
  | defined x => unpacked x
  | undefined _ => .notANumber

/-- A negative zero turned positive. -/
def plusZero : UnpackedFloat → UnpackedFloat
  | .zero _ => .zero .positive
  | u => u

theorem view_ofFloat (x : Float) : view (ofFloat x) = unpacked x := by
  unfold ofFloat
  split
  · next h =>
    rw [isNaN_eq] at h
    cases hu : unpacked x with
    | notANumber => rfl
    | _ =>
      rw [hu] at h
      exact absurd h Bool.false_ne_true
  · rfl

theorem view_neg (a : Double) : view (-a) = (view a).neg := by
  cases a with
  | defined x => exact unpacked_neg x
  | undefined s => rfl

theorem unpacked_add_zero (x : Float) : unpacked (x + 0.0) = plusZero (unpacked x) := by
  by_cases h : unpacked x = .zero .negative
  · rw [add_zero_of_eq h, h]
    rfl
  · rw [add_zero_of_ne h]
    cases hx : unpacked x with
    | zero s => cases s with
      | negative => exact absurd hx h
      | positive => rfl
    | _ => rfl

theorem view_add_zero (a : Double) : view (a + 0) = plusZero (view a) := by
  cases a with
  | defined x => exact (view_ofFloat (x + 0.0)).trans (unpacked_add_zero x)
  | undefined s => rfl

theorem beq_notANumber (u : UnpackedFloat) : u.beq .notANumber = false := by
  cases u <;> rfl

theorem lt_notANumber (u : UnpackedFloat) : u.lt .notANumber = false := by
  cases u <;> rfl

theorem beq_view (a b : Double) : (a == b) = (view a).beq (view b) := by
  cases a with
  | defined x =>
    cases b with
    | defined y => rfl
    | undefined t => exact (beq_notANumber _).symm
  | undefined s => cases b <;> rfl

theorem lt_view (a b : Double) : lt a b = (view a).lt (view b) := by
  cases a with
  | defined x =>
    cases b with
    | defined y => exact decide_lt_eq x y
    | undefined t => exact (lt_notANumber _).symm
  | undefined s => cases b <;> rfl

theorem isFinite_view (a : Double) : RealArith.isFinite a = (view a).isFinite := by
  cases a with
  | defined x => exact isFinite_eq x
  | undefined s =>
    have h : (0.0 / 0.0 : Float).isFinite = false := by decide +kernel
    exact h

theorem plusZero_beq (u v : UnpackedFloat) : (plusZero u).beq v = u.beq v := by
  cases u with
  | zero s => exact unpacked_zero_beq v .positive s
  | _ => rfl

theorem beq_plusZero (u v : UnpackedFloat) : u.beq (plusZero v) = u.beq v := by
  cases v with
  | zero s => exact unpacked_beq_zero u .positive s
  | _ => rfl

end Double

open Double Binary64 in
/-- Machine numbers obey the laws of signs. -/
instance : SignLaws Double where
  neg_neg a := by
    cases a with
    | defined x => exact congrArg Double.defined (Binary64.neg_neg x)
    | undefined s => exact congrArg Double.undefined (Bool.not_not s)
  neg_beq a b := by rw [beq_view, beq_view, view_neg, view_neg, unpacked_neg_beq]
  beq_neg_zero a := by
    rw [beq_view, beq_view, view_neg]
    exact unpacked_beq_zero (view a) .negative .positive
  neg_lt_zero a := by
    rw [lt_view, lt_view, view_neg]
    exact unpacked_neg_lt_zero (view a) .positive
  add_zero_beq a b := by rw [beq_view, beq_view, view_add_zero, plusZero_beq]
  beq_add_zero a b := by rw [beq_view, beq_view, view_add_zero, beq_plusZero]
  add_zero_lt_zero a := by
    rw [lt_view, lt_view, view_add_zero]
    cases view a <;> rfl
  zero_lt_add_zero a := by
    rw [lt_view, lt_view, view_add_zero]
    cases view a <;> rfl
  lt_zero_and_beq_zero a := by
    rw [lt_view, beq_view]
    exact (unpacked_trichotomy (view a) .positive).1
  lt_zero_and_zero_lt a := by
    rw [lt_view, lt_view]
    exact (unpacked_trichotomy (view a) .positive).2.2
  isFinite_neg a := by
    rw [isFinite_view, isFinite_view, view_neg]
    cases view a <;> rfl
  isFinite_add_zero a := by
    rw [isFinite_view, isFinite_view, view_add_zero]
    cases view a <;> rfl
  beq_self a h := by
    rw [isFinite_view] at h
    rw [beq_view]
    exact unpacked_beq_self h
  isFinite_ofNat n h := by
    have hall : ∀ n ≤ 10, (Binary64.ofDecimal ⟨n, 0⟩).isFinite = true := by decide +kernel
    exact hall n h
  lt_zero_congr a b h := by
    rw [beq_view] at h
    rw [lt_view, lt_view]
    exact unpacked_lt_zero_congr h
  zero_lt_one := by decide +kernel

end Formulary

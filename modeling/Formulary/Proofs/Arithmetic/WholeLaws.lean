import Formulary.Proofs.Arithmetic.ExactComplex
import Formulary.Proofs.Arithmetic.ZeroLaws
import Formulary.Proofs.Binary64.Whole

/-!
# Natural numbers among the real numbers

What an arithmetic is to do with its natural numbers for exponents to be counted down: the number
before a natural number is a natural number, be it rounded.

* `IsNat a n`, `Complex.IsNat v n`: the number is the natural number `n`.
* `WholeLaws R`: the laws.
* The instance for `Double`: machine numbers obey them, however great the number is.
* The instances for `Exact`.
-/

namespace Formulary

open RealArith

universe u

/-- The number is its own integer part, the natural number `n`, and so is its negation. -/
def IsNat {R : Type u} [RealArith R] (a : R) (n : ℕ) : Prop :=
  floor? a = some (n : ℤ) ∧ floor? (-a) = some (-n : ℤ)

instance {R : Type u} [RealArith R] (a : R) (n : ℕ) : Decidable (IsNat a n) :=
  inferInstanceAs (Decidable (_ ∧ _))

/-- The number is real and the natural number `n`. -/
def Complex.IsNat {R : Type u} [RealArith R] (v : Complex R) (n : ℕ) : Prop :=
  (v.im == 0) = true ∧ Formulary.IsNat v.re n

instance {R : Type u} [RealArith R] (v : Complex R) (n : ℕ) : Decidable (v.IsNat n) :=
  inferInstanceAs (Decidable (_ ∧ _))

/-- The laws of natural numbers. -/
class WholeLaws (R : Type u) [RealArith R] : Prop extends SignLaws R where
  sub_zero (a : R) (hf : RealArith.isFinite a = true) : a - 0 = a
  not_lt_zero (a : R) (n : ℕ) (h : IsNat a n) : lt a 0 = false
  /-- There is one natural number zero. -/
  beq_zero (a : R) (h : IsNat a 0) : (a == 0) = true
  isFinite_sub_one (a : R) (n : ℕ) (h : IsNat a (n + 1)) : RealArith.isFinite (a - 1) = true
  /-- The number before a natural number, as it is kept, is a natural number. -/
  sub_one (a : R) (n : ℕ) (h : IsNat a (n + 1)) : ∃ m, IsNat (a - 1 + 0) m

/-! ### Machine numbers -/

namespace Double

open Float.Model Binary64

theorem floor?_view (a : Double) : floor? a = unpackedFloor? (view a) := by
  cases a with
  | defined x => exact floor?_eq x
  | undefined s =>
    have h : Binary64.floor? (0.0 / 0.0) = none := by decide +kernel
    exact h

theorem isNat_iff {a : Double} {n : ℕ} : IsNat a n ↔ IsWhole (view a) n := by
  unfold IsNat
  rw [floor?_view, floor?_view, view_neg]
  exact isWhole_iff_floor

theorem isWhole_plusZero {u : UnpackedFloat} {n : ℕ} (h : IsWhole u n) :
    IsWhole (plusZero u) n := by
  cases u <;> exact h

theorem exists_isWhole_view_sub_one {a : Double} {n : ℕ} (h : IsNat a (n + 1)) :
    ∃ m, IsWhole (view (a - 1)) m := by
  have h := isNat_iff.1 h
  cases a with
  | undefined s => exact h.elim
  | defined x =>
    show ∃ m, IsWhole (view (ofFloat (x - 1.0))) m
    rw [view_ofFloat]
    exact exists_isWhole_sub_one h

end Double

open Double Binary64 in
/-- Machine numbers obey the laws of natural numbers. -/
instance : WholeLaws Double where
  sub_zero a hf := by
    obtain ⟨x, rfl, hx⟩ := exists_of_isFinite hf
    show ofFloat (x - 0.0) = _
    rw [sub_zero_eq, ofFloat_of_isFinite hx]
  not_lt_zero a n h := (lt_view a 0).trans (not_lt_of_isWhole (isNat_iff.1 h))
  beq_zero a h := (beq_view a 0).trans (beq_zero_of_isWhole (isNat_iff.1 h))
  isFinite_sub_one a n h := by
    obtain ⟨m, hm⟩ := exists_isWhole_view_sub_one h
    exact (isFinite_view _).trans (isFinite_of_isWhole hm)
  sub_one a n h := by
    obtain ⟨m, hm⟩ := exists_isWhole_view_sub_one h
    refine ⟨m, isNat_iff.2 ?_⟩
    rw [view_add_zero]
    exact isWhole_plusZero hm

/-! ### Exact numbers -/

namespace Exact

theorem isNat_iff {a : Exact} {n : ℕ} : IsNat a n ↔ a = finite n := by
  cases a with
  | finite r =>
    show some ⌊r⌋ = some (n : ℤ) ∧ some ⌊-r⌋ = some (-n : ℤ) ↔ _
    simp only [Option.some.injEq, finite.injEq]
    constructor
    · rintro ⟨h, hneg⟩
      have hle := Int.floor_le r
      have hle' := Int.floor_le (-r)
      rw [h] at hle
      rw [hneg] at hle'
      push_cast at hle hle'
      linarith
    · rintro rfl
      have hneg : (-(n : ℝ)) = ((-n : ℤ) : ℝ) := by push_cast; rfl
      rw [hneg, Int.floor_intCast, Int.floor_natCast]
      exact ⟨rfl, rfl⟩
  | infinite s => exact ⟨fun h => (by cases h.1), fun h => (by cases h)⟩
  | undefined => exact ⟨fun h => (by cases h.1), fun h => (by cases h)⟩

end Exact

open Exact in
/-- Exact numbers obey the laws of signs. -/
instance : SignLaws Exact where
  neg_neg a := by
    cases a with
    | finite r => exact congrArg finite (neg_neg r)
    | infinite s => exact congrArg infinite (Bool.not_not s)
    | undefined => rfl
  neg_beq a b := by
    cases a with
    | finite r =>
      cases b with
      | finite s => exact decide_eq_decide.2 neg_eq_iff_eq_neg
      | _ => rfl
    | infinite s =>
      cases b with
      | infinite t => cases s <;> cases t <;> rfl
      | _ => rfl
    | undefined => rfl
  beq_neg_zero a := by rw [zero_eq, finite_neg, neg_zero]
  neg_lt_zero a := by
    rw [zero_eq]
    cases a with
    | finite r => exact decide_eq_decide.2 neg_lt_zero
    | infinite s => rfl
    | undefined => rfl
  add_zero_beq a b := by rw [add_zero_eq]
  beq_add_zero a b := by rw [add_zero_eq]
  add_zero_lt_zero a := by rw [add_zero_eq]
  zero_lt_add_zero a := by rw [add_zero_eq]
  lt_zero_and_beq_zero a := by
    rw [zero_eq, Bool.eq_false_iff]
    intro h
    obtain ⟨hlt, heq⟩ := Bool.and_eq_true_iff.1 h
    cases eq_of_beq heq
    exact lt_irrefl (0 : ℝ) (of_decide_eq_true hlt)
  lt_zero_and_zero_lt a := by
    rw [zero_eq]
    cases a with
    | finite r =>
      rw [Bool.eq_false_iff]
      intro h
      obtain ⟨hlt, hgt⟩ := Bool.and_eq_true_iff.1 h
      exact lt_asymm (of_decide_eq_true hlt) (of_decide_eq_true hgt)
    | infinite s => exact Bool.and_not_self s
    | undefined => rfl
  isFinite_neg a := by cases a <;> rfl
  isFinite_add_zero a := by rw [add_zero_eq]
  beq_self a h := by
    obtain ⟨r, rfl⟩ := isFinite_iff.1 h
    exact decide_eq_true rfl
  isFinite_ofNat n h := rfl
  lt_zero_congr a b h := by rw [eq_of_beq h]
  zero_lt_one := by
    rw [zero_eq, one_eq]
    exact decide_eq_true one_pos

open Exact in
/-- Exact numbers obey the laws of natural numbers. -/
instance : WholeLaws Exact where
  sub_zero a hf := by
    obtain ⟨r, rfl⟩ := isFinite_iff.1 hf
    rw [zero_eq, finite_sub, sub_zero]
  not_lt_zero a n h := by
    rw [isNat_iff.1 h, zero_eq]
    exact decide_eq_false n.cast_nonneg.not_gt
  beq_zero a h := by
    rw [isNat_iff.1 h, Nat.cast_zero, zero_eq]
    exact decide_eq_true rfl
  isFinite_sub_one a n h := by
    rw [isNat_iff.1 h, one_eq, finite_sub, isFinite_finite]
  sub_one a n h := by
    refine ⟨n, isNat_iff.2 ?_⟩
    rw [isNat_iff.1 h, one_eq, finite_sub, Exact.add_zero_eq, Nat.cast_succ, add_sub_cancel_right]

end Formulary

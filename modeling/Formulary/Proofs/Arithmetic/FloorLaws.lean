import Formulary.Proofs.Arithmetic.WholeLaws

/-!
# Integer parts

What an arithmetic is to do with the integer part of a number for an integer to be told from the
other numbers: by equality, by its sign and by its integer part alike.

* `FloorLaws R`: the laws.
* The instance for `Double`: machine numbers obey them, with either sign of zero.
* The instance for `Exact`.
* `Complex.floor?_re`: the integer that a number is, is the integer part of its real part.
* `Complex.ne_of_integer?`, `Complex.not_isNegative_of_integer?`: what a number that is an integer is
  not.
-/

namespace Formulary

open RealArith

universe u

/-- The laws of the integer part. -/
class FloorLaws (R : Type u) [RealArith R] : Prop where
  /-- Equal numbers have the same integer part. -/
  floor?_congr (a b : R) (h : (a == b) = true) : floor? a = floor? b
  floor?_zero : floor? (0 : R) = some 0
  floor?_one : floor? (1 : R) = some 1
  /-- A number below zero has an integer part below zero. -/
  not_lt_zero (a : R) (n : ℤ) (h : floor? a = some n) (hn : 0 ≤ n) : lt a 0 = false

/-! ### Machine numbers -/

namespace Binary64

open Float.Model

/-- Exponents and mantissas that compare as equal are equal. -/
theorem eq_of_compare_then {m m' : ℕ} {e e' : ℤ}
    (h : (compare e e').then (compare m m') = .eq) : e = e' ∧ m = m' := by
  obtain ⟨he, hm⟩ := Ordering.then_eq_eq.1 h
  exact ⟨compare_eq_iff_eq.1 he, compare_eq_iff_eq.1 hm⟩

theorem unpackedFloor?_congr {u v : UnpackedFloat} (h : u.beq v = true) :
    unpackedFloor? u = unpackedFloor? v := by
  cases u with
  | notANumber => exact absurd h Bool.false_ne_true
  | infinity s =>
    cases v with
    | infinity t => rfl
    | _ => cases s <;> exact absurd h Bool.false_ne_true
  | zero s =>
    cases v with
    | zero t => rfl
    | finite t | infinity t => cases t <;> exact absurd h Bool.false_ne_true
    | notANumber => exact absurd h Bool.false_ne_true
  | finite s m e hm =>
    cases v with
    | finite t m' e' hm' =>
      cases s <;> cases t
      · -- two negative numbers are compared without their signs and the other way round
        have h := (swap_beq_eq _).symm.trans h
        obtain ⟨rfl, rfl⟩ := eq_of_compare_then (Option.some.inj (beq_iff_eq.1 h))
        rfl
      · exact absurd h Bool.false_ne_true
      · exact absurd h Bool.false_ne_true
      · obtain ⟨rfl, rfl⟩ := eq_of_compare_then (Option.some.inj (beq_iff_eq.1 h))
        rfl
    | infinity t => cases s <;> cases t <;> exact absurd h Bool.false_ne_true
    | _ => cases s <;> exact absurd h Bool.false_ne_true

theorem not_lt_zero_of_floor {u : UnpackedFloat} {n : ℤ} (h : unpackedFloor? u = some n)
    (hn : 0 ≤ n) : u.lt (.zero .positive) = false := by
  cases u with
  | notANumber | infinity => cases h
  | zero s => rfl
  | finite s m e hm =>
    cases s with
    | positive => rfl
    | negative =>
      have hfloor : scaledFloor (-m) e = n := Option.some.inj h
      have hneg := scaledFloor_neg hm e
      omega

end Binary64

open Double Binary64 in
/-- Machine numbers obey the laws of the integer part. -/
instance : FloorLaws Double where
  floor?_congr a b h := by
    rw [beq_view] at h
    rw [floor?_view, floor?_view, unpackedFloor?_congr h]
  floor?_zero := by decide +kernel
  floor?_one := by decide +kernel
  not_lt_zero a n h hn := by
    rw [floor?_view] at h
    exact (lt_view a 0).trans (not_lt_zero_of_floor h hn)

/-! ### Exact numbers -/

open Exact in
/-- Exact numbers obey the laws of the integer part. -/
instance : FloorLaws Exact where
  floor?_congr a b h := congrArg floor? (eq_of_beq h)
  floor?_zero := by
    rw [zero_eq]
    exact congrArg some Int.floor_zero
  floor?_one := by
    rw [one_eq]
    exact congrArg some Int.floor_one
  not_lt_zero a n h hn := by
    rw [zero_eq]
    cases a with
    | finite r =>
      have hfloor : ⌊r⌋ = n := Option.some.inj h
      have hr : 0 ≤ r := Int.floor_nonneg.1 (hfloor ▸ hn)
      exact decide_eq_false hr.not_gt
    | infinite s => cases h
    | undefined => cases h

/-! ### Integers among the complex numbers -/

namespace Complex

variable {R : Type u} [RealArith R] {w : Complex R} {k : ℤ}

/-- The integer that a number is, is the integer part of its real part. -/
theorem floor?_re (h : w.integer? = some k) : floor? w.re = some k := by
  unfold integer? at h
  split at h
  · next n hn =>
    split at h
    · exact hn.trans h
    · cases h
  · cases h

variable [FloorLaws R]

/-- A number that is an integer does not equal the real numbers with another integer part. -/
theorem ne_of_integer? {r : R} {n : ℤ} (h : w.integer? = some k) (hr : floor? r = some n)
    (hne : k ≠ n) : (w == ofReal r) = false := by
  rw [Bool.eq_false_iff]
  intro heq
  have hre := FloorLaws.floor?_congr _ _ (Bool.and_eq_true_iff.1 heq).1
  have hsome : some k = some n := (floor?_re h).symm.trans (hre.trans hr)
  exact hne (Option.some.inj hsome)

theorem not_isNegative_of_integer? (h : w.integer? = some k) (hk : 0 ≤ k) :
    w.isNegative = false := by
  unfold isNegative
  rw [FloorLaws.not_lt_zero _ _ (floor?_re h) hk, Bool.and_false]

end Complex

end Formulary

import Formulary.Proofs.Arithmetic.ExactLaws

/-!
# Exact arithmetic without infinities

The complex numbers of mathematics as an arithmetic for formulas. An operation without a value gives
zero, so that the laws hold for all numbers.

* `value`: the complex number that a number of formulas is, part by part.
* The instance of `Arith` for the complex numbers.
* `complex_fieldLaws`: its laws.
-/

namespace Formulary

noncomputable section

/-- The real number that an exact number is, or zero. -/
def Exact.toReal : Exact → ℝ
  | .finite a => a
  | _ => 0

/-- The complex number that a number of formulas is; a part without a value is zero. -/
def value (v : Complex Exact) : ℂ :=
  ⟨v.re.toReal, v.im.toReal⟩

@[simp] theorem value_point (z : ℂ) : value (point z) = z := rfl

theorem toReal_neg (a : Exact) : (-a).toReal = -a.toReal := by
  cases a with
  | finite r => rfl
  | _ => exact neg_zero.symm

theorem value_neg (v : Complex Exact) : value (-v) = -value v :=
  eq_of_parts (toReal_neg v.re) (toReal_neg v.im)

open Classical in
/-- The arithmetic of the complex numbers, functions taking their values from exact arithmetic. -/
instance : Arith ℂ where
  beq z w := decide (z = w)
  ofNat n := n
  pow z w := z ^ w
  apply f z := value (Arith.apply f (point z))
  normalize z := z
  isFinite _ := true
  isNegative z := Arith.isNegative (point z)
  isRight z := Arith.isRight (point z)
  integer? z := Arith.integer? (point z)

theorem complex_fieldLaws : FieldLaws ℂ where
  eq_of_beq h := of_decide_eq_true h
  zero_beq := decide_eq_true rfl
  normalize_eq _ := rfl
  add_comm z w := add_comm z w
  mul_comm z w := mul_comm z w
  zero_add z := by
    show ((0 : ℕ) : ℂ) + z = z
    rw [Nat.cast_zero, zero_add]
  one_mul z := by
    show ((1 : ℕ) : ℂ) * z = z
    rw [Nat.cast_one, one_mul]
  zero_mul z := by
    show ((0 : ℕ) : ℂ) * z = ((0 : ℕ) : ℂ)
    rw [Nat.cast_zero, zero_mul]
  minusOne_mul z := by
    show -((1 : ℕ) : ℂ) * z = -z
    rw [Nat.cast_one, neg_one_mul]
  div_one z := by
    show z / ((1 : ℕ) : ℂ) = z
    rw [Nat.cast_one, div_one]
  div_minusOne z := by
    show z / -((1 : ℕ) : ℂ) = -z
    rw [Nat.cast_one, div_neg, div_one]
  add_self z := by
    show z + z = ((2 : ℕ) : ℂ) * z
    rw [Nat.cast_ofNat, two_mul]
  sub_self z := by
    show z - z = ((0 : ℕ) : ℂ)
    rw [Nat.cast_zero, sub_self]
  zero_sub z := by
    show ((0 : ℕ) : ℂ) - z = -z
    rw [Nat.cast_zero, zero_sub]
  add_neg z w := (sub_eq_add_neg z w).symm
  neg_neg z := neg_neg z
  neg_mul z w := neg_mul z w
  neg_div z w _ := neg_div w z
  div_neg z _ _ := div_neg z
  sin_neg z := (congrArg value (sin_point_neg z)).trans (value_neg _)
  tan_neg z := (congrArg value (tan_point_neg z)).trans (value_neg _)
  cos_neg z := congrArg value (cos_point_neg z)
  sin_zero := by
    show value (point ((0 : ℕ) : ℂ)).sin = ((0 : ℕ) : ℂ)
    rw [Nat.cast_zero, sin_point_zero, value_point]
  tan_zero := by
    show value (point ((0 : ℕ) : ℂ)).tan = ((0 : ℕ) : ℂ)
    rw [Nat.cast_zero, tan_point_zero, value_point]
  cos_zero := by
    show value (point ((0 : ℕ) : ℂ)).cos = ((1 : ℕ) : ℂ)
    rw [Nat.cast_zero, cos_point_zero, value_point, Nat.cast_one]
  log10_ten := by
    show value (point ((10 : ℕ) : ℂ)).log10 = ((1 : ℕ) : ℂ)
    rw [Nat.cast_ofNat, log10_ten, value_point, Nat.cast_one]

theorem complex_log_euler {f : Builtin} (hf : f.isNaturalLog = true) :
    Arith.apply f ((Real.exp 1 : ℝ) : ℂ) = Arith.ofNat 1 := by
  have h := naturalLog_euler hf
  rw [euler_eq_point] at h
  exact (congrArg value h).trans Nat.cast_one.symm

end

end Formulary

import Formulary.Proofs.Arithmetic.FloorLaws

/-!
# Powers of a negation

Repeated squaring squares its base before it multiplies by it, and the square does not know the sign
of the base. The sign is left in the product alone, where an odd exponent starts with one factor
that is not squared. So a sign can leave an integer power where negation is exact, however sums and
products are rounded.

* `ExactNegation R`: negation goes through sums and products, and keeping a value changes nothing.
* The instance for `Exact`.
* `squareMultiply_neg`, `squareMultiply_neg_base`: the loop.
* **`powNat_neg`**: natural powers.
* `pow_of_integer?`: the power of a number is the natural power where the exponent is an integer.
-/

namespace Formulary

open RealArith

universe u

/-- Negation is exact, and computed values are kept as they are. -/
class ExactNegation (R : Type u) [RealArith R] : Prop where
  add_zero (a : R) : a + 0 = a
  neg_neg (a : R) : -(-a) = a
  neg_add (a b : R) : -(a + b) = -a + -b
  neg_mul (a b : R) : -a * b = -(a * b)
  mul_neg (a b : R) : a * -b = -(a * b)
  sub_eq (a b : R) : a - b = a + -b

/-! ### Exact numbers -/

namespace Exact

theorem isBelow_neg {a : ℝ} (ha : a ≠ 0) : isBelow (-a) = !isBelow a := by
  unfold isBelow
  rcases lt_or_gt_of_ne ha with h | h
  · simp [h, h.le]
  · simp [h, h.le]

theorem neg_add_eq (a b : Exact) : -(a + b) = -a + -b := by
  show (a.add b).neg = (a.neg).add b.neg
  cases a with
  | undefined => rfl
  | finite r =>
    cases b with
    | undefined => rfl
    | finite t => exact congrArg finite (neg_add r t)
    | infinite t => rfl
  | infinite s =>
    cases b with
    | undefined => rfl
    | finite t => rfl
    | infinite t => cases s <;> cases t <;> rfl

theorem mul_comm_eq (a b : Exact) : a * b = b * a := by
  show a.mul b = b.mul a
  cases a with
  | undefined => cases b <;> rfl
  | finite r =>
    cases b with
    | finite t => exact congrArg finite (mul_comm r t)
    | _ => rfl
  | infinite s =>
    cases b with
    | infinite t => exact congrArg infinite (Bool.xor_comm s t)
    | _ => rfl

theorem neg_mul_eq (a b : Exact) : -a * b = -(a * b) := by
  show (a.neg).mul b = (a.mul b).neg
  cases a with
  | undefined => rfl
  | finite r =>
    cases b with
    | undefined => rfl
    | finite t => exact congrArg finite (neg_mul r t)
    | infinite s =>
      by_cases hr : r = 0
      · simp [mul, neg, extend, hr]
      · simp [mul, neg, extend, hr, isBelow_neg hr]
  | infinite s =>
    cases b with
    | undefined => rfl
    | infinite t => simp [mul, neg, extend]
    | finite t =>
      by_cases ht : t = 0
      · simp [mul, neg, extend, ht]
      · simp [mul, neg, extend, ht]

end Exact

open Exact in
/-- Exact numbers have exact negations, the infinities included. -/
instance : ExactNegation Exact where
  add_zero := add_zero_eq
  neg_neg := SignLaws.neg_neg
  neg_add := neg_add_eq
  neg_mul := neg_mul_eq
  mul_neg a b := by rw [mul_comm_eq, neg_mul_eq, mul_comm_eq]
  sub_eq _ _ := rfl

/-! ### Complex numbers -/

namespace Complex

variable {R : Type u} [RealArith R]

theorem squareMultiply_of_lt (acc base : Complex R) {n : ℕ} (h : 1 < n) :
    squareMultiply acc base n =
      squareMultiply (if n / 2 % 2 = 1 then acc * (base * base) else acc) (base * base) (n / 2) := by
  rw [squareMultiply, if_pos h]

theorem squareMultiply_of_not_lt (acc base : Complex R) {n : ℕ} (h : ¬1 < n) :
    squareMultiply acc base n = acc := by
  rw [squareMultiply, if_neg h]

theorem powNat_of_even (z : Complex R) {n : ℕ} (hn : n ≠ 0) (heven : n % 2 = 0) :
    powNat z n = powNat (z * z) (n / 2) := by
  rw [powNat, if_neg hn, if_pos heven]

theorem powNat_of_odd (z : Complex R) {n : ℕ} (hodd : n % 2 ≠ 0) :
    powNat z n = squareMultiply z z n := by
  have hn : n ≠ 0 := by omega
  rw [powNat, if_neg hn, if_neg hodd]

section ExactNegation

variable [ExactNegation R]

theorem normalize_eq (z : Complex R) : z.normalize = z :=
  Complex.ext (ExactNegation.add_zero z.re) (ExactNegation.add_zero z.im)

theorem neg_neg_eq (z : Complex R) : -(-z) = z :=
  Complex.ext (ExactNegation.neg_neg z.re) (ExactNegation.neg_neg z.im)

theorem neg_mul_eq (z w : Complex R) : -z * w = -(z * w) := by
  simp only [mul_def, neg_def, ExactNegation.neg_mul, ExactNegation.neg_add, ExactNegation.sub_eq]

theorem mul_neg_eq (z w : Complex R) : z * -w = -(z * w) := by
  simp only [mul_def, neg_def, ExactNegation.mul_neg, ExactNegation.neg_add, ExactNegation.sub_eq]

/-- A square does not know the sign. -/
theorem neg_mul_neg_eq (z : Complex R) : -z * -z = z * z := by
  rw [neg_mul_eq, mul_neg_eq, neg_neg_eq]

/-- The loop hands on the sign of the product. -/
theorem squareMultiply_neg (acc base : Complex R) (n : ℕ) :
    squareMultiply (-acc) base n = -squareMultiply acc base n := by
  induction n using Nat.strong_induction_on generalizing acc base with
  | _ n ih =>
    by_cases h : 1 < n
    · have hlt : n / 2 < n := by omega
      rw [squareMultiply_of_lt _ _ h, squareMultiply_of_lt _ _ h, ← ih _ hlt]
      split
      · rw [neg_mul_eq]
      · rfl
    · rw [squareMultiply_of_not_lt _ _ h, squareMultiply_of_not_lt _ _ h]

/-- The loop looks at the square of the base alone. -/
theorem squareMultiply_neg_base (acc base : Complex R) (n : ℕ) :
    squareMultiply acc (-base) n = squareMultiply acc base n := by
  by_cases h : 1 < n
  · rw [squareMultiply_of_lt _ _ h, squareMultiply_of_lt _ _ h, neg_mul_neg_eq]
  · rw [squareMultiply_of_not_lt _ _ h, squareMultiply_of_not_lt _ _ h]

/-- **A sign leaves a natural power**: an even one drops it, an odd one has it in front. -/
theorem powNat_neg (z : Complex R) {n : ℕ} (hn : n ≠ 0) :
    powNat (-z) n = if n % 2 = 0 then powNat z n else -powNat z n := by
  split
  · next heven => rw [powNat_of_even _ hn heven, powNat_of_even _ hn heven, neg_mul_neg_eq]
  · next hodd =>
    rw [powNat_of_odd _ hodd, powNat_of_odd _ hodd, squareMultiply_neg_base, squareMultiply_neg]

end ExactNegation

/-- The power of a number is the natural power where the exponent is an integer above zero. -/
theorem pow_of_integer? [FloorLaws R] (z : Complex R) {w : Complex R} {n : ℕ}
    (h : w.integer? = some (n : ℤ)) (hn : n ≠ 0) : pow z w = powNat z n := by
  have hzero : (w == zero) = false := ne_of_integer? h FloorLaws.floor?_zero (by omega)
  unfold pow
  rw [hzero, h]
  rfl

end Complex

end Formulary

import Formulary.Expr.Eval
import Formulary.Proofs.Arithmetic.ExactPower
import Formulary.Proofs.Arithmetic.NegatedPowers
import Formulary.Proofs.Expr.Normal

/-!
# Integer powers of negations in trees

The power of a negation loses the sign when it is simplified, or has it in front, as the parity of
the exponent has it. The simplifier asks for the parity of the integer that the exponent is; the
value is found by repeated squaring, which halves that integer.

* `power_neg`: the rule.
* `eval_neg_eq_map`, `eval_pow_eq_map`: the values of negations and of natural powers.
* **`simplify_pow_neg`**: what the power of a negation is simplified to, and that it keeps its value
  where negation is exact.
-/

namespace Formulary.Expr

open RealArith Exact

universe u

/-- The rule for the power of a negation, where no other rule for powers applies. -/
theorem power_neg {K : Type u} [Arith K] {a : Expr K} {w : K} {k : ℤ} {p : Position}
    (hk : Arith.integer? w = some k) (hzero : (w == Arith.ofNat 0) = false)
    (hone : (w == Arith.ofNat 1) = false) (hneg : Arith.isNegative w = false) :
    power (neg a) (number w) p =
      if k % 2 = 0 then binary .pow a (number w) p else neg (binary .pow a (number w) p) := by
  have hunsigned : ((number w).isNumber && (number w).isNegative) = false := hneg
  have hzeroPower : isZeroPower (neg a) (number w) = false := rfl
  have hbase : (neg a == nat 1) = false := rfl
  have hexponent : (number w == nat 0) = false := hzero
  have hexponent' : (number w == nat 1) = false := hone
  have hinteger : integerExponent? (number w) = some k := hk
  rw [power_of_unsigned hunsigned, powerUnsigned, foldNumbers?_of_left rfl, Option.getD_none,
    hzeroPower, hbase, hexponent, hexponent']
  simp only [Bool.or_self, Bool.false_eq_true, if_false, inversePower, signedPower, hinteger]

section Values

variable {R : Type u} [RealArith R] [ExactNegation R] {a : Expr (Complex R)} {x : Complex R}
  {vars : Vars (Complex R)} {mode : EvalMode}

theorem eval_neg_eq_map : (neg a).eval x vars mode = (a.eval x vars mode).map (-·) := by
  rw [eval]
  cases a.eval x vars mode with
  | ok v => exact congrArg Except.ok (Complex.normalize_eq (-v))
  | error e => rfl

/-- A power whose exponent is a natural number above zero is found by repeated squaring. -/
theorem eval_pow_eq_map [FloorLaws R] {w : Complex R} {n : ℕ} {p : Position}
    (h : w.integer? = some (n : ℤ)) (hn : n ≠ 0) :
    (binary .pow a (number w) p).eval x vars mode = (a.eval x vars mode).map (·.powNat n) := by
  simp only [eval]
  cases a.eval x vars mode with
  | ok v =>
    have hpow : Complex.normalize (Complex.pow v w) = v.powNat n := by
      rw [Complex.normalize_eq, Complex.pow_of_integer? v h hn]
    exact congrArg Except.ok hpow
  | error e => rfl

end Values

/-- **The power of a negation.** Let `a` be a tree that is neither a number nor a negation once it
is simplified, and let the number `w` be an integer `k` above one. Then `(-a) ^ w` is simplified to
the power `a' ^ w` of the simplified tree if `k` is even, and to its negation if `k` is odd. Where
negation is exact and computed values are kept as they are, both evaluate to the same result
whenever `a` and `a'` do. No law of rounding is used. -/
theorem simplify_pow_neg {R : Type u} [RealArith R] [FloorLaws R] {a : Expr (Complex R)}
    {w : Complex R} {k : ℤ} (p : Position) (hnum : a.simplify.isNumber = false)
    (hneg : a.simplify.isNeg = false) (hk : Arith.integer? w = some k) (h2 : 2 ≤ k) :
    (binary .pow (neg a) (number w) p).simplify =
      (if k % 2 = 0 then binary .pow a.simplify (number w) p
      else neg (binary .pow a.simplify (number w) p)) ∧
    (ExactNegation R → ∀ x vars mode, a.eval x vars mode = a.simplify.eval x vars mode →
      (binary .pow (neg a) (number w) p).eval x vars mode =
        (binary .pow (neg a) (number w) p).simplify.eval x vars mode) := by
  have hzero : (w == Arith.ofNat 0) = false :=
    Complex.ne_of_integer? hk FloorLaws.floor?_zero (by omega)
  have hone : (w == Arith.ofNat 1) = false :=
    Complex.ne_of_integer? hk FloorLaws.floor?_one (by omega)
  have hunsigned : Arith.isNegative w = false := Complex.not_isNegative_of_integer? hk (by omega)
  have hnegated : a.simplify.negated = neg a.simplify := negated_of_not hnum hneg
  have hform : (binary .pow (neg a) (number w) p).simplify =
      if k % 2 = 0 then binary .pow a.simplify (number w) p
      else neg (binary .pow a.simplify (number w) p) := by
    show power a.simplify.negated (number w) p = _
    rw [hnegated, power_neg hk hzero hone hunsigned]
  refine ⟨hform, fun _ x vars mode hvalue => ?_⟩
  obtain ⟨n, rfl⟩ := Int.eq_ofNat_of_zero_le (show 0 ≤ k by omega)
  have hn : n ≠ 0 := by omega
  rw [hform, eval_pow_eq_map hk hn, eval_neg_eq_map, hvalue]
  split
  · next heven =>
    rw [eval_pow_eq_map hk hn]
    cases a.simplify.eval x vars mode with
    | ok v =>
      have hpow : (-v).powNat n = v.powNat n := by
        rw [Complex.powNat_neg v hn, if_pos (by omega)]
      exact congrArg Except.ok hpow
    | error e => rfl
  · next hodd =>
    rw [eval_neg_eq_map, eval_pow_eq_map hk hn]
    cases a.simplify.eval x vars mode with
    | ok v =>
      have hpow : (-v).powNat n = -v.powNat n := by
        rw [Complex.powNat_neg v hn, if_neg (by omega)]
      exact congrArg Except.ok hpow
    | error e => rfl

/-- The cube of `-(-(-x))` in machine numbers is simplified to `-(x ^ 3)`, and in exact numbers it
keeps its value. -/
theorem simplify_pow_neg_cube :
    (binary .pow (neg (neg (neg argument))) (number (Arith.ofNat 3)) none :
      Expr (Complex Double)).simplify = neg (binary .pow argument (number (Arith.ofNat 3)) none) ∧
    ∀ x vars mode,
      (binary .pow (neg (neg (neg argument))) (number (point (3 : ℤ))) none :
        Expr (Complex Exact)).eval x vars mode =
      (binary .pow (neg (neg (neg argument))) (number (point (3 : ℤ))) none :
        Expr (Complex Exact)).simplify.eval x vars mode := by
  have hthree : Arith.integer? (Arith.ofNat 3 : Complex Double) = some 3 := by decide +kernel
  have hthree' : Arith.integer? (point (3 : ℤ)) = some 3 := integer?_point (by decide) (by decide)
  refine ⟨(simplify_pow_neg none rfl rfl hthree (by decide)).1, fun x vars mode => ?_⟩
  refine (simplify_pow_neg none rfl rfl hthree' (by decide)).2 inferInstance x vars mode ?_
  rw [eval_neg_eq_map, eval_neg_eq_map]
  exact congrArg Except.ok (Complex.neg_neg_eq x)

end Formulary.Expr

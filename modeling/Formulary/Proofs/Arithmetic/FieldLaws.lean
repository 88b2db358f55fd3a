import Formulary.Number.Arith

/-!
# Laws behind the rules of simplification

The rules for signs, sums, products, quotients and calls are equations between numbers. They need
neither associativity nor distributivity.

An operation of the machine may give a zero with a minus sign, which no value keeps. So the equations
are those between values: both sides in the form in which they are kept (`Arith.normalize`). They are
asked of the numbers with a property, and where the result on the right has it too. The numbers may
be the finite ones of an arithmetic with infinities.

* `OperatorLawsOn P`: the equations for signs, sums, products and quotients. Finite machine numbers
  without negative zero have these, though not all that follow.
* `FieldLawsOn P`: these, and what the simplifier knows of functions.
* `PowerLawsOn P euler`: the equations behind the rules for powers, `euler` being Euler's number. A
  power of zero to an exponent other than zero is zero, or it lacks the property.
* `FieldLaws K`: the equations for all numbers of an arithmetic that keeps every number as it is.
  `FieldLaws.on`: they are the equations between values.
-/

namespace Formulary

universe u

variable {K : Type u} [Arith K]

/-- The laws of signs, sums, products and quotients between values with the property. -/
structure OperatorLawsOn (P : K → Prop) : Prop where
  normalize_eq {a : K} (ha : P a) : Arith.normalize a = a
  /-- What tests equal to a number is that number, as it is kept. -/
  eq_of_beq {a b : K} (ha : P a) (h : (a == b) = true) : a = Arith.normalize b
  zero_beq : ((Arith.ofNat 0 : K) == Arith.ofNat 0) = true
  whole {n : Nat} (h : n ≤ 10) : P (Arith.ofNat n)
  neg {a : K} (ha : P a) : P (Arith.normalize (-a))
  add_comm {a b : K} (ha : P a) (hb : P b) (hr : P (Arith.normalize (a + b))) :
    Arith.normalize (b + a) = Arith.normalize (a + b)
  mul_comm {a b : K} (ha : P a) (hb : P b) (hr : P (Arith.normalize (a * b))) :
    Arith.normalize (b * a) = Arith.normalize (a * b)
  zero_add {a : K} (ha : P a) : Arith.normalize (Arith.ofNat 0 + a) = a
  one_mul {a : K} (ha : P a) : Arith.normalize (Arith.ofNat 1 * a) = a
  zero_mul {a : K} (ha : P a) : Arith.normalize (Arith.ofNat 0 * a) = Arith.ofNat 0
  minusOne_mul {a : K} (ha : P a) :
    Arith.normalize (Arith.normalize (-Arith.ofNat 1) * a) = Arith.normalize (-a)
  div_one {a : K} (ha : P a) : Arith.normalize (a / Arith.ofNat 1) = a
  div_minusOne {a : K} (ha : P a) :
    Arith.normalize (a / Arith.normalize (-Arith.ofNat 1)) = Arith.normalize (-a)
  add_self {a : K} (ha : P a) (hr : P (Arith.normalize (a + a))) :
    Arith.normalize (Arith.ofNat 2 * a) = Arith.normalize (a + a)
  sub_self {a : K} (ha : P a) : Arith.normalize (a - a) = Arith.ofNat 0
  zero_sub {a : K} (ha : P a) : Arith.normalize (Arith.ofNat 0 - a) = Arith.normalize (-a)
  add_neg {a b : K} (ha : P a) (hb : P b) (hr : P (Arith.normalize (a - b))) :
    Arith.normalize (a + Arith.normalize (-b)) = Arith.normalize (a - b)
  sub_neg {a b : K} (ha : P a) (hb : P b) (hr : P (Arith.normalize (a + b))) :
    Arith.normalize (a - Arith.normalize (-b)) = Arith.normalize (a + b)
  neg_neg {a : K} (ha : P a) : Arith.normalize (-Arith.normalize (-a)) = a
  neg_mul {a b : K} (ha : P a) (hb : P b) (hr : P (Arith.normalize (a * b))) :
    Arith.normalize (Arith.normalize (-a) * b) = Arith.normalize (-Arith.normalize (a * b))
  neg_div {a b : K} (ha : P a) (hb : P b) (h : Arith.isZero b = false)
    (hr : P (Arith.normalize (a / b))) :
    Arith.normalize (Arith.normalize (-a) / b) = Arith.normalize (-Arith.normalize (a / b))
  div_neg {a b : K} (ha : P a) (hb : P b) (h : Arith.isZero b = false)
    (hr : P (Arith.normalize (a / b))) :
    Arith.normalize (a / Arith.normalize (-b)) = Arith.normalize (-Arith.normalize (a / b))

/-- The laws of the operators, and what the simplifier knows of functions. -/
structure FieldLawsOn (P : K → Prop) : Prop extends OperatorLawsOn P where
  sin_neg {a : K} (ha : P a) (hr : P (Arith.normalize (Arith.apply .sin a))) :
    Arith.normalize (Arith.apply .sin (Arith.normalize (-a))) =
      Arith.normalize (-Arith.normalize (Arith.apply .sin a))
  tan_neg {a : K} (ha : P a) (hr : P (Arith.normalize (Arith.apply .tan a))) :
    Arith.normalize (Arith.apply .tan (Arith.normalize (-a))) =
      Arith.normalize (-Arith.normalize (Arith.apply .tan a))
  cos_neg {a : K} (ha : P a) (hr : P (Arith.normalize (Arith.apply .cos a))) :
    Arith.normalize (Arith.apply .cos (Arith.normalize (-a))) =
      Arith.normalize (Arith.apply .cos a)
  sin_zero : Arith.normalize (Arith.apply .sin (Arith.ofNat 0 : K)) = Arith.ofNat 0
  tan_zero : Arith.normalize (Arith.apply .tan (Arith.ofNat 0 : K)) = Arith.ofNat 0
  cos_zero : Arith.normalize (Arith.apply .cos (Arith.ofNat 0 : K)) = Arith.ofNat 1
  log10_ten : Arith.normalize (Arith.apply .log10 (Arith.ofNat 10 : K)) = Arith.ofNat 1

/-- The two names of the natural logarithm. -/
def Builtin.isNaturalLog (f : Builtin) : Bool :=
  f == .log || f == .ln

/-- The laws of powers and logarithms between values, where `euler` is Euler's number. -/
structure PowerLawsOn (P : K → Prop) (euler : K) : Prop where
  pow_zero {a : K} (ha : P a) : Arith.normalize (Arith.pow a (Arith.ofNat 0)) = Arith.ofNat 1
  pow_one {a : K} (ha : P a) : Arith.normalize (Arith.pow a (Arith.ofNat 1)) = a
  one_pow {b : K} (hb : P b) : Arith.normalize (Arith.pow (Arith.ofNat 1) b) = Arith.ofNat 1
  zero_pow {b : K} (hb : P b) (h : Arith.isZero b = false)
    (hr : P (Arith.normalize (Arith.pow (Arith.ofNat 0) b))) :
    Arith.normalize (Arith.pow (Arith.ofNat 0) b) = Arith.ofNat 0
  isRight_zero : Arith.isRight (Arith.ofNat 0 : K) = false
  /-- A power with a negative exponent is the reciprocal of one that is not zero. -/
  pow_negative {a b : K} (ha : P a) (hb : P b) (h : Arith.isNegative b = true)
    (hr : P (Arith.normalize (Arith.pow a b))) :
    P (Arith.normalize (Arith.pow a (Arith.normalize (-b)))) ∧
      Arith.isZero (Arith.normalize (Arith.pow a (Arith.normalize (-b)))) = false ∧
      Arith.normalize (Arith.ofNat 1 / Arith.normalize (Arith.pow a (Arith.normalize (-b)))) =
        Arith.normalize (Arith.pow a b)
  pow_even {a b : K} {k : Int} (ha : P a) (hb : P b) (h : Arith.integer? b = some k)
    (hk : k % 2 = 0) (hr : P (Arith.normalize (Arith.pow a b))) :
    Arith.normalize (Arith.pow (Arith.normalize (-a)) b) = Arith.normalize (Arith.pow a b)
  pow_odd {a b : K} {k : Int} (ha : P a) (hb : P b) (h : Arith.integer? b = some k)
    (hk : k % 2 ≠ 0) (hr : P (Arith.normalize (Arith.pow a b))) :
    Arith.normalize (Arith.pow (Arith.normalize (-a)) b) =
      Arith.normalize (-Arith.normalize (Arith.pow a b))
  ten_pow_log10 {a : K} (ha : P a) (h : P (Arith.normalize (Arith.apply .log10 a))) :
    Arith.normalize (Arith.pow (Arith.ofNat 10) (Arith.normalize (Arith.apply .log10 a))) = a
  euler_pow_log {a : K} {f : Builtin} (hf : f.isNaturalLog = true) (ha : P a)
    (h : P (Arith.normalize (Arith.apply f a))) :
    Arith.normalize (Arith.pow euler (Arith.normalize (Arith.apply f a))) = a
  log_euler {f : Builtin} (hf : f.isNaturalLog = true) :
    Arith.normalize (Arith.apply f euler) = Arith.ofNat 1

variable (K) in
/-- The laws for all numbers of an arithmetic that keeps every number as it is. -/
structure FieldLaws : Prop where
  /-- Numbers that test equal are equal. -/
  eq_of_beq {a b : K} (h : (a == b) = true) : a = b
  zero_beq : ((Arith.ofNat 0 : K) == Arith.ofNat 0) = true
  normalize_eq (a : K) : Arith.normalize a = a
  add_comm (a b : K) : a + b = b + a
  mul_comm (a b : K) : a * b = b * a
  zero_add (a : K) : Arith.ofNat 0 + a = a
  one_mul (a : K) : Arith.ofNat 1 * a = a
  zero_mul (a : K) : Arith.ofNat 0 * a = Arith.ofNat 0
  minusOne_mul (a : K) : -Arith.ofNat 1 * a = -a
  div_one (a : K) : a / Arith.ofNat 1 = a
  div_minusOne (a : K) : a / -Arith.ofNat 1 = -a
  add_self (a : K) : a + a = Arith.ofNat 2 * a
  sub_self (a : K) : a - a = Arith.ofNat 0
  zero_sub (a : K) : Arith.ofNat 0 - a = -a
  add_neg (a b : K) : a + -b = a - b
  neg_neg (a : K) : - -a = a
  neg_mul (a b : K) : -a * b = -(a * b)
  neg_div (a : K) {b : K} (h : Arith.isZero b = false) : -a / b = -(a / b)
  div_neg (a : K) {b : K} (h : Arith.isZero b = false) : a / -b = -(a / b)
  sin_neg (a : K) : Arith.apply .sin (-a) = -Arith.apply .sin a
  tan_neg (a : K) : Arith.apply .tan (-a) = -Arith.apply .tan a
  cos_neg (a : K) : Arith.apply .cos (-a) = Arith.apply .cos a
  sin_zero : Arith.apply .sin (Arith.ofNat 0 : K) = Arith.ofNat 0
  tan_zero : Arith.apply .tan (Arith.ofNat 0 : K) = Arith.ofNat 0
  cos_zero : Arith.apply .cos (Arith.ofNat 0 : K) = Arith.ofNat 1
  log10_ten : Arith.apply .log10 (Arith.ofNat 10 : K) = Arith.ofNat 1

/-- The laws for all numbers are laws between values. -/
theorem FieldLaws.on (laws : FieldLaws K) : FieldLawsOn fun _ : K => True where
  normalize_eq _ := laws.normalize_eq _
  eq_of_beq _ h := by rw [laws.normalize_eq, laws.eq_of_beq h]
  zero_beq := laws.zero_beq
  whole _ := trivial
  neg _ := trivial
  add_comm _ _ _ := by rw [laws.add_comm]
  mul_comm _ _ _ := by rw [laws.mul_comm]
  zero_add _ := by rw [laws.zero_add, laws.normalize_eq]
  one_mul _ := by rw [laws.one_mul, laws.normalize_eq]
  zero_mul _ := by rw [laws.zero_mul, laws.normalize_eq]
  minusOne_mul _ := by rw [laws.normalize_eq (-Arith.ofNat 1), laws.minusOne_mul]
  div_one _ := by rw [laws.div_one, laws.normalize_eq]
  div_minusOne _ := by rw [laws.normalize_eq (-Arith.ofNat 1), laws.div_minusOne]
  add_self _ _ := by rw [laws.add_self]
  sub_self _ := by rw [laws.sub_self, laws.normalize_eq]
  zero_sub _ := by rw [laws.zero_sub]
  add_neg {a b} _ _ _ := by rw [laws.normalize_eq (-b), laws.add_neg]
  sub_neg {a b} _ _ _ := by rw [laws.normalize_eq (-b), ← laws.add_neg, laws.neg_neg]
  neg_neg {a} _ := by rw [laws.normalize_eq (-a), laws.neg_neg, laws.normalize_eq]
  neg_mul {a b} _ _ _ := by rw [laws.normalize_eq (-a), laws.normalize_eq (a * b), laws.neg_mul]
  neg_div {a b} _ _ h _ := by
    rw [laws.normalize_eq (-a), laws.normalize_eq (a / b), laws.neg_div a h]
  div_neg {a b} _ _ h _ := by
    rw [laws.normalize_eq (-b), laws.normalize_eq (a / b), laws.div_neg a h]
  sin_neg {a} _ _ := by
    rw [laws.normalize_eq (-a), laws.normalize_eq (Arith.apply .sin a), laws.sin_neg]
  tan_neg {a} _ _ := by
    rw [laws.normalize_eq (-a), laws.normalize_eq (Arith.apply .tan a), laws.tan_neg]
  cos_neg {a} _ _ := by rw [laws.normalize_eq (-a), laws.cos_neg]
  sin_zero := by rw [laws.sin_zero, laws.normalize_eq]
  tan_zero := by rw [laws.tan_zero, laws.normalize_eq]
  cos_zero := by rw [laws.cos_zero, laws.normalize_eq]
  log10_ten := by rw [laws.log10_ten, laws.normalize_eq]

end Formulary

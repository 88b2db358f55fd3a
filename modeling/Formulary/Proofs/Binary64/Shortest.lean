import Formulary.Proofs.Binary64.Order
import Formulary.Proofs.Binary64.Overflow
import Formulary.Proofs.Printing.Positional

/-!
# Doubles that are written out

A finite double is written as a decimal of the interval that is rounded to it. The upper end of the
interval of the greatest double is the number from which on doubles overflow, and it does not belong
to the interval. So what is written is read as a finite double.

* `inSteps_eq`, `ratio_eq`: fractions over grids and powers of two, with exponents of either sign.
* `Decimal.Bracket.Below b bound`: the points of the interval are less than a natural number.
* `below_shortest`: the decimal that is searched is one of them.
* `exists_decode`: the parts of a finite double without a minus sign.
* **`isFinite_ofDecimal_shortest`**: what is written of a double is rounded to a finite double.
-/

namespace Formulary

/-! ### Decimals of an interval -/

namespace Decimal

theorem inSteps_eq (num den : Nat) (k : Int) :
    inSteps num den k = (num * 10 ^ (-k).toNat, den * 10 ^ k.toNat) := by
  cases k with
  | ofNat n =>
    show (num, den * 10 ^ n) = (num * 10 ^ (-(n : Int)).toNat, den * 10 ^ n)
    rw [Int.toNat_neg_natCast, pow_zero, mul_one]
  | negSucc n =>
    show (num * 10 ^ (n + 1), den) = (num * 10 ^ (n + 1), den * 10 ^ 0)
    rw [pow_zero, mul_one]

/-- The interval lies below a natural number, which may be its upper end if that does not belong to
it. -/
structure Bracket.Below (b : Bracket) (bound : Nat) : Prop where
  value_lt : b.value < bound * b.den
  high_le : b.high ≤ bound * b.den
  high_lt : b.closed = true → b.high < bound * b.den

section Search

variable {b : Bracket} {bound : Nat} {k : Int} {n : Nat}

theorem below_of_mul_lt
    (h : n * (b.den * 10 ^ k.toNat) < bound * b.den * 10 ^ (-k).toNat) : Below ⟨n, k⟩ bound := by
  refine Nat.lt_of_mul_lt_mul_right (a := b.den) ?_
  calc n * 10 ^ k.toNat * b.den = n * (b.den * 10 ^ k.toNat) := by ring
    _ < bound * b.den * 10 ^ (-k).toNat := h
    _ = bound * 10 ^ (-k).toNat * b.den := by ring

theorem below_of_holds (hb : b.Below bound) (h : b.holds k n = true) : Below ⟨n, k⟩ bound := by
  refine below_of_mul_lt (b := b) ?_
  unfold Bracket.holds at h
  rw [inSteps_eq, inSteps_eq] at h
  dsimp only at h
  split at h
  · next hclosed =>
    have hle := of_decide_eq_true (Bool.and_eq_true_iff.1 h).2
    exact lt_of_le_of_lt hle (Nat.mul_lt_mul_of_pos_right (hb.high_lt hclosed) (by positivity))
  · have hlt := of_decide_eq_true (Bool.and_eq_true_iff.1 h).2
    exact lt_of_lt_of_le hlt (Nat.mul_le_mul_right _ hb.high_le)

theorem holds_of_gridPoint? (h : b.gridPoint? k = some n) : b.holds k n = true := by
  unfold Bracket.gridPoint? at h
  dsimp only at h
  split at h
  · next hfloor =>
    split at h
    · next hceil =>
      cases h
      exact (Bool.and_eq_true_iff.1 hceil).1
    · cases h
      exact hfloor
  · split at h
    · next hceil =>
      cases h
      exact hceil
    · cases h

theorem below_gridFloor (hb : b.Below bound) : Below ⟨gridFloor b.value b.den k, k⟩ bound := by
  refine below_of_mul_lt (b := b) ?_
  unfold gridFloor
  rw [inSteps_eq]
  exact lt_of_le_of_lt (Nat.div_mul_le_self _ _)
    (Nat.mul_lt_mul_of_pos_right hb.value_lt (by positivity))

theorem below_search (hb : b.Below bound) (grids : Nat) (k : Int) :
    (b.search grids k).Below bound := by
  induction grids generalizing k with
  | zero => exact below_gridFloor hb
  | succ grids ih =>
    unfold Bracket.search
    cases h : b.gridPoint? k with
    | none => exact ih (k - 1)
    | some n => exact below_of_holds hb (holds_of_gridPoint? h)

end Search

end Decimal

namespace Binary64

open Float.Model Float.Model.UnpackedFloat

/-! ### The interval of a double -/

theorem ratio_eq (m : Nat) (q : Int) : ratio m q = (m * 2 ^ q.toNat, 2 ^ (-q).toNat) := by
  cases q with
  | ofNat n =>
    show (m <<< n, 1) = (m * 2 ^ n, 2 ^ (-(n : Int)).toNat)
    rw [Nat.shiftLeft_eq, Int.toNat_neg_natCast, pow_zero]
  | negSucc n =>
    show (m, 1 <<< (n + 1)) = (m * 2 ^ 0, 2 ^ (n + 1))
    rw [Nat.shiftLeft_eq, pow_zero, mul_one, one_mul]

/-- The interval of a double lies below the number from which on doubles overflow. -/
theorem below_bracket {m : Nat} {q : Int} (hm : m < 2 ^ 53) (hq : q ≤ 971) :
    (bracket m q).Below overflowBound := by
  have hexponent : (q - 2).toNat ≤ 969 := by omega
  have hbound {n : Nat} (h : n ≤ 2 * (2 ^ 54 - 1)) :
      n * 2 ^ (q - 2).toNat ≤ overflowBound * 2 ^ (-(q - 2)).toNat :=
    calc n * 2 ^ (q - 2).toNat ≤ 2 * (2 ^ 54 - 1) * 2 ^ 969 :=
          Nat.mul_le_mul h (pow_le_pow_right₀ one_le_two hexponent)
      _ = overflowBound := by decide +kernel
      _ ≤ overflowBound * 2 ^ (-(q - 2)).toNat := Nat.le_mul_of_pos_right _ (by positivity)
  have hlt {n : Nat} (h : n < 2 * (2 ^ 54 - 1)) :
      n * 2 ^ (q - 2).toNat < overflowBound * 2 ^ (-(q - 2)).toNat :=
    lt_of_lt_of_le (Nat.mul_lt_mul_of_pos_right n.lt_succ_self (by positivity)) (hbound h)
  unfold bracket
  rw [ratio_eq, one_mul]
  refine ⟨?_, ?_, fun hclosed => ?_⟩
  · exact hlt (n := 4 * m) (by omega)
  · exact hbound (n := 4 * m + 2) (by omega)
  · have heven : m % 2 = 0 := of_decide_eq_true hclosed
    exact hlt (n := 4 * m + 2) (by omega)

theorem below_shortest {m : Nat} {q : Int} (hm : m < 2 ^ 53) (hq : q ≤ 971) :
    (shortest m q).Below overflowBound :=
  Decimal.below_search (below_bracket hm hq) 24 _

/-- The parts of a finite double without a minus sign. -/
theorem exists_decode {x : Float} (hf : (unpacked x).isFinite = true)
    (hplus : isPlus (unpacked x) = true) :
    ∃ m q, decode x = .finite false m q ∧ m < 2 ^ 53 ∧ q ≤ 971 := by
  rw [decode_eq_partsOf]
  cases hx : unpacked x with
  | finite s m e hm =>
    rw [hx] at hplus
    obtain rfl := sign_eq_of_isPlus hplus
    obtain ⟨hm, he⟩ := bounds_of_unpacked hx
    exact ⟨m, e, rfl, hm, he⟩
  | zero s =>
    rw [hx] at hplus
    obtain rfl := sign_eq_of_isPlus hplus
    exact ⟨0, -1074, rfl, by decide, by decide⟩
  | _ =>
    rw [hx] at hf
    exact absurd hf Bool.false_ne_true

/-! ### Reading what is written -/

theorem below_expanded {d : Decimal} {bound : Nat} (h : d.Below bound) :
    d.expanded.Below bound := by
  unfold Decimal.Below at h
  show d.digits * 10 ^ d.exponent.toNat * 10 ^ (-((-d.exponent).toNat : Int)).toNat <
    bound * 10 ^ (- -((-d.exponent).toNat : Int)).toNat
  rw [Int.toNat_neg_natCast, pow_zero, mul_one, Int.neg_neg, Int.toNat_natCast]
  exact h

/-- The decimal that a double is written as is rounded to a finite double. -/
theorem isFinite_ofDecimal_shortest {m : Nat} {q : Int} (hm : m < 2 ^ 53) (hq : q ≤ 971) :
    (unpacked (ofDecimal (shortest m q).expanded)).isFinite = true := by
  refine isFinite_ofDecimal ?_ (below_expanded (below_shortest hm hq))
  exact Int.neg_nonpos_of_nonneg (Int.natCast_nonneg _)

end Binary64

end Formulary

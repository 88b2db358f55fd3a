import Formulary.Proofs.Arithmetic.ZeroLaws

/-!
# Sums with numerals

What an arithmetic is to do with a real and an imaginary numeral for them to be one numeral: their sum
is the number with both parts, and they may be added to any number at once or one by one.

* `NumeralLaws R`: these two laws; and zero, the part that each numeral lacks, is finite.
* The instance for `Double`: machine numbers obey them, whatever number is added to.
-/

namespace Formulary

open RealArith

universe u

/-- The laws of sums with numerals. -/
class NumeralLaws (R : Type u) [RealArith R] : Prop where
  isFinite_zero : RealArith.isFinite (0 : R) = true
  /-- A real and an imaginary numeral add up to the number with both parts. -/
  sum (d e : Decimal) (hd : RealArith.isFinite (ofDecimal d : R) = true)
    (he : RealArith.isFinite (ofDecimal e : R) = true) :
    Arith.normalize (Complex.ofReal (ofDecimal d) + ⟨0, ofDecimal e⟩) =
      (⟨ofDecimal d, ofDecimal e⟩ : Complex R)
  /-- They may be added one by one. -/
  regroup (z : Complex R) (d e : Decimal) (hd : RealArith.isFinite (ofDecimal d : R) = true)
    (he : RealArith.isFinite (ofDecimal e : R) = true) :
    Arith.normalize (Arith.normalize (z + Complex.ofReal (ofDecimal d)) + ⟨0, ofDecimal e⟩) =
      Arith.normalize (z + ⟨ofDecimal d, ofDecimal e⟩)

/-! ### Machine numbers -/

namespace Double

open Float.Model Binary64

theorem minusZero_add (x : Float) : -0.0 + x = x := by
  show packed (UnpackedFloat.add Format.binary64 (.zero .negative) (unpacked x)) = x
  have hu : UnpackedFloat.add Format.binary64 (.zero .negative) (unpacked x) = unpacked x := by
    cases unpacked x with
    | zero s => cases s <;> rfl
    | _ => rfl
  rw [hu, packed_unpacked]

/-- Before a number that is no negative zero is added, zero may be, to any number. -/
theorem add_zero_add_of_not_isMinusZero (a : Double) {b : Double}
    (hf : RealArith.isFinite b = true) (h : isMinusZero b = false) : a + 0 + b = a + b := by
  cases hzero : isMinusZero a with
  | false => exact ZeroLaws.add_zero_add a b hzero hf
  | true =>
    obtain ⟨y, rfl, hy⟩ := exists_of_isFinite hf
    cases a with
    | undefined s => rfl
    | defined x =>
      have hx : x = -0.0 := by
        obtain ⟨hbeq, hsign⟩ := Bool.and_eq_true_iff.1 hzero
        obtain ⟨s, hs⟩ := zero_of_beq_zero hbeq
        cases s with
        | negative => exact eq_minusZero hs
        | positive =>
          obtain rfl : x = 0.0 := unpacked_injective hs
          exact absurd hsign (by decide +kernel)
      show ofFloat (x + 0.0) + defined y = ofFloat (x + y)
      rw [hx, minusZero_add, minusZero_add, ofFloat_of_isFinite hy]
      exact ZeroLaws.zero_add (defined y) hf h

end Double

/-- Machine numbers obey the laws of sums with numerals. -/
instance : NumeralLaws Double where
  isFinite_zero := SignLaws.isFinite_ofNat 0 (by omega)
  sum d e hd he := by
    have hzd := ZeroLaws.isMinusZero_ofDecimal (R := Double) d
    have hze := ZeroLaws.isMinusZero_ofDecimal (R := Double) e
    show (⟨ofDecimal d + 0 + 0, 0 + ofDecimal e + 0⟩ : Complex Double) = _
    rw [ZeroLaws.add_zero _ hd hzd, ZeroLaws.add_zero _ hd hzd, ZeroLaws.zero_add _ he hze,
      ZeroLaws.add_zero _ he hze]
  regroup z d e hd he := by
    show (⟨z.re + ofDecimal d + 0 + 0 + 0, z.im + 0 + 0 + ofDecimal e + 0⟩ : Complex Double) =
      ⟨z.re + ofDecimal d + 0, z.im + ofDecimal e + 0⟩
    rw [ZeroLaws.add_zero_add_zero, ZeroLaws.add_zero_add_zero, ZeroLaws.add_zero_add_zero,
      Double.add_zero_add_of_not_isMinusZero _ he (ZeroLaws.isMinusZero_ofDecimal e)]

end Formulary

import Formulary.Proofs.Arithmetic.NumeralLaws
import Formulary.Proofs.Arithmetic.TextLaws
import Formulary.Proofs.Printing.Reread

/-!
# Minus signs of written numbers

A number is written with at most one minus sign, before everything else. The numbers that have one
are the negative ones and the negative zero.

* `MinusLaws R`: the laws.
* The instance for `Double`: machine numbers obey them, the infinite and undefined ones too.
-/

namespace Formulary

open RealArith

universe u

/-- The laws of minus signs in written numbers. -/
class MinusLaws (R : Type u) [RealArith R] : Prop extends TextLaws R where
  /-- A minus sign stands before everything else. -/
  minus_not_mem_tail (a : R) : '-' ∉ (text a).toList.tail
  text_of_isMinusZero (a : R) (h : isMinusZero a = true) : text a = "-0"

/-- A plain numeral has no minus sign. -/
theorem minus_not_mem_of_isPlainNumeral {cs : List Char} (h : isPlainNumeral cs = true) :
    '-' ∉ cs :=
  fun hmem => ne_of_isPlainNumeral h hmem (by decide) (by decide) rfl

namespace Double

open Float.Model Binary64

/-- There is one zero with a minus sign. -/
theorem eq_of_isMinusZero {a : Double} (h : isMinusZero a = true) : a = defined (-0.0) := by
  obtain ⟨hbeq, hsign⟩ := Bool.and_eq_true_iff.1 h
  cases a with
  | undefined s => exact absurd hbeq Bool.false_ne_true
  | defined x =>
    obtain ⟨s, hs⟩ := zero_of_beq_zero hbeq
    cases s with
    | negative => rw [eq_minusZero hs]
    | positive =>
      obtain rfl : x = 0.0 := unpacked_injective hs
      exact absurd hsign (by decide +kernel)

/-- What is written after the sign of a double has no minus sign. -/
theorem minus_not_mem_tail_text (x : Float) : '-' ∉ (Binary64.text x).toList.tail := by
  unfold Binary64.text textWith
  cases decode x with
  | undefined => decide
  | infinite negative => cases negative <;> decide
  | finite negative m q =>
    have hbody : '-' ∉ (if m = 0 then "0" else String.ofList (shortest m q).positional).toList := by
      split
      · decide
      · rw [String.toList_ofList]
        exact minus_not_mem_of_isPlainNumeral (isPlainNumeral_positional _)
    dsimp only
    cases negative with
    | true =>
      rw [if_pos rfl, String.toList_append]
      exact hbody
    | false =>
      rw [if_neg Bool.false_ne_true, String.empty_append]
      exact fun h => hbody (List.mem_of_mem_tail h)

end Double

/-- Machine numbers obey the laws. -/
instance : MinusLaws Double where
  minus_not_mem_tail a := Double.minus_not_mem_tail_text a.toFloat
  text_of_isMinusZero a h := by
    rw [Double.eq_of_isMinusZero h]
    decide +kernel

end Formulary

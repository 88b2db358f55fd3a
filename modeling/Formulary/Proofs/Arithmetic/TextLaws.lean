import Formulary.Expr.Literal
import Formulary.Proofs.Arithmetic.ZeroLaws
import Formulary.Proofs.Binary64.Shortest

/-!
# Numbers that are written out

A finite number without a minus sign is written as digits with at most a point among them, and these
are read as a finite number again.

* `TextLaws R`: the laws.
* `Double.exists_text_eq`: a double is written as `0` or as the shortest decimal that is rounded to
  it.
* The instance for `Double`: machine numbers obey the laws.
-/

namespace Formulary

open RealArith

universe u

/-- The laws of written numbers. -/
class TextLaws (R : Type u) [RealArith R] : Prop extends ZeroLaws R where
  isPlainNumeral_text (a : R) (hf : RealArith.isFinite a = true) (h : lt a 0 = false)
    (h' : isMinusZero a = false) : isPlainNumeral (text a).toList = true
  realValue?_text (a : R) (hf : RealArith.isFinite a = true) (h : lt a 0 = false)
    (h' : isMinusZero a = false) :
    ∃ r : R, realValue? (text a).toList = some r ∧ RealArith.isFinite r = true

namespace Double

open Float.Model Binary64

/-- A double without a minus sign is written as `0`, or as the decimal of its interval. -/
theorem exists_text_eq {a : Double} (hf : RealArith.isFinite a = true) (h : lt a 0 = false)
    (h' : isMinusZero a = false) :
    (text a).toList = ['0'] ∨
      ∃ m q, (text a).toList = (shortest m q).positional ∧ m < 2 ^ 53 ∧ q ≤ 971 := by
  obtain ⟨x, rfl, hx⟩ := exists_of_isFinite hf
  rw [isFinite_eq] at hx
  rw [lt_view] at h
  have hplus := (isPlus_or_of_not_lt_zero h).resolve_right (ne_of_not_isMinusZero h')
  obtain ⟨m, q, hdecode, hm, hq⟩ := exists_decode hx hplus
  show (Binary64.text x).toList = _ ∨ ∃ m q, (Binary64.text x).toList = _ ∧ _
  unfold Binary64.text textWith
  rw [hdecode]
  dsimp only
  rw [if_neg Bool.false_ne_true, String.empty_append]
  split
  · exact .inl rfl
  · exact .inr ⟨m, q, String.toList_ofList, hm, hq⟩

/-- What is written is read as a finite double. -/
theorem realValue?_of_ofNumeral? {cs : List Char} {d : Decimal}
    (h : Decimal.ofNumeral? cs = some d) (hd : (unpacked (Binary64.ofDecimal d)).isFinite = true) :
    ∃ r : Double, realValue? cs = some r ∧ RealArith.isFinite r = true := by
  refine ⟨ofDecimal d, ?_, (isFinite_view _).trans hd⟩
  unfold realValue?
  rw [h]
  rfl

end Double

open Double Binary64 in
instance : TextLaws Double where
  isPlainNumeral_text a hf h h' := by
    obtain htext | ⟨m, q, htext, -⟩ := exists_text_eq hf h h'
    · rw [htext]
      decide
    · rw [htext]
      exact isPlainNumeral_positional _
  realValue?_text a hf h h' := by
    obtain htext | ⟨m, q, htext, hm, hq⟩ := exists_text_eq hf h h'
    · rw [htext]
      exact realValue?_of_ofNumeral? (d := ⟨0, 0⟩) (by decide) (by decide +kernel)
    · rw [htext]
      exact realValue?_of_ofNumeral? (ofNumeral?_positional _) (isFinite_ofDecimal_shortest hm hq)

end Formulary

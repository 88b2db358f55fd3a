import Formulary.Proofs.Grammar.LetterCase
import Formulary.Proofs.Grammar.Numerals
import Formulary.Proofs.Scan.Places

/-!
# Numerals by bytes

The end of a numeral that is found byte by byte is the end of the longest numeral that the text goes
on with. Part by part, the place moves by the bytes of the part.

* `TextAt.drop`: the place after a part of what is not read.
* `TextAt.startsNumeralAt_eq`, `TextAt.fractionEnd_eq`, `TextAt.exponentEnd_eq`,
  `TextAt.unitEnd_eq`: the parts.
* **`TextAt.numeralEnd_eq`**: the whole numeral.
* `TextAt.endsInUnit_eq`: whether it has a unit.
-/

namespace Formulary

open Text

theorem isAscii_of_beq {c d : Char} (hd : isAscii d = true) (h : (c == d) = true) :
    isAscii c = true := by
  rw [eq_of_beq h]
  exact hd

theorem isAscii_of_beq_or_beq {c d e : Char} (hd : isAscii d = true) (he : isAscii e = true)
    (h : (c == d || c == e) = true) : isAscii c = true := by
  rcases Bool.or_eq_true_iff.1 h with h | h
  · exact isAscii_of_beq hd h
  · exact isAscii_of_beq he h

theorem isAscii_of_isSign {c : Char} (h : isSign c = true) : isAscii c = true :=
  isAscii_of_beq_or_beq (by decide) (by decide) h

theorem isAscii_of_isExponentMark {c : Char} (h : isExponentMark c = true) : isAscii c = true :=
  isAscii_of_beq_or_beq (by decide) (by decide) h

theorem isAscii_of_isUnit {c : Char} (h : isUnit c = true) : isAscii c = true :=
  isAscii_of_beq_or_beq (by decide) (by decide) h

theorem isAscii_of_isNumeralChar {c : Char} (h : isNumeralChar c = true) : isAscii c = true := by
  simp only [isNumeralChar, Bool.or_eq_true] at h
  rcases h with (((h | h) | h) | h) | h
  · exact isAscii_of_isDigit h
  · exact isAscii_of_beq (by decide) h
  · exact isAscii_of_isExponentMark h
  · exact isAscii_of_isSign h
  · exact isAscii_of_isUnit h

theorem not_isDigit_of_isSign {c : Char} (h : isSign c = true) : isDigit c = false := by
  rcases Bool.or_eq_true_iff.1 h with h | h
  · rw [eq_of_beq h]
    decide
  · rw [eq_of_beq h]
    decide

namespace TextAt

variable {s : String} {i : Nat} {rest cs : List Char} {c : Char}

/-- The place after a part of what is not read. -/
theorem drop (h : TextAt s i rest) (hcs : cs <+: rest) :
    TextAt s (i + byteLength cs) (rest.drop cs.length) := by
  obtain ⟨after, rfl⟩ := hcs
  rw [List.drop_left]
  exact h.advance

theorem startsNumeralAt_eq (h : TextAt s i rest) : startsNumeralAt s i = startsNumeral rest := by
  unfold startsNumeralAt
  rw [h.isDigitAt_eq, h.any_byteAt? fun c => isAscii_of_beq (by decide)]
  cases rest with
  | nil => rfl
  | cons c cs =>
    rw [startsNumeral_cons]
    show (isDigit c || (c == '.' && isDigitAt s (i + 1))) = _
    by_cases hc : c = '.'
    · subst hc
      rw [(h.tail_of_isAscii (by decide)).isDigitAt_eq]
      rfl
    · rw [beq_false_of_ne hc, Bool.false_and, Bool.or_false]
      rfl

theorem fractionEnd_eq (h : TextAt s i rest) :
    fractionEnd s i = i + byteLength (takeFraction rest) := by
  unfold fractionEnd
  rw [h.any_byteAt? fun c => isAscii_of_beq (by decide)]
  cases rest with
  | nil => rfl
  | cons c cs =>
    rw [takeFraction_cons]
    show (if c == '.' && isDigitAt s (i + 1) then skipDigits s (i + 1) else i) = _
    by_cases hc : c = '.'
    · subst hc
      have htail := h.tail_of_isAscii (by decide)
      rw [htail.isDigitAt_eq, htail.skipDigits_eq]
      split
      · exact Nat.add_assoc _ _ _
      · rfl
    · rw [beq_false_of_ne hc]
      rfl

/-- An exponent without a sign, after its mark. -/
theorem exponentEnd_of_digits {m : Char} (hm : isExponentMark m = true)
    (h : TextAt s i (m :: rest)) (hsign : rest.head?.any isSign = false) :
    exponentEnd s i = i + byteLength (if startsDigit rest then m :: takeDigits rest else []) := by
  have htail := h.tail_of_isAscii (isAscii_of_isExponentMark hm)
  have hmark : (byteAt? s i).any isExponentMark = true := by
    rw [h.any_byteAt? fun c => isAscii_of_isExponentMark]
    exact hm
  have hnone : (byteAt? s (i + 1)).any isSign = false := by
    rw [htail.any_byteAt? fun c => isAscii_of_isSign]
    exact hsign
  simp only [exponentEnd, hmark, hnone, if_true, Bool.false_eq_true, if_false, htail.isDigitAt_eq,
    htail.skipDigits_eq]
  split
  · show _ = i + (m.utf8Size + byteLength (takeDigits rest))
    rw [utf8Size_of_isAscii (isAscii_of_isExponentMark hm), Nat.add_assoc]
  · rfl

/-- An exponent with a sign. -/
theorem exponentEnd_of_sign {m g : Char} (hm : isExponentMark m = true) (hg : isSign g = true)
    (h : TextAt s i (m :: g :: rest)) :
    exponentEnd s i = i + byteLength (if startsDigit rest then m :: g :: takeDigits rest else []) := by
  have htail := h.tail_of_isAscii (isAscii_of_isExponentMark hm)
  have hdigits := htail.tail_of_isAscii (isAscii_of_isSign hg)
  have hmark : (byteAt? s i).any isExponentMark = true := by
    rw [h.any_byteAt? fun c => isAscii_of_isExponentMark]
    exact hm
  have hsign : (byteAt? s (i + 1)).any isSign = true := by
    rw [htail.any_byteAt? fun c => isAscii_of_isSign]
    exact hg
  simp only [exponentEnd, hmark, hsign, if_true, hdigits.isDigitAt_eq, hdigits.skipDigits_eq]
  split
  · show _ = i + (m.utf8Size + (g.utf8Size + byteLength (takeDigits rest)))
    rw [utf8Size_of_isAscii (isAscii_of_isExponentMark hm),
      utf8Size_of_isAscii (isAscii_of_isSign hg)]
    omega
  · rfl

theorem exponentEnd_eq (h : TextAt s i rest) :
    exponentEnd s i = i + byteLength (takeExponent rest) := by
  cases rest with
  | nil =>
    unfold exponentEnd
    rw [h.any_byteAt? fun c => isAscii_of_isExponentMark]
    rfl
  | cons m cs =>
    simp only [takeExponent]
    by_cases hm : isExponentMark m = true
    · rw [if_pos hm]
      cases cs with
      | nil => exact exponentEnd_of_digits hm h rfl
      | cons g r =>
        by_cases hg : isSign g = true
        · have hdigit : startsDigit (g :: r) = false := not_isDigit_of_isSign hg
          rw [hdigit, if_neg Bool.false_ne_true, exponentEnd_of_sign hm hg h]
          simp only [hg, Bool.true_and]
        · rw [exponentEnd_of_digits hm h (Bool.eq_false_iff.2 hg)]
          simp only [Bool.eq_false_iff.2 hg, Bool.false_and, Bool.false_eq_true, if_false]
    · rw [if_neg hm]
      unfold exponentEnd
      rw [h.any_byteAt? fun c => isAscii_of_isExponentMark]
      exact if_neg hm

theorem unitEnd_eq (h : TextAt s i rest) : unitEnd s i = i + byteLength (takeUnit rest) := by
  unfold unitEnd
  rw [h.any_byteAt? fun c => isAscii_of_isUnit]
  cases rest with
  | nil => rfl
  | cons c cs =>
    show (if isUnit c && !(charAt? s (i + 1)).any isNameContinue then i + 1 else i) = _
    by_cases hc : isUnit c = true
    · have hascii := isAscii_of_isUnit hc
      rw [(h.tail_of_isAscii hascii).charAt?_eq]
      simp only [takeUnit]
      split
      · show i + 1 = i + (c.utf8Size + 0)
        rw [utf8Size_of_isAscii hascii]
      · rfl
    · simp only [takeUnit, Bool.eq_false_iff.2 hc, Bool.false_and]
      rfl

/-- The numeral that is found byte by byte is the longest one. -/
theorem numeralEnd_eq (h : TextAt s i rest) :
    numeralEnd s i = i + byteLength (takeNumeral rest) := by
  have h₁ := h.drop (takeDigits_isPrefix rest)
  have h₂ := h₁.drop (takeFraction_isPrefix _)
  have h₃ := h₂.drop (takeExponent_isPrefix _)
  unfold numeralEnd takeNumeral
  rw [h.skipDigits_eq, h₁.fractionEnd_eq, h₂.exponentEnd_eq, h₃.unitEnd_eq]
  simp only [byteLength_append, Nat.add_assoc]

/-- Whether a numeral has a unit is seen from its last byte. -/
theorem endsInUnit_eq (hstart : startsNumeral rest = true) (h : TextAt s i rest) :
    endsInUnit s (i + byteLength (takeNumeral rest)) = (takeNumeral rest).getLast?.any isUnit := by
  obtain ⟨cs, c, hnumeral⟩ :=
    (List.eq_nil_or_concat (takeNumeral rest)).resolve_left (takeNumeral_ne_nil hstart)
  rw [List.concat_eq_append] at hnumeral
  have hmem : c ∈ takeNumeral rest := by simp [hnumeral]
  have hascii := isAscii_of_isNumeralChar (isNumeralChar_of_mem_takeNumeral hmem)
  obtain ⟨after, hafter⟩ := takeNumeral_isPrefix rest
  rw [hnumeral, List.append_assoc] at hafter
  -- the last character of a numeral is one byte long
  have hlength : byteLength (cs ++ [c]) = byteLength cs + 1 := by
    rw [byteLength_append]
    show byteLength cs + (c.utf8Size + 0) = _
    rw [utf8Size_of_isAscii hascii]
  have hlast : TextAt s (i + byteLength cs) ([c] ++ after) := by
    rw [← hafter] at h
    exact h.advance
  unfold endsInUnit
  rw [hnumeral, hlength, ← Nat.add_assoc, Nat.add_sub_cancel,
    hlast.any_byteAt? fun c => isAscii_of_isUnit, List.getLast?_append]
  rfl

end TextAt

end Formulary

import Formulary.Proofs.Grammar.Numerals
import Formulary.Proofs.Printing.Lexing

/-!
# Numerals have values

What the lexer takes for a numeral, the reader of decimals reads to its end: digits with a point
among or before them, and an exponent only where it has digits. So a numeral of a text is real or
imaginary, and what is written of it has a value.

* `exists_exponentValue?`, `exists_ofNumeral?`: no exponent and no numeral is refused.
* `takeFraction_of_startsNumeral`: a numeral without digits before the point has some after it.
* `exists_of_mem_lexemes`: the numerals of a text.
* **`exists_decimal_of_isReal`**, **`exists_decimal_of_isImaginary`**: what is written of them has a
  value.
-/

namespace Formulary

open Text

theorem dropWhile_append_stop {p : Char → Bool} {cs s : List Char} (hcs : ∀ c ∈ cs, p c = true)
    (hs : ∀ c ∈ s.head?, p c = false) : (cs ++ s).dropWhile p = s := by
  have hsplit := List.takeWhile_append_dropWhile (p := p) (l := cs ++ s)
  rw [takeWhile_append_stop hcs hs] at hsplit
  exact List.append_cancel_left hsplit

/-! ### Exponents -/

/-- Where an exponent begins, neither digits nor a fraction go on. -/
theorem head_takeExponent {s : List Char} {c : Char} (h : c ∈ (takeExponent s).head?) :
    isDigit c = false ∧ c ≠ '.' := by
  rcases exists_of_takeExponent s with he | ⟨m, gs, r, d, ds, he, -, hm, -⟩
  · rw [he] at h
    cases h
  · rw [he] at h
    obtain rfl : m = c := Option.some.inj h
    rcases Bool.or_eq_true_iff.1 hm with hm | hm
    · rw [eq_of_beq hm]
      decide
    · rw [eq_of_beq hm]
      decide

theorem exponentDigits?_takeDigits {s ds : List Char} {d : Char} (h : takeDigits s = d :: ds) :
    Decimal.exponentDigits? (takeDigits s) = some (digitsValue (takeDigits s)) := by
  have hall : (takeDigits s).all isDigit = true := List.all_takeWhile
  unfold Decimal.exponentDigits?
  rw [hall, h]
  rfl

/-- An exponent that the lexer takes has a value. -/
theorem exists_exponentValue? (s : List Char) :
    ∃ e, Decimal.exponentValue? (takeExponent s) = some e := by
  rcases exists_of_takeExponent s with he | ⟨m, gs, r, d, ds, he, hr, hm, hgs⟩
  · rw [he]
    exact ⟨0, rfl⟩
  · have hdigits := exponentDigits?_takeDigits hr
    rw [he]
    unfold Decimal.exponentValue?
    dsimp only
    rw [if_pos (show (m == 'e' || m == 'E') = true from hm)]
    rcases hgs with rfl | ⟨g, rfl, hg⟩
    · -- a digit is no sign
      have hd : isDigit d = true := isDigit_of_mem_takeDigits (hr ▸ List.mem_cons_self)
      rw [List.nil_append]
      split
      · next heq =>
        rw [hr] at heq
        exact absurd (List.cons.inj heq).1 (ne_of_isDigit hd (by decide))
      · next heq =>
        rw [hr] at heq
        exact absurd (List.cons.inj heq).1 (ne_of_isDigit hd (by decide))
      · rw [hdigits]
        exact ⟨_, rfl⟩
    · rw [List.singleton_append]
      rcases Bool.or_eq_true_iff.1 hg with hg | hg
      · rw [eq_of_beq hg]
        show ∃ e, (Decimal.exponentDigits? (takeDigits r)).map (fun n => (n : Int)) = some e
        rw [hdigits]
        exact ⟨_, rfl⟩
      · rw [eq_of_beq hg]
        show ∃ e, (Decimal.exponentDigits? (takeDigits r)).map (fun n => -(n : Int)) = some e
        rw [hdigits]
        exact ⟨_, rfl⟩

/-! ### Decimals -/

/-- A numeral that begins without a digit begins with a fraction. -/
theorem takeFraction_of_startsNumeral {s : List Char} (h : startsNumeral s = true)
    (hnil : takeDigits s = []) : takeFraction s ≠ [] := by
  unfold startsNumeral at h
  split at h
  · next s => simp [takeFraction, h]
  · obtain ⟨d, ds, hds⟩ := exists_of_startsDigit h
    rw [hds] at hnil
    cases hnil

/-- What the lexer takes for a numeral has a value. -/
theorem exists_ofNumeral? {s : List Char} (h : startsNumeral s = true) :
    ∃ d, Decimal.ofNumeral? (takeDecimal s) = some d := by
  unfold takeDecimal
  dsimp only
  generalize hs₁ : s.drop (takeDigits s).length = s₁
  obtain ⟨e, he⟩ := exists_exponentValue? (s₁.drop (takeFraction s₁).length)
  have hhead {c : Char} := head_takeExponent (c := c) (s := s₁.drop (takeFraction s₁).length)
  generalize takeExponent (s₁.drop (takeFraction s₁).length) = exponent at he hhead
  have hwhole : ∀ c ∈ takeDigits s, isDigit c = true := fun c => isDigit_of_mem_takeDigits
  rcases exists_of_takeFraction s₁ with hf | ⟨r, d, ds, hf, hr⟩
  · -- without a fraction there are digits
    have hne : takeDigits s ≠ [] := fun hnil => by
      rw [hnil] at hs₁
      subst hs₁
      exact takeFraction_of_startsNumeral h hnil hf
    have htake : (takeDigits s ++ exponent).takeWhile isDigit = takeDigits s :=
      takeWhile_append_stop hwhole fun c hc => (hhead hc).1
    have hdrop : (takeDigits s ++ exponent).dropWhile isDigit = exponent :=
      dropWhile_append_stop hwhole fun c hc => (hhead hc).1
    rw [hf, List.append_nil, Decimal.ofNumeral?_of_no_point, htake, hdrop, he,
      if_neg (by simpa using hne)]
    · exact ⟨_, rfl⟩
    · intro t ht
      rw [hdrop] at ht
      exact (hhead (c := '.') (by rw [ht]; rfl)).2 rfl
  · have hfraction : ∀ c ∈ takeDigits r, isDigit c = true := fun c => isDigit_of_mem_takeDigits
    have hpoint : ∀ c ∈ ('.' :: (takeDigits r ++ exponent)).head?, isDigit c = false := by
      intro c hc
      obtain rfl : '.' = c := Option.some.inj hc
      decide
    have htext : takeDigits s ++ takeFraction s₁ ++ exponent
        = takeDigits s ++ '.' :: (takeDigits r ++ exponent) := by
      rw [hf, List.append_assoc, List.cons_append]
    have htake : (takeDigits r ++ exponent).takeWhile isDigit = takeDigits r :=
      takeWhile_append_stop hfraction fun c hc => (hhead hc).1
    have hdrop : (takeDigits r ++ exponent).dropWhile isDigit = exponent :=
      dropWhile_append_stop hfraction fun c hc => (hhead hc).1
    rw [htext, Decimal.ofNumeral?_of_point (dropWhile_append_stop hwhole hpoint), htake, hdrop, he,
      if_neg (by simp [hr])]
    exact ⟨_, rfl⟩

/-! ### Real and imaginary numerals -/

variable {s : List Char} {l : Lexeme}

theorem isReal_or_isImaginary (h : l.cls = .numeral) : l.isReal = true ∨ l.isImaginary = true := by
  unfold Lexeme.isReal Lexeme.isImaginary
  rw [h]
  cases l.chars.getLast?.any isUnit with
  | false => exact .inl rfl
  | true => exact .inr rfl

/-- The numerals of a text are a decimal, and perhaps a unit. -/
theorem exists_of_mem_lexemes (h : l ∈ lexemes s) (hcls : l.cls = .numeral) :
    ∃ r t d, l.chars = takeDecimal r ++ takeUnit t ∧
      Decimal.ofNumeral? (takeDecimal r) = some d := by
  fun_induction lexemes s with
  | case1 => cases h
  | case2 c s l' ih =>
    rcases List.mem_cons.1 h with rfl | h
    · change (firstLexeme c s).cls = .numeral at hcls
      show ∃ r t d, (firstLexeme c s).chars = takeDecimal r ++ takeUnit t ∧ _
      unfold firstLexeme at hcls ⊢
      split
      · next hstart =>
        obtain ⟨t, ht⟩ := exists_takeNumeral_eq (c :: s)
        obtain ⟨d, hd⟩ := exists_ofNumeral? hstart
        exact ⟨c :: s, t, d, ht, hd⟩
      · next hstart =>
        rw [if_neg hstart] at hcls
        split at hcls
        · cases hcls
        · split at hcls
          · cases hcls
          · split at hcls <;> cases hcls
    · exact ih h

theorem endsWithout_unit (r : List Char) : EndsWithout isUnit (takeDecimal r) :=
  endsWithout_takeDecimal (fun _ => not_unit_of_isDigit) r

/-- A numeral without a unit has a value. -/
theorem exists_decimal_of_isReal (h : l ∈ lexemes s) (hl : l.isReal = true) :
    ∃ d, Decimal.ofNumeral? l.chars = some d := by
  obtain ⟨hcls, hunit⟩ := Bool.and_eq_true_iff.1 hl
  obtain ⟨r, t, d, hchars, hd⟩ := exists_of_mem_lexemes h (eq_of_beq hcls)
  rw [hchars] at hunit ⊢
  rcases exists_of_takeUnit t with ht | ⟨c, ht, hc⟩
  · rw [ht, List.append_nil]
    exact ⟨d, hd⟩
  · rw [ht, List.getLast?_append] at hunit
    change (!isUnit c) = true at hunit
    rw [hc] at hunit
    cases hunit

/-- What is written before the unit of a numeral has a value. -/
theorem exists_decimal_of_isImaginary (h : l ∈ lexemes s) (hl : l.isImaginary = true) :
    ∃ d, Decimal.ofNumeral? l.chars.dropLast = some d := by
  obtain ⟨hcls, hunit⟩ := Bool.and_eq_true_iff.1 hl
  obtain ⟨r, t, d, hchars, hd⟩ := exists_of_mem_lexemes h (eq_of_beq hcls)
  rw [hchars] at hunit ⊢
  rcases exists_of_takeUnit t with ht | ⟨c, ht, -⟩
  · rw [ht, List.append_nil, endsWithout_unit r] at hunit
    cases hunit
  · rw [ht, List.dropLast_concat]
    exact ⟨d, hd⟩

end Formulary

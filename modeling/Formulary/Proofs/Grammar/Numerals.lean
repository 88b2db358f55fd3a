import Formulary.Proofs.Grammar.Fusing

/-!
# Numerals of a text

A numeral of a text is digits, a fraction, an exponent and a unit. A plus sign stands in it only
where it is the sign of an exponent, so it is not split anywhere.

* `exists_of_takeFraction`, `exists_of_takeExponent`, `exists_of_takeUnit`: the forms of the parts.
* `isNumeralChar_of_mem_takeNumeral`: the characters that numerals are written with.
* `Unsplit cs`: whatever stands before, the characters have no plus sign to split at.
* `EndsWithout p cs`: the characters do not end with one of the kind.
* `takeDecimal`: a numeral without its unit.
* **`isSimple_of_mem_lexemes`**: the lexemes of a text are no complex numerals.
-/

namespace Formulary

open Text

/-! ### The parts of a numeral -/

theorem isDigit_of_mem_takeDigits {s : List Char} {c : Char} (h : c ∈ takeDigits s) :
    isDigit c = true :=
  List.all_eq_true.1 List.all_takeWhile c h

/-- Where the text starts with a digit there are digits. -/
theorem exists_of_startsDigit {s : List Char} (h : startsDigit s = true) :
    ∃ d ds, takeDigits s = d :: ds := by
  cases s with
  | nil => cases h
  | cons d s =>
    unfold takeDigits
    rw [List.takeWhile_cons_of_pos (show isDigit d = true from h)]
    exact ⟨d, _, rfl⟩

theorem exists_of_takeFraction (s : List Char) :
    takeFraction s = [] ∨ ∃ r d ds, takeFraction s = '.' :: takeDigits r ∧
      takeDigits r = d :: ds := by
  unfold takeFraction
  split
  · next r =>
    split
    · next hr =>
      obtain ⟨d, ds, hds⟩ := exists_of_startsDigit hr
      exact .inr ⟨r, d, ds, rfl, hds⟩
    · exact .inl rfl
  · exact .inl rfl

/-- An exponent is a mark, perhaps a sign, and digits. -/
theorem exists_of_takeExponent (s : List Char) :
    takeExponent s = [] ∨ ∃ m gs r d ds, takeExponent s = m :: (gs ++ takeDigits r) ∧
      takeDigits r = d :: ds ∧ isExponentMark m = true ∧
      (gs = [] ∨ ∃ g, gs = [g] ∧ isSign g = true) := by
  unfold takeExponent
  split
  · next m r =>
    split
    · next hm =>
      split
      · next hr =>
        obtain ⟨d, ds, hds⟩ := exists_of_startsDigit hr
        exact .inr ⟨m, [], r, d, ds, rfl, hds, hm, .inl rfl⟩
      · split
        · next g r' hno =>
          split
          · next hg =>
            obtain ⟨hg, hr'⟩ := Bool.and_eq_true_iff.1 hg
            obtain ⟨d, ds, hds⟩ := exists_of_startsDigit hr'
            exact .inr ⟨m, [g], r', d, ds, rfl, hds, hm, .inr ⟨g, rfl, hg⟩⟩
          · exact .inl rfl
        · exact .inl rfl
    · exact .inl rfl
  · exact .inl rfl

theorem exists_of_takeUnit (s : List Char) :
    takeUnit s = [] ∨ ∃ c, takeUnit s = [c] ∧ isUnit c = true := by
  unfold takeUnit
  split
  · next c r =>
    split
    · next h => exact .inr ⟨c, rfl, (Bool.and_eq_true_iff.1 h).1⟩
    · exact .inl rfl
  · exact .inl rfl

/-- The characters that numerals are written with. -/
def isNumeralChar (c : Char) : Bool :=
  isDigit c || c == '.' || isExponentMark c || isSign c || isUnit c

theorem isNumeralChar_of_isDigit {c : Char} (h : isDigit c = true) : isNumeralChar c = true := by
  simp [isNumeralChar, h]

theorem isNumeralChar_of_mem_takeNumeral {s : List Char} {c : Char} (h : c ∈ takeNumeral s) :
    isNumeralChar c = true := by
  have hdigits {r : List Char} (h : c ∈ takeDigits r) : isNumeralChar c = true :=
    isNumeralChar_of_isDigit (isDigit_of_mem_takeDigits h)
  unfold takeNumeral at h
  simp only [List.mem_append] at h
  rcases h with ((h | h) | h) | h
  · exact hdigits h
  · rcases exists_of_takeFraction (s.drop (takeDigits s).length) with hnil | ⟨r, d, ds, hcons, -⟩
    · rw [hnil] at h
      cases h
    · rw [hcons] at h
      rcases List.mem_cons.1 h with rfl | h
      · decide
      · exact hdigits h
  · generalize List.drop _ _ = t at h
    rcases exists_of_takeExponent t with hnil | ⟨m, gs, r, d, ds, hcons, -, hm, hgs⟩
    · rw [hnil] at h
      cases h
    · rw [hcons, List.mem_cons, List.mem_append] at h
      rcases h with rfl | h | h
      · simp [isNumeralChar, hm]
      · rcases hgs with rfl | ⟨g, rfl, hg⟩
        · cases h
        · simp [isNumeralChar, List.mem_singleton.1 h, hg]
      · exact hdigits h
  · generalize List.drop _ _ = t at h
    rcases exists_of_takeUnit t with hnil | ⟨u, hcons, hu⟩
    · rw [hnil] at h
      cases h
    · rw [hcons, List.mem_singleton] at h
      simp [isNumeralChar, h, hu]

/-! ### Nowhere to split -/

/-- Whatever stands before, there is no plus sign to split at. -/
def Unsplit (cs : List Char) : Prop :=
  ∀ b, splitSumAfter b cs = none

theorem unsplit_nil : Unsplit [] :=
  fun _ => rfl

theorem Unsplit.cons {c : Char} {cs : List Char} (hc : c ≠ '+') (h : Unsplit cs) :
    Unsplit (c :: cs) := by
  intro b
  refine splitSumAfter_cons_eq_none.2 ⟨?_, h c⟩
  rw [beq_false_of_ne hc, Bool.false_and]

/-- Characters other than the plus sign add no place to split at. -/
theorem Unsplit.append {cs ds : List Char} (hcs : '+' ∉ cs) (h : Unsplit ds) :
    Unsplit (cs ++ ds) := by
  induction cs with
  | nil => exact h
  | cons c cs ih =>
    refine Unsplit.cons ?_ (ih fun hmem => hcs (List.mem_cons_of_mem _ hmem))
    rintro rfl
    exact hcs List.mem_cons_self

theorem unsplit_of_not_mem {cs : List Char} (h : '+' ∉ cs) : Unsplit cs := by
  have happend := unsplit_nil.append h
  rwa [List.append_nil] at happend

/-- The sign of an exponent is no place to split at. -/
theorem Unsplit.exponent {m g : Char} {cs : List Char} (hm : isExponentMark m = true)
    (h : Unsplit cs) : Unsplit (m :: g :: cs) := by
  intro b
  have hne : m ≠ '+' := by
    rintro rfl
    revert hm
    decide
  refine splitSumAfter_cons_eq_none.2 ⟨?_, splitSumAfter_cons_eq_none.2 ⟨?_, h g⟩⟩
  · rw [beq_false_of_ne hne, Bool.false_and]
  · rw [hm, Bool.not_true, Bool.and_false]

theorem Unsplit.splitSum {cs : List Char} (h : Unsplit cs) : splitSum cs = none := by
  cases cs with
  | nil => rfl
  | cons c cs =>
    have hcs := (splitSumAfter_cons_eq_none.1 (h c)).2
    exact Option.map_eq_none_iff.2 hcs

theorem plus_not_mem_takeDigits (s : List Char) : '+' ∉ takeDigits s := by
  intro h
  exact absurd (isDigit_of_mem_takeDigits h) (by decide)

theorem ne_of_isDigit {c d : Char} (h : isDigit c = true) (hd : isDigit d = false) : c ≠ d := by
  rintro rfl
  rw [hd] at h
  exact Bool.false_ne_true h

theorem not_mark_of_isDigit {c : Char} (h : isDigit c = true) : isExponentMark c = false := by
  unfold isExponentMark
  rw [beq_false_of_ne (ne_of_isDigit h (by decide)), beq_false_of_ne (ne_of_isDigit h (by decide))]
  rfl

theorem not_unit_of_isDigit {c : Char} (h : isDigit c = true) : isUnit c = false := by
  unfold isUnit
  rw [beq_false_of_ne (ne_of_isDigit h (by decide)), beq_false_of_ne (ne_of_isDigit h (by decide))]
  rfl

/-! ### The last character -/

/-- The characters do not end with one of the kind. -/
def EndsWithout (p : Char → Bool) (cs : List Char) : Prop :=
  cs.getLast?.any p = false

section EndsWithout

variable {p : Char → Bool} (hp : ∀ c, isDigit c = true → p c = false)

theorem EndsWithout.append {cs ds : List Char} (hcs : EndsWithout p cs) (hds : EndsWithout p ds) :
    EndsWithout p (cs ++ ds) := by
  unfold EndsWithout at *
  rw [List.getLast?_append]
  cases hlast : ds.getLast? with
  | none => exact hcs
  | some d =>
    rw [hlast] at hds
    exact hds

include hp

theorem endsWithout_takeDigits (s : List Char) : EndsWithout p (takeDigits s) := by
  unfold EndsWithout
  cases hlast : (takeDigits s).getLast? with
  | none => rfl
  | some d => exact hp d (isDigit_of_mem_takeDigits (List.mem_of_getLast? hlast))

/-- What ends with digits ends with a digit. -/
theorem endsWithout_append_takeDigits (cs : List Char) {s ds : List Char} {d : Char}
    (h : takeDigits s = d :: ds) : EndsWithout p (cs ++ takeDigits s) := by
  have hdigits := endsWithout_takeDigits hp s
  unfold EndsWithout at *
  rw [h] at hdigits ⊢
  rw [List.getLast?_append, List.getLast?_eq_some_getLast (List.cons_ne_nil d ds)]
  rwa [List.getLast?_eq_some_getLast (List.cons_ne_nil d ds)] at hdigits

theorem endsWithout_takeFraction (s : List Char) : EndsWithout p (takeFraction s) := by
  rcases exists_of_takeFraction s with h | ⟨r, d, ds, h, hr⟩
  · rw [h]
    rfl
  · rw [h]
    exact endsWithout_append_takeDigits hp ['.'] hr

theorem endsWithout_takeExponent (s : List Char) : EndsWithout p (takeExponent s) := by
  rcases exists_of_takeExponent s with h | ⟨m, gs, r, d, ds, h, hr, -, -⟩
  · rw [h]
    rfl
  · rw [h]
    exact endsWithout_append_takeDigits hp (m :: gs) hr

end EndsWithout

theorem endsWithout_takeUnit (s : List Char) : EndsWithout isExponentMark (takeUnit s) := by
  rcases exists_of_takeUnit s with h | ⟨c, h, hc⟩
  · rw [h]
    rfl
  · rw [h]
    rcases Bool.or_eq_true_iff.1 hc with hi | hi
    · rw [eq_of_beq hi]
      rfl
    · rw [eq_of_beq hi]
      rfl

/-! ### Numerals without a unit -/

/-- The longest numeral without a unit that the text begins with. -/
def takeDecimal (s : List Char) : List Char :=
  let whole := takeDigits s
  let s₁ := s.drop whole.length
  let fraction := takeFraction s₁
  whole ++ fraction ++ takeExponent (s₁.drop fraction.length)

/-- A numeral is one without a unit, and perhaps a unit. -/
theorem exists_takeNumeral_eq (s : List Char) : ∃ r, takeNumeral s = takeDecimal s ++ takeUnit r :=
  ⟨_, rfl⟩

theorem endsWithout_takeDecimal {p : Char → Bool} (hp : ∀ c, isDigit c = true → p c = false)
    (s : List Char) : EndsWithout p (takeDecimal s) :=
  ((endsWithout_takeDigits hp _).append (endsWithout_takeFraction hp _)).append
    (endsWithout_takeExponent hp _)

/-- The fraction of a numeral has no plus sign. -/
theorem plus_not_mem_takeFraction (s : List Char) : '+' ∉ takeFraction s := by
  rcases exists_of_takeFraction s with h | ⟨r, d, ds, h, -⟩
  · rw [h]
    exact List.not_mem_nil
  · rw [h]
    intro hmem
    rcases List.mem_cons.1 hmem with heq | hmem
    · revert heq
      decide
    · exact plus_not_mem_takeDigits _ hmem

theorem unsplit_takeUnit (s : List Char) : Unsplit (takeUnit s) := by
  rcases exists_of_takeUnit s with h | ⟨c, h, hc⟩
  · rw [h]
    exact unsplit_nil
  · rw [h]
    refine unsplit_nil.cons ?_
    rintro rfl
    revert hc
    decide

/-- After the digits and the fraction there is no place to split at. -/
theorem unsplit_takeExponent (s : List Char) {us : List Char} (h : Unsplit us) :
    Unsplit (takeExponent s ++ us) := by
  rcases exists_of_takeExponent s with he | ⟨m, gs, r, d, ds, he, -, hm, rfl | ⟨g, rfl, -⟩⟩
  · rw [he]
    exact h
  · rw [he, List.nil_append, List.cons_append]
    refine Unsplit.cons ?_ (h.append (plus_not_mem_takeDigits r))
    rintro rfl
    revert hm
    decide
  · rw [he, List.singleton_append, List.cons_append, List.cons_append]
    exact .exponent hm (h.append (plus_not_mem_takeDigits r))

/-! ### Simple numerals -/

/-- A numeral that a text begins with is simple. -/
theorem isSimple_takeNumeral (s : List Char) : Lexeme.IsSimple ⟨.numeral, takeNumeral s⟩ := by
  intro _
  obtain ⟨r, hr⟩ := exists_takeNumeral_eq s
  dsimp only
  rw [hr]
  constructor
  · unfold takeDecimal
    simp only [List.append_assoc]
    exact (((unsplit_takeExponent _ (unsplit_takeUnit _)).append (plus_not_mem_takeFraction _)).append
      (plus_not_mem_takeDigits _)).splitSum
  · exact (endsWithout_takeDecimal (fun _ => not_mark_of_isDigit) s).append (endsWithout_takeUnit r)

/-- The lexemes of a text are no complex numerals. -/
theorem isSimple_of_mem_lexemes {s : List Char} {l : Lexeme} (h : l ∈ lexemes s) : l.IsSimple := by
  fun_induction lexemes s with
  | case1 => cases h
  | case2 c s l' ih =>
    rcases List.mem_cons.1 h with rfl | h
    · show (firstLexeme c s).IsSimple
      unfold firstLexeme
      split
      · exact isSimple_takeNumeral _
      · split
        · exact fun h => LexemeClass.noConfusion h
        · split
          · exact fun h => LexemeClass.noConfusion h
          · split <;> exact fun h => LexemeClass.noConfusion h
    · exact ih h

end Formulary

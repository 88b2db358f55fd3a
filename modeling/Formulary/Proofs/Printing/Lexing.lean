import Formulary.Expr.Literal

/-!
# Lexemes that are read back

A text that is put together from lexemes falls into these lexemes again if none of them goes on into
the next one. That is so wherever a sign stands between any two that are none.

* `isPlainNumeral`: digits with at most a point and digits after them.
* `Lexeme.IsPlain`: the lexemes that are printed, which are signs, words and plain numerals.
* `Stops s`: no word and no numeral goes on into the text `s`.
* `ReadsBack ls`: the lexemes are those of their text, in front of every such text.
* **`readsBack_of_isPlain`**, **`ReadsBack.between`**: one plain lexeme is read back, and so are
  lexemes with a sign between them.
-/

namespace Formulary

open Text

/-- Digits, and perhaps a point and digits after them. -/
def isPlainNumeral (cs : List Char) : Bool :=
  startsDigit cs && takeDigits cs ++ takeFraction (cs.drop (takeDigits cs).length) == cs

/-- A word: a character that begins a name and others that go on with it. -/
def isWordText : List Char → Bool
  | c :: cs => isNameStart c && cs.all isNameContinue
  | [] => false

/-- The lexemes that are printed. -/
inductive Lexeme.IsPlain : Lexeme → Prop where
  | sign {c : Char} (h : (Operator.ofChar? c).isSome = true) : IsPlain ⟨.sign, [c]⟩
  | word {cs : List Char} (h : isWordText cs = true) : IsPlain ⟨.word, cs⟩
  | real {cs : List Char} (h : isPlainNumeral cs = true) : IsPlain ⟨.numeral, cs⟩
  | imaginary {cs : List Char} (h : isPlainNumeral cs = true) : IsPlain ⟨.numeral, cs ++ ['i']⟩

/-- The text is at its end or goes on with a sign. -/
def Stops (s : List Char) : Prop :=
  ∀ c ∈ s.head?, (Operator.ofChar? c).isSome = true

/-- In front of a text that stops them the lexemes are read as they are. -/
def ReadsBack (ls : List Lexeme) : Prop :=
  ∀ s, Stops s → lexemes (ls.flatMap Lexeme.chars ++ s) = ls ++ lexemes s

/-! ### Characters of signs -/

/-- The characters that stand for an operator. -/
def signChars : List Char :=
  ['(', ')', '+', '-', '*', '/', '^']

theorem mem_signChars {c : Char} (h : (Operator.ofChar? c).isSome = true) : c ∈ signChars := by
  unfold Operator.ofChar? at h
  split at h
  · decide
  · decide
  · decide
  · decide
  · decide
  · decide
  · decide
  · cases h

/-- What holds of no sign does not hold of the first character after a stop. -/
theorem Stops.head {p : Char → Bool} {s : List Char} (h : Stops s)
    (hp : signChars.any p = false) : ∀ c ∈ s.head?, p c = false := by
  intro c hc
  rw [Bool.eq_false_iff]
  exact List.any_eq_false.1 hp c (mem_signChars (h c hc))

theorem stops_cons {c : Char} (h : (Operator.ofChar? c).isSome = true) (s : List Char) :
    Stops (c :: s) := by
  intro d hd
  cases hd
  exact h

theorem stops_nil : Stops [] := by
  intro c hc
  cases hc

theorem isDigit_iff {c : Char} : isDigit c = true ↔ 48 ≤ c.toNat ∧ c.toNat ≤ 57 := by
  unfold isDigit
  rw [Bool.and_eq_true, decide_eq_true_iff, decide_eq_true_iff, Char.le_def, Char.le_def,
    UInt32.le_iff_toNat_le, UInt32.le_iff_toNat_le]
  exact Iff.rfl

theorem isLatinLetter_iff {c : Char} : isLatinLetter c = true ↔
    (97 ≤ c.toNat ∧ c.toNat ≤ 122) ∨ (65 ≤ c.toNat ∧ c.toNat ≤ 90) := by
  unfold isLatinLetter
  rw [Bool.or_eq_true, Bool.and_eq_true, Bool.and_eq_true]
  simp only [decide_eq_true_iff, Char.le_def, UInt32.le_iff_toNat_le]
  exact Iff.rfl

/-- A name does not begin like a numeral. -/
theorem not_isDigit_of_isNameStart {c : Char} (h : isNameStart c = true) :
    isDigit c = false ∧ c ≠ '.' := by
  unfold isNameStart at h
  rw [Bool.or_eq_true, Bool.and_eq_true, isLatinLetter_iff] at h
  have hascii (hlt : c.toNat < 128) : isAscii c = true := decide_eq_true hlt
  constructor
  · rw [Bool.eq_false_iff]
    intro hd
    obtain ⟨hlow, hhigh⟩ := isDigit_iff.1 hd
    rcases h with h | ⟨h, -⟩
    · omega
    · rw [hascii (by omega)] at h
      cases h
  · rintro rfl
    rcases h with h | ⟨h, -⟩
    · revert h
      decide
    · revert h
      decide

/-! ### Beginnings -/

/-- All characters that satisfy a property are taken, up to one that does not. -/
theorem takeWhile_append_stop {p : Char → Bool} {cs s : List Char} (hcs : ∀ c ∈ cs, p c = true)
    (hs : ∀ c ∈ s.head?, p c = false) : (cs ++ s).takeWhile p = cs := by
  rw [List.takeWhile_append_of_pos hcs]
  cases s with
  | nil => exact List.append_nil cs
  | cons c s => rw [List.takeWhile_cons_of_neg (by rw [hs c rfl]; exact Bool.false_ne_true),
      List.append_nil]

theorem takeDigits_append_stop {ds s : List Char} (hds : ∀ c ∈ ds, isDigit c = true)
    (hs : ∀ c ∈ s.head?, isDigit c = false) : takeDigits (ds ++ s) = ds :=
  takeWhile_append_stop hds hs

/-- A plain numeral is digits, and perhaps a point and digits. -/
theorem exists_of_isPlainNumeral {cs : List Char} (h : isPlainNumeral cs = true) :
    ∃ d ds fs, cs = d :: ds ++ fs ∧ (∀ c ∈ d :: ds, isDigit c = true) ∧
      (fs = [] ∨ ∃ e es, fs = '.' :: e :: es ∧ ∀ c ∈ e :: es, isDigit c = true) := by
  obtain ⟨hstart, hsplit⟩ := Bool.and_eq_true_iff.1 h
  have hsplit := eq_of_beq hsplit
  have hdigits (s : List Char) : ∀ c ∈ takeDigits s, isDigit c = true :=
    fun c hc => List.all_eq_true.1 List.all_takeWhile c hc
  cases hds : takeDigits cs with
  | nil =>
    cases cs with
    | nil => cases hstart
    | cons c cs =>
      unfold takeDigits at hds
      rw [List.takeWhile_cons_of_pos (show isDigit c = true from hstart)] at hds
      cases hds
  | cons d ds =>
    rw [hds] at hsplit
    refine ⟨d, ds, _, hsplit.symm, hds ▸ hdigits cs, ?_⟩
    unfold takeFraction
    split
    · next r hr =>
      split
      · next hr' =>
        cases r with
        | nil => cases hr'
        | cons e es =>
          right
          unfold takeDigits
          rw [List.takeWhile_cons_of_pos (show isDigit e = true from hr')]
          refine ⟨e, _, rfl, fun c hc => ?_⟩
          rcases List.mem_cons.1 hc with rfl | hc
          · exact hr'
          · exact hdigits es c hc
      · exact .inl rfl
    · exact .inl rfl

theorem takeFraction_of_head {s : List Char} (h : ∀ c ∈ s.head?, (c == '.') = false) :
    takeFraction s = [] := by
  unfold takeFraction
  split
  · next r =>
    exact absurd (h '.' rfl) (by decide)
  · rfl

theorem takeExponent_of_head {s : List Char} (h : ∀ c ∈ s.head?, isExponentMark c = false) :
    takeExponent s = [] := by
  unfold takeExponent
  split
  · next m r => rw [if_neg (by rw [h m rfl]; exact Bool.false_ne_true)]
  · rfl

/-- A plain numeral is the whole numeral if no digit, point, exponent or unit follows. -/
theorem takeNumeral_append {cs us s : List Char} (hcs : isPlainNumeral cs = true)
    (hdigit : ∀ c ∈ (us ++ s).head?, isDigit c = false)
    (hpoint : ∀ c ∈ (us ++ s).head?, (c == '.') = false)
    (hmark : ∀ c ∈ (us ++ s).head?, isExponentMark c = false)
    (hunit : takeUnit (us ++ s) = us) : takeNumeral (cs ++ us ++ s) = cs ++ us := by
  obtain ⟨d, ds, fs, rfl, hds, hfs⟩ := exists_of_isPlainNumeral hcs
  have hwhole : takeDigits (d :: ds ++ (fs ++ (us ++ s))) = d :: ds := by
    refine takeDigits_append_stop hds ?_
    rcases hfs with rfl | ⟨e, es, rfl, -⟩
    · exact hdigit
    · intro c hc
      cases hc
      decide
  have hfraction : takeFraction (fs ++ (us ++ s)) = fs := by
    rcases hfs with rfl | ⟨e, es, rfl, hes⟩
    · exact takeFraction_of_head hpoint
    · show (if startsDigit (e :: (es ++ (us ++ s))) then
        '.' :: takeDigits (e :: es ++ (us ++ s)) else []) = _
      rw [if_pos (show startsDigit (e :: _) = true from hes e List.mem_cons_self),
        takeDigits_append_stop hes hdigit]
  unfold takeNumeral
  simp only [List.append_assoc, hwhole, List.drop_left, hfraction, takeExponent_of_head hmark,
    List.length_nil, List.drop_zero, hunit, List.nil_append]

/-! ### One lexeme -/

theorem lexemes_of_firstLexeme {c : Char} {cs s : List Char} {k : LexemeClass}
    (h : firstLexeme c (cs ++ s) = ⟨k, c :: cs⟩) :
    lexemes (c :: cs ++ s) = ⟨k, c :: cs⟩ :: lexemes s := by
  rw [List.cons_append, lexemes, h]
  show _ :: lexemes ((cs ++ s).drop ((c :: cs).length - 1)) = _
  rw [List.length_cons, Nat.add_sub_cancel, List.drop_left]

theorem startsNumeral_of_ne {c : Char} {s : List Char} (hdigit : isDigit c = false) (hdot : c ≠ '.') :
    startsNumeral (c :: s) = false := by
  unfold startsNumeral
  split
  · next heq =>
    cases heq
    exact absurd rfl hdot
  · exact hdigit

theorem firstLexeme_sign {c : Char} (h : (Operator.ofChar? c).isSome = true) (s : List Char) :
    firstLexeme c s = ⟨.sign, [c]⟩ := by
  have hnone {p : Char → Bool} (hp : signChars.any p = false) : p c = false :=
    Bool.eq_false_iff.2 (List.any_eq_false.1 hp c (mem_signChars h))
  have hdigit := hnone (p := isDigit) (by decide +kernel)
  have hdot := ne_of_beq_false (hnone (p := (· == '.')) (by decide +kernel))
  have hname := hnone (p := isNameStart) (by decide +kernel)
  unfold firstLexeme
  rw [startsNumeral_of_ne hdigit hdot, if_neg Bool.false_ne_true, hname, if_neg Bool.false_ne_true,
    if_pos h]

theorem firstLexeme_word {c : Char} {cs s : List Char} (h : isWordText (c :: cs) = true)
    (hs : Stops s) : firstLexeme c (cs ++ s) = ⟨.word, c :: cs⟩ := by
  obtain ⟨hc, hcs⟩ := Bool.and_eq_true_iff.1 h
  obtain ⟨hdigit, hdot⟩ := not_isDigit_of_isNameStart hc
  unfold firstLexeme
  rw [startsNumeral_of_ne hdigit hdot, if_neg Bool.false_ne_true, if_pos hc,
    takeWhile_append_stop (List.all_eq_true.1 hcs) (hs.head (by decide +kernel))]

theorem firstLexeme_numeral {c : Char} {cs s : List Char} (hdigit : isDigit c = true)
    (h : takeNumeral (c :: cs ++ s) = c :: cs) : firstLexeme c (cs ++ s) = ⟨.numeral, c :: cs⟩ := by
  have hstart : startsNumeral (c :: (cs ++ s)) = true := by
    unfold startsNumeral
    split
    · next heq =>
      cases heq
      exact absurd hdigit (by decide)
    · exact hdigit
  unfold firstLexeme
  rw [if_pos hstart, ← List.cons_append, h]

theorem readsBack_sign {c : Char} (h : (Operator.ofChar? c).isSome = true) (s : List Char) :
    lexemes (c :: s) = ⟨.sign, [c]⟩ :: lexemes s :=
  @lexemes_of_firstLexeme c [] s .sign (firstLexeme_sign h s)

/-- A plain lexeme is read back. -/
theorem readsBack_of_isPlain {l : Lexeme} (h : l.IsPlain) : ReadsBack [l] := by
  intro s hs
  rw [List.flatMap_singleton, List.singleton_append]
  -- what follows a numeral does not make it longer
  have hnumeral {cs us : List Char} (hcs : isPlainNumeral cs = true)
      (hus : takeNumeral (cs ++ us ++ s) = cs ++ us) :
      lexemes (cs ++ us ++ s) = ⟨.numeral, cs ++ us⟩ :: lexemes s := by
    obtain ⟨d, ds, fs, rfl, hds, -⟩ := exists_of_isPlainNumeral hcs
    exact lexemes_of_firstLexeme (firstLexeme_numeral (hds d List.mem_cons_self) hus)
  cases h with
  | @sign c h => exact readsBack_sign h s
  | @word cs h =>
    cases cs with
    | nil => cases h
    | cons c cs => exact lexemes_of_firstLexeme (firstLexeme_word h hs)
  | @real cs h =>
    have hunit : takeUnit ([] ++ s) = [] := by
      cases s with
      | nil => rfl
      | cons c r =>
        show (if isUnit c && _ then [c] else []) = []
        rw [hs.head (p := isUnit) (by decide) c rfl]
        rfl
    have hus : takeNumeral (cs ++ [] ++ s) = cs ++ [] :=
      takeNumeral_append h (hs.head (by decide)) (hs.head (by decide)) (hs.head (by decide)) hunit
    have hlex := hnumeral h hus
    rwa [List.append_nil] at hlex
  | @imaginary cs h =>
    have hunit : takeUnit (['i'] ++ s) = ['i'] := by
      have hname : s.head?.any isNameContinue = false := by
        cases s with
        | nil => rfl
        | cons c r => exact hs.head (p := isNameContinue) (by decide +kernel) c rfl
      show (if isUnit 'i' && !(s.head?.any isNameContinue) then ['i'] else []) = ['i']
      rw [hname]
      rfl
    refine hnumeral h (takeNumeral_append h ?_ ?_ ?_ hunit) <;>
    · intro c hc
      cases hc
      decide

/-! ### Several lexemes -/

theorem readsBack_nil : ReadsBack [] :=
  fun _ _ => rfl

/-- Lexemes that are read back still are with a sign between them. -/
theorem ReadsBack.between {ls rs : List Lexeme} {c : Char} (hls : ReadsBack ls)
    (hc : (Operator.ofChar? c).isSome = true) (hrs : ReadsBack rs) :
    ReadsBack (ls ++ ⟨.sign, [c]⟩ :: rs) := by
  intro s hs
  rw [List.flatMap_append, List.flatMap_cons, List.append_assoc, List.append_assoc,
    List.singleton_append, hls _ (stops_cons hc _), readsBack_sign hc, hrs s hs, List.append_assoc]
  rfl

/-- Lexemes in parentheses. -/
theorem ReadsBack.enclosed {ls : List Lexeme} (h : ReadsBack ls) :
    ReadsBack (⟨.sign, ['(']⟩ :: (ls ++ [⟨.sign, [')']⟩])) :=
  readsBack_nil.between (c := '(') rfl (h.between (c := ')') rfl readsBack_nil)

theorem ReadsBack.lexemes_eq {ls : List Lexeme} (h : ReadsBack ls) :
    lexemes (ls.flatMap Lexeme.chars) = ls := by
  have hall := h [] stops_nil
  rw [List.append_nil, lexemes, List.append_nil] at hall
  exact hall

end Formulary

import Formulary.Operator
import Formulary.Text.Name

/-!
# Lexemes

A formula's text falls into lexemes: numerals, words, operator signs, blanks and characters that
belong to nothing. Nothing is lost and nothing added.

* `Lexeme`: a piece of text with its class.
* `takeNumeral`: the longest numeral a text begins with.
* `lexemes`: the lexemes of a text; `flatMap_chars_lexemes` says that they spell it out.

A numeral is written with digits, an optional fraction, an optional exponent and an optional
imaginary unit. An exponent mark without digits and an imaginary unit that goes on into a name stay
outside.
-/

namespace Formulary

open Text

/-- What kind of thing a lexeme is. -/
inductive LexemeClass where
  | numeral
  | word
  | sign
  | blank
  | unknown
  deriving DecidableEq, Repr, Inhabited

/-- A piece of a formula's text. -/
structure Lexeme where
  cls : LexemeClass
  chars : List Char
  deriving DecidableEq, Repr, Inhabited

/-- The imaginary unit, in either case. -/
def isUnit (c : Char) : Bool :=
  c == 'i' || c == 'I'

/-- The mark that opens an exponent, in either case. -/
def isExponentMark (c : Char) : Bool :=
  c == 'e' || c == 'E'

/-- The sign of an exponent. -/
def isSign (c : Char) : Bool :=
  c == '+' || c == '-'

/-! ### Numerals -/

/-- The text begins with a digit. -/
def startsDigit : List Char → Bool
  | c :: _ => isDigit c
  | [] => false

/-- The text begins with a numeral: a digit, or a point before a digit. -/
def startsNumeral : List Char → Bool
  | '.' :: s => startsDigit s
  | s => startsDigit s

/-- The digits a text begins with. -/
def takeDigits (s : List Char) : List Char :=
  s.takeWhile isDigit

/-- A point and the digits after it, if there are any. -/
def takeFraction : List Char → List Char
  | '.' :: s => if startsDigit s then '.' :: takeDigits s else []
  | _ => []

/-- An exponent mark, an optional sign and digits, if there are any. -/
def takeExponent : List Char → List Char
  | m :: s =>
    if isExponentMark m then
      if startsDigit s then m :: takeDigits s
      else
        match s with
        | g :: r => if isSign g && startsDigit r then m :: g :: takeDigits r else []
        | [] => []
    else []
  | [] => []

/-- The imaginary unit, unless it goes on into a name. -/
def takeUnit : List Char → List Char
  | c :: s => if isUnit c && !(s.head?.any isNameContinue) then [c] else []
  | [] => []

/-- The longest numeral the text begins with. -/
def takeNumeral (s : List Char) : List Char :=
  let whole := takeDigits s
  let s₁ := s.drop whole.length
  let fraction := takeFraction s₁
  let s₂ := s₁.drop fraction.length
  let exponent := takeExponent s₂
  let s₃ := s₂.drop exponent.length
  whole ++ fraction ++ exponent ++ takeUnit s₃

/-! ### Splitting a text -/

/-- The first lexeme of the text `c :: s`. -/
def firstLexeme (c : Char) (s : List Char) : Lexeme :=
  if startsNumeral (c :: s) then ⟨.numeral, takeNumeral (c :: s)⟩
  else if isNameStart c then ⟨.word, c :: s.takeWhile isNameContinue⟩
  else if (Operator.ofChar? c).isSome then ⟨.sign, [c]⟩
  else if isBlank c then ⟨.blank, c :: s.takeWhile isBlank⟩
  else ⟨.unknown, [c]⟩

/-- The lexemes of a text, in order. -/
def lexemes : List Char → List Lexeme
  | [] => []
  | c :: s =>
    let l := firstLexeme c s
    l :: lexemes (s.drop (l.chars.length - 1))
termination_by s => s.length
decreasing_by simp only [List.length_drop, List.length_cons]; omega

/-! ### Nothing is lost -/

theorem takeDigits_isPrefix (s : List Char) : takeDigits s <+: s :=
  List.takeWhile_prefix isDigit

theorem takeFraction_isPrefix (s : List Char) : takeFraction s <+: s := by
  unfold takeFraction
  split
  · split
    · exact List.cons_prefix_cons.2 ⟨rfl, takeDigits_isPrefix _⟩
    · exact List.nil_prefix
  · exact List.nil_prefix

theorem takeExponent_isPrefix (s : List Char) : takeExponent s <+: s := by
  unfold takeExponent
  split
  · split
    · split
      · exact List.cons_prefix_cons.2 ⟨rfl, takeDigits_isPrefix _⟩
      · split
        · split
          · exact List.cons_prefix_cons.2
              ⟨rfl, List.cons_prefix_cons.2 ⟨rfl, takeDigits_isPrefix _⟩⟩
          · exact List.nil_prefix
        · exact List.nil_prefix
    · exact List.nil_prefix
  · exact List.nil_prefix

theorem takeUnit_isPrefix (s : List Char) : takeUnit s <+: s := by
  unfold takeUnit
  split
  · split
    · exact List.cons_prefix_cons.2 ⟨rfl, List.nil_prefix⟩
    · exact List.nil_prefix
  · exact List.nil_prefix

/-- A beginning of the text followed by a beginning of what is left is a beginning of the text. -/
theorem isPrefix_append_of_drop {a b s : List Char} (ha : a <+: s)
    (hb : b <+: s.drop a.length) : a ++ b <+: s := by
  obtain ⟨t, rfl⟩ := ha
  rw [List.drop_left] at hb
  exact (List.prefix_append_right_inj a).2 hb

theorem takeNumeral_isPrefix (s : List Char) : takeNumeral s <+: s := by
  unfold takeNumeral
  refine isPrefix_append_of_drop (isPrefix_append_of_drop
    (isPrefix_append_of_drop (takeDigits_isPrefix s) (takeFraction_isPrefix _)) ?_) ?_
  · rw [List.length_append, ← List.drop_drop]
    exact takeExponent_isPrefix _
  · rw [List.length_append, List.length_append, ← List.drop_drop, ← List.drop_drop]
    exact takeUnit_isPrefix _

/-- Where a numeral starts there is one. -/
theorem takeNumeral_ne_nil {s : List Char} (h : startsNumeral s = true) : takeNumeral s ≠ [] := by
  unfold startsNumeral at h
  split at h
  · have hd : isDigit '.' = false := by decide
    simp [takeNumeral, takeDigits, hd, takeFraction, h]
  · unfold startsDigit at h
    split at h
    · simp [takeNumeral, takeDigits, h]
    · simp at h

/-- The first lexeme is a beginning of the text, and it is not empty. -/
theorem firstLexeme_chars (c : Char) (s : List Char) :
    ∃ t, (firstLexeme c s).chars = c :: t ∧ t <+: s := by
  unfold firstLexeme
  split
  · next h =>
    have hp := takeNumeral_isPrefix (c :: s)
    cases hn : takeNumeral (c :: s) with
    | nil => exact absurd hn (takeNumeral_ne_nil h)
    | cons d t =>
      rw [hn] at hp
      obtain ⟨rfl, ht⟩ := List.cons_prefix_cons.1 hp
      exact ⟨t, rfl, ht⟩
  · split
    · exact ⟨_, rfl, List.takeWhile_prefix _⟩
    · split
      · exact ⟨[], rfl, List.nil_prefix⟩
      · split
        · exact ⟨_, rfl, List.takeWhile_prefix _⟩
        · exact ⟨[], rfl, List.nil_prefix⟩

theorem firstLexeme_append (c : Char) (s : List Char) :
    (firstLexeme c s).chars ++ s.drop ((firstLexeme c s).chars.length - 1) = c :: s := by
  obtain ⟨t, ht, r, rfl⟩ := firstLexeme_chars c s
  simp [ht]

/-- The lexemes spell out the text. -/
theorem flatMap_chars_lexemes (s : List Char) : (lexemes s).flatMap Lexeme.chars = s := by
  fun_induction lexemes s with
  | case1 => rfl
  | case2 c s l ih =>
    rw [List.flatMap_cons, ih]
    exact firstLexeme_append c s

theorem chars_ne_nil_of_mem_lexemes {s : List Char} {l : Lexeme} (h : l ∈ lexemes s) :
    l.chars ≠ [] := by
  fun_induction lexemes s with
  | case1 => simp at h
  | case2 c s l' ih =>
    rcases List.mem_cons.1 h with rfl | h
    · obtain ⟨t, ht, -⟩ := firstLexeme_chars c s
      simp [l', ht]
    · exact ih h

end Formulary

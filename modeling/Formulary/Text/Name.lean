import Formulary.Text.Alphabetic
import Formulary.Text.Numeric

/-!
# Characters of names and gaps

* `isDigit`: the ten digits a numeral is written with.
* `isBlank`: characters that separate tokens and mean nothing else.
* `isNameStart`, `isNameContinue`: characters that begin a name and that go on with one.

Every character that begins a name also goes on with one (`isNameContinue_of_isNameStart`).
-/

namespace Formulary.Text

/-- One of the digits `0` to `9`. -/
def isDigit (c : Char) : Bool :=
  decide ('0' ≤ c) && decide (c ≤ '9')

/-- The space, the tab, the byte order mark and the space separators. Line ends are not among
them. -/
def isBlank (c : Char) : Bool :=
  c == ' ' || c == '\t' ||
    inRanges [(0xa0, 0xa0), (0x1680, 0x1680), (0x2000, 0x200a), (0x202f, 0x202f),
      (0x205f, 0x205f), (0x3000, 0x3000), (0xfeff, 0xfeff)] c.toNat

/-- A letter of the Latin alphabet without marks. -/
def isLatinLetter (c : Char) : Bool :=
  (decide ('a' ≤ c) && decide (c ≤ 'z')) || (decide ('A' ≤ c) && decide (c ≤ 'Z'))

/-- The character is one of the first 128. -/
def isAscii (c : Char) : Bool :=
  decide (c.toNat < 128)

/-- A name begins with a letter of any alphabet. -/
def isNameStart (c : Char) : Bool :=
  isLatinLetter c || (!isAscii c && isAlphabetic c)

/-- A name goes on with letters and numerals of any script, the underscore, and the two joiners
that shape a word without being seen. -/
def isNameContinue (c : Char) : Bool :=
  isLatinLetter c || isDigit c || c == '_' ||
    (!isAscii c && (isAlphabetic c || isNumeric c || c == '\u200c' || c == '\u200d'))

theorem isNameContinue_of_isNameStart {c : Char} (h : isNameStart c = true) :
    isNameContinue c = true := by
  simp only [isNameStart, Bool.or_eq_true, Bool.and_eq_true] at h
  rcases h with h | ⟨h₁, h₂⟩
  · simp [isNameContinue, h]
  · simp [isNameContinue, h₁, h₂]

example : isNameStart 'λ' = true ∧ isNameStart '_' = false ∧ isNameContinue '²' = true := by
  decide +kernel

example : isBlank '\u3000' = true ∧ isBlank '\n' = false ∧ isBlank '\u200b' = false := by
  decide +kernel

end Formulary.Text

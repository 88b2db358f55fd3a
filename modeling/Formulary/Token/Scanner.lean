import Formulary.Token.Reading

/-!
# The scanner

The tokens of a text can be read one at a time. What is kept between two readings is the byte up to
which the text is read and the kind of the last token that was no blank. Digits, points, signs and
units are looked for byte by byte, all else character by character.

* `byteAt?`, `charAt?`: the byte at a place of the text, and the character that starts there.
* `numeralEnd`: where the numeral that starts at a place ends.
* `Scanner.complexEnd?`: where the complex numeral ends that a real one at a place begins.
* `Scanner.next`: one token more, and the scanner after it.
* `Scanner.start`, `Scanner.after`, `Scanner.token`: the scanner of a text, the scanner after some
  readings, and the token of each reading.

Blanks are tokens here too. Once the text is read every further token reports its end.
-/

namespace Formulary

open Text

/-! ### Places of a text -/

/-- The byte at the place, as the character with its number. -/
def byteAt? (s : String) (i : Nat) : Option Char :=
  s.toByteArray.data[i]?.map Char.ofUInt8

/-- The character that starts at the place; there is none at the end and inside a character. -/
def charAt? (s : String) (i : Nat) : Option Char :=
  String.Pos.Raw.get? s ⟨i⟩

/-- The text from one place up to another. -/
def slice (s : String) (i j : Nat) : String :=
  String.Pos.Raw.extract s ⟨i⟩ ⟨j⟩

def isDigitAt (s : String) (i : Nat) : Bool :=
  (byteAt? s i).any isDigit

/-- A numeral starts at the place: a digit, or a point before a digit. -/
def startsNumeralAt (s : String) (i : Nat) : Bool :=
  isDigitAt s i || ((byteAt? s i).any (· == '.') && isDigitAt s (i + 1))

/-- Where the digits from the place on end. -/
def skipDigits (s : String) (i : Nat) : Nat :=
  if _h : i < s.utf8ByteSize then
    if isDigitAt s i then skipDigits s (i + 1) else i
  else i
termination_by s.utf8ByteSize - i

/-- Where the characters that satisfy `p` end, from the place on. -/
def skipWhile (p : Char → Bool) (s : String) (i : Nat) : Nat :=
  if _h : i < s.utf8ByteSize then
    match charAt? s i with
    | some c => if p c then skipWhile p s (i + c.utf8Size) else i
    | none => i
  else i
termination_by s.utf8ByteSize - i
decreasing_by
  have hc := Char.utf8Size_pos c
  omega

/-! ### Numerals -/

/-- Where the fraction at the place ends; without a fraction, the place itself. -/
def fractionEnd (s : String) (i : Nat) : Nat :=
  if (byteAt? s i).any (· == '.') && isDigitAt s (i + 1) then skipDigits s (i + 1) else i

/-- Where the exponent at the place ends; without an exponent, the place itself. -/
def exponentEnd (s : String) (i : Nat) : Nat :=
  if (byteAt? s i).any isExponentMark then
    let digits := if (byteAt? s (i + 1)).any isSign then i + 2 else i + 1
    if isDigitAt s digits then skipDigits s digits else i
  else i

/-- Where the imaginary unit at the place ends; where there is none or it goes on into a name, the
place itself. -/
def unitEnd (s : String) (i : Nat) : Nat :=
  if (byteAt? s i).any isUnit && !(charAt? s (i + 1)).any isNameContinue then i + 1 else i

/-- Where the numeral that starts at the place ends. -/
def numeralEnd (s : String) (i : Nat) : Nat :=
  unitEnd s (exponentEnd s (fractionEnd s (skipDigits s i)))

/-- The numeral that ends at the place has an imaginary unit. -/
def endsInUnit (s : String) (stop : Nat) : Bool :=
  (byteAt? s (stop - 1)).any isUnit

/-! ### The scanner -/

/-- The text, how far it is read, and the kind of the last token that was no blank. -/
structure Scanner where
  text : String
  pos : Nat
  last : Option TokenKind
  deriving DecidableEq, Repr

/-- A whole term may start after a token of the kind. -/
def startsTerm : Option TokenKind → Bool
  | none => true
  | some k => k == .operator .openParen || k == .operator .add

/-- What follows a term ends it: the end of the text, a closing parenthesis or a sign. -/
def endsTerm : Option Char → Bool
  | none => true
  | some c => c == ')' || c == '+' || c == '-'

namespace Scanner

/-- Nothing of the text is read. -/
def start (s : String) : Scanner :=
  ⟨s, 0, none⟩

/-- Where the complex numeral ends whose real part ends at the place. It must be a whole term. -/
def complexEnd? (a : Scanner) (stop : Nat) : Option Nat :=
  if startsTerm a.last && (byteAt? a.text stop).any (· == '+') &&
      startsNumeralAt a.text (stop + 1) then
    let tail := numeralEnd a.text (stop + 1)
    if endsInUnit a.text tail && endsTerm (charAt? a.text (skipWhile isBlank a.text tail)) then
      some tail
    else none
  else none

/-- Where the numeral ends, be it real, imaginary or complex. -/
def numberEnd (a : Scanner) : Nat :=
  let stop := numeralEnd a.text a.pos
  if endsInUnit a.text stop then stop else (a.complexEnd? stop).getD stop

/-- A token is read up to the place. -/
def read (a : Scanner) (kind : TokenKind) (text : String) (stop : Nat) : Token × Scanner :=
  (⟨kind, text, a.pos, stop⟩, ⟨a.text, stop, some kind⟩)

/-- The next token, and the scanner after it. Before a value that follows a value a multiplication
is read, for which the scanner does not move. -/
def next (a : Scanner) : Token × Scanner :=
  match charAt? a.text a.pos with
  | none => (endToken a.text, a)
  | some c =>
    if (startsNumeralAt a.text a.pos || isNameStart c || c == '(') &&
        a.last.any TokenKind.endsValue then
      (impliedProduct a.pos, { a with last := some (.operator .mul) })
    else if startsNumeralAt a.text a.pos then
      a.read .number (slice a.text a.pos a.numberEnd) a.numberEnd
    else if isNameStart c then
      let stop := skipWhile isNameContinue a.text a.pos
      let text := String.ofList (lower (slice a.text a.pos stop).toList)
      a.read (Lexeme.wordKind text) text stop
    else
      let stop := a.pos + c.utf8Size
      match Operator.ofChar? c with
      | some op =>
        let op := if op == .sub && Lexeme.minusNegates a.last then .neg else op
        a.read (.operator op) (slice a.text a.pos stop) stop
      | none =>
        if isBlank c then
          let stop := skipWhile isBlank a.text a.pos
          (⟨.blank, slice a.text a.pos stop, a.pos, stop⟩, { a with pos := stop })
        else a.read .unknown (slice a.text a.pos stop) stop

/-- The scanner after some readings. -/
def after (a : Scanner) : Nat → Scanner
  | 0 => a
  | n + 1 => (a.after n).next.2

/-- The token of a reading; readings are counted from zero. -/
def token (a : Scanner) (n : Nat) : Token :=
  (a.after n).next.1

end Scanner

end Formulary

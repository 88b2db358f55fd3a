import Formulary.Token.Basic
import Formulary.Token.Fusion
import Formulary.Text.Lowercase

/-!
# From lexemes to tokens

Two things depend on the token before: a minus negates or subtracts, and a value right after a value
is multiplied with it. The multiplication is a token of its own, of no width, before the value.

* `Lexeme.kind`, `Lexeme.text`: kind and text of the token that a lexeme becomes.
* `classify`: the tokens of a list of lexemes.
* `tokensWithBlanks`, `tokenize`: the tokens of a text, with and without blanks.
* `tokenAt`: the tokens in turn, followed by end tokens without end.
-/

namespace Formulary

open Text

/-- The number of bytes of the characters in UTF-8. -/
def byteLength : List Char → Nat
  | [] => 0
  | c :: cs => c.utf8Size + byteLength cs

namespace Lexeme

/-- The token's text: words are in lower case, all else stands as written. -/
def text (l : Lexeme) : String :=
  String.ofList (if l.cls == .word then lower l.chars else l.chars)

/-- A value begins with the lexeme. -/
def startsValue (l : Lexeme) : Bool :=
  match l.cls with
  | .numeral | .word => true
  | .sign => l.chars == ['(']
  | _ => false

/-- The kind of token a word becomes: the imaginary unit is a number, and the names of functions
are theirs. -/
def wordKind (text : String) : TokenKind :=
  if text = "i" then .number
  else
    match Builtin.named? text with
    | some f => .operator (.apply f)
    | none => .name

/-- A minus negates at the start and after a token that waits for an operand. -/
def minusNegates : Option TokenKind → Bool
  | none => true
  | some k => k.precedesNegation

/-- The kind of token the lexeme becomes after a token of kind `last`. -/
def kind (last : Option TokenKind) (l : Lexeme) : TokenKind :=
  match l.cls with
  | .numeral => .number
  | .word => wordKind l.text
  | .blank => .blank
  | .unknown => .unknown
  | .sign =>
    match l.chars.head?.bind Operator.ofChar? with
    | some .sub => .operator (if minusNegates last then .neg else .sub)
    | some op => .operator op
    | none => .unknown

end Lexeme

/-- The multiplication that stands between two values at a place of the text. -/
def impliedProduct (pos : Nat) : Token :=
  ⟨.operator .mul, "*", pos, pos⟩

/-- The tokens of lexemes that start at byte `pos`, after a token of kind `last`. -/
def classify (last : Option TokenKind) (pos : Nat) : List Lexeme → List Token
  | [] => []
  | l :: ls =>
    let stop := pos + byteLength l.chars
    if l.cls == .blank then
      ⟨.blank, l.text, pos, stop⟩ :: classify last stop ls
    else if l.startsValue && last.any TokenKind.endsValue then
      let kind := l.kind (some (.operator .mul))
      impliedProduct pos :: ⟨kind, l.text, pos, stop⟩ :: classify (some kind) stop ls
    else
      let kind := l.kind last
      ⟨kind, l.text, pos, stop⟩ :: classify (some kind) stop ls

/-- The tokens of a text, blanks included. -/
def tokensWithBlanks (s : String) : List Token :=
  classify none 0 (fuse true (lexemes s.toList))

/-- The tokens of a text. -/
def tokenize (s : String) : List Token :=
  (tokensWithBlanks s).filter (·.kind != .blank)

/-- The tokens of a text in which no complex numeral is fused. -/
def tokenizeUnfused (s : String) : List Token :=
  (classify none 0 (lexemes s.toList)).filter (·.kind != .blank)

/-- The token that reports the end of the text. -/
def endToken (s : String) : Token :=
  ⟨.endOfText, "", s.utf8ByteSize, s.utf8ByteSize⟩

/-- The `n`th token of a text, blanks counted; after the last one there are end tokens only. -/
def tokenAt (s : String) (n : Nat) : Token :=
  (tokensWithBlanks s)[n]?.getD (endToken s)

end Formulary

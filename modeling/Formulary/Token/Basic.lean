import Formulary.Operator

/-!
# Tokens

* `TokenKind`: what a token is; an operator token says which operator.
* `Token`: a kind, the token's text and its place, counted in bytes of the formula's UTF-8 form.
* `TokenKind.endsValue`, `TokenKind.precedesNegation`: what a token means for the one after it.
-/

namespace Formulary

/-- What a token is. -/
inductive TokenKind where
  | endOfText
  | unknown
  | blank
  | number
  | name
  | operator (op : Operator)
  deriving DecidableEq, Repr, Inhabited

namespace TokenKind

/-- A value ends with the token, so that a value right after it is multiplied. -/
def endsValue : TokenKind → Bool
  | number | name => true
  | operator op => op == .closeParen
  | _ => false

/-- A minus after the token negates: an operand is still to come. -/
def precedesNegation : TokenKind → Bool
  | operator op => op != .closeParen
  | _ => false

/-- The token is an operand by itself. -/
def isValue : TokenKind → Bool
  | number | name => true
  | _ => false

end TokenKind

/-- A classified piece of a formula. The bytes `start` up to `stop` of the text are its own. Names
hold their text in lower case. -/
structure Token where
  kind : TokenKind
  text : String
  start : Nat
  stop : Nat
  deriving DecidableEq, Repr, Inhabited

namespace Token

/-- The operator of an operator token. -/
def operator? (t : Token) : Option Operator :=
  match t.kind with
  | .operator op => some op
  | _ => none

/-- The function that a function token applies. -/
def function? (t : Token) : Option Builtin :=
  match t.kind with
  | .operator (.apply f) => some f
  | _ => none

/-- The token for reports: functions by their name, operators by their sign, all else quoted. -/
def label (t : Token) : String :=
  match t.kind with
  | .operator (.apply _) => t.text
  | .operator op => op.symbol
  | _ => "'" ++ t.text ++ "'"

/-- The token's text with its place. -/
def spanLabel (t : Token) : String :=
  t.text ++ " [" ++ toString t.start ++ ", " ++ toString t.stop ++ ")"

end Token

end Formulary

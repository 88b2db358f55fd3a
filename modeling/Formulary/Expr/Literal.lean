import Formulary.Decimal.Numeral
import Formulary.Error
import Formulary.Number.Complex
import Formulary.Token.Lexeme

/-!
# Values of number tokens

A number token is a real numeral, an imaginary one, the imaginary unit alone, or a real and an
imaginary numeral joined by a plus sign.

* `splitSum`: a joined numeral at its plus sign, which is the first one that is no exponent's sign.
* `literalValue?`: the value of a number token.
* `readNumber`: the same, where a value that is not finite is an error.
-/

namespace Formulary

open RealArith

universe u

/-- The text after a character, split at the first plus sign that no exponent mark precedes. -/
def splitSumAfter (before : Char) : List Char → Option (List Char × List Char)
  | [] => none
  | c :: cs =>
    if c == '+' && !isExponentMark before then some ([], cs)
    else (splitSumAfter c cs).map fun (a, b) => (c :: a, b)

/-- The two parts of a joined numeral. -/
def splitSum : List Char → Option (List Char × List Char)
  | [] => none
  | c :: cs => (splitSumAfter c cs).map fun (a, b) => (c :: a, b)

variable {R : Type u} [RealArith R]

/-- The value of a numeral without an imaginary unit. -/
def realValue? (cs : List Char) : Option R :=
  (Decimal.ofNumeral? cs).map ofDecimal

/-- The value of what stands before the imaginary unit. -/
def imaginaryValue? (body : List Char) : Option (Complex R) :=
  if body.isEmpty then some .unit
  else
    match splitSum body with
    | some (re, im) =>
      match realValue? re, if im.isEmpty then some 1 else realValue? im with
      | some re, some im => some ⟨re, im⟩
      | _, _ => none
    | none => (realValue? body).map fun im => ⟨0, im⟩

/-- The value of a number token. -/
def literalValue? (cs : List Char) : Option (Complex R) :=
  if cs.getLast?.any isUnit then imaginaryValue? cs.dropLast
  else (realValue? cs).map .ofReal

/-- The finite value of a number token. -/
def readNumber (text : String) (position : Nat) : Except ParseError (Complex R) :=
  match literalValue? text.toList with
  | some v => if v.isFinite then .ok v else .error (.badNumber text position)
  | none => .error (.badNumber text position)

end Formulary

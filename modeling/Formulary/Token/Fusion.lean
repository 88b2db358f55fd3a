import Formulary.Token.Lexeme

/-!
# Complex numerals

A real numeral, a plus sign and an imaginary numeral that touch are one complex numeral where they
are a whole additive term: at the start, after an opening parenthesis or after a plus sign, and
before the end, a closing parenthesis, a plus or a minus sign. There the numeral has the value the
sum would have.

* `Lexeme.isReal`, `Lexeme.isImaginary`: numerals without and with an imaginary unit.
* `opensTerm`: what stands before allows a whole term to start.
* `closesTerm`: what follows ends a term.
* `fuse`: the lexemes with every complex numeral made one.

Fusing changes no character (`flatMap_chars_fuse`).
-/

namespace Formulary

namespace Lexeme

/-- A numeral with an imaginary unit. -/
def isImaginary (l : Lexeme) : Bool :=
  l.cls == .numeral && l.chars.getLast?.any isUnit

/-- A numeral without an imaginary unit. -/
def isReal (l : Lexeme) : Bool :=
  l.cls == .numeral && !(l.chars.getLast?.any isUnit)

/-- The sign lexeme of one character. -/
def isSign (l : Lexeme) (c : Char) : Bool :=
  l.cls == .sign && l.chars == [c]

end Lexeme

/-- Whether a whole term may start after the lexeme, given whether one could before it. -/
def opensTerm (before : Bool) (l : Lexeme) : Bool :=
  if l.cls == .blank then before else l.isSign '(' || l.isSign '+'

/-- The lexemes that follow end a term. -/
def closesTerm : List Lexeme → Bool
  | [] => true
  | l :: ls =>
    if l.cls == .blank then closesTerm ls else l.isSign ')' || l.isSign '+' || l.isSign '-'

/-- The lexemes with complex numerals fused; `opens` says that a whole term may start here. -/
def fuse (opens : Bool) : List Lexeme → List Lexeme
  | a :: p :: b :: ls =>
    if opens && a.isReal && p.isSign '+' && b.isImaginary && closesTerm ls then
      ⟨.numeral, a.chars ++ p.chars ++ b.chars⟩ :: fuse false ls
    else a :: fuse (opensTerm opens a) (p :: b :: ls)
  | ls => ls

theorem flatMap_chars_fuse (opens : Bool) (ls : List Lexeme) :
    (fuse opens ls).flatMap Lexeme.chars = ls.flatMap Lexeme.chars := by
  fun_induction fuse opens ls with
  | case1 opens a p b ls h ih => simp [ih]
  | case2 opens a p b ls h ih => simp [ih]
  | case3 opens ls h => rfl

end Formulary

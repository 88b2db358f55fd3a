import Formulary.Expr.Parse

/-!
# The grammar of formulas

    expr    := term (('+' | '-') term)*
    term    := power (('*' | '/' | juxtaposition) power)*
    power   := unary ('^' power)?
    unary   := '-' unary | function unary | primary
    primary := number | identifier | '(' expr ')'

A power that is juxtaposed does not begin with a minus sign.

* `Placed`: a lexeme with its place in the text. `written` lists those of a text, blanks left out.
* `Placed.isNumber`, `Placed.function?`, `Placed.isName`, `Placed.isSign`: the terminals.
* `Denotes φ ls a`: the lexemes derive from the phrase `φ`, and the derivation denotes the tree `a`.

Repetitions are left-recursive rules, so a derivation shows how operators group. No multiplication
sign is put between juxtaposed powers, and whether a minus negates or subtracts is a matter of the
rule that derives it.
-/

namespace Formulary

universe u

/-- A lexeme and the byte of the text it starts at. -/
structure Placed where
  lexeme : Lexeme
  start : Nat
  deriving DecidableEq, Repr

/-- The lexemes that are not blank, the first of which starts at byte `pos`. -/
def placed (pos : Nat) : List Lexeme → List Placed
  | [] => []
  | l :: ls =>
    let stop := pos + byteLength l.chars
    if l.cls == .blank then placed stop ls else ⟨l, pos⟩ :: placed stop ls

/-- The lexemes of a text with their places. -/
def written (s : String) : List Placed :=
  placed 0 (fuse true (lexemes s.toList))

/-! ### Terminals -/

namespace Placed

/-- The text of the lexeme; words are in lower case. -/
def text (l : Placed) : String :=
  l.lexeme.text

/-- The sign of one character. -/
def isSign (l : Placed) (c : Char) : Bool :=
  l.lexeme.isSign c

/-- The lexeme is a word. -/
def isWord (l : Placed) : Bool :=
  l.lexeme.cls == .word

/-- A numeral, or the imaginary unit alone. -/
def isNumber (l : Placed) : Bool :=
  l.lexeme.cls == .numeral || (l.isWord && l.text == "i")

/-- The function that a word names. -/
def function? (l : Placed) : Option Builtin :=
  if l.isWord then Builtin.named? l.text else none

/-- A word that names neither the imaginary unit nor a function. -/
def isName (l : Placed) : Bool :=
  l.isWord && l.text != "i" && l.function?.isNone

end Placed

/-! ### Phrases -/

/-- The phrases of the grammar. -/
inductive Phrase where
  | expr
  | term
  | power
  | unary
  | primary
  deriving DecidableEq, Repr

/-- The operators that group their operands to the left on the level of a phrase. -/
def Phrase.joins : Phrase → Char → Option BinaryOp
  | .expr, '+' => some .add
  | .expr, '-' => some .sub
  | .term, '*' => some .mul
  | .term, '/' => some .div
  | _, _ => none

variable {R : Type u} [RealArith R]

/-- The lexemes derive from the phrase, and the derivation denotes the tree. -/
inductive Denotes : Phrase → List Placed → Expr (Complex R) → Prop where
  | number {l : Placed} {v : Complex R} (hl : l.isNumber = true)
    (hv : readNumber l.text l.start = .ok v) : Denotes .primary [l] (.number v)
  | argument {l : Placed} (hl : l.isName = true) (hx : l.text = argumentName) :
    Denotes .primary [l] .argument
  | name {l : Placed} (hl : l.isName = true) (hx : l.text ≠ argumentName) :
    Denotes .primary [l] (.named l.text (some l.start))
  | group {o c : Placed} {ls : List Placed} {a : Expr (Complex R)} (ho : o.isSign '(' = true)
    (hc : c.isSign ')' = true) (ha : Denotes .expr ls a) : Denotes .primary (o :: (ls ++ [c])) a
  | ofPrimary {ls : List Placed} {a : Expr (Complex R)} (ha : Denotes .primary ls a) :
    Denotes .unary ls a
  | neg {l : Placed} {ls : List Placed} {a : Expr (Complex R)} (hl : l.isSign '-' = true)
    (ha : Denotes .unary ls a) : Denotes .unary (l :: ls) (.neg a)
  /-- The exponential is a power of Euler's number. -/
  | exponential {l : Placed} {ls : List Placed} {a : Expr (Complex R)}
    (hl : l.function? = some .exp) (ha : Denotes .unary ls a) :
    Denotes .unary (l :: ls)
      (.binary .pow (.named eulerName (some l.start)) a (some l.start))
  /-- The two names of the natural logarithm mean one function. -/
  | logarithm {l : Placed} {ls : List Placed} {a : Expr (Complex R)} (hl : l.function? = some .ln)
    (ha : Denotes .unary ls a) : Denotes .unary (l :: ls) (.call .log a (some l.start))
  | call {l : Placed} {f : Builtin} {ls : List Placed} {a : Expr (Complex R)}
    (hl : l.function? = some f) (hexp : f ≠ .exp) (hln : f ≠ .ln) (ha : Denotes .unary ls a) :
    Denotes .unary (l :: ls) (.call f a (some l.start))
  | ofUnary {ls : List Placed} {a : Expr (Complex R)} (ha : Denotes .unary ls a) :
    Denotes .power ls a
  | pow {l : Placed} {ls rs : List Placed} {a b : Expr (Complex R)} (hl : l.isSign '^' = true)
    (ha : Denotes .unary ls a) (hb : Denotes .power rs b) :
    Denotes .power (ls ++ l :: rs) (.binary .pow a b (some l.start))
  | ofPower {ls : List Placed} {a : Expr (Complex R)} (ha : Denotes .power ls a) :
    Denotes .term ls a
  | factor {l : Placed} {c : Char} {op : BinaryOp} {ls rs : List Placed} {a b : Expr (Complex R)}
    (hl : l.isSign c = true) (hop : Phrase.joins .term c = some op) (ha : Denotes .term ls a)
    (hb : Denotes .power rs b) : Denotes .term (ls ++ l :: rs) (.binary op a b (some l.start))
  /-- The product of juxtaposed powers has its place where the right one starts. -/
  | juxtaposed {l : Placed} {ls rs : List Placed} {a b : Expr (Complex R)}
    (hl : l.isSign '-' = false) (ha : Denotes .term ls a) (hb : Denotes .power (l :: rs) b) :
    Denotes .term (ls ++ l :: rs) (.binary .mul a b (some l.start))
  | ofTerm {ls : List Placed} {a : Expr (Complex R)} (ha : Denotes .term ls a) :
    Denotes .expr ls a
  | summand {l : Placed} {c : Char} {op : BinaryOp} {ls rs : List Placed} {a b : Expr (Complex R)}
    (hl : l.isSign c = true) (hop : Phrase.joins .expr c = some op) (ha : Denotes .expr ls a)
    (hb : Denotes .term rs b) : Denotes .expr (ls ++ l :: rs) (.binary op a b (some l.start))

end Formulary

import Formulary.Expr.Basic
import Formulary.Expr.Literal
import Formulary.Number.ComplexArith
import Formulary.Token.PostOrder

/-!
# Reading formulas

The tokens of a formula, operands before operators, become a tree. The last token is the root, so
the tree is read from the end.

* `Expr.ofApply`: the node of a function application; an exponential is kept as a power of Euler's
  number and the two spellings of the natural logarithm are one.
* `takeTree`: the tree at the end of a post-order and what is left before it.
* `ofPostOrder`: the tree of a whole post-order.
* `parse`: the tree of a text. `parseUnfused` is the same without complex numerals.
-/

namespace Formulary

universe u

variable {R : Type u} [RealArith R]

/-- The node of a function application read at a place. -/
def Expr.ofApply {K : Type u} (f : Builtin) (a : Expr K) (position : Nat) : Expr K :=
  match f with
  | .exp => .binary .pow (.named eulerName (some position)) a (some position)
  | .ln => .call .log a (some position)
  | f => .call f a (some position)

/-- The node of a name read at a place. -/
def Expr.ofName {K : Type u} (name : String) (position : Nat) : Expr K :=
  if name = argumentName then .argument else .named name (some position)

/-- The tree that a reversed post-order begins with and the shorter rest; `missing` is the error if
there is none. -/
def takeTree (missing : ParseError) : (ts : List Token) →
    Except ParseError (Expr (Complex R) × { rest : List Token // rest.length < ts.length })
  | [] => .error missing
  | t :: ts =>
    match t.kind with
    | .number =>
      match readNumber t.text t.start with
      | .ok v => .ok (.number v, ⟨ts, by simp⟩)
      | .error e => .error e
    | .name => .ok (.ofName t.text t.start, ⟨ts, by simp⟩)
    | .operator (.apply f) =>
      match takeTree (.noOperands t.start) ts with
      | .ok (a, ⟨rest, h⟩) => .ok (.ofApply f a t.start, ⟨rest, by simp; omega⟩)
      | .error e => .error e
    | .operator .neg =>
      match takeTree (.noOperands t.start) ts with
      | .ok (a, ⟨rest, h⟩) => .ok (.neg a, ⟨rest, by simp; omega⟩)
      | .error e => .error e
    | .operator op =>
      match op.binary? with
      | none => .error (.unparsed t.start)
      | some op =>
        match takeTree (.noOperands t.start) ts with
        | .error e => .error e
        | .ok (b, ⟨rest, h⟩) =>
          match takeTree (.noOperands t.start) rest with
          | .error e => .error e
          | .ok (a, ⟨rest', h'⟩) =>
            .ok (.binary op a b (some t.start), ⟨rest', by simp; omega⟩)
    | .blank | .unknown | .endOfText => .error (.unparsed t.start)
termination_by ts => ts.length

/-- The tree of a whole post-order. -/
def ofPostOrder (ts : List Token) : Except ParseError (Expr (Complex R)) :=
  match takeTree .empty ts.reverse with
  | .error e => .error e
  | .ok (a, ⟨[], _⟩) => .ok a
  | .ok (_, ⟨t :: _, _⟩) => .error (.unparsed t.start)

/-- The tree of a list of tokens. -/
def parseTokens (ts : List Token) : Except (List ParseError) (Expr (Complex R)) :=
  match postOrder ts with
  | .error es => .error es
  | .ok out => (ofPostOrder out).mapError fun e => [e]

/-- The tree of a text. -/
def parse (s : String) : Except (List ParseError) (Expr (Complex R)) :=
  parseTokens (tokenize s)

/-- The tree of a text in which sums of numerals are never read as one number. -/
def parseUnfused (s : String) : Except (List ParseError) (Expr (Complex R)) :=
  parseTokens (tokenizeUnfused s)

end Formulary

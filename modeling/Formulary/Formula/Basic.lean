import Formulary.Expr.Derivative
import Formulary.Expr.Latex
import Formulary.Expr.Parse
import Formulary.Expr.Script
import Formulary.Program

/-!
# Formulas

* `Formula R`: a tree with the table of its variables.
* `Formula.parse`: the formula of a text over the constants.
* `Formula.valueAt`, `Formula.realValueAt`, `Formula.valuesAt`: values.
* `Formula.simplified`, `Formula.derivative`, `Formula.rawDerivative`: formulas from formulas.
* `Formula.text`, `Formula.latex`, `Formula.luaChunk`, `Formula.program`: other forms of a formula.
-/

namespace Formulary

universe u

/-- A tree with the table of its variables. -/
structure Formula (R : Type u) where
  root : Expr (Complex R)
  vars : Vars (Complex R)
  /-- Derivatives are simplified. -/
  simplifiesDerivatives : Bool
  deriving Repr, Inhabited

namespace Formula

variable {R : Type u} [RealArith R]

/-- The formula of a tree over a table. -/
def ofExpr (root : Expr (Complex R)) (vars : Vars (Complex R)) : Formula R :=
  ⟨root, vars, true⟩

/-- The formula of a text over the constants. -/
def parse (s : String) : Except (List ParseError) (Formula R) :=
  (Formulary.parse s).map fun root => ofExpr root .constants

/-- The formula with one binding more. -/
def setVar (f : Formula R) (name : String) (value : Complex R) : Formula R :=
  { f with vars := f.vars.set name value }

/-- The formula with its tree simplified. -/
def simplified (f : Formula R) : Formula R :=
  { f with root := f.root.simplify }

/-- The derivative as the rules give it. -/
def rawDerivative (f : Formula R) : Except DerivativeError (Formula R) :=
  f.root.differentiate.map fun root => { f with root := root }

/-- The derivative, simplified if the formula asks for it. -/
def derivative (f : Formula R) : Except DerivativeError (Formula R) :=
  if f.simplifiesDerivatives then f.root.derivative.map fun root => { f with root := root }
  else f.rawDerivative

/-- The value at a complex argument. -/
def valueAt (f : Formula R) (x : Complex R) : Except EvalError (Complex R) :=
  f.root.eval x f.vars .complex

/-- The real part of the value at a real argument, in real arithmetic. -/
def realValueAt (f : Formula R) (x : R) : Except EvalError R :=
  (f.root.eval (.ofReal x) f.vars .real).map Complex.re

/-- The program of the formula. -/
def program (f : Formula R) : Program (Complex R) :=
  .ofExpr f.root

/-- The values at several complex arguments. -/
def valuesAt (f : Formula R) (xs : List (Complex R)) : List (Except EvalError (Complex R)) :=
  f.program.evalBatch xs f.vars .complex

/-- The formula as text. -/
def text (f : Formula R) : String :=
  f.root.text

/-- The formula as typeset markup. -/
def latex (f : Formula R) : String :=
  f.root.latex

/-- The Lua chunk that gives the function of the formula. -/
def luaChunk (f : Formula R) : Except ScriptError String :=
  f.root.luaChunk f.vars

end Formula

end Formulary

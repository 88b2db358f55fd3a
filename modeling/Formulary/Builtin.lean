/-!
# Builtin functions

The closed set of one-argument functions that a formula may call.

* `Builtin`: the functions; `Builtin.all` lists them in their fixed order.
* `Builtin.name`, `Builtin.markup`: the name in formulas and the command in typeset markup.
* `Builtin.named?`: look-up by name, the case of Latin letters ignored.
* `Builtin.isLogarithm`: the functions that a negative real argument has no real value for.

Every function is found under its own name (`named?_name`).
-/

namespace Formulary

/-- A function of one argument that formulas know by name. -/
inductive Builtin where
  | arcsin | arccos | arctan | arcsinh | arccosh | arctanh
  | sin | cos | tan | sinh | cosh | tanh
  | sqrt | cbrt | exp | ln | log | log10 | log2
  | erf | gamma
  deriving DecidableEq, Repr, Inhabited

namespace Builtin

/-- All functions, inverse functions first. -/
def all : List Builtin :=
  [arcsin, arccos, arctan, arcsinh, arccosh, arctanh, sin, cos, tan, sinh, cosh, tanh,
   sqrt, cbrt, exp, ln, log, log10, log2, erf, gamma]

theorem mem_all (f : Builtin) : f ∈ all := by
  cases f <;> decide

/-- The name a formula calls the function by. -/
def name : Builtin → String
  | arcsin => "arcsin"
  | arccos => "arccos"
  | arctan => "arctan"
  | arcsinh => "arcsinh"
  | arccosh => "arccosh"
  | arctanh => "arctanh"
  | sin => "sin"
  | cos => "cos"
  | tan => "tan"
  | sinh => "sinh"
  | cosh => "cosh"
  | tanh => "tanh"
  | sqrt => "sqrt"
  | cbrt => "cbrt"
  | exp => "exp"
  | ln => "ln"
  | log => "log"
  | log10 => "log10"
  | log2 => "log2"
  | erf => "erf"
  | gamma => "gamma"

/-- The command that typesets the function. -/
def markup : Builtin → String
  | arcsin => "\\arcsin"
  | arccos => "\\arccos"
  | arctan => "\\arctan"
  | arcsinh => "\\operatorname\x7barcsinh\x7d"
  | arccosh => "\\operatorname\x7barccosh\x7d"
  | arctanh => "\\operatorname\x7barctanh\x7d"
  | sin => "\\sin"
  | cos => "\\cos"
  | tan => "\\tan"
  | sinh => "\\sinh"
  | cosh => "\\cosh"
  | tanh => "\\tanh"
  | sqrt => "\\sqrt"
  | cbrt => "\\sqrt[3]"
  | exp => "\\exp"
  | ln => "\\ln"
  | log => "\\ln"
  | log10 => "\\log_\x7b10\x7d"
  | log2 => "\\log_\x7b2\x7d"
  | erf => "\\operatorname\x7berf\x7d"
  | gamma => "\\Gamma"

/-- The logarithms, which have no real value at a negative real number. -/
def isLogarithm : Builtin → Bool
  | ln | log | log10 | log2 => true
  | _ => false

/-- A Latin capital becomes its small letter; every other character stays. -/
def foldCase (c : Char) : Char :=
  if 'A' ≤ c ∧ c ≤ 'Z' then Char.ofNat (c.toNat + 32) else c

/-- The function of that name, the case of Latin letters ignored. -/
def named? (name : String) : Option Builtin :=
  let folded := String.ofList (name.toList.map foldCase)
  all.find? (·.name == folded)

theorem named?_name (f : Builtin) : named? f.name = some f := by
  cases f <;> decide +kernel

example : named? "ArcSinH" = some arcsinh ∧ named? "cot" = none := by decide +kernel

end Builtin

end Formulary

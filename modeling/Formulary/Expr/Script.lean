import Formulary.Expr.Text
import Formulary.Vars

/-!
# Formulas as Lua scripts

A formula over real numbers becomes a Lua expression in `x`, or a chunk that gives a Lua function.
Every operator is in parentheses, since Lua groups signs and powers differently.

* `luaCall?`: the application of a function; three functions have none.
* `Expr.lua`: the expression of a tree.
* `Expr.luaChunk`: the chunk, with the variables of the tree that a table binds as locals.
-/

namespace Formulary

open RealArith

universe u

variable {R : Type u} [RealArith R]

/-- The Lua expression of a function applied to an expression. Hyperbolic functions are spelled out
by exponentials and logarithms. -/
def luaCall? (f : Builtin) (a : String) : Option String :=
  match f with
  | .sin => some ("math.sin(" ++ a ++ ")")
  | .cos => some ("math.cos(" ++ a ++ ")")
  | .tan => some ("math.tan(" ++ a ++ ")")
  | .arcsin => some ("math.asin(" ++ a ++ ")")
  | .arccos => some ("math.acos(" ++ a ++ ")")
  | .arctan => some ("math.atan(" ++ a ++ ")")
  | .sinh => some ("((math.exp(" ++ a ++ ")-math.exp(-" ++ a ++ "))/2)")
  | .cosh => some ("((math.exp(" ++ a ++ ")+math.exp(-" ++ a ++ "))/2)")
  | .tanh => some ("((math.exp(2*" ++ a ++ ")-1)/(math.exp(2*" ++ a ++ ")+1))")
  | .arcsinh => some ("math.log(" ++ a ++ "+math.sqrt(" ++ a ++ "^2+1))")
  | .arccosh => some ("math.log(" ++ a ++ "+math.sqrt(" ++ a ++ "^2-1))")
  | .arctanh => some ("(0.5*math.log((1+" ++ a ++ ")/(1-" ++ a ++ ")))")
  | .sqrt => some ("math.sqrt(" ++ a ++ ")")
  | .exp => some ("math.exp(" ++ a ++ ")")
  | .ln | .log => some ("math.log(" ++ a ++ ")")
  | .log10 => some ("math.log(" ++ a ++ ",10)")
  | .log2 => some ("math.log(" ++ a ++ ",2)")
  | .cbrt | .erf | .gamma => none

/-- The Lua numeral of a finite real number; a negative one is in parentheses. -/
def luaNumber (v : Complex R) : Except ScriptError String :=
  if !v.isFinite then .error (.nonFinite v.label)
  else if v.im != 0 then .error (.complexLiteral (numberText v))
  else if lt v.re 0 then .ok (parenthesized (text v.re))
  else .ok (text v.re)

namespace Expr

/-- The Lua expression of a tree. -/
def lua : Expr (Complex R) → Except ScriptError String
  | number v => luaNumber v
  | argument => .ok argumentName
  | named name _ => .ok name
  | neg a =>
    match a.lua with
    | .ok s => .ok (parenthesized ("-" ++ s))
    | .error e => .error e
  | binary op a b _ =>
    match a.lua with
    | .error e => .error e
    | .ok s =>
      match b.lua with
      | .error e => .error e
      | .ok t => .ok (parenthesized (s ++ op.symbol ++ t))
  | call f a _ =>
    match a.lua with
    | .error e => .error e
    | .ok s =>
      match luaCall? f s with
      | some t => .ok t
      | none => .error (.unsupportedFunction f)

/-- The lines that bind the names that the table knows; it must give them real values. -/
def luaLocals (vars : Vars (Complex R)) : List String → Except ScriptError String
  | [] => .ok ""
  | name :: names =>
    match vars.get? name with
    | none => luaLocals vars names
    | some v =>
      if v.im != 0 then .error (.complexLiteral (name ++ "=" ++ v.label))
      else
        match luaLocals vars names with
        | .ok lines => .ok ("local " ++ name ++ " = " ++ RealArith.text v.re ++ "\n" ++ lines)
        | .error e => .error e

/-- The Lua chunk that gives the function of a tree. Names that the table lacks stay global. -/
def luaChunk (a : Expr (Complex R)) (vars : Vars (Complex R)) : Except ScriptError String :=
  match a.lua with
  | .error e => .error e
  | .ok body =>
    match luaLocals vars a.variableNames with
    | .error e => .error e
    | .ok lines => .ok (lines ++ "return function(x) return " ++ body ++ " end\n")

end Expr

end Formulary

import Formulary.Builtin

/-!
# Errors

Each way a step can fail, with the place in the text that caused it where there is one, and the
wording in one function for each kind of error.

* `ParseError`: reading a formula. `ParseError.joined` is the report of several.
* `EvalError`: computing a value.
* `DerivativeError`: differentiating.
* `ScriptError`: writing a script.
-/

namespace Formulary

/-- A place in a formula's text, in bytes from its start; absent for what was not read from text. -/
abbrev Position := Option Nat

/-- What is wrong with the text of a formula. -/
inductive ParseError where
  | badInput (position : Nat)
  | mismatchedClose (position : Nat)
  | mismatchedOpen (position : Nat)
  | empty
  | noOperands (position : Nat)
  | unparsed (position : Nat)
  | badNumber (text : String) (position : Nat)
  deriving DecidableEq, Repr, Inhabited

namespace ParseError

/-- The place of the error. -/
def position : ParseError → Position
  | badInput p | mismatchedClose p | mismatchedOpen p | noOperands p | unparsed p
  | badNumber _ p => some p
  | empty => none

/-- The message of the error. -/
def message : ParseError → String
  | badInput p => toString p ++ ": bad input"
  | mismatchedClose p => toString p ++ ": mismatched closing parentheses"
  | mismatchedOpen p => toString p ++ ": mismatched opening parentheses"
  | empty => "empty formula"
  | noOperands p => toString p ++ ": operator has no operands"
  | unparsed p => toString p ++ ": some operands remain unparsed"
  | badNumber text p => toString p ++ ": could not parse number '" ++ text ++ "'"

/-- The messages of several errors in one text. -/
def joined (errors : List ParseError) : String :=
  String.intercalate "; " (errors.map message)

end ParseError

/-- Why a formula has no value. -/
inductive EvalError where
  | undefinedVariable (name : String) (position : Position)
  | divisionByZero (position : Position)
  | unknownFunction (name : String) (position : Position)
  | logOfNegative (function : Builtin) (position : Position)
  deriving DecidableEq, Repr, Inhabited

namespace EvalError

/-- The place of the error. -/
def position : EvalError → Position
  | undefinedVariable _ p | divisionByZero p | unknownFunction _ p | logOfNegative _ p => p

/-- The message of the error. -/
def message : EvalError → String
  | undefinedVariable name _ => "undefined variable '" ++ name ++ "'"
  | divisionByZero _ => "division by zero"
  | unknownFunction name _ => "unknown function '" ++ name ++ "'"
  | logOfNegative f _ => "logarithm of negative number in " ++ f.name

end EvalError

/-- Why a formula has no derivative: it calls a function that no rule covers. -/
structure DerivativeError where
  function : Builtin
  position : Position
  deriving DecidableEq, Repr, Inhabited

/-- The message of the error. -/
def DerivativeError.message (e : DerivativeError) : String :=
  "unsupported derivative of '" ++ e.function.name ++ "'"

/-- Why a formula has no script. -/
inductive ScriptError where
  | complexLiteral (value : String)
  | unsupportedFunction (function : Builtin)
  | nonFinite (value : String)
  deriving DecidableEq, Repr, Inhabited

/-- The message of the error. -/
def ScriptError.message : ScriptError → String
  | complexLiteral value => "complex literal " ++ value ++ " has no real-valued script form"
  | unsupportedFunction f => "function '" ++ f.name ++ "' has no script equivalent"
  | nonFinite value => "literal " ++ value ++ " is not finite"

end Formulary

import Formulary.Formula.Basic

/-!
# Formulas under settings

* `Setting R`: one wish about the formula of a text: a binding, its constants, or how it is
  simplified.
* `Options R`: what settings come to. `Options.ofSettings` takes them in turn, so that of two
  settings of one thing the later one counts.
* `Options.table`: the table of the formula. A binding of the settings counts before the constant of
  the same name, whatever their order.
* `Formula.build`: the formula of a text under settings.
-/

namespace Formulary

universe u

/-- One wish about the formula of a text. -/
inductive Setting (R : Type u) where
  /-- A name gets a value. -/
  | binding (name : String) (value : Complex R)
  /-- The names of a table get their values. -/
  | bindings (vars : Vars (Complex R))
  /-- The constants are not bound. -/
  | withoutConstants
  /-- The tree is simplified or not. -/
  | simplify (enabled : Bool)
  /-- Derivatives are simplified or not. -/
  | simplifyDerivatives (enabled : Bool)
  deriving DecidableEq, Repr

/-- What settings come to. -/
structure Options (R : Type u) where
  /-- The bindings that were asked for. -/
  bindings : Vars (Complex R)
  /-- The constants are bound. -/
  constants : Bool
  /-- The tree is simplified. -/
  simplifies : Bool
  /-- Derivatives are simplified. -/
  simplifiesDerivatives : Bool
  deriving DecidableEq, Repr

namespace Options

variable {R : Type u}

/-- The constants, the tree as it is written, and derivatives simplified. -/
def initial : Options R :=
  ⟨.empty, true, false, true⟩

/-- One setting more. -/
def add (o : Options R) : Setting R → Options R
  | .binding name value => { o with bindings := o.bindings.set name value }
  | .bindings vars => { o with bindings := o.bindings.setAll vars.entries }
  | .withoutConstants => { o with constants := false }
  | .simplify enabled => { o with simplifies := enabled }
  | .simplifyDerivatives enabled => { o with simplifiesDerivatives := enabled }

/-- What a list of settings comes to. -/
def ofSettings (settings : List (Setting R)) : Options R :=
  settings.foldl add initial

variable [RealArith R]

/-- The table of a formula. -/
def table (o : Options R) : Vars (Complex R) :=
  (if o.constants then Vars.constants else .empty).setAll o.bindings.entries

end Options

variable {R : Type u} [RealArith R]

/-- The formula of a text under settings. -/
def Formula.build (s : String) (settings : List (Setting R)) :
    Except (List ParseError) (Formula R) :=
  let o := Options.ofSettings settings
  (Formulary.parse s).map fun root =>
    ⟨if o.simplifies then root.simplify else root, o.table, o.simplifiesDerivatives⟩

end Formulary

import Formulary.Binary64.Arith
import Formulary.Proofs.Expr.FailingNodes
import Formulary.Proofs.Expr.Steps

/-!
# What holds of every tree that a text leads to

Simplifying and differentiating make new numbers and new calls, again and again. What they make stays
within limits that the writers of formulas and the functions with branch cuts rely on.

* `IsVariableName`: a name that can only mean a variable.
* `IsDerivedFrom a b`: the limits for a tree `b` that was made of the parsed tree `a`.
* **`isDerivedFrom_of_reaches`**: every tree that a text leads to keeps them.
-/

namespace Formulary

universe u

/-- The name is neither that of the argument nor the imaginary unit nor a function. -/
structure IsVariableName (name : String) : Prop where
  ne_argument : name ≠ argumentName
  ne_unit : name ≠ "i"
  no_function : Builtin.named? name = none

/-- What holds of a tree made of a parsed one. -/
structure IsDerivedFrom {R : Type u} [RealArith R] (a b : Expr (Complex R)) : Prop where
  /-- Both parts of a number are finite, and neither is a negative zero. -/
  number : ∀ v, .number v ∈ b.subtrees → v.isFinite = true ∧ v.noMinusZero = true
  /-- Exponentials are powers of Euler's number, and the natural logarithm has one name. -/
  function : ∀ f c p, .call f c p ∈ b.subtrees → f ≠ .exp ∧ f ≠ .ln
  /-- All variables are there from the start. -/
  name : ∀ n ∈ b.variableNames, n ∈ a.variableNames ∧ IsVariableName n
  /-- A variable that evaluation misses was missing from the start. -/
  undefined : ∀ x vars mode n p, b.eval x vars mode = .error (.undefinedVariable n p) →
    n ∈ a.variableNames ∧ vars.get? n = none

variable {R : Type u} [RealArith R]

/-! ### Leaves -/

namespace Expr

variable {K : Type u}

/-- Nothing is asked but that the variables have certain names. -/
def namedLeaves (N : String → Prop) : LeafProperty K where
  number _ := True
  name := N
  function _ := True

theorem leavesHold_namedLeaves {a : Expr K} {N : String → Prop} (h : ∀ n ∈ a.variableNames, N n) :
    a.LeavesHold (namedLeaves N) :=
  leavesHold_of_leaves (fun _ _ => trivial)
    (fun n p hmem => h n (mem_variableNames_iff.2 ⟨p, hmem⟩)) fun _ _ _ _ => trivial

theorem leavesHold_variableNames (a : Expr K) :
    a.LeavesHold (namedLeaves (· ∈ a.variableNames)) :=
  leavesHold_namedLeaves fun _ h => h

end Expr

theorem isVariableName_of_isName {l : Placed} (h : l.isName = true) (hx : l.text ≠ argumentName) :
    IsVariableName l.text := by
  unfold Placed.isName at h
  obtain ⟨hword, hfunction⟩ := Bool.and_eq_true_iff.1 h
  obtain ⟨hword, hunit⟩ := Bool.and_eq_true_iff.1 hword
  refine ⟨hx, bne_iff_ne.1 hunit, ?_⟩
  unfold Placed.function? at hfunction
  rw [if_pos hword] at hfunction
  exact Option.isNone_iff_eq_none.1 hfunction

theorem isVariableName_euler : IsVariableName eulerName :=
  ⟨by decide, by decide, by decide +kernel⟩

/-! ### All trees of a text -/

/-- What holds of the leaves of `b`, said of the tree. -/
theorem isDerivedFrom_of_leavesHold {a b : Expr (Complex R)}
    (hb : b.LeavesHold (derivedLeaves fun n => n ∈ a.variableNames ∧ IsVariableName n)) :
    IsDerivedFrom a b where
  number _ hmem := hb.of_mem hmem
  function _ _ _ hmem := (hb.of_mem hmem).1
  name _ hn := by
    obtain ⟨p, hmem⟩ := Expr.mem_variableNames_iff.1 hn
    exact hb.of_mem hmem
  undefined _ _ _ _ _ he := by
    obtain ⟨hnone, hmem⟩ := Expr.raisedIn_of_eval he
    exact ⟨(hb.of_mem hmem).1, hnone⟩

/-- However often a parsed tree is simplified and differentiated, its numbers are finite and have no
negative zero, it calls neither the exponential nor the second name of the logarithm, and it has no
new variable. -/
theorem isDerivedFrom_of_reaches [ZeroLaws R] {s : String} {a b : Expr (Complex R)}
    (hparse : parse s = .ok a) (hreach : a.Reaches b) : IsDerivedFrom a b := by
  have hnames : a.LeavesHold (derivedLeaves IsVariableName) :=
    derivedLeaves_of_parse hparse (fun l _ hname hx => isVariableName_of_isName hname hx)
      isVariableName_euler
  have ha : a.LeavesHold (derivedLeaves fun n => n ∈ a.variableNames ∧ IsVariableName n) :=
    a.leavesHold_variableNames.both hnames (fun _ _ h => h) (fun _ h h' => ⟨h, h'⟩) fun _ _ h => h
  exact isDerivedFrom_of_leavesHold (derivedLeaves_of_reaches hreach ha)

/-- Machine numbers have the laws: an exponential and its derivative are within the limits. -/
theorem isDerivedFrom_exponential :
    ∃ a b : Expr (Complex Double), parse "exp x" = .ok a ∧ a.derivative = .ok b ∧
      b.variableNames = [eulerName] ∧ IsDerivedFrom a b := by
  have hwritten : written "exp x" = [⟨⟨.word, ['e', 'x', 'p']⟩, 0⟩, ⟨⟨.word, ['x']⟩, 4⟩] := by
    decide +kernel
  have hx : Denotes .primary [⟨⟨.word, ['x']⟩, 4⟩] (.argument : Expr (Complex Double)) :=
    .argument (by decide +kernel) (by decide +kernel)
  let a : Expr (Complex Double) := .binary .pow (.named eulerName (some 0)) .argument (some 0)
  have hparse : parse "exp x" = .ok a := by
    refine parse_of_denotes ?_
    rw [hwritten]
    exact .ofTerm (.ofPower (.ofUnary (.exponential (by decide +kernel) (.ofPrimary hx))))
  refine ⟨a, _, hparse, rfl, ?_, isDerivedFrom_of_reaches hparse (.derivative .refl rfl)⟩
  decide +kernel

end Formulary

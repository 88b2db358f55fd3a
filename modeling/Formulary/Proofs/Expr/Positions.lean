import Formulary.Expr.Eval
import Formulary.Proofs.Expr.Leaves

/-!
# Trees without places

The places in a text that a tree carries decide nothing but where its errors are reported.

* `Expr.unplaced`, `EvalError.unplaced`: the tree and the error without places.
* `SameOutcome`: two evaluations agree up to the place of an error.
* `beq_unplaced`: the equality test sees no places.
* **`eval_unplaced`**: evaluation without places is evaluation whose error has no place.
-/

namespace Formulary

universe u

/-- The error without the place it was found at. -/
def EvalError.unplaced : EvalError → EvalError
  | undefinedVariable name _ => undefinedVariable name none
  | divisionByZero _ => divisionByZero none
  | unknownFunction name _ => unknownFunction name none
  | logOfNegative f _ => logOfNegative f none

/-- The same value, or the same error wherever it was found. -/
def SameOutcome {K : Type u} (r s : Except EvalError K) : Prop :=
  r.mapError EvalError.unplaced = s.mapError EvalError.unplaced

namespace Expr

variable {K : Type u}

/-- The tree without the places it was read from. -/
def unplaced : Expr K → Expr K
  | number v => number v
  | argument => argument
  | named name _ => named name none
  | neg a => neg a.unplaced
  | binary op a b _ => binary op a.unplaced b.unplaced none
  | call f a _ => call f a.unplaced none

/-- Equality of trees does not look at places. -/
theorem beq_unplaced [BEq K] (a b : Expr K) : beq a.unplaced b.unplaced = beq a b := by
  induction a generalizing b with
  | neg a ih =>
    cases b with
    | neg b => exact ih b
    | _ => rfl
  | binary op a₁ a₂ p ih₁ ih₂ =>
    cases b with
    | binary op' b₁ b₂ q =>
      show (op == op' && beq a₁.unplaced b₁.unplaced && beq a₂.unplaced b₂.unplaced) = _
      rw [ih₁, ih₂]
      rfl
    | _ => rfl
  | call f a p ih =>
    cases b with
    | call g b q =>
      show (f == g && beq a.unplaced b.unplaced) = _
      rw [ih]
      rfl
    | _ => rfl
  | _ => cases b <;> rfl

section Values

variable [Arith K] (x : K) (vars : Vars K) (mode : EvalMode)

theorem evalBinary_unplaced (op : BinaryOp) (v w : K) (p : Position) :
    evalBinary op v w none = (evalBinary op v w p).mapError EvalError.unplaced := by
  unfold evalBinary
  split <;> rfl

theorem evalCall_unplaced (f : Builtin) (v : K) (p : Position) :
    evalCall f v none mode = (evalCall f v p mode).mapError EvalError.unplaced := by
  unfold evalCall
  split <;> rfl

omit [Arith K] in
theorem evalNamed_unplaced (name : String) (p : Position) :
    evalNamed vars name none = (evalNamed vars name p).mapError EvalError.unplaced := by
  unfold evalNamed
  split <;> rfl

/-- Without places a tree has the same value, or the same error without a place. -/
theorem eval_unplaced (a : Expr K) :
    a.unplaced.eval x vars mode = (a.eval x vars mode).mapError EvalError.unplaced := by
  induction a with
  | number v => rfl
  | argument => rfl
  | named name p => exact evalNamed_unplaced vars name p
  | neg a ih =>
    simp only [unplaced, eval]
    rw [ih]
    cases a.eval x vars mode <;> rfl
  | binary op a b p iha ihb =>
    simp only [unplaced, eval]
    rw [iha, ihb]
    cases a.eval x vars mode with
    | error e => rfl
    | ok v =>
      cases b.eval x vars mode with
      | error e => rfl
      | ok w => exact evalBinary_unplaced op v w p
  | call f a p ih =>
    simp only [unplaced, eval]
    rw [ih]
    cases a.eval x vars mode with
    | error e => rfl
    | ok v => exact evalCall_unplaced mode f v p

/-- Trees that differ in their places only have the same outcome. -/
theorem sameOutcome_of_unplaced {a b : Expr K} (h : a.unplaced = b.unplaced) :
    SameOutcome (a.eval x vars mode) (b.eval x vars mode) := by
  unfold SameOutcome
  rw [← eval_unplaced, ← eval_unplaced, h]

end Values

end Expr

end Formulary

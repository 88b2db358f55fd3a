import Formulary.Binary64.Arith
import Formulary.Proofs.Expr.Unplaced
import Formulary.Proofs.Program.Simulation

/-!
# Places tell nothing apart

Two trees that differ in their places only are the same tree to everything but the report of an
error: what is made of them differs in places only, and what has no places does not differ.

* `Instruction.unplaced`, `Program.unplaced`: a step and a program without places.
* `emit_unplaced`: the program of a tree without places.
* `Expr.Alike`: whatever is made of two trees is the same up to places.
* **`alike_of_unplaced`**: trees that differ in their places only are alike.
-/

namespace Formulary

universe u

variable {K : Type u}

/-- The step without the place of its node. -/
def Instruction.unplaced : Instruction K → Instruction K
  | load slot _ => load slot none
  | binary op _ => binary op none
  | call f _ => call f none
  | i => i

/-- The program without the places of its nodes. -/
def Program.unplaced (p : Program K) : Program K :=
  { p with code := p.code.map Instruction.unplaced }

/-- Laying out a tree does not look at places. -/
theorem emit_unplaced (names : List String) (a : Expr K) :
    Program.emit names a.unplaced = (Program.emit names a).unplaced := by
  induction a generalizing names with
  | number v => rfl
  | argument => rfl
  | named n p => rfl
  | neg a ih => simp [Expr.unplaced, Program.emit, ih, Program.unplaced, Instruction.unplaced]
  | binary op a b p iha ihb =>
    simp [Expr.unplaced, Program.emit, iha, ihb, Program.unplaced, Instruction.unplaced]
  | call f a p ih => simp [Expr.unplaced, Program.emit, ih, Program.unplaced, Instruction.unplaced]

/-- Whatever is made of the trees is the same, up to the places it carries. -/
structure Expr.Alike {R : Type u} [RealArith R] (a b : Expr (Complex R)) : Prop where
  simplify : a.simplify.unplaced = b.simplify.unplaced
  /-- Two derivatives, or two errors that name the same function. -/
  differentiate : unplacedDerivative a.differentiate = unplacedDerivative b.differentiate
  derivative : unplacedDerivative a.derivative = unplacedDerivative b.derivative
  text : a.text = b.text
  latex : a.latex = b.latex
  lua : a.lua = b.lua
  luaChunk : ∀ vars, a.luaChunk vars = b.luaChunk vars
  variableNames : a.variableNames = b.variableNames
  program : (Program.ofExpr a).unplaced = (Program.ofExpr b).unplaced
  eval : ∀ x vars mode, SameOutcome (a.eval x vars mode) (b.eval x vars mode)
  evalProgram : ∀ x vars mode,
    SameOutcome ((Program.ofExpr a).eval x vars mode) ((Program.ofExpr b).eval x vars mode)
  /-- They equal the same trees, on either side of the comparison. -/
  beq_left : ∀ c, (a == c) = (b == c)
  beq_right : ∀ c, (c == a) = (c == b)

/-- **Places tell nothing apart**: what is made of two trees that differ in their places only is
the same, up to places again. -/
theorem alike_of_unplaced {R : Type u} [RealArith R] {a b : Expr (Complex R)}
    (h : a.unplaced = b.unplaced) : a.Alike b where
  simplify := by rw [Expr.unplaced_simplify, h, ← Expr.unplaced_simplify]
  differentiate := by
    rw [← Expr.differentiate_unplaced, h, Expr.differentiate_unplaced]
  derivative := by rw [← Expr.derivative_unplaced, h, Expr.derivative_unplaced]
  text := by rw [← Expr.text_unplaced, h, Expr.text_unplaced]
  latex := by rw [← Expr.latex_unplaced, h, Expr.latex_unplaced]
  lua := by rw [← Expr.lua_unplaced, h, Expr.lua_unplaced]
  luaChunk := fun vars => by rw [← Expr.luaChunk_unplaced, h, Expr.luaChunk_unplaced]
  variableNames := by rw [← Expr.variableNames_unplaced, h, Expr.variableNames_unplaced]
  program := by
    unfold Program.ofExpr
    rw [← emit_unplaced, h, emit_unplaced]
  eval := fun x vars mode => Expr.sameOutcome_of_unplaced x vars mode h
  evalProgram := fun x vars mode => by
    rw [eval_ofExpr_eq, eval_ofExpr_eq]
    exact Expr.sameOutcome_of_unplaced x vars mode h
  beq_left := fun c => by
    show Expr.beq a c = Expr.beq b c
    rw [← Expr.beq_unplaced, h, Expr.beq_unplaced]
  beq_right := fun c => by
    show Expr.beq c a = Expr.beq c b
    rw [← Expr.beq_unplaced, h, Expr.beq_unplaced]

/-- A quotient read from a text and the same quotient from elsewhere. -/
theorem alike_of_unplaced_quotient :
    (.binary .div (.named "k" (some 0)) .argument (some 1) : Expr (Complex Double)).unplaced =
      (.binary .div (.named "k" none) .argument none : Expr (Complex Double)).unplaced ∧
    (.binary .div (.named "k" (some 0)) .argument (some 1) : Expr (Complex Double)).Alike
      (.binary .div (.named "k" none) .argument none) :=
  ⟨rfl, alike_of_unplaced rfl⟩

end Formulary

import Formulary.Program

/-!
# A program computes what its tree does

The program of a tree and the tree itself give the same value, or the same error, at every argument,
in every table and in both modes.

* `names_prefix_emit`: laying out a tree only appends to the names of the slots.
* `runCode_emit`: in front of any further code, on any stack, and with any slots added later, the
  code of a tree puts the tree's value on the stack or fails as the tree does.
* `run_ofExpr`, `eval_ofExpr_eq`: the whole program.

No law of the arithmetic is used.
-/

namespace Formulary

universe u

variable {K : Type u}

/-! ### Slots -/

namespace Expr

theorem prefix_addName (names : List String) (name : String) : names <+: addName names name := by
  unfold addName
  split
  · exact List.prefix_refl names
  · exact List.prefix_append names [name]

theorem mem_addName (names : List String) (name : String) : name ∈ addName names name := by
  unfold addName
  split
  · assumption
  · exact List.mem_append_right names (List.mem_singleton_self name)

end Expr

namespace Program

theorem names_prefix_emit (names : List String) (a : Expr K) : names <+: (emit names a).names := by
  induction a generalizing names with
  | number | argument => exact List.prefix_refl names
  | named name p => exact Expr.prefix_addName names name
  | neg a ih | call f a p ih => exact ih names
  | binary op a b p iha ihb => exact (iha names).trans (ihb (emit names a).names)

end Program

/-- The slot a name has once it is added keeps the name whatever is appended. -/
theorem getElem?_idxOf_of_prefix {name : String} {names all : List String} (hm : name ∈ names)
    (hp : names <+: all) : all[names.idxOf name]? = some name := by
  have hlt : names.idxOf name < names.length := List.idxOf_lt_length_iff.2 hm
  rw [List.getElem?_eq_some_iff]
  refine ⟨Nat.lt_of_lt_of_le hlt hp.length_le, ?_⟩
  rw [← hp.getElem hlt]
  exact List.getElem_idxOf hlt

/-! ### Running -/

variable [Arith K]

/-- What follows a tree's code runs on the tree's value; after an error nothing runs. -/
def continueWith (names : List String) (slots : List (Option K)) (x : K) (mode : EvalMode)
    (rest : List (Instruction K)) (stack : List K) : Except EvalError K → Except EvalError (List K)
  | .ok v => runCode names slots x mode rest (v :: stack)
  | .error e => .error e

/-- Loading the slot of a name gives what evaluating the name gives. -/
theorem step_load {names all : List String} {name : String} (vars : Vars K) (x : K)
    (mode : EvalMode) (stack : List K) (p : Position) (hm : name ∈ names) (hp : names <+: all) :
    Instruction.step all (all.map vars.get?) x mode stack (.load (names.idxOf name) p) =
      (evalNamed vars name p).map (· :: stack) := by
  have hslot := getElem?_idxOf_of_prefix hm hp
  simp only [Instruction.step, List.getElem?_map, hslot, Option.map_some, evalNamed]
  cases vars.get? name with
  | some v => rfl
  | none =>
    simp only [Option.join_some, List.getD_eq_getElem?_getD, hslot, Option.getD_some, Except.map]

/-- **The code of a tree computes the tree.** It may stand in front of any code, run on any stack,
and share its slots with names that come later. -/
theorem runCode_emit (a : Expr K) (x : K) (vars : Vars K) (mode : EvalMode) (names all : List String)
    (rest : List (Instruction K)) (stack : List K) (hp : (Program.emit names a).names <+: all) :
    runCode all (all.map vars.get?) x mode ((Program.emit names a).code ++ rest) stack =
      continueWith all (all.map vars.get?) x mode rest stack (a.eval x vars mode) := by
  induction a generalizing names rest stack with
  | number v => rfl
  | argument => rfl
  | named name p =>
    show runCode all _ x mode (.load _ p :: rest) stack = _
    rw [runCode, step_load vars x mode stack p (Expr.mem_addName names name) hp, Expr.eval]
    cases evalNamed vars name p <;> rfl
  | neg a ih =>
    simp only [Program.emit, List.append_assoc]
    rw [ih names _ stack hp, Expr.eval]
    cases a.eval x vars mode <;> rfl
  | call f a p ih =>
    simp only [Program.emit, List.append_assoc]
    rw [ih names _ stack hp, Expr.eval]
    cases a.eval x vars mode with
    | error e => rfl
    | ok v =>
      show runCode all _ x mode (.call f p :: rest) (v :: stack) =
        continueWith all _ x mode rest stack (evalCall f v p mode)
      simp only [runCode, Instruction.step, popValue]
      cases evalCall f v p mode <;> rfl
  | binary op a b p iha ihb =>
    have hb := Program.names_prefix_emit (Program.emit names a).names b
    simp only [Program.emit, List.append_assoc]
    rw [iha names _ stack (hb.trans hp), Expr.eval]
    cases a.eval x vars mode with
    | error e => rfl
    | ok v =>
      show runCode all _ x mode ((Program.emit (Program.emit names a).names b).code ++
        (.binary op p :: rest)) (v :: stack) = _
      rw [ihb (Program.emit names a).names _ (v :: stack) hp]
      cases b.eval x vars mode with
      | error e => rfl
      | ok w =>
        show runCode all _ x mode (.binary op p :: rest) (w :: v :: stack) =
          continueWith all _ x mode rest stack (evalBinary op v w p)
        simp only [runCode, Instruction.step, popValue]
        cases evalBinary op v w p <;> rfl

/-- Run on the values of its variables, the program of a tree computes the tree. -/
theorem run_ofExpr (a : Expr K) (x : K) (vars : Vars K) (mode : EvalMode) :
    (Program.ofExpr a).run ((Program.ofExpr a).bind vars) x mode = a.eval x vars mode := by
  have h := runCode_emit a x vars mode [] (Program.ofExpr a).names [] [] (List.prefix_refl _)
  rw [List.append_nil] at h
  unfold Program.run Program.bind
  rw [show (Program.ofExpr a).code = (Program.emit [] a).code from rfl, h]
  cases a.eval x vars mode <;> rfl

/-- **A compiled tree and the tree itself are the same function**: the same value or the same error,
with its name, its function and its place. -/
theorem eval_ofExpr_eq (a : Expr K) (x : K) (vars : Vars K) (mode : EvalMode) :
    (Program.ofExpr a).eval x vars mode = a.eval x vars mode :=
  run_ofExpr a x vars mode

end Formulary

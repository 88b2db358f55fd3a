import Formulary.Expr.Eval

/-!
# Programs

A tree laid out flat, operands before operators, runs on a stack of values. The names of its
variables are collected in slots, which are looked up once for a run.

* `Instruction`, `Program`: the steps, the names of the slots, and the height the stack reaches.
* `Program.ofExpr`: the program of a tree.
* `Instruction.step`, `Program.run`: running one step, and all.
* `runOn`, `Program.runShared`: running on a stack that others have run on and will run on.
* `Program.eval`, `Program.evalBatch`: the value at one argument, and at each of several.
-/

namespace Formulary

universe u

/-- One step of a program. -/
inductive Instruction (K : Type u) where
  | push (value : K)
  | argument
  /-- Puts the value of a slot on the stack. -/
  | load (slot : Nat) (position : Position)
  | neg
  | binary (op : BinaryOp) (position : Position)
  | call (function : Builtin) (position : Position)
  deriving DecidableEq, Repr, Inhabited

/-- A tree laid out flat. -/
structure Program (K : Type u) where
  code : List (Instruction K)
  /-- The names of the slots. -/
  names : List String
  /-- The height the stack reaches. -/
  depth : Nat
  deriving DecidableEq, Repr, Inhabited

variable {K : Type u}

namespace Program

/-- The program of a tree whose slots follow those of `names`. -/
def emit (names : List String) : Expr K → Program K
  | .number v => ⟨[.push v], names, 1⟩
  | .argument => ⟨[.argument], names, 1⟩
  | .named name p =>
    let names := Expr.addName names name
    ⟨[.load (names.idxOf name) p], names, 1⟩
  | .neg a =>
    let a := emit names a
    ⟨a.code ++ [.neg], a.names, a.depth⟩
  | .binary op a b p =>
    let a := emit names a
    let b := emit a.names b
    ⟨a.code ++ b.code ++ [.binary op p], b.names, max a.depth (b.depth + 1)⟩
  | .call f a p =>
    let a := emit names a
    ⟨a.code ++ [.call f p], a.names, a.depth⟩

/-- A program has a step for each node of the tree. -/
theorem length_code_emit (names : List String) (a : Expr K) :
    (emit names a).code.length = a.size := by
  induction a generalizing names with
  | number | argument | named => rfl
  | neg a ih | call f a p ih => simp [emit, Expr.size, ih, Nat.add_comm]
  | binary op a b p iha ihb =>
    simp only [emit, Expr.size, List.length_append, List.length_cons, List.length_nil, iha, ihb]
    omega

/-- The program of a tree. -/
def ofExpr (a : Expr K) : Program K :=
  emit [] a

end Program

/-! ### Running -/

variable [Arith K]

/-- The top of the stack and what is below it. An empty stack, which the program of a tree never
leaves to a step that takes a value, counts as zeros. -/
def popValue : List K → K × List K
  | v :: stack => (v, stack)
  | [] => (Arith.ofNat 0, [])

/-- A step with the names and the values of the slots. -/
def Instruction.step (names : List String) (slots : List (Option K)) (x : K) (mode : EvalMode)
    (stack : List K) : Instruction K → Except EvalError (List K)
  | push v => .ok (v :: stack)
  | argument => .ok (x :: stack)
  | load slot p =>
    match slots[slot]?.join with
    | some v => .ok (v :: stack)
    | none => .error (.undefinedVariable (names.getD slot "") p)
  | neg =>
    let (v, stack) := popValue stack
    .ok (Arith.normalize (-v) :: stack)
  | binary op p =>
    let (w, stack) := popValue stack
    let (v, stack) := popValue stack
    match evalBinary op v w p with
    | .ok u => .ok (u :: stack)
    | .error e => .error e
  | call f p =>
    let (v, stack) := popValue stack
    match evalCall f v p mode with
    | .ok u => .ok (u :: stack)
    | .error e => .error e

/-- Steps in turn, up to the first error. -/
def runCode (names : List String) (slots : List (Option K)) (x : K) (mode : EvalMode) :
    List (Instruction K) → List K → Except EvalError (List K)
  | [], stack => .ok stack
  | i :: is, stack =>
    match i.step names slots x mode stack with
    | .ok stack => runCode names slots x mode is stack
    | .error e => .error e

/-- The number of values that a step takes off the stack. -/
def Instruction.operands : Instruction K → Nat
  | push _ | argument | load _ _ => 0
  | neg | call _ _ => 1
  | binary _ _ => 2

/-- Steps in turn on a stack that outlives them. A step that fails has taken its operands, and what
is below them stays. -/
def runOn (names : List String) (slots : List (Option K)) (x : K) (mode : EvalMode) :
    List (Instruction K) → List K → Except EvalError Unit × List K
  | [], stack => (.ok (), stack)
  | i :: is, stack =>
    match i.step names slots x mode stack with
    | .ok stack => runOn names slots x mode is stack
    | .error e => (.error e, stack.drop i.operands)

namespace Program

/-- The values of the slots; a name that the table lacks has none. -/
def bind (p : Program K) (vars : Vars K) : List (Option K) :=
  p.names.map vars.get?

/-- The value that the program leaves on the stack. -/
def run (p : Program K) (slots : List (Option K)) (x : K) (mode : EvalMode) :
    Except EvalError K :=
  match runCode p.names slots x mode p.code [] with
  | .ok stack => .ok (popValue stack).1
  | .error e => .error e

/-- The value where the argument is `x`. -/
def eval (p : Program K) (x : K) (vars : Vars K) (mode : EvalMode) : Except EvalError K :=
  p.run (p.bind vars) x mode

/-- The value that the program gives on a shared stack. It is cleared first, and the value is taken
off it. -/
def runShared (p : Program K) (slots : List (Option K)) (x : K) (mode : EvalMode) :
    StateM (List K) (Except EvalError K) := do
  set ([] : List K)
  modifyGet fun stack =>
    match runOn p.names slots x mode p.code stack with
    | (.ok (), stack) => let (v, stack) := popValue stack; (.ok v, stack)
    | (.error e, stack) => (.error e, stack)

/-- The values where the argument is each of `xs`. The variables are looked up once and all points
share one stack. -/
def evalBatch (p : Program K) (xs : List K) (vars : Vars K) (mode : EvalMode) :
    List (Except EvalError K) :=
  let slots := p.bind vars
  ((xs.mapM fun x => p.runShared slots x mode).run []).1

end Program

/-! ### Listing -/

/-- The step in a listing, given the text of a number. -/
def Instruction.label (numberText : K → String) : Instruction K → String
  | push v => numberText v
  | argument => argumentName
  | load slot _ => "$" ++ toString slot
  | neg => "neg"
  | binary op _ => op.symbol
  | call f _ => f.name

/-- The steps of a program in one line. -/
def Program.listing (numberText : K → String) (p : Program K) : String :=
  String.intercalate " " (p.code.map (·.label numberText))

end Formulary

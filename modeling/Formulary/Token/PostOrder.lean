import Formulary.Error
import Formulary.Token.Reading

/-!
# Operands before operators

The tokens of a formula are put in the order in which it is computed: each operator follows its
operands. Operators wait on a stack until all that binds tighter has passed; parentheses and
function names wait for their operand.

* `yieldsTo`: a waiting operator takes its operands before a new one does.
* `Waiting`: the tokens put out so far, last one first, and the operators that wait, top first.
* `Waiting.place`: one token more.
* `postOrder`: the whole conversion, or the errors of the text: every bad character, then at most
  one parenthesis without its partner.
-/

namespace Formulary

/-- A waiting operator takes its operands before `next` takes its own. -/
def yieldsTo (next waiting : Operator) : Bool :=
  waiting != .openParen &&
    (decide (next.precedence < waiting.precedence) ||
      waiting.precedence == next.precedence && !waiting.isRightAssoc)

/-- The token is the operator. -/
def Token.isOperator (t : Token) (op : Operator) : Bool :=
  t.kind == .operator op

/-- The token applies a function. -/
def Token.isApply (t : Token) : Bool :=
  match t.kind with
  | .operator (.apply _) => true
  | _ => false

/-- The token waits and yields to the operator `next`. -/
def Token.yieldsTo (t : Token) (next : Operator) : Bool :=
  t.operator?.any (Formulary.yieldsTo next)

/-- The conversion half way. -/
structure Waiting where
  /-- The tokens put out, the last one first. -/
  output : List Token
  /-- The operators that wait, the latest first. -/
  stack : List Token
  deriving Repr

namespace Waiting

/-- Nothing is put out and nothing waits. -/
def start : Waiting :=
  ⟨[], []⟩

/-- The operators on top of the stack that satisfy `p` are put out. -/
def releaseWhile (w : Waiting) (p : Token → Bool) : Waiting :=
  ⟨(w.stack.takeWhile p).reverse ++ w.output, w.stack.dropWhile p⟩

/-- The function in front of a closed parenthesis takes it as its operand. -/
def releaseApply (w : Waiting) : Waiting :=
  match w.stack with
  | t :: ts => if t.isApply then ⟨t :: w.output, ts⟩ else w
  | [] => w

/-- A closing parenthesis releases all that waits since its partner. -/
def close (w : Waiting) (position : Nat) : Except ParseError Waiting :=
  let released := w.releaseWhile (!·.isOperator .openParen)
  match released.stack with
  | _ :: ts => .ok (releaseApply ⟨released.output, ts⟩)
  | [] => .error (.mismatchedClose position)

/-- One token more. Values are put out at once, and what comes before its operand waits. -/
def place (w : Waiting) (t : Token) : Except ParseError Waiting :=
  match t.kind with
  | .number | .name => .ok { w with output := t :: w.output }
  | .operator (.apply _) | .operator .openParen | .operator .neg =>
    .ok { w with stack := t :: w.stack }
  | .operator .closeParen => w.close t.start
  | .operator op =>
    let released := w.releaseWhile (·.yieldsTo op)
    .ok { released with stack := t :: released.stack }
  | .blank | .unknown | .endOfText => .ok w

/-- The end of the formula: all that waits is put out, unless a parenthesis is still open. -/
def finish (w : Waiting) : Except ParseError (List Token) :=
  match w.stack.find? (·.isOperator .openParen) with
  | some t => .error (.mismatchedOpen t.start)
  | none => .ok (w.output.reverse ++ w.stack)

end Waiting

/-- The conversion of the tokens to come, after the errors found before. -/
def postOrderFrom (errors : List ParseError) (w : Waiting) :
    List Token → Except (List ParseError) (List Token)
  | [] =>
    match w.finish with
    | .error e => .error (errors ++ [e])
    | .ok out => if errors.isEmpty then .ok out else .error errors
  | t :: ts =>
    if t.kind == .unknown then postOrderFrom (errors ++ [.badInput t.start]) w ts
    else
      match w.place t with
      | .error e => .error (errors ++ [e])
      | .ok w => postOrderFrom errors w ts

/-- The tokens of a formula, each operator after its operands. -/
def postOrder (ts : List Token) : Except (List ParseError) (List Token) :=
  postOrderFrom [] .start ts

end Formulary

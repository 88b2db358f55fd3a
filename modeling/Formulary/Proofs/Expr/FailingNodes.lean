import Formulary.Expr.Eval
import Formulary.Proofs.Expr.RuleClosed

/-!
# The nodes that errors come from

Variables, quotients and function calls can fail, and an error is the report of one such node of the
tree, with the place the node carries. Simplification hands these places on: it makes one quotient
of its own, the reciprocal of a power, and that one has no place.

* `RaisedIn vars mode a e`: the node of `a` that reports the error `e`.
* `raisedIn_of_eval`: the error of an evaluation is reported by a node of the tree.
* `NodeProperty`, `NodesHold P`: what the nodes that can fail are to satisfy with their places.
* `NodesHold.reports`: what the nodes satisfy, the error satisfies.
* **`nodesHold_simplify`**: simplification keeps it if a quotient without a place has the property.
-/

namespace Formulary

universe u

/-- A property of variables, one of quotients and one of calls, with their places. -/
structure NodeProperty where
  named : String → Position → Prop
  quotient : Position → Prop
  call : Builtin → Position → Prop

/-- What an error is reported as has the property. -/
def NodeProperty.Reports (P : NodeProperty) : EvalError → Prop
  | .undefinedVariable n p => P.named n p
  | .divisionByZero p => P.quotient p
  | .logOfNegative f p => P.call f p
  | .unknownFunction _ _ => False

namespace Expr

variable {K : Type u}

/-! ### Where an error comes from -/

/-- There is a node in the tree that fails in this way at this place. -/
def RaisedIn (vars : Vars K) (mode : EvalMode) (a : Expr K) : EvalError → Prop
  | .undefinedVariable n p => vars.get? n = none ∧ named n p ∈ a.subtrees
  | .divisionByZero p => ∃ b c, binary .div b c p ∈ a.subtrees
  | .logOfNegative f p =>
    mode = .real ∧ f.isLogarithm = true ∧ ∃ b, call f b p ∈ a.subtrees
  | .unknownFunction _ _ => False

theorem RaisedIn.of_mem {vars : Vars K} {mode : EvalMode} {s a : Expr K} {e : EvalError}
    (hs : s ∈ a.subtrees) (h : s.RaisedIn vars mode e) : a.RaisedIn vars mode e := by
  cases e with
  | undefinedVariable n p => exact ⟨h.1, subtrees_subset hs h.2⟩
  | divisionByZero p =>
    obtain ⟨b, c, hmem⟩ := h
    exact ⟨b, c, subtrees_subset hs hmem⟩
  | logOfNegative f p =>
    obtain ⟨hmode, hlog, b, hmem⟩ := h
    exact ⟨hmode, hlog, b, subtrees_subset hs hmem⟩
  | unknownFunction n p => exact h

/-- The error of an evaluation is reported by a node of the tree. -/
theorem raisedIn_of_eval [Arith K] {x : K} {vars : Vars K} {mode : EvalMode} {a : Expr K}
    {e : EvalError} (he : a.eval x vars mode = .error e) : a.RaisedIn vars mode e := by
  induction a with
  | number v => cases he
  | argument => cases he
  | named n p =>
    change evalNamed vars n p = .error e at he
    unfold evalNamed at he
    split at he
    · cases he
    · next hnone =>
      cases he
      exact ⟨hnone, mem_subtrees_self _⟩
  | neg a ih =>
    simp only [eval] at he
    split at he
    · cases he
    · next e' ha =>
      cases he
      exact (ih ha).of_mem (mem_subtrees_neg a)
  | binary op a b p iha ihb =>
    simp only [eval] at he
    split at he
    · next e' ha =>
      cases he
      exact (iha ha).of_mem (mem_subtrees_left op a b p)
    · split at he
      · next e' hb =>
        cases he
        exact (ihb hb).of_mem (mem_subtrees_right op a b p)
      · unfold evalBinary at he
        split at he
        · next hdiv =>
          cases he
          obtain ⟨rfl, -⟩ := hdiv
          exact ⟨a, b, mem_subtrees_self _⟩
        · cases he
  | call f a p ih =>
    simp only [eval] at he
    split at he
    · unfold evalCall at he
      split at he
      · next hlog =>
        cases he
        exact ⟨hlog.1, hlog.2.1, a, mem_subtrees_self _⟩
      · cases he
    · next e' ha =>
      cases he
      exact (ih ha).of_mem (mem_subtrees_call f a p)

/-! ### What the nodes satisfy -/

/-- All variables, quotients and calls of the tree have the property. -/
def NodesHold (P : NodeProperty) : Expr K → Prop
  | number _ | argument => True
  | named n p => P.named n p
  | neg a => a.NodesHold P
  | binary op a b p => (op = .div → P.quotient p) ∧ a.NodesHold P ∧ b.NodesHold P
  | call f a p => P.call f p ∧ a.NodesHold P

variable {P : NodeProperty}

theorem NodesHold.of_mem {s a : Expr K} (ha : a.NodesHold P) (hs : s ∈ a.subtrees) :
    s.NodesHold P :=
  of_mem_subtrees (fun h => h) (fun h => h.2) (fun h => h.2) ha hs

/-- The node that an error comes from has the property, and so has the error. -/
theorem NodesHold.reports {vars : Vars K} {mode : EvalMode} {a : Expr K} {e : EvalError}
    (ha : a.NodesHold P) (he : a.RaisedIn vars mode e) : P.Reports e := by
  cases e with
  | undefinedVariable n p => exact ha.of_mem he.2
  | divisionByZero p =>
    obtain ⟨b, c, hmem⟩ := he
    exact (ha.of_mem hmem).1 rfl
  | logOfNegative f p =>
    obtain ⟨-, -, b, hmem⟩ := he
    exact (ha.of_mem hmem).1
  | unknownFunction n p => exact he

/-! ### Simplification -/

/-- A quotient that a power becomes has no place, all other nodes keep theirs. -/
theorem ruleClosed_nodesHold [Arith K] (hnone : P.quotient none) :
    RuleClosed (NodesHold (K := K) P) where
  whole _ := trivial
  opposite _ := trivial
  computed _ := trivial
  neg_iff := Iff.rfl
  binary h ha hb := ⟨fun hdiv => absurd hdiv (ne_of_mem_ringOperators h).1, ha, hb⟩
  operands h := h.2
  rejoined h hc hd := ⟨h.1, hc, hd⟩
  reciprocal _ hc hd := ⟨fun _ => hnone, hc, hd⟩
  operand h := h.2
  recalled h hb := ⟨h.1, hb⟩

/-- Simplification hands on the places of the nodes that can fail. -/
theorem nodesHold_simplify [Arith K] (hnone : P.quotient none) {a : Expr K}
    (ha : a.NodesHold P) : a.simplify.NodesHold P :=
  (ruleClosed_nodesHold hnone).simplify ha

end Expr

end Formulary

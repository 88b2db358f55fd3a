import Formulary.Proofs.Expr.RuleValues

/-!
# What holds of all values of a tree

A tree takes its values from its numbers, its argument and its table, and keeps whatever it computes
in one form. What holds of the first three and of every number in that form holds of all values.

* `Supplied P x vars a`: the numbers of the tree, the argument and the table have the property `P`.
* **`Supplied.eval`**: so have the values of the tree, and by `Supplied.of_mem` those of all trees in
  it.
-/

namespace Formulary.Expr

universe u

variable {K : Type u}

/-- The numbers of the tree, the argument and the values of the table have the property. -/
structure Supplied (P : K → Prop) (x : K) (vars : Vars K) (a : Expr K) : Prop where
  number : ∀ v, .number v ∈ a.subtrees → P v
  argument : P x
  bound : ∀ n v, vars.get? n = some v → P v

variable {P : K → Prop} {x : K} {vars : Vars K} {a s : Expr K}

/-- What supplies a tree supplies the trees in it. -/
theorem Supplied.of_mem (h : Supplied P x vars a) (hs : s ∈ a.subtrees) : Supplied P x vars s where
  number v hv := h.number v (subtrees_subset hs hv)
  argument := h.argument
  bound := h.bound

/-- The value of a tree has the property if every number that is kept has it. -/
theorem Supplied.eval [Arith K] (hkept : ∀ v : K, P (Arith.normalize v)) (h : Supplied P x vars a)
    {mode : EvalMode} {v : K} (hv : a.eval x vars mode = .ok v) : P v := by
  cases a with
  | number w =>
    cases hv
    exact h.number v (mem_subtrees_self _)
  | argument =>
    cases hv
    exact h.argument
  | named n p =>
    change evalNamed vars n p = .ok v at hv
    unfold evalNamed at hv
    split at hv
    · next w hw =>
      cases hv
      exact h.bound n v hw
    · cases hv
  | neg b =>
    obtain ⟨u, -, rfl⟩ := eval_neg_eq_ok hv
    exact hkept (-u)
  | binary op b c p =>
    obtain ⟨u, w, -, -, hop⟩ := eval_binary_eq_ok hv
    obtain ⟨-, rfl⟩ := evalBinary_eq_ok hop
    exact hkept (op.apply u w)
  | call f b p =>
    obtain ⟨u, -, hcall⟩ := eval_call_eq_ok hv
    obtain rfl := evalCall_eq_ok hcall
    exact hkept (Arith.apply f u)

end Formulary.Expr

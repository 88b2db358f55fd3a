import Formulary.Binary64.Arith
import Formulary.Proofs.Expr.ExactValues
import Formulary.Proofs.Expr.RuleClosed

/-!
# Errors of simplified trees

A simplified tree can fail where the tree itself has a value: `x ^ (-2)` is not defined at zero, but
it has a value there and becomes the quotient `1 / x ^ 2`; and numbers that rounding keeps apart may
cancel. What can go wrong is limited, and where nothing is rounded nothing goes wrong.

* `IsNumerical`: the errors that depend on the values of operands, with what must be in the tree for
  them.
* `isNumerical_of_leavesHold`: a tree whose variables are bound has no other errors.
* **`simplify_errors`**: a tree with a value gets only such errors, and none at all where the laws
  behind the rules hold of the values in the tree.
-/

namespace Formulary.Expr

universe u

variable {K : Type u}

/-- The error is a division by zero, and there is a quotient or a power in the tree `r`; or it is in
real mode the logarithm of a negative number by one of the logarithms called in `r`. -/
def IsNumerical (r : Expr K) (mode : EvalMode) : EvalError → Prop
  | .divisionByZero _ => ∃ op b c p, op ∈ [BinaryOp.div, .pow] ∧ binary op b c p ∈ r.subtrees
  | .logOfNegative f _ => mode = .real ∧ f.isLogarithm = true ∧ ∃ b p, call f b p ∈ r.subtrees
  | .undefinedVariable _ _ | .unknownFunction _ _ => False

/-- The variables have values, and the functions are among those called in the tree `r`. -/
def boundIn (vars : Vars K) (r : Expr K) : LeafProperty K where
  number _ := True
  name n := (vars.get? n).isSome = true
  function f := ∃ b p, call f b p ∈ r.subtrees

variable [Arith K] {x v : K} {vars : Vars K} {mode : EvalMode} {a r : Expr K}

/-- All variables of a tree that has a value are bound. -/
theorem leavesHold_of_eval (hr : a ∈ r.subtrees) (hv : a.eval x vars mode = .ok v) :
    a.LeavesHold (boundIn vars r) := by
  induction a generalizing v with
  | number u => trivial
  | argument => trivial
  | named n p =>
    change evalNamed vars n p = .ok v at hv
    unfold evalNamed at hv
    split at hv
    · next u hu => exact Option.isSome_iff_exists.2 ⟨u, hu⟩
    · cases hv
  | neg a ih =>
    obtain ⟨u, hu, -⟩ := eval_neg_eq_ok hv
    exact ih (subtrees_subset hr (mem_subtrees_neg a)) hu
  | binary op a b p iha ihb =>
    obtain ⟨u, w, hu, hw, -⟩ := eval_binary_eq_ok hv
    exact ⟨iha (subtrees_subset hr (mem_subtrees_left op a b p)) hu,
      ihb (subtrees_subset hr (mem_subtrees_right op a b p)) hw⟩
  | call f a p ih =>
    obtain ⟨u, hu, -⟩ := eval_call_eq_ok hv
    exact ⟨⟨a, p, hr⟩, ih (subtrees_subset hr (mem_subtrees_call f a p)) hu⟩

/-- A tree whose variables are bound only fails numerically. If it divides, so does `r`. -/
theorem isNumerical_of_leavesHold (h : a.LeavesHold (boundIn vars r))
    (hring : r.IsRingTree → a.IsRingTree) {e : EvalError} (he : a.eval x vars mode = .error e) :
    IsNumerical r mode e := by
  induction a with
  | number u => cases he
  | argument => cases he
  | named n p =>
    obtain ⟨u, hu⟩ := Option.isSome_iff_exists.1 h
    change evalNamed vars n p = .error e at he
    rw [evalNamed, hu] at he
    cases he
  | neg a ih =>
    simp only [eval] at he
    split at he
    · cases he
    · next e' ha =>
      cases he
      exact ih h (fun hr => (hring hr).of_mem (mem_subtrees_neg a)) ha
  | binary op a b p iha ihb =>
    simp only [eval] at he
    split at he
    · next e' ha =>
      cases he
      exact iha h.1 (fun hr => (hring hr).of_mem (mem_subtrees_left op a b p)) ha
    · split at he
      · next e' hb =>
        cases he
        exact ihb h.2 (fun hr => (hring hr).of_mem (mem_subtrees_right op a b p)) hb
      · unfold evalBinary at he
        split at he
        · next hdiv =>
          cases he
          refine exists_of_not_isRingTree fun hr => ?_
          have hop := hring hr op a b p (mem_subtrees_self _)
          rw [hdiv.1] at hop
          exact absurd hop (by decide)
        · cases he
  | call f a p ih =>
    simp only [eval] at he
    split at he
    · unfold evalCall at he
      split at he
      · next hlog =>
        cases he
        exact ⟨hlog.1, hlog.2.1, h.1⟩
      · cases he
    · next e' ha =>
      cases he
      exact ih h.2 (fun hr => (hring hr).of_mem (mem_subtrees_call f a p)) ha

theorem boundIn_simplifies : (boundIn vars r).Simplifies where
  whole _ _ := trivial
  opposite _ _ := trivial
  computed _ _ := trivial

/-- The simplified form of a tree that has a value can only fail numerically. If the values in the
tree obey the laws behind the rules, and no power of zero has an exponent that only turns out to be
zero, it does not fail. -/
theorem simplify_errors (hv : a.eval x vars mode = .ok v) :
    (∀ e, a.simplify.eval x vars mode = .error e → IsNumerical a mode e) ∧
      ∀ (P : K → Prop) (euler : K), FieldLawsOn P → PowerLawsOn P euler →
        (∀ e, vars.get? eulerName = some e → e = euler) →
        (∀ s ∈ a.subtrees, ∃ w, s.eval x vars mode = .ok w ∧ P w) → SafePowers x vars mode a →
        ∃ w, a.simplify.eval x vars mode = .ok w := by
  refine ⟨fun e he => ?_, fun P euler laws powers he hall hsafe => ?_⟩
  · have hbound := leavesHold_of_eval (mem_subtrees_self a) hv
    exact isNumerical_of_leavesHold (leavesHold_simplify boundIn_simplifies hbound)
      isRingTree_simplify he
  · exact ⟨v, (gives_simplify_of_safePowers laws powers he hsafe hall hv).eval⟩

/-- `x ^ (-2)` at two, in exact arithmetic. -/
theorem simplify_errors_two :
    let a : Expr (Complex Exact) := toPower argument (neg (nat 2))
    let x : Complex Exact := Arith.ofNat 2
    (∃ v, a.eval x .constants .real = .ok v) ∧
      (∀ s ∈ a.subtrees, ∃ w, s.eval x .constants .real = .ok w ∧ IsFinite w) ∧
      SafePowers x .constants .real a ∧ ∃ w, a.simplify.eval x .constants .real = .ok w := by
  intro a x
  have hargument : (argument : Expr (Complex Exact)).eval x .constants .real =
      .ok (point (2 : ℕ)) :=
    congrArg Except.ok (point_ofNat 2)
  have hneg : (neg (nat 2) : Expr (Complex Exact)).eval x .constants .real =
      .ok (point (-(2 : ℕ))) := by
    rw [eval_neg (eval_nat_point 2), point_neg, normalize_exact]
  have hpower := eval_toPower_point hargument hneg (.inl (Nat.cast_ne_zero.2 two_ne_zero))
  have hall : ∀ s ∈ a.subtrees, ∃ w, s.eval x .constants .real = .ok w ∧ IsFinite w := by
    intro s hs
    simp only [a, subtrees, toPower, nat, List.cons_append, List.nil_append, List.mem_cons,
      List.not_mem_nil, or_false] at hs
    rcases hs with rfl | rfl | rfl | rfl
    · exact ⟨_, hpower, isFinite_point _⟩
    · exact ⟨_, hargument, isFinite_point _⟩
    · exact ⟨_, hneg, isFinite_point _⟩
    · exact ⟨_, eval_nat_point 2, isFinite_point _⟩
  have hsafe : SafePowers x .constants .real a := by
    intro b c p hmem w hw hbase _
    simp only [a, subtrees, toPower, nat, List.cons_append, List.nil_append, List.mem_cons,
      List.not_mem_nil, or_false, reduceCtorEq, binary.injEq] at hmem
    obtain ⟨-, rfl, -, -⟩ := hmem
    exact absurd hbase Bool.false_ne_true
  exact ⟨⟨_, hpower⟩, hall, hsafe, (simplify_errors hpower).2 IsFinite _ exact_fieldLaws
    exact_powerLaws (fun _ => eq_euler_of_get?) hall hsafe⟩

/-! ### Machine numbers -/

/-- The error of an evaluation. -/
def error? : Except EvalError K → Option EvalError
  | .error e => some e
  | .ok _ => none

omit [Arith K] in
theorem eq_error_of_error? {r : Except EvalError K} {e : EvalError} (h : error? r = some e) :
    r = .error e := by
  cases r with
  | error e' => exact congrArg Except.error (Option.some.inj h)
  | ok v => cases h

omit [Arith K] in
theorem exists_ok_of_any {r : Except EvalError K} {p : K → Bool} (h : r.toOption.any p = true) :
    ∃ v, r = .ok v ∧ p v = true := by
  cases r with
  | error e => cases h
  | ok v => exact ⟨v, rfl, h⟩

/-- Simplified, `x ^ (-2)` divides by zero at zero, where the power itself is an undefined number.
And at five `1 / (x ^ (-2) - 1 / x ^ 2)` is finite, because the two powers are rounded differently,
but simplified they cancel. -/
theorem simplify_divides_by_zero :
    let a : Expr (Complex Double) := toPower argument (neg (nat 2))
    let b : Expr (Complex Double) :=
      dividedBy (nat 1) (minus a (dividedBy (nat 1) (toPower argument (nat 2))))
    (∃ v, a.eval (Arith.ofNat 0) .constants .complex = .ok v ∧ (!Arith.isFinite v) = true) ∧
      a.simplify.eval (Arith.ofNat 0) .constants .complex = .error (.divisionByZero none) ∧
      (∃ v, b.eval (Arith.ofNat 5) .constants .complex = .ok v ∧ Arith.isFinite v = true) ∧
      b.simplify.eval (Arith.ofNat 5) .constants .complex = .error (.divisionByZero none) := by
  intro a b
  refine ⟨exists_ok_of_any ?_, eq_error_of_error? ?_, exists_ok_of_any ?_,
    eq_error_of_error? ?_⟩
  · decide +kernel
  · decide +kernel
  · decide +kernel
  · decide +kernel

end Formulary.Expr

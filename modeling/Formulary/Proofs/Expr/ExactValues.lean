import Formulary.Proofs.Expr.Preservation

/-!
# Simplification in exact arithmetic

Where nothing is rounded and all values are finite, simplification keeps the value of a tree, powers
included. One rule has an exception. A power of zero is simplified to zero whatever its exponent is,
unless that is a number; but zero to the power zero is one.

* `SafePowers x vars mode a`: the exception does not occur in the tree.
* `gives_simplify_of_safePowers`: the laws of powers are all that is needed.
* **`eval_simplify_exact`**: the value is kept in exact arithmetic.
-/

namespace Formulary.Expr

universe u

section Laws

variable {K : Type u} [Arith K] {P : K → Prop} {euler x v : K} {vars : Vars K} {mode : EvalMode}
  {a : Expr K}

/-- No power in the tree has a base that is simplified to zero and an exponent that has the value
zero without being simplified to a number. -/
def SafePowers (x : K) (vars : Vars K) (mode : EvalMode) (a : Expr K) : Prop :=
  ∀ b c p, binary .pow b c p ∈ a.subtrees → ∀ w, c.eval x vars mode = .ok w →
    SafeExponent b.simplify c.simplify w

/-- Simplification keeps values in an arithmetic with the laws of powers, where `e` means Euler's
number if it means anything. -/
theorem gives_simplify_of_safePowers (laws : FieldLawsOn P) (powers : PowerLawsOn P euler)
    (he : ∀ e, vars.get? eulerName = some e → e = euler) (hsafe : SafePowers x vars mode a)
    (hall : AllGive P x vars mode a) (hv : a.eval x vars mode = .ok v) :
    Gives P x vars mode a.simplify v := by
  have hpowers : KeepsPowers P x vars mode a := fun b c p hmem u w hw hb hc hr =>
    gives_power laws.toOperatorLawsOn powers
      (fun hname _ => he u (get?_of_isEuler hname hb.eval)) hb hc (hsafe b c p hmem w hw) hr
  refine gives_simplify laws (fun e hget f hf => ?_) hpowers hall hv
  rw [he e hget, powers.log_euler hf]

end Laws

open RealArith

/-- Without rounding the simplified tree has the value of the tree, if all values in the tree are
finite and no power of zero has an exponent that only turns out to be zero. -/
theorem eval_simplify_exact {a : Expr (Complex Exact)} {x : Complex Exact}
    {vars : Vars (Complex Exact)} {mode : EvalMode}
    (he : ∀ e, vars.get? eulerName = some e → e = .ofReal RealArith.euler)
    (hall : ∀ s ∈ a.subtrees, ∃ v, s.eval x vars mode = .ok v ∧ Arith.isFinite v = true)
    (hsafe : SafePowers x vars mode a) :
    ∃ v, a.eval x vars mode = .ok v ∧ a.simplify.eval x vars mode = .ok v := by
  obtain ⟨v, hv, -⟩ := hall a (mem_subtrees_self a)
  have hgives := gives_simplify_of_safePowers exact_fieldLaws exact_powerLaws he hsafe hall hv
  exact ⟨v, hv, hgives.eval⟩

section Values

/-- Among the constants `e` is Euler's number. -/
theorem eq_euler_of_get? {e : Complex Exact} (h : Vars.constants.get? eulerName = some e) :
    e = .ofReal RealArith.euler := by
  cases h
  rfl

variable {x : Complex Exact} {vars : Vars (Complex Exact)} {mode : EvalMode}
  {b c : Expr (Complex Exact)} {z w : ℂ}

theorem eval_nat_point (n : ℕ) : (nat n : Expr (Complex Exact)).eval x vars mode = .ok (point n) :=
  congrArg Except.ok (point_ofNat n)

theorem eval_plus_point (hb : b.eval x vars mode = .ok (point z))
    (hc : c.eval x vars mode = .ok (point w)) :
    (plus b c).eval x vars mode = .ok (point (z + w)) := by
  have hallowed : Allowed .add (point w) := allowed_of_ne (by decide)
  rw [plus, eval_binary_of_allowed hallowed hb hc, BinaryOp.apply, point_add, normalize_exact]

theorem eval_toPower_point (hb : b.eval x vars mode = .ok (point z))
    (hc : c.eval x vars mode = .ok (point w)) (h : z ≠ 0 ∨ w = 0 ∨ 0 < w.re) :
    (toPower b c).eval x vars mode = .ok (point (z ^ w)) := by
  have hallowed : Allowed .pow (point w) := allowed_of_ne (by decide)
  rw [toPower, eval_binary_of_allowed hallowed hb hc, BinaryOp.apply, pow_point h, normalize_exact]

theorem eval_log_point (hb : b.eval x vars .complex = .ok (point z)) (h : z ≠ 0) :
    (applied .log b).eval x vars .complex = .ok (point z.log) := by
  have hlog : Arith.apply .log (point z) = point z.log := ln_point h
  rw [applied, eval_call hb, evalCall_complex, hlog, normalize_exact]

end Values

/-- `0 ^ x + e ^ log x` at two. -/
theorem eval_simplify_exact_two :
    let a : Expr (Complex Exact) := plus (toPower (nat 0) argument)
      (toPower (named eulerName none) (applied .log argument))
    let x : Complex Exact := Arith.ofNat 2
    (∀ e, Vars.constants.get? eulerName = some e → e = Complex.ofReal (RealArith.euler : Exact)) ∧
      (∀ s ∈ a.subtrees, ∃ v, s.eval x .constants .complex = .ok v ∧ Arith.isFinite v = true) ∧
      SafePowers x .constants .complex a ∧ a.simplify.eval x .constants .complex = .ok x := by
  intro a x
  have hx : x = point 2 := point_ofNat 2
  have hargument : (argument : Expr (Complex Exact)).eval x .constants .complex = .ok (point 2) :=
    congrArg Except.ok hx
  have hname : (named eulerName none : Expr (Complex Exact)).eval x .constants .complex =
      .ok (point (Real.exp 1 : ℝ)) :=
    congrArg Except.ok euler_eq_point
  have hzero := eval_toPower_point (eval_nat_point 0) hargument (.inr (.inr (by norm_num)))
  have hlog := eval_log_point hargument two_ne_zero
  have hexp := eval_toPower_point hname hlog (.inl exp_one_ne_zero)
  have hsum := eval_plus_point hzero hexp
  have hall : ∀ s ∈ a.subtrees, ∃ v, s.eval x .constants .complex = .ok v ∧
      Arith.isFinite v = true := by
    have hpoint {s : Expr (Complex Exact)} {z : ℂ}
        (hs : s.eval x .constants .complex = .ok (point z)) :
        ∃ v, s.eval x .constants .complex = .ok v ∧ Arith.isFinite v = true :=
      ⟨point z, hs, isFinite_point z⟩
    intro s hs
    simp only [a, subtrees, plus, toPower, applied, nat, List.cons_append, List.nil_append,
      List.mem_cons, List.not_mem_nil, or_false] at hs
    rcases hs with rfl | rfl | rfl | rfl | rfl | rfl | rfl | rfl
    · exact hpoint hsum
    · exact hpoint hzero
    · exact hpoint (eval_nat_point 0)
    · exact hpoint hargument
    · exact hpoint hexp
    · exact hpoint hname
    · exact hpoint hlog
    · exact hpoint hargument
  have hsafe : SafePowers x .constants .complex a := by
    intro b c p hmem w hw hbase _
    simp only [a, subtrees, plus, toPower, applied, nat, List.cons_append, List.nil_append,
      List.mem_cons, List.not_mem_nil, or_false, reduceCtorEq, false_and, false_or,
      binary.injEq] at hmem
    rcases hmem with ⟨-, rfl, rfl, -⟩ | ⟨-, rfl, -, -⟩
    · rw [hargument] at hw
      cases hw
      exact isZero_eq_false two_ne_zero
    · exact absurd hbase Bool.false_ne_true
  have hvalue : point (((0 : ℕ) : ℂ) ^ (2 : ℂ) + ((Real.exp 1 : ℝ) : ℂ) ^ Complex.log 2) = x := by
    rw [Nat.cast_zero, Complex.zero_cpow two_ne_zero, zero_add,
      Complex.cpow_def_of_ne_zero exp_one_ne_zero, log_exp_one, one_mul, Complex.exp_log two_ne_zero, hx]
  obtain ⟨v, hv, hsimplify⟩ := eval_simplify_exact (fun _ => eq_euler_of_get?) hall hsafe
  rw [hsum, hvalue] at hv
  cases hv
  exact ⟨fun _ => eq_euler_of_get?, hall, hsafe, hsimplify⟩

/-- Zero to the power zero is one, but if the exponent is the argument the power is simplified to
zero before anyone knows its value. -/
theorem eval_simplify_zero_power_exact :
    let a : Expr (Complex Exact) := toPower (nat 0) argument
    let x : Complex Exact := Arith.ofNat 0
    (∀ s ∈ a.subtrees, ∃ v, s.eval x .constants .complex = .ok v ∧ Arith.isFinite v = true) ∧
      a.eval x .constants .complex = .ok (Arith.ofNat 1) ∧
      a.simplify.eval x .constants .complex = .ok (Arith.ofNat 0) ∧
      (Arith.ofNat 1 : Complex Exact) ≠ Arith.ofNat 0 := by
  intro a x
  have hargument : (argument : Expr (Complex Exact)).eval x .constants .complex =
      .ok (point (0 : ℕ)) :=
    congrArg Except.ok (point_ofNat 0)
  have hpower := eval_toPower_point (eval_nat_point 0) hargument (.inr (.inl Nat.cast_zero))
  have hsimplify : a.simplify = nat 0 := by
    have hzero : isZeroPower (nat 0 : Expr (Complex Exact)) argument = true :=
      Bool.and_eq_true_iff.2 ⟨exact_operatorLaws.zero_beq, rfl⟩
    exact if_pos hzero
  refine ⟨?_, ?_, ?_, ?_⟩
  · intro s hs
    simp only [a, subtrees, toPower, nat, List.cons_append, List.nil_append, List.mem_cons,
      List.not_mem_nil, or_false] at hs
    rcases hs with rfl | rfl | rfl
    · exact ⟨_, hpower, isFinite_point _⟩
    · exact ⟨_, eval_nat_point 0, isFinite_point _⟩
    · exact ⟨_, hargument, isFinite_point _⟩
  · rw [hpower, Nat.cast_zero, Complex.cpow_zero, point_ofNat, Nat.cast_one]
  · rw [hsimplify]
    rfl
  · rw [point_ofNat, point_ofNat]
    exact fun h => Nat.cast_injective.ne one_ne_zero (point_injective h)

end Formulary.Expr

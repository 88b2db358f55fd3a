import Formulary.Proofs.Arithmetic.ExactTotal
import Formulary.Proofs.Expr.PowerValues
import Formulary.Proofs.Expr.Subtrees

/-!
# Simplified trees keep their value

* `KeepsPowers P x vars mode a`, `KeepsCalls P x vars mode a`: what is asked of the powers and of the
  functions in a tree.
* `KeepsLogs vars a`: what is asked of the logarithms in a tree.
* `gives_simplify_of_parts`: a tree keeps its value, if the laws of the operators hold of all values
  in it, and its powers and functions keep theirs.
* `gives_simplify_of_logs`, `gives_simplify`: the same with the laws of functions.
* **`eval_simplify_of_no_powers`**: a tree without powers keeps its value in every arithmetic that
  has the laws.
-/

namespace Formulary.Expr

universe u

variable {K : Type u} [Arith K]

/-- A tree has a value only if all trees in it have one. -/
theorem exists_eval_of_mem_subtrees {x v : K} {vars : Vars K} {mode : EvalMode} {a s : Expr K}
    (h : a.eval x vars mode = .ok v) (hs : s ∈ a.subtrees) : ∃ w, s.eval x vars mode = .ok w := by
  refine of_mem_subtrees (Q := fun t => ∃ w, t.eval x vars mode = .ok w) ?_ ?_ ?_ ⟨v, h⟩ hs
  · rintro a ⟨w, hw⟩
    obtain ⟨u, hu, -⟩ := eval_neg_eq_ok hw
    exact ⟨u, hu⟩
  · rintro op a b p ⟨w, hw⟩
    obtain ⟨u, u', hu, hu', -⟩ := eval_binary_eq_ok hw
    exact ⟨⟨u, hu⟩, u', hu'⟩
  · rintro f a p ⟨w, hw⟩
    obtain ⟨u, hu, -⟩ := eval_call_eq_ok hw
    exact ⟨u, hu⟩

section Preservation

variable {P : K → Prop} {x v : K} {vars : Vars K} {mode : EvalMode} {a s : Expr K}

variable (P x vars mode) in
/-- The rules for powers keep the value of each power in the tree. -/
def KeepsPowers (a : Expr K) : Prop :=
  ∀ b c p, binary .pow b c p ∈ a.subtrees → ∀ v w, c.eval x vars mode = .ok w →
    Gives P x vars mode b.simplify v → Gives P x vars mode c.simplify w →
    P (Arith.normalize (Arith.pow v w)) →
    Gives P x vars mode (power b.simplify c.simplify p) (Arith.normalize (Arith.pow v w))

variable (P x vars mode) in
/-- The rules for functions keep the value of each function in the tree. -/
def KeepsCalls (a : Expr K) : Prop :=
  ∀ f b p, call f b p ∈ a.subtrees → ∀ v r, Gives P x vars mode b.simplify v →
    evalCall f v p mode = .ok r → P r → Gives P x vars mode (application f b.simplify p) r

variable (vars) in
/-- The logarithms in the tree that are taken for one are one: whatever `e` means, its logarithm is
one where it is simplified. -/
def KeepsLogs (a : Expr K) : Prop :=
  ∀ f b p, call f b p ∈ a.subtrees → f.isNaturalLog = true → b.simplify.isEuler = true →
    ∀ e, vars.get? eulerName = some e → Arith.normalize (Arith.apply f e) = Arith.ofNat 1

theorem KeepsPowers.of_mem (h : KeepsPowers P x vars mode a) (hs : s ∈ a.subtrees) :
    KeepsPowers P x vars mode s :=
  fun b c p hmem => h b c p (subtrees_subset hs hmem)

theorem KeepsCalls.of_mem (h : KeepsCalls P x vars mode a) (hs : s ∈ a.subtrees) :
    KeepsCalls P x vars mode s :=
  fun f b p hmem => h f b p (subtrees_subset hs hmem)

/-- The laws of functions keep the value of each function, if they do so at the logarithms. -/
theorem KeepsLogs.keepsCalls (laws : FieldLawsOn P) (h : KeepsLogs vars a) :
    KeepsCalls P x vars mode a :=
  fun f b p hmem v _ hb hcall hr => gives_application laws hb
    (fun hname hf => h f b p hmem hf hname v (get?_of_isEuler hname hb.eval)) hcall hr

/-- Simplification keeps the value of a tree that has a value with the property at each of its
nodes, if the rules for powers and for functions do so at its powers and functions. -/
theorem gives_simplify_of_parts (laws : OperatorLawsOn P) (hcalls : KeepsCalls P x vars mode a)
    (hpowers : KeepsPowers P x vars mode a) (hall : AllGive P x vars mode a)
    (hv : a.eval x vars mode = .ok v) : Gives P x vars mode a.simplify v := by
  have hself := hall.gives hv
  induction a generalizing v with
  | neg a ih =>
    obtain ⟨u, hu, rfl⟩ := eval_neg_eq_ok hv
    have hall' := hall.of_mem (mem_subtrees_neg a)
    have hu' := ih (hcalls.of_mem (mem_subtrees_neg a)) (hpowers.of_mem (mem_subtrees_neg a)) hall'
      hu (hall'.gives hu)
    exact gives_negated laws hu'
  | binary op a b p iha ihb =>
    obtain ⟨u, w, hu, hw, hop⟩ := eval_binary_eq_ok hv
    obtain ⟨hallowed, rfl⟩ := evalBinary_eq_ok hop
    have hall₁ := hall.of_mem (mem_subtrees_left op a b p)
    have hall₂ := hall.of_mem (mem_subtrees_right op a b p)
    have hu' := iha (hcalls.of_mem (mem_subtrees_left op a b p))
      (hpowers.of_mem (mem_subtrees_left op a b p)) hall₁ hu (hall₁.gives hu)
    have hw' := ihb (hcalls.of_mem (mem_subtrees_right op a b p))
      (hpowers.of_mem (mem_subtrees_right op a b p)) hall₂ hw (hall₂.gives hw)
    by_cases hpow : op = .pow
    · subst hpow
      exact hpowers a b p (mem_subtrees_self _) u w hw hu' hw' hself.holds
    · exact gives_operation laws hpow hu' hw' hallowed hself.holds
  | call f a p ih =>
    obtain ⟨u, hu, hcall⟩ := eval_call_eq_ok hv
    have hall' := hall.of_mem (mem_subtrees_call f a p)
    have hu' := ih (hcalls.of_mem (mem_subtrees_call f a p))
      (hpowers.of_mem (mem_subtrees_call f a p)) hall' hu (hall'.gives hu)
    exact hcalls f a p (mem_subtrees_self _) u v hu' hcall hself.holds
  | _ => exact hself

/-- Simplification keeps the value of a tree that has a value with the property at each of its
nodes, if the rules for powers do so at its powers and the rule for logarithms at its logarithms. -/
theorem gives_simplify_of_logs (laws : FieldLawsOn P) (hlogs : KeepsLogs vars a)
    (hpowers : KeepsPowers P x vars mode a) (hall : AllGive P x vars mode a)
    (hv : a.eval x vars mode = .ok v) : Gives P x vars mode a.simplify v :=
  gives_simplify_of_parts laws.toOperatorLawsOn (hlogs.keepsCalls laws) hpowers hall hv

/-- Simplification keeps the value of a tree that has a value with the property at each of its
nodes, if the rules for powers do so at its powers and the logarithm of Euler's number is one. -/
theorem gives_simplify (laws : FieldLawsOn P)
    (he : ∀ e, vars.get? eulerName = some e → ∀ f : Builtin, f.isNaturalLog = true →
      Arith.normalize (Arith.apply f e) = Arith.ofNat 1)
    (hpowers : KeepsPowers P x vars mode a) (hall : AllGive P x vars mode a)
    (hv : a.eval x vars mode = .ok v) : Gives P x vars mode a.simplify v :=
  gives_simplify_of_logs laws (fun f _ _ _ hf _ e hget => he e hget f hf) hpowers hall hv

end Preservation

/-- A tree without powers keeps its value when it is simplified. No law of associativity or
distributivity is needed, and the logarithm is asked about Euler's number only. -/
theorem eval_simplify_of_no_powers (laws : FieldLaws K) {a : Expr K}
    (ha : ∀ b c p, binary .pow b c p ∉ a.subtrees) {vars : Vars K}
    (he : ∀ e, vars.get? eulerName = some e → ∀ f : Builtin, f.isNaturalLog = true →
      Arith.apply f e = Arith.ofNat 1)
    (x : K) (mode : EvalMode) {v : K} (hv : a.eval x vars mode = .ok v) :
    a.simplify.eval x vars mode = .ok v := by
  have hall : AllGive (fun _ => True) x vars mode a := by
    intro s hs
    obtain ⟨w, hw⟩ := exists_eval_of_mem_subtrees hv hs
    exact ⟨w, hw, trivial⟩
  have he' : ∀ e, vars.get? eulerName = some e → ∀ f : Builtin, f.isNaturalLog = true →
      Arith.normalize (Arith.apply f e) = Arith.ofNat 1 := fun e hget f hf =>
    (laws.normalize_eq _).trans (he e hget f hf)
  exact (gives_simplify laws.on he' (fun b c p h => absurd h (ha b c p)) hall hv).eval

/-- `cos 0 * x + (-log e) / (-1)` with its constants put in for the complex numbers: the value at
two is three, before and after. -/
theorem eval_simplify_of_no_powers_complex :
    let a : Expr ℂ := plus (times (applied .cos (nat 0)) argument)
      (dividedBy (neg (applied .log (named eulerName none))) minusOne)
    let vars : Vars ℂ := ⟨[(eulerName, (Real.exp 1 : ℝ))]⟩
    (∀ b c p, binary .pow b c p ∉ a.subtrees) ∧
      (∀ e, vars.get? eulerName = some e → ∀ f : Builtin, f.isNaturalLog = true →
        Arith.apply f e = Arith.ofNat 1) ∧
      a.eval 2 vars .complex = .ok 3 ∧ a.simplify.eval 2 vars .complex = .ok 3 := by
  intro a vars
  have hpowers : ∀ b c p, binary .pow b c p ∉ a.subtrees := by
    simp [a, subtrees, plus, times, dividedBy, applied, nat, minusOne]
  have hget : ∀ e, vars.get? eulerName = some e → ∀ f : Builtin, f.isNaturalLog = true →
      Arith.apply f e = Arith.ofNat 1 := by
    intro e he
    cases he
    exact fun f => complex_log_euler
  have hcos : (applied .cos (nat 0) : Expr ℂ).eval 2 vars .complex = .ok (Arith.ofNat 1) :=
    (evalCall_of_not_isLogarithm rfl).trans (congrArg Except.ok complex_fieldLaws.cos_zero)
  have hlog : (applied .log (named eulerName none) : Expr ℂ).eval 2 vars .complex =
      .ok (Arith.ofNat 1) :=
    (eval_call (show (named eulerName none : Expr ℂ).eval 2 vars .complex = _ from rfl)).trans
      ((evalCall_complex .log _ _).trans (congrArg Except.ok (complex_log_euler rfl)))
  have hproduct : (times (applied .cos (nat 0)) argument : Expr ℂ).eval 2 vars .complex =
      .ok (Arith.ofNat 1 * 2) :=
    eval_binary_of_allowed (allowed_of_ne (by decide)) hcos rfl
  have hdivisor : Arith.isZero (-Arith.ofNat 1 : ℂ) = false :=
    isZero_neg complex_fieldLaws.on.toOperatorLawsOn trivial
      (decide_eq_false (Nat.cast_injective.ne one_ne_zero))
  have hquotient : (dividedBy (neg (applied .log (named eulerName none))) minusOne : Expr ℂ).eval 2
      vars .complex = .ok (-Arith.ofNat 1 / -Arith.ofNat 1) :=
    eval_binary_of_allowed (fun _ => hdivisor) (eval_neg hlog) rfl
  have hvalue : a.eval 2 vars .complex = .ok 3 := by
    refine (eval_binary_of_allowed (allowed_of_ne (by decide)) hproduct hquotient).trans
      (congrArg Except.ok ?_)
    show ((1 : ℕ) : ℂ) * 2 + -((1 : ℕ) : ℂ) / -((1 : ℕ) : ℂ) = 3
    norm_num
  exact ⟨hpowers, hget, hvalue,
    eval_simplify_of_no_powers complex_fieldLaws hpowers hget 2 .complex hvalue⟩

end Formulary.Expr

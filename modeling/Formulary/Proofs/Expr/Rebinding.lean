import Formulary.Proofs.Expr.ExactValues

/-!
# Tables in which `e` is another number

The simplifier has no table. It knows Euler's number by its name, which a table may bind to any
other number. Two rules are right for Euler's number only: the logarithm of `e` is one, and a power
of `e` undoes a logarithm. All other rules are right whatever `e` is.

* `Expr.TakesEuler a`: one of the two rules applies in the tree.
* `gives_simplify_of_binding`: the laws that are needed.
* **`eval_simplify_of_binding`**: without rounding, a tree whose powers are powers of `e` keeps its
  value in every table, unless one of the two rules applies and `e` is not Euler's number.
* `eval_simplify_rebound`: both rules are wrong where `e` is one.
-/

namespace Formulary.Expr

universe u

section Laws

variable {K : Type u} [Arith K] {P : K → Prop} {euler x v : K} {vars : Vars K} {mode : EvalMode}
  {a : Expr K}

/-- The tree is simplified by a rule that takes the name `e` for Euler's number: it has a natural
logarithm whose operand is simplified to `e`, or a power of `e` whose exponent is simplified to a
natural logarithm. -/
def TakesEuler (a : Expr K) : Prop :=
  (∃ f b p, call f b p ∈ a.subtrees ∧ f.isNaturalLog = true ∧ b.simplify.isEuler = true) ∨
    ∃ b c p, binary .pow b c p ∈ a.subtrees ∧ b.simplify.isEuler = true ∧
      c.simplify.isNaturalLog = true

/-- A power of `e` is no power of zero. -/
theorem safeExponent_of_isEuler {b c : Expr K} {w : K} (hb : b.isEuler = true) :
    SafeExponent b.simplify c w := by
  intro hzero
  cases b with
  | named name p => exact absurd hzero Bool.false_ne_true
  | _ => exact absurd hb Bool.false_ne_true

/-- Simplification keeps the values of powers of `e`, whatever `e` is, where it does not take it for
Euler's number. -/
theorem gives_simplify_of_binding (laws : FieldLawsOn P) (powers : PowerLawsOn P euler)
    (hbase : ∀ b c p, binary .pow b c p ∈ a.subtrees → b.isEuler = true)
    (he : a.TakesEuler → ∀ e, vars.get? eulerName = some e → e = euler)
    (hall : AllGive P x vars mode a) (hv : a.eval x vars mode = .ok v) :
    Gives P x vars mode a.simplify v := by
  have hlogs : KeepsLogs vars a := by
    intro f b p hmem hf hname e hget
    rw [he (.inl ⟨f, b, p, hmem, hf, hname⟩) e hget, powers.log_euler hf]
  have hpowers : KeepsPowers P x vars mode a := by
    intro b c p hmem u w hw hb hc hr
    refine gives_power laws.toOperatorLawsOn powers (fun hname hlog => ?_) hb hc
      (safeExponent_of_isEuler (hbase b c p hmem)) hr
    exact he (.inr ⟨b, c, p, hmem, hname, hlog⟩) u (get?_of_isEuler hname hb.eval)
  exact gives_simplify_of_logs laws hlogs hpowers hall hv

end Laws

open RealArith

/-- **Simplification in every table.** Without rounding the simplified tree has the value of the
tree, if all powers in the tree are powers of `e`, all values in it are finite, and `e` is Euler's
number in case one of the two rules applies that take it for that. -/
theorem eval_simplify_of_binding {a : Expr (Complex Exact)} {x : Complex Exact}
    {vars : Vars (Complex Exact)} {mode : EvalMode}
    (hbase : ∀ b c p, binary .pow b c p ∈ a.subtrees → b.isEuler = true)
    (he : a.TakesEuler → ∀ e, vars.get? eulerName = some e → e = .ofReal RealArith.euler)
    (hall : ∀ s ∈ a.subtrees, ∃ v, s.eval x vars mode = .ok v ∧ Arith.isFinite v = true) :
    ∃ v, a.eval x vars mode = .ok v ∧ a.simplify.eval x vars mode = .ok v := by
  obtain ⟨v, hv, -⟩ := hall a (mem_subtrees_self a)
  exact ⟨v, hv, (gives_simplify_of_binding exact_fieldLaws exact_powerLaws hbase he hall hv).eval⟩

/-- `e ^ x + 0` at two is nine where `e` is three, before and after. -/
theorem eval_simplify_of_binding_three :
    let a : Expr (Complex Exact) := plus (toPower (named eulerName none) argument) (nat 0)
    let x : Complex Exact := Arith.ofNat 2
    let vars : Vars (Complex Exact) := ⟨[(eulerName, Arith.ofNat 3)]⟩
    (∀ b c p, binary .pow b c p ∈ a.subtrees → b.isEuler = true) ∧
      (a.TakesEuler → ∀ e, vars.get? eulerName = some e → e = .ofReal RealArith.euler) ∧
      (∀ s ∈ a.subtrees, ∃ v, s.eval x vars .complex = .ok v ∧ Arith.isFinite v = true) ∧
      a.simplify.eval x vars .complex = .ok (Arith.ofNat 9) := by
  intro a x vars
  have hargument : (argument : Expr (Complex Exact)).eval x vars .complex = .ok (point (2 : ℕ)) :=
    congrArg Except.ok (point_ofNat 2)
  have hname : (named eulerName none : Expr (Complex Exact)).eval x vars .complex =
      .ok (point (3 : ℕ)) :=
    congrArg Except.ok (point_ofNat 3)
  have hpower := eval_toPower_point hname hargument (.inl (Nat.cast_ne_zero.2 three_ne_zero))
  have hsum := eval_plus_point hpower (eval_nat_point 0)
  have hbase : ∀ b c p, binary .pow b c p ∈ a.subtrees → b.isEuler = true := by
    intro b c p hmem
    simp only [a, subtrees, plus, toPower, nat, List.cons_append, List.nil_append, List.mem_cons,
      List.not_mem_nil, or_false, reduceCtorEq, false_and, false_or, binary.injEq] at hmem
    obtain ⟨-, rfl, -⟩ := hmem
    rfl
  have htakes : ¬a.TakesEuler := by
    rintro (⟨f, b, p, hmem, -⟩ | ⟨b, c, p, hmem, -, hlog⟩)
    · simp [a, subtrees, plus, toPower, nat] at hmem
    · simp only [a, subtrees, plus, toPower, nat, List.cons_append, List.nil_append, List.mem_cons,
        List.not_mem_nil, or_false, reduceCtorEq, false_and, false_or, binary.injEq] at hmem
      obtain ⟨-, -, rfl, -⟩ := hmem
      exact Bool.false_ne_true hlog
  have hall : ∀ s ∈ a.subtrees, ∃ v, s.eval x vars .complex = .ok v ∧ Arith.isFinite v = true := by
    intro s hs
    simp only [a, subtrees, plus, toPower, nat, List.cons_append, List.nil_append, List.mem_cons,
      List.not_mem_nil, or_false] at hs
    rcases hs with rfl | rfl | rfl | rfl | rfl
    · exact ⟨_, hsum, isFinite_point _⟩
    · exact ⟨_, hpower, isFinite_point _⟩
    · exact ⟨_, hname, isFinite_point _⟩
    · exact ⟨_, hargument, isFinite_point _⟩
    · exact ⟨_, eval_nat_point 0, isFinite_point _⟩
  have hvalue : point (((3 : ℕ) : ℂ) ^ ((2 : ℕ) : ℂ) + ((0 : ℕ) : ℂ)) = Arith.ofNat 9 := by
    rw [point_ofNat, Complex.cpow_natCast]
    norm_num
  have he : a.TakesEuler → ∀ e, vars.get? eulerName = some e → e = .ofReal RealArith.euler :=
    fun h => absurd h htakes
  obtain ⟨v, hv, hsimplify⟩ := eval_simplify_of_binding hbase he hall
  rw [hsum, hvalue] at hv
  cases hv
  exact ⟨hbase, he, hall, hsimplify⟩

/-- Where `e` is one its logarithm is zero and its powers are one, but the logarithm is simplified
to one, and a power whose exponent is the logarithm of the argument to the argument. -/
theorem eval_simplify_rebound :
    let a : Expr (Complex Exact) := applied .log (named eulerName none)
    let b : Expr (Complex Exact) := toPower (named eulerName none) (applied .log argument)
    let x : Complex Exact := Arith.ofNat 5
    let vars : Vars (Complex Exact) := ⟨[(eulerName, Arith.ofNat 1)]⟩
    (∀ s ∈ a.subtrees ++ b.subtrees,
      ∃ v, s.eval x vars .complex = .ok v ∧ Arith.isFinite v = true) ∧
      (a.eval x vars .complex = .ok (Arith.ofNat 0) ∧
        a.simplify.eval x vars .complex = .ok (Arith.ofNat 1)) ∧
      (b.eval x vars .complex = .ok (Arith.ofNat 1) ∧
        b.simplify.eval x vars .complex = .ok (Arith.ofNat 5)) ∧
      (Arith.ofNat 0 : Complex Exact) ≠ Arith.ofNat 1 ∧
      (Arith.ofNat 1 : Complex Exact) ≠ Arith.ofNat 5 := by
  intro a b x vars
  have hargument : (argument : Expr (Complex Exact)).eval x vars .complex = .ok (point (5 : ℕ)) :=
    congrArg Except.ok (point_ofNat 5)
  have hname : (named eulerName none : Expr (Complex Exact)).eval x vars .complex =
      .ok (point (1 : ℕ)) :=
    congrArg Except.ok (point_ofNat 1)
  have hone : ((1 : ℕ) : ℂ) ≠ 0 := Nat.cast_ne_zero.2 one_ne_zero
  have hlog := eval_log_point hname hone
  have hexponent := eval_log_point hargument (Nat.cast_ne_zero.2 (by decide))
  have hpower := eval_toPower_point hname hexponent (.inl hone)
  refine ⟨?_, ⟨?_, rfl⟩, ⟨?_, rfl⟩, ?_, ?_⟩
  · intro s hs
    simp only [a, b, subtrees, applied, toPower, List.cons_append, List.nil_append, List.mem_cons,
      List.not_mem_nil, or_false] at hs
    rcases hs with rfl | rfl | rfl | rfl | rfl | rfl
    · exact ⟨_, hlog, isFinite_point _⟩
    · exact ⟨_, hname, isFinite_point _⟩
    · exact ⟨_, hpower, isFinite_point _⟩
    · exact ⟨_, hname, isFinite_point _⟩
    · exact ⟨_, hexponent, isFinite_point _⟩
    · exact ⟨_, hargument, isFinite_point _⟩
  · rw [hlog, Nat.cast_one, Complex.log_one, point_ofNat, Nat.cast_zero]
  · rw [hpower, Nat.cast_one, Complex.one_cpow, point_ofNat, Nat.cast_one]
  · rw [point_ofNat, point_ofNat]
    exact fun h => Nat.cast_injective.ne zero_ne_one (point_injective h)
  · rw [point_ofNat, point_ofNat]
    exact fun h => Nat.cast_injective.ne (by decide) (point_injective h)

end Formulary.Expr

import Formulary.Proofs.Arithmetic.WholeLaws
import Formulary.Proofs.Expr.ExactValues

/-!
# Constant trees

A tree without argument, variables and logarithms is simplified to one number, the value of the
tree, if all values in it are finite. Folding and evaluating compute alike, and a rule that answers
before numbers are folded needs to know three values.

* `Expr.IsConstant`: the trees in question. A logarithm of a negative number is not folded.
* `ZeroValues K`: the sine, the tangent and the cosine of zero, which the simplifier knows.
* `FiniteKept K`: the form in which values are kept makes no number finite. Folding asks whether a
  result is finite before it takes that form.
* `operation_number`, `application_number`: operators and functions of numbers are folded.
* **`simplify_eq_number`**: the whole tree.
-/

namespace Formulary

universe u

/-- The sine and the tangent of zero are zero and its cosine is one, in the form in which values are
kept, whatever signs the parts of the zero have. -/
structure ZeroValues (K : Type u) [Arith K] : Prop where
  sin_zero {z : K} (h : (z == Arith.ofNat 0) = true) :
    Arith.normalize (Arith.apply .sin z) = Arith.ofNat 0
  tan_zero {z : K} (h : (z == Arith.ofNat 0) = true) :
    Arith.normalize (Arith.apply .tan z) = Arith.ofNat 0
  cos_zero {z : K} (h : (z == Arith.ofNat 0) = true) :
    Arith.normalize (Arith.apply .cos z) = Arith.ofNat 1

variable {K : Type u} [Arith K]

/-- A number is finite if it is finite in the form in which values are kept. -/
class FiniteKept (K : Type u) [Arith K] : Prop where
  isFinite_of_normalize {v : K} (h : Arith.isFinite (Arith.normalize v) = true) :
    Arith.isFinite v = true

/-- Adding zero to the parts makes none of them finite. -/
instance {R : Type u} [RealArith R] [SignLaws R] : FiniteKept (Complex R) where
  isFinite_of_normalize h := by
    obtain ⟨hre, him⟩ := Bool.and_eq_true_iff.1 h
    exact Bool.and_eq_true_iff.2
      ⟨(SignLaws.isFinite_add_zero _).symm.trans hre,
        (SignLaws.isFinite_add_zero _).symm.trans him⟩

example : FiniteKept (Complex Double) := inferInstance

/-- The laws of the simplifier say what the functions are at zero, if there is one zero. -/
theorem zeroValues_of_laws {P : K → Prop} (laws : FieldLawsOn P)
    (hzero : ∀ z : K, (z == Arith.ofNat 0) = true → z = Arith.ofNat 0) : ZeroValues K where
  sin_zero h := by rw [hzero _ h, laws.sin_zero]
  tan_zero h := by rw [hzero _ h, laws.tan_zero]
  cos_zero h := by rw [hzero _ h, laws.cos_zero]

namespace Expr

/-- The tree has no argument, no variable and no logarithm. -/
def IsConstant : Expr K → Prop
  | number _ => True
  | argument | named _ _ => False
  | neg a => a.IsConstant
  | binary _ a b _ => a.IsConstant ∧ b.IsConstant
  | call f a _ => f.isLogarithm = false ∧ a.IsConstant

/-! ### Operators and functions of numbers -/

theorem foldNumbers?_number {op : BinaryOp} {v w : K} (ha : Allowed op w)
    (hf : Arith.isFinite (op.apply v w) = true) :
    foldNumbers? op (number v) (number w) = some (literal (op.apply v w)) := by
  have hallowed : ¬(op = .div ∧ Arith.isZero w = true) := fun h =>
    absurd h.2 (Bool.eq_false_iff.1 (ha h.1))
  simp only [foldNumbers?, if_neg hallowed, if_pos hf]

/-- Every operator folds two numbers before any other rule applies. -/
theorem operation_number {op : BinaryOp} {v w : K} (ha : Allowed op w)
    (hf : Arith.isFinite (op.apply v w) = true) (p : Position) :
    operation op (number v) (number w) p = literal (op.apply v w) := by
  have hfold := foldNumbers?_number ha hf
  cases op with
  | add => rw [operation, sum, hfold, Option.getD_some]
  | sub => rw [operation, difference, hfold, Option.getD_some]
  | mul => rw [operation, product, hfold, Option.getD_some]
  | div => rw [operation, quotient, hfold, Option.getD_some]
  | pow => rw [operation, power, hfold, Option.getD_some]

/-- A known value of a function other than a logarithm at a number is the value as it is kept. -/
theorem eq_of_knownValue? (zero : ZeroValues K) {f : Builtin} (hlog : f.isLogarithm = false) {v : K}
    {r : Expr K} (h : knownValue? f (number v) = some r) : r = literal (Arith.apply f v) := by
  cases f with
  | sin =>
    obtain ⟨hv, ⟨⟩⟩ := Option.ite_none_right_eq_some.1 h
    exact congrArg number (zero.sin_zero hv).symm
  | tan =>
    obtain ⟨hv, ⟨⟩⟩ := Option.ite_none_right_eq_some.1 h
    exact congrArg number (zero.tan_zero hv).symm
  | cos =>
    obtain ⟨hv, ⟨⟩⟩ := Option.ite_none_right_eq_some.1 h
    exact congrArg number (zero.cos_zero hv).symm
  | log | ln | log10 | log2 => cases hlog
  | _ => cases h

/-- Every function but a logarithm folds a number, be it by a value that is known. -/
theorem application_number (zero : ZeroValues K) {f : Builtin} (hlog : f.isLogarithm = false)
    {v : K} (hf : Arith.isFinite (Arith.apply f v) = true) (p : Position) :
    application f (number v) p = literal (Arith.apply f v) := by
  have hfold : foldCall? f (number v) = some (literal (Arith.apply f v)) := by
    rw [foldCall?, hlog, Bool.false_and, if_neg Bool.false_ne_true, if_pos hf]
  unfold application
  cases hknown : knownValue? f (number v) with
  | none => rw [hfold]; rfl
  | some r => exact eq_of_knownValue? zero hlog hknown

/-! ### Whole trees -/

section Trees

variable [FiniteKept K] {a : Expr K} {x : K} {vars : Vars K}

/-- A constant tree whose trees all have finite values is simplified to its value. -/
theorem simplify_eq_of_eval (zero : ZeroValues K) (ha : a.IsConstant) {v : K}
    (hall : AllGive (fun v => Arith.isFinite v = true) x vars .complex a)
    (hv : a.eval x vars .complex = .ok v) : a.simplify = number v := by
  have hself := hall.gives hv
  induction a generalizing v with
  | number w =>
    cases hv
    rfl
  | argument | named => exact ha.elim
  | neg a ih =>
    obtain ⟨u, hu, rfl⟩ := eval_neg_eq_ok hv
    have hall' := hall.of_mem (mem_subtrees_neg a)
    rw [simplify, ih ha hall' hu (hall'.gives hu)]
    rfl
  | binary op a b p iha ihb =>
    obtain ⟨u, w, hu, hw, hop⟩ := eval_binary_eq_ok hv
    obtain ⟨hallowed, rfl⟩ := evalBinary_eq_ok hop
    have hall₁ := hall.of_mem (mem_subtrees_left op a b p)
    have hall₂ := hall.of_mem (mem_subtrees_right op a b p)
    rw [simplify, iha ha.1 hall₁ hu (hall₁.gives hu), ihb ha.2 hall₂ hw (hall₂.gives hw)]
    exact operation_number hallowed (FiniteKept.isFinite_of_normalize hself.holds) p
  | call f a p ih =>
    obtain ⟨u, hu, hcall⟩ := eval_call_eq_ok hv
    obtain rfl := evalCall_eq_ok hcall
    have hall' := hall.of_mem (mem_subtrees_call f a p)
    rw [simplify, ih ha.2 hall' hu (hall'.gives hu)]
    exact application_number zero ha.1 (FiniteKept.isFinite_of_normalize hself.holds) p

/-- **Folding computes what evaluating computes.** A tree without argument, variables and logarithms
whose trees all have finite values is simplified to a number, and the number is the value of the
tree, part for part. -/
theorem simplify_eq_number (zero : ZeroValues K) (ha : a.IsConstant)
    (hall : ∀ s ∈ a.subtrees, ∃ v, s.eval x vars .complex = .ok v ∧ Arith.isFinite v = true) :
    ∃ v, a.eval x vars .complex = .ok v ∧ a.simplify = number v := by
  obtain ⟨v, hv, -⟩ := hall a (mem_subtrees_self a)
  exact ⟨v, hv, simplify_eq_of_eval zero ha hall hv⟩

end Trees

/-- `2 ^ 2 + cos 0` is simplified to five. -/
theorem simplify_eq_number_five :
    let a : Expr (Complex Exact) := plus (toPower (nat 2) (nat 2)) (applied .cos (nat 0))
    let x : Complex Exact := Arith.ofNat 0
    ZeroValues (Complex Exact) ∧ a.IsConstant ∧
      (∀ s ∈ a.subtrees, ∃ v, s.eval x .constants .complex = .ok v ∧ Arith.isFinite v = true) ∧
      a.simplify = nat 5 := by
  intro a x
  have hconstant : a.IsConstant := ⟨⟨trivial, trivial⟩, rfl, trivial⟩
  have htwo : (nat 2 : Expr (Complex Exact)).eval x .constants .complex = .ok (point (2 : ℕ)) :=
    eval_nat_point 2
  have hpower := eval_toPower_point htwo htwo (.inl (Nat.cast_ne_zero.2 two_ne_zero))
  have hcos : (applied .cos (nat 0) : Expr (Complex Exact)).eval x .constants .complex =
      .ok (point (1 : ℕ)) := by
    rw [applied, eval_call rfl, evalCall_complex, exact_fieldLaws.cos_zero, point_ofNat]
  have hsum := eval_plus_point hpower hcos
  have hall : ∀ s ∈ a.subtrees, ∃ v, s.eval x .constants .complex = .ok v ∧
      Arith.isFinite v = true := by
    intro s hs
    simp only [a, subtrees, plus, toPower, applied, nat, List.cons_append, List.nil_append,
      List.mem_cons, List.not_mem_nil, or_false] at hs
    rcases hs with rfl | rfl | rfl | rfl | rfl | rfl
    · exact ⟨_, hsum, isFinite_point _⟩
    · exact ⟨_, hpower, isFinite_point _⟩
    · exact ⟨_, htwo, isFinite_point _⟩
    · exact ⟨_, htwo, isFinite_point _⟩
    · exact ⟨_, hcos, isFinite_point _⟩
    · exact ⟨_, eval_nat_point 0, isFinite_point _⟩
  have hvalue : point (((2 : ℕ) : ℂ) ^ ((2 : ℕ) : ℂ) + ((1 : ℕ) : ℂ)) = Arith.ofNat 5 := by
    rw [point_ofNat, Complex.cpow_natCast]
    norm_num
  have zero := zeroValues_of_laws exact_fieldLaws fun _ => eq_of_beq_exact
  obtain ⟨v, hv, hsimplify⟩ := simplify_eq_number zero hconstant hall
  rw [hsum, hvalue] at hv
  cases hv
  exact ⟨zero, hconstant, hall, hsimplify⟩

end Expr

end Formulary

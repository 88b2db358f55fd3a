import Formulary.Formula.Basic
import Formulary.Proofs.Arithmetic.ZeroLaws
import Formulary.Proofs.Expr.EvalErrors
import Formulary.Proofs.Expr.MissingRules
import Formulary.Proofs.Program.RealMode

/-!
# The real domain of raw derivatives

The rule for powers brings in the logarithm of the base, also where the exponent is constant and the
logarithm stands beside a factor zero. Values are computed left to right and the first error counts,
so in real mode a raw derivative is undefined where the base of a power is negative. Everywhere else
real mode has nothing to complain of that the tree itself did not complain of.

* `ConstantExponents a`: the argument occurs in no exponent of the tree.
* `HasNegativeBase x vars a`: a power in the tree has a base with a negative value.
* `mem_of_mem_differentiate`: the logarithms of a derivative are those of the tree, those that the
  rule for powers brings in, and the logarithm of ten.
* `log_mem_differentiate`: every power of the tree brings in the logarithm of its base.
* **`rawDerivative_real_mode`**: where a formula has a real value, its raw derivative gives in real
  mode what it gives in complex mode if no power has a negative base, and fails if one has.
* `rawDerivative_complains`: the raw derivative of `x ^ 2` fails at minus one.
-/

namespace Formulary

universe u

namespace Expr

variable {K : Type u}

/-- The argument does not occur in the exponents of the powers in the tree. -/
def ConstantExponents (a : Expr K) : Prop :=
  ∀ b c p, binary .pow b c p ∈ a.subtrees → c.containsArgument = false

variable [Arith K]

/-- A power in the tree has a base with a negative value in real mode. -/
def HasNegativeBase (x : K) (vars : Vars K) (a : Expr K) : Prop :=
  ∃ b c p v, binary .pow b c p ∈ a.subtrees ∧ b.eval x vars .real = .ok v ∧
    Arith.isNegative v = true

variable {x v : K} {vars : Vars K} {a b r a' b' : Expr K} {f : Builtin} {p : Position}

/-! ### Logarithms of derivatives -/

/-- A logarithm in the derivative of an operator is in an operand or in its derivative, or it is that
of the base of a power. -/
theorem mem_of_mem_diffBinary {op : BinaryOp} {c : Expr K}
    (h : call f b p ∈ (diffBinary op a c a' b').subtrees) :
    (call f b p ∈ a.subtrees ∨ call f b p ∈ c.subtrees) ∨
      (call f b p ∈ a'.subtrees ∨ call f b p ∈ b'.subtrees) ∨
      op = .pow ∧ f = .log ∧ b = a ∧ p = none := by
  cases op <;>
    simp only [diffBinary, plus, minus, times, dividedBy, toPower, applied, nat, subtrees,
      List.mem_cons, List.mem_append, List.not_mem_nil, reduceCtorEq, call.injEq, or_false,
      false_or] at h ⊢ <;>
    tauto

/-- A logarithm in the derivative of a function is in its operand, or it is the logarithm of ten. -/
theorem mem_of_mem_outerDerivative {g : Builtin} (h : outerDerivative? g a = some r)
    (hf : f.isLogarithm = true) (hmem : call f b p ∈ r.subtrees) :
    call f b p ∈ a.subtrees ∨ f = .log ∧ b = nat 10 ∧ p = none := by
  cases g <;> cases h <;>
    simp only [plus, minus, times, dividedBy, toPower, applied, exponential, nat, subtrees,
      List.mem_cons, List.mem_append, List.not_mem_nil, reduceCtorEq, call.injEq, or_false,
      false_or] at hmem ⊢ <;>
    first
    | tauto
    | (obtain ⟨rfl, -⟩ | hmem := hmem
       · cases hf
       · tauto)

/-! ### Derivatives of trees -/

theorem differentiate_neg_eq_ok (h : (neg a).differentiate = .ok r) :
    ∃ a', a.differentiate = .ok a' ∧ r = neg a' := by
  simp only [differentiate] at h
  split at h
  · next a' ha =>
    cases h
    exact ⟨a', ha, rfl⟩
  · cases h

theorem differentiate_binary_eq_ok {op : BinaryOp} (h : (binary op a b p).differentiate = .ok r) :
    ∃ a' b', a.differentiate = .ok a' ∧ b.differentiate = .ok b' ∧ r = diffBinary op a b a' b' := by
  simp only [differentiate] at h
  split at h
  · cases h
  · next a' ha =>
    split at h
    · cases h
    · next b' hb =>
      cases h
      exact ⟨a', b', ha, hb, rfl⟩

theorem differentiate_call_eq_ok (h : (call f a p).differentiate = .ok r) :
    ∃ outer a', outerDerivative? f a = some outer ∧ a.differentiate = .ok a' ∧
      r = times outer a' := by
  simp only [differentiate] at h
  split at h
  · cases h
  · next outer houter =>
    split at h
    · next a' ha =>
      cases h
      exact ⟨outer, a', houter, ha, rfl⟩
    · cases h

/-- The logarithm is in the tree, or it is one that differentiating the tree brings in. -/
def BringsIn (a : Expr K) (f : Builtin) (b : Expr K) (p : Position) : Prop :=
  call f b p ∈ a.subtrees ∨
    f = .log ∧ p = none ∧ (b = nat 10 ∨ ∃ c q, binary .pow b c q ∈ a.subtrees)

theorem BringsIn.of_mem {s : Expr K} (h : BringsIn s f b p) (hs : s ∈ a.subtrees) :
    BringsIn a f b p := by
  have hsubset := subtrees_subset hs
  obtain hmem | ⟨hf, hp, hten | ⟨c, q, hmem⟩⟩ := h
  · exact .inl (hsubset hmem)
  · exact .inr ⟨hf, hp, .inl hten⟩
  · exact .inr ⟨hf, hp, .inr ⟨c, q, hsubset hmem⟩⟩

/-- The logarithms of a derivative are those of the tree, those of the bases of its powers and the
logarithm of ten. -/
theorem mem_of_mem_differentiate (h : a.differentiate = .ok r) (hf : f.isLogarithm = true)
    (hmem : call f b p ∈ r.subtrees) : BringsIn a f b p := by
  induction a generalizing r with
  | number v =>
    cases h
    cases List.mem_singleton.1 hmem
  | argument =>
    cases h
    cases List.mem_singleton.1 hmem
  | named n q =>
    cases h
    cases List.mem_singleton.1 hmem
  | neg a ih =>
    obtain ⟨a', ha, rfl⟩ := differentiate_neg_eq_ok h
    obtain hself | hmem := List.mem_cons.1 hmem
    · cases hself
    · exact (ih ha hmem).of_mem (mem_subtrees_neg a)
  | binary op a c q iha ihc =>
    obtain ⟨a', c', ha, hc, rfl⟩ := differentiate_binary_eq_ok h
    have hleft := mem_subtrees_left op a c q
    have hright := mem_subtrees_right op a c q
    obtain (hmem | hmem) | (hmem | hmem) | ⟨rfl, rfl, rfl, rfl⟩ := mem_of_mem_diffBinary hmem
    · exact .inl (subtrees_subset hleft hmem)
    · exact .inl (subtrees_subset hright hmem)
    · exact (iha ha hmem).of_mem hleft
    · exact (ihc hc hmem).of_mem hright
    · exact .inr ⟨rfl, rfl, .inr ⟨c, q, mem_subtrees_self _⟩⟩
  | call g a q ih =>
    obtain ⟨outer, a', houter, ha, rfl⟩ := differentiate_call_eq_ok h
    have hoperand := mem_subtrees_call g a q
    obtain hself | hmem := List.mem_cons.1 hmem
    · cases hself
    obtain hmem | hmem := List.mem_append.1 hmem
    · obtain hmem | ⟨rfl, rfl, rfl⟩ := mem_of_mem_outerDerivative houter hf hmem
      · exact .inl (subtrees_subset hoperand hmem)
      · exact .inr ⟨rfl, rfl, .inl rfl⟩
    · exact (ih ha hmem).of_mem hoperand

/-- The derivative of a tree has the logarithm of the base of each power in the tree. -/
theorem log_mem_differentiate {c : Expr K} {q : Position} (h : a.differentiate = .ok r)
    (hmem : binary .pow b c q ∈ a.subtrees) : call .log b none ∈ r.subtrees := by
  induction a generalizing r with
  | number v => cases List.mem_singleton.1 hmem
  | argument => cases List.mem_singleton.1 hmem
  | named n q => cases List.mem_singleton.1 hmem
  | neg a ih =>
    obtain ⟨a', ha, rfl⟩ := differentiate_neg_eq_ok h
    obtain hself | hmem := List.mem_cons.1 hmem
    · cases hself
    · exact List.mem_cons_of_mem _ (ih ha hmem)
  | binary op a d q iha ihd =>
    obtain ⟨a', d', ha, hd, rfl⟩ := differentiate_binary_eq_ok h
    -- the derivatives of both operands are in the derivative, whatever the operator is
    have hsub : a' ∈ (diffBinary op a d a' d').subtrees ∧
        d' ∈ (diffBinary op a d a' d').subtrees := by
      cases op <;> simp [diffBinary, plus, minus, times, dividedBy, subtrees, mem_subtrees_self]
    obtain hself | hmem := List.mem_cons.1 hmem
    · cases hself
      simp [diffBinary, plus, times, applied, subtrees]
    · obtain hmem | hmem := List.mem_append.1 hmem
      · exact subtrees_subset hsub.1 (iha ha hmem)
      · exact subtrees_subset hsub.2 (ihd hd hmem)
  | call g a q ih =>
    obtain ⟨outer, a', -, ha, rfl⟩ := differentiate_call_eq_ok h
    obtain hself | hmem := List.mem_cons.1 hmem
    · cases hself
    · exact List.mem_cons_of_mem _ (List.mem_append_right _ (ih ha hmem))

/-! ### Values of derivatives in real mode -/

/-- The operand of a logarithm that has a value in real mode is not negative. -/
theorem not_isNegative_of_eval_call {w : K} (h : (call f b p).eval x vars .real = .ok v)
    (hf : f.isLogarithm = true) (hb : b.eval x vars .real = .ok w) : Arith.isNegative w = false := by
  obtain ⟨u, hu, hcall⟩ := eval_call_eq_ok h
  cases hb.symm.trans hu
  rw [Bool.eq_false_iff]
  intro hneg
  unfold evalCall at hcall
  rw [if_pos ⟨rfl, hf, hneg⟩] at hcall
  cases hcall

/-- What has a value in real mode has the same in complex mode. -/
theorem eval_complex_of_real (h : a.eval x vars .real = .ok v) : a.eval x vars .complex = .ok v := by
  obtain heq | ⟨f, p, herror⟩ := eval_real_eq_or a x vars
  · exact heq.symm.trans h
  · rw [herror] at h
    cases h

/-- A derivative of a tree with a real value complains of no logarithm but that of the negative base
of a power. -/
theorem hasNegativeBase_of_eval (hten : Arith.isNegative (Arith.ofNat 10 : K) = false)
    (hv : a.eval x vars .real = .ok v) (hr : a.differentiate = .ok r)
    (h : r.eval x vars .real = .error (.logOfNegative f p)) :
    f = .log ∧ p = none ∧ a.HasNegativeBase x vars := by
  obtain ⟨b, hfirst, hneg⟩ := eval_real_eq_logOfNegative_iff.1 h
  have hmem : call f b p ∈ r.subtrees :=
    (visits_perm r).mem_iff.1 (List.mem_of_find?_eq_some hfirst)
  obtain ⟨hlog, w, hw, hnegative⟩ := isNegativeLog_call_iff.1 hneg
  -- every tree in `a` has a value in real mode, which is its value in complex mode
  have hreal {s : Expr K} {u : K} (hs : s ∈ a.subtrees) (hu : s.eval x vars .complex = .ok u) :
      s.eval x vars .real = .ok u := by
    obtain ⟨u', hu'⟩ := exists_eval_of_mem_subtrees hv hs
    cases hu.symm.trans (eval_complex_of_real hu')
    exact hu'
  obtain hself | ⟨rfl, rfl, rfl | ⟨c, q, hpow⟩⟩ := mem_of_mem_differentiate hr hlog hmem
  · obtain ⟨u, hu⟩ := exists_eval_of_mem_subtrees hv hself
    have hb := hreal (subtrees_subset hself (mem_subtrees_call f b p)) hw
    rw [not_isNegative_of_eval_call hu hlog hb] at hnegative
    cases hnegative
  · cases hw
    rw [hten] at hnegative
    cases hnegative
  · have hb := hreal (subtrees_subset hpow (mem_subtrees_left .pow b c q)) hw
    exact ⟨rfl, rfl, b, c, q, w, hpow, hb, hnegative⟩

/-- A derivative has no value in real mode where a power of the tree has a negative base. -/
theorem eval_ne_ok_of_hasNegativeBase (hr : a.differentiate = .ok r)
    (h : a.HasNegativeBase x vars) : r.eval x vars .real ≠ .ok v := by
  intro hv
  obtain ⟨b, c, p, w, hpow, hb, hneg⟩ := h
  obtain ⟨u, hu⟩ := exists_eval_of_mem_subtrees hv (log_mem_differentiate hr hpow)
  rw [not_isNegative_of_eval_call hu rfl hb] at hneg
  cases hneg

end Expr

/-! ### Formulas -/

/-- What is made of a value is a value where there was one. -/
theorem map_eq_ok {ε : Type} {α β : Type u} {m : α → β} {r : Except ε α} {w : β}
    (h : r.map m = .ok w) : ∃ v, r = .ok v ∧ m v = w := by
  cases r with
  | ok v => exact ⟨v, rfl, Except.ok.inj h⟩
  | error e => cases h

open RealArith

variable {R : Type u} [RealArith R]

/-- **Where a raw derivative has a real value.** At a real number at which the formula has a value in
real mode, its raw derivative gives in real mode what it gives in complex mode, and never complains
of a logarithm, if no power of the formula has a negative base there. If one has, the raw derivative
fails there, and with the logarithm that the rule for powers brings in if it has a complex value. -/
theorem rawDerivative_real_mode [ZeroLaws R] {f g : Formula R} {x v : R}
    (hv : f.realValueAt x = .ok v) (hg : f.rawDerivative = .ok g) :
    (f.simplifiesDerivatives = false → f.derivative = .ok g) ∧
    (¬ f.root.HasNegativeBase (.ofReal x) f.vars →
      g.realValueAt x = (g.valueAt (.ofReal x)).map Complex.re ∧
        ∀ h p, g.realValueAt x ≠ .error (.logOfNegative h p)) ∧
    (f.root.HasNegativeBase (.ofReal x) f.vars →
      (∃ e, g.realValueAt x = .error e) ∧
        ∀ w, g.valueAt (.ofReal x) = .ok w →
          g.realValueAt x = .error (.logOfNegative .log none)) := by
  obtain ⟨w, hw, -⟩ := map_eq_ok hv
  obtain ⟨r, hr, rfl⟩ := map_eq_ok hg
  have hten : Arith.isNegative (Arith.ofNat 10 : Complex R) = false := by
    have hlt : lt (RealArith.ofNat 10 : R) 0 = false := ZeroLaws.lt_ofDecimal_zero ⟨10, 0⟩
    show (_ && lt (RealArith.ofNat 10) 0) = false
    rw [hlt, Bool.and_false]
  have hlog {h : Builtin} {p : Position}
      (herror : r.eval (.ofReal x) f.vars .real = .error (.logOfNegative h p)) :=
    Expr.hasNegativeBase_of_eval hten hw hr herror
  have hmode := Expr.eval_real_eq_or r (.ofReal x) f.vars
  refine ⟨fun hraw => ?_, fun hbase => ?_, fun hbase => ?_⟩
  · have hnot : ¬f.simplifiesDerivatives = true := hraw ▸ Bool.false_ne_true
    exact (if_neg hnot).trans hg
  · have hsame := hmode.resolve_right fun ⟨h, p, herror⟩ => hbase (hlog herror).2.2
    refine ⟨congrArg (Except.map Complex.re) hsame, fun h p herror => ?_⟩
    exact hbase (hlog (map_eq_error_iff.1 herror)).2.2
  · have hfails (u : Complex R) := Expr.eval_ne_ok_of_hasNegativeBase (v := u) hr hbase
    refine ⟨?_, fun u hu => ?_⟩
    · cases heval : r.eval (.ofReal x) f.vars .real with
      | ok u => exact absurd heval (hfails u)
      | error e => exact ⟨e, map_eq_error_iff.2 heval⟩
    · obtain hsame | ⟨h, p, herror⟩ := hmode
      · exact absurd (hsame.trans hu) (hfails u)
      · obtain ⟨rfl, rfl, -⟩ := hlog herror
        exact map_eq_error_iff.2 herror

/-- The square of the argument. -/
def square : Formula Double :=
  .ofExpr (.toPower .argument (.nat 2)) .constants

theorem power_mem_square {b c : Expr (Complex Double)} {p : Position}
    (h : .binary .pow b c p ∈ square.root.subtrees) : .binary .pow b c p = square.root := by
  simpa [square, Formula.ofExpr, Expr.toPower, Expr.nat, Expr.subtrees] using h

/-- The raw derivative of `x ^ 2` is defined at three, and not at minus one. -/
theorem rawDerivative_real_mode_square :
    ∃ g, square.rawDerivative = .ok g ∧
      (∃ v, square.realValueAt 3 = .ok v) ∧
      g.realValueAt 3 = (g.valueAt (.ofReal 3)).map Complex.re ∧
      (∃ v, square.realValueAt (-1) = .ok v) ∧ ∃ e, g.realValueAt (-1) = .error e := by
  have hthree : (square.realValueAt 3).toOption.any (fun _ => true) = true := by decide +kernel
  have hminus : (square.realValueAt (-1)).toOption.any (fun _ => true) = true := by decide +kernel
  obtain ⟨v, hv, -⟩ := Expr.exists_ok_of_any hthree
  obtain ⟨w, hw, -⟩ := Expr.exists_ok_of_any hminus
  have hpositive : ¬ square.root.HasNegativeBase (.ofReal 3) square.vars := by
    rintro ⟨b, c, p, u, hmem, hb, hneg⟩
    cases power_mem_square hmem
    cases hb
    exact absurd hneg (by decide +kernel)
  have hnegative : square.root.HasNegativeBase (.ofReal (-1)) square.vars :=
    ⟨.argument, .nat 2, none, _, Expr.mem_subtrees_self _, rfl, by decide +kernel⟩
  exact ⟨_, rfl, ⟨v, hv⟩, ((rawDerivative_real_mode hv rfl).2.1 hpositive).1, ⟨w, hw⟩,
    ((rawDerivative_real_mode hw rfl).2.2 hnegative).1⟩

/-- The exponent in `x ^ 2` is constant and the square of minus one is defined, but in real mode the
raw derivative complains there of a logarithm that is multiplied by zero. -/
theorem rawDerivative_complains :
    square.root.ConstantExponents ∧ (∃ v, square.realValueAt (-1) = .ok v) ∧
      ∃ g, square.rawDerivative = .ok g ∧
        g.realValueAt (-1) = .error (.logOfNegative .log none) := by
  have hminus : (square.realValueAt (-1)).toOption.any (fun _ => true) = true := by decide +kernel
  obtain ⟨v, hv, -⟩ := Expr.exists_ok_of_any hminus
  refine ⟨fun b c p hmem => ?_, ⟨v, hv⟩, _, rfl, Expr.eq_error_of_error? ?_⟩
  · have hpow : Expr.binary .pow b c p = square.root := by
      simpa [square, Formula.ofExpr, Expr.toPower, Expr.nat, Expr.subtrees] using hmem
    cases hpow
    rfl
  · decide +kernel

end Formulary

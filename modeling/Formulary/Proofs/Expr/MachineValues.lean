import Formulary.Proofs.Arithmetic.UnitLaws
import Formulary.Proofs.Expr.KeptValues
import Formulary.Proofs.Expr.Preservation
import Formulary.Proofs.Program.BranchCuts

/-!
# Simplified trees keep their machine value

Machine numbers have the laws of the operators where they are finite. So a tree keeps its value to
the last bit when it is simplified, though its operations are rounded. That is not so for powers,
where a negative exponent becomes a quotient. Nor is it known of the functions whose values and signs
the rules take from analysis.

* `Builtin.hasRules f`: the rules know a value of the function or what it does to a sign.
* `keepsCalls_of_no_rules`: other functions are applied to numbers or left as they are.
* **`eval_simplify_of_finite`**: a tree without powers and such functions keeps its value, if all
  values in it are finite.
* `eval_simplify_of_parse`: so do the trees of a text.
-/

namespace Formulary

open RealArith

universe u

/-- The rules know a value of the function or what it does to a sign. -/
def Builtin.hasRules : Builtin → Bool
  | .log | .ln | .log10 | .sin | .cos | .tan => true
  | _ => false

namespace Expr

section Calls

variable {K : Type u} [Arith K]

theorem application_of_no_rules {f : Builtin} (hf : f.hasRules = false) (a : Expr K) (p : Position) :
    application f a p = (foldCall? f a).getD (call f a p) := by
  cases f with
  | log => cases hf
  | ln => cases hf
  | log10 => cases hf
  | sin => cases hf
  | cos => cases hf
  | tan => cases hf
  | _ => rfl

/-- Functions without rules keep their value in every arithmetic. -/
theorem keepsCalls_of_no_rules {P : K → Prop} {x : K} {vars : Vars K} {mode : EvalMode} {a : Expr K}
    (h : ∀ f b p, call f b p ∈ a.subtrees → f.hasRules = false) : KeepsCalls P x vars mode a := by
  intro f b p hmem v r hb hcall hr
  rw [application_of_no_rules (h f b p hmem)]
  exact gives_foldCall? hb hcall hr (gives_call hb hcall hr)

end Calls

variable {R : Type u} [RealArith R] [UnitLaws R] {a : Expr (Complex R)} {x v : Complex R}
  {vars : Vars (Complex R)} {mode : EvalMode}

/-- Where no negative zero is put in, finite values are kept values. -/
theorem allGive_isKept (hsupplied : a.Supplied (fun w => w.noMinusZero = true) x vars)
    (hfinite : ∀ s ∈ a.subtrees, ∃ w, s.eval x vars mode = .ok w ∧ w.isFinite = true) :
    AllGive Complex.IsKept x vars mode a := by
  intro s hs
  obtain ⟨w, hw, hwfinite⟩ := hfinite s hs
  exact ⟨w, hw, hwfinite, (hsupplied.of_mem hs).eval Complex.noMinusZero_normalize hw⟩

/-- A tree without powers and functions that have rules keeps its value when it is simplified, if all
values in it are finite and no negative zero is put in. Sums and products may be rounded. -/
theorem eval_simplify_of_finite (hpowers : ∀ b c p, binary .pow b c p ∉ a.subtrees)
    (hcalls : ∀ f b p, call f b p ∈ a.subtrees → f.hasRules = false)
    (hsupplied : a.Supplied (fun w => w.noMinusZero = true) x vars)
    (hfinite : ∀ s ∈ a.subtrees, ∃ w, s.eval x vars mode = .ok w ∧ w.isFinite = true)
    (hv : a.eval x vars mode = .ok v) : a.simplify.eval x vars mode = .ok v :=
  (gives_simplify_of_parts Complex.isKept_operatorLaws (keepsCalls_of_no_rules hcalls)
    (fun b c p h => absurd h (hpowers b c p)) (allGive_isKept hsupplied hfinite) hv).eval

/-- At infinity the argument less itself is undefined, and its tree is simplified to zero. -/
example :
    let a : Expr (Complex Double) := binary .sub argument argument none
    let infinity : Complex Double := .ofReal (ofDecimal ⟨1, 400⟩)
    (a.eval infinity ⟨[]⟩ .complex).map (·.isFinite) = .ok false ∧ a.simplify = nat 0 :=
  ⟨rfl, rfl⟩

omit [UnitLaws R] in
/-- The trees of a text put no negative zero in. -/
theorem supplied_of_parse (hdecimal : ∀ d : Decimal, isMinusZero (ofDecimal d : R) = false)
    {s : String} (hparse : parse s = .ok a) (hx : x.noMinusZero = true)
    (hvars : vars.noMinusZero = true) : a.Supplied (fun w => w.noMinusZero = true) x vars where
  number _ hw := (unsignedZeros_of_parse hdecimal hparse).of_mem hw
  argument := hx
  bound _ _ := Vars.noMinusZero_get? hvars

/-- A text without powers and functions that have rules has the same value before and after its tree
is simplified, if all values in the tree are finite. -/
theorem eval_simplify_of_parse {s : String} (hparse : parse s = .ok a) (hx : x.noMinusZero = true)
    (hvars : vars.noMinusZero = true) (hpowers : ∀ b c p, binary .pow b c p ∉ a.subtrees)
    (hcalls : ∀ f b p, call f b p ∈ a.subtrees → f.hasRules = false)
    (hfinite : ∀ t ∈ a.subtrees, ∃ w, t.eval x vars mode = .ok w ∧ w.isFinite = true)
    (hv : a.eval x vars mode = .ok v) : a.simplify.eval x vars mode = .ok v :=
  eval_simplify_of_finite hpowers hcalls
    (supplied_of_parse ZeroLaws.isMinusZero_ofDecimal hparse hx hvars) hfinite hv

end Expr

end Formulary

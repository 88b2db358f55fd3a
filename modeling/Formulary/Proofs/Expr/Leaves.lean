import Formulary.Expr.Derivative
import Formulary.Proofs.Arithmetic.SignLaws
import Formulary.Proofs.Expr.RuleClosed

/-!
# What holds of all leaves of a tree

Simplifying and differentiating make few new leaves: whole numbers, opposites, finite computed
numbers, and the functions of the derivative rules. A property that holds of these holds of all
trees that are reached from a tree of which it holds.

* `LeafProperty K`: what numbers, variables and functions of a tree are to satisfy.
* `Expr.LeavesHold P`: all leaves of the tree satisfy it.
* `LeafProperty.Simplifies`, `LeafProperty.Differentiates`: the new leaves satisfy it.
* **`Expr.leavesHold_simplify`**, **`Expr.leavesHold_differentiate`**: it is kept.
-/

namespace Formulary

universe u

variable {K : Type u}

/-- A property of numbers, one of variables and one of functions. -/
structure LeafProperty (K : Type u) where
  number : K → Prop
  name : String → Prop
  function : Builtin → Prop

/-- All numbers, variables and functions of the tree have the property. -/
def Expr.LeavesHold (P : LeafProperty K) : Expr K → Prop
  | .number v => P.number v
  | .argument => True
  | .named n _ => P.name n
  | .neg a => a.LeavesHold P
  | .binary _ a b _ => a.LeavesHold P ∧ b.LeavesHold P
  | .call f a _ => P.function f ∧ a.LeavesHold P

/-- What holds of the leaves of a tree holds of the leaves of the trees in it. -/
theorem Expr.LeavesHold.of_mem {P : LeafProperty K} {s a : Expr K} (ha : a.LeavesHold P)
    (hs : s ∈ a.subtrees) : s.LeavesHold P :=
  of_mem_subtrees (fun h => h) (fun h => h) (fun h => h.2) ha hs

/-- A property of all leaves in the tree. -/
theorem Expr.leavesHold_of_leaves {P : LeafProperty K} {a : Expr K}
    (hnumber : ∀ v, .number v ∈ a.subtrees → P.number v)
    (hname : ∀ n p, .named n p ∈ a.subtrees → P.name n)
    (hfunction : ∀ f b p, .call f b p ∈ a.subtrees → P.function f) : a.LeavesHold P := by
  have hsub : ∀ s ∈ a.subtrees, s.LeavesHold P := by
    intro s hs
    induction s with
    | number v => exact hnumber v hs
    | argument => trivial
    | named n p => exact hname n p hs
    | neg b ih => exact ih (subtrees_subset hs (mem_subtrees_neg b))
    | binary op b c p ihb ihc =>
      exact ⟨ihb (subtrees_subset hs (mem_subtrees_left op b c p)),
        ihc (subtrees_subset hs (mem_subtrees_right op b c p))⟩
    | call f b p ih =>
      exact ⟨hfunction f b p hs, ih (subtrees_subset hs (mem_subtrees_call f b p))⟩
  exact hsub a (mem_subtrees_self a)

/-- What two properties of leaves give together. -/
theorem Expr.LeavesHold.both {P Q S : LeafProperty K} {a : Expr K} (hP : a.LeavesHold P)
    (hQ : a.LeavesHold Q) (hnumber : ∀ v, P.number v → Q.number v → S.number v)
    (hname : ∀ n, P.name n → Q.name n → S.name n)
    (hfunction : ∀ f, P.function f → Q.function f → S.function f) : a.LeavesHold S := by
  induction a with
  | number v => exact hnumber v hP hQ
  | argument => trivial
  | named n p => exact hname n hP hQ
  | neg a ih => exact ih hP hQ
  | binary op a b p iha ihb => exact ⟨iha hP.1 hQ.1, ihb hP.2 hQ.2⟩
  | call f a p ih => exact ⟨hfunction f hP.1 hQ.1, ih hP.2 hQ.2⟩

variable [Arith K]

namespace LeafProperty

/-- The numbers that simplification makes have the property. -/
structure Simplifies (P : LeafProperty K) : Prop where
  whole : ∀ n ≤ 10, P.number (Arith.ofNat n)
  opposite : ∀ v, P.number v → P.number (Arith.opposite v)
  computed : ∀ v : K, Arith.isFinite v = true → P.number (Arith.normalize v)

/-- The numbers, functions and variables that the derivative rules make have the property. -/
structure Differentiates (P : LeafProperty K) : Prop where
  whole : ∀ n ≤ 10, P.number (Arith.ofNat n)
  function : ∀ f ∈ [Builtin.sin, .cos, .sinh, .cosh, .sqrt, .log], P.function f
  /-- The derivative of the exponential is a power of Euler's number. -/
  euler : P.function .exp → P.name eulerName

end LeafProperty

namespace Expr

variable {P : LeafProperty K} {op : BinaryOp} {a b r : Expr K}

/-! ### Simplification -/

theorem ruleClosed_leavesHold (hP : P.Simplifies) : RuleClosed (LeavesHold (K := K) P) where
  whole h := hP.whole _ h
  opposite := hP.opposite _
  computed := hP.computed _
  neg_iff := Iff.rfl
  binary _ ha hb := ⟨ha, hb⟩
  operands h := h
  rejoined _ hc hd := ⟨hc, hd⟩
  reciprocal _ hc hd := ⟨hc, hd⟩
  operand h := h.2
  recalled h hb := ⟨h.1, hb⟩

/-- Simplification keeps what holds of the leaves. -/
theorem leavesHold_simplify (hP : P.Simplifies) (ha : a.LeavesHold P) : a.simplify.LeavesHold P :=
  (ruleClosed_leavesHold hP).simplify ha

/-! ### Derivatives -/

section

variable (hP : P.Differentiates)

include hP

theorem leavesHold_nat {n : Nat} (h : n ≤ 10) : (nat n : Expr K).LeavesHold P :=
  hP.whole n h

theorem leavesHold_diffBinary {a' b' : Expr K} (ha : a.LeavesHold P) (hb : b.LeavesHold P)
    (ha' : a'.LeavesHold P) (hb' : b'.LeavesHold P) : (diffBinary op a b a' b').LeavesHold P := by
  have h1 := leavesHold_nat hP (n := 1) (by omega)
  have h2 := leavesHold_nat hP (n := 2) (by omega)
  have hlog := hP.function .log (by simp)
  cases op <;> simp only [diffBinary, plus, minus, times, dividedBy, toPower, applied, LeavesHold,
    ha, hb, ha', hb', h1, h2, hlog, and_self]

theorem leavesHold_outerDerivative {f : Builtin} (hf : P.function f) (ha : a.LeavesHold P)
    (h : outerDerivative? f a = some r) : r.LeavesHold P := by
  have h1 := leavesHold_nat hP (n := 1) (by omega)
  have h2 := leavesHold_nat hP (n := 2) (by omega)
  have h10 := leavesHold_nat hP (n := 10) (by omega)
  have hfn := hP.function
  simp only [List.forall_mem_cons, List.not_mem_nil, false_implies, implies_true, and_true] at hfn
  obtain ⟨hsin, hcos, hsinh, hcosh, hsqrt, hlog⟩ := hfn
  cases f with
  | exp =>
    cases h
    exact ⟨hP.euler hf, ha⟩
  | cbrt => cases h
  | log2 => cases h
  | erf => cases h
  | gamma => cases h
  | _ =>
    cases h
    simp only [plus, minus, times, dividedBy, toPower, applied, LeavesHold, ha, h1, h2, h10, hsin,
      hcos, hsinh, hcosh, hsqrt, hlog, and_self]

/-- The derivative rules keep what holds of the leaves. -/
theorem leavesHold_differentiate (ha : a.LeavesHold P) (h : a.differentiate = .ok r) :
    r.LeavesHold P := by
  induction a generalizing r with
  | number v => cases h; exact hP.whole 0 (by omega)
  | argument => cases h; exact hP.whole 1 (by omega)
  | named n p => cases h; exact hP.whole 0 (by omega)
  | neg a ih =>
    simp only [differentiate] at h
    split at h
    · next a' ha' =>
      cases h
      exact ih (r := a') ha ha'
    · cases h
  | binary op a b p iha ihb =>
    simp only [differentiate] at h
    split at h
    · cases h
    · next a' ha' =>
      split at h
      · cases h
      · next b' hb' =>
        cases h
        exact leavesHold_diffBinary hP ha.1 ha.2 (iha ha.1 ha') (ihb ha.2 hb')
  | call f a p ih =>
    simp only [differentiate] at h
    split at h
    · cases h
    · next outer ho =>
      split at h
      · next a' ha' =>
        cases h
        exact ⟨leavesHold_outerDerivative hP ha.1 ha.2 ho, ih ha.2 ha'⟩
      · cases h

end

end Expr

end Formulary

import Formulary.Proofs.Expr.Normal
import Formulary.Proofs.Parse.Spelling

/-!
# Simplifying twice

Simplification is idempotent: a second pass finds nothing to do. As an equation between trees this
holds of every tree. As an answer of the equality test of trees it needs numbers that equal
themselves, which parsed trees and their derivatives have.

* `Expr.IsDefined`: no number of the tree has an undefined part.
* `isDefined_of_spells`, `isDefined_simplify`, `isDefined_differentiate`: parsed trees, simplified
  trees and derivatives are defined.
* **`simplify_idempotent`**: the statement for defined trees, over any arithmetic with the laws of
  signs.
-/

namespace Formulary

open RealArith

universe u

variable {R : Type u} [RealArith R]

/-- Neither part of the number is undefined. -/
def Complex.isDefined (v : Complex R) : Bool :=
  !isNaN v.re && !isNaN v.im

theorem Complex.isDefined_eq (v : Complex R) : v.isDefined = (v == v) := by
  unfold isDefined isNaN
  rw [Bool.not_not, Bool.not_not]
  rfl

/-- The numbers of the tree are defined; variables and functions may be any. -/
def definedLeaves : LeafProperty (Complex R) where
  number v := v.isDefined = true
  name _ := True
  function _ := True

namespace Expr

/-- No number of the tree has an undefined part. -/
def IsDefined (a : Expr (Complex R)) : Prop :=
  a.LeavesHold definedLeaves

/-- Where numbers equal themselves, trees do. -/
theorem beq_self_of_isDefined {a : Expr (Complex R)} (h : a.IsDefined) : (a == a) = true := by
  induction a with
  | number v => exact (Complex.isDefined_eq v).symm.trans h
  | argument => rfl
  | named n p => exact beq_self_eq_true n
  | neg a ih => exact ih h
  | binary op a b p iha ihb =>
    show (op == op && beq a a && beq b b) = true
    rw [show beq a a = true from iha h.1, show beq b b = true from ihb h.2, beq_self_eq_true]
    rfl
  | call f a p ih =>
    show (f == f && beq a a) = true
    rw [show beq a a = true from ih h.2, beq_self_eq_true]
    rfl

section Laws

variable [SignLaws R]

theorem isDefined_of_isFinite {v : Complex R} (h : v.isFinite = true) : v.isDefined = true := by
  obtain ⟨hre, him⟩ := Bool.and_eq_true_iff.1 h
  rw [Complex.isDefined_eq]
  show (v.re == v.re && v.im == v.im) = true
  rw [SignLaws.beq_self _ hre, SignLaws.beq_self _ him]
  rfl

theorem isDefined_ofNat {n : Nat} (h : n ≤ 10) :
    (Arith.ofNat n : Complex R).isDefined = true := by
  refine isDefined_of_isFinite ?_
  show (RealArith.isFinite (RealArith.ofNat n : R) && RealArith.isFinite (RealArith.ofNat 0 : R)) = true
  rw [SignLaws.isFinite_ofNat n h, SignLaws.isFinite_ofNat 0 (by omega)]
  rfl

theorem definedLeaves_simplifies : (definedLeaves (R := R)).Simplifies where
  whole _ h := isDefined_ofNat h
  opposite v h := by
    show (Arith.opposite v).isDefined = true
    rw [Complex.isDefined_eq, Complex.opposite_beq_self, ← Complex.isDefined_eq]
    exact h
  computed v h := (Complex.isDefined_eq _).trans (Complex.normalize_beq_self h)

theorem definedLeaves_differentiates : (definedLeaves (R := R)).Differentiates where
  whole _ h := isDefined_ofNat h
  function _ _ := trivial
  euler _ := trivial

theorem isDefined_simplify {a : Expr (Complex R)} (h : a.IsDefined) : a.simplify.IsDefined :=
  leavesHold_simplify definedLeaves_simplifies h

theorem isDefined_differentiate {a a' : Expr (Complex R)} (h : a.IsDefined)
    (hd : a.differentiate = .ok a') : a'.IsDefined :=
  leavesHold_differentiate definedLeaves_differentiates h hd

theorem isDefined_of_spells {ts : List Token} {a : Expr (Complex R)} (h : Spells ts a) :
    a.IsDefined := by
  induction h with
  | number hk hv => exact isDefined_of_isFinite (readNumber_eq_ok_iff.1 hv).2
  | @name t hk =>
    unfold Expr.ofName
    split <;> trivial
  | @apply t f ts a hk ha ih => cases f <;> first | exact ⟨trivial, ih⟩
  | neg hk ha ih => exact ih
  | binary hk hb ha ihb iha => exact ⟨iha, ihb⟩

/-- Parsed trees have defined numbers. -/
theorem isDefined_of_parse {s : String} {a : Expr (Complex R)} (h : parse s = .ok a) :
    a.IsDefined := by
  obtain ⟨out, -, hspell⟩ := parseTokens_eq_ok_iff.1 h
  exact isDefined_of_spells hspell

/-- Simplification is idempotent on trees with defined numbers, parsed trees and their derivatives
among them. -/
theorem simplify_idempotent :
    (∀ a : Expr (Complex R), a.IsDefined →
      a.simplify.simplify = a.simplify ∧ (a.simplify.simplify == a.simplify) = true) ∧
    (∀ (s : String) (a : Expr (Complex R)), parse s = .ok a → a.IsDefined) ∧
    ∀ a a' : Expr (Complex R), a.IsDefined → a.differentiate = .ok a' → a'.IsDefined := by
  refine ⟨fun a h => ?_, fun s a h => isDefined_of_parse h, fun a a' h => isDefined_differentiate h⟩
  have heq : a.simplify.simplify = a.simplify := simplify_of_isNormal (isNormal_simplify a)
  refine ⟨heq, ?_⟩
  rw [heq]
  exact beq_self_of_isDefined (isDefined_simplify h)

/-- Machine numbers have the laws: `-x * (1 - 2)` simplified stays as it is. -/
theorem simplify_idempotent_double :
    let a : Expr (Complex Double) := times (neg argument) (minus (nat 1) (nat 2))
    a.IsDefined ∧ (a.simplify.simplify == a.simplify) = true := by
  have h : (times (neg argument) (minus (nat 1) (nat 2)) : Expr (Complex Double)).IsDefined :=
    ⟨trivial, isDefined_ofNat (by decide), isDefined_ofNat (by decide)⟩
  exact ⟨h, (simplify_idempotent.1 _ h).2⟩

end Laws

end Expr

end Formulary

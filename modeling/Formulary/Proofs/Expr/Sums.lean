import Formulary.Expr.Eval
import Formulary.Proofs.Arithmetic.ZeroLaws
import Formulary.Proofs.Expr.KeptValues
import Formulary.Proofs.Grammar.FusedPhrases

/-!
# Values without a negative zero

Every computed value is kept without a negative zero, so none turns up where none is put in. Then a
complex numeral is the sum of its parts, and it may be added at once or part by part.

* `Vars.noMinusZero`: no value of the table has a negative zero.
* `plainLeaves`: the numbers of a tree are finite and have no negative zero.
* `noMinusZero_eval`: neither has a value of the tree.
* `eval_of_fuses_of_sums`: what putting numerals together needs of an arithmetic to change no value.
* **`eval_of_fuses`**: numerals that are put together change no value and no error.
-/

namespace Formulary

open RealArith

universe u

variable {R : Type u} [RealArith R]

/-- No value of the table has a part that is a negative zero. -/
def Vars.noMinusZero (vars : Vars (Complex R)) : Bool :=
  vars.entries.all fun e => e.2.noMinusZero

/-- The numbers are finite and have no negative zero; variables and functions may be any. -/
def plainLeaves : LeafProperty (Complex R) where
  number v := v.isFinite = true ∧ v.noMinusZero = true
  name _ := True
  function _ := True

theorem Vars.noMinusZero_find? {vars : Vars (Complex R)} (h : vars.noMinusZero = true)
    {name : String} {v : Complex R} (hv : vars.find? name = some v) : v.noMinusZero = true := by
  unfold Vars.noMinusZero at h
  unfold Vars.find? at hv
  obtain ⟨es⟩ := vars
  induction es with
  | nil => cases hv
  | cons e es ih =>
    rw [List.all_cons, Bool.and_eq_true] at h
    rw [show (e :: es) = (e.1, e.2) :: es from rfl, Vars.lookup_cons_eq_ite] at hv
    split at hv
    · cases hv
      exact h.1
    · exact ih h.2 hv

theorem Vars.noMinusZero_get? {vars : Vars (Complex R)} (h : vars.noMinusZero = true)
    {name : String} {v : Complex R} (hv : vars.get? name = some v) : v.noMinusZero = true := by
  unfold Vars.get? at hv
  rw [Option.orElse_eq_orElse, Option.orElse_eq_or] at hv
  rcases Option.or_eq_some_iff.1 hv with hv | ⟨-, hv⟩
  · exact Vars.noMinusZero_find? h hv
  · exact Vars.noMinusZero_find? h hv

namespace Expr

variable [ZeroLaws R] {x : Complex R} {vars : Vars (Complex R)} (mode : EvalMode)

/-- A value has no negative zero if the numbers, the argument and the table have none. -/
theorem noMinusZero_eval (hx : x.noMinusZero = true) (hvars : vars.noMinusZero = true)
    {a : Expr (Complex R)} (ha : a.LeavesHold plainLeaves) {v : Complex R}
    (hv : a.eval x vars mode = .ok v) : v.noMinusZero = true := by
  have hnumber (w : Complex R) (hw : .number w ∈ a.subtrees) : w.noMinusZero = true := by
    have hleaf : w.isFinite = true ∧ w.noMinusZero = true := ha.of_mem hw
    exact hleaf.2
  have hsupplied : a.Supplied (fun w => w.noMinusZero = true) x vars :=
    ⟨hnumber, hx, fun _ _ => Vars.noMinusZero_get? hvars⟩
  exact hsupplied.eval Complex.noMinusZero_normalize hv

/-- The kept sum of a real and an imaginary number is the number with both parts. -/
theorem normalize_ofReal_add {r s : R} (hr : (Complex.ofReal r).isFinite = true)
    (hr' : (Complex.ofReal r).noMinusZero = true) (hs : (⟨0, s⟩ : Complex R).isFinite = true)
    (hs' : (⟨0, s⟩ : Complex R).noMinusZero = true) :
    Arith.normalize (Complex.ofReal r + ⟨0, s⟩) = (⟨r, s⟩ : Complex R) := by
  have hfr := (Complex.isFinite_iff.1 hr).1
  have hfs := (Complex.isFinite_iff.1 hs).2
  have hzr := (Complex.noMinusZero_iff.1 hr').1
  have hzs := (Complex.noMinusZero_iff.1 hs').2
  show (⟨r + 0 + 0, 0 + s + 0⟩ : Complex R) = ⟨r, s⟩
  rw [ZeroLaws.add_zero r hfr hzr, ZeroLaws.add_zero r hfr hzr, ZeroLaws.zero_add s hfs hzs,
    ZeroLaws.add_zero s hfs hzs]

/-- A number with two parts may be added part by part. -/
theorem normalize_add_add {z : Complex R} (hz : z.noMinusZero = true) {r s : R}
    (hs : (⟨0, s⟩ : Complex R).isFinite = true) :
    Arith.normalize (Arith.normalize (z + Complex.ofReal r) + ⟨0, s⟩)
      = Arith.normalize (z + (⟨r, s⟩ : Complex R)) := by
  have hzi := (Complex.noMinusZero_iff.1 hz).2
  have hfs := (Complex.isFinite_iff.1 hs).2
  show (⟨z.re + r + 0 + 0 + 0, z.im + 0 + 0 + s + 0⟩ : Complex R) = ⟨z.re + r + 0, z.im + s + 0⟩
  rw [ZeroLaws.add_zero_add_zero, ZeroLaws.add_zero_add_zero, ZeroLaws.add_zero_add_zero,
    ZeroLaws.add_zero_add _ _ hzi hfs]

omit [ZeroLaws R] in
theorem evalBinary_add (v w : Complex R) (p : Position) :
    evalBinary .add v w p = .ok (Arith.normalize (v + w)) :=
  if_neg fun h => BinaryOp.noConfusion h.1

omit [ZeroLaws R] in
/-- Where numerals add up to the numeral they are put together to, and may be added at once or part by
part, putting them together changes no value and no error. -/
theorem eval_of_fuses_of_sums {P : LeafProperty (Complex R)}
    (hsum : ∀ r s, P.number (.ofReal r) → P.number ⟨0, s⟩ →
      Arith.normalize (Complex.ofReal r + ⟨0, s⟩) = (⟨r, s⟩ : Complex R))
    (htail : ∀ (a : Expr (Complex R)) z r s, a.LeavesHold P → a.eval x vars mode = .ok z →
      P.number (.ofReal r) → P.number ⟨0, s⟩ →
      Arith.normalize (Arith.normalize (z + Complex.ofReal r) + ⟨0, s⟩)
        = Arith.normalize (z + (⟨r, s⟩ : Complex R)))
    {a b : Expr (Complex R)} (h : Fuses a b) (ha : a.LeavesHold P) :
    a.eval x vars mode = b.eval x vars mode := by
  induction h with
  | refl a => rfl
  | neg h ih =>
    simp only [eval]
    rw [ih ha]
  | binary op p h₁ h₂ ih₁ ih₂ =>
    simp only [eval]
    rw [ih₁ ha.1, ih₂ ha.2]
  | call f p h ih =>
    simp only [eval]
    rw [ih ha.2]
  | sum r s p =>
    simp only [eval]
    rw [evalBinary_add, hsum r s ha.1 ha.2]
  | @tail a a' r s p q h ih =>
    simp only [eval]
    rw [← ih ha.1.1]
    cases hv : a.eval x vars mode with
    | error e => rfl
    | ok z =>
      simp only [evalBinary_add]
      rw [htail a z r s ha.1.1 hv ha.1.2 ha.2]

/-- Numerals that are put together change no value and no error. -/
theorem eval_of_fuses (hx : x.noMinusZero = true) (hvars : vars.noMinusZero = true)
    {a b : Expr (Complex R)} (h : Fuses a b) (ha : a.LeavesHold plainLeaves) :
    a.eval x vars mode = b.eval x vars mode :=
  eval_of_fuses_of_sums (P := plainLeaves) mode
    (fun _ _ hr hs => normalize_ofReal_add hr.1 hr.2 hs.1 hs.2)
    (fun _ _ _ _ ha hv _ hs => normalize_add_add (noMinusZero_eval mode hx hvars ha hv) hs.1) h ha

end Expr

end Formulary

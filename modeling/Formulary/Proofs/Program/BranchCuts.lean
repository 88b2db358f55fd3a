import Formulary.Binary64.Arith
import Formulary.Proofs.Expr.Steps
import Formulary.Proofs.Program.Stack

/-!
# No negative zero on a branch cut

Roots, logarithms and powers jump where a part of their operand is zero, and the sign of that zero
decides to which side. A value that is computed is kept with a zero added, so it has no negative
zero; and neither has a number of a tree that a text leads to.

* `unsignedZeros`: numbers without a negative zero.
* `unsignedZeros_of_parse`, `unsignedZeros_of_reaches`: the numbers of the trees of a text.
* **`noMinusZero_of_values`**: no value in a tree, and none on the stack of its program, has a
  negative zero where none is put in.
-/

namespace Formulary

open RealArith

universe u

variable {R : Type u} [RealArith R]

/-! ### The trees of a text -/

/-- The numbers have no negative zero; variables and functions may be any. -/
def unsignedZeros : LeafProperty (Complex R) where
  number v := v.noMinusZero = true
  name _ := True
  function _ := True

theorem Complex.noMinusZero_ofDecimal (hdecimal : ∀ d : Decimal, isMinusZero (ofDecimal d : R) = false)
    (d e : Decimal) : (⟨ofDecimal d, ofDecimal e⟩ : Complex R).noMinusZero = true :=
  Complex.noMinusZero_iff.2 ⟨hdecimal d, hdecimal e⟩

theorem unsignedZeros_of_parse (hdecimal : ∀ d : Decimal, isMinusZero (ofDecimal d : R) = false)
    {s : String} {a : Expr (Complex R)} (h : parse s = .ok a) : a.LeavesHold unsignedZeros := by
  refine leavesHold_of_denotes (denotes_of_parse h) (fun text p v hv => ?_) (fun _ _ _ _ => trivial)
    trivial fun _ _ _ => trivial
  obtain ⟨d, e, rfl⟩ := exists_ofDecimal hv
  exact Complex.noMinusZero_ofDecimal hdecimal d e

/-- Simplifying and differentiating put no negative zero into a tree. -/
theorem unsignedZeros_of_reaches (hadd : ∀ r : R, isMinusZero (r + 0) = false)
    (hdecimal : ∀ d : Decimal, isMinusZero (ofDecimal d : R) = false) {a b : Expr (Complex R)}
    (h : a.Reaches b) (ha : a.LeavesHold unsignedZeros) : b.LeavesHold unsignedZeros := by
  have hwhole (n : Nat) (_ : n ≤ 10) : (Arith.ofNat n : Complex R).noMinusZero = true :=
    Complex.noMinusZero_ofDecimal hdecimal ⟨n, 0⟩ ⟨0, 0⟩
  exact leavesHold_of_reaches
    ⟨hwhole, fun v _ => Complex.noMinusZero_kept hadd (-v), fun v _ => Complex.noMinusZero_kept hadd v⟩
    ⟨hwhole, fun _ _ => trivial, fun _ => trivial⟩ h ha

/-! ### Values -/

/-- Where neither the numbers of a tree nor its argument nor its table has a negative zero, no tree
in it has a value with one, nor has the value of its program, nor has any value on the program's stack
at any moment, where each step finds its operands. All trees that a text leads to have such numbers:
a numeral has no sign, and the rules keep their numbers as values are kept. -/
theorem noMinusZero_of_values (hadd : ∀ r : R, isMinusZero (r + 0) = false) :
    (∀ (a : Expr (Complex R)) (x : Complex R) (vars : Vars (Complex R)) (mode : EvalMode),
      (∀ v, .number v ∈ a.subtrees → v.noMinusZero = true) → x.noMinusZero = true →
      vars.noMinusZero = true →
        (∀ s ∈ a.subtrees, ∀ v, s.eval x vars mode = .ok v → v.noMinusZero = true) ∧
        (∀ v, (Program.ofExpr a).eval x vars mode = .ok v → v.noMinusZero = true) ∧
        ∀ code rest, (Program.ofExpr a).code = code ++ rest →
          let run := runOn (Program.ofExpr a).names ((Program.ofExpr a).bind vars) x mode code []
          (∀ v ∈ run.2, v.noMinusZero = true) ∧
            (run.1 = .ok () → ∀ i ∈ rest.head?, i.operands ≤ run.2.length)) ∧
    ∀ (s : String) (a b : Expr (Complex Double)), parse s = .ok a → a.Reaches b →
      ∀ v, .number v ∈ b.subtrees → v.noMinusZero = true := by
  have hkept := Complex.noMinusZero_kept hadd
  constructor
  · intro a x vars mode hnumbers hx hvars
    have hsupplied : a.Supplied (fun v => v.noMinusZero = true) x vars :=
      ⟨hnumbers, hx, fun _ _ => Vars.noMinusZero_get? hvars⟩
    refine ⟨fun s hs v => (hsupplied.of_mem hs).eval hkept, fun v hv => ?_, fun code rest hcode => ?_⟩
    · rw [show (Program.ofExpr a).eval x vars mode = _ from run_ofExpr a x vars mode] at hv
      exact hsupplied.eval hkept hv
    · refine ⟨hsupplied.stack hkept hcode, fun hok i hi => ?_⟩
      obtain ⟨is, rfl⟩ := List.head?_eq_some_iff.1 hi
      exact operands_le_length hcode hok
  · intro s a b hparse hreach v hv
    have ha := unsignedZeros_of_parse ZeroLaws.isMinusZero_ofDecimal hparse
    have hb := unsignedZeros_of_reaches ZeroLaws.isMinusZero_add_zero ZeroLaws.isMinusZero_ofDecimal
      hreach ha
    exact hb.of_mem hv

/-- Machine numbers have the law. The negation of four has a negative zero in its imaginary part; in
the tree of the root of minus four, and when `-4` is simplified, it is gone. -/
theorem noMinusZero_of_values_root :
    (-(Arith.ofNat 4) : Complex Double).noMinusZero = false ∧
    (∃ v, (Expr.neg (Expr.nat 4) : Expr (Complex Double)).eval (Arith.ofNat 0) .constants .complex
      = .ok v ∧ v.noMinusZero = true) ∧
    ∃ a : Expr (Complex Double), parse "-4" = .ok a ∧
      ∀ v, .number v ∈ a.simplify.subtrees → v.noMinusZero = true := by
  have hadd := ZeroLaws.isMinusZero_add_zero (R := Double)
  have hwritten : written "-4" = [⟨⟨.sign, ['-']⟩, 0⟩, ⟨⟨.numeral, ['4']⟩, 1⟩] := by
    decide +kernel
  have hfour : Denotes .primary [⟨⟨.numeral, ['4']⟩, 1⟩]
      (.number (.ofReal (ofDecimal ⟨4, 0⟩)) : Expr (Complex Double)) :=
    .number rfl (readNumber_eq_ok_iff.2 ⟨rfl, by decide +kernel⟩)
  have hparse : parse "-4" = .ok (.neg (.number (.ofReal (ofDecimal ⟨4, 0⟩))) :
      Expr (Complex Double)) := by
    refine parse_of_denotes ?_
    rw [hwritten]
    exact .ofTerm (.ofPower (.ofUnary (.neg rfl (.ofPrimary hfour))))
  let a : Expr (Complex Double) := .call .sqrt (.neg (.nat 4)) none
  have hnumbers : ∀ v, .number v ∈ a.subtrees → v.noMinusZero = true := by
    intro v hv
    simp only [a, Expr.subtrees, Expr.nat, List.mem_cons, List.not_mem_nil, or_false, reduceCtorEq,
      false_or, Expr.number.injEq] at hv
    rw [hv]
    decide +kernel
  obtain ⟨hvalues, htexts⟩ := noMinusZero_of_values hadd
  refine ⟨by decide +kernel, ⟨_, rfl, ?_⟩, _, hparse, ?_⟩
  · exact (hvalues a (Arith.ofNat 0) .constants .complex hnumbers (by decide +kernel)
      (by decide +kernel)).1 _ (Expr.mem_subtrees_call .sqrt _ none) _ rfl
  · exact htexts "-4" _ _ hparse (.simplify .refl)

end Formulary

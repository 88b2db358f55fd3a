import Formulary.Binary64.Arith
import Formulary.Proofs.Arithmetic.NumeralLaws
import Formulary.Proofs.Expr.Steps
import Formulary.Proofs.Grammar.Unfused

/-!
# Fusing changes no formula

Whether a real and an imaginary numeral are read as one token or as a sum, the text is a formula or it
is none, and the formula has the same values and the same errors. The numerals of a text are all that
has to obey laws.

* `numeralLeaves`: the numbers of a tree are numerals of a text.
* `eval_of_fuses_numerals`: numerals that are put together change no value and no error.
* **`parse_unfused`**: the statement for all texts.
-/

namespace Formulary

open RealArith

universe u

variable {R : Type u} [RealArith R]

/-- The numbers are finite and their parts are decimals. -/
def numeralLeaves : LeafProperty (Complex R) where
  number v := v.isFinite = true ∧ ∃ d e, v = ⟨ofDecimal d, ofDecimal e⟩
  name _ := True
  function _ := True

theorem numeralLeaves_of_denotes {φ : Phrase} {ls : List Placed} {a : Expr (Complex R)}
    (h : Denotes φ ls a) : a.LeavesHold numeralLeaves :=
  leavesHold_of_denotes h
    (fun _ _ _ hv => ⟨(readNumber_eq_ok_iff.1 hv).2, exists_ofDecimal hv⟩)
    (fun _ _ _ _ => trivial) trivial fun _ _ _ => trivial

variable [NumeralLaws R]

/-- Where the numbers are numerals, putting them together changes no value and no error, at any
argument and in any table. -/
theorem eval_of_fuses_numerals (x : Complex R) (vars : Vars (Complex R)) (mode : EvalMode)
    {a b : Expr (Complex R)} (h : Fuses a b) (ha : a.LeavesHold numeralLeaves) :
    a.eval x vars mode = b.eval x vars mode := by
  have hreal {r : R} (hr : numeralLeaves.number (Complex.ofReal r)) :
      ∃ d, r = ofDecimal d ∧ RealArith.isFinite r = true := by
    obtain ⟨hfin, d, e, hv⟩ := hr
    exact ⟨d, congrArg Complex.re hv, (Complex.isFinite_iff.1 hfin).1⟩
  have himaginary {s : R} (hs : numeralLeaves.number (⟨0, s⟩ : Complex R)) :
      ∃ e, s = ofDecimal e ∧ RealArith.isFinite s = true := by
    obtain ⟨hfin, d, e, hv⟩ := hs
    exact ⟨e, congrArg Complex.im hv, (Complex.isFinite_iff.1 hfin).2⟩
  refine Expr.eval_of_fuses_of_sums (P := numeralLeaves) mode (fun r s hr hs => ?_)
    (fun _ z r s _ _ hr hs => ?_) h ha
  · obtain ⟨d, rfl, hd⟩ := hreal hr
    obtain ⟨e, rfl, he⟩ := himaginary hs
    exact NumeralLaws.sum d e hd he
  · obtain ⟨d, rfl, hd⟩ := hreal hr
    obtain ⟨e, rfl, he⟩ := himaginary hs
    exact NumeralLaws.regroup z d e hd he

/-- A text is parsed if and only if it is parsed with no numerals fused, and then both trees have the
same value, or the same error at the same place, at every argument, in every table and in both
modes. -/
theorem parse_unfused (s : String) :
    ((∃ a : Expr (Complex R), parse s = .ok a) ↔
      ∃ b : Expr (Complex R), parseUnfused s = .ok b) ∧
    ∀ a b : Expr (Complex R), parse s = .ok a → parseUnfused s = .ok b →
      ∀ (x : Complex R) (vars : Vars (Complex R)) (mode : EvalMode),
        a.eval x vars mode = b.eval x vars mode := by
  refine ⟨⟨?_, ?_⟩, fun a b ha hb x vars mode => ?_⟩
  · rintro ⟨a, ha⟩
    exact exists_parseUnfused_of_parse NumeralLaws.isFinite_zero ha
  · rintro ⟨b, hb⟩
    obtain ⟨a, ha, -⟩ := exists_parse_of_parseUnfused hb
    exact ⟨a, ha⟩
  · obtain ⟨a', ha', hfuses⟩ := exists_parse_of_parseUnfused hb
    rw [ha'] at ha
    cases ha
    exact (eval_of_fuses_numerals x vars mode hfuses
      (numeralLeaves_of_denotes (denotes_of_parseUnfused hb))).symm

/-- Machine numbers have the laws: `x+1+2i` is a sum of two or of three summands. -/
theorem parse_unfused_double :
    ∃ a b : Expr (Complex Double), parse "x+1+2i" = .ok a ∧ parseUnfused "x+1+2i" = .ok b ∧
      a.size = 3 ∧ b.size = 5 ∧ ∀ x vars mode, a.eval x vars mode = b.eval x vars mode := by
  have hwritten : written "x+1+2i" = [⟨⟨.word, ['x']⟩, 0⟩, ⟨⟨.sign, ['+']⟩, 1⟩,
      ⟨⟨.numeral, ['1', '+', '2', 'i']⟩, 2⟩] := by
    decide +kernel
  have hunfused : writtenUnfused "x+1+2i" = [⟨⟨.word, ['x']⟩, 0⟩, ⟨⟨.sign, ['+']⟩, 1⟩,
      ⟨⟨.numeral, ['1']⟩, 2⟩, ⟨⟨.sign, ['+']⟩, 3⟩, ⟨⟨.numeral, ['2', 'i']⟩, 4⟩] := by
    decide +kernel
  have hx : Denotes .expr [⟨⟨.word, ['x']⟩, 0⟩] (.argument : Expr (Complex Double)) :=
    .ofTerm (.ofPower (.ofUnary (.ofPrimary (.argument (by decide +kernel) (by decide +kernel)))))
  have hnumber (cs : List Char) (p : Nat) (v : Complex Double)
      (h : literalValue? (Placed.text ⟨⟨.numeral, cs⟩, p⟩).toList = some v)
      (hfin : v.isFinite = true) : Denotes .term [⟨⟨.numeral, cs⟩, p⟩] (.number v) :=
    .ofPower (.ofUnary (.ofPrimary (.number rfl (readNumber_eq_ok_iff.2 ⟨h, hfin⟩))))
  have ha : parse "x+1+2i" = .ok (.binary .add .argument
      (.number ⟨ofDecimal ⟨1, 0⟩, ofDecimal ⟨2, 0⟩⟩) (some 1) : Expr (Complex Double)) := by
    refine parse_of_denotes ?_
    rw [hwritten]
    have hterm := hnumber ['1', '+', '2', 'i'] 2 ⟨ofDecimal ⟨1, 0⟩, ofDecimal ⟨2, 0⟩⟩ rfl
      (by decide +kernel)
    have hsum := Denotes.summand (c := '+') (l := ⟨⟨.sign, ['+']⟩, 1⟩) rfl rfl hx hterm
    exact hsum
  have hb : parseUnfused "x+1+2i" = .ok (.binary .add (.binary .add .argument
      (.number (.ofReal (ofDecimal ⟨1, 0⟩))) (some 1)) (.number ⟨0, ofDecimal ⟨2, 0⟩⟩) (some 3) :
      Expr (Complex Double)) := by
    refine parseUnfused_of_denotes ?_
    rw [hunfused]
    have hone := hnumber ['1'] 2 (.ofReal (ofDecimal ⟨1, 0⟩)) rfl (by decide +kernel)
    have htwo := hnumber ['2', 'i'] 4 ⟨0, ofDecimal ⟨2, 0⟩⟩ rfl (by decide +kernel)
    have hsum := Denotes.summand (c := '+') (l := ⟨⟨.sign, ['+']⟩, 1⟩) rfl rfl hx hone
    have hsums := Denotes.summand (c := '+') (l := ⟨⟨.sign, ['+']⟩, 3⟩) rfl rfl hsum htwo
    exact hsums
  exact ⟨_, _, ha, hb, rfl, rfl, (parse_unfused "x+1+2i").2 _ _ ha hb⟩

end Formulary

import Formulary.Proofs.Grammar.FusedPhrases
import Formulary.Proofs.Grammar.Numerals
import Formulary.Proofs.Grammar.Rejects

/-!
# Fused texts derive where unfused ones do

A complex numeral is an operand, and so are its parts with the plus sign between them: lexemes
alternate before fusing if they alternate after it. What alternates is derived, so fusing accepts no
text that would not be accepted without it. That it rejects none is `denotes_fusePlaced`.

* `alternates_of_denotes`: derived lexemes alternate.
* `alternates_of_fusePlaced`: lexemes alternate if they do when fused.
* `exists_denotes_of_fusePlaced`: lexemes are derived if they are when fused.
* `writtenUnfused`, `denotes_of_parseUnfused`, `parseUnfused_of_denotes`: the lexemes of a text before
  fusing, and that a text is parsed without fusing as they derive.
* **`exists_parse_of_parseUnfused`**, **`exists_parseUnfused_of_parse`**: a text is parsed with fusing
  if and only if it is without.
-/

namespace Formulary

open RealArith

universe u

variable {R : Type u} [RealArith R]

/-! ### Derived lexemes alternate -/

theorem mem_operators_of_joins_term {c : Char} {op : BinaryOp}
    (h : Phrase.joins .term c = some op) : c ∈ ['+', '*', '/', '^'] := by
  unfold Phrase.joins at h
  split at h
  · next hφ => cases hφ
  · next hφ => cases hφ
  · decide
  · decide
  · cases h

/-- Derived lexemes alternate in front of all that goes on well after a value. -/
theorem alternates_of_denotes {φ : Phrase} {ls : List Placed} {a : Expr (Complex R)}
    (h : Denotes φ ls a) {d : Nat} {rest : List Placed} (hrest : Alternates R true d rest) :
    Alternates R false d (ls ++ rest) := by
  induction h generalizing d rest with
  | number hl hv => exact .value (startsValue_of_isNumber hl) (.number hl hv) hrest
  | argument hl hx => exact .value (startsValue_of_isName hl) (.argument hl hx) hrest
  | name hl hx => exact .value (startsValue_of_isName hl) (.name hl hx) hrest
  | group ho hc ha ih =>
    rw [List.cons_append, List.append_assoc]
    exact .opened ho (ih (.closed hc hrest))
  | ofPrimary ha ih => exact ih hrest
  | neg hl ha ih => exact .minus hl (ih hrest)
  | exponential hl ha ih => exact .function hl (ih hrest)
  | logarithm hl ha ih => exact .function hl (ih hrest)
  | call hl hexp hln ha ih => exact .function hl (ih hrest)
  | ofUnary ha ih => exact ih hrest
  | pow hl ha hb iha ihb =>
    rw [List.append_assoc]
    exact iha (.operator hl (by decide) (ihb hrest))
  | ofPower ha ih => exact ih hrest
  | factor hl hop ha hb iha ihb =>
    rw [List.append_assoc]
    exact iha (.operator hl (mem_operators_of_joins_term hop) (ihb hrest))
  | juxtaposed hl ha hb iha ihb =>
    rw [List.append_assoc]
    exact iha (ihb hrest).after
  | ofTerm ha ih => exact ih hrest
  | summand hl hop ha hb iha ihb =>
    rw [List.append_assoc]
    rcases joins_expr_iff.1 hop with ⟨rfl, -⟩ | ⟨rfl, -⟩
    · exact iha (.operator hl (by decide) (ihb hrest))
    · exact iha (.minus hl (ihb hrest))

/-- Lexemes that go on well may be put in the place of others that do. -/
theorem Alternates.replace {after : Bool} {d : Nat} {l : Placed} {ls ls' : List Placed}
    (h : Alternates R after d (l :: ls))
    (hls : ∀ after d, Alternates R after d ls → Alternates R after d ls') :
    Alternates R after d (l :: ls') := by
  cases h with
  | value hl ha h => exact .value hl ha (hls _ _ h)
  | function hl h => exact .function hl (hls _ _ h)
  | minus hl h => exact .minus hl (hls _ _ h)
  | operator hl hc h => exact .operator hl hc (hls _ _ h)
  | opened hl h => exact .opened hl (hls _ _ h)
  | closed hl h => exact .closed hl (hls _ _ h)

/-! ### The parts of a complex numeral -/

theorem isNumber_of_isReal {l : Placed} (h : l.lexeme.isReal = true) : l.isNumber = true := by
  unfold Placed.isNumber
  rw [(Bool.and_eq_true_iff.1 h).1, Bool.true_or]

theorem isNumber_of_isImaginary {l : Placed} (h : l.lexeme.isImaginary = true) :
    l.isNumber = true := by
  unfold Placed.isNumber
  rw [(Bool.and_eq_true_iff.1 h).1, Bool.true_or]

/-- A numeral that begins lexemes that alternate has a value, and the rest goes on after it. -/
theorem value_of_alternates {after : Bool} {d : Nat} {l : Placed} {ls : List Placed}
    (hl : l.lexeme.cls = .numeral) (h : Alternates R after d (l :: ls)) :
    (∃ v : Complex R, readNumber l.text l.start = .ok v) ∧ Alternates R true d ls := by
  have hsign {c : Char} (hc : l.isSign c = true) : False := by
    have hcls := (isSign_iff.1 hc).1
    rw [hl] at hcls
    cases hcls
  cases h with
  | value hstart ha h =>
    obtain ⟨-, v, -, hv⟩ := numeral_of_denotes ha (by decide) l [] rfl hl rfl
    exact ⟨⟨v, hv⟩, h⟩
  | function hf h =>
    have hcls := cls_of_function? hf
    rw [hl] at hcls
    cases hcls
  | minus hc h => exact (hsign hc).elim
  | operator hc _ h => exact (hsign hc).elim
  | opened hc h => exact (hsign hc).elim
  | closed hc h => exact (hsign hc).elim

/-- Lexemes alternate if they do when complex numerals are fused: an operand gives way to two with a
plus sign between them. -/
theorem alternates_of_fusePlaced (hzero : RealArith.isFinite (0 : R) = true) {opens : Bool}
    {ls : List Placed} (hls : ∀ l ∈ ls, l.lexeme.IsSimple ∧ l.lexeme.chars ≠ []) {after : Bool}
    {d : Nat} (h : Alternates R after d (fusePlaced opens ls)) : Alternates R after d ls := by
  fun_induction fusePlaced opens ls generalizing after d with
  | case1 opens n p m ls hfuse ih =>
    obtain ⟨hfuse, -⟩ := Bool.and_eq_true_iff.1 hfuse
    obtain ⟨-, hjoin⟩ := Bool.and_eq_true_iff.1 hfuse
    have hls' l hl :=
      hls l (List.mem_cons_of_mem _ (List.mem_cons_of_mem _ (List.mem_cons_of_mem _ hl)))
    obtain ⟨⟨v, hv⟩, hrest⟩ := value_of_alternates rfl h
    obtain ⟨hn, hne⟩ := hls n (by simp)
    obtain ⟨hread, hread'⟩ := readNumber_of_join hzero hjoin hn (hls m (by simp)).1 hne hv
    unfold Placed.joinable at hjoin
    simp only [Bool.and_eq_true] at hjoin
    have hnumber := isNumber_of_isReal hjoin.1.1.1.1
    have hnumber' := isNumber_of_isImaginary hjoin.1.1.2
    exact .value (startsValue_of_isNumber hnumber) (.number hnumber hread)
      (.operator hjoin.1.1.1.2 (by decide)
        (.value (startsValue_of_isNumber hnumber') (.number hnumber' hread') (ih hls' hrest)))
  | case2 opens n p m ls hfuse ih =>
    exact h.replace fun _ _ => ih fun l hl => hls l (List.mem_cons_of_mem _ hl)
  | case3 opens ls hshort => exact h

/-- Lexemes are derived if they are when complex numerals are fused. -/
theorem exists_denotes_of_fusePlaced (hzero : RealArith.isFinite (0 : R) = true) {ls : List Placed}
    (hls : ∀ l ∈ ls, l.lexeme.IsSimple ∧ l.lexeme.chars ≠ []) {a : Expr (Complex R)}
    (h : Denotes .expr (fusePlaced true ls) a) : ∃ b : Expr (Complex R), Denotes .expr ls b := by
  have halternates := alternates_of_denotes h .done
  rw [List.append_nil] at halternates
  exact denotes_of_alternates (alternates_of_fusePlaced hzero hls halternates)

/-! ### Texts -/

/-- The lexemes of a text with their places, before fusing. -/
def writtenUnfused (s : String) : List Placed :=
  placed 0 (lexemes s.toList)

theorem written_eq (s : String) : written s = fusePlaced true (writtenUnfused s) :=
  placed_fuse 0 fun _ hl _ => chars_ne_nil_of_mem_lexemes hl

/-- The lexemes of a text are no complex numerals, and none is empty. -/
theorem isSimple_of_mem_writtenUnfused {s : String} {l : Placed} (h : l ∈ writtenUnfused s) :
    l.lexeme.IsSimple ∧ l.lexeme.chars ≠ [] :=
  ⟨isSimple_of_mem_lexemes (mem_placed h).1, chars_ne_nil_of_mem_lexemes (mem_placed h).1⟩

theorem tokenizeUnfused_eq (s : String) :
    tokenizeUnfused s = tokensAfter none (writtenUnfused s) :=
  (tokensAfter_placed _ _ _).symm

/-- A text that is parsed without fusing is derived without fusing. -/
theorem denotes_of_parseUnfused {s : String} {a : Expr (Complex R)} (h : parseUnfused s = .ok a) :
    Denotes .expr (writtenUnfused s) a := by
  unfold parseUnfused at h
  rw [tokenizeUnfused_eq] at h
  refine denotes_of_parseTokens (fun l hl => ?_) h
  exact ⟨isTidy_lexemes (mem_placed hl).1, (mem_placed hl).2⟩

/-- A text that is derived without fusing is parsed without fusing. -/
theorem parseUnfused_of_denotes {s : String} {a : Expr (Complex R)}
    (h : Denotes .expr (writtenUnfused s) a) : parseUnfused s = .ok a := by
  unfold parseUnfused
  rw [tokenizeUnfused_eq]
  exact parseTokens_of_denotes h

/-- Fusing puts together numerals of the tree that a text is parsed as without it. -/
theorem exists_parse_of_parseUnfused {s : String} {b : Expr (Complex R)}
    (h : parseUnfused s = .ok b) : ∃ a, parse s = .ok a ∧ Fuses b a := by
  obtain ⟨a, ha, hfuses⟩ := denotes_fusePlaced (denotes_of_parseUnfused h)
    fun l hl => (isSimple_of_mem_writtenUnfused hl).1
  rw [← written_eq] at ha
  exact ⟨a, parse_of_denotes ha, hfuses⟩

/-- Fusing lets no text be parsed that is not parsed without it. -/
theorem exists_parseUnfused_of_parse (hzero : RealArith.isFinite (0 : R) = true) {s : String}
    {a : Expr (Complex R)} (h : parse s = .ok a) :
    ∃ b : Expr (Complex R), parseUnfused s = .ok b := by
  have ha := denotes_of_parse h
  rw [written_eq] at ha
  obtain ⟨b, hb⟩ := exists_denotes_of_fusePlaced hzero
    (fun l hl => isSimple_of_mem_writtenUnfused hl) ha
  exact ⟨b, parseUnfused_of_denotes hb⟩

end Formulary

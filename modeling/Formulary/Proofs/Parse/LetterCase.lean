import Formulary.Binary64.Arith
import Formulary.Proofs.Grammar.LetterCase
import Formulary.Proofs.Parse.Spelling

/-!
# Letter case in formulas

The conversion to a post-order looks at the kinds of tokens, the reader of trees also at the texts
of names and numbers, and the values of numerals do not depend on case. So the trees of texts that
differ in case are the same, and so are their errors, but that the report of a bad number quotes it
as written.

* `literalValue?_foldText`: exponent marks and imaginary units of either case.
* `postOrder_map`: the conversion of tokens whose texts are changed.
* `takeTree_caseless`: the tree of tokens without case.
* `ParseError.unquoted`: the error without the text that it quotes.
* **`parse_of_foldText`**: the whole text.
-/

namespace Formulary

open Text

universe u

/-! ### Numbers -/

/-- Digits are no letters. -/
theorem foldCase_of_isDigit {c : Char} (h : isDigit c = true) : Builtin.foldCase c = c := by
  refine if_neg fun hc => ?_
  have hnine : c.toNat ≤ 57 := of_decide_eq_true (Bool.and_eq_true_iff.1 h).2
  have hcapital : 65 ≤ c.toNat := hc.1
  omega

theorem foldText_of_digits {cs : List Char} (h : cs.all isDigit = true) : foldText cs = cs :=
  (List.map_congr_left fun c hc => foldCase_of_isDigit (List.all_eq_true.1 h c hc)).trans
    (List.map_id cs)

theorem foldText_takeWhile_isDigit (cs : List Char) :
    foldText (cs.takeWhile isDigit) = cs.takeWhile isDigit :=
  foldText_of_digits List.all_takeWhile

theorem isEmpty_foldText (cs : List Char) : (foldText cs).isEmpty = cs.isEmpty :=
  List.isEmpty_map

namespace Decimal

theorem exponentDigits?_foldText (cs : List Char) :
    exponentDigits? (foldText cs) = exponentDigits? cs := by
  unfold exponentDigits?
  rw [all_foldText isDigit_foldCase, isEmpty_foldText]
  split
  · next h => rw [foldText_of_digits (Bool.and_eq_true_iff.1 h).2]
  · rfl

/-- Without a sign the whole rest is read as digits. -/
theorem exponentValue?_of_ne {m c : Char} (s : List Char) (hminus : c ≠ '-') (hplus : c ≠ '+') :
    exponentValue? (m :: c :: s) =
      if isExponentMark m then (exponentDigits? (c :: s)).bind fun n => some (n : Int)
      else none := by
  unfold exponentValue?
  dsimp only
  split
  · next hm =>
    rw [if_pos (show isExponentMark m = true from hm)]
    split
    · next heq => exact absurd (List.cons.inj heq).1 hminus
    · next heq => exact absurd (List.cons.inj heq).1 hplus
    · cases exponentDigits? (c :: s) <;> rfl
  · next hm => rw [if_neg (show ¬isExponentMark m = true from hm)]

theorem exponentValue?_foldText (s : List Char) :
    exponentValue? (foldText s) = exponentValue? s := by
  cases s with
  | nil => rfl
  | cons m s =>
    have hmark :
        (Builtin.foldCase m == 'e' || Builtin.foldCase m == 'E') = (m == 'e' || m == 'E') :=
      isExponentMark_foldCase m
    cases s with
    | nil =>
      show exponentValue? [Builtin.foldCase m] = _
      simp only [exponentValue?, hmark]
    | cons c s =>
      by_cases hminus : c = '-'
      · subst hminus
        show exponentValue? (Builtin.foldCase m :: '-' :: foldText s) = _
        simp only [exponentValue?, hmark, exponentDigits?_foldText]
      · by_cases hplus : c = '+'
        · subst hplus
          show exponentValue? (Builtin.foldCase m :: '+' :: foldText s) = _
          simp only [exponentValue?, hmark, exponentDigits?_foldText]
        · have hdigits := exponentDigits?_foldText (c :: s)
          show exponentValue? (Builtin.foldCase m :: Builtin.foldCase c :: foldText s) = _
          rw [exponentValue?_of_ne s hminus hplus, exponentValue?_of_ne, isExponentMark_foldCase,
            ← hdigits]
          · rfl
          · rwa [← beq_eq_false_iff_ne, foldCase_beq (by decide), beq_eq_false_iff_ne]
          · rwa [← beq_eq_false_iff_ne, foldCase_beq (by decide), beq_eq_false_iff_ne]

/-- Only a point is folded to a point. -/
theorem exists_of_foldText_eq_point {s t : List Char} (h : foldText s = '.' :: t) :
    ∃ r, s = '.' :: r := by
  cases s with
  | nil => cases h
  | cons c s =>
    have hc : (Builtin.foldCase c == '.') = true := beq_iff_eq.2 (List.cons.inj h).1
    rw [foldCase_beq (by decide), beq_iff_eq] at hc
    exact ⟨s, by rw [hc]⟩

/-- The case of an exponent mark does not count. -/
theorem ofNumeral?_foldText (s : List Char) : ofNumeral? (foldText s) = ofNumeral? s := by
  have hdigits : (foldText s).takeWhile isDigit = s.takeWhile isDigit := by
    rw [takeWhile_foldText isDigit_foldCase, foldText_takeWhile_isDigit]
  have hrest := dropWhile_foldText isDigit_foldCase s
  by_cases hpoint : ∃ t, s.dropWhile isDigit = '.' :: t
  · obtain ⟨t, ht⟩ := hpoint
    rw [ht] at hrest
    rw [ofNumeral?_of_point ht, ofNumeral?_of_point (t := foldText t) hrest, hdigits,
      takeWhile_foldText isDigit_foldCase, dropWhile_foldText isDigit_foldCase,
      foldText_takeWhile_isDigit, exponentValue?_foldText]
  · have hno : ∀ t, s.dropWhile isDigit ≠ '.' :: t := fun t ht => hpoint ⟨t, ht⟩
    have hno' : ∀ t, (foldText s).dropWhile isDigit ≠ '.' :: t := by
      intro t ht
      rw [hrest] at ht
      obtain ⟨r, hr⟩ := exists_of_foldText_eq_point ht
      exact hno r hr
    rw [ofNumeral?_of_no_point hno, ofNumeral?_of_no_point hno', hdigits, hrest,
      exponentValue?_foldText]

end Decimal

theorem splitSumAfter_foldText (before : Char) (cs : List Char) :
    splitSumAfter (Builtin.foldCase before) (foldText cs) =
      (splitSumAfter before cs).map (Prod.map foldText foldText) := by
  induction cs generalizing before with
  | nil => rfl
  | cons c cs ih =>
    show splitSumAfter _ (Builtin.foldCase c :: foldText cs) = _
    rw [splitSumAfter, splitSumAfter, isExponentMark_foldCase, foldCase_beq (by decide), ih]
    split
    · rfl
    · cases splitSumAfter c cs <;> rfl

theorem splitSum_foldText (cs : List Char) :
    splitSum (foldText cs) = (splitSum cs).map (Prod.map foldText foldText) := by
  cases cs with
  | nil => rfl
  | cons c cs =>
    show (splitSumAfter (Builtin.foldCase c) (foldText cs)).map _ = _
    rw [splitSumAfter_foldText, splitSum]
    cases splitSumAfter c cs <;> rfl

section Values

variable {R : Type u} [RealArith R]

theorem realValue?_foldText (cs : List Char) :
    (realValue? (foldText cs) : Option R) = realValue? cs := by
  unfold realValue?
  rw [Decimal.ofNumeral?_foldText]

theorem imaginaryValue?_foldText (body : List Char) :
    (imaginaryValue? (foldText body) : Option (Complex R)) = imaginaryValue? body := by
  unfold imaginaryValue?
  rw [isEmpty_foldText, splitSum_foldText, realValue?_foldText]
  cases splitSum body with
  | none => rfl
  | some parts =>
    simp only [Option.map_some, Prod.map, realValue?_foldText, isEmpty_foldText]

/-- The value of a number does not depend on the case of its exponent mark and its imaginary
unit. -/
theorem literalValue?_foldText (cs : List Char) :
    (literalValue? (foldText cs) : Option (Complex R)) = literalValue? cs := by
  have hlast : (foldText cs).dropLast = foldText cs.dropLast := List.map_dropLast.symm
  unfold literalValue?
  rw [any_isUnit_getLast?_foldText, hlast, imaginaryValue?_foldText, realValue?_foldText]

end Values

/-! ### Post-orders -/

section Conversion

variable {f : Token → Token} (hkind : ∀ t, (f t).kind = t.kind)
  (hstart : ∀ t, (f t).start = t.start)

/-- All tokens of the conversion changed. -/
def Waiting.map (f : Token → Token) (w : Waiting) : Waiting :=
  ⟨w.output.map f, w.stack.map f⟩

namespace Waiting

theorem releaseWhile_map {p : Token → Bool} (hp : ∀ t, p (f t) = p t) (w : Waiting) :
    (w.map f).releaseWhile p = (w.releaseWhile p).map f := by
  have hcomp : p ∘ f = p := funext hp
  simp only [releaseWhile, Waiting.map, List.takeWhile_map, List.dropWhile_map, hcomp,
    List.map_append, List.map_reverse]

include hkind

theorem isOperator_eq (op : Operator) (t : Token) : (f t).isOperator op = t.isOperator op :=
  congrArg (· == _) (hkind t)

theorem isApply_eq (t : Token) : (f t).isApply = t.isApply := by
  unfold Token.isApply
  rw [hkind]

theorem yieldsTo_eq (op : Operator) (t : Token) : (f t).yieldsTo op = t.yieldsTo op := by
  unfold Token.yieldsTo Token.operator?
  rw [hkind]

theorem releaseApply_map (w : Waiting) : (w.map f).releaseApply = w.releaseApply.map f := by
  obtain ⟨output, stack⟩ := w
  cases stack with
  | nil => rfl
  | cons t ts =>
    show (if (f t).isApply then _ else _) = Waiting.map f (if t.isApply then _ else _)
    rw [isApply_eq hkind]
    split <;> rfl

theorem close_map (w : Waiting) (position : Nat) :
    (w.map f).close position = (w.close position).map (Waiting.map f) := by
  have hopen : ∀ t, (!(f t).isOperator .openParen) = !t.isOperator .openParen :=
    fun t => congrArg not (isOperator_eq hkind .openParen t)
  unfold close
  rw [releaseWhile_map hopen]
  cases hstack : (w.releaseWhile (!·.isOperator .openParen)).stack with
  | nil => simp [Waiting.map, hstack, Except.map]
  | cons t ts =>
    simp only [Waiting.map, hstack, List.map_cons]
    exact congrArg Except.ok (releaseApply_map hkind ⟨_, ts⟩)

include hstart

/-- One token is placed alike whatever its text is. -/
theorem place_map (w : Waiting) (t : Token) :
    (w.map f).place (f t) = (w.place t).map (Waiting.map f) := by
  unfold place
  rw [hkind, hstart]
  split
  · rfl
  · rfl
  · rfl
  · rfl
  · rfl
  · exact close_map hkind w t.start
  · rw [releaseWhile_map (yieldsTo_eq hkind _)]
    rfl
  · rfl
  · rfl
  · rfl

theorem finish_map (w : Waiting) : (w.map f).finish = w.finish.map (List.map f) := by
  unfold finish
  have hfind : (w.map f).stack.find? (·.isOperator .openParen) =
      (w.stack.find? (·.isOperator .openParen)).map f := by
    have hcomp : (fun t : Token => t.isOperator .openParen) ∘ f = (·.isOperator .openParen) :=
      funext (isOperator_eq hkind .openParen)
    show (w.stack.map f).find? _ = _
    rw [List.find?_map, hcomp]
  rw [hfind]
  cases w.stack.find? (·.isOperator .openParen) with
  | some t =>
    show Except.error (ParseError.mismatchedOpen (f t).start) = _
    rw [hstart]
    rfl
  | none => simp [Waiting.map, Except.map]

end Waiting

include hkind hstart

theorem postOrderFrom_map (errors : List ParseError) (w : Waiting) (ts : List Token) :
    postOrderFrom errors (w.map f) (ts.map f) = (postOrderFrom errors w ts).map (List.map f) := by
  induction ts generalizing errors w with
  | nil =>
    rw [List.map_nil, postOrderFrom, postOrderFrom, Waiting.finish_map hkind hstart]
    cases w.finish with
    | error e => rfl
    | ok out =>
      show (if errors.isEmpty then _ else _) = Except.map _ (if errors.isEmpty then _ else _)
      split <;> rfl
  | cons t ts ih =>
    rw [List.map_cons, postOrderFrom, postOrderFrom, hkind, hstart, Waiting.place_map hkind hstart]
    split
    · exact ih _ w
    · cases w.place t with
      | error e => rfl
      | ok w => exact ih _ w

/-- The conversion looks at the kinds and the places of the tokens only. -/
theorem postOrder_map (ts : List Token) :
    postOrder (ts.map f) = (postOrder ts).map (List.map f) :=
  postOrderFrom_map hkind hstart [] .start ts

end Conversion

/-! ### Trees -/

/-- The error without the text that it quotes. -/
def ParseError.unquoted : ParseError → ParseError
  | badNumber _ p => badNumber "" p
  | e => e

/-- Tokens alike but for case have the same kind. -/
theorem kind_of_caseless {t u : Token} (h : t.caseless = u.caseless) : t.kind = u.kind := by
  rw [← kind_caseless t, h, kind_caseless]

theorem start_of_caseless {t u : Token} (h : t.caseless = u.caseless) : t.start = u.start := by
  rw [← start_caseless t, h, start_caseless]

/-- Names alike but for case are the same. -/
theorem text_of_caseless {t u : Token} (h : t.caseless = u.caseless) (hname : t.kind = .name) :
    t.text = u.text := by
  have hname' : u.kind = .name := (kind_of_caseless h).symm.trans hname
  unfold Token.caseless at h
  rw [if_pos hname, if_pos hname'] at h
  rw [h]

/-- Other tokens alike but for case have texts alike but for case. -/
theorem foldText_text_of_caseless {t u : Token} (h : t.caseless = u.caseless)
    (hname : t.kind ≠ .name) : foldText t.text.toList = foldText u.text.toList := by
  have hname' : u.kind ≠ .name := (kind_of_caseless h).symm ▸ hname
  unfold Token.caseless at h
  rw [if_neg hname, if_neg hname'] at h
  exact String.ofList_injective (congrArg Token.text h)

section Reading

variable {R : Type u} [RealArith R]

/-- Two readings of a numeral that differ in what the error quotes. -/
theorem readNumber_of_foldText {text text' : String}
    (h : foldText text.toList = foldText text'.toList) (p : Nat) :
    (readNumber text p : Except ParseError (Complex R)).mapError ParseError.unquoted =
      (readNumber text' p).mapError ParseError.unquoted := by
  have hvalue : (literalValue? text.toList : Option (Complex R)) = literalValue? text'.toList := by
    rw [← literalValue?_foldText, h, literalValue?_foldText]
  unfold readNumber
  rw [hvalue]
  split
  · split <;> rfl
  · rfl

/-- Two readings took the same tree and left rests alike but for case, or failed with errors alike
but for what they quote. -/
inductive TakenAlike {K : Type u} {ts us : List Token} :
    Except ParseError (Expr K × { rest : List Token // rest.length < ts.length }) →
    Except ParseError (Expr K × { rest : List Token // rest.length < us.length }) → Prop where
  | ok {a : Expr K} {rest : List Token} {rest' : List Token} (hlt : rest.length < ts.length)
    (hlt' : rest'.length < us.length) (h : rest.map Token.caseless = rest'.map Token.caseless) :
    TakenAlike (.ok (a, ⟨rest, hlt⟩)) (.ok (a, ⟨rest', hlt'⟩))
  | error {e e' : ParseError} (h : e.unquoted = e'.unquoted) : TakenAlike (.error e) (.error e')

/-- From tokens alike but for case the reader takes the same tree. -/
theorem takeTree_caseless (missing : ParseError) {ts us : List Token}
    (h : ts.map Token.caseless = us.map Token.caseless) :
    TakenAlike (takeTree (R := R) missing ts) (takeTree missing us) := by
  -- on the number of tokens: the left operand is read from what the right one has left over
  induction hn : ts.length using Nat.strongRecOn generalizing missing ts us with
  | ind n ih =>
    match ts, us, h with
    | [], [], _ =>
      rw [takeTree]
      exact .error rfl
    | t :: ts, u :: us, h =>
      obtain ⟨ht, hts⟩ := List.cons.inj h
      have hlen : ts.length < n := by rw [← hn]; exact Nat.lt_succ_self _
      have hoperand := ih _ hlen (.noOperands t.start) hts rfl
      rw [takeTree, takeTree, ← kind_of_caseless ht, ← start_of_caseless ht]
      split
      · next hk =>
        have hname : t.kind ≠ .name := by simp [hk]
        have hread := readNumber_of_foldText (R := R) (foldText_text_of_caseless ht hname) t.start
        cases hv : (readNumber t.text t.start : Except ParseError (Complex R)) <;>
          cases hv' : (readNumber u.text t.start : Except ParseError (Complex R)) <;>
          rw [hv, hv'] at hread
        · exact .error (Except.error.inj hread)
        · cases hread
        · cases hread
        · cases Except.ok.inj hread
          exact .ok _ _ hts
      · next hk =>
        rw [text_of_caseless ht hk]
        exact .ok _ _ hts
      -- a function, then a negation: one operand
      · generalize takeTree (R := R) (.noOperands t.start) ts = r at hoperand
        generalize takeTree (R := R) (.noOperands t.start) us = r' at hoperand
        cases hoperand with
        | ok _ _ hrest => exact .ok _ _ hrest
        | error he => exact .error he
      · generalize takeTree (R := R) (.noOperands t.start) ts = r at hoperand
        generalize takeTree (R := R) (.noOperands t.start) us = r' at hoperand
        cases hoperand with
        | ok _ _ hrest => exact .ok _ _ hrest
        | error he => exact .error he
      -- an operator of two operands, or a parenthesis that has none
      · split
        · exact .error rfl
        · generalize takeTree (R := R) (.noOperands t.start) ts = r at hoperand
          generalize takeTree (R := R) (.noOperands t.start) us = r' at hoperand
          cases hoperand with
          | error he => exact .error he
          | @ok b rest rest' hlt hlt' hrest =>
            have hleft := ih _ (Nat.lt_trans hlt hlen) (.noOperands t.start) hrest rfl
            dsimp only
            generalize takeTree (R := R) (.noOperands t.start) rest = q at hleft
            generalize takeTree (R := R) (.noOperands t.start) rest' = q' at hleft
            cases hleft with
            | ok _ _ hrest' => exact .ok _ _ hrest'
            | error he => exact .error he
      -- no token of a tree
      · exact .error rfl
      · exact .error rfl
      · exact .error rfl

/-- Post-orders alike but for case have the same tree. -/
theorem ofPostOrder_caseless {ts us : List Token}
    (h : ts.map Token.caseless = us.map Token.caseless) :
    (ofPostOrder (R := R) ts).mapError ParseError.unquoted =
      (ofPostOrder us).mapError ParseError.unquoted := by
  have hreverse : ts.reverse.map Token.caseless = us.reverse.map Token.caseless := by
    rw [List.map_reverse, h, List.map_reverse]
  have htaken := takeTree_caseless (R := R) .empty hreverse
  unfold ofPostOrder
  generalize takeTree (R := R) .empty ts.reverse = r at htaken
  generalize takeTree (R := R) .empty us.reverse = r' at htaken
  cases htaken with
  | error he => exact congrArg Except.error he
  | @ok a rest rest' _ _ hrest =>
    match rest, rest', hrest with
    | [], [], _ => rfl
    | t :: _, u :: _, hrest =>
      show Except.error (ParseError.unparsed t.start) = Except.error (ParseError.unparsed u.start)
      rw [start_of_caseless (List.cons.inj hrest).1]

/-- Tokens alike but for case have the same tree or the same errors. -/
theorem parseTokens_caseless {ts us : List Token}
    (h : ts.map Token.caseless = us.map Token.caseless) :
    (parseTokens (R := R) ts).mapError (·.map ParseError.unquoted) =
      (parseTokens us).mapError (·.map ParseError.unquoted) := by
  have horder : (postOrder ts).map (List.map Token.caseless) =
      (postOrder us).map (List.map Token.caseless) := by
    rw [← postOrder_map kind_caseless start_caseless, h, postOrder_map kind_caseless start_caseless]
  have hsingle (r : Except ParseError (Expr (Complex R))) :
      (r.mapError fun e => [e]).mapError (·.map ParseError.unquoted) =
        (r.mapError ParseError.unquoted).mapError fun e => [e] := by
    cases r <;> rfl
  unfold parseTokens
  cases hts : postOrder ts with
  | error es =>
    cases hus : postOrder us with
    | error es' =>
      rw [hts, hus] at horder
      rw [show es = es' from Except.error.inj horder]
    | ok out' =>
      rw [hts, hus] at horder
      cases horder
  | ok out =>
    cases hus : postOrder us with
    | error es' =>
      rw [hts, hus] at horder
      cases horder
    | ok out' =>
      rw [hts, hus] at horder
      dsimp only
      rw [hsingle, hsingle, ofPostOrder_caseless (Except.ok.inj horder)]

/-- Texts that differ in the case of Latin letters have the same tree, with the same places, or the
same errors at the same places. -/
theorem parse_of_foldText {s t : String} (h : foldText s.toList = foldText t.toList) :
    (parse s : Except (List ParseError) (Expr (Complex R))).mapError (·.map ParseError.unquoted) =
      (parse t).mapError (·.map ParseError.unquoted) :=
  parseTokens_caseless (tokenize_caseless h)

end Reading

/-- A formula in capitals: an exponent mark, a function, the argument and the imaginary unit. -/
theorem parse_of_foldText_capitals :
    foldText "2E5 SIN X+3I".toList = foldText "2e5 sin x+3i".toList ∧
      (parse "2E5 SIN X+3I" : Except (List ParseError) (Expr (Complex Double))).mapError
          (·.map ParseError.unquoted) =
        (parse "2e5 sin x+3i").mapError (·.map ParseError.unquoted) :=
  ⟨by decide, parse_of_foldText (by decide)⟩

end Formulary

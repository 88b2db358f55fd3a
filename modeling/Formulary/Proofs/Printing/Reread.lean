import Formulary.Proofs.Expr.Positions
import Formulary.Proofs.Expr.Sums
import Formulary.Proofs.Grammar.Numerals
import Formulary.Proofs.Printing.Printed

/-!
# What printed lexemes denote

Printed lexemes derive from the grammar. The tree they denote is the printed one but for its
numbers: a negative number comes back as a negation, a number with two parts as a sum or difference.

* `Expr.reread`: the tree with its numbers taken apart.
* `Expr.phrase`: the phrase a printed tree derives from; `rank_le_of_needsParens` says that an
  operand without parentheses derives from the phrase its operator asks for.
* `Phrase.Prints`: wherever the lexemes stand they derive from the phrase and denote the tree, places
  apart.
* **`prints_printed`**: a printed tree denotes the reread one.
* **`eval_reread`**: taking numbers apart changes no value and no error.
-/

namespace Formulary

open RealArith

universe u

variable {R : Type u} [RealArith R]

/-! ### Numbers taken apart -/

/-- The part as it is read: a negative one is a negation. -/
def Part.reread (part : Part) (r : R) : Expr (Complex R) :=
  if lt r 0 then .neg (.number (part.value (-r))) else .number (part.value r)

/-- The number as it is read. -/
def rereadNumber (v : Complex R) : Expr (Complex R) :=
  if v.im == 0 then Part.real.reread v.re
  else if v.re == 0 then Part.imaginary.reread v.im
  else if lt v.im 0 then .minus (Part.real.reread v.re) (.number (Part.imaginary.value (-v.im)))
  else .plus (Part.real.reread v.re) (.number (Part.imaginary.value v.im))

namespace Expr

/-- The tree with its numbers as they are read. -/
def reread : Expr (Complex R) → Expr (Complex R)
  | number v => rereadNumber v
  | argument => argument
  | named name p => named name p
  | neg a => neg a.reread
  | binary op a b p => binary op a.reread b.reread p
  | call f a p => call f a.reread p

end Expr

/-! ### Phrases -/

/-- How much a phrase takes in. -/
def Phrase.rank : Phrase → Nat
  | .primary => 0
  | .unary => 1
  | .power => 2
  | .term => 3
  | .expr => 4

/-- The phrase that the operator makes of its operands. -/
def BinaryOp.phrase : BinaryOp → Phrase
  | add | sub => .expr
  | mul | div => .term
  | pow => .power

/-- The phrase that the operator asks of an operand. -/
def BinaryOp.operandPhrase : BinaryOp → Bool → Phrase
  | add, true | sub, true => .expr
  | add, false | sub, false => .term
  | mul, true | div, true => .term
  | mul, false | div, false => .power
  | pow, true => .unary
  | pow, false => .power

/-- The phrase that the lexemes of the tree derive from. -/
def Expr.phrase : Expr (Complex R) → Phrase
  | .number v => if isMinusNumber v then .unary else .primary
  | .argument | .named _ _ => .primary
  | .neg _ | .call _ _ _ => .unary
  | .binary op _ _ _ => op.phrase

/-- What derives from a phrase derives from every larger one. -/
theorem Denotes.widen {φ ψ : Phrase} {ls : List Placed} {a : Expr (Complex R)}
    (h : Denotes φ ls a) (hle : φ.rank ≤ ψ.rank) : Denotes ψ ls a := by
  have hunary (hφ : φ.rank ≤ 1) : Denotes .unary ls a := by
    cases φ with
    | primary => exact .ofPrimary h
    | unary => exact h
    | _ => exact absurd hφ (by decide)
  have hpower (hφ : φ.rank ≤ 2) : Denotes .power ls a := by
    cases φ with
    | power => exact h
    | primary => exact .ofUnary (hunary (by decide))
    | unary => exact .ofUnary (hunary (by decide))
    | _ => exact absurd hφ (by decide)
  have hterm (hφ : φ.rank ≤ 3) : Denotes .term ls a := by
    cases φ with
    | term => exact h
    | expr => exact absurd hφ (by decide)
    | _ => exact .ofPower (hpower (by decide))
  cases ψ with
  | primary =>
    cases φ with
    | primary => exact h
    | _ => exact absurd hle (by decide)
  | unary => exact hunary hle
  | power => exact hpower hle
  | term => exact hterm hle
  | expr =>
    cases φ with
    | expr => exact h
    | _ => exact .ofTerm (hterm (by decide))

/-- An operand that goes without parentheses derives from the phrase that its operator asks for. -/
theorem rank_le_of_needsParens {op : BinaryOp} {isLeft : Bool} {a : Expr (Complex R)}
    (h : Expr.needsParens op isLeft a = false) :
    a.phrase.rank ≤ (op.operandPhrase isLeft).rank := by
  have hunary : ∀ op isLeft, 1 ≤ (BinaryOp.operandPhrase op isLeft).rank := by
    intro op isLeft
    cases op <;> cases isLeft <;> decide
  have hbinary : ∀ op op' isLeft, (if BinaryOp.precedence op' = BinaryOp.precedence op then
      isLeft == op.isRightAssoc else decide (op'.precedence < op.precedence)) = false →
      op'.phrase.rank ≤ (op.operandPhrase isLeft).rank := by
    intro op op' isLeft
    cases op <;> cases op' <;> cases isLeft <;> decide
  cases a with
  | binary op' a b p => exact hbinary op op' isLeft h
  | number v =>
    refine Nat.le_trans ?_ (hunary op isLeft)
    show (if isMinusNumber v then Phrase.unary else Phrase.primary).rank ≤ 1
    cases isMinusNumber v <;> decide
  | argument => exact Nat.zero_le _
  | named name p => exact Nat.zero_le _
  | neg a => exact hunary op isLeft
  | call f a p => exact hunary op isLeft

theorem rank_phrase_le (a : Expr (Complex R)) : a.phrase.rank ≤ Phrase.expr.rank := by
  cases h : a.phrase <;> decide

/-! ### What lexemes print -/

/-- Wherever they stand the lexemes derive from the phrase, and they denote the tree but for
places. -/
def Phrase.Prints (φ : Phrase) (ls : List Lexeme) (a : Expr (Complex R)) : Prop :=
  ∀ pos, ∃ b, Denotes φ (placed pos ls) b ∧ b.unplaced = a.unplaced

namespace Phrase.Prints

variable {φ ψ χ : Phrase} {ls rs : List Lexeme} {a b : Expr (Complex R)}

theorem widen (h : φ.Prints ls a) (hle : φ.rank ≤ ψ.rank) : ψ.Prints ls a := by
  intro pos
  obtain ⟨b, hb, heq⟩ := h pos
  exact ⟨b, hb.widen hle, heq⟩

theorem enclosed (h : Phrase.expr.Prints ls a) : Phrase.primary.Prints (Formulary.enclosed ls) a := by
  intro pos
  unfold Formulary.enclosed
  rw [placed_cons pos _ rfl, placed_append]
  obtain ⟨b, hb, heq⟩ := h (pos + byteLength ['('])
  exact ⟨b, .group rfl rfl hb, heq⟩

theorem neg (h : Phrase.unary.Prints ls a) : Phrase.unary.Prints (⟨.sign, ['-']⟩ :: ls) (.neg a) := by
  intro pos
  rw [placed_cons pos _ rfl]
  obtain ⟨b, hb, heq⟩ := h (pos + byteLength ['-'])
  exact ⟨.neg b, .neg rfl hb, congrArg Expr.neg heq⟩

theorem call {f : Builtin} (hexp : f ≠ .exp) (hln : f ≠ .ln) (p : Position)
    (h : Phrase.unary.Prints ls a) :
    Phrase.unary.Prints (⟨.word, f.name.toList⟩ :: ls) (.call f a p) := by
  intro pos
  rw [placed_cons pos _ rfl]
  obtain ⟨b, hb, heq⟩ := h (pos + byteLength f.name.toList)
  refine ⟨.call f b (some pos), .call (function?_name f pos) hexp hln hb, ?_⟩
  show Expr.call f b.unplaced none = _
  rw [heq]
  rfl

/-- Two operands with the sign of their operator between them. -/
theorem binary (op : BinaryOp) (p : Position) (ha : (op.operandPhrase true).Prints ls a)
    (hb : (op.operandPhrase false).Prints rs b) :
    op.phrase.Prints (ls ++ ⟨.sign, [op.sign]⟩ :: rs) (.binary op a b p) := by
  have hop {ls rs : List Placed} {l : Placed} {a b : Expr (Complex R)}
      (hl : l.isSign op.sign = true) (ha : Denotes (op.operandPhrase true) ls a)
      (hb : Denotes (op.operandPhrase false) rs b) :
      Denotes op.phrase (ls ++ l :: rs) (.binary op a b (some l.start)) := by
    cases op with
    | add => exact .summand hl rfl ha hb
    | sub => exact .summand hl rfl ha hb
    | mul => exact .factor hl rfl ha hb
    | div => exact .factor hl rfl ha hb
    | pow => exact .pow hl ha hb
  intro pos
  rw [placed_append, placed_cons _ _ rfl]
  obtain ⟨a', ha', hequa⟩ := ha pos
  obtain ⟨b', hb', hequb⟩ := hb (pos + byteLength (ls.flatMap Lexeme.chars) + byteLength [op.sign])
  have hsign : Placed.isSign ⟨⟨.sign, [op.sign]⟩, pos + byteLength (ls.flatMap Lexeme.chars)⟩ op.sign
      = true := by
    cases op <;> rfl
  refine ⟨_, hop hsign ha' hb', ?_⟩
  show Expr.binary op a'.unplaced b'.unplaced none = _
  rw [hequa, hequb]
  rfl

end Phrase.Prints

/-- An operand derives from the phrase its operator asks for, if need be in parentheses. -/
theorem prints_printedOperand {a b : Expr (Complex R)} {ls : List Lexeme} (op : BinaryOp)
    (isLeft : Bool) (h : a.phrase.Prints ls b) :
    (op.operandPhrase isLeft).Prints (Expr.printedOperand op isLeft a ls) b := by
  unfold Expr.printedOperand
  cases hparens : Expr.needsParens op isLeft a with
  | true =>
    rw [if_pos rfl]
    exact ((h.widen (rank_phrase_le a)).enclosed).widen (Nat.zero_le _)
  | false =>
    rw [if_neg Bool.false_ne_true]
    exact h.widen (rank_le_of_needsParens hparens)

/-! ### Numbers -/

/-- A plain numeral is digits and points. -/
theorem chars_of_isPlainNumeral {cs : List Char} (h : isPlainNumeral cs = true) :
    cs ≠ [] ∧ ∀ c ∈ cs, Text.isDigit c = true ∨ c = '.' := by
  obtain ⟨d, ds, fs, rfl, hds, hfs⟩ := exists_of_isPlainNumeral h
  refine ⟨List.cons_ne_nil _ _, fun c hc => ?_⟩
  rcases List.mem_append.1 hc with hc | hc
  · exact .inl (hds c hc)
  · rcases hfs with rfl | ⟨e, es, rfl, hes⟩
    · cases hc
    · rcases List.mem_cons.1 hc with rfl | hc
      · exact .inr rfl
      · exact .inl (hes c hc)

/-- None of its characters is a letter or a sign. -/
theorem ne_of_isPlainNumeral {cs : List Char} (h : isPlainNumeral cs = true) {c : Char}
    (hc : c ∈ cs) {d : Char} (hd : Text.isDigit d = false) (hdot : d ≠ '.') : c ≠ d := by
  rintro rfl
  rcases (chars_of_isPlainNumeral h).2 c hc with hdigit | hpoint
  · rw [hd] at hdigit
    exact Bool.false_ne_true hdigit
  · exact hdot hpoint

theorem getLast?_of_isPlainNumeral {cs : List Char} (h : isPlainNumeral cs = true) :
    cs.getLast?.any isUnit = false := by
  cases hlast : cs.getLast? with
  | none => rfl
  | some c =>
    have hc := List.mem_of_getLast? hlast
    have hne {d : Char} (hd : Text.isDigit d = false) (hdot : d ≠ '.') : (c == d) = false :=
      beq_false_of_ne (ne_of_isPlainNumeral h hc hd hdot)
    show (c == 'i' || c == 'I') = false
    rw [hne (by decide) (by decide), hne (by decide) (by decide)]
    rfl

theorem not_mem_of_isPlainNumeral {cs : List Char} (h : isPlainNumeral cs = true) : '+' ∉ cs :=
  fun hmem => ne_of_isPlainNumeral h hmem (by decide) (by decide) rfl

namespace Part

variable (part : Part) {r : R}

/-- The numeral of a legible part has the part as its value. -/
theorem literalValue?_numeral (h : Legible r) :
    literalValue? (part.numeral r).chars = some (part.value r) := by
  obtain ⟨hplain, hvalue⟩ := h
  cases part with
  | real =>
    show literalValue? ((text r).toList ++ []) = some (.ofReal r)
    rw [List.append_nil, literalValue?, getLast?_of_isPlainNumeral hplain,
      if_neg Bool.false_ne_true, hvalue]
    rfl
  | imaginary =>
    show literalValue? ((text r).toList ++ ['i']) = some ⟨0, r⟩
    have hlast : ((text r).toList ++ ['i']).getLast?.any isUnit = true := by
      rw [List.getLast?_append]
      rfl
    have hne : (text r).toList.isEmpty = false := by
      rw [Bool.eq_false_iff]
      exact fun hempty => (chars_of_isPlainNumeral hplain).1 (List.isEmpty_iff.1 hempty)
    rw [literalValue?, if_pos hlast, List.dropLast_concat, imaginaryValue?, hne,
      if_neg Bool.false_ne_true, (unsplit_of_not_mem (not_mem_of_isPlainNumeral hplain)).splitSum]
    show (realValue? (text r).toList).map _ = _
    rw [hvalue]
    rfl

theorem prints_numeral (h : Legible r) (hfin : (part.value r).isFinite = true) :
    Phrase.primary.Prints [part.numeral r] (.number (part.value r)) := by
  intro pos
  rw [placed_cons pos _ rfl]
  refine ⟨.number (part.value r), .number rfl (readNumber_eq_ok_iff.2 ⟨?_, hfin⟩), rfl⟩
  rw [text_of_numeral rfl]
  exact part.literalValue?_numeral h

variable [ZeroLaws R]

theorem isFinite_value_iff : (part.value r).isFinite = true ↔ RealArith.isFinite r = true := by
  have hzero : RealArith.isFinite (0 : R) = true := SignLaws.isFinite_ofNat 0 (by omega)
  cases part with
  | real =>
    rw [Complex.isFinite_iff]
    exact and_iff_left hzero
  | imaginary =>
    rw [Complex.isFinite_iff]
    exact and_iff_right hzero

theorem isFinite_value_neg (h : RealArith.isFinite r = true) :
    (part.value (-r)).isFinite = true :=
  part.isFinite_value_iff.2 ((SignLaws.isFinite_neg r).trans h)

/-- A part with its sign is a numeral or the negation of one. -/
theorem prints_printed (h : Legible (magnitude r)) (hfin : RealArith.isFinite r = true) :
    Phrase.Prints (if lt r 0 then .unary else .primary) (part.printed r) (part.reread r) := by
  unfold Part.printed Part.reread
  cases hlt : lt r 0 with
  | true =>
    rw [if_pos rfl, if_pos rfl, if_pos rfl]
    exact ((part.prints_numeral (legible_of_lt h hlt) (part.isFinite_value_neg hfin)).widen
      (by decide)).neg
  | false =>
    rw [if_neg Bool.false_ne_true, if_neg Bool.false_ne_true, if_neg Bool.false_ne_true]
    rw [magnitude_of_not_lt hlt] at h
    exact part.prints_numeral h (part.isFinite_value_iff.2 hfin)

end Part

/-! ### Trees -/

section Trees

variable [ZeroLaws R]

/-- A printed number denotes the number as it is read. -/
theorem prints_printedNumber {v : Complex R} (hfin : v.isFinite = true) (h : v.Legible) :
    Phrase.Prints (if isMinusNumber v then .unary else .primary) (printedNumber v)
      (rereadNumber v) := by
  obtain ⟨hre, him⟩ := Complex.isFinite_iff.1 hfin
  have hreal := Part.real.prints_printed h.1 hre
  have himaginary := Part.imaginary.prints_printed h.2 him
  -- the first of two parts is an operand on the left
  have hleft : Phrase.expr.Prints (Part.real.printed v.re) (Part.real.reread v.re) :=
    hreal.widen (by cases lt v.re 0 <;> decide)
  unfold printedNumber rereadNumber isMinusNumber
  cases him0 : v.im == 0 with
  | true =>
    have hlt : lt v.im 0 = false := by
      have hne := SignLaws.lt_zero_and_beq_zero v.im
      rwa [him0, Bool.and_true] at hne
    rw [if_pos rfl, if_pos rfl, hlt, Bool.true_and, Bool.and_false, Bool.or_false]
    exact hreal
  | false =>
    rw [if_neg Bool.false_ne_true, if_neg Bool.false_ne_true, Bool.false_and, Bool.false_or]
    cases hre0 : v.re == 0 with
    | true =>
      rw [if_pos rfl, if_pos rfl, Bool.true_and]
      exact himaginary
    | false =>
      rw [if_neg Bool.false_ne_true, if_neg Bool.false_ne_true, Bool.false_and,
        if_neg Bool.false_ne_true]
      cases hlt : lt v.im 0 with
      | true =>
        rw [if_pos rfl, if_pos rfl]
        have hright := Part.imaginary.prints_numeral (Part.legible_of_lt h.2 hlt)
          (Part.imaginary.isFinite_value_neg him)
        exact (Phrase.Prints.binary .sub none hleft (hright.widen (by decide))).enclosed
      | false =>
        rw [if_neg Bool.false_ne_true, if_neg Bool.false_ne_true]
        have hsize := h.2
        rw [magnitude_of_not_lt hlt] at hsize
        have hright := Part.imaginary.prints_numeral hsize (Part.imaginary.isFinite_value_iff.2 him)
        exact (Phrase.Prints.binary .add none hleft (hright.widen (by decide))).enclosed

/-- A printed tree denotes the tree with its numbers as they are read. -/
theorem prints_printed {a : Expr (Complex R)} (h : a.LeavesHold printableLeaves) :
    a.phrase.Prints a.printed a.reread := by
  induction a with
  | number v => exact prints_printedNumber h.1 h.2.2
  | argument =>
    intro pos
    have hname : Placed.isName ⟨⟨.word, argumentName.toList⟩, pos⟩ = true :=
      isName_of_lower (by decide +kernel) (by decide) (by decide +kernel) pos
    have htext := text_of_isLower (show Text.lower argumentName.toList = _ by decide +kernel) pos
    exact ⟨.argument, .argument hname htext, rfl⟩
  | named name p =>
    intro pos
    have htext := text_of_isLower h.isLower pos
    have hne : Placed.text ⟨⟨.word, name.toList⟩, pos⟩ ≠ argumentName := htext.symm ▸ h.ne_argument
    refine ⟨_, .name (isName_of_isPlainName h pos) hne, ?_⟩
    rw [htext]
    rfl
  | neg a ih =>
    have hih := ih h
    unfold Expr.printed
    split
    · exact (hih.widen (rank_phrase_le a)).enclosed.widen (by decide) |>.neg
    · next hbinary =>
      refine (hih.widen ?_).neg
      cases a with
      | number v =>
        show (if isMinusNumber v then Phrase.unary else Phrase.primary).rank ≤ 1
        cases isMinusNumber v <;> decide
      | argument => exact Nat.zero_le _
      | named name p => exact Nat.zero_le _
      | neg a => exact Nat.le_refl _
      | binary op a b p => exact absurd rfl hbinary
      | call f a p => exact Nat.le_refl _
  | binary op a b p iha ihb =>
    exact .binary op p (prints_printedOperand op true (iha h.1))
      (prints_printedOperand op false (ihb h.2))
  | call f a p ih =>
    have hoperand := ((ih h.2).widen (rank_phrase_le a)).enclosed
    exact (hoperand.widen (by decide)).call h.1.1 h.1.2 p

/-! ### Values -/

/-- The negation of zero, kept, is zero. -/
theorem neg_zero_add_zero : (-0 + 0 : R) = 0 := by
  have hzero : ((0 : R) == 0) = true := SignLaws.beq_self _ (SignLaws.isFinite_ofNat 0 (by omega))
  refine ZeroLaws.eq_zero _ ?_ (ZeroLaws.isMinusZero_add_zero _)
  rw [kept_beq, SignLaws.beq_neg_zero]
  exact hzero

/-- The opposite of the negated part is the part. -/
theorem Part.opposite_value_neg (part : Part) {r : R} (hfin : RealArith.isFinite r = true)
    (h : isMinusZero r = false) :
    Arith.normalize (-(part.value (-r) : Complex R)) = part.value r := by
  cases part with
  | real =>
    show (⟨-(-r) + 0, -0 + 0⟩ : Complex R) = ⟨r, 0⟩
    rw [SignLaws.neg_neg, ZeroLaws.add_zero r hfin h, neg_zero_add_zero]
  | imaginary =>
    show (⟨-0 + 0, -(-r) + 0⟩ : Complex R) = ⟨0, r⟩
    rw [SignLaws.neg_neg, ZeroLaws.add_zero r hfin h, neg_zero_add_zero]

variable (x : Complex R) (vars : Vars (Complex R)) (mode : EvalMode)

theorem Part.eval_reread (part : Part) {r : R} (hfin : RealArith.isFinite r = true)
    (h : isMinusZero r = false) : (part.reread r).eval x vars mode = .ok (part.value r) := by
  unfold Part.reread
  split
  · show Except.ok (Arith.normalize (-(part.value (-r) : Complex R))) = _
    rw [part.opposite_value_neg hfin h]
  · rfl

/-- A number with a negative imaginary part is the kept difference of its parts. -/
theorem normalize_ofReal_sub {v : Complex R} (hfin : v.isFinite = true)
    (h : v.noMinusZero = true) (hlt : lt v.im 0 = true) :
    Arith.normalize (Complex.ofReal v.re - (Part.imaginary.value (-v.im) : Complex R)) = v := by
  obtain ⟨hre, him⟩ := Complex.isFinite_iff.1 hfin
  obtain ⟨hre', him'⟩ := Complex.noMinusZero_iff.1 h
  have hpos : lt 0 (-v.im) = true := by
    rw [← SignLaws.neg_lt_zero, SignLaws.neg_neg]
    exact hlt
  show (⟨v.re - 0 + 0, 0 - -v.im + 0⟩ : Complex R) = v
  rw [ZeroLaws.sub_zero _ hre hre', ZeroLaws.add_zero _ hre hre',
    ZeroLaws.zero_sub _ ((SignLaws.isFinite_neg _).trans him) hpos, SignLaws.neg_neg,
    ZeroLaws.add_zero _ him him']

theorem eval_rereadNumber {v : Complex R} (hfin : v.isFinite = true)
    (h : v.noMinusZero = true) : (rereadNumber v).eval x vars mode = .ok v := by
  obtain ⟨hre, him⟩ := Complex.isFinite_iff.1 hfin
  obtain ⟨hre', him'⟩ := Complex.noMinusZero_iff.1 h
  have hreal := Part.real.eval_reread x vars mode hre hre'
  unfold rereadNumber
  split
  · next him0 =>
    rw [hreal]
    exact congrArg (fun i => Except.ok (⟨v.re, i⟩ : Complex R)) (ZeroLaws.eq_zero _ him0 him').symm
  · split
    · next hre0 =>
      rw [Part.imaginary.eval_reread x vars mode him him']
      exact congrArg (fun r => Except.ok (⟨r, v.im⟩ : Complex R)) (ZeroLaws.eq_zero _ hre0 hre').symm
    · split
      · next hlt =>
        simp only [Expr.minus, Expr.eval, hreal]
        refine (if_neg fun h => BinaryOp.noConfusion h.1).trans ?_
        exact congrArg Except.ok (normalize_ofReal_sub hfin h hlt)
      · simp only [Expr.plus, Expr.eval, hreal]
        rw [Expr.evalBinary_add]
        have hzero : isMinusZero (0 : R) = false := ZeroLaws.isMinusZero_ofDecimal _
        exact congrArg Except.ok (Expr.normalize_ofReal_add (Part.real.isFinite_value_iff.2 hre)
          (Complex.noMinusZero_iff.2 ⟨hre', hzero⟩) (Part.imaginary.isFinite_value_iff.2 him)
          (Complex.noMinusZero_iff.2 ⟨hzero, him'⟩))

/-- Taking the numbers of a tree apart changes no value and no error. -/
theorem eval_reread {a : Expr (Complex R)} (h : a.LeavesHold plainLeaves) :
    a.reread.eval x vars mode = a.eval x vars mode := by
  induction a with
  | number v => exact eval_rereadNumber x vars mode h.1 h.2
  | argument => rfl
  | named name p => rfl
  | neg a ih =>
    simp only [Expr.reread, Expr.eval]
    rw [ih h]
  | binary op a b p iha ihb =>
    simp only [Expr.reread, Expr.eval]
    rw [iha h.1, ihb h.2]
  | call f a p ih =>
    simp only [Expr.reread, Expr.eval]
    rw [ih h.2]

end Trees

end Formulary

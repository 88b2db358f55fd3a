import Formulary.Proofs.Printing.RoundTrip

/-!
# Pairs of parentheses that a tree needs

A pair of parentheses that does not enclose the operand of a function is there to group. A tree is
printed with as few such pairs as there are in any lexemes that denote it.

* `Expr.pairs`: the number of operands in a tree that need parentheses.
* `groups called ls`: the number of grouping pairs that are opened in lexemes.
* **`groupsEnough_of_denotes`**: lexemes that denote a tree group at least as often as the tree
  needs. An operand that the phrase of its place does not take in (`Phrase.lack`) costs a pair.
* `groups_printed`: a printed tree has the pairs that it needs and no more.
* `pairs_of_beq`: equal trees need the same pairs.
-/

namespace Formulary

open RealArith

universe u

variable {R : Type u} [RealArith R]

/-- The function that a word names. -/
def Lexeme.function? (l : Lexeme) : Option Builtin :=
  if l.cls == .word then Builtin.named? l.text else none

/-- The number of grouping parentheses that are opened; `called` says that a function stands before
the lexemes. -/
def groups (called : Bool) : List Lexeme → Nat
  | [] => 0
  | l :: ls => (if l.isSign '(' && !called then 1 else 0) + groups l.function?.isSome ls

/-- A function stands before what follows the lexemes. -/
def endsCalled (called : Bool) : List Lexeme → Bool
  | [] => called
  | l :: ls => endsCalled l.function?.isSome ls

/-- The number of operands that need parentheses. -/
def Expr.pairs : Expr (Complex R) → Nat
  | number _ | argument | named _ _ => 0
  | neg a => a.pairs + if a.isBinary then 1 else 0
  | binary op a b _ => a.pairs + (if needsParens op true a then 1 else 0) +
      (b.pairs + if needsParens op false b then 1 else 0)
  | call _ a _ => a.pairs

/-- Finite real numbers without a minus sign, plain names, and functions that are read as such. -/
def plainReals : LeafProperty (Complex R) where
  number v := v.isFinite = true ∧ v.noMinusZero = true ∧ (v.im == 0) = true ∧ lt v.re 0 = false
  name n := IsPlainName n
  function f := f ≠ .exp ∧ f ≠ .ln

/-- Numbers that are written without a minus sign in front. -/
def plusLeaves : LeafProperty (Complex R) where
  number v := isMinusNumber v = false
  name _ := True
  function _ := True

/-! ### Lists of lexemes -/

theorem function?_of_isSign {l : Lexeme} {c : Char} (h : l.isSign c = true) :
    l.function? = none := by
  obtain ⟨hcls, -⟩ := Bool.and_eq_true_iff.1 h
  unfold Lexeme.function?
  rw [eq_of_beq hcls]
  rfl

theorem isSign_eq_false {l : Lexeme} {c d : Char} (h : l.isSign c = true) (hne : c ≠ d) :
    l.isSign d = false := by
  rw [Bool.eq_false_iff]
  intro hd
  have heq := (eq_of_beq (Bool.and_eq_true_iff.1 h).2).symm.trans
    (eq_of_beq (Bool.and_eq_true_iff.1 hd).2)
  exact hne (List.cons.inj heq).1

theorem groups_append (called : Bool) (xs ys : List Lexeme) :
    groups called (xs ++ ys) = groups called xs + groups (endsCalled called xs) ys := by
  induction xs generalizing called with
  | nil => exact (Nat.zero_add _).symm
  | cons l xs ih => rw [List.cons_append, groups, ih, groups, endsCalled, Nat.add_assoc]

theorem endsCalled_append (called : Bool) (xs ys : List Lexeme) :
    endsCalled called (xs ++ ys) = endsCalled (endsCalled called xs) ys := by
  induction xs generalizing called with
  | nil => rfl
  | cons l xs ih => exact ih _

/-- A sign other than a parenthesis starts afresh. -/
theorem groups_sign {l : Lexeme} {c : Char} (hl : l.isSign c = true) (hc : c ≠ '(') (called : Bool)
    (ls : List Lexeme) : groups called (l :: ls) = groups false ls := by
  rw [groups, isSign_eq_false hl hc, function?_of_isSign hl, Bool.false_and,
    if_neg Bool.false_ne_true, Nat.zero_add]
  rfl

/-- What follows an opening parenthesis starts afresh, and the parenthesis groups unless a function
stands before it. -/
theorem groups_open {l : Lexeme} (hl : l.isSign '(' = true) (called : Bool) (ls : List Lexeme) :
    groups called (l :: ls) = (if called then 0 else 1) + groups false ls := by
  rw [groups, hl, function?_of_isSign hl]
  cases called <;> rfl

/-- After a function there is no group. -/
theorem groups_function {l : Lexeme} (hl : l.function?.isSome = true) (called : Bool)
    (ls : List Lexeme) : groups called (l :: ls) = groups true ls := by
  have hopen : l.isSign '(' = false := by
    rw [Bool.eq_false_iff]
    intro hsign
    rw [function?_of_isSign hsign] at hl
    cases hl
  rw [groups, hopen, Bool.false_and, if_neg Bool.false_ne_true, Nat.zero_add, hl]

/-- Lexemes in parentheses. -/
theorem groups_group {o c : Lexeme} (ho : o.isSign '(' = true) (hc : c.isSign ')' = true)
    (called : Bool) (ls : List Lexeme) :
    groups called (o :: (ls ++ [c])) = (if called then 0 else 1) + groups false ls := by
  rw [groups_open ho, groups_append, groups_sign hc (by decide)]
  rfl

/-! ### Lexemes that denote a tree -/

/-- What the phrase lacks to take in the tree. -/
def Phrase.lack (φ : Phrase) (a : Expr (Complex R)) : Nat :=
  if φ.rank < a.phrase.rank then 1 else 0

theorem Phrase.lack_mono {φ ψ : Phrase} {a : Expr (Complex R)} (h : φ.rank ≤ ψ.rank) :
    ψ.lack a ≤ φ.lack a := by
  unfold lack
  split
  · next hlt => rw [if_pos (Nat.lt_of_le_of_lt h hlt)]
  · exact Nat.zero_le _

/-- An operand that needs parentheses does not derive from the phrase that its operator asks for. -/
theorem rank_lt_of_needsParens {op : BinaryOp} {isLeft : Bool} {a : Expr (Complex R)}
    (h : Expr.needsParens op isLeft a = true) :
    (op.operandPhrase isLeft).rank < a.phrase.rank := by
  have hbinary : ∀ op op' isLeft, (if BinaryOp.precedence op' = BinaryOp.precedence op then
      isLeft == op.isRightAssoc else decide (op'.precedence < op.precedence)) = true →
      (op.operandPhrase isLeft).rank < op'.phrase.rank := by
    intro op op' isLeft
    cases op <;> cases op' <;> cases isLeft <;> decide
  -- only operators bind as loosely as operators
  have hnone : ∀ op isLeft n, Operator.neg.precedence ≤ n →
      (if n = BinaryOp.precedence op then isLeft == op.isRightAssoc
        else decide (n < op.precedence)) = false := by
    intro op isLeft n hn
    have hlt : op.precedence < Operator.neg.precedence := by cases op <;> decide
    rw [if_neg (by omega), decide_eq_false (by omega)]
  cases a with
  | binary op' a b p => exact hbinary op op' isLeft h
  | number v =>
    have hle : Operator.neg.precedence ≤ (Expr.number v).binding := by
      show _ ≤ if isMinusNumber v then Operator.neg.precedence else Expr.atomBinding
      cases isMinusNumber v <;> decide
    exact absurd ((hnone op isLeft _ hle).symm.trans h) Bool.false_ne_true
  | neg a => exact absurd ((hnone op isLeft _ (Nat.le_refl _)).symm.trans h) Bool.false_ne_true
  | _ =>
    exact absurd ((hnone op isLeft Expr.atomBinding (by decide)).symm.trans h) Bool.false_ne_true

theorem lack_operandPhrase (op : BinaryOp) (isLeft : Bool) (a : Expr (Complex R)) :
    (op.operandPhrase isLeft).lack a = if Expr.needsParens op isLeft a then 1 else 0 := by
  unfold Phrase.lack
  cases h : Expr.needsParens op isLeft a with
  | false => rw [if_neg (Nat.not_lt.2 (rank_le_of_needsParens h)), if_neg Bool.false_ne_true]
  | true => rw [if_pos (rank_lt_of_needsParens h), if_pos rfl]

/-- A sum, a product or a power is no operand of a minus sign. -/
theorem lack_unary (a : Expr (Complex R)) :
    Phrase.unary.lack a = if a.isBinary then 1 else 0 := by
  unfold Phrase.lack
  cases a with
  | binary op a b p => cases op <;> rfl
  | number v =>
    show (if 1 < (if isMinusNumber v then Phrase.unary else Phrase.primary).rank then 1 else 0) = 0
    cases isMinusNumber v <;> rfl
  | _ => rfl

/-- Only what is to be applied is a function. -/
theorem function?_of_kind {l : Placed} {k : TokenKind} (hk : l.lexeme.kind none = k)
    (h : ∀ f, k ≠ .operator (.apply f)) : l.lexeme.function? = none := by
  cases hf : l.lexeme.function? with
  | none => rfl
  | some f => exact absurd (hk.symm.trans (kind_of_function? none (l := l) hf)) (h f)

theorem function?_of_isNumber {l : Placed} (h : l.isNumber = true) : l.lexeme.function? = none :=
  function?_of_kind (kind_of_isNumber none h) fun _ => TokenKind.noConfusion

theorem function?_of_isName {l : Placed} (h : l.isName = true) : l.lexeme.function? = none :=
  function?_of_kind (kind_of_isName none h) fun _ => TokenKind.noConfusion

/-- A function stands at the end of no phrase. -/
theorem endsCalled_of_denotes {φ : Phrase} {ls : List Placed} {a : Expr (Complex R)}
    (h : Denotes φ ls a) (called : Bool) : endsCalled called (ls.map Placed.lexeme) = false := by
  induction h generalizing called with
  | number hl hv => exact congrArg Option.isSome (function?_of_isNumber hl)
  | argument hl hx => exact congrArg Option.isSome (function?_of_isName hl)
  | name hl hx => exact congrArg Option.isSome (function?_of_isName hl)
  | @group o c ls a ho hc ha ih =>
    rw [List.map_cons, List.map_append, endsCalled, endsCalled_append]
    exact congrArg Option.isSome (function?_of_isSign hc)
  | ofPrimary ha ih => exact ih called
  | ofUnary ha ih => exact ih called
  | ofPower ha ih => exact ih called
  | ofTerm ha ih => exact ih called
  | neg hl ha ih => exact ih _
  | exponential hl ha ih => exact ih _
  | logarithm hl ha ih => exact ih _
  | call hl hexp hln ha ih => exact ih _
  | pow hl ha hb iha ihb =>
    rw [List.map_append, endsCalled_append]
    exact ihb _
  | factor hl hop ha hb iha ihb =>
    rw [List.map_append, endsCalled_append]
    exact ihb _
  | juxtaposed hl ha hb iha ihb =>
    rw [List.map_append, endsCalled_append]
    exact ihb _
  | summand hl hop ha hb iha ihb =>
    rw [List.map_append, endsCalled_append]
    exact ihb _

/-- The numbers of a text are written without a minus sign. -/
theorem isMinusNumber_of_readNumber [ZeroLaws R] {text : String} {p : Nat} {v : Complex R}
    (h : readNumber text p = .ok v) : isMinusNumber v = false := by
  obtain ⟨d, e, rfl⟩ := exists_ofDecimal h
  unfold isMinusNumber
  rw [ZeroLaws.lt_ofDecimal_zero, ZeroLaws.lt_ofDecimal_zero, Bool.and_false, Bool.and_false]
  rfl

/-- The lexemes group as often as the tree needs, once more if the phrase lacks it; after a function
the parentheses around its operand come for free. -/
def GroupsEnough (φ : Phrase) (ls : List Placed) (a : Expr (Complex R)) : Prop :=
  a.pairs + φ.lack a ≤ groups false (ls.map Placed.lexeme) ∧
    (φ.rank ≤ Phrase.unary.rank → a.pairs ≤ groups true (ls.map Placed.lexeme))

namespace GroupsEnough

variable {φ ψ : Phrase} {ls rs zs : List Placed} {a b : Expr (Complex R)}

theorem widen (h : GroupsEnough φ ls a) (hle : φ.rank ≤ ψ.rank) : GroupsEnough ψ ls a :=
  ⟨Nat.le_trans (Nat.add_le_add_left (Phrase.lack_mono hle) _) h.1,
    fun hψ => h.2 (Nat.le_trans hle hψ)⟩

/-- The operands of an operator next to each other, or with a sign between them. -/
theorem binary (op : BinaryOp) (p : Position)
    (hzs : groups false (zs.map Placed.lexeme) =
      groups false (ls.map Placed.lexeme) + groups false (rs.map Placed.lexeme))
    (ha : GroupsEnough (op.operandPhrase true) ls a)
    (hb : GroupsEnough (op.operandPhrase false) rs b) :
    GroupsEnough op.phrase zs (.binary op a b p) := by
  refine ⟨?_, fun hrank => absurd hrank (by cases op <;> decide)⟩
  have hlack : op.phrase.lack (.binary op a b p) = 0 := if_neg (Nat.lt_irrefl op.phrase.rank)
  rw [hlack, hzs, Nat.add_zero, Expr.pairs, ← lack_operandPhrase, ← lack_operandPhrase]
  exact Nat.add_le_add ha.1 hb.1

/-- One of the signs of the operators. -/
theorem signed (op : BinaryOp) {l : Placed} {c : Char} (p : Position) (hl : l.isSign c = true)
    (hc : c ≠ '(') (ha : GroupsEnough (op.operandPhrase true) ls a)
    (hb : GroupsEnough (op.operandPhrase false) rs b) :
    GroupsEnough op.phrase (ls ++ l :: rs) (.binary op a b p) := by
  refine .binary op p ?_ ha hb
  rw [List.map_append, groups_append, List.map_cons, groups_sign hl hc]

/-- A function takes the parentheses around its operand. -/
theorem call {f : Builtin} {l : Placed} {p : Position} (hl : l.function?.isSome = true)
    (h : GroupsEnough .unary ls a) : GroupsEnough .unary (l :: ls) (.call f a p) := by
  unfold GroupsEnough
  rw [List.map_cons, groups_function hl, groups_function hl]
  exact ⟨h.2 (Nat.le_refl _), h.2⟩

end GroupsEnough

/-- **Lexemes that denote a tree group at least as often as the tree needs.** -/
theorem groupsEnough_of_denotes [ZeroLaws R] {φ : Phrase} {ls : List Placed}
    {a : Expr (Complex R)} (h : Denotes φ ls a) (hexp : ∀ l ∈ ls, l.function? ≠ some .exp) :
    GroupsEnough φ ls a := by
  induction h with
  | @number l v hl hv =>
    have hlack : Phrase.primary.lack (.number v) = 0 := by
      show (if 0 < (if isMinusNumber v then Phrase.unary else Phrase.primary).rank then 1 else 0) = 0
      rw [isMinusNumber_of_readNumber hv]
      rfl
    unfold GroupsEnough
    rw [hlack]
    exact ⟨Nat.zero_le _, fun _ => Nat.zero_le _⟩
  | argument hl hx => exact ⟨Nat.zero_le _, fun _ => Nat.zero_le _⟩
  | name hl hx => exact ⟨Nat.zero_le _, fun _ => Nat.zero_le _⟩
  | @group o c ls a ho hc ha ih =>
    have hle := (ih fun l h => hexp l (List.mem_cons_of_mem _ (List.mem_append_left _ h))).1
    have hpairs := Nat.le_trans (Nat.le_add_right _ _) hle
    have hlack : Phrase.primary.lack a ≤ 1 := by unfold Phrase.lack; split <;> decide
    unfold GroupsEnough
    rw [List.map_cons, List.map_append, List.map_singleton, groups_group ho hc, groups_group ho hc]
    exact ⟨by rw [if_neg Bool.false_ne_true]; omega, fun _ => by rw [if_pos rfl]; omega⟩
  | ofPrimary ha ih => exact (ih hexp).widen (by decide)
  | ofUnary ha ih => exact (ih hexp).widen (by decide)
  | ofPower ha ih => exact (ih hexp).widen (by decide)
  | ofTerm ha ih => exact (ih hexp).widen (by decide)
  | @neg l ls a hl ha ih =>
    have hle := (ih fun l h => hexp l (List.mem_cons_of_mem _ h)).1
    rw [lack_unary] at hle
    unfold GroupsEnough
    rw [List.map_cons, groups_sign hl (by decide), groups_sign hl (by decide)]
    exact ⟨hle, fun _ => hle⟩
  | exponential hl ha ih => exact absurd hl (hexp _ List.mem_cons_self)
  | logarithm hl ha ih =>
    exact .call (hl ▸ rfl) (ih fun l h => hexp l (List.mem_cons_of_mem _ h))
  | call hl _ _ ha ih =>
    exact .call (hl ▸ rfl) (ih fun l h => hexp l (List.mem_cons_of_mem _ h))
  | @pow l ls rs a b hl ha hb iha ihb =>
    exact .signed .pow _ hl (by decide) (iha fun l h => hexp l (List.mem_append_left _ h))
      (ihb fun l h => hexp l (List.mem_append_right _ (List.mem_cons_of_mem _ h)))
  | @factor l c op ls rs a b hl hop ha hb iha ihb =>
    have ha' := iha fun l h => hexp l (List.mem_append_left _ h)
    have hb' := ihb fun l h => hexp l (List.mem_append_right _ (List.mem_cons_of_mem _ h))
    have hc : c ≠ '(' := by rintro rfl; cases hop
    rcases joins_term hop with rfl | rfl
    · exact .signed .mul _ hl hc ha' hb'
    · exact .signed .div _ hl hc ha' hb'
  | @juxtaposed l ls rs a b hl ha hb iha ihb =>
    refine .binary .mul _ ?_ (iha fun l h => hexp l (List.mem_append_left _ h))
      (ihb fun l h => hexp l (List.mem_append_right _ h))
    rw [List.map_append, groups_append, endsCalled_of_denotes ha]
  | @summand l c op ls rs a b hl hop ha hb iha ihb =>
    have ha' := iha fun l h => hexp l (List.mem_append_left _ h)
    have hb' := ihb fun l h => hexp l (List.mem_append_right _ (List.mem_cons_of_mem _ h))
    have hc : c ≠ '(' := by rintro rfl; cases hop
    rcases joins_expr hop with rfl | rfl
    · exact .signed .add _ hl hc ha' hb'
    · exact .signed .sub _ hl hc ha' hb'

/-! ### Printed trees -/

theorem groups_enclosed (called : Bool) (ls : List Lexeme) :
    groups called (enclosed ls) = (if called then 0 else 1) + groups false ls :=
  groups_group rfl rfl called ls

theorem groups_printedOperand (op : BinaryOp) (isLeft : Bool) (a : Expr (Complex R))
    (ls : List Lexeme) : groups false (Expr.printedOperand op isLeft a ls) =
      groups false ls + if Expr.needsParens op isLeft a then 1 else 0 := by
  unfold Expr.printedOperand
  split
  · rw [groups_enclosed]
    exact Nat.add_comm _ _
  · exact (Nat.add_zero _).symm

theorem groups_printedNumber {v : Complex R} (h : (v.im == 0) = true) :
    groups false (printedNumber v) = 0 := by
  unfold printedNumber Part.printed
  rw [if_pos h]
  split <;> rfl

/-- A plain name is no function. -/
theorem function?_of_isPlainName {n : String} (h : IsPlainName n) :
    Lexeme.function? ⟨.word, n.toList⟩ = none :=
  function?_of_isName (l := ⟨⟨.word, n.toList⟩, 0⟩) (isName_of_isPlainName h 0)

/-- A printed tree has the pairs that it needs and no more. -/
theorem groups_printed {a : Expr (Complex R)} (h : a.LeavesHold plainReals) :
    groups false a.printed = a.pairs := by
  induction a with
  | number v => exact groups_printedNumber h.2.2.1
  | argument => rfl
  | named n p => rfl
  | neg a ih =>
    rw [Expr.printed, groups_sign (c := '-') rfl (by decide), Expr.pairs]
    split
    · rw [groups_enclosed, ih h]
      exact Nat.add_comm _ _
    · exact ih h
  | binary op a b p iha ihb =>
    have hsign : op.sign ≠ '(' := by cases op <;> decide
    have hop : Lexeme.isSign ⟨.sign, [op.sign]⟩ op.sign = true := beq_self_eq_true _
    rw [Expr.printed, groups_append, groups_sign hop hsign, groups_printedOperand,
      groups_printedOperand, iha h.1, ihb h.2, Expr.pairs]
  | call f a p ih =>
    have hf : Lexeme.function? ⟨.word, f.name.toList⟩ = some f := function?_name f 0
    rw [Expr.printed, groups_function (hf ▸ rfl), groups_enclosed, ih h.2]
    exact Nat.zero_add _

/-! ### Equal trees -/

theorem binding_of_beq {a b : Expr (Complex R)} (ha : a.LeavesHold plusLeaves)
    (hb : b.LeavesHold plusLeaves) (h : Expr.beq a b = true) : a.binding = b.binding := by
  cases a <;> cases b <;> first | rfl | cases h | skip
  · next v w =>
    have hv : isMinusNumber v = false := ha
    have hw : isMinusNumber w = false := hb
    rw [Expr.binding, hv, Expr.binding, hw]
  · next op a₁ a₂ p op' b₁ b₂ q =>
    obtain ⟨h, -⟩ := Bool.and_eq_true_iff.1 h
    obtain ⟨h, -⟩ := Bool.and_eq_true_iff.1 h
    rw [Expr.binding, Expr.binding, eq_of_beq h]

/-- Equal trees need the same pairs. -/
theorem pairs_of_beq {a b : Expr (Complex R)} (ha : a.LeavesHold plusLeaves)
    (hb : b.LeavesHold plusLeaves) (h : Expr.beq a b = true) : a.pairs = b.pairs := by
  induction a generalizing b with
  | neg a ih =>
    cases b with
    | neg b =>
      have hbinary : a.isBinary = b.isBinary := by
        revert h
        cases a <;> cases b <;> first | exact fun _ => rfl | exact fun h => nomatch h
      rw [Expr.pairs, Expr.pairs, ih (b := b) ha hb h, hbinary]
    | _ => cases h
  | binary op a₁ a₂ p ih₁ ih₂ =>
    cases b with
    | binary op' b₁ b₂ q =>
      obtain ⟨h, h₂⟩ := Bool.and_eq_true_iff.1 h
      obtain ⟨hop, h₁⟩ := Bool.and_eq_true_iff.1 h
      obtain rfl := eq_of_beq hop
      have hparens (isLeft : Bool) {c d : Expr (Complex R)} (hbinding : c.binding = d.binding) :
          Expr.needsParens op isLeft c = Expr.needsParens op isLeft d := by
        unfold Expr.needsParens
        rw [hbinding]
      rw [Expr.pairs, Expr.pairs, ih₁ ha.1 hb.1 h₁, ih₂ ha.2 hb.2 h₂,
        hparens true (binding_of_beq ha.1 hb.1 h₁), hparens false (binding_of_beq ha.2 hb.2 h₂)]
    | _ => cases h
  | call f a p ih =>
    cases b with
    | call g b q => exact ih (b := b) ha.2 hb.2 (Bool.and_eq_true_iff.1 h).2
    | _ => cases h
  | _ => cases b <;> first | rfl | cases h

end Formulary

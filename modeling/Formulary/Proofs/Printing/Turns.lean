import Formulary.Proofs.Arithmetic.TextLaws
import Formulary.Proofs.Printing.Pairs

/-!
# Printed lexemes take turns

In a printed formula operands and operators take turns, no operand stands right after another, and
every function is followed by a parenthesis. What may come next depends on the last lexeme only, so
lexemes that are cut out at the right places leave others that take turns.

* `Turn`: what may come next. `Turn.after` is what may come after a lexeme.
* `turns t ls`: the lexemes take turns from `t` on.
* `turns_printed`: the lexemes of a tree do.
* `nesting d s`: the parentheses that are open at the end of a text.
* `readsBack_of_turns`: lexemes that take turns fall into themselves when they are read.
* **`alternates_of_turns`**: with balanced parentheses they are derived from the grammar.
-/

namespace Formulary

open RealArith

universe u

variable {R : Type u} [RealArith R]

/-- What may come next in a printed formula. -/
inductive Turn where
  | operand
  /-- The parenthesis around the operand of a function. -/
  | parenthesis
  | operator
  deriving DecidableEq, Repr

/-- What may come after the lexeme, if the lexeme may come. -/
def Turn.after (l : Lexeme) : Turn → Option Turn
  | operand =>
    if l.isSign '(' || l.isSign '-' then some operand
    else if l.cls == .sign then none
    else if l.function?.isSome then some parenthesis else some operator
  | parenthesis => if l.isSign '(' then some operand else none
  | operator =>
    if l.isSign ')' then some operator
    else if ['+', '-', '*', '/', '^'].any l.isSign then some operand else none

/-- What may come after all lexemes. -/
def turns (t : Turn) : List Lexeme → Option Turn
  | [] => some t
  | l :: ls => (t.after l).bind fun t' => turns t' ls

theorem turns_append (t : Turn) (xs ys : List Lexeme) :
    turns t (xs ++ ys) = (turns t xs).bind fun t' => turns t' ys := by
  induction xs generalizing t with
  | nil => rfl
  | cons l xs ih =>
    rw [List.cons_append, turns, turns]
    cases t.after l with
    | none => rfl
    | some t' => exact ih t'

/-- Lexemes in parentheses stand for an operand. -/
theorem turns_enclosed {ls : List Lexeme} (h : turns .operand ls = some .operator) {t : Turn}
    (ht : t ≠ .operator) : turns t (enclosed ls) = some .operator := by
  have hopen : t.after ⟨.sign, ['(']⟩ = some .operand := by
    cases t with
    | operand => rfl
    | parenthesis => rfl
    | operator => exact absurd rfl ht
  unfold enclosed
  rw [turns, hopen, Option.bind_some, turns_append, h]
  rfl

theorem turns_printedOperand {ls : List Lexeme} (h : turns .operand ls = some .operator)
    (op : BinaryOp) (isLeft : Bool) (a : Expr (Complex R)) :
    turns .operand (Expr.printedOperand op isLeft a ls) = some .operator := by
  unfold Expr.printedOperand
  split
  · exact turns_enclosed h (by decide)
  · exact h

theorem turns_printedNumber {v : Complex R} (h : (v.im == 0) = true) :
    turns .operand (printedNumber v) = some .operator := by
  unfold printedNumber Part.printed
  rw [if_pos h]
  split <;> rfl

/-- What may come after a word. -/
theorem after_word (cs : List Char) : Turn.operand.after ⟨.word, cs⟩ =
    if (Lexeme.function? ⟨.word, cs⟩).isSome then some .parenthesis else some .operator := by
  have hsign (c : Char) : Lexeme.isSign ⟨.word, cs⟩ c = false := rfl
  have hcls : (LexemeClass.word == .sign) = false := rfl
  rw [Turn.after, hsign, hsign, Bool.or_false, if_neg Bool.false_ne_true, hcls,
    if_neg Bool.false_ne_true]

theorem turns_word {cs : List Char} (h : Lexeme.function? ⟨.word, cs⟩ = none) :
    turns .operand [⟨.word, cs⟩] = some .operator := by
  rw [turns, after_word, h]
  rfl

/-- The argument is no function. -/
theorem function?_argument : Lexeme.function? ⟨.word, argumentName.toList⟩ = none := by
  decide +kernel

/-- The lexemes of a tree take turns. -/
theorem turns_printed {a : Expr (Complex R)} (h : a.LeavesHold plainReals) :
    turns .operand a.printed = some .operator := by
  induction a with
  | number v => exact turns_printedNumber h.2.2.1
  | argument => exact turns_word function?_argument
  | named n p => exact turns_word (function?_of_isPlainName h)
  | neg a ih =>
    rw [Expr.printed]
    show turns .operand _ = _
    split
    · exact turns_enclosed (t := .operand) (ih h) (by decide)
    · exact ih h
  | binary op a b p iha ihb =>
    have hop : Turn.operator.after ⟨.sign, [op.sign]⟩ = some .operand := by cases op <;> rfl
    rw [Expr.printed, turns_append, turns_printedOperand (iha h.1), Option.bind_some, turns, hop,
      Option.bind_some, turns_printedOperand (ihb h.2)]
  | call f a p ih =>
    have hf : Lexeme.function? ⟨.word, f.name.toList⟩ = some f := function?_name f 0
    rw [Expr.printed, turns, after_word, hf, Option.isSome_some, if_pos rfl, Option.bind_some]
    exact turns_enclosed (ih h.2) (by decide)

/-! ### Nesting -/

/-- The parentheses that are open after a character if `d` are before it; none if it closes one that
is not open. -/
def nestingAfter (d : Nat) (c : Char) : Option Nat :=
  if c = '(' then some (d + 1)
  else if c = ')' then if d = 0 then none else some (d - 1)
  else some d

/-- The parentheses that are open at the end of a text if `d` are at its beginning. -/
def nesting (d : Nat) : List Char → Option Nat
  | [] => some d
  | c :: cs => (nestingAfter d c).bind fun e => nesting e cs

/-- Every parenthesis that the text opens is closed in it, and no other one. -/
def IsBalanced (s : List Char) : Prop :=
  nesting 0 s = some 0

instance (s : List Char) : Decidable (IsBalanced s) :=
  inferInstanceAs (Decidable (nesting 0 s = some 0))

theorem nesting_append (d : Nat) (xs ys : List Char) :
    nesting d (xs ++ ys) = (nesting d xs).bind fun e => nesting e ys := by
  induction xs generalizing d with
  | nil => rfl
  | cons c xs ih =>
    rw [List.cons_append, nesting, nesting]
    cases nestingAfter d c with
    | none => rfl
    | some e => exact ih e

theorem nestingAfter_add {d e : Nat} {c : Char} (h : nestingAfter d c = some e) (k : Nat) :
    nestingAfter (d + k) c = some (e + k) := by
  unfold nestingAfter at h ⊢
  split at h
  · next hc =>
    cases h
    rw [if_pos hc, Nat.add_right_comm]
  · next hc =>
    rw [if_neg hc]
    split at h
    · next hc' =>
      split at h
      · cases h
      · cases h
        rw [if_pos hc', if_neg (by omega)]
        congr 1
        omega
    · next hc' =>
      cases h
      rw [if_neg hc']

/-- What is open around a text stays open. -/
theorem nesting_add {d e : Nat} {s : List Char} (h : nesting d s = some e) (k : Nat) :
    nesting (d + k) s = some (e + k) := by
  induction s generalizing d with
  | nil =>
    cases h
    rfl
  | cons c s ih =>
    obtain ⟨d', hc, hs⟩ := Option.bind_eq_some_iff.1 h
    rw [nesting, nestingAfter_add hc, Option.bind_some]
    exact ih hs

theorem nesting_of_isBalanced {s : List Char} (h : IsBalanced s) (d : Nat) :
    nesting d s = some d := by
  have hadd := nesting_add h d
  rwa [Nat.zero_add] at hadd

/-- Balanced parentheses that are left out leave balanced ones. -/
theorem nesting_removed {d e : Nat} {u v w : List Char} (hv : IsBalanced v)
    (h : nesting d (u ++ '(' :: (v ++ ')' :: w)) = some e) : nesting d (u ++ v ++ w) = some e := by
  rw [nesting_append] at h
  obtain ⟨d', hu, hrest⟩ := Option.bind_eq_some_iff.1 h
  change nesting (d' + 1) (v ++ ')' :: w) = some e at hrest
  rw [nesting_append, nesting_of_isBalanced hv, Option.bind_some] at hrest
  rw [List.append_assoc, nesting_append, hu, Option.bind_some, nesting_append,
    nesting_of_isBalanced hv, Option.bind_some]
  exact hrest

/-- A text without parentheses is balanced. -/
theorem isBalanced_of_not_mem {cs : List Char} (h : ∀ c ∈ cs, c ≠ '(' ∧ c ≠ ')') :
    IsBalanced cs := by
  unfold IsBalanced
  induction cs with
  | nil => rfl
  | cons c cs ih =>
    obtain ⟨hopen, hclose⟩ := h c List.mem_cons_self
    rw [nesting, nestingAfter, if_neg hopen, if_neg hclose]
    exact ih fun c' hc' => h c' (List.mem_cons_of_mem _ hc')

theorem IsBalanced.append {xs ys : List Char} (hxs : IsBalanced xs) (hys : IsBalanced ys) :
    IsBalanced (xs ++ ys) := by
  unfold IsBalanced
  rw [nesting_append, hxs, Option.bind_some]
  exact hys

theorem IsBalanced.enclosed {s : List Char} (h : IsBalanced s) :
    IsBalanced ('(' :: (s ++ [')'])) := by
  show nesting 1 (s ++ [')']) = some 0
  rw [nesting_append, nesting_of_isBalanced h]
  rfl

/-! ### Printed lexemes -/

/-- Words and numerals have no signs in them. -/
theorem ofChar?_of_isPlain {l : Lexeme} (h : l.IsPlain) (hcls : l.cls ≠ .sign) {c : Char}
    (hc : c ∈ l.chars) : Operator.ofChar? c = none := by
  have hnone {p : Char → Bool} (hp : signChars.any p = false) (hpc : p c = true) :
      Operator.ofChar? c = none := by
    cases hop : Operator.ofChar? c with
    | none => rfl
    | some o =>
      have hmem := mem_signChars (hop ▸ rfl : (Operator.ofChar? c).isSome = true)
      exact absurd hpc (List.any_eq_false.1 hp c hmem)
  have hnumeral {cs : List Char} (hcs : isPlainNumeral cs = true) (hmem : c ∈ cs) :
      Operator.ofChar? c = none := by
    rcases (chars_of_isPlainNumeral hcs).2 c hmem with hdigit | rfl
    · exact hnone (by decide) hdigit
    · rfl
  cases h with
  | sign h => exact absurd rfl hcls
  | @word cs h =>
    cases cs with
    | nil => cases hc
    | cons d cs =>
      obtain ⟨hd, hcs⟩ := Bool.and_eq_true_iff.1 h
      refine hnone (p := Text.isNameContinue) (by decide +kernel) ?_
      rcases List.mem_cons.1 hc with rfl | hc
      · exact Text.isNameContinue_of_isNameStart hd
      · exact List.all_eq_true.1 hcs c hc
  | real h => exact hnumeral h hc
  | imaginary h =>
    rcases List.mem_append.1 hc with hc | hc
    · exact hnumeral h hc
    · rw [List.mem_singleton.1 hc]
      rfl

theorem not_isBlank_of_isPlain {l : Lexeme} (h : l.IsPlain) : (l.cls == .blank) = false := by
  cases h <;> rfl

theorem startsValue_of_isPlain {l : Lexeme} (h : l.IsPlain) (hcls : l.cls ≠ .sign) :
    l.startsValue = true := by
  cases h with
  | sign h => exact absurd rfl hcls
  | _ => rfl

/-- A lexeme of a printed formula: plain, no part of a number with two parts, the name of a
function only as it is printed, and any other word or numeral with a value. -/
structure Lexeme.IsPrinted (R : Type u) [RealArith R] (l : Lexeme) : Prop where
  isPlain : l.IsPlain
  not_isImaginary : l.isImaginary = false
  function : ∀ f, l.function? = some f → f ≠ .exp ∧ l.chars = f.name.toList
  value : l.cls ≠ .sign → l.function? = none → ∀ pos, ∃ a : Expr (Complex R),
    Denotes .primary [⟨l, pos⟩] a

theorem isPrinted_sign {c : Char} (h : (Operator.ofChar? c).isSome = true) :
    Lexeme.IsPrinted R ⟨.sign, [c]⟩ where
  isPlain := .sign h
  not_isImaginary := rfl
  function := fun _ hf => by cases hf
  value := fun hcls => absurd rfl hcls

/-- A word that is read as a value. -/
theorem isPrinted_word {cs : List Char} (hword : isWordText cs = true)
    (hfunction : Lexeme.function? ⟨.word, cs⟩ = none)
    (hvalue : ∀ pos, ∃ a : Expr (Complex R), Denotes .primary [⟨⟨.word, cs⟩, pos⟩] a) :
    Lexeme.IsPrinted R ⟨.word, cs⟩ where
  isPlain := .word hword
  not_isImaginary := rfl
  function := fun f hf => by rw [hfunction] at hf; cases hf
  value := fun _ _ => hvalue

theorem isPrinted_function {f : Builtin} (h : f ≠ .exp) :
    Lexeme.IsPrinted R ⟨.word, f.name.toList⟩ where
  isPlain := .word (isWordText_name f)
  not_isImaginary := rfl
  function := fun g hg => by
    rw [show Lexeme.function? ⟨.word, f.name.toList⟩ = some f from function?_name f 0] at hg
    cases hg
    exact ⟨h, rfl⟩
  value := fun _ hnone => by
    rw [show Lexeme.function? ⟨.word, f.name.toList⟩ = some f from function?_name f 0] at hnone
    cases hnone

/-- A numeral of a finite value is read as it. -/
theorem denotes_numeral {cs : List Char} {v : Complex R} (h : literalValue? cs = some v)
    (hf : v.isFinite = true) (pos : Nat) :
    Denotes .primary [⟨⟨.numeral, cs⟩, pos⟩] (.number v) := by
  refine .number rfl (readNumber_eq_ok_iff.2 ⟨?_, hf⟩)
  rw [text_of_numeral rfl]
  exact h

theorem isPrinted_numeral [TextLaws R] {r : R} (hf : RealArith.isFinite r = true)
    (h : lt r 0 = false) (h' : isMinusZero r = false) : (Part.real.numeral r).IsPrinted R := by
  have hplain := TextLaws.isPlainNumeral_text r hf h h'
  obtain ⟨v, hv, hfin⟩ := TextLaws.realValue?_text r hf h h'
  have hunit := getLast?_of_isPlainNumeral hplain
  have hvalue : literalValue? (text r).toList = some (Part.real.value v) := by
    rw [literalValue?, hunit, if_neg Bool.false_ne_true, hv]
    rfl
  have hchars : Part.real.numeral r = ⟨.numeral, (text r).toList⟩ := by
    unfold Part.numeral Part.unit
    rw [List.append_nil]
  rw [hchars]
  exact
    { isPlain := .real hplain
      not_isImaginary := hunit
      function := fun f hf => by cases hf
      value := fun _ _ pos =>
        ⟨_, denotes_numeral hvalue (Part.real.isFinite_value_iff.2 hfin) pos⟩ }

theorem isPrinted_argument : Lexeme.IsPrinted R ⟨.word, argumentName.toList⟩ := by
  refine isPrinted_word (by decide +kernel) function?_argument fun pos => ⟨.argument, ?_⟩
  exact .argument (isName_of_lower (by decide +kernel) (by decide) (by decide +kernel) pos)
    (text_of_isLower (show Text.lower argumentName.toList = _ by decide +kernel) pos)

theorem isPrinted_name {n : String} (h : IsPlainName n) : Lexeme.IsPrinted R ⟨.word, n.toList⟩ := by
  refine isPrinted_word h.isWord (function?_of_isPlainName h) fun pos => ⟨_, .name
    (isName_of_isPlainName h pos) ?_⟩
  rw [text_of_isLower h.isLower pos]
  exact h.ne_argument

theorem printedNumber_of_plain {v : Complex R} (him : (v.im == 0) = true)
    (hre : lt v.re 0 = false) : printedNumber v = [Part.real.numeral v.re] := by
  unfold printedNumber Part.printed
  rw [if_pos him, hre, if_neg Bool.false_ne_true]

/-- The lexemes of a tree of unsigned real numbers are printed ones. -/
theorem isPrinted_printed [TextLaws R] {a : Expr (Complex R)} (h : a.LeavesHold plainReals) :
    ∀ l ∈ a.printed, l.IsPrinted R := by
  refine forall_mem_printed h (fun _ => isPrinted_sign) (fun v hv => ?_) isPrinted_argument
    (fun _ => isPrinted_name) fun _ hf => isPrinted_function hf.1
  obtain ⟨hf, hzero, him, hre⟩ := hv
  rw [printedNumber_of_plain him hre, List.forall_mem_singleton]
  exact isPrinted_numeral (Complex.isFinite_iff.1 hf).1 hre (Complex.noMinusZero_iff.1 hzero).1

/-! ### Their parentheses -/

theorem isBalanced_chars {l : Lexeme} (h : l.IsPlain) (hcls : l.cls ≠ .sign) :
    IsBalanced l.chars := by
  refine isBalanced_of_not_mem fun c hc => ?_
  have hnone := ofChar?_of_isPlain h hcls hc
  constructor <;>
  · rintro rfl
    cases hnone

theorem isBalanced_enclosed {ls : List Lexeme} (h : IsBalanced (ls.flatMap Lexeme.chars)) :
    IsBalanced ((enclosed ls).flatMap Lexeme.chars) := by
  unfold enclosed
  rw [List.flatMap_cons, List.flatMap_append]
  exact h.enclosed

theorem isBalanced_printedOperand {ls : List Lexeme} (h : IsBalanced (ls.flatMap Lexeme.chars))
    (op : BinaryOp) (isLeft : Bool) (a : Expr (Complex R)) :
    IsBalanced ((Expr.printedOperand op isLeft a ls).flatMap Lexeme.chars) := by
  unfold Expr.printedOperand
  split
  · exact isBalanced_enclosed h
  · exact h

/-- The parentheses of a printed tree are balanced. -/
theorem isBalanced_printed [TextLaws R] {a : Expr (Complex R)} (h : a.LeavesHold plainReals) :
    IsBalanced (a.printed.flatMap Lexeme.chars) := by
  have hleaf {l : Lexeme} (h : l.IsPrinted R) (hcls : l.cls ≠ .sign) :
      IsBalanced ([l].flatMap Lexeme.chars) := by
    rw [List.flatMap_singleton]
    exact isBalanced_chars h.isPlain hcls
  induction a with
  | number v =>
    obtain ⟨hf, hzero, him, hre⟩ := h
    rw [Expr.printed, printedNumber_of_plain him hre]
    exact hleaf (isPrinted_numeral (Complex.isFinite_iff.1 hf).1 hre
      (Complex.noMinusZero_iff.1 hzero).1) LexemeClass.noConfusion
  | argument => exact hleaf isPrinted_argument LexemeClass.noConfusion
  | named n p => exact hleaf (isPrinted_name h) LexemeClass.noConfusion
  | neg a ih =>
    rw [Expr.printed, List.flatMap_cons]
    refine IsBalanced.append (by decide : IsBalanced ['-']) ?_
    split
    · exact isBalanced_enclosed (ih h)
    · exact ih h
  | binary op a b p iha ihb =>
    rw [Expr.printed, List.flatMap_append, List.flatMap_cons]
    refine (isBalanced_printedOperand (iha h.1) op true a).append ?_
    refine IsBalanced.append (by cases op <;> decide : IsBalanced [op.sign]) ?_
    exact isBalanced_printedOperand (ihb h.2) op false b
  | call f a p ih =>
    rw [Expr.printed, List.flatMap_cons]
    refine (isBalanced_chars (.word (isWordText_name f)) LexemeClass.noConfusion).append ?_
    exact isBalanced_enclosed (ih h.2)

/-! ### Reading them -/

/-- What may not be an operand is a sign. -/
theorem isSign_of_after {t t' : Turn} {l : Lexeme} (ht : t ≠ .operand) (h : t.after l = some t') :
    ∃ c, l.isSign c = true ∧ (Operator.ofChar? c).isSome = true := by
  cases t with
  | operand => exact absurd rfl ht
  | parenthesis =>
    obtain ⟨hl, -⟩ := Option.ite_none_right_eq_some.1 h
    exact ⟨'(', hl, rfl⟩
  | operator =>
    rw [Turn.after] at h
    split at h
    · next hl => exact ⟨')', hl, rfl⟩
    · obtain ⟨hl, -⟩ := Option.ite_none_right_eq_some.1 h
      obtain ⟨c, hc, hl⟩ := List.any_eq_true.1 hl
      refine ⟨c, hl, ?_⟩
      simp only [List.mem_cons, List.not_mem_nil, or_false] at hc
      rcases hc with rfl | rfl | rfl | rfl | rfl <;> rfl

/-- Only operands come where an operand may come. -/
theorem ne_operand_of_after {t t' : Turn} {l : Lexeme} (hcls : l.cls ≠ .sign)
    (h : t.after l = some t') : t = .operand ∧ t' ≠ .operand := by
  have hsign (c : Char) : l.isSign c = false := by
    rw [Bool.eq_false_iff]
    exact fun hl => hcls (eq_of_beq (Bool.and_eq_true_iff.1 hl).1)
  cases t with
  | operand =>
    rw [Turn.after, hsign, hsign] at h
    refine ⟨rfl, ?_⟩
    rintro rfl
    split at h
    · next hor => cases hor
    · split at h
      · cases h
      · split at h <;> cases h
  | _ =>
    obtain ⟨c, hl, -⟩ := isSign_of_after (by decide) h
    rw [hsign] at hl
    cases hl

/-- A text stops where no operand may come. -/
theorem stops_of_turns {t t' : Turn} {ls : List Lexeme} {s : List Char} (ht : t ≠ .operand)
    (h : turns t ls = some t') (hs : Stops s) : Stops (ls.flatMap Lexeme.chars ++ s) := by
  cases ls with
  | nil => exact hs
  | cons l ls =>
    obtain ⟨t₁, hl, -⟩ := Option.bind_eq_some_iff.1 h
    obtain ⟨c, hsign, hc⟩ := isSign_of_after ht hl
    have hchars : l.chars = [c] := eq_of_beq (Bool.and_eq_true_iff.1 hsign).2
    rw [List.flatMap_cons, hchars]
    exact stops_cons hc _

/-- Lexemes that take turns are read back. -/
theorem readsBack_of_turns {t t' : Turn} {ls : List Lexeme} (h : turns t ls = some t')
    (hplain : ∀ l ∈ ls, l.IsPlain) : ReadsBack ls := by
  induction ls generalizing t with
  | nil => exact readsBack_nil
  | cons l ls ih =>
    obtain ⟨t₁, hl, hls⟩ := Option.bind_eq_some_iff.1 h
    have hrest := ih hls fun l hl => hplain l (List.mem_cons_of_mem _ hl)
    have hfirst := hplain l List.mem_cons_self
    by_cases hcls : l.cls = .sign
    · cases hfirst with
      | sign hc => exact readsBack_nil.between hc hrest
      | _ => cases hcls
    · intro s hs
      have hstops := stops_of_turns (ne_operand_of_after hcls hl).2 hls hs
      have hread := readsBack_of_isPlain hfirst _ hstops
      rw [List.flatMap_singleton] at hread
      rw [List.flatMap_cons, List.append_assoc, hread, hrest s hs]
      rfl

/-- Lexemes that take turns alternate, and are derived if their parentheses are balanced. -/
theorem alternates_of_turns {t : Turn} {d : Nat} {ls : List Lexeme}
    (hprinted : ∀ l ∈ ls, l.IsPrinted R) (h : turns t ls = some .operator)
    (hd : nesting d (ls.flatMap Lexeme.chars) = some 0) (pos : Nat) :
    Alternates R (t == .operator) d (placed pos ls) := by
  induction ls generalizing t d pos with
  | nil =>
    cases h
    cases hd
    exact .done
  | cons l ls ih =>
    obtain ⟨t₁, hl, hls⟩ := Option.bind_eq_some_iff.1 h
    have hrest := fun d hd => ih (d := d) (fun l hl => hprinted l (List.mem_cons_of_mem _ hl)) hls hd
      (pos + byteLength l.chars)
    have hfirst := hprinted l List.mem_cons_self
    rw [List.flatMap_cons, nesting_append] at hd
    rw [placed_cons pos ls (not_isBlank_of_isPlain hfirst.isPlain)]
    have hsign {c : Char} (hc : l.isSign c = true) : l.chars = [c] :=
      eq_of_beq (Bool.and_eq_true_iff.1 hc).2
    -- what is derived after an opening parenthesis
    have hopened (ht : t₁ = .operand) (hopen : l.isSign '(' = true) (after : Bool) :
        Alternates R after d (⟨l, pos⟩ :: placed (pos + byteLength l.chars) ls) := by
      subst ht
      rw [hsign hopen] at hd
      exact .opened hopen (hrest (d + 1) hd)
    cases t with
    | operand =>
      rw [Turn.after] at hl
      split at hl
      · next hor =>
        cases hl
        rcases Bool.or_eq_true_iff.1 hor with hopen | hminus
        · exact hopened rfl hopen _
        · rw [hsign hminus] at hd
          exact .minus hminus (hrest d hd)
      · split at hl
        · cases hl
        · next hcls =>
          have hcls : l.cls ≠ .sign := fun h => hcls (beq_iff_eq.2 h)
          rw [nesting_of_isBalanced (isBalanced_chars hfirst.isPlain hcls), Option.bind_some] at hd
          cases hf : l.function? with
          | some f =>
            rw [hf] at hl
            cases hl
            exact .function (l := ⟨l, pos⟩) hf (hrest d hd)
          | none =>
            rw [hf] at hl
            cases hl
            obtain ⟨a, ha⟩ := hfirst.value hcls hf pos
            exact .value (startsValue_of_isPlain hfirst.isPlain hcls) ha (hrest d hd)
    | parenthesis =>
      obtain ⟨hopen, ht⟩ := Option.ite_none_right_eq_some.1 hl
      exact hopened (Option.some.inj ht).symm hopen _
    | operator =>
      rw [Turn.after] at hl
      split at hl
      · next hclose =>
        cases hl
        rw [hsign hclose] at hd
        cases d with
        | zero => cases hd
        | succ d => exact .closed hclose (hrest d hd)
      · obtain ⟨hany, ht⟩ := Option.ite_none_right_eq_some.1 hl
        cases ht
        obtain ⟨c, hc, hop⟩ := List.any_eq_true.1 hany
        rw [hsign hop] at hd
        simp only [List.mem_cons, List.not_mem_nil, or_false] at hc
        rcases hc with rfl | rfl | rfl | rfl | rfl
        · exact .operator hop (by decide) (hrest d hd)
        · exact .minus hop (hrest d hd)
        · exact .operator hop (by decide) (hrest d hd)
        · exact .operator hop (by decide) (hrest d hd)
        · exact .operator hop (by decide) (hrest d hd)

end Formulary

import Formulary.Expr.Text
import Formulary.Proofs.Arithmetic.ZeroLaws
import Formulary.Proofs.Expr.Leaves
import Formulary.Proofs.Printing.Names

/-!
# The lexemes of a printed formula

The text of a tree is made of lexemes, and it falls into just these when it is read. Negative
numbers and numbers with two parts take several.

* `Part`: the real and the imaginary part of a number, with its unit and its value.
* `Legible r`: the text of a size is a plain numeral with the size as its value.
* `Expr.printed`: the lexemes of a tree. `forall_mem_printed` goes through them, and
  `flatMap_chars_printed` says that they spell the text.
* `printableLeaves`: the leaves that are read back: finite legible numbers without a negative zero,
  plain names, and all functions but the two that are read as something else.
* **`lexemes_text`**: the lexemes of the text are the ones that were printed.
-/

namespace Formulary

open RealArith

universe u

variable {R : Type u} [RealArith R]

/-! ### Parts of numbers -/

/-- One of the two parts of a number. -/
inductive Part where
  | real
  | imaginary
  deriving DecidableEq, Repr

namespace Part

/-- What stands after the numeral of the part. -/
def unit : Part → List Char
  | real => []
  | imaginary => ['i']

/-- The number that has this part and no other. -/
def value (r : R) : Part → Complex R
  | real => .ofReal r
  | imaginary => ⟨0, r⟩

/-- The numeral of a part. -/
def numeral (part : Part) (r : R) : Lexeme :=
  ⟨.numeral, (text r).toList ++ part.unit⟩

/-- The part with its sign. -/
def printed (part : Part) (r : R) : List Lexeme :=
  if lt r 0 then [⟨.sign, ['-']⟩, part.numeral (-r)] else [part.numeral r]

end Part

/-- The number without its minus sign. -/
def magnitude (r : R) : R :=
  if lt r 0 then -r else r

/-- The number is written as a plain numeral, which is read as the number. -/
def Legible (r : R) : Prop :=
  isPlainNumeral (text r).toList = true ∧ realValue? (text r).toList = some r

/-- Both parts are legible without their signs. -/
def Complex.Legible (v : Complex R) : Prop :=
  Formulary.Legible (magnitude v.re) ∧ Formulary.Legible (magnitude v.im)

theorem magnitude_of_lt {r : R} (h : lt r 0 = true) : magnitude r = -r :=
  if_pos h

theorem magnitude_of_not_lt {r : R} (h : lt r 0 = false) : magnitude r = r := by
  unfold magnitude
  rw [h, if_neg Bool.false_ne_true]

/-! ### Printed trees -/

/-- Lexemes in parentheses. -/
def enclosed (ls : List Lexeme) : List Lexeme :=
  ⟨.sign, ['(']⟩ :: (ls ++ [⟨.sign, [')']⟩])

/-- The lexemes of a number. -/
def printedNumber (v : Complex R) : List Lexeme :=
  if v.im == 0 then Part.real.printed v.re
  else if v.re == 0 then Part.imaginary.printed v.im
  else if lt v.im 0 then
    enclosed (Part.real.printed v.re ++ ⟨.sign, ['-']⟩ :: [Part.imaginary.numeral (-v.im)])
  else enclosed (Part.real.printed v.re ++ ⟨.sign, ['+']⟩ :: [Part.imaginary.numeral v.im])

/-- The character the operator is written with. -/
def BinaryOp.sign : BinaryOp → Char
  | add => '+'
  | sub => '-'
  | mul => '*'
  | div => '/'
  | pow => '^'

namespace Expr

/-- The lexemes of an operand, in parentheses where it needs them. -/
def printedOperand (op : BinaryOp) (isLeft : Bool) (a : Expr (Complex R)) (ls : List Lexeme) :
    List Lexeme :=
  if needsParens op isLeft a then enclosed ls else ls

/-- The lexemes of the text of a tree. -/
def printed : Expr (Complex R) → List Lexeme
  | number v => printedNumber v
  | argument => [⟨.word, argumentName.toList⟩]
  | named name _ => [⟨.word, name.toList⟩]
  | neg a => ⟨.sign, ['-']⟩ :: (if a.isBinary then enclosed a.printed else a.printed)
  | binary op a b _ =>
    printedOperand op true a a.printed ++ ⟨.sign, [op.sign]⟩ :: printedOperand op false b b.printed
  | call f a _ => ⟨.word, f.name.toList⟩ :: enclosed a.printed

end Expr

/-! ### Each of their lexemes -/

section Lexemes

variable {p : Lexeme → Prop} {ls : List Lexeme}

theorem forall_mem_enclosed (hopen : p ⟨.sign, ['(']⟩) (hclose : p ⟨.sign, [')']⟩)
    (h : ∀ l ∈ ls, p l) : ∀ l ∈ enclosed ls, p l := by
  intro l hl
  rcases List.mem_cons.1 hl with rfl | hl
  · exact hopen
  · rcases List.mem_append.1 hl with hl | hl
    · exact h l hl
    · rw [List.mem_singleton.1 hl]
      exact hclose

theorem forall_mem_printedOperand (hopen : p ⟨.sign, ['(']⟩) (hclose : p ⟨.sign, [')']⟩)
    (h : ∀ l ∈ ls, p l) (op : BinaryOp) (isLeft : Bool) (a : Expr (Complex R)) :
    ∀ l ∈ Expr.printedOperand op isLeft a ls, p l := by
  unfold Expr.printedOperand
  split
  · exact forall_mem_enclosed hopen hclose h
  · exact h

/-- What holds of signs and of the lexemes of all leaves holds of every printed lexeme. -/
theorem forall_mem_printed {Q : LeafProperty (Complex R)} {a : Expr (Complex R)}
    (h : a.LeavesHold Q)
    (hsign : ∀ c, (Operator.ofChar? c).isSome = true → p ⟨.sign, [c]⟩)
    (hnumber : ∀ v, Q.number v → ∀ l ∈ printedNumber v, p l)
    (hargument : p ⟨.word, argumentName.toList⟩)
    (hname : ∀ n, Q.name n → p ⟨.word, n.toList⟩)
    (hfunction : ∀ f, Q.function f → p ⟨.word, f.name.toList⟩) : ∀ l ∈ a.printed, p l := by
  have hopen := hsign '(' rfl
  have hclose := hsign ')' rfl
  induction a with
  | number v => exact hnumber v h
  | argument => exact List.forall_mem_singleton.2 hargument
  | named n p => exact List.forall_mem_singleton.2 (hname n h)
  | neg a ih =>
    refine List.forall_mem_cons.2 ⟨hsign '-' rfl, ?_⟩
    split
    · exact forall_mem_enclosed hopen hclose (ih h)
    · exact ih h
  | binary op a b p iha ihb =>
    have hop : (Operator.ofChar? op.sign).isSome = true := by cases op <;> rfl
    refine List.forall_mem_append.2 ⟨?_, List.forall_mem_cons.2 ⟨hsign _ hop, ?_⟩⟩
    · exact forall_mem_printedOperand hopen hclose (iha h.1) op true a
    · exact forall_mem_printedOperand hopen hclose (ihb h.2) op false b
  | call f a p ih =>
    exact List.forall_mem_cons.2 ⟨hfunction f h.1, forall_mem_enclosed hopen hclose (ih h.2)⟩

end Lexemes

/-! ### They spell the text -/

theorem flatMap_chars_enclosed {ls : List Lexeme} {s : String}
    (h : ls.flatMap Lexeme.chars = s.toList) :
    (enclosed ls).flatMap Lexeme.chars = (parenthesized s).toList := by
  unfold enclosed parenthesized
  rw [List.flatMap_cons, List.flatMap_append, h, String.toList_append, String.toList_append]
  rfl

theorem symbol_toList (op : BinaryOp) : op.symbol.toList = [op.sign] := by
  cases op <;> rfl

section Spelled

variable [ZeroLaws R]

theorem Part.flatMap_chars_printed (part : Part) (r : R) :
    (part.printed r).flatMap Lexeme.chars = (text r).toList ++ part.unit := by
  unfold Part.printed
  split
  · next h =>
    rw [ZeroLaws.text_eq_neg r h, String.toList_append]
    simp [Part.numeral]
  · simp [Part.numeral]

theorem flatMap_chars_printedNumber (v : Complex R) :
    (printedNumber v).flatMap Lexeme.chars = (numberText v).toList := by
  -- the sum or the difference of both parts
  have htwo (c : Char) (r : R) :
      (Part.real.printed v.re ++ ⟨.sign, [c]⟩ :: [Part.imaginary.numeral r]).flatMap Lexeme.chars
        = (text v.re ++ String.ofList [c] ++ text r ++ "i").toList := by
    rw [List.flatMap_append, Part.flatMap_chars_printed]
    simp [Part.numeral, Part.unit]
  unfold printedNumber numberText
  split
  · rw [Part.flatMap_chars_printed]
    exact List.append_nil _
  · split
    · rw [Part.flatMap_chars_printed, String.toList_append]
      rfl
    · split
      · exact flatMap_chars_enclosed (htwo '-' (-v.im))
      · exact flatMap_chars_enclosed (htwo '+' v.im)

omit [ZeroLaws R] in
theorem flatMap_chars_printedOperand {op : BinaryOp} {isLeft : Bool} {a : Expr (Complex R)}
    {ls : List Lexeme} (h : ls.flatMap Lexeme.chars = a.text.toList) :
    (Expr.printedOperand op isLeft a ls).flatMap Lexeme.chars
      = (if Expr.needsParens op isLeft a then parenthesized a.text else a.text).toList := by
  unfold Expr.printedOperand
  split
  · exact flatMap_chars_enclosed h
  · exact h

/-- The printed lexemes spell the text. -/
theorem flatMap_chars_printed (a : Expr (Complex R)) :
    a.printed.flatMap Lexeme.chars = a.text.toList := by
  induction a with
  | number v => exact flatMap_chars_printedNumber v
  | argument => exact List.append_nil _
  | named name p => exact List.append_nil _
  | neg a ih =>
    unfold Expr.printed Expr.text
    rw [List.flatMap_cons]
    split
    · rw [flatMap_chars_enclosed ih, String.toList_append]
      rfl
    · rw [ih, String.toList_append]
      rfl
  | binary op a b p iha ihb =>
    unfold Expr.printed Expr.text
    rw [List.flatMap_append, List.flatMap_cons, flatMap_chars_printedOperand iha,
      flatMap_chars_printedOperand ihb, String.toList_append, String.toList_append, symbol_toList,
      List.append_assoc]
  | call f a p ih =>
    unfold Expr.printed Expr.text
    rw [List.flatMap_cons, flatMap_chars_enclosed ih, String.toList_append]

end Spelled

/-! ### They are read back -/

/-- The leaves that are read as what they are. -/
def printableLeaves : LeafProperty (Complex R) where
  number v := v.isFinite = true ∧ v.noMinusZero = true ∧ v.Legible
  name n := IsPlainName n
  function f := f ≠ .exp ∧ f ≠ .ln

theorem Part.isPlain_numeral {r : R} (part : Part) (h : Legible r) : (part.numeral r).IsPlain := by
  cases part with
  | real =>
    unfold Part.numeral
    rw [show Part.real.unit = [] from rfl, List.append_nil]
    exact .real h.1
  | imaginary => exact .imaginary h.1

theorem Part.legible_of_lt {r : R} (h : Legible (magnitude r)) (hlt : lt r 0 = true) :
    Legible (-r) :=
  magnitude_of_lt hlt ▸ h

theorem Part.readsBack_printed {r : R} (part : Part) (h : Legible (magnitude r)) :
    ReadsBack (part.printed r) := by
  unfold Part.printed
  split
  · next hlt =>
    exact readsBack_nil.between rfl
      (readsBack_of_isPlain (part.isPlain_numeral (legible_of_lt h hlt)))
  · next hlt =>
    rw [magnitude_of_not_lt (Bool.not_eq_true _ ▸ hlt)] at h
    exact readsBack_of_isPlain (part.isPlain_numeral h)

theorem readsBack_printedNumber {v : Complex R} (h : v.Legible) :
    ReadsBack (printedNumber v) := by
  unfold printedNumber
  split
  · exact Part.real.readsBack_printed h.1
  · split
    · exact Part.imaginary.readsBack_printed h.2
    · split
      · next hlt =>
        have hnumeral := Part.imaginary.isPlain_numeral (Part.legible_of_lt h.2 hlt)
        exact ((Part.real.readsBack_printed h.1).between rfl
          (readsBack_of_isPlain hnumeral)).enclosed
      · next hlt =>
        have him := h.2
        rw [magnitude_of_not_lt (Bool.not_eq_true _ ▸ hlt)] at him
        exact ((Part.real.readsBack_printed h.1).between rfl
          (readsBack_of_isPlain (Part.imaginary.isPlain_numeral him))).enclosed

theorem readsBack_printedOperand {op : BinaryOp} {isLeft : Bool} {a : Expr (Complex R)}
    {ls : List Lexeme} (h : ReadsBack ls) : ReadsBack (Expr.printedOperand op isLeft a ls) := by
  unfold Expr.printedOperand
  split
  · exact h.enclosed
  · exact h

/-- The lexemes of a printable tree are read back. -/
theorem readsBack_printed {a : Expr (Complex R)} (h : a.LeavesHold printableLeaves) :
    ReadsBack a.printed := by
  induction a with
  | number v => exact readsBack_printedNumber h.2.2
  | argument => exact readsBack_of_isPlain (.word (by decide +kernel))
  | named name p => exact readsBack_of_isPlain (.word h.isWord)
  | neg a ih =>
    unfold Expr.printed
    split
    · exact readsBack_nil.between rfl (ih h).enclosed
    · exact readsBack_nil.between rfl (ih h)
  | binary op a b p iha ihb =>
    have hsign : (Operator.ofChar? op.sign).isSome = true := by cases op <;> rfl
    exact (readsBack_printedOperand (iha h.1)).between hsign (readsBack_printedOperand (ihb h.2))
  | call f a p ih =>
    have hword : ReadsBack [⟨.word, f.name.toList⟩] :=
      readsBack_of_isPlain (.word (isWordText_name f))
    exact hword.between (c := '(') rfl ((ih h.2).between (c := ')') rfl readsBack_nil)

/-- The text of a printable tree falls into the printed lexemes. -/
theorem lexemes_text [ZeroLaws R] {a : Expr (Complex R)} (h : a.LeavesHold printableLeaves) :
    lexemes a.text.toList = a.printed := by
  rw [← flatMap_chars_printed]
  exact (readsBack_printed h).lexemes_eq

end Formulary

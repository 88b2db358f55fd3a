import Formulary.Expr.Basic
import Formulary.Proofs.Grammar.LetterCase
import Formulary.Proofs.Grammar.Tokens
import Formulary.Proofs.Printing.LowerCase

/-!
# Names that are read back

A word becomes a token in lower case, so a name is read back only if it is in lower case and still
a word. That is so of every name that was read without the dotted capital `İ`.

* `IsPlainName`: a variable that is read as itself.
* `lower_ascii`: the lower case of a text of the first 128 characters folds its capitals.
* **`isPlainName_of_word`**: names that were read are plain.
* `isName_of_isPlainName`, `function?_name`: a plain name is read as a variable, and the name of
  a function as the function.
-/

namespace Formulary

open Text

/-- A variable that is read as itself. -/
structure IsPlainName (name : String) : Prop where
  isWord : isWordText name.toList = true
  isLower : lower name.toList = name.toList
  ne_argument : name ≠ argumentName
  ne_unit : name ≠ "i"
  no_function : Builtin.named? name = none

/-! ### Lower case of the first characters -/

/-- What holds of the first 128 characters. -/
theorem of_isAscii {p : Char → Prop} (h : ∀ n < 128, p (Char.ofNat n)) {c : Char}
    (hc : isAscii c = true) : p c := by
  have hn := h c.toNat (of_decide_eq_true hc)
  rwa [Char.ofNat_toNat] at hn

theorem lowerChar_ascii {c : Char} (hc : isAscii c = true) :
    lowerChar c = [Builtin.foldCase c] ∧ c ≠ 'Σ' :=
  of_isAscii (p := fun c => lowerChar c = [Builtin.foldCase c] ∧ c ≠ 'Σ') (by decide +kernel) hc

theorem lowerAfter_ascii {cs : List Char} (h : ∀ c ∈ cs, isAscii c = true) (before : List Char) :
    lowerAfter before cs = foldText cs := by
  induction cs generalizing before with
  | nil => rfl
  | cons c cs ih =>
    obtain ⟨hlower, hsigma⟩ := lowerChar_ascii (h c List.mem_cons_self)
    simp only [lowerAfter]
    rw [if_neg hsigma, hlower, ih fun d hd => h d (List.mem_cons_of_mem _ hd)]
    rfl

/-- The lower case of a text of the first 128 characters. -/
theorem lower_ascii {cs : List Char} (h : ∀ c ∈ cs, isAscii c = true) : lower cs = foldText cs :=
  lowerAfter_ascii h []

/-! ### Names that were read -/

/-- The words of a text are words. -/
theorem isWordText_of_mem_lexemes {s : List Char} {l : Lexeme} (h : l ∈ lexemes s)
    (hl : l.cls = .word) : isWordText l.chars = true := by
  fun_induction lexemes s with
  | case1 => cases h
  | case2 c s l' ih =>
    rcases List.mem_cons.1 h with rfl | h
    · show isWordText (firstLexeme c s).chars = true
      change (firstLexeme c s).cls = .word at hl
      unfold firstLexeme at hl ⊢
      split at hl
      · cases hl
      · next hnumeral =>
        rw [if_neg hnumeral]
        split at hl
        · next hname =>
          rw [if_pos hname]
          exact Bool.and_eq_true_iff.2 ⟨hname, List.all_takeWhile⟩
        · split at hl
          · cases hl
          · split at hl <;> cases hl
    · exact ih h

/-- A variable that was read is a plain name. -/
theorem isPlainName_of_word {l : Placed} (hl : l.isName = true) (hx : l.text ≠ argumentName)
    (hword : isWordText l.lexeme.chars = true)
    (hdot : 'İ' ∉ l.lexeme.chars) : IsPlainName l.text := by
  obtain ⟨h, hnone⟩ := Bool.and_eq_true_iff.1 hl
  obtain ⟨hcls, hunit⟩ := Bool.and_eq_true_iff.1 h
  have htext : l.text.toList = lower l.lexeme.chars := by
    unfold Placed.text Lexeme.text
    rw [if_pos (show (l.lexeme.cls == .word) = true from hcls), String.toList_ofList]
  have hfunction := Option.isNone_iff_eq_none.1 hnone
  unfold Placed.function? at hfunction
  rw [if_pos hcls] at hfunction
  exact
    { isWord := by rw [htext, isWordText_lower hdot hword]
      isLower := by rw [htext, lower_lower]
      ne_argument := hx
      ne_unit := bne_iff_ne.1 hunit
      no_function := hfunction }

/-! ### Reading them back -/

/-- A word in lower case has its own characters as its text. -/
theorem text_of_isLower {name : String} (h : lower name.toList = name.toList) (pos : Nat) :
    Placed.text ⟨⟨.word, name.toList⟩, pos⟩ = name := by
  show String.ofList (lower name.toList) = name
  rw [h, String.ofList_toList]

theorem isName_of_lower {name : String} (hlower : lower name.toList = name.toList)
    (hunit : name ≠ "i") (hfunction : Builtin.named? name = none) (pos : Nat) :
    Placed.isName ⟨⟨.word, name.toList⟩, pos⟩ = true := by
  have htext := text_of_isLower hlower pos
  unfold Placed.isName Placed.function?
  rw [htext, show Placed.isWord ⟨⟨.word, name.toList⟩, pos⟩ = true from rfl, if_pos rfl, hfunction,
    bne_iff_ne.2 hunit]
  rfl

/-- A plain name is read as a variable. -/
theorem isName_of_isPlainName {name : String} (h : IsPlainName name) (pos : Nat) :
    Placed.isName ⟨⟨.word, name.toList⟩, pos⟩ = true :=
  isName_of_lower h.isLower h.ne_unit h.no_function pos

theorem isWordText_name (f : Builtin) : isWordText f.name.toList = true := by
  cases f <;> decide +kernel

/-- The name of a function is read as the function. -/
theorem function?_name (f : Builtin) (pos : Nat) :
    Placed.function? ⟨⟨.word, f.name.toList⟩, pos⟩ = some f := by
  have hascii : f.name.toList.all isAscii = true := by
    cases f <;> decide
  have hfold : foldText f.name.toList = f.name.toList := by
    cases f <;> decide
  have hlower := (lower_ascii (List.all_eq_true.1 hascii)).trans hfold
  unfold Placed.function?
  rw [text_of_isLower hlower, Builtin.named?_name]
  rfl

theorem isPlainName_euler : IsPlainName eulerName where
  isWord := by decide +kernel
  isLower := by decide +kernel
  ne_argument := by decide
  ne_unit := by decide
  no_function := by decide +kernel

end Formulary

import Mathlib.Tactic.IntervalCases
import Formulary.Proofs.Grammar.Basic
import Formulary.Proofs.Printing.Lexing

/-!
# Blanks between lexemes

A blank is part of no lexeme but of a run of blanks, and blanks are not placed: of a text that
begins with a blank the lexemes are those of the text after it, one place on.

* `blankChars`, `mem_blankChars`: the blanks are finitely many.
* `exists_lexemes_cons`: the first lexeme of a text and the text after it.
* `firstLexeme_cases`: what the first lexeme can be.
* `firstLexeme_blank`, `isBlank_of_firstLexeme`: runs of blanks.
* `placed_lexemes_blank`, `placed_lexemes_blanks`: blanks in front only move what follows.
-/

namespace Formulary

open Text

/-- All blanks. -/
def blankChars : List Char :=
  [' ', '\t', '\u00a0', '\u1680', '\u2000', '\u2001', '\u2002', '\u2003', '\u2004', '\u2005',
    '\u2006', '\u2007', '\u2008', '\u2009', '\u200a', '\u202f', '\u205f', '\u3000', '\ufeff']

theorem mem_blankChars {c : Char} (h : isBlank c = true) : c ∈ blankChars := by
  simp only [isBlank, Bool.or_eq_true, beq_iff_eq, inRanges_iff, List.mem_cons,
    List.not_mem_nil, or_false] at h
  rcases h with (rfl | rfl) | ⟨r, hr, hlow, hhigh⟩
  · decide
  · decide
  · rw [← Char.ofNat_toNat c]
    generalize c.toNat = n at hlow hhigh
    rcases hr with rfl | rfl | rfl | rfl | rfl | rfl | rfl
    all_goals
      simp only at hlow hhigh
      interval_cases n <;> decide

/-- What holds of no blank does not hold of a blank. -/
theorem not_of_isBlank {p : Char → Bool} (hp : blankChars.any p = false) {c : Char}
    (h : isBlank c = true) : p c = false :=
  Bool.eq_false_iff.2 (List.any_eq_false.1 hp c (mem_blankChars h))

theorem not_isNameContinue_of_isBlank {c : Char} (h : isBlank c = true) :
    isNameContinue c = false :=
  not_of_isBlank (by decide +kernel) h

/-! ### The first lexeme -/

/-- The first lexeme of a text and the text after it. -/
theorem exists_lexemes_cons (c : Char) (cs : List Char) :
    ∃ rest, c :: cs = (firstLexeme c cs).chars ++ rest ∧
      lexemes (c :: cs) = firstLexeme c cs :: lexemes rest :=
  ⟨_, (firstLexeme_append c cs).symm, by rw [lexemes]⟩

/-- What the first lexeme of a text can be, and what the text begins with then. -/
theorem firstLexeme_cases (c : Char) (cs : List Char) :
    startsNumeral (c :: cs) = true ∧ firstLexeme c cs = ⟨.numeral, takeNumeral (c :: cs)⟩ ∨
    isNameStart c = true ∧ firstLexeme c cs = ⟨.word, c :: cs.takeWhile isNameContinue⟩ ∨
    (Operator.ofChar? c).isSome = true ∧ firstLexeme c cs = ⟨.sign, [c]⟩ ∨
    isBlank c = true ∧ firstLexeme c cs = ⟨.blank, c :: cs.takeWhile isBlank⟩ ∨
    isBlank c = false ∧ firstLexeme c cs = ⟨.unknown, [c]⟩ := by
  unfold firstLexeme
  by_cases hnumeral : startsNumeral (c :: cs) = true
  · exact .inl ⟨hnumeral, if_pos hnumeral⟩
  rw [if_neg hnumeral]
  by_cases hname : isNameStart c = true
  · exact .inr (.inl ⟨hname, if_pos hname⟩)
  rw [if_neg hname]
  by_cases hsign : (Operator.ofChar? c).isSome = true
  · exact .inr (.inr (.inl ⟨hsign, if_pos hsign⟩))
  rw [if_neg hsign]
  by_cases hblank : isBlank c = true
  · exact .inr (.inr (.inr (.inl ⟨hblank, if_pos hblank⟩)))
  · exact .inr (.inr (.inr (.inr ⟨Bool.eq_false_iff.2 hblank, if_neg hblank⟩)))

theorem firstLexeme_eq {c : Char} {cs : List Char} {l : Lexeme} {ls : List Lexeme}
    (h : lexemes (c :: cs) = l :: ls) : firstLexeme c cs = l := by
  obtain ⟨rest, -, hcons⟩ := exists_lexemes_cons c cs
  exact (List.cons.inj (hcons.symm.trans h)).1

/-- A blank begins a run of blanks. -/
theorem firstLexeme_blank {c : Char} (h : isBlank c = true) (cs : List Char) :
    firstLexeme c cs = ⟨.blank, c :: cs.takeWhile isBlank⟩ := by
  have hdigit := not_of_isBlank (p := isDigit) (by decide +kernel) h
  have hpoint := ne_of_beq_false (not_of_isBlank (p := (· == '.')) (by decide +kernel) h)
  have hname := not_of_isBlank (p := isNameStart) (by decide +kernel) h
  have hsign := not_of_isBlank (p := fun c => (Operator.ofChar? c).isSome) (by decide +kernel) h
  unfold firstLexeme
  rw [startsNumeral_of_ne hdigit hpoint, if_neg Bool.false_ne_true, hname,
    if_neg Bool.false_ne_true, if_neg (by rw [hsign]; exact Bool.false_ne_true), if_pos h]

/-- Only a blank begins a run of blanks. -/
theorem isBlank_of_firstLexeme {c : Char} {cs : List Char}
    (h : (firstLexeme c cs).cls = .blank) : isBlank c = true := by
  rcases firstLexeme_cases c cs with ⟨-, hl⟩ | ⟨-, hl⟩ | ⟨-, hl⟩ | ⟨hc, -⟩ | ⟨-, hl⟩
  · simp [hl] at h
  · simp [hl] at h
  · simp [hl] at h
  · exact hc
  · simp [hl] at h

theorem cls_firstLexeme (c : Char) (cs : List Char) :
    ((firstLexeme c cs).cls == .blank) = isBlank c := by
  by_cases h : isBlank c = true
  · rw [firstLexeme_blank h, h]
    rfl
  · rw [Bool.eq_false_iff.2 h]
    exact beq_false_of_ne fun hcls => h (isBlank_of_firstLexeme hcls)

/-- The lexemes after a run of blanks. -/
theorem lexemes_blank {c : Char} (h : isBlank c = true) (cs : List Char) :
    lexemes (c :: cs) = ⟨.blank, c :: cs.takeWhile isBlank⟩ :: lexemes (cs.dropWhile isBlank) := by
  have hsplit : c :: cs = c :: cs.takeWhile isBlank ++ cs.dropWhile isBlank := by
    rw [List.cons_append, List.takeWhile_append_dropWhile]
  rw [hsplit]
  refine lexemes_of_firstLexeme ?_
  rw [List.takeWhile_append_dropWhile]
  exact firstLexeme_blank h cs

/-! ### Places -/

/-- A run of blanks in front moves the lexemes. -/
theorem placed_lexemes_dropWhile (pos : Nat) (cs : List Char) : placed pos (lexemes cs) =
    placed (pos + byteLength (cs.takeWhile isBlank)) (lexemes (cs.dropWhile isBlank)) := by
  cases cs with
  | nil => rfl
  | cons c cs =>
    by_cases h : isBlank c = true
    · rw [lexemes_blank h, List.takeWhile_cons_of_pos h, List.dropWhile_cons_of_pos h]
      rfl
    · rw [List.takeWhile_cons_of_neg h, List.dropWhile_cons_of_neg h]
      rfl

theorem placed_lexemes_blank {c : Char} (h : isBlank c = true) (pos : Nat) (cs : List Char) :
    placed pos (lexemes (c :: cs)) = placed (pos + c.utf8Size) (lexemes cs) := by
  rw [placed_lexemes_dropWhile pos, placed_lexemes_dropWhile (pos + c.utf8Size),
    List.takeWhile_cons_of_pos h, List.dropWhile_cons_of_pos h, Nat.add_assoc]
  rfl

theorem placed_lexemes_blanks {gs : List Char} (h : ∀ c ∈ gs, isBlank c = true) (pos : Nat)
    (cs : List Char) :
    placed pos (lexemes (gs ++ cs)) = placed (pos + byteLength gs) (lexemes cs) := by
  induction gs generalizing pos with
  | nil => rfl
  | cons g gs ih =>
    rw [List.cons_append, placed_lexemes_blank (h g List.mem_cons_self),
      ih (fun c hc => h c (List.mem_cons_of_mem _ hc)), Nat.add_assoc]
    rfl

end Formulary

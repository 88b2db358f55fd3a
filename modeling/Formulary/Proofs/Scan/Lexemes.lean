import Formulary.Proofs.Grammar.Blanks
import Formulary.Proofs.Grammar.Rejects
import Formulary.Proofs.Scan.Numerals

/-!
# Lexemes of what is not read

What the scanner asks about the text ahead and about the last token, asked about lexemes.

* `startsValue_firstLexeme`, `startsTerm_kind`: a value starts, a whole term may start.
* `closesTerm_lexemes`: after blanks comes what ends a term.
* `complexTail opens cs`: the sign and the imaginary numeral that make a real numeral before them
  complex.
* `fuse_numeral`: a numeral is fused with its tail, if it has one.
* `complexEnd?_eq`: the scanner finds the tail.
-/

namespace Formulary

open Text

/-! ### Kinds and classes -/

/-- A sign is the first lexeme where the text begins with it, and nowhere else. -/
theorem isSign_firstLexeme {d : Char} (hd : (Operator.ofChar? d).isSome = true) (c : Char)
    (cs : List Char) : (firstLexeme c cs).isSign d = (c == d) := by
  by_cases h : c = d
  · subst h
    rw [firstLexeme_sign hd]
    simp [Lexeme.isSign]
  · obtain ⟨t, ht, -⟩ := firstLexeme_chars c cs
    unfold Lexeme.isSign
    rw [ht, beq_false_of_ne h, Bool.and_eq_false_iff]
    exact .inr (beq_false_of_ne fun heq => h (List.cons.inj heq).1)

theorem startsValue_firstLexeme (c : Char) (cs : List Char) : (firstLexeme c cs).startsValue =
    (startsNumeral (c :: cs) || isNameStart c || c == '(') := by
  by_cases hparen : c = '('
  · subst hparen
    rw [firstLexeme_sign rfl, beq_self_eq_true, Bool.or_true]
    rfl
  · rw [beq_false_of_ne hparen, Bool.or_false]
    unfold firstLexeme
    split
    · next h =>
      rw [h]
      rfl
    · next h =>
      rw [Bool.eq_false_iff.2 h, Bool.false_or]
      split
      · next h =>
        rw [h]
        rfl
      · next h =>
        rw [Bool.eq_false_iff.2 h]
        split
        · exact beq_false_of_ne fun heq => hparen (List.cons.inj heq).1
        · split <;> rfl

/-- After a lexeme a whole term may start if it may after the token of the lexeme. -/
theorem startsTerm_kind {l : Lexeme} (htidy : l.IsTidy) (last : Option TokenKind) :
    startsTerm (some (l.kind last)) = (l.isSign '(' || l.isSign '+') := by
  unfold Lexeme.isSign Lexeme.kind
  cases hcls : l.cls with
  | numeral => rfl
  | blank => rfl
  | unknown => rfl
  | word =>
    show startsTerm (some (Lexeme.wordKind l.text)) = false
    unfold Lexeme.wordKind
    split
    · rfl
    · split <;> rfl
  | sign =>
    obtain ⟨c, o, hchars, ho⟩ := htidy hcls
    rw [hchars]
    unfold Operator.ofChar? at ho
    split at ho
    · rfl
    · rfl
    · rfl
    · show startsTerm (some (.operator (if Lexeme.minusNegates last then .neg else .sub))) = false
      split <;> rfl
    · rfl
    · rfl
    · rfl
    · cases ho

theorem startsTerm_of_endsValue {k : TokenKind} (h : k.endsValue = true) :
    startsTerm (some k) = false := by
  cases k with
  | operator o =>
    have ho : o = .closeParen := eq_of_beq h
    rw [ho]
    rfl
  | _ => rfl

/-- The lexemes of a text end a term if, blanks apart, its first character does. -/
theorem closesTerm_lexemes (cs : List Char) :
    closesTerm (lexemes cs) = endsTerm (cs.dropWhile isBlank).head? := by
  have hother {c : Char} (cs : List Char) (h : isBlank c = false) :
      closesTerm (lexemes (c :: cs)) = endsTerm (some c) := by
    obtain ⟨rest, -, hrest⟩ := exists_lexemes_cons c cs
    rw [hrest]
    simp only [closesTerm]
    rw [cls_firstLexeme, h, if_neg Bool.false_ne_true, isSign_firstLexeme rfl,
      isSign_firstLexeme rfl, isSign_firstLexeme rfl]
    rfl
  -- one run of blanks, and no blank after it
  have hdropped : closesTerm (lexemes (cs.dropWhile isBlank)) =
      endsTerm (cs.dropWhile isBlank).head? := by
    cases hcs : cs.dropWhile isBlank with
    | nil =>
      rw [lexemes]
      rfl
    | cons c rest =>
      have hc := List.head?_dropWhile_not (p := isBlank) (l := cs)
      rw [hcs] at hc
      exact hother rest (by simpa using hc)
  rw [← hdropped]
  cases cs with
  | nil => rfl
  | cons c cs =>
    by_cases h : isBlank c = true
    · rw [lexemes_blank h, List.dropWhile_cons_of_pos h]
      rfl
    · rw [List.dropWhile_cons_of_neg h]

/-! ### Complex numerals -/

/-- The sign and the imaginary numeral that make a real numeral right before them complex, if a
whole term may start at the real numeral. -/
def complexTail (opens : Bool) : List Char → Option (List Char)
  | '+' :: cs =>
    let tail := takeNumeral cs
    if opens && startsNumeral cs && tail.getLast?.any isUnit &&
        endsTerm ((cs.drop tail.length).dropWhile isBlank).head? then
      some ('+' :: tail)
    else none
  | _ => none

theorem complexTail_of_ne {c : Char} (hc : c ≠ '+') (opens : Bool) (cs : List Char) :
    complexTail opens (c :: cs) = none := by
  unfold complexTail
  split
  · next heq => exact absurd (List.cons.inj heq).1 hc
  · rfl

theorem complexTail_isPrefix {opens : Bool} {cs tail : List Char}
    (h : complexTail opens cs = some tail) : tail <+: cs := by
  unfold complexTail at h
  split at h
  · dsimp only at h
    split at h
    · cases h
      exact List.cons_prefix_cons.2 ⟨rfl, takeNumeral_isPrefix _⟩
    · cases h
  · cases h

theorem lexemes_numeral {cs : List Char} (h : startsNumeral cs = true) : lexemes cs =
    ⟨.numeral, takeNumeral cs⟩ :: lexemes (cs.drop (takeNumeral cs).length) := by
  cases cs with
  | nil => cases h
  | cons c cs =>
    have hfirst : firstLexeme c cs = ⟨.numeral, takeNumeral (c :: cs)⟩ := if_pos h
    obtain ⟨rest, hrest, hlexemes⟩ := exists_lexemes_cons c cs
    rw [hfirst] at hrest hlexemes
    have hdrop : (c :: cs).drop (takeNumeral (c :: cs)).length = rest := by
      nth_rewrite 2 [hrest]
      exact List.drop_left
    rw [hlexemes, hdrop]

theorem startsNumeral_of_cls {c : Char} {cs : List Char}
    (h : (firstLexeme c cs).cls = .numeral) : startsNumeral (c :: cs) = true := by
  rcases firstLexeme_cases c cs with ⟨hnumeral, -⟩ | ⟨-, hl⟩ | ⟨-, hl⟩ | ⟨-, hl⟩ | ⟨-, hl⟩
  · exact hnumeral
  · simp [hl] at h
  · simp [hl] at h
  · simp [hl] at h
  · simp [hl] at h

/-- A lexeme with which no complex numeral begins is left. -/
theorem fuse_cons {opens : Bool} {a : Lexeme} {ls : List Lexeme}
    (h : ∀ p b rest, ls = p :: b :: rest → a.isReal = true → p.isSign '+' = true →
      b.isImaginary = true → (opens && closesTerm rest) = false) :
    fuse opens (a :: ls) = a :: fuse (opensTerm opens a) ls := by
  cases ls with
  | nil => rfl
  | cons p ls =>
    cases ls with
    | nil => rfl
    | cons b rest =>
      rw [fuse, if_neg]
      intro hfuse
      simp only [Bool.and_eq_true] at hfuse
      obtain ⟨⟨⟨⟨hopens, ha⟩, hp⟩, hb⟩, hcloses⟩ := hfuse
      have hnone := h p b rest rfl ha hp hb
      rw [hopens, hcloses] at hnone
      cases hnone

/-- A real numeral is fused with its tail, if it has one. -/
theorem fuse_numeral {n : List Char} (hn : n.getLast?.any isUnit = false) (opens : Bool)
    (cs : List Char) : fuse opens (⟨.numeral, n⟩ :: lexemes cs) =
      match complexTail opens cs with
      | some tail => ⟨.numeral, n ++ tail⟩ :: fuse false (lexemes (cs.drop tail.length))
      | none => ⟨.numeral, n⟩ :: fuse false (lexemes cs) := by
  have hreal : (⟨.numeral, n⟩ : Lexeme).isReal = true := by
    simp [Lexeme.isReal, hn]
  cases cs with
  | nil =>
    rw [lexemes]
    rfl
  | cons c cs =>
    by_cases hplus : c = '+'
    · subst hplus
      rw [readsBack_sign rfl]
      by_cases hstart : startsNumeral cs = true
      · have himaginary : (⟨.numeral, takeNumeral cs⟩ : Lexeme).isImaginary =
            (takeNumeral cs).getLast?.any isUnit :=
          Bool.true_and _
        rw [lexemes_numeral hstart, fuse, hreal, himaginary, closesTerm_lexemes]
        have hsign : (⟨.sign, ['+']⟩ : Lexeme).isSign '+' = true := rfl
        simp only [complexTail, hstart, hsign, Bool.and_true]
        split
        · simp
        · rfl
      · have hnone : complexTail opens ('+' :: cs) = none := by
          simp [complexTail, Bool.eq_false_iff.2 hstart]
        rw [hnone, fuse_cons]
        · rfl
        intro p b rest hls _ _ hb
        -- the lexeme after the sign is a numeral only where the text goes on with one
        obtain ⟨-, hrest⟩ := List.cons.inj hls
        refine absurd ?_ hstart
        cases cs with
        | nil =>
          rw [lexemes] at hrest
          cases hrest
        | cons d cs =>
          rw [← firstLexeme_eq hrest] at hb
          exact startsNumeral_of_cls (eq_of_beq (Bool.and_eq_true_iff.1 hb).1)
    · rw [complexTail_of_ne hplus, fuse_cons]
      · rfl
      intro p b rest hls _ hp _
      rw [← firstLexeme_eq hls, isSign_firstLexeme rfl] at hp
      exact absurd (eq_of_beq hp) hplus

/-! ### The scanner finds the tail -/

theorem complexEnd?_eq {a : Scanner} {stop : Nat} {rest : List Char}
    (h : TextAt a.text stop rest) : a.complexEnd? stop =
      (complexTail (startsTerm a.last) rest).map fun tail => stop + byteLength tail := by
  unfold Scanner.complexEnd?
  rw [h.any_byteAt? fun c => isAscii_of_beq (by decide)]
  cases rest with
  | nil => simp [complexTail]
  | cons c cs =>
    by_cases hplus : c = '+'
    · subst hplus
      have htail := h.tail_of_isAscii (by decide)
      simp only [List.head?_cons, Option.any_some, beq_self_eq_true, Bool.and_true, complexTail]
      rw [htail.startsNumeralAt_eq]
      by_cases hstart : startsNumeral cs = true
      · have hafter := htail.drop (takeNumeral_isPrefix cs)
        rw [htail.numeralEnd_eq, htail.endsInUnit_eq hstart, (hafter.skipWhile isBlank).charAt?_eq]
        simp only [hstart, Bool.and_true]
        cases startsTerm a.last with
        | false => rfl
        | true =>
          simp only [Bool.true_and, if_true]
          split
          · exact congrArg some (Nat.add_assoc stop 1 _)
          · rfl
      · simp [Bool.eq_false_iff.2 hstart]
    · simp [complexTail_of_ne hplus, hplus]

end Formulary

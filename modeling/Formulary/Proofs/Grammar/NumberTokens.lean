import Formulary.Proofs.Binary64.Defined
import Formulary.Proofs.Grammar.NumeralValues
import Formulary.Proofs.Grammar.Rejects
import Formulary.Proofs.Printing.LowerCase

/-!
# Number tokens and their values

The lexer and the reader of numbers take numerals apart independently of each other. They agree: the
reader finds the unit that the lexer has taken, splits a numeral at the plus sign that the lexer has
joined it with, and never refuses what is written.

* `WrittenAs ls t re im`: the lexemes that a number token was made of, and the decimals written as
  its real and its imaginary part.
* `valueOfParts`: the value of a number with these parts.
* `exists_of_mem_placed`, `exists_of_fuse`, `eq_unit_of_lower`: from the token back to the lexemes.
* `exists_writtenAs`: every number token of a text is written in one of four ways.
* **`readNumber_of_mem_tokenize`**: the value of every number token of a text, and when it has none.
-/

namespace Formulary

open RealArith Text

universe u

/-- A number token, the lexemes it was made of and their place in the text, and the decimals that
are written as its real and its imaginary part. -/
inductive WrittenAs (ls : List Lexeme) (t : Token) : Option Decimal → Option Decimal → Prop where
  /-- The imaginary unit alone. -/
  | unit {before after : List Lexeme} {l : Lexeme} (hls : ls = before ++ l :: after)
    (hstart : t.start = byteLength (before.flatMap Lexeme.chars)) (hcls : l.cls = .word)
    (hchars : l.chars = ['i'] ∨ l.chars = ['I']) (htext : t.text = "i") : WrittenAs ls t none none
  | real {before after : List Lexeme} {l : Lexeme} {d : Decimal} (hls : ls = before ++ l :: after)
    (hstart : t.start = byteLength (before.flatMap Lexeme.chars)) (hl : l.isReal = true)
    (htext : t.text.toList = l.chars) (hd : Decimal.ofNumeral? l.chars = some d) :
    WrittenAs ls t (some d) none
  | imaginary {before after : List Lexeme} {l : Lexeme} {d : Decimal}
    (hls : ls = before ++ l :: after) (hstart : t.start = byteLength (before.flatMap Lexeme.chars))
    (hl : l.isImaginary = true) (htext : t.text.toList = l.chars)
    (hsplit : splitSum l.chars.dropLast = none)
    (hd : Decimal.ofNumeral? l.chars.dropLast = some d) : WrittenAs ls t none (some d)
  /-- The lexer has joined a real and an imaginary numeral, and the reader splits them. -/
  | complex {before after : List Lexeme} {a p b : Lexeme} {d e : Decimal}
    (hls : ls = before ++ a :: p :: b :: after)
    (hstart : t.start = byteLength (before.flatMap Lexeme.chars)) (ha : a.isReal = true)
    (hp : p.isSign '+' = true) (hb : b.isImaginary = true) (hafter : closesTerm after = true)
    (htext : t.text.toList = a.chars ++ '+' :: b.chars)
    (hsplit : splitSum t.text.toList.dropLast = some (a.chars, b.chars.dropLast))
    (hd : Decimal.ofNumeral? a.chars = some d)
    (he : Decimal.ofNumeral? b.chars.dropLast = some e) : WrittenAs ls t (some d) (some e)

/-- The value of a number with these parts written; with none of them it is the imaginary unit. -/
def valueOfParts {R : Type u} [RealArith R] : Option Decimal → Option Decimal → Complex R
  | none, none => .unit
  | some d, none => .ofReal (ofDecimal d)
  | none, some e => ⟨0, ofDecimal e⟩
  | some d, some e => ⟨ofDecimal d, ofDecimal e⟩

/-! ### The bare unit -/

/-- Only the unit, of either case, has the lower case of the unit. -/
theorem eq_unit_of_lower {cs : List Char} (h : lower cs = ['i']) : cs = ['i'] ∨ cs = ['I'] :=
  eq_of_lower_singleton (by decide) (by decide) (by decide +kernel) h

/-! ### From the token to the lexemes -/

theorem exists_of_mem_placed {pos : Nat} {ls : List Lexeme} {l : Placed} (h : l ∈ placed pos ls) :
    ∃ before after, ls = before ++ l.lexeme :: after ∧
      l.start = pos + byteLength (before.flatMap Lexeme.chars) := by
  induction ls generalizing pos with
  | nil => cases h
  | cons l' ls ih =>
    have hrest (h : l ∈ placed (pos + byteLength l'.chars) ls) : ∃ before after,
        l' :: ls = before ++ l.lexeme :: after ∧
          l.start = pos + byteLength (before.flatMap Lexeme.chars) := by
      obtain ⟨before, after, rfl, hstart⟩ := ih h
      refine ⟨l' :: before, after, rfl, ?_⟩
      rw [hstart, List.flatMap_cons, byteLength_append, Nat.add_assoc]
    cases hblank : l'.cls == .blank with
    | true =>
      rw [placed_blank _ _ hblank] at h
      exact hrest h
    | false =>
      rw [placed_cons _ _ hblank] at h
      rcases List.mem_cons.1 h with rfl | h
      · exact ⟨[], ls, rfl, rfl⟩
      · exact hrest h

/-- A lexeme after fusing was there before, at the same place, or the lexer has joined it. -/
theorem exists_of_fuse {opens : Bool} {ls before after : List Lexeme} {l : Lexeme}
    (h : fuse opens ls = before ++ l :: after) :
    (∃ before' after', ls = before' ++ l :: after' ∧
      before'.flatMap Lexeme.chars = before.flatMap Lexeme.chars) ∨
    ∃ before' a p b after', ls = before' ++ a :: p :: b :: after' ∧
      before'.flatMap Lexeme.chars = before.flatMap Lexeme.chars ∧ a.isReal = true ∧
      p.isSign '+' = true ∧ b.isImaginary = true ∧ closesTerm after' = true ∧
      l = ⟨.numeral, a.chars ++ p.chars ++ b.chars⟩ := by
  fun_induction fuse opens ls generalizing before with
  | case1 opens a p b ls hfuse ih =>
    simp only [Bool.and_eq_true] at hfuse
    obtain ⟨⟨⟨⟨-, ha⟩, hp⟩, hb⟩, hafter⟩ := hfuse
    cases before with
    | nil =>
      obtain ⟨rfl, -⟩ := List.cons.inj h
      exact .inr ⟨[], a, p, b, ls, rfl, rfl, ha, hp, hb, hafter, rfl⟩
    | cons l' before =>
      obtain ⟨rfl, htail⟩ := List.cons.inj h
      rcases ih htail with ⟨before', after', rfl, hchars⟩ |
        ⟨before', a', p', b', after', rfl, hchars, hrest⟩
      · exact .inl ⟨a :: p :: b :: before', after', rfl, by simp [hchars]⟩
      · exact .inr ⟨a :: p :: b :: before', a', p', b', after', rfl, by simp [hchars], hrest⟩
  | case2 opens a p b ls hfuse ih =>
    cases before with
    | nil =>
      obtain ⟨rfl, -⟩ := List.cons.inj h
      exact .inl ⟨[], p :: b :: ls, rfl, rfl⟩
    | cons l' before =>
      obtain ⟨rfl, htail⟩ := List.cons.inj h
      rcases ih htail with ⟨before', after', heq, hchars⟩ |
        ⟨before', a', p', b', after', heq, hchars, hrest⟩
      · exact .inl ⟨a :: before', after', by rw [heq]; rfl, by simp [hchars]⟩
      · exact .inr ⟨a :: before', a', p', b', after', by rw [heq]; rfl, by simp [hchars], hrest⟩
  | case3 opens ls hne => exact .inl ⟨before, after, h, rfl⟩

/-- A number token is a numeral or the imaginary unit. -/
theorem isNumber_of_kind {l : Placed} {last : Option TokenKind} (h : l.lexeme.kind last = .number) :
    l.isNumber = true := by
  unfold Lexeme.kind at h
  unfold Placed.isNumber Placed.isWord Placed.text
  split at h
  · next hcls =>
    rw [hcls]
    rfl
  · next hcls =>
    rw [hcls]
    unfold Lexeme.wordKind at h
    split at h
    · next htext =>
      rw [htext]
      rfl
    · split at h <;> cases h
  · cases h
  · cases h
  · split at h <;> cases h

/-! ### What is written -/

/-- Every number token of a text is the imaginary unit, a real or an imaginary numeral, or both
joined. -/
theorem exists_writtenAs {s : String} {t : Token} (h : t ∈ tokenize s) (hk : t.kind = .number) :
    ∃ re im, WrittenAs (lexemes s.toList) t re im := by
  rw [tokenize_eq] at h
  obtain ⟨l, hl, rfl | ⟨last, rfl⟩⟩ := exists_of_mem_tokensAfter h
  · cases hk
  have hnumber := isNumber_of_kind hk
  obtain ⟨before, after, hfuse, hstart⟩ := exists_of_mem_placed hl
  rw [Nat.zero_add] at hstart
  rcases exists_of_fuse hfuse with ⟨before', after', hls, hchars⟩ |
    ⟨before', a, p, b, after', hls, hchars, ha, hp, hb, hafter, hjoined⟩
  · have hmem : l.lexeme ∈ lexemes s.toList := by
      rw [hls]
      exact List.mem_append_right _ List.mem_cons_self
    rw [← hchars] at hstart
    rcases Bool.or_eq_true_iff.1 hnumber with hcls | hword
    · have hcls := eq_of_beq hcls
      have htext : (l.token last).text.toList = l.lexeme.chars := text_of_numeral hcls
      rcases isReal_or_isImaginary hcls with hl | hl
      · obtain ⟨d, hd⟩ := exists_decimal_of_isReal hmem hl
        exact ⟨_, _, .real hls hstart hl htext hd⟩
      · obtain ⟨d, hd⟩ := exists_decimal_of_isImaginary hmem hl
        have hsplit := (isSimple_of_mem_lexemes hmem).splitSum_dropLast hcls
        exact ⟨_, _, .imaginary hls hstart hl htext hsplit hd⟩
    · obtain ⟨hcls, htext⟩ := Bool.and_eq_true_iff.1 hword
      have hcls : l.lexeme.cls = .word := eq_of_beq hcls
      have htext : l.text = "i" := eq_of_beq htext
      have hlower : lower l.lexeme.chars = ['i'] := by
        have hlist := congrArg String.toList htext
        unfold Placed.text Lexeme.text at hlist
        rw [hcls, if_pos (by decide), String.toList_ofList] at hlist
        exact hlist
      exact ⟨_, _, .unit hls hstart hcls (eq_unit_of_lower hlower) htext⟩
  · rw [← hchars] at hstart
    have hamem : a ∈ lexemes s.toList := by
      rw [hls]
      simp
    have hbmem : b ∈ lexemes s.toList := by
      rw [hls]
      simp
    have htext : (l.token last).text.toList = a.chars ++ '+' :: b.chars := by
      have hplus : p.chars = ['+'] := eq_of_beq (Bool.and_eq_true_iff.1 hp).2
      refine (text_of_numeral (l := l) (by rw [hjoined])).trans ?_
      rw [hjoined, hplus, List.append_assoc]
      rfl
    obtain ⟨d, hd⟩ := exists_decimal_of_isReal hamem ha
    obtain ⟨e, he⟩ := exists_decimal_of_isImaginary hbmem hb
    obtain ⟨hsplit, hlast⟩ :=
      isSimple_of_mem_lexemes hamem (eq_of_beq (Bool.and_eq_true_iff.1 ha).1)
    refine ⟨_, _, .complex hls hstart ha hp hb hafter htext ?_ hd he⟩
    rw [htext]
    exact splitSum_dropLast_append (chars_ne_nil_of_mem_lexemes hamem) hsplit hlast
      (chars_ne_nil_of_mem_lexemes hbmem)

/-! ### What is read -/

theorem ne_nil_of_ofNumeral? {cs : List Char} {d : Decimal} (h : Decimal.ofNumeral? cs = some d) :
    cs.isEmpty = false := by
  cases cs with
  | nil => cases h
  | cons => rfl

section Value

variable {R : Type u} [RealArith R] {ls : List Lexeme} {t : Token} {re im : Option Decimal}

theorem realValue?_of_ofNumeral? {cs : List Char} {d : Decimal}
    (h : Decimal.ofNumeral? cs = some d) : realValue? cs = some (ofDecimal d : R) := by
  unfold realValue?
  rw [h]
  rfl

/-- The reader converts the parts that the lexer has taken. -/
theorem WrittenAs.literalValue?_eq (h : WrittenAs ls t re im) :
    literalValue? t.text.toList = some (valueOfParts re im : Complex R) := by
  cases h with
  | unit _ _ _ _ htext =>
    rw [htext]
    rfl
  | real _ _ hl htext hd =>
    obtain ⟨-, hunit⟩ := Bool.and_eq_true_iff.1 hl
    rw [Bool.not_eq_true'] at hunit
    rw [htext, literalValue?, hunit, if_neg Bool.false_ne_true, realValue?_of_ofNumeral? hd]
    rfl
  | imaginary _ _ hl htext hsplit hd =>
    rw [htext, literalValue?, if_pos (Bool.and_eq_true_iff.1 hl).2, imaginaryValue?,
      ne_nil_of_ofNumeral? hd, if_neg Bool.false_ne_true, hsplit]
    show (realValue? _ : Option R).map (fun im => (⟨0, im⟩ : Complex R)) = _
    rw [realValue?_of_ofNumeral? hd]
    rfl
  | @complex before after a p b d e _ _ _ _ hb _ htext hsplit hd he =>
    have hunit : t.text.toList.getLast?.any isUnit = true := by
      have hbs : b.chars ≠ [] := fun hnil => by
        rw [hnil] at he
        cases he
      rw [htext, getLast?_join _ hbs]
      exact (Bool.and_eq_true_iff.1 hb).2
    have hbody : t.text.toList.dropLast.isEmpty = false := by
      cases hnil : t.text.toList.dropLast with
      | nil =>
        rw [hnil] at hsplit
        cases hsplit
      | cons => rfl
    rw [literalValue?, if_pos hunit, imaginaryValue?, hbody, if_neg Bool.false_ne_true, hsplit]
    dsimp only
    rw [ne_nil_of_ofNumeral? he, if_neg Bool.false_ne_true, realValue?_of_ofNumeral? hd,
      realValue?_of_ofNumeral? he]
    rfl

/-- Where zero and one are finite, a number is finite if and only if its written parts are. -/
theorem isFinite_valueOfParts (hzero : RealArith.isFinite (0 : R) = true)
    (hone : RealArith.isFinite (1 : R) = true) : (valueOfParts re im : Complex R).isFinite = true ↔
      ∀ d, re = some d ∨ im = some d → RealArith.isFinite (ofDecimal d : R) = true := by
  cases re with
  | none =>
    cases im with
    | none =>
      refine ⟨fun _ d hd => ?_, fun _ => Bool.and_eq_true_iff.2 ⟨hzero, hone⟩⟩
      rcases hd with hd | hd <;> cases hd
    | some e =>
      refine ⟨fun h d hd => ?_, fun h => Bool.and_eq_true_iff.2 ⟨hzero, h e (.inr rfl)⟩⟩
      rcases hd with hd | hd
      · cases hd
      · cases hd
        exact (Bool.and_eq_true_iff.1 h).2
  | some d =>
    cases im with
    | none =>
      refine ⟨fun h d' hd => ?_, fun h => Bool.and_eq_true_iff.2 ⟨h d (.inl rfl), hzero⟩⟩
      rcases hd with hd | hd
      · cases hd
        exact (Bool.and_eq_true_iff.1 h).1
      · cases hd
    | some e =>
      refine ⟨fun h d' hd => ?_,
        fun h => Bool.and_eq_true_iff.2 ⟨h d (.inl rfl), h e (.inr rfl)⟩⟩
      rcases hd with hd | hd
      · cases hd
        exact (Bool.and_eq_true_iff.1 h).1
      · cases hd
        exact (Bool.and_eq_true_iff.1 h).2

end Value

/-- The lexer and the reader of numbers agree. Every number token of a text is written in one of four
ways, and its value has the parts that are written. It is refused if and only if one of them is
infinite. -/
theorem readNumber_of_mem_tokenize {s : String} {t : Token} (h : t ∈ tokenize s)
    (hk : t.kind = .number) : ∃ re im, WrittenAs (lexemes s.toList) t re im ∧
      literalValue? t.text.toList = some (valueOfParts re im : Complex Double) ∧
      (readNumber (R := Double) t.text t.start = .error (.badNumber t.text t.start) ↔
        ∃ d, (re = some d ∨ im = some d) ∧ isInfinite (ofDecimal d : Double) = true) ∧
      ((∀ d, re = some d ∨ im = some d → isInfinite (ofDecimal d : Double) = false) →
        readNumber t.text t.start = .ok (valueOfParts re im : Complex Double)) := by
  obtain ⟨re, im, hwritten⟩ := exists_writtenAs h hk
  have hvalue := hwritten.literalValue?_eq (R := Double)
  have hfinite : (valueOfParts re im : Complex Double).isFinite = true ↔
      ∀ d, re = some d ∨ im = some d → isInfinite (ofDecimal d : Double) = false := by
    simp only [Double.isInfinite_ofDecimal, Bool.not_eq_false']
    exact isFinite_valueOfParts (by decide +kernel) (by decide +kernel)
  have hok (hparts : ∀ d, re = some d ∨ im = some d → isInfinite (ofDecimal d : Double) = false) :
      readNumber t.text t.start = .ok (valueOfParts re im : Complex Double) :=
    readNumber_eq_ok_iff.2 ⟨hvalue, hfinite.2 hparts⟩
  refine ⟨re, im, hwritten, hvalue, ⟨fun herror => ?_, ?_⟩, hok⟩
  · by_contra hnone
    have hparts (d : Decimal) (hd : re = some d ∨ im = some d) :
        isInfinite (ofDecimal d : Double) = false :=
      Bool.eq_false_of_not_eq_true fun hinfinite => hnone ⟨d, hd, hinfinite⟩
    rw [hok hparts] at herror
    cases herror
  · rintro ⟨d, hd, hinfinite⟩
    have hnot : ¬(valueOfParts re im : Complex Double).isFinite = true := fun h => by
      rw [hfinite.1 h d hd] at hinfinite
      cases hinfinite
    unfold readNumber
    rw [hvalue]
    exact if_neg hnot

/-- The plus sign of an exponent does not split a numeral, and one infinite part is enough for it to be
refused. -/
theorem readNumber_of_mem_tokenize_exponent :
    literalValue? "1e+5+2e999I".toList =
      some (⟨ofDecimal ⟨1, 5⟩, ofDecimal ⟨2, 999⟩⟩ : Complex Double) ∧
    readNumber (R := Double) "1e+5+2e999I" 0 = .error (.badNumber "1e+5+2e999I" 0) := by
  have hmem : ⟨.number, "1e+5+2e999I", 0, 11⟩ ∈ tokenize "1e+5+2e999I" := by
    decide +kernel
  obtain ⟨re, im, hwritten, hvalue, hbad, -⟩ := readNumber_of_mem_tokenize hmem rfl
  have hsplit : splitSum "1e+5+2e999I".toList.dropLast =
      some ("1e+5".toList, "2e999".toList) := by
    decide +kernel
  cases hwritten with
  | unit _ _ _ _ htext => exact absurd htext (by decide)
  | real _ _ hl htext _ =>
    have hunit := (Bool.and_eq_true_iff.1 hl).2
    rw [← htext] at hunit
    exact absurd hunit (by decide +kernel)
  | imaginary _ _ _ htext hnone _ =>
    rw [← htext, hsplit] at hnone
    cases hnone
  | complex _ _ _ _ _ _ _ hparts hd he =>
    rw [hsplit] at hparts
    obtain ⟨ha, hb⟩ := Prod.mk.inj (Option.some.inj hparts)
    rw [← ha, show Decimal.ofNumeral? "1e+5".toList = some ⟨1, 5⟩ by decide +kernel] at hd
    rw [← hb, show Decimal.ofNumeral? "2e999".toList = some ⟨2, 999⟩ by decide +kernel] at he
    cases hd
    cases he
    exact ⟨hvalue, hbad.2 ⟨⟨2, 999⟩, .inr rfl, by decide +kernel⟩⟩

end Formulary

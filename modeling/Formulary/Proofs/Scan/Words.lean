import Formulary.Proofs.Grammar.Blanks
import Formulary.Proofs.Grammar.NumberTokens
import Formulary.Proofs.Printing.Names
import Formulary.Proofs.Scan.Places

/-!
# Words on their own

The token of a variable or of a function keeps its word in lower case. On its own this text is read
as the same token again, unless the dotted capital `İ` was written in the word: its lower case ends
in a combining dot, which no name goes on with and which is part of no other lexeme either.

* `IsStray c`: the character is part of no lexeme but one of its own.
* `exists_unknown_of_isStray`: wherever a stray character stands it is an unknown token.
* `exists_word_of_mem_tokenize`: the word that a token was read from.
* `tokenize_of_isWordText`: the one token of a word in lower case.
* `not_isApply_of_dot_mem`: the name of no function has the combining dot in it.
* **`tokenize_text_of_mem_tokenize`**: the statement for every word of every text.
* `tokenize_text_dotted`: the lower case of the word `İ` is no word.
-/

namespace Formulary

open Text

/-! ### Stray characters -/

/-- Names, numerals, signs and blanks are written without the character. -/
structure IsStray (c : Char) : Prop where
  nameContinue : isNameContinue c = false
  numeralChar : isNumeralChar c = false
  sign : (Operator.ofChar? c).isSome = false
  blank : isBlank c = false

/-- The combining dot of the lower case of `İ`. -/
theorem isStray_dot : IsStray '\u0307' where
  nameContinue := by decide +kernel
  numeralChar := by decide
  sign := by decide
  blank := by decide

namespace IsStray

variable {c : Char} (hc : IsStray c)

include hc

/-- A first lexeme with a stray character is that character. -/
theorem firstLexeme_of_mem {d : Char} {s : List Char} (h : c ∈ (firstLexeme d s).chars) :
    firstLexeme d s = ⟨.unknown, [c]⟩ := by
  have hne {p : Char → Bool} {e : Char} (hp : p c = false) (he : p e = true) : c ≠ e := by
    rintro rfl
    rw [hp] at he
    cases he
  have hrun {p : Char → Bool} (hp : p c = false) (hd : p d = true) :
      c ∉ d :: s.takeWhile p := by
    intro h
    rcases List.mem_cons.1 h with h | h
    · exact hne hp hd h
    · exact hne hp (List.mem_takeWhile_imp h) rfl
  rcases firstLexeme_cases d s with ⟨-, hl⟩ | ⟨hd, hl⟩ | ⟨hd, hl⟩ | ⟨hd, hl⟩ | ⟨-, hl⟩
  · rw [hl] at h
    exact absurd rfl (hne hc.numeralChar (isNumeralChar_of_mem_takeNumeral h))
  · rw [hl] at h
    exact absurd h (hrun hc.nameContinue (isNameContinue_of_isNameStart hd))
  · rw [hl] at h
    exact absurd (List.mem_singleton.1 h)
      (hne (p := fun c => (Operator.ofChar? c).isSome) hc.sign hd)
  · rw [hl] at h
    exact absurd h (hrun hc.blank hd)
  · rw [hl] at h ⊢
    rw [List.mem_singleton.1 h]

theorem mem_lexemes {s : List Char} (h : c ∈ s) : ⟨.unknown, [c]⟩ ∈ lexemes s := by
  fun_induction lexemes s with
  | case1 => cases h
  | case2 d s l ih =>
    have hsplit : c ∈ l.chars ++ s.drop (l.chars.length - 1) := by
      rw [firstLexeme_append]
      exact h
    rcases List.mem_append.1 hsplit with h | h
    · exact List.mem_cons.2 (.inl (hc.firstLexeme_of_mem h).symm)
    · exact List.mem_cons_of_mem _ (ih h)

end IsStray

/-- Only numerals and signs are fused. -/
theorem mem_fuse_of_unknown {opens : Bool} {ls : List Lexeme} {l : Lexeme} (h : l ∈ ls)
    (hl : l.cls = .unknown) : l ∈ fuse opens ls := by
  fun_induction fuse opens ls with
  | case1 opens a p b ls hfuse ih =>
    simp only [Bool.and_eq_true, Lexeme.isReal, Lexeme.isSign, Lexeme.isImaginary,
      beq_iff_eq] at hfuse
    obtain ⟨⟨⟨⟨-, ha, -⟩, hp, -⟩, hb, -⟩, -⟩ := hfuse
    have hne {m : Lexeme} {k : LexemeClass} (hm : m.cls = k) (hk : k ≠ .unknown) : l ≠ m := by
      rintro rfl
      exact hk (hm.symm.trans hl)
    have hrest : l ∈ ls := by
      simpa [hne ha (by decide), hne hp (by decide), hne hb (by decide)] using h
    exact List.mem_cons_of_mem _ (ih hrest)
  | case2 opens a p b ls hfuse ih =>
    rcases List.mem_cons.1 h with rfl | h
    · exact List.mem_cons_self
    · exact List.mem_cons_of_mem _ (ih h)
  | case3 opens ls hshort => exact h

/-- A lexeme that is not blank has its place. -/
theorem exists_mem_placed {l : Lexeme} (hblank : (l.cls == .blank) = false) {ls : List Lexeme}
    (h : l ∈ ls) (pos : Nat) : ∃ start, ⟨l, start⟩ ∈ placed pos ls := by
  induction ls generalizing pos with
  | nil => cases h
  | cons m ls ih =>
    rcases List.mem_cons.1 h with rfl | h
    · rw [placed_cons pos ls hblank]
      exact ⟨pos, List.mem_cons_self⟩
    · obtain ⟨start, hstart⟩ := ih h (pos + byteLength m.chars)
      refine ⟨start, ?_⟩
      simp only [placed]
      split
      · exact hstart
      · exact List.mem_cons_of_mem _ hstart

/-- A stray character of a text is an unknown token of it. -/
theorem exists_unknown_of_isStray {c : Char} (hc : IsStray c) {s : String} (h : c ∈ s.toList) :
    ∃ t ∈ tokenize s, t.kind = .unknown ∧ t.text = String.ofList [c] := by
  have hmem : ⟨.unknown, [c]⟩ ∈ fuse true (lexemes s.toList) :=
    mem_fuse_of_unknown (hc.mem_lexemes h) rfl
  obtain ⟨start, hplaced⟩ := exists_mem_placed rfl hmem 0
  obtain ⟨last, htoken⟩ := token_mem_tokensAfter hplaced none
  rw [tokenize_eq]
  exact ⟨_, htoken, rfl, rfl⟩

/-! ### The word of a token -/

/-- No character stands for the application of a function. -/
theorem ofChar?_ne_apply (c : Char) (f : Builtin) : Operator.ofChar? c ≠ some (.apply f) := by
  unfold Operator.ofChar?
  split <;> simp

/-- Only words apply functions. -/
theorem cls_of_kind_apply {l : Lexeme} {last : Option TokenKind} {f : Builtin}
    (h : l.kind last = .operator (.apply f)) : l.cls = .word := by
  unfold Lexeme.kind at h
  split at h
  · cases h
  · assumption
  · cases h
  · cases h
  · split at h
    · split at h <;> cases h
    · next op _ hop =>
      cases h
      obtain ⟨c, -, hc⟩ := Option.bind_eq_some_iff.1 hop
      exact absurd hc (ofChar?_ne_apply c f)
    · cases h

/-- The token of a variable or of a function has the lower case of a word of the text, and is what a
word with this lower case becomes. -/
theorem exists_word_of_mem_tokenize {s : String} {t : Token} (h : t ∈ tokenize s)
    (hk : t.kind = .name ∨ t.isApply = true) :
    ∃ cs, isWordText cs = true ∧ slice s t.start t.stop = String.ofList cs ∧
      t.text = String.ofList (lower cs) ∧ t.kind = Lexeme.wordKind t.text := by
  rw [tokenize_eq] at h
  obtain ⟨l, hl, rfl | ⟨last, rfl⟩⟩ := exists_of_mem_tokensAfter h
  · -- a multiplication that is not written is neither
    rcases hk with hk | hk <;> cases hk
  have hcls : l.lexeme.cls = .word := by
    rcases hk with hk | hk
    · exact cls_of_kind_name hk
    · unfold Token.isApply at hk
      split at hk
      · next happly => exact cls_of_kind_apply happly
      · cases hk
  obtain ⟨before, after, hfuse, hstart⟩ := exists_of_mem_placed hl
  rw [Nat.zero_add] at hstart
  have hplace : TextAt s l.start (l.lexeme.chars ++ after.flatMap Lexeme.chars) := by
    refine ⟨before.flatMap Lexeme.chars, ?_, hstart⟩
    rw [← flatMap_chars_lexemes s.toList, ← flatMap_chars_fuse true, hfuse, List.flatMap_append,
      List.flatMap_cons]
  have hword := isWordText_of_mem_lexemes (mem_lexemes_of_word hl hcls) hcls
  refine ⟨l.lexeme.chars, hword, hplace.slice_eq, ?_, ?_⟩
  · show l.lexeme.text = _
    rw [Lexeme.text, hcls]
    rfl
  · show l.lexeme.kind last = Lexeme.wordKind l.lexeme.text
    rw [Lexeme.kind, hcls]

/-- A word in lower case has one token. -/
theorem tokenize_of_isWordText {cs : List Char} (hword : isWordText cs = true)
    (hlower : lower cs = cs) : tokenize (String.ofList cs) =
      [⟨Lexeme.wordKind (String.ofList cs), String.ofList cs, 0,
        (String.ofList cs).utf8ByteSize⟩] := by
  have hlexemes : lexemes cs = [⟨.word, cs⟩] := by
    have hread := (readsBack_of_isPlain (.word hword)).lexemes_eq
    rwa [List.flatMap_singleton] at hread
  have hwritten : written (String.ofList cs) = [⟨⟨.word, cs⟩, 0⟩] := by
    rw [written, String.toList_ofList, hlexemes]
    rfl
  have htext : Lexeme.text ⟨.word, cs⟩ = String.ofList cs := congrArg String.ofList hlower
  have hsize : byteLength cs = (String.ofList cs).utf8ByteSize := by
    rw [← byteLength_toList, String.toList_ofList]
  rw [tokenize_eq, hwritten, tokensAfter_of_expects expects_none]
  show [Token.mk (Lexeme.wordKind (Lexeme.text ⟨.word, cs⟩)) (Lexeme.text ⟨.word, cs⟩) 0
    (0 + byteLength cs)] = _
  rw [htext, hsize, Nat.zero_add]

/-! ### The combining dot -/

theorem named?_of_dot_mem {name : String} (h : '\u0307' ∈ name.toList) :
    Builtin.named? name = none := by
  refine Option.eq_none_iff_forall_ne_some.2 fun f hf => ?_
  have hname : f.name = String.ofList (foldText name.toList) :=
    eq_of_beq (List.find?_some (p := fun f : Builtin => f.name == _) hf)
  have hdot : '\u0307' ∈ f.name.toList := by
    rw [hname, String.toList_ofList]
    exact List.mem_map.2 ⟨_, h, by decide⟩
  revert hdot
  cases f <;> decide

/-- A word with the combining dot in its lower case applies no function. -/
theorem not_isApply_of_dot_mem {t : Token} (hkind : t.kind = Lexeme.wordKind t.text)
    (h : '\u0307' ∈ t.text.toList) : t.isApply = false := by
  unfold Token.isApply
  rw [hkind, Lexeme.wordKind, named?_of_dot_mem h]
  split_ifs <;> rfl

/-! ### Every word of every text -/

/-- The text that the token of a variable or of a function keeps, read on its own, is one token, of
the same kind and with the same text, if and only if no dotted capital `İ` was written in its word.
Where one was, the token is that of a variable, and its text has a character in it that belongs to
nothing. -/
theorem tokenize_text_of_mem_tokenize {s : String} {t : Token} (h : t ∈ tokenize s)
    (hk : t.kind = .name ∨ t.isApply = true) :
    (tokenize t.text = [⟨t.kind, t.text, 0, t.text.utf8ByteSize⟩] ↔
      'İ' ∉ (slice s t.start t.stop).toList) ∧
    ('İ' ∈ (slice s t.start t.stop).toList → t.kind = .name ∧
      ∃ u ∈ tokenize t.text, u.kind = .unknown ∧ u.text = "\u0307") := by
  obtain ⟨cs, hword, hslice, htext, hkind⟩ := exists_word_of_mem_tokenize h hk
  rw [hslice, String.toList_ofList]
  have hread (hdot : 'İ' ∉ cs) :
      tokenize t.text = [⟨t.kind, t.text, 0, t.text.utf8ByteSize⟩] := by
    rw [hkind, htext]
    exact tokenize_of_isWordText (isWordText_lower hdot hword) (lower_lower cs)
  have hstray (hdot : 'İ' ∈ cs) : t.kind = .name ∧
      ∃ u ∈ tokenize t.text, u.kind = .unknown ∧ u.text = "\u0307" := by
    have hmem : '\u0307' ∈ t.text.toList := by
      rw [htext, String.toList_ofList]
      exact dot_mem_lower hdot
    refine ⟨hk.resolve_right ?_, exists_unknown_of_isStray isStray_dot hmem⟩
    rw [not_isApply_of_dot_mem hkind hmem]
    exact Bool.false_ne_true
  refine ⟨⟨fun hone hdot => ?_, hread⟩, hstray⟩
  -- the one token is a variable, and the combining dot is not
  obtain ⟨hname, u, hu, hunknown, -⟩ := hstray hdot
  rw [hone] at hu
  rw [List.mem_singleton.1 hu, hname] at hunknown
  cases hunknown

/-- The last sigma of a word is still its last when the word stands on its own. -/
theorem tokenize_text_of_mem_tokenize_sigma :
    ⟨.operator (.apply .log), "log", 0, 3⟩ ∈ tokenize "LOG ΣΑΣ" ∧
    ⟨.name, "σας", 4, 10⟩ ∈ tokenize "LOG ΣΑΣ" ∧
    tokenize "log" = [⟨.operator (.apply .log), "log", 0, 3⟩] ∧
    tokenize "σας" = [⟨.name, "σας", 0, 6⟩] := by
  have hlog : ⟨.operator (.apply .log), "log", 0, 3⟩ ∈ tokenize "LOG ΣΑΣ" := by decide +kernel
  have hname : ⟨.name, "σας", 4, 10⟩ ∈ tokenize "LOG ΣΑΣ" := by decide +kernel
  exact ⟨hlog, hname,
    (tokenize_text_of_mem_tokenize hlog (.inr rfl)).1.2 (by decide +kernel),
    (tokenize_text_of_mem_tokenize hname (.inl rfl)).1.2 (by decide +kernel)⟩

/-- The word `İ` is a variable, but its lower case is the imaginary unit and a combining dot. -/
theorem tokenize_text_dotted : tokenize "İ" = [⟨.name, "i\u0307", 0, 2⟩] ∧
    tokenize "i\u0307" = [⟨.number, "i", 0, 1⟩, ⟨.unknown, "\u0307", 1, 3⟩] := by
  decide +kernel

end Formulary

import Formulary.Proofs.Scan.Lexemes

/-!
# One token after the other

What is not read falls into lexemes that become tokens, and the scanner reads the first of these
tokens. What is left is again a text whose tokens are the others, since the kind of the last token
is all that they depend on.

* `tokensFrom last pos cs`: the tokens of the text `cs` that is not read.
* `Scanner.Reads a cs rest`: the scanner reads the first token of `cs` and leaves `rest`.
* `exists_numberEnd`: numbers, real, imaginary and complex.
* `Scanner.exists_reads`: one token of a text that is not at its end.
* `Scanner.next_of_end`: at the end nothing changes.
* **`Scanner.exists_after`**: after any number of readings the tokens that are left are those of the
  text without as many of the first.
-/

namespace Formulary

open Text

/-! ### The tokens that are left -/

/-- The tokens of the text that is not read, after a token of kind `last`. -/
def tokensFrom (last : Option TokenKind) (pos : Nat) (cs : List Char) : List Token :=
  classify last pos (fuse (startsTerm last) (lexemes cs))

theorem tokensFrom_nil (last : Option TokenKind) (pos : Nat) : tokensFrom last pos [] = [] := by
  rw [tokensFrom, lexemes]
  rfl

section Classify

variable {last : Option TokenKind} {l : Lexeme}

theorem classify_of_blank (h : (l.cls == .blank) = true) (pos : Nat) (ls : List Lexeme) :
    classify last pos (l :: ls) = ⟨.blank, l.text, pos, pos + byteLength l.chars⟩ ::
      classify last (pos + byteLength l.chars) ls := by
  simp only [classify]
  rw [if_pos h]

theorem classify_of_plain (h : (l.cls == .blank) = false)
    (hvalue : (l.startsValue && last.any TokenKind.endsValue) = false) (pos : Nat)
    (ls : List Lexeme) : classify last pos (l :: ls) =
      ⟨l.kind last, l.text, pos, pos + byteLength l.chars⟩ ::
        classify (some (l.kind last)) (pos + byteLength l.chars) ls := by
  simp only [classify]
  rw [h, if_neg Bool.false_ne_true, hvalue, if_neg Bool.false_ne_true]

theorem not_isBlank_of_startsValue (h : l.startsValue = true) : (l.cls == .blank) = false := by
  unfold Lexeme.startsValue at h
  cases hcls : l.cls with
  | blank =>
    rw [hcls] at h
    cases h
  | _ => rfl

/-- A value after a value is read as after the multiplication before it. -/
theorem classify_of_value (hstart : l.startsValue = true)
    (hends : last.any TokenKind.endsValue = true) (pos : Nat) (ls : List Lexeme) :
    classify last pos (l :: ls) =
      impliedProduct pos :: classify (some (.operator .mul)) pos (l :: ls) := by
  have hblank := not_isBlank_of_startsValue hstart
  have hmul : (l.startsValue && (some (.operator .mul)).any TokenKind.endsValue) = false :=
    Bool.and_false _
  rw [classify_of_plain hblank hmul]
  simp only [classify]
  rw [hblank, if_neg Bool.false_ne_true, hstart, hends]
  rfl

end Classify

/-! ### One token -/

namespace Scanner

variable {a : Scanner} {c : Char} {cs rest : List Char} {l : Lexeme}

/-- The scanner reads the first token of the text `cs` and leaves the text `rest`. -/
structure Reads (a : Scanner) (cs rest : List Char) : Prop where
  text : a.next.2.text = a.text
  place : TextAt a.text a.next.2.pos rest
  start : a.next.1.start = a.pos
  stop : a.next.1.stop = a.next.2.pos
  tokens : tokensFrom a.last a.pos cs =
    a.next.1 :: tokensFrom a.next.2.last a.next.2.pos rest

/-- A lexeme that is no blank is read as its token. -/
theorem reads_lexeme (h : TextAt a.text a.pos (l.chars ++ rest)) (htidy : l.IsTidy)
    (hblank : (l.cls == .blank) = false)
    (hvalue : (l.startsValue && a.last.any TokenKind.endsValue) = false)
    (hfuse : fuse (startsTerm a.last) (lexemes (l.chars ++ rest)) =
      l :: fuse (l.isSign '(' || l.isSign '+') (lexemes rest))
    (hnext : a.next = a.read (l.kind a.last) l.text (a.pos + byteLength l.chars)) :
    a.Reads (l.chars ++ rest) rest := by
  refine ⟨by rw [hnext]; rfl, by rw [hnext]; exact h.advance, by rw [hnext]; rfl,
    by rw [hnext]; rfl, ?_⟩
  rw [tokensFrom, hfuse, classify_of_plain hblank hvalue, ← startsTerm_kind htidy a.last, hnext]
  rfl

/-- What is read where no multiplication is implied. -/
theorem next_of_plain (h : TextAt a.text a.pos (c :: cs))
    (hvalue : ((firstLexeme c cs).startsValue && a.last.any TokenKind.endsValue) = false) :
    a.next =
      if startsNumeral (c :: cs) then
        a.read .number (slice a.text a.pos a.numberEnd) a.numberEnd
      else if isNameStart c then
        let stop := skipWhile isNameContinue a.text a.pos
        let text := String.ofList (lower (slice a.text a.pos stop).toList)
        a.read (Lexeme.wordKind text) text stop
      else
        let stop := a.pos + c.utf8Size
        match Operator.ofChar? c with
        | some op =>
          let op := if op == .sub && Lexeme.minusNegates a.last then .neg else op
          a.read (.operator op) (slice a.text a.pos stop) stop
        | none =>
          if isBlank c then
            let stop := skipWhile isBlank a.text a.pos
            (⟨.blank, slice a.text a.pos stop, a.pos, stop⟩, { a with pos := stop })
          else a.read .unknown (slice a.text a.pos stop) stop := by
  rw [startsValue_firstLexeme, ← h.startsNumeralAt_eq] at hvalue
  unfold next
  rw [h.charAt?_eq, ← h.startsNumeralAt_eq]
  exact if_neg (ne_true_of_eq_false hvalue)

/-! ### Numbers -/

/-- Where a numeral starts, the first lexeme after fusing is a numeral that ends where the scanner
finds the number to end. -/
theorem exists_numberEnd (hstart : startsNumeral cs = true) (h : TextAt a.text a.pos cs) :
    ∃ l rest, l.cls = .numeral ∧ cs = l.chars ++ rest ∧
      a.numberEnd = a.pos + byteLength l.chars ∧
      fuse (startsTerm a.last) (lexemes cs) = l :: fuse false (lexemes rest) := by
  obtain ⟨rest, hrest⟩ := takeNumeral_isPrefix cs
  have hdrop : cs.drop (takeNumeral cs).length = rest := by
    nth_rewrite 2 [← hrest]
    exact List.drop_left
  have hplace := h.drop (takeNumeral_isPrefix cs)
  rw [hdrop] at hplace
  simp only [numberEnd, h.numeralEnd_eq, h.endsInUnit_eq hstart, complexEnd?_eq hplace]
  rw [lexemes_numeral hstart, hdrop]
  by_cases hunit : (takeNumeral cs).getLast?.any isUnit = true
  · refine ⟨⟨.numeral, takeNumeral cs⟩, rest, rfl, hrest.symm, if_pos hunit, ?_⟩
    refine fuse_cons fun p b ls _ hreal _ _ => ?_
    simp [Lexeme.isReal, hunit] at hreal
  · rw [Bool.not_eq_true] at hunit
    rw [fuse_numeral hunit, hunit, if_neg Bool.false_ne_true]
    cases htail : complexTail (startsTerm a.last) rest with
    | none => exact ⟨⟨.numeral, takeNumeral cs⟩, rest, rfl, hrest.symm, rfl, rfl⟩
    | some tail =>
      obtain ⟨after, rfl⟩ := complexTail_isPrefix htail
      refine ⟨⟨.numeral, takeNumeral cs ++ tail⟩, after, rfl, ?_, ?_, ?_⟩
      · rw [List.append_assoc, hrest]
      · rw [byteLength_append, ← Nat.add_assoc]
        rfl
      · simp

/-! ### The cases of a reading -/

/-- Before a value after a value a multiplication is read, and nothing of the text. -/
theorem reads_value (h : TextAt a.text a.pos (c :: cs))
    (hstart : (firstLexeme c cs).startsValue = true)
    (hends : a.last.any TokenKind.endsValue = true) : a.Reads (c :: cs) (c :: cs) := by
  have hnext : a.next = (impliedProduct a.pos, { a with last := some (.operator .mul) }) := by
    have hvalue := startsValue_firstLexeme c cs
    rw [hstart, ← h.startsNumeralAt_eq] at hvalue
    unfold next
    rw [h.charAt?_eq, hends]
    simp only [List.head?_cons, ← hvalue, Bool.and_self, if_true]
  have hterm : startsTerm a.last = false := by
    cases hlast : a.last with
    | none =>
      rw [hlast] at hends
      cases hends
    | some k =>
      rw [hlast] at hends
      exact startsTerm_of_endsValue hends
  refine ⟨by rw [hnext], by rw [hnext]; exact h, by rw [hnext]; rfl, by rw [hnext]; rfl, ?_⟩
  obtain ⟨rest, -, hlexemes⟩ := exists_lexemes_cons c cs
  have hfuse : fuse false (lexemes (c :: cs)) = firstLexeme c cs ::
      fuse (opensTerm false (firstLexeme c cs)) (lexemes rest) := by
    rw [hlexemes]
    exact fuse_cons fun _ _ _ _ _ _ _ => rfl
  rw [tokensFrom, hterm, hfuse, classify_of_value hstart hends, ← hfuse, hnext]
  rfl

theorem reads_number (h : TextAt a.text a.pos cs) (hstart : startsNumeral cs = true)
    (hends : a.last.any TokenKind.endsValue = false)
    (hnext : a.next = a.read .number (slice a.text a.pos a.numberEnd) a.numberEnd) :
    ∃ rest, a.Reads cs rest := by
  obtain ⟨l, rest, hcls, rfl, hend, hfuse⟩ := exists_numberEnd hstart h
  have hkind : l.kind a.last = .number := by
    unfold Lexeme.kind
    rw [hcls]
  have htext : l.text = String.ofList l.chars := by
    unfold Lexeme.text
    rw [hcls]
    rfl
  have hsign : (l.isSign '(' || l.isSign '+') = false := by
    unfold Lexeme.isSign
    rw [hcls]
    rfl
  refine ⟨rest, reads_lexeme h (fun hs => ?_) (by rw [hcls]; rfl) (by rw [hends, Bool.and_false])
    (by rw [hsign, hfuse]) ?_⟩
  · rw [hcls] at hs
    cases hs
  · rw [hnext, hend, h.slice_eq, hkind, htext]

/-- A lexeme that is neither a numeral nor a blank is read as it is. -/
theorem reads_unfused (h : TextAt a.text a.pos (c :: cs)) (hfirst : firstLexeme c cs = l)
    (hnumeral : l.cls ≠ .numeral) (hblank : (l.cls == .blank) = false)
    (hvalue : (l.startsValue && a.last.any TokenKind.endsValue) = false)
    (hnext : a.next = a.read (l.kind a.last) l.text (a.pos + byteLength l.chars)) :
    ∃ rest, a.Reads (c :: cs) rest := by
  subst hfirst
  obtain ⟨rest, hcs, hlexemes⟩ := exists_lexemes_cons c cs
  have htidy := isTidy_firstLexeme c cs
  have hfuse : fuse (startsTerm a.last) (lexemes (c :: cs)) = firstLexeme c cs ::
      fuse (opensTerm (startsTerm a.last) (firstLexeme c cs)) (lexemes rest) := by
    rw [hlexemes]
    refine fuse_cons fun _ _ _ _ hreal _ _ => ?_
    exact absurd (eq_of_beq (Bool.and_eq_true_iff.1 hreal).1) hnumeral
  have hopens : opensTerm (startsTerm a.last) (firstLexeme c cs) =
      ((firstLexeme c cs).isSign '(' || (firstLexeme c cs).isSign '+') := by
    unfold opensTerm
    rw [hblank, if_neg Bool.false_ne_true]
  rw [hopens] at hfuse
  generalize firstLexeme c cs = l at *
  rw [hcs] at h hfuse ⊢
  exact ⟨rest, reads_lexeme h htidy hblank hvalue hfuse hnext⟩

theorem reads_word (h : TextAt a.text a.pos (c :: cs)) (hname : isNameStart c = true)
    (hfirst : firstLexeme c cs = ⟨.word, c :: cs.takeWhile isNameContinue⟩)
    (hvalue : ((firstLexeme c cs).startsValue && a.last.any TokenKind.endsValue) = false)
    (hnext : a.next = a.read
      (Lexeme.wordKind (String.ofList
        (lower (slice a.text a.pos (skipWhile isNameContinue a.text a.pos)).toList)))
      (String.ofList (lower (slice a.text a.pos (skipWhile isNameContinue a.text a.pos)).toList))
      (skipWhile isNameContinue a.text a.pos)) : ∃ rest, a.Reads (c :: cs) rest := by
  have hcontinue := isNameContinue_of_isNameStart hname
  rw [h.slice_skipWhile, h.skipWhile_eq, List.takeWhile_cons_of_pos hcontinue,
    String.toList_ofList] at hnext
  refine reads_unfused h hfirst LexemeClass.noConfusion rfl ?_ hnext
  rwa [hfirst] at hvalue

/-- A sign is an operator; a minus negates or subtracts. -/
theorem reads_sign {op : Operator} (h : TextAt a.text a.pos (c :: cs))
    (hop : Operator.ofChar? c = some op)
    (hvalue : ((firstLexeme c cs).startsValue && a.last.any TokenKind.endsValue) = false)
    (hnext : a.next = a.read
      (.operator (if op == .sub && Lexeme.minusNegates a.last then .neg else op))
      (slice a.text a.pos (a.pos + c.utf8Size)) (a.pos + c.utf8Size)) :
    ∃ rest, a.Reads (c :: cs) rest := by
  have hfirst : firstLexeme c cs = ⟨.sign, [c]⟩ := firstLexeme_sign (by rw [hop]; rfl) cs
  have hkind : (⟨.sign, [c]⟩ : Lexeme).kind a.last =
      .operator (if op == .sub && Lexeme.minusNegates a.last then .neg else op) := by
    simp only [Lexeme.kind, List.head?_cons, Option.bind_some, hop]
    cases op <;> rfl
  rw [h.slice_head, ← hkind] at hnext
  rw [hfirst] at hvalue
  exact reads_unfused h hfirst LexemeClass.noConfusion rfl hvalue hnext

theorem reads_unknown (h : TextAt a.text a.pos (c :: cs)) (hfirst : firstLexeme c cs = ⟨.unknown, [c]⟩)
    (hnext : a.next = a.read .unknown (slice a.text a.pos (a.pos + c.utf8Size))
      (a.pos + c.utf8Size)) : ∃ rest, a.Reads (c :: cs) rest := by
  rw [h.slice_head] at hnext
  exact reads_unfused h hfirst LexemeClass.noConfusion rfl rfl hnext

/-- A run of blanks is read without a trace in what is kept. -/
theorem reads_blank (h : TextAt a.text a.pos (c :: cs)) (hblank : isBlank c = true)
    (hnext : a.next = (⟨.blank, slice a.text a.pos (skipWhile isBlank a.text a.pos), a.pos,
      skipWhile isBlank a.text a.pos⟩, { a with pos := skipWhile isBlank a.text a.pos })) :
    a.Reads (c :: cs) (cs.dropWhile isBlank) := by
  have hplace := h.skipWhile isBlank
  have hend := h.skipWhile_eq isBlank
  have htext := h.slice_skipWhile isBlank
  rw [List.dropWhile_cons_of_pos hblank] at hplace
  rw [List.takeWhile_cons_of_pos hblank] at hend htext
  refine ⟨by rw [hnext], by rw [hnext]; exact hplace, by rw [hnext], by rw [hnext], ?_⟩
  have hfuse : fuse (startsTerm a.last) (lexemes (c :: cs)) =
      ⟨.blank, c :: cs.takeWhile isBlank⟩ ::
        fuse (startsTerm a.last) (lexemes (cs.dropWhile isBlank)) := by
    rw [lexemes_blank hblank]
    exact fuse_cons fun _ _ _ _ hreal _ _ => absurd hreal Bool.false_ne_true
  rw [tokensFrom, hfuse, classify_of_blank rfl, hnext]
  simp only [htext]
  rw [hend]
  rfl

/-- A text that goes on is read on. -/
theorem exists_reads (h : TextAt a.text a.pos (c :: cs)) : ∃ rest, a.Reads (c :: cs) rest := by
  by_cases hvalue : ((firstLexeme c cs).startsValue && a.last.any TokenKind.endsValue) = true
  · obtain ⟨hstart, hends⟩ := Bool.and_eq_true_iff.1 hvalue
    exact ⟨_, reads_value h hstart hends⟩
  rw [Bool.not_eq_true] at hvalue
  have hnext := next_of_plain h hvalue
  by_cases hnumeral : startsNumeral (c :: cs) = true
  · rw [if_pos hnumeral] at hnext
    rw [startsValue_firstLexeme, hnumeral] at hvalue
    exact reads_number h hnumeral hvalue hnext
  rw [if_neg hnumeral] at hnext
  by_cases hname : isNameStart c = true
  · have hfirst : firstLexeme c cs = ⟨.word, c :: cs.takeWhile isNameContinue⟩ := by
      unfold firstLexeme
      rw [if_neg hnumeral, if_pos hname]
    rw [if_pos hname] at hnext
    exact reads_word h hname hfirst hvalue hnext
  rw [if_neg hname] at hnext
  cases hop : Operator.ofChar? c with
  | some op =>
    rw [hop] at hnext
    exact reads_sign h hop hvalue hnext
  | none =>
    rw [hop] at hnext
    dsimp only at hnext
    by_cases hblank : isBlank c = true
    · rw [if_pos hblank] at hnext
      exact ⟨_, reads_blank h hblank hnext⟩
    · rw [if_neg hblank] at hnext
      have hfirst : firstLexeme c cs = ⟨.unknown, [c]⟩ := by
        unfold firstLexeme
        rw [if_neg hnumeral, if_neg hname, hop, if_neg (by simp), if_neg hblank]
      exact reads_unknown h hfirst hnext

/-! ### At the end -/

/-- Once the text is read nothing changes. -/
theorem next_of_end (h : TextAt a.text a.pos []) : a.next = (endToken a.text, a) := by
  unfold next
  rw [h.charAt?_eq]
  rfl

/-! ### Any number of readings -/

/-- After any number of readings the tokens that are left are those of the text without as many of
the first. -/
theorem exists_after (s : String) (n : Nat) : ((start s).after n).text = s ∧
    ∃ rest, TextAt s ((start s).after n).pos rest ∧
      tokensFrom ((start s).after n).last ((start s).after n).pos rest =
        (tokensWithBlanks s).drop n := by
  induction n with
  | zero => exact ⟨rfl, s.toList, TextAt.start s, rfl⟩
  | succ n ih =>
    obtain ⟨htext, rest, hplace, htokens⟩ := ih
    rw [← List.tail_drop, ← htokens]
    change (((start s).after n).next.2).text = s ∧ ∃ rest,
      TextAt s ((start s).after n).next.2.pos rest ∧
        tokensFrom ((start s).after n).next.2.last ((start s).after n).next.2.pos rest = _
    generalize (start s).after n = a at *
    subst htext
    cases rest with
    | nil =>
      rw [next_of_end hplace, tokensFrom_nil]
      exact ⟨rfl, [], hplace, tokensFrom_nil _ _⟩
    | cons c cs =>
      obtain ⟨rest, hreads⟩ := exists_reads hplace
      rw [hreads.tokens]
      exact ⟨hreads.text, rest, hreads.place, rfl⟩

variable (s : String) (n : Nat)

/-- The readings give the tokens of the text in turn, and then end tokens. -/
theorem token_eq_tokenAt : (start s).token n = tokenAt s n := by
  obtain ⟨htext, rest, hplace, htokens⟩ := exists_after s n
  unfold token tokenAt
  rw [← List.head?_drop, ← htokens]
  generalize (start s).after n = a at *
  subst htext
  cases rest with
  | nil =>
    rw [next_of_end hplace, tokensFrom_nil]
    rfl
  | cons c cs =>
    obtain ⟨rest, hreads⟩ := exists_reads hplace
    rw [hreads.tokens]
    rfl

/-- A token starts where the scanner stands before it, and stops where it stands after it. -/
theorem pos_after : ((start s).after n).pos = ((start s).token n).start ∧
    ((start s).after (n + 1)).pos = ((start s).token n).stop := by
  obtain ⟨htext, rest, hplace, -⟩ := exists_after s n
  show ((start s).after n).pos = ((start s).after n).next.1.start ∧
    ((start s).after n).next.2.pos = ((start s).after n).next.1.stop
  generalize (start s).after n = a at *
  subst htext
  cases rest with
  | nil =>
    rw [next_of_end hplace]
    exact ⟨hplace.add_byteLength, hplace.add_byteLength⟩
  | cons c cs =>
    obtain ⟨rest, hreads⟩ := exists_reads hplace
    exact ⟨hreads.start.symm, hreads.stop.symm⟩

theorem isValid_after : String.Pos.Raw.IsValid s ⟨((start s).after n).pos⟩ := by
  obtain ⟨-, rest, hplace, -⟩ := exists_after s n
  exact hplace.isValid

/-- After the last token nothing changes. -/
theorem next_after (h : (tokensWithBlanks s).length ≤ n) :
    ((start s).after n).next = (endToken s, (start s).after n) := by
  obtain ⟨htext, rest, hplace, htokens⟩ := exists_after s n
  rw [List.drop_eq_nil_of_le h] at htokens
  generalize (start s).after n = a at *
  subst htext
  cases rest with
  | nil => exact next_of_end hplace
  | cons c cs =>
    obtain ⟨rest, hreads⟩ := exists_reads hplace
    rw [hreads.tokens] at htokens
    cases htokens

end Scanner

end Formulary

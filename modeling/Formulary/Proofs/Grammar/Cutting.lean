import Formulary.Proofs.Grammar.Blanks
import Formulary.Proofs.Grammar.LetterCase
import Formulary.Proofs.Grammar.Numerals

/-!
# Texts cut between lexemes

A numeral and a word are as long as they can be, and to see where they end the lexer looks past
them: at an exponent mark that has no digits, at a point that has none, at a unit that goes on into
a name. A text that is cut off where a lexeme ends has nothing to go on with there, and a blank is
nothing to go on with either. Either way the lexemes before stay as they are.

* `takeDigits_cut`, `takeFraction_cut`, `takeExponent_cut`: the parts of a numeral that end before a
  cut.
* `CutsUnit`, `KeepsCut`: what ends before a cut stays, unless what the cut leaves after it is a unit.
* `keepsCut_takeNumeral`, `firstLexeme_cut`: a whole numeral, and any lexeme.
* **`lexemes_cut`**: the lexemes of a text that is cut between two of them.
* **`placed_lexemes_append`**: the lexemes of a text that goes on with a blank.
-/

namespace Formulary

open Text

/-! ### The parts of a numeral -/

theorem takeWhile_cut {p : Char → Bool} {cs rest : List Char}
    (h : (cs ++ rest).takeWhile p <+: cs) : cs.takeWhile p = (cs ++ rest).takeWhile p := by
  induction cs with
  | nil => exact (List.prefix_nil.1 h).symm
  | cons c cs ih =>
    rw [List.cons_append] at h ⊢
    by_cases hc : p c = true
    · rw [List.takeWhile_cons_of_pos hc] at h
      rw [List.takeWhile_cons_of_pos hc, List.takeWhile_cons_of_pos hc,
        ih (List.cons_prefix_cons.1 h).2]
    · rw [List.takeWhile_cons_of_neg hc, List.takeWhile_cons_of_neg hc]

theorem takeDigits_cut {cs rest : List Char} (h : takeDigits (cs ++ rest) <+: cs) :
    takeDigits cs = takeDigits (cs ++ rest) :=
  takeWhile_cut h

theorem startsDigit_append {cs : List Char} (h : startsDigit cs = true) (rest : List Char) :
    startsDigit (cs ++ rest) = true := by
  cases cs with
  | nil => cases h
  | cons c cs => exact h

/-- Digits that end before a cut start before it. -/
theorem startsDigit_cut {cs rest : List Char} (hstart : startsDigit (cs ++ rest) = true)
    (h : takeDigits (cs ++ rest) <+: cs) : startsDigit cs = true := by
  cases cs with
  | nil =>
    obtain ⟨d, ds, hds⟩ := exists_of_startsDigit hstart
    rw [hds] at h
    cases List.prefix_nil.1 h
  | cons c cs => exact hstart

/-- Characters with digits after them, if there are any. -/
theorem optionalDigits_cut (before : List Char) {cs rest : List Char}
    (h : (if startsDigit (cs ++ rest) then before ++ takeDigits (cs ++ rest) else []) <+:
      before ++ cs) :
    (if startsDigit cs then before ++ takeDigits cs else []) =
      if startsDigit (cs ++ rest) then before ++ takeDigits (cs ++ rest) else [] := by
  by_cases hstart : startsDigit (cs ++ rest) = true
  · rw [if_pos hstart] at h
    have hdigits := (List.prefix_append_right_inj before).1 h
    rw [if_pos hstart, if_pos (startsDigit_cut hstart hdigits), takeDigits_cut hdigits]
  · have hnone : ¬ startsDigit cs = true := fun hcs => hstart (startsDigit_append hcs rest)
    rw [if_neg hstart, if_neg hnone]

theorem takeFraction_cut {cs rest : List Char} (h : takeFraction (cs ++ rest) <+: cs) :
    takeFraction cs = takeFraction (cs ++ rest) := by
  cases cs with
  | nil => exact (List.prefix_nil.1 h).symm
  | cons c cs =>
    rw [List.cons_append, takeFraction_cons] at h ⊢
    rw [takeFraction_cons]
    by_cases hpoint : c = '.'
    · subst hpoint
      exact optionalDigits_cut ['.'] h
    · rw [beq_false_of_ne hpoint]
      rfl

/-- An exponent mark at a cut has no exponent. -/
theorem takeExponent_cut_mark {m : Char} {rest : List Char} (h : takeExponent (m :: rest) <+: [m]) :
    takeExponent [m] = takeExponent (m :: rest) := by
  have hnil : takeExponent [m] = [] := by
    simp only [takeExponent]
    split <;> rfl
  rcases exists_of_takeExponent (m :: rest) with hrest | ⟨m', gs, r, d, ds, hrest, hr, -, -⟩
  · rw [hnil, hrest]
  · have hlength := h.length_le
    rw [hrest, hr, List.length_cons, List.length_append, List.length_cons,
      List.length_singleton] at hlength
    omega

theorem takeExponent_cut {cs rest : List Char} (h : takeExponent (cs ++ rest) <+: cs) :
    takeExponent cs = takeExponent (cs ++ rest) := by
  cases cs with
  | nil => exact (List.prefix_nil.1 h).symm
  | cons m cs =>
    cases cs with
    | nil => exact takeExponent_cut_mark h
    | cons g cs =>
      simp only [List.cons_append, takeExponent] at h ⊢
      by_cases hm : isExponentMark m = true
      · rw [if_pos hm] at h
        rw [if_pos hm, if_pos hm]
        by_cases hstart : startsDigit (g :: cs ++ rest) = true
        · have hcs : startsDigit (g :: cs) = true := hstart
          rw [List.cons_append] at hstart
          rw [if_pos hstart] at h
          rw [if_pos hstart, if_pos hcs, takeDigits_cut (List.cons_prefix_cons.1 h).2]
          rfl
        · have hcs : ¬ startsDigit (g :: cs) = true := hstart
          rw [List.cons_append] at hstart
          rw [if_neg hstart] at h
          rw [if_neg hstart, if_neg hcs]
          by_cases hg : isSign g = true
          · simp only [hg, Bool.true_and] at h ⊢
            exact optionalDigits_cut [m, g] h
          · rw [Bool.eq_false_iff.2 hg]
            rfl
      · rw [if_neg hm, if_neg hm]

/-- The cut is after the first character of a name, and that character is an imaginary unit. -/
def CutsUnit (cs rest : List Char) : Prop :=
  ∃ c, cs = [c] ∧ isUnit c = true ∧ rest.head?.any isNameContinue = true

/-- What is taken from a text before a cut is taken from the cut text, unless what the cut leaves
after it is a unit. -/
def KeepsCut (take : List Char → List Char) (rest : List Char) : Prop :=
  ∀ cs, take (cs ++ rest) <+: cs → take cs = take (cs ++ rest) ∨
    ∃ after, cs = take (cs ++ rest) ++ after ∧ CutsUnit after rest

theorem keepsCut_takeUnit (rest : List Char) : KeepsCut takeUnit rest := by
  intro cs h
  cases cs with
  | nil => exact .inl (List.prefix_nil.1 h).symm
  | cons c cs =>
    cases cs with
    | nil =>
      by_cases hcut : isUnit c = true ∧ rest.head?.any isNameContinue = true
      · refine .inr ⟨[c], ?_, c, rfl, hcut⟩
        simp [takeUnit, hcut.2]
      · refine .inl ?_
        simp only [takeUnit, List.cons_append, List.nil_append]
        by_cases hc : isUnit c = true
        · have hname : rest.head?.any isNameContinue = false :=
            Bool.eq_false_iff.2 fun hname => hcut ⟨hc, hname⟩
          rw [hname]
          rfl
        · rw [Bool.eq_false_iff.2 hc]
          rfl
    | cons d cs => exact .inl rfl

/-- First one part is taken, and then another one from what is left. -/
def takeBoth (first second : List Char → List Char) (cs : List Char) : List Char :=
  first cs ++ second (cs.drop (first cs).length)

theorem keepsCut_takeBoth {first second : List Char → List Char} {rest : List Char}
    (hfirst : ∀ cs, first (cs ++ rest) <+: cs → first cs = first (cs ++ rest))
    (hsecond : KeepsCut second rest) : KeepsCut (takeBoth first second) rest := by
  intro cs h
  obtain ⟨after, hafter⟩ := h
  unfold takeBoth at hafter ⊢
  rw [List.append_assoc] at hafter
  rw [hfirst cs ⟨_, hafter⟩]
  generalize first (cs ++ rest) = part at hafter ⊢
  generalize hcut : second ((cs ++ rest).drop part.length) = part' at hafter ⊢
  subst hafter
  rw [List.append_assoc, List.drop_left] at hcut
  rw [List.drop_left]
  rcases hsecond (part' ++ after) ⟨after, by rw [hcut]⟩ with heq | ⟨after', hsplit, hunit⟩
  · exact .inl (by rw [heq, hcut])
  · rw [hcut] at hsplit
    exact .inr ⟨after', by rw [hsplit, List.append_assoc], hunit⟩

theorem takeNumeral_eq : takeNumeral =
    takeBoth takeDigits (takeBoth takeFraction (takeBoth takeExponent takeUnit)) := by
  funext cs
  simp only [takeNumeral, takeBoth, List.append_assoc]

/-- A numeral that ends before a cut stays as it is, unless what the cut leaves after it is a unit. -/
theorem keepsCut_takeNumeral (rest : List Char) : KeepsCut takeNumeral rest := by
  rw [takeNumeral_eq]
  exact keepsCut_takeBoth (fun _ => takeDigits_cut) (keepsCut_takeBoth (fun _ => takeFraction_cut)
    (keepsCut_takeBoth (fun _ => takeExponent_cut) (keepsCut_takeUnit rest)))

/-! ### Lexemes -/

theorem startsNumeral_append {cs : List Char} (h : startsNumeral cs = true) (rest : List Char) :
    startsNumeral (cs ++ rest) = true := by
  cases cs with
  | nil => cases h
  | cons c cs =>
    rw [startsNumeral_cons] at h
    rw [List.cons_append, startsNumeral_cons]
    split at h
    · next hpoint =>
      rw [if_pos hpoint]
      exact startsDigit_append h rest
    · next hpoint =>
      rw [if_neg hpoint]
      exact h

/-- A numeral that ends before a cut starts before it. -/
theorem startsNumeral_cut {cs rest : List Char} (hstart : startsNumeral (cs ++ rest) = true)
    (h : takeNumeral (cs ++ rest) <+: cs) : startsNumeral cs = true := by
  cases cs with
  | nil => exact absurd (List.prefix_nil.1 h) (takeNumeral_ne_nil hstart)
  | cons c cs =>
    rw [List.cons_append, startsNumeral_cons] at hstart
    rw [startsNumeral_cons]
    by_cases hpoint : c = '.'
    · subst hpoint
      have hstart : startsDigit (cs ++ rest) = true := hstart
      have hdigits : takeDigits (cs ++ rest) <+: cs := by
        have hfraction : takeFraction ('.' :: (cs ++ rest)) <+: '.' :: cs := by
          refine List.IsPrefix.trans ?_ h
          rw [takeNumeral_eq]
          exact List.prefix_append _ _
        rw [takeFraction_cons, if_pos (by simpa using hstart)] at hfraction
        exact (List.cons_prefix_cons.1 hfraction).2
      exact startsDigit_cut hstart hdigits
    · rw [if_neg (by simpa using hpoint)] at hstart ⊢
      exact hstart

/-- A lexeme that ends before a cut stays as it is, unless what the cut leaves after it is a unit. -/
theorem firstLexeme_cut {c : Char} {cs rest : List Char}
    (h : (firstLexeme c (cs ++ rest)).chars <+: c :: cs) :
    firstLexeme c cs = firstLexeme c (cs ++ rest) ∨
      ∃ after, c :: cs = (firstLexeme c (cs ++ rest)).chars ++ after ∧ CutsUnit after rest := by
  by_cases hnumeral : startsNumeral (c :: (cs ++ rest)) = true
  · have hfirst : firstLexeme c (cs ++ rest) = ⟨.numeral, takeNumeral (c :: cs ++ rest)⟩ :=
      if_pos hnumeral
    rw [hfirst] at h ⊢
    have hcut : firstLexeme c cs = ⟨.numeral, takeNumeral (c :: cs)⟩ :=
      if_pos (startsNumeral_cut hnumeral h)
    rw [hcut]
    exact (keepsCut_takeNumeral rest (c :: cs) h).imp_left fun heq => by rw [heq]
  · have hcut : ¬ startsNumeral (c :: cs) = true := fun hcs =>
      hnumeral (startsNumeral_append hcs rest)
    refine .inl ?_
    unfold firstLexeme at h ⊢
    rw [if_neg hnumeral] at h
    rw [if_neg hnumeral, if_neg hcut]
    split
    · next hname =>
      rw [if_pos hname] at h
      rw [takeWhile_cut (List.cons_prefix_cons.1 h).2]
    · next hname =>
      rw [if_neg hname] at h
      split
      · rfl
      · next hsign =>
        rw [if_neg hsign] at h
        split
        · next hblank =>
          rw [if_pos hblank] at h
          rw [takeWhile_cut (List.cons_prefix_cons.1 h).2]
        · rfl

/-- In front of a name the imaginary unit is no lexeme: it begins a word. -/
theorem CutsUnit.flatMap_chars_ne {cs rest : List Char} (h : CutsUnit cs rest) {ls rs : List Lexeme}
    (hls : lexemes (cs ++ rest) = ls ++ rs) : ls.flatMap Lexeme.chars ≠ cs := by
  obtain ⟨u, rfl, hu, hrest⟩ := h
  cases rest with
  | nil => cases hrest
  | cons d rest =>
    have hu : u = 'i' ∨ u = 'I' := by simpa [isUnit] using hu
    have hd : isNameContinue d = true := hrest
    have hnumeral : startsNumeral (u :: d :: rest) = false := by
      rcases hu with rfl | rfl <;> rfl
    have hname : isNameStart u = true := by
      rcases hu with rfl | rfl <;> decide
    have hfirst : firstLexeme u (d :: rest) =
        ⟨.word, u :: d :: rest.takeWhile isNameContinue⟩ := by
      unfold firstLexeme
      rw [hnumeral, if_neg Bool.false_ne_true, if_pos hname, List.takeWhile_cons_of_pos hd]
    cases ls with
    | nil => exact (List.cons_ne_nil u []).symm
    | cons l ls =>
      have hls : lexemes (u :: d :: rest) = l :: (ls ++ rs) := hls
      rw [← firstLexeme_eq hls, hfirst, List.flatMap_cons]
      intro hchars
      have hlength := congrArg List.length hchars
      simp at hlength

/-- Both sides of a text that is cut between two of its lexemes have the lexemes they had. -/
theorem lexemes_cut {cs rest : List Char} {ls rs : List Lexeme}
    (h : lexemes (cs ++ rest) = ls ++ rs) (hls : ls.flatMap Lexeme.chars = cs) :
    lexemes cs = ls ∧ lexemes rest = rs := by
  induction ls generalizing cs with
  | nil =>
    subst hls
    exact ⟨by rw [List.flatMap_nil, lexemes], h⟩
  | cons l ls ih =>
    cases cs with
    | nil =>
      have hl : l ∈ lexemes rest := by
        rw [show lexemes rest = l :: ls ++ rs from h]
        exact List.mem_append_left _ List.mem_cons_self
      rw [List.flatMap_cons, List.append_eq_nil_iff] at hls
      exact absurd hls.1 (chars_ne_nil_of_mem_lexemes hl)
    | cons c cs =>
      obtain ⟨after, hafter, hcons⟩ := exists_lexemes_cons c (cs ++ rest)
      obtain ⟨rfl, hrest⟩ := List.cons.inj (hcons.symm.trans h)
      rw [List.flatMap_cons] at hls
      have heq : after = ls.flatMap Lexeme.chars ++ rest := by
        rw [← List.cons_append, ← hls, List.append_assoc] at hafter
        exact (List.append_cancel_left hafter).symm
      rw [heq] at hrest
      obtain ⟨hleft, hright⟩ := ih hrest rfl
      rcases firstLexeme_cut ⟨_, hls⟩ with hfirst | ⟨left, hsplit, hcut⟩
      · obtain ⟨left, hsplit, hlexemes⟩ := exists_lexemes_cons c cs
        rw [hfirst, ← hls] at hsplit
        rw [hlexemes, hfirst, ← List.append_cancel_left hsplit, hleft]
        exact ⟨rfl, hright⟩
      · rw [← hls] at hsplit
        rw [← List.append_cancel_left hsplit] at hcut
        exact absurd rfl (hcut.flatMap_chars_ne hrest)

/-! ### In front of a blank -/

theorem not_isNumeralChar_of_isBlank {c : Char} (h : isBlank c = true) : isNumeralChar c = false :=
  not_of_isBlank (by decide +kernel) h

/-- No lexeme but a run of blanks has a blank in it. -/
theorem not_isBlank_of_mem_firstLexeme {c d : Char} {cs : List Char} (hc : isBlank c = false)
    (h : d ∈ (firstLexeme c cs).chars) : isBlank d = false := by
  refine Bool.eq_false_iff.2 fun hd => ?_
  have hne : d ≠ c := by
    rintro rfl
    rw [hc] at hd
    cases hd
  rcases firstLexeme_cases c cs with ⟨-, hl⟩ | ⟨-, hl⟩ | ⟨-, hl⟩ | ⟨hblank, -⟩ | ⟨-, hl⟩
  · rw [hl] at h
    have hnumeral := isNumeralChar_of_mem_takeNumeral h
    rw [not_isNumeralChar_of_isBlank hd] at hnumeral
    cases hnumeral
  · rw [hl] at h
    have hmem : d ∈ cs.takeWhile isNameContinue := (List.mem_cons.1 h).resolve_left hne
    have hname : isNameContinue d = true := List.all_eq_true.1 List.all_takeWhile d hmem
    rw [not_isNameContinue_of_isBlank hd] at hname
    cases hname
  · rw [hl] at h
    exact hne (List.mem_singleton.1 h)
  · rw [hc] at hblank
    cases hblank
  · rw [hl] at h
    exact hne (List.mem_singleton.1 h)

/-- A text in which nothing is blank and that begins another one ends before its first blank. -/
theorem isPrefix_of_not_isBlank {ls cs rest : List Char} (h : ls <+: cs ++ rest)
    (hls : ∀ c ∈ ls, isBlank c = false) (hrest : ∀ c ∈ rest.head?, isBlank c = true) : ls <+: cs := by
  obtain ⟨after, hafter⟩ := h
  rcases List.append_eq_append_iff.1 hafter with ⟨before, rfl, -⟩ | ⟨before, rfl, rfl⟩
  · exact List.prefix_append ls before
  · cases before with
    | nil => rw [List.append_nil]
    | cons d before =>
      have hblank := hrest d rfl
      rw [hls d (by simp)] at hblank
      cases hblank

/-- In front of a blank the first lexeme is what it is in front of nothing. -/
theorem firstLexeme_append_blank {c : Char} {cs rest : List Char} (hc : isBlank c = false)
    (hrest : ∀ c ∈ rest.head?, isBlank c = true) :
    firstLexeme c cs = firstLexeme c (cs ++ rest) := by
  obtain ⟨after, hafter, -⟩ := exists_lexemes_cons c (cs ++ rest)
  have hchars : (firstLexeme c (cs ++ rest)).chars <+: c :: cs :=
    isPrefix_of_not_isBlank ⟨after, hafter.symm⟩ (fun _ => not_isBlank_of_mem_firstLexeme hc) hrest
  rcases firstLexeme_cut hchars with hfirst | ⟨_, -, u, -, -, hname⟩
  · exact hfirst
  · cases rest with
    | nil => cases hname
    | cons d rest =>
      have hname : isNameContinue d = true := hname
      rw [not_isNameContinue_of_isBlank (hrest d rfl)] at hname
      cases hname

/-- A text that goes on with a blank has the lexemes it has alone, and then come those of the rest. -/
theorem placed_lexemes_append (pos : Nat) {cs rest : List Char}
    (hrest : ∀ c ∈ rest.head?, isBlank c = true) : placed pos (lexemes (cs ++ rest)) =
      placed pos (lexemes cs) ++ placed (pos + byteLength cs) (lexemes rest) := by
  induction h : cs.length using Nat.strong_induction_on generalizing pos cs with
  | _ n ih =>
    subst h
    cases cs with
    | nil =>
      rw [lexemes]
      rfl
    | cons c cs =>
      by_cases hc : isBlank c = true
      · rw [List.cons_append, placed_lexemes_blank hc, placed_lexemes_blank hc,
          ih cs.length (by simp) _ rfl, Nat.add_assoc]
        rfl
      · have hc := Bool.eq_false_iff.2 hc
        have hfirst : firstLexeme c cs = firstLexeme c (cs ++ rest) :=
          firstLexeme_append_blank hc hrest
        obtain ⟨left, hleft, hcons⟩ := exists_lexemes_cons c cs
        obtain ⟨after, hafter, hcons'⟩ := exists_lexemes_cons c (cs ++ rest)
        rw [← hfirst, ← List.cons_append, hleft, List.append_assoc] at hafter
        have hblank : ((firstLexeme c cs).cls == .blank) = false := (cls_firstLexeme c cs).trans hc
        have hshort : left.length < (c :: cs).length := by
          obtain ⟨t, ht, -⟩ := firstLexeme_chars c cs
          rw [hleft, ht, List.length_append, List.length_cons]
          omega
        rw [List.cons_append, hcons', ← hfirst, ← List.append_cancel_left hafter, hcons,
          placed_cons _ _ hblank, placed_cons _ _ hblank, ih left.length hshort _ rfl, hleft,
          byteLength_append, List.cons_append, Nat.add_assoc]

end Formulary

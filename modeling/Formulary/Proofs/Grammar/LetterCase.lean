import Mathlib
import Formulary.Token.PostOrder

/-!
# Letter case in lexemes and tokens

Scanning asks characters only questions that a capital and its small letter answer alike, so two
texts that differ in case fall into lexemes of the same classes and lengths. Words become tokens in
lower case, and all other tokens keep the case in which they were written.

* `foldText`: a text with its Latin capitals turned small.
* `Character`, `character_foldCase`: what is asked of a character, and that its case does not count.
* `takeNumeral_foldText`, `lexemes_foldText`, `fuse_folded`: scanning does not see case.
* `lower_foldText`: nor does lower case, be there other letters in the text.
* `Token.caseless`: a token without the case of its text, names apart.
* **`tokenize_caseless`**: texts that differ in case have the same tokens without case.
-/

namespace Formulary

open Text

/-- The text with its Latin capitals turned small. -/
def foldText (s : List Char) : List Char :=
  s.map Builtin.foldCase

/-! ### Characters -/

/-- What folding changes of no capital it changes of no character. -/
theorem apply_foldCase {β : Type} {p : Char → β}
    (h : ∀ n < 26, p (Char.ofNat (65 + n + 32)) = p (Char.ofNat (65 + n))) (c : Char) :
    p (Builtin.foldCase c) = p c := by
  unfold Builtin.foldCase
  split
  · next hc =>
    have hlo : 65 ≤ c.toNat := hc.1
    have hhi : c.toNat ≤ 90 := hc.2
    have hn := h (c.toNat - 65) (by omega)
    rwa [Nat.add_sub_cancel' hlo, Char.ofNat_toNat] at hn
  · rfl

/-- What scanning and lower case ask of a character. -/
structure Character where
  digit : Bool
  blank : Bool
  nameStart : Bool
  nameContinue : Bool
  unit : Bool
  exponentMark : Bool
  sign : Bool
  operator : Option Operator
  bytes : Nat
  ignorable : Bool
  cased : Bool
  sigma : Bool
  lower : List Char
  folded : Char
  deriving DecidableEq

/-- The answers for a character. -/
def Character.of (c : Char) : Character where
  digit := isDigit c
  blank := isBlank c
  nameStart := isNameStart c
  nameContinue := isNameContinue c
  unit := isUnit c
  exponentMark := isExponentMark c
  sign := isSign c
  operator := Operator.ofChar? c
  bytes := c.utf8Size
  ignorable := isCaseIgnorable c
  cased := isCased c
  sigma := c == 'Σ'
  lower := lowerChar c
  folded := Builtin.foldCase c

/-- A capital and its small letter give the same answers. -/
theorem character_foldCase (c : Char) :
    Character.of (Builtin.foldCase c) = Character.of c :=
  apply_foldCase (by decide +kernel) c

theorem foldCase_foldCase (c : Char) :
    Builtin.foldCase (Builtin.foldCase c) = Builtin.foldCase c :=
  congrArg Character.folded (character_foldCase c)

theorem isDigit_foldCase (c : Char) : isDigit (Builtin.foldCase c) = isDigit c :=
  congrArg Character.digit (character_foldCase c)

theorem isBlank_foldCase (c : Char) : isBlank (Builtin.foldCase c) = isBlank c :=
  congrArg Character.blank (character_foldCase c)

theorem isNameStart_foldCase (c : Char) : isNameStart (Builtin.foldCase c) = isNameStart c :=
  congrArg Character.nameStart (character_foldCase c)

theorem isNameContinue_foldCase (c : Char) :
    isNameContinue (Builtin.foldCase c) = isNameContinue c :=
  congrArg Character.nameContinue (character_foldCase c)

theorem isUnit_foldCase (c : Char) : isUnit (Builtin.foldCase c) = isUnit c :=
  congrArg Character.unit (character_foldCase c)

theorem isExponentMark_foldCase (c : Char) :
    isExponentMark (Builtin.foldCase c) = isExponentMark c :=
  congrArg Character.exponentMark (character_foldCase c)

theorem isSign_foldCase (c : Char) : isSign (Builtin.foldCase c) = isSign c :=
  congrArg Character.sign (character_foldCase c)

theorem ofChar?_foldCase (c : Char) :
    Operator.ofChar? (Builtin.foldCase c) = Operator.ofChar? c :=
  congrArg Character.operator (character_foldCase c)

theorem utf8Size_foldCase (c : Char) : (Builtin.foldCase c).utf8Size = c.utf8Size :=
  congrArg Character.bytes (character_foldCase c)

/-- A character before the letters is the folding of itself only. -/
theorem foldCase_beq {d : Char} (hd : d.toNat < 65) (c : Char) :
    (Builtin.foldCase c == d) = (c == d) := by
  unfold Builtin.foldCase
  split
  · next hc =>
    have hlo : 65 ≤ c.toNat := hc.1
    have hhi : c.toNat ≤ 90 := hc.2
    have hcapital : c ≠ d := by
      rintro rfl
      omega
    have hsmall : Char.ofNat (c.toNat + 32) ≠ d := by
      rintro rfl
      rw [Char.toNat_ofNat, if_pos (.inl (by omega))] at hd
      omega
    rw [beq_eq_false_iff_ne.2 hcapital, beq_eq_false_iff_ne.2 hsmall]
  · rfl

theorem foldText_foldText (s : List Char) : foldText (foldText s) = foldText s := by
  unfold foldText
  rw [List.map_map]
  exact List.map_congr_left fun c _ => foldCase_foldCase c

/-! ### Numerals -/

theorem takeWhile_foldText {p : Char → Bool} (hp : ∀ c, p (Builtin.foldCase c) = p c)
    (s : List Char) : (foldText s).takeWhile p = foldText (s.takeWhile p) := by
  unfold foldText
  rw [List.takeWhile_map, show p ∘ Builtin.foldCase = p from funext hp]

theorem dropWhile_foldText {p : Char → Bool} (hp : ∀ c, p (Builtin.foldCase c) = p c)
    (s : List Char) : (foldText s).dropWhile p = foldText (s.dropWhile p) := by
  unfold foldText
  rw [List.dropWhile_map, show p ∘ Builtin.foldCase = p from funext hp]

theorem all_foldText {p : Char → Bool} (hp : ∀ c, p (Builtin.foldCase c) = p c) (s : List Char) :
    (foldText s).all p = s.all p := by
  unfold foldText
  rw [List.all_map, show p ∘ Builtin.foldCase = p from funext hp]

theorem any_head?_foldText {p : Char → Bool} (hp : ∀ c, p (Builtin.foldCase c) = p c)
    (s : List Char) : (foldText s).head?.any p = s.head?.any p := by
  cases s with
  | nil => rfl
  | cons c s => exact hp c

theorem startsDigit_foldText (s : List Char) : startsDigit (foldText s) = startsDigit s := by
  cases s with
  | nil => rfl
  | cons c s => exact isDigit_foldCase c

theorem startsNumeral_cons (c : Char) (s : List Char) :
    startsNumeral (c :: s) = if c == '.' then startsDigit s else isDigit c := by
  by_cases h : c = '.'
  · subst h
    rfl
  · rw [if_neg (by simpa using h), startsNumeral]
    · rfl
    · rintro t ⟨⟩
      exact h rfl

theorem startsNumeral_foldText (s : List Char) : startsNumeral (foldText s) = startsNumeral s := by
  cases s with
  | nil => rfl
  | cons c s =>
    show startsNumeral (Builtin.foldCase c :: foldText s) = _
    rw [startsNumeral_cons, startsNumeral_cons, foldCase_beq (by decide), startsDigit_foldText,
      isDigit_foldCase]

theorem takeDigits_foldText (s : List Char) : takeDigits (foldText s) = foldText (takeDigits s) :=
  takeWhile_foldText isDigit_foldCase s

theorem takeFraction_cons (c : Char) (s : List Char) :
    takeFraction (c :: s) = if c == '.' && startsDigit s then c :: takeDigits s else [] := by
  by_cases h : c = '.'
  · subst h
    rfl
  · rw [if_neg (by simp [h]), takeFraction]
    rintro t ⟨⟩
    exact h rfl

theorem takeFraction_foldText (s : List Char) :
    takeFraction (foldText s) = foldText (takeFraction s) := by
  cases s with
  | nil => rfl
  | cons c s =>
    show takeFraction (Builtin.foldCase c :: foldText s) = _
    rw [takeFraction_cons, takeFraction_cons, foldCase_beq (by decide), startsDigit_foldText,
      takeDigits_foldText]
    split <;> rfl

theorem takeExponent_foldText (s : List Char) :
    takeExponent (foldText s) = foldText (takeExponent s) := by
  cases s with
  | nil => rfl
  | cons m s =>
    show takeExponent (Builtin.foldCase m :: foldText s) = _
    simp only [takeExponent, isExponentMark_foldCase, startsDigit_foldText, takeDigits_foldText]
    split
    · split
      · rfl
      · cases s with
        | nil => rfl
        | cons g r =>
          show (if isSign (Builtin.foldCase g) && startsDigit (foldText r) then
            _ :: _ :: takeDigits (foldText r) else []) = _
          rw [isSign_foldCase, startsDigit_foldText, takeDigits_foldText]
          dsimp only
          split <;> rfl
    · rfl

theorem takeUnit_foldText (s : List Char) : takeUnit (foldText s) = foldText (takeUnit s) := by
  cases s with
  | nil => rfl
  | cons c s =>
    show takeUnit (Builtin.foldCase c :: foldText s) = _
    rw [takeUnit, takeUnit, isUnit_foldCase, any_head?_foldText isNameContinue_foldCase]
    split <;> rfl

theorem drop_foldText (n : Nat) (s : List Char) : (foldText s).drop n = foldText (s.drop n) :=
  List.map_drop.symm

theorem length_foldText (s : List Char) : (foldText s).length = s.length :=
  List.length_map _

theorem takeNumeral_foldText (s : List Char) :
    takeNumeral (foldText s) = foldText (takeNumeral s) := by
  unfold takeNumeral
  simp only [takeDigits_foldText, takeFraction_foldText, takeExponent_foldText, takeUnit_foldText,
    length_foldText, drop_foldText]
  unfold foldText
  rw [List.map_append, List.map_append, List.map_append]

/-! ### Lexemes -/

/-- The lexeme with the Latin capitals of its text turned small. -/
def Lexeme.folded (l : Lexeme) : Lexeme :=
  { l with chars := foldText l.chars }

theorem firstLexeme_foldText (c : Char) (s : List Char) :
    firstLexeme (Builtin.foldCase c) (foldText s) = (firstLexeme c s).folded := by
  have hnumeral : startsNumeral (Builtin.foldCase c :: foldText s) = startsNumeral (c :: s) :=
    startsNumeral_foldText (c :: s)
  have htake : takeNumeral (Builtin.foldCase c :: foldText s) = foldText (takeNumeral (c :: s)) :=
    takeNumeral_foldText (c :: s)
  unfold firstLexeme
  rw [hnumeral, htake, isNameStart_foldCase, takeWhile_foldText isNameContinue_foldCase,
    ofChar?_foldCase, isBlank_foldCase, takeWhile_foldText isBlank_foldCase]
  split
  · rfl
  · split
    · rfl
    · split
      · rfl
      · split <;> rfl

/-- A text with its capitals turned small falls into the same lexemes, with theirs turned small. -/
theorem lexemes_foldText (s : List Char) :
    lexemes (foldText s) = (lexemes s).map Lexeme.folded := by
  fun_induction lexemes s with
  | case1 => simp [foldText, lexemes]
  | case2 c s l ih =>
    show lexemes (Builtin.foldCase c :: foldText s) = _
    rw [lexemes, firstLexeme_foldText, List.map_cons, ← ih, ← drop_foldText]
    show l.folded :: lexemes ((foldText s).drop ((foldText l.chars).length - 1)) = _
    rw [length_foldText]

theorem isSign_folded (l : Lexeme) {c : Char} (hc : c.toNat < 65) :
    l.folded.isSign c = l.isSign c := by
  have hchars : (foldText l.chars == [c]) = (l.chars == [c]) := by
    cases l.chars with
    | nil => rfl
    | cons d ds =>
      cases ds with
      | nil => exact congrArg (· && true) (foldCase_beq hc d)
      | cons d' ds => exact (Bool.and_false _).trans (Bool.and_false _).symm
  unfold Lexeme.isSign
  rw [show l.folded.chars = foldText l.chars from rfl, hchars]
  rfl

theorem any_isUnit_getLast?_foldText (cs : List Char) :
    (foldText cs).getLast?.any isUnit = cs.getLast?.any isUnit := by
  simp only [foldText, List.getLast?_map, Option.any_map, isUnit_foldCase]

theorem isReal_folded (l : Lexeme) : l.folded.isReal = l.isReal := by
  unfold Lexeme.isReal
  rw [show l.folded.chars = foldText l.chars from rfl, any_isUnit_getLast?_foldText]
  rfl

theorem isImaginary_folded (l : Lexeme) : l.folded.isImaginary = l.isImaginary := by
  unfold Lexeme.isImaginary
  rw [show l.folded.chars = foldText l.chars from rfl, any_isUnit_getLast?_foldText]
  rfl

theorem opensTerm_folded (before : Bool) (l : Lexeme) :
    opensTerm before l.folded = opensTerm before l := by
  unfold opensTerm
  rw [isSign_folded l (by decide), isSign_folded l (by decide)]
  rfl

theorem closesTerm_folded (ls : List Lexeme) :
    closesTerm (ls.map Lexeme.folded) = closesTerm ls := by
  induction ls with
  | nil => rfl
  | cons l ls ih =>
    rw [List.map_cons, closesTerm, closesTerm, ih, isSign_folded l (by decide),
      isSign_folded l (by decide), isSign_folded l (by decide)]
    rfl

/-- Numerals are fused or not whatever their case. -/
theorem fuse_folded (opens : Bool) (ls : List Lexeme) :
    fuse opens (ls.map Lexeme.folded) = (fuse opens ls).map Lexeme.folded := by
  fun_induction fuse opens ls with
  | case1 opens a p b ls h ih =>
    rw [List.map_cons, List.map_cons, List.map_cons, fuse, isReal_folded, isImaginary_folded,
      isSign_folded p (by decide), closesTerm_folded, if_pos h, ih, List.map_cons]
    simp only [Lexeme.folded, foldText, List.map_append]
  | case2 opens a p b ls h ih =>
    rw [List.map_cons, List.map_cons, List.map_cons, fuse, isReal_folded, isImaginary_folded,
      isSign_folded p (by decide), closesTerm_folded, if_neg h, opensTerm_folded, List.map_cons, ← ih]
    rfl
  | case3 opens ls h =>
    rw [fuse]
    intro a p b rest heq
    match ls, h, heq with
    | a' :: p' :: b' :: rest', h, _ => exact h a' p' b' rest' rfl

/-! ### Lower case -/

theorem lowerChar_foldCase (c : Char) : lowerChar (Builtin.foldCase c) = lowerChar c :=
  congrArg Character.lower (character_foldCase c)

theorem reachesCased_foldText (cs : List Char) : reachesCased (foldText cs) = reachesCased cs := by
  have hignorable (c : Char) : isCaseIgnorable (Builtin.foldCase c) = isCaseIgnorable c :=
    congrArg Character.ignorable (character_foldCase c)
  have hcased (c : Char) : isCased (Builtin.foldCase c) = isCased c :=
    congrArg Character.cased (character_foldCase c)
  unfold reachesCased
  rw [dropWhile_foldText hignorable]
  cases cs.dropWhile isCaseIgnorable with
  | nil => rfl
  | cons c cs => exact hcased c

theorem lowerAfter_foldText (before cs : List Char) :
    lowerAfter (foldText before) (foldText cs) = lowerAfter before cs := by
  induction cs generalizing before with
  | nil => rfl
  | cons c cs ih =>
    have hsigma : (Builtin.foldCase c = 'Σ') = (c = 'Σ') := by
      have h : (Builtin.foldCase c == 'Σ') = (c == 'Σ') :=
        congrArg Character.sigma (character_foldCase c)
      rw [Bool.eq_iff_iff, beq_iff_eq, beq_iff_eq] at h
      exact propext h
    have hfinal : isFinalSigma (foldText before) (foldText cs) = isFinalSigma before cs := by
      unfold isFinalSigma
      rw [reachesCased_foldText, reachesCased_foldText]
    show (if Builtin.foldCase c = 'Σ' then
        (if isFinalSigma (foldText before) (foldText cs) then ['ς'] else ['σ'])
        else lowerChar (Builtin.foldCase c)) ++
      lowerAfter (foldText (c :: before)) (foldText cs) = _
    rw [hfinal, lowerChar_foldCase, ih, lowerAfter]
    simp only [hsigma]

/-- The lower case of a text does not depend on the case of its Latin letters. -/
theorem lower_foldText (cs : List Char) : lower (foldText cs) = lower cs :=
  lowerAfter_foldText [] cs

/-! ### Tokens -/

theorem byteLength_foldText (cs : List Char) : byteLength (foldText cs) = byteLength cs := by
  induction cs with
  | nil => rfl
  | cons c cs ih =>
    show (Builtin.foldCase c).utf8Size + byteLength (foldText cs) = _
    rw [utf8Size_foldCase, ih, byteLength]

/-- A word has its text in lower case, so the text does not show the case of the word. -/
theorem text_folded_of_word {l : Lexeme} (h : l.cls = .word) : l.folded.text = l.text := by
  have h' : (l.cls == .word) = true := by rw [h]; rfl
  unfold Lexeme.text
  rw [show l.folded.cls = l.cls from rfl, h', if_pos rfl, if_pos rfl]
  exact congrArg String.ofList (lower_foldText l.chars)

theorem toList_text_of_not_word {l : Lexeme} (h : l.cls ≠ .word) : l.text.toList = l.chars := by
  unfold Lexeme.text
  rw [if_neg (by simpa using h), String.toList_ofList]

theorem kind_folded (last : Option TokenKind) (l : Lexeme) : l.folded.kind last = l.kind last := by
  unfold Lexeme.kind
  rw [show l.folded.cls = l.cls from rfl]
  cases hcls : l.cls with
  | word => rw [text_folded_of_word hcls]
  | sign =>
    have hhead :
        l.folded.chars.head?.bind Operator.ofChar? = l.chars.head?.bind Operator.ofChar? := by
      show (foldText l.chars).head?.bind Operator.ofChar? = _
      cases l.chars with
      | nil => rfl
      | cons c cs => exact ofChar?_foldCase c
    simp only [hhead]
  | _ => rfl

theorem startsValue_folded (l : Lexeme) : l.folded.startsValue = l.startsValue := by
  have h := isSign_folded l (c := '(') (by decide)
  unfold Lexeme.isSign at h
  unfold Lexeme.startsValue
  rw [show l.folded.cls = l.cls from rfl] at h ⊢
  cases hcls : l.cls with
  | sign =>
    rw [hcls] at h
    exact h
  | _ => rfl

/-- Only words become names. -/
theorem cls_of_kind_name {l : Lexeme} {last : Option TokenKind} (h : l.kind last = .name) :
    l.cls = .word := by
  unfold Lexeme.kind at h
  split at h
  · cases h
  · assumption
  · cases h
  · cases h
  · split at h <;> cases h

/-- The token without the case of its text. A name keeps its text, which is in lower case. -/
def Token.caseless (t : Token) : Token :=
  if t.kind = .name then t else { t with text := String.ofList (foldText t.text.toList) }

theorem kind_caseless (t : Token) : t.caseless.kind = t.kind := by
  unfold Token.caseless
  split <;> rfl

theorem start_caseless (t : Token) : t.caseless.start = t.start := by
  unfold Token.caseless
  split <;> rfl

/-- The token of a lexeme is the same but for its case when the lexeme changes its case. -/
theorem caseless_folded (l : Lexeme) (last : Option TokenKind) (start stop : Nat) :
    Token.caseless ⟨l.kind last, l.folded.text, start, stop⟩ =
      Token.caseless ⟨l.kind last, l.text, start, stop⟩ := by
  by_cases hcls : l.cls = .word
  · rw [text_folded_of_word hcls]
  · have hname : l.kind last ≠ .name := fun h => hcls (cls_of_kind_name h)
    unfold Token.caseless
    rw [if_neg hname, if_neg hname, toList_text_of_not_word hcls,
      toList_text_of_not_word (l := l.folded) hcls]
    show Token.mk _ (String.ofList (foldText (foldText l.chars))) _ _ = _
    rw [foldText_foldText]

theorem classify_folded (last : Option TokenKind) (pos : Nat) (ls : List Lexeme) :
    (classify last pos (ls.map Lexeme.folded)).map Token.caseless =
      (classify last pos ls).map Token.caseless := by
  induction ls generalizing last pos with
  | nil => rfl
  | cons l ls ih =>
    have hstop : byteLength l.folded.chars = byteLength l.chars := byteLength_foldText l.chars
    rw [List.map_cons]
    simp only [classify]
    rw [show l.folded.cls = l.cls from rfl, startsValue_folded, hstop, kind_folded, kind_folded]
    split
    · next hblank =>
      have hkind : l.kind last = .blank := by
        rw [Lexeme.kind, eq_of_beq hblank]
      have htoken := caseless_folded l last pos (pos + byteLength l.chars)
      rw [hkind] at htoken
      rw [List.map_cons, List.map_cons, ih, htoken]
    · split
      · rw [List.map_cons, List.map_cons, List.map_cons, List.map_cons, ih, caseless_folded]
      · rw [List.map_cons, List.map_cons, ih, caseless_folded]

/-- Texts that differ in the case of Latin letters have tokens of the same kinds at the same places,
and of the same texts but for case. -/
theorem tokenize_caseless {s t : String} (h : foldText s.toList = foldText t.toList) :
    (tokenize s).map Token.caseless = (tokenize t).map Token.caseless := by
  have hkind : (fun t : Token => t.kind != .blank) ∘ Token.caseless = (·.kind != .blank) := by
    funext t
    exact congrArg (· != .blank) (kind_caseless t)
  have hfold (s : String) : (tokenize s).map Token.caseless =
      ((classify none 0 (fuse true (lexemes (foldText s.toList)))).map Token.caseless).filter
        (·.kind != .blank) := by
    rw [lexemes_foldText, fuse_folded, classify_folded, List.filter_map, hkind]
    rfl
  rw [hfold s, hfold t, h]

end Formulary

import Formulary.Proofs.Grammar.Basic

/-!
# Tokens of placed lexemes

What a lexeme becomes depends on the token before it only through two questions: does a value end
there, and is an operand still to come.

* `Placed.token`, `tokensAfter`: the tokens of placed lexemes after a token of a kind.
* `tokensAfter_placed`: they are the tokens of the text.
* `Expects`: an operand is still to come.
* `kind_of_isNumber`, `kind_of_isName`, `kind_of_function?`, `kind_of_isSign`: the token that
  a terminal of the grammar becomes.
-/

namespace Formulary

namespace Placed

/-- The lexeme as a token, after a token of kind `last`. -/
def token (last : Option TokenKind) (l : Placed) : Token :=
  ⟨l.lexeme.kind last, l.text, l.start, l.start + byteLength l.lexeme.chars⟩

end Placed

/-- The tokens of placed lexemes after a token of kind `last`. -/
def tokensAfter (last : Option TokenKind) : List Placed → List Token
  | [] => []
  | l :: ls =>
    if l.lexeme.startsValue && last.any TokenKind.endsValue then
      impliedProduct l.start :: l.token last :: tokensAfter (some (l.lexeme.kind last)) ls
    else l.token last :: tokensAfter (some (l.lexeme.kind last)) ls

/-! ### They are the tokens of the text -/

/-- Only signs look at the token before them, and among them only the minus. -/
theorem kind_of_startsValue {l : Lexeme} (h : l.startsValue = true) (last last' : Option TokenKind) :
    l.kind last = l.kind last' := by
  unfold Lexeme.startsValue at h
  unfold Lexeme.kind
  split
  · rfl
  · rfl
  · rfl
  · rfl
  · next hcls =>
    rw [hcls] at h
    have hc : l.chars = ['('] := eq_of_beq h
    rw [hc]
    rfl

theorem wordKind_ne_blank (text : String) : Lexeme.wordKind text ≠ .blank := by
  unfold Lexeme.wordKind
  split
  · exact TokenKind.noConfusion
  · split <;> exact TokenKind.noConfusion

theorem kind_ne_blank {l : Lexeme} (h : (l.cls == .blank) = false) (last : Option TokenKind) :
    l.kind last ≠ .blank := by
  unfold Lexeme.kind
  split
  · exact TokenKind.noConfusion
  · exact wordKind_ne_blank _
  · next hcls =>
    rw [hcls] at h
    exact absurd h.symm Bool.false_ne_true
  · exact TokenKind.noConfusion
  · split <;> exact TokenKind.noConfusion

/-- The tokens of placed lexemes are the tokens of the lexemes without the blanks. -/
theorem tokensAfter_placed (last : Option TokenKind) (pos : Nat) (ls : List Lexeme) :
    tokensAfter last (placed pos ls) = (classify last pos ls).filter (·.kind != .blank) := by
  induction ls generalizing last pos with
  | nil => rfl
  | cons l ls ih =>
    simp only [placed, classify]
    cases hblank : l.cls == .blank with
    | true =>
      rw [if_pos rfl, if_pos rfl, List.filter_cons_of_neg (by simp)]
      exact ih last _
    | false =>
      rw [if_neg Bool.false_ne_true, if_neg Bool.false_ne_true]
      simp only [tokensAfter]
      have hkeep (k : Option TokenKind) : (l.kind k != .blank) = true := by
        rw [bne_iff_ne]
        exact kind_ne_blank hblank k
      cases hvalue : l.startsValue && last.any TokenKind.endsValue with
      | true =>
        have hstart := (Bool.and_eq_true_iff.1 hvalue).1
        rw [if_pos rfl, if_pos rfl, kind_of_startsValue hstart (some (.operator .mul)) last,
          List.filter_cons_of_pos (by simp [impliedProduct])]
        simp only [List.filter_cons, hkeep last, if_true, ih]
        rfl
      | false =>
        rw [if_neg Bool.false_ne_true, if_neg Bool.false_ne_true]
        simp only [List.filter_cons, hkeep last, if_true, ih]
        rfl

/-! ### Terminals -/

/-- An operand is still to come after a token of the kind. -/
def Expects (last : Option TokenKind) : Prop :=
  Lexeme.minusNegates last = true ∧ last.any TokenKind.endsValue = false

theorem expects_none : Expects none :=
  ⟨rfl, rfl⟩

theorem expects_operator {o : Operator} (h : o ≠ .closeParen) : Expects (some (.operator o)) := by
  have hb : (o == Operator.closeParen) = false := beq_false_of_ne h
  refine ⟨?_, ?_⟩
  · show (!(o == Operator.closeParen)) = true
    rw [hb]
    rfl
  · exact hb

theorem tokensAfter_of_expects {last : Option TokenKind} (h : Expects last) (l : Placed)
    (ls : List Placed) :
    tokensAfter last (l :: ls) = l.token last :: tokensAfter (some (l.lexeme.kind last)) ls := by
  simp only [tokensAfter]
  rw [h.2, Bool.and_false, if_neg Bool.false_ne_true]

/-- No function is called like the imaginary unit. -/
theorem named?_unit : Builtin.named? "i" = none := by
  decide +kernel

section Kind

variable {l : Placed} (last : Option TokenKind)

theorem kind_of_isNumber (h : l.isNumber = true) : l.lexeme.kind last = .number := by
  unfold Placed.isNumber Placed.isWord at h
  rcases Bool.or_eq_true_iff.1 h with hcls | hword
  · unfold Lexeme.kind
    rw [eq_of_beq hcls]
  · obtain ⟨hcls, htext⟩ := Bool.and_eq_true_iff.1 hword
    unfold Lexeme.kind
    rw [eq_of_beq hcls]
    show Lexeme.wordKind l.text = _
    rw [eq_of_beq htext]
    rfl

theorem kind_of_function? {f : Builtin} (h : l.function? = some f) :
    l.lexeme.kind last = .operator (.apply f) := by
  unfold Placed.function? at h
  split at h
  · next hword =>
    unfold Lexeme.kind
    rw [eq_of_beq hword]
    show Lexeme.wordKind l.text = _
    unfold Lexeme.wordKind
    split
    · next hunit =>
      rw [hunit, named?_unit] at h
      cases h
    · rw [h]
  · cases h

theorem kind_of_isName (h : l.isName = true) : l.lexeme.kind last = .name := by
  unfold Placed.isName at h
  obtain ⟨hword, hnone⟩ := Bool.and_eq_true_iff.1 h
  obtain ⟨hword, hunit⟩ := Bool.and_eq_true_iff.1 hword
  have hfn : Builtin.named? l.text = none := by
    have hf := Option.isNone_iff_eq_none.1 hnone
    unfold Placed.function? at hf
    rw [if_pos hword] at hf
    exact hf
  unfold Lexeme.kind
  rw [eq_of_beq hword]
  show Lexeme.wordKind l.text = _
  unfold Lexeme.wordKind
  rw [if_neg (bne_iff_ne.1 hunit), hfn]

theorem isSign_iff {c : Char} :
    l.isSign c = true ↔ l.lexeme.cls = .sign ∧ l.lexeme.chars = [c] := by
  unfold Placed.isSign Lexeme.isSign
  rw [Bool.and_eq_true, beq_iff_eq, beq_iff_eq]

/-- A sign other than the minus becomes its operator. -/
theorem kind_of_isSign {c : Char} {o : Operator} (h : l.isSign c = true)
    (ho : Operator.ofChar? c = some o) (hsub : o ≠ .sub) : l.lexeme.kind last = .operator o := by
  obtain ⟨hcls, hchars⟩ := isSign_iff.1 h
  have hop : l.lexeme.chars.head?.bind Operator.ofChar? = some o := by
    rw [hchars]
    exact ho
  unfold Lexeme.kind
  rw [hcls, hop]
  cases o <;> first | rfl | exact absurd rfl hsub

theorem kind_of_minus (h : l.isSign '-' = true) :
    l.lexeme.kind last = .operator (if Lexeme.minusNegates last then .neg else .sub) := by
  obtain ⟨hcls, hchars⟩ := isSign_iff.1 h
  unfold Lexeme.kind
  rw [hcls, hchars]
  rfl

end Kind

/-! ### Starts of values -/

theorem startsValue_of_isWord {l : Placed} (h : l.isWord = true) : l.lexeme.startsValue = true := by
  unfold Lexeme.startsValue
  rw [show l.lexeme.cls = .word from eq_of_beq h]

theorem startsValue_of_isNumber {l : Placed} (h : l.isNumber = true) :
    l.lexeme.startsValue = true := by
  rcases Bool.or_eq_true_iff.1 h with hcls | hword
  · unfold Lexeme.startsValue
    rw [eq_of_beq hcls]
  · exact startsValue_of_isWord (Bool.and_eq_true_iff.1 hword).1

theorem startsValue_of_isName {l : Placed} (h : l.isName = true) : l.lexeme.startsValue = true :=
  startsValue_of_isWord (Bool.and_eq_true_iff.1 (Bool.and_eq_true_iff.1 h).1).1

theorem startsValue_of_function? {l : Placed} {f : Builtin} (h : l.function? = some f) :
    l.lexeme.startsValue = true := by
  unfold Placed.function? at h
  split at h
  · next hword => exact startsValue_of_isWord hword
  · cases h

theorem startsValue_of_open {l : Placed} (h : l.isSign '(' = true) :
    l.lexeme.startsValue = true := by
  obtain ⟨hcls, hchars⟩ := isSign_iff.1 h
  unfold Lexeme.startsValue
  rw [hcls, hchars]
  rfl

theorem isSign_unique {l : Placed} {c d : Char} (hc : l.isSign c = true) (hd : l.isSign d = true) :
    c = d := by
  have h := (isSign_iff.1 hc).2
  rw [(isSign_iff.1 hd).2] at h
  exact (List.cons.inj h).1.symm

/-! ### After a value -/

theorem not_startsValue_of_isSign {l : Placed} {c : Char} (h : l.isSign c = true) (hc : c ≠ '(') :
    l.lexeme.startsValue = false := by
  obtain ⟨hcls, hchars⟩ := isSign_iff.1 h
  unfold Lexeme.startsValue
  rw [hcls, hchars]
  exact beq_false_of_ne fun heq => hc (List.cons.inj heq).1

theorem minusNegates_of_endsValue {k : TokenKind} (h : k.endsValue = true) :
    Lexeme.minusNegates (some k) = false := by
  cases k with
  | operator o =>
    have ho : o = .closeParen := eq_of_beq h
    rw [ho]
    rfl
  | _ => rfl

theorem tokensAfter_of_not_startsValue {l : Placed} (last : Option TokenKind) (ls : List Placed)
    (h : l.lexeme.startsValue = false) :
    tokensAfter last (l :: ls) = l.token last :: tokensAfter (some (l.lexeme.kind last)) ls := by
  simp only [tokensAfter]
  rw [h, Bool.false_and, if_neg Bool.false_ne_true]

/-- A value right after a value is read as after a multiplication sign. -/
theorem tokensAfter_juxtaposed {l : Placed} {k : TokenKind} (ls : List Placed)
    (hk : k.endsValue = true) (h : l.lexeme.startsValue = true) :
    tokensAfter (some k) (l :: ls)
      = impliedProduct l.start :: tokensAfter (some (.operator .mul)) (l :: ls) := by
  rw [tokensAfter_of_expects (expects_operator (by decide))]
  simp only [tokensAfter]
  rw [h, Bool.true_and, Option.any_some, hk, if_pos rfl]
  unfold Placed.token
  rw [kind_of_startsValue h (some k) (some (.operator .mul))]

/-- A sign between operands is the operator it joins them with. -/
theorem kind_of_joins {φ : Phrase} {c : Char} {op : BinaryOp} {l : Placed} {k : TokenKind}
    (hl : l.isSign c = true) (hop : φ.joins c = some op) (hk : k.endsValue = true) :
    l.lexeme.kind (some k) = .operator op.operator ∧ l.lexeme.startsValue = false := by
  unfold Phrase.joins at hop
  split at hop
  · cases hop
    exact ⟨kind_of_isSign _ hl rfl (by decide), not_startsValue_of_isSign hl (by decide)⟩
  · cases hop
    rw [kind_of_minus _ hl, minusNegates_of_endsValue hk]
    exact ⟨rfl, not_startsValue_of_isSign hl (by decide)⟩
  · cases hop
    exact ⟨kind_of_isSign _ hl rfl (by decide), not_startsValue_of_isSign hl (by decide)⟩
  · cases hop
    exact ⟨kind_of_isSign _ hl rfl (by decide), not_startsValue_of_isSign hl (by decide)⟩
  · cases hop

end Formulary

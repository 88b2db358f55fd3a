import Formulary.Proofs.Grammar.Rejects

/-!
# Operators between operands

Between two operands of a text there is always an operator that joins them: one that was written or
the multiplication that stands for juxtaposition. What is unknown to the grammar separates, too.

* `TokenKind.startsOperand`: an operand starts with the token.
* `Separate`: no operand starts right after a value.
* `separate_tokenize`: the tokens of a text are separate.
* **`exists_binary_of_separate`**: an operator that joins stands between two values.
-/

namespace Formulary

/-- An operand starts with the token. -/
def TokenKind.startsOperand : TokenKind → Bool
  | .number | .name | .operator (.apply _) | .operator .openParen | .operator .neg => true
  | _ => false

/-- No operand starts right after a token that ends a value; `last` is the kind of the token before
the first one. -/
def Separate (last : Option TokenKind) : List Token → Prop
  | [] => True
  | t :: ts =>
    (last.any TokenKind.endsValue = true → t.kind.startsOperand = false) ∧ Separate (some t.kind) ts

theorem Separate.drop {last : Option TokenKind} {t : Token} {ts us : List Token}
    (h : Separate last (ts ++ t :: us)) : Separate (some t.kind) us := by
  induction ts generalizing last with
  | nil => exact h.2
  | cons u ts ih => exact ih h.2

/-! ### The tokens of a text -/

theorem kind_ne_endOfText (last : Option TokenKind) (l : Lexeme) : l.kind last ≠ .endOfText := by
  unfold Lexeme.kind
  split
  · exact TokenKind.noConfusion
  · unfold Lexeme.wordKind
    split
    · exact TokenKind.noConfusion
    · split <;> exact TokenKind.noConfusion
  · exact TokenKind.noConfusion
  · exact TokenKind.noConfusion
  · split <;> exact TokenKind.noConfusion

/-- What does not start a value in the text does not start an operand after one: its minus
subtracts. -/
theorem not_startsOperand {l : Lexeme} (htidy : l.IsTidy) (hstart : l.startsValue = false)
    {k : TokenKind} (hk : k.endsValue = true) : (l.kind (some k)).startsOperand = false := by
  unfold Lexeme.startsValue at hstart
  unfold Lexeme.kind
  cases hcls : l.cls with
  | numeral =>
    rw [hcls] at hstart
    cases hstart
  | word =>
    rw [hcls] at hstart
    cases hstart
  | blank => rfl
  | unknown => rfl
  | sign =>
    obtain ⟨c, o, hchars, ho⟩ := htidy hcls
    rw [hcls, hchars] at hstart
    rw [hchars]
    unfold Operator.ofChar? at ho
    split at ho
    · cases hstart
    · rfl
    · rfl
    · show (TokenKind.operator (if Lexeme.minusNegates (some k) then _ else _)).startsOperand = false
      rw [minusNegates_of_endsValue hk]
      rfl
    · rfl
    · rfl
    · rfl
    · cases ho

theorem separate_tokensAfter {ls : List Placed} (hls : ∀ l ∈ ls, l.lexeme.IsTidy)
    (last : Option TokenKind) : Separate last (tokensAfter last ls) := by
  induction ls generalizing last with
  | nil => exact trivial
  | cons l ls ih =>
    have hrest := ih (fun l hl => hls l (List.mem_cons_of_mem _ hl)) (some (l.lexeme.kind last))
    simp only [tokensAfter]
    split
    · -- an operand may start after the multiplication
      exact ⟨fun _ => rfl, ⟨fun h => absurd h Bool.false_ne_true, hrest⟩⟩
    · next hjoin =>
      refine ⟨fun hlast => ?_, hrest⟩
      rw [hlast, Bool.and_true, Bool.not_eq_true] at hjoin
      cases last with
      | none => cases hlast
      | some k => exact not_startsOperand (hls l List.mem_cons_self) hjoin hlast

theorem separate_tokenize (s : String) : Separate none (tokenize s) := by
  rw [tokenize_eq]
  exact separate_tokensAfter (fun l hl => (isTidy_of_mem_written hl).1) none

/-- Every token of a text is an operand, an operator or unknown. -/
theorem kind_of_mem_tokenize {s : String} {t : Token} (h : t ∈ tokenize s) :
    t.kind ≠ .blank ∧ t.kind ≠ .endOfText := by
  rw [tokenize_eq] at h
  obtain ⟨l, hl, rfl | ⟨last, rfl⟩⟩ := exists_of_mem_tokensAfter h
  · exact ⟨TokenKind.noConfusion, TokenKind.noConfusion⟩
  · exact ⟨kind_ne_blank (isTidy_of_mem_written hl).2 last, kind_ne_endOfText last l.lexeme⟩

/-! ### Between two values -/

theorem startsOperand_of_isValue {k : TokenKind} (h : k.isValue = true) :
    k.startsOperand = true := by
  cases k with
  | number => rfl
  | name => rfl
  | _ => cases h

theorem endsValue_of_isValue {k : TokenKind} (h : k.isValue = true) : k.endsValue = true := by
  cases k with
  | number => rfl
  | name => rfl
  | _ => cases h

/-- An operator that joins stands between the end of a value and the next one. -/
theorem exists_binary_of_separate {k : TokenKind} {v : Token} {mid after : List Token}
    (h : Separate (some k) (mid ++ v :: after)) (hk : k.endsValue = true)
    (hv : v.kind.isValue = true)
    (hmid : ∀ t ∈ mid, t.kind ≠ .unknown ∧ t.kind ≠ .blank ∧ t.kind ≠ .endOfText) :
    ∃ t ∈ mid, ∃ op : BinaryOp, t.kind = .operator op.operator := by
  induction mid generalizing k with
  | nil =>
    have hstart := h.1 hk
    rw [startsOperand_of_isValue hv] at hstart
    cases hstart
  | cons t mid ih =>
    have hstart := h.1 hk
    obtain ⟨hunknown, hblank, hend⟩ := hmid t List.mem_cons_self
    have hrest (hends : t.kind.endsValue = true) :
        ∃ u ∈ t :: mid, ∃ op : BinaryOp, u.kind = .operator op.operator := by
      obtain ⟨u, hu, hop⟩ := ih h.2 hends fun u hu => hmid u (List.mem_cons_of_mem _ hu)
      exact ⟨u, List.mem_cons_of_mem _ hu, hop⟩
    cases hkind : t.kind with
    | endOfText => exact absurd hkind hend
    | unknown => exact absurd hkind hunknown
    | blank => exact absurd hkind hblank
    | number =>
      rw [hkind] at hstart
      cases hstart
    | name =>
      rw [hkind] at hstart
      cases hstart
    | operator o =>
      cases o with
      | apply f =>
        rw [hkind] at hstart
        cases hstart
      | openParen =>
        rw [hkind] at hstart
        cases hstart
      | neg =>
        rw [hkind] at hstart
        cases hstart
      -- a group has ended, and so has a value
      | closeParen => exact hrest (by rw [hkind]; rfl)
      | add => exact ⟨t, List.mem_cons_self, .add, hkind⟩
      | sub => exact ⟨t, List.mem_cons_self, .sub, hkind⟩
      | mul => exact ⟨t, List.mem_cons_self, .mul, hkind⟩
      | div => exact ⟨t, List.mem_cons_self, .div, hkind⟩
      | pow => exact ⟨t, List.mem_cons_self, .pow, hkind⟩

end Formulary

import Formulary.Proofs.Grammar.Tokens
import Formulary.Proofs.Parse.Conversion

/-!
# What the grammar derives is parsed

The tokens of a derived phrase depend on nothing but an operand being expected there, and each rule
of the grammar is one way for them to convert to the tree that the derivation denotes.

* `Phrase.Converts`: tokens convert to a tree as the phrase asks.
* `Phrase.Reads`: placed lexemes are read as a tree wherever an operand is expected.
* `reads_of_denotes`: derived phrases are read as the tree they denote.
* **`parseTokens_of_denotes`**: derived texts are parsed as the tree they denote.
* `denotes_unique`: the grammar is not ambiguous.
-/

namespace Formulary

universe u

variable {R : Type u} [RealArith R]

/-- The tokens convert to the tree, guarded as the phrase needs it. -/
def Phrase.Converts : Phrase → List Token → Expr (Complex R) → Prop
  | .expr => Formulary.Converts BinaryOp.add.precedence
  | .term => Formulary.Converts BinaryOp.mul.precedence
  | .power => Formulary.Converts BinaryOp.pow.precedence
  | .unary | .primary => ConvertsOperand

/-- Wherever an operand is expected, and whatever follows, the lexemes become tokens that convert to
the tree, and a value ends with them. -/
def Phrase.Reads (φ : Phrase) (ls : List Placed) (a : Expr (Complex R)) : Prop :=
  ∀ last, Expects last → ∀ rest, ∃ ts k, tokensAfter last (ls ++ rest) = ts ++ tokensAfter (some k) rest ∧
    TokenKind.endsValue k = true ∧ φ.Converts ts a

/-! ### One lemma for each shape of rule -/

/-- A lexeme that is a value by itself. -/
theorem Phrase.Reads.terminal {l : Placed} {k : TokenKind} {a : Expr (Complex R)}
    (hk : ∀ last, l.lexeme.kind last = k) (hend : k.endsValue = true)
    (hconv : ∀ last, ConvertsOperand [l.token last] a) : Phrase.primary.Reads [l] a := by
  intro last hlast rest
  refine ⟨[l.token last], k, ?_, hend, hconv last⟩
  rw [List.singleton_append, tokensAfter_of_expects hlast, hk]
  rfl

/-- A lexeme in front of a unary phrase. -/
theorem Phrase.Reads.prefixed {l : Placed} {o : Operator} {ls : List Placed}
    {a b : Expr (Complex R)} (hk : ∀ last, Expects last → l.lexeme.kind last = .operator o)
    (ho : o ≠ .closeParen)
    (hconv : ∀ last, Expects last → ∀ ts, ConvertsOperand ts a → ConvertsOperand (l.token last :: ts) b)
    (ha : Phrase.unary.Reads ls a) : Phrase.unary.Reads (l :: ls) b := by
  intro last hlast rest
  obtain ⟨ts, k, htokens, hend, hts⟩ := ha _ (expects_operator ho) rest
  refine ⟨l.token last :: ts, k, ?_, hend, hconv last hlast ts hts⟩
  rw [List.cons_append, tokensAfter_of_expects hlast, hk last hlast, htokens]
  rfl

theorem Phrase.Reads.group {o c : Placed} {ls : List Placed} {a : Expr (Complex R)}
    (ho : o.isSign '(' = true) (hc : c.isSign ')' = true) (ha : Phrase.expr.Reads ls a) :
    Phrase.primary.Reads (o :: (ls ++ [c])) a := by
  intro last hlast rest
  have hko := kind_of_isSign last ho rfl (by decide)
  obtain ⟨ts, k, htokens, -, hts⟩ := ha _ (expects_operator (o := .openParen) (by decide)) (c :: rest)
  have hkc := kind_of_isSign (some k) hc rfl (by decide)
  refine ⟨o.token last :: (ts ++ [c.token (some k)]), .operator .closeParen, ?_, rfl,
    ConvertsOperand.group hko hkc hts⟩
  rw [List.cons_append, tokensAfter_of_expects hlast, hko, List.append_assoc,
    List.singleton_append, htokens,
    tokensAfter_of_not_startsValue _ _ (not_startsValue_of_isSign hc (by decide)), hkc]
  simp only [List.cons_append, List.append_assoc, List.nil_append]

/-- A phrase of one level is a phrase of the next. -/
theorem Phrase.Reads.widen {φ ψ : Phrase} {ls : List Placed} {a : Expr (Complex R)}
    (hconv : ∀ ts, φ.Converts ts a → ψ.Converts ts a) (h : φ.Reads ls a) : ψ.Reads ls a := by
  intro last hlast rest
  obtain ⟨ts, k, htokens, hend, hts⟩ := h last hlast rest
  exact ⟨ts, k, htokens, hend, hconv ts hts⟩

/-- After a value the lexemes `xs` begin with the operator, written or implied, and go on with the
right operand `rs`. -/
def Separates (op : BinaryOp) (p : Nat) (xs rs : List Placed) : Prop :=
  ∀ k rest, TokenKind.endsValue k = true → ∃ t : Token,
    t.kind = .operator op.operator ∧ t.start = p ∧
    tokensAfter (some k) (xs ++ rest) = t :: tokensAfter (some (.operator op.operator)) (rs ++ rest)

theorem separates_of_kind {op : BinaryOp} {l : Placed} {rs : List Placed}
    (h : ∀ k, TokenKind.endsValue k = true →
      l.lexeme.kind (some k) = .operator op.operator ∧ l.lexeme.startsValue = false) :
    Separates op l.start (l :: rs) rs := by
  intro k rest hk
  obtain ⟨hkind, hstart⟩ := h k hk
  refine ⟨l.token (some k), hkind, rfl, ?_⟩
  rw [List.cons_append, tokensAfter_of_not_startsValue _ _ hstart, hkind]

theorem separates_juxtaposed {l : Placed} {rs : List Placed} (h : l.lexeme.startsValue = true) :
    Separates .mul l.start (l :: rs) (l :: rs) :=
  fun _ rest hk => ⟨impliedProduct l.start, rfl, rfl, tokensAfter_juxtaposed (rs ++ rest) hk h⟩

/-- Two phrases with an operator between them. -/
theorem Phrase.Reads.binary {φ ψ χ : Phrase} {op : BinaryOp} {p : Nat} {ls xs rs : List Placed}
    {a b : Expr (Complex R)} (ha : φ.Reads ls a) (hb : ψ.Reads rs b) (hsep : Separates op p xs rs)
    (hleft : ∀ ts, φ.Converts ts a → Formulary.Converts op.leftLevel ts a)
    (hright : ∀ us, ψ.Converts us b → Formulary.Converts op.rightLevel us b)
    (hresult : χ.Converts (R := R) = Formulary.Converts op.precedence) :
    χ.Reads (ls ++ xs) (.binary op a b (some p)) := by
  intro last hlast rest
  obtain ⟨ts, k, htokens, hend, hts⟩ := ha last hlast (xs ++ rest)
  obtain ⟨t, hkt, rfl, hxs⟩ := hsep k rest hend
  have hop : op.operator ≠ .closeParen := by cases op <;> decide
  obtain ⟨us, k', htokens', hend', hus⟩ := hb _ (expects_operator hop) rest
  refine ⟨ts ++ t :: us, k', ?_, hend', ?_⟩
  · rw [List.append_assoc, htokens, hxs, htokens', List.append_assoc, List.cons_append]
  · rw [hresult]
    exact .binary hkt (hleft ts hts) (hright us hus)

/-! ### Derivations -/

/-- A phrase begins with a minus sign or with a lexeme that starts a value. -/
theorem head_of_denotes {φ : Phrase} {ls : List Placed} {a : Expr (Complex R)}
    (h : Denotes φ ls a) :
    ∃ l rest, ls = l :: rest ∧ (l.isSign '-' = true ∨ l.lexeme.startsValue = true) := by
  induction h with
  | @number l v hl hv => exact ⟨l, [], rfl, .inr (startsValue_of_isNumber hl)⟩
  | @argument l hl hx => exact ⟨l, [], rfl, .inr (startsValue_of_isName hl)⟩
  | @name l hl hx => exact ⟨l, [], rfl, .inr (startsValue_of_isName hl)⟩
  | @group o c ls a ho hc ha ih => exact ⟨o, _, rfl, .inr (startsValue_of_open ho)⟩
  | @neg l ls a hl ha ih => exact ⟨l, ls, rfl, .inl hl⟩
  | @exponential l ls a hl ha ih => exact ⟨l, ls, rfl, .inr (startsValue_of_function? hl)⟩
  | @logarithm l ls a hl ha ih => exact ⟨l, ls, rfl, .inr (startsValue_of_function? hl)⟩
  | @call l f ls a hl hexp hln ha ih => exact ⟨l, ls, rfl, .inr (startsValue_of_function? hl)⟩
  | ofPrimary ha ih => exact ih
  | ofUnary ha ih => exact ih
  | ofPower ha ih => exact ih
  | ofTerm ha ih => exact ih
  | pow hl ha hb iha ihb =>
    obtain ⟨l, rest, rfl, h⟩ := iha
    exact ⟨l, _, rfl, h⟩
  | factor hl hop ha hb iha ihb =>
    obtain ⟨l, rest, rfl, h⟩ := iha
    exact ⟨l, _, rfl, h⟩
  | juxtaposed hl ha hb iha ihb =>
    obtain ⟨l, rest, rfl, h⟩ := iha
    exact ⟨l, _, rfl, h⟩
  | summand hl hop ha hb iha ihb =>
    obtain ⟨l, rest, rfl, h⟩ := iha
    exact ⟨l, _, rfl, h⟩

/-- A phrase that does not begin with a minus sign begins with a value. -/
theorem startsValue_of_denotes {φ : Phrase} {l : Placed} {ls : List Placed} {a : Expr (Complex R)}
    (h : Denotes φ (l :: ls) a) (hl : l.isSign '-' = false) : l.lexeme.startsValue = true := by
  obtain ⟨l', rest, heq, hminus | hstart⟩ := head_of_denotes h
  · cases heq
    rw [hl] at hminus
    exact absurd hminus Bool.false_ne_true
  · cases heq
    exact hstart

theorem joins_term {c : Char} {op : BinaryOp} (h : Phrase.joins .term c = some op) :
    op = .mul ∨ op = .div := by
  unfold Phrase.joins at h
  split at h <;> simp_all

theorem joins_expr {c : Char} {op : BinaryOp} (h : Phrase.joins .expr c = some op) :
    op = .add ∨ op = .sub := by
  unfold Phrase.joins at h
  split at h <;> simp_all

/-- Derived phrases are read as the trees they denote. -/
theorem reads_of_denotes {φ : Phrase} {ls : List Placed} {a : Expr (Complex R)}
    (h : Denotes φ ls a) : φ.Reads ls a := by
  have happly {l : Placed} {f : Builtin} {ls : List Placed} {a : Expr (Complex R)}
      (hl : l.function? = some f) (ha : Phrase.unary.Reads ls a) :
      Phrase.unary.Reads (l :: ls) (.ofApply f a l.start) :=
    .prefixed (fun last _ => kind_of_function? last hl) Operator.noConfusion
      (fun last _ _ hts => .apply (kind_of_function? last hl) hts) ha
  induction h with
  | @number l v hl hv =>
    exact .terminal (kind_of_isNumber · hl) rfl fun last => .number (kind_of_isNumber last hl) hv
  | @argument l hl hx =>
    have hname : Expr.ofName l.text l.start = (.argument : Expr (Complex R)) := if_pos hx
    rw [← hname]
    exact .terminal (kind_of_isName · hl) rfl fun last => .name (kind_of_isName last hl)
  | @name l hl hx =>
    have hname : Expr.ofName l.text l.start = (.named l.text (some l.start) : Expr (Complex R)) :=
      if_neg hx
    rw [← hname]
    exact .terminal (kind_of_isName · hl) rfl fun last => .name (kind_of_isName last hl)
  | group ho hc ha ih => exact .group ho hc ih
  | neg hl ha ih =>
    have hkind last (hlast : Expects last) := by
      have hk := kind_of_minus last hl
      rw [hlast.1] at hk
      exact hk
    exact .prefixed hkind Operator.noConfusion (fun last hlast _ hts => .neg (hkind last hlast) hts) ih
  | exponential hl ha ih => exact happly hl ih
  | logarithm hl ha ih => exact happly hl ih
  | @call l f ls a hl hexp hln ha ih =>
    have hcall : Expr.ofApply f a l.start = .call f a (some l.start) := by
      cases f <;> first | rfl | exact absurd rfl hexp | exact absurd rfl hln
    rw [← hcall]
    exact happly hl ih
  | ofPrimary ha ih => exact ih
  | ofUnary ha ih =>
    refine Phrase.Reads.widen (fun ts hts => ?_) ih
    exact ConvertsOperand.converts (by decide) hts
  | ofPower ha ih =>
    refine Phrase.Reads.widen (fun ts hts => ?_) ih
    exact Converts.mono (by decide) hts
  | ofTerm ha ih =>
    refine Phrase.Reads.widen (fun ts hts => ?_) ih
    exact Converts.mono (by decide) hts
  | @pow l ls rs a b hl ha hb iha ihb =>
    have hsep : Separates .pow l.start (l :: rs) rs := separates_of_kind fun k _ =>
      ⟨kind_of_isSign (some k) hl rfl (by decide), not_startsValue_of_isSign hl (by decide)⟩
    exact .binary iha ihb hsep
      (fun _ h => h.converts (by decide)) (fun _ h => h) rfl
  | @factor l c op ls rs a b hl hop ha hb iha ihb =>
    have hsep : Separates op l.start (l :: rs) rs :=
      separates_of_kind fun k hk => kind_of_joins hl hop hk
    rcases joins_term hop with rfl | rfl
    · exact .binary iha ihb hsep (fun _ h => h) (fun _ h => h.mono (by decide)) rfl
    · exact .binary iha ihb hsep (fun _ h => h) (fun _ h => h.mono (by decide)) rfl
  | @juxtaposed l ls rs a b hl ha hb iha ihb =>
    have hstart := startsValue_of_denotes hb hl
    exact .binary iha ihb (separates_juxtaposed hstart) (fun _ h => h)
      (fun _ h => h.mono (by decide)) rfl
  | @summand l c op ls rs a b hl hop ha hb iha ihb =>
    have hsep : Separates op l.start (l :: rs) rs :=
      separates_of_kind fun k hk => kind_of_joins hl hop hk
    rcases joins_expr hop with rfl | rfl
    · exact .binary iha ihb hsep (fun _ h => h) (fun _ h => h) rfl
    · exact .binary iha ihb hsep (fun _ h => h) (fun _ h => h) rfl

/-- Derived texts are parsed as the trees they denote. -/
theorem parseTokens_of_denotes {ls : List Placed} {a : Expr (Complex R)}
    (h : Denotes .expr ls a) : parseTokens (tokensAfter none ls) = .ok a := by
  obtain ⟨ts, k, htokens, -, hts⟩ := reads_of_denotes h none expects_none []
  rw [List.append_nil] at htokens
  rw [htokens, tokensAfter, List.append_nil]
  exact hts.parseTokens

/-- The grammar is not ambiguous: no two derivations of an expression denote different trees. -/
theorem denotes_unique {ls : List Placed} {a b : Expr (Complex R)} (ha : Denotes .expr ls a)
    (hb : Denotes .expr ls b) : a = b :=
  Except.ok.inj ((parseTokens_of_denotes ha).symm.trans (parseTokens_of_denotes hb))

end Formulary

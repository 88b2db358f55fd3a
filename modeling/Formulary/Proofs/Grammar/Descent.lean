import Formulary.Proofs.Grammar.Accepts

/-!
# Lexemes that alternate are derived

Whether a text is well formed can be seen from left to right: operands and operators alternate, and
parentheses are balanced. Descending through the phrases of the grammar derives every such text.

* `Alternates R after d ls`: the lexemes go on well with `d` parentheses open; `after` says that
  a value has just ended. Numbers and names have values over `R`.
* `Phrase.Stops`: the phrase does not go on with the lexemes.
* `Descends R φ n`: of at most `n` lexemes that alternate, a beginning is derived from the phrase, and
  it cannot be made longer.
* `Extends R φ ψ m n`: a phrase goes on with at most `m` of these lexemes.
* `descends_unary`, `descends_power`, `descends_term`, `descends_expr`: each phrase from the one below.
* **`denotes_of_alternates`**: lexemes that alternate are derived.
-/

namespace Formulary

universe u

/-- Operands and operators alternate and parentheses are balanced. -/
inductive Alternates (R : Type u) [RealArith R] : Bool → Nat → List Placed → Prop where
  | done : Alternates R true 0 []
  | value {after : Bool} {d : Nat} {l : Placed} {ls : List Placed} {a : Expr (Complex R)}
    (hl : l.lexeme.startsValue = true) (ha : Denotes .primary [l] a) (h : Alternates R true d ls) :
    Alternates R after d (l :: ls)
  | function {after : Bool} {d : Nat} {l : Placed} {ls : List Placed} {f : Builtin}
    (hl : l.function? = some f) (h : Alternates R false d ls) : Alternates R after d (l :: ls)
  | minus {after : Bool} {d : Nat} {l : Placed} {ls : List Placed} (hl : l.isSign '-' = true)
    (h : Alternates R false d ls) : Alternates R after d (l :: ls)
  | operator {d : Nat} {l : Placed} {c : Char} {ls : List Placed} (hl : l.isSign c = true)
    (hc : c ∈ ['+', '*', '/', '^']) (h : Alternates R false d ls) : Alternates R true d (l :: ls)
  | opened {after : Bool} {d : Nat} {l : Placed} {ls : List Placed} (hl : l.isSign '(' = true)
    (h : Alternates R false (d + 1) ls) : Alternates R after d (l :: ls)
  | closed {d : Nat} {l : Placed} {ls : List Placed} (hl : l.isSign ')' = true)
    (h : Alternates R true d ls) : Alternates R true (d + 1) (l :: ls)

/-- The signs that make a phrase longer. -/
def Phrase.signs : Phrase → List Char
  | .power => ['^']
  | .term => ['^', '*', '/']
  | .expr => ['^', '*', '/', '+', '-']
  | .unary | .primary => []

/-- A juxtaposed value makes the phrase longer. -/
def Phrase.takesValues : Phrase → Bool
  | .term | .expr => true
  | .power | .unary | .primary => false

/-- The lexeme makes a phrase longer that ends before it. -/
def Phrase.continues (φ : Phrase) (l : Placed) : Bool :=
  φ.takesValues && l.lexeme.startsValue || φ.signs.any l.isSign

/-- The phrase does not go on with the lexemes. -/
def Phrase.Stops (φ : Phrase) (rest : List Placed) : Prop :=
  ∀ l ∈ rest.head?, φ.continues l = false

/-- A longest beginning of the lexemes is derived from the phrase, and the rest goes on well. -/
def BeginsWith (R : Type u) [RealArith R] (φ : Phrase) (d : Nat) (ls : List Placed) : Prop :=
  ∃ (used rest : List Placed) (a : Expr (Complex R)),
    ls = used ++ rest ∧ Denotes φ used a ∧ Alternates R true d rest ∧ φ.Stops rest

/-- Lexemes that alternate, at most `n` of them, begin with the phrase. -/
def Descends (R : Type u) [RealArith R] (φ : Phrase) (n : Nat) : Prop :=
  ∀ d ls, ls.length ≤ n → Alternates R false d ls → BeginsWith R φ d ls

variable {R : Type u} [RealArith R]

theorem Alternates.after {d : Nat} {ls : List Placed} (h : Alternates R false d ls) :
    Alternates R true d ls := by
  cases h with
  | value hl ha h => exact .value hl ha h
  | function hl h => exact .function hl h
  | minus hl h => exact .minus hl h
  | opened hl h => exact .opened hl h

theorem length_pos_of_denotes {φ : Phrase} {ls : List Placed} {a : Expr (Complex R)}
    (h : Denotes φ ls a) : 0 < ls.length := by
  obtain ⟨l, rest, rfl, -⟩ := head_of_denotes h
  exact Nat.succ_pos _

/-! ### Where a phrase stops -/

theorem Phrase.stops_nil (φ : Phrase) : φ.Stops [] :=
  fun l h => by cases h

theorem Phrase.stops_cons {φ : Phrase} {l : Placed} {ls : List Placed} (h : φ.continues l = false) :
    φ.Stops (l :: ls) := by
  intro l' h'
  cases h'
  exact h

theorem isSign_of_ne {l : Placed} {c d : Char} (hc : l.isSign c = true) (hne : c ≠ d) :
    l.isSign d = false := by
  rw [Bool.eq_false_iff]
  exact fun hd => hne (isSign_unique hc hd)

theorem isSign_of_startsValue {l : Placed} {c : Char} (h : l.lexeme.startsValue = true)
    (hc : c ≠ '(') : l.isSign c = false := by
  rw [Bool.eq_false_iff]
  intro hs
  rw [not_startsValue_of_isSign hs hc] at h
  exact Bool.false_ne_true h

section Stops

variable {φ : Phrase} {l : Placed} {ls : List Placed}

theorem stops_of_isSign {c : Char} (h : l.isSign c = true) (hc : c ≠ '(') (hφ : c ∉ φ.signs) :
    φ.Stops (l :: ls) := by
  refine Phrase.stops_cons ?_
  unfold Phrase.continues
  rw [not_startsValue_of_isSign h hc, Bool.and_false, Bool.false_or, List.any_eq_false]
  intro d hd
  rw [isSign_of_ne h fun heq => hφ (heq ▸ hd)]
  exact Bool.false_ne_true

theorem not_stops_of_isSign {c : Char} (h : l.isSign c = true) (hφ : c ∈ φ.signs) :
    ¬ φ.Stops (l :: ls) := by
  intro hs
  have hl := hs l rfl
  unfold Phrase.continues at hl
  rw [List.any_eq_true.2 ⟨c, hφ, h⟩, Bool.or_true] at hl
  exact Bool.false_ne_true hl.symm

theorem not_stops_of_startsValue (h : l.lexeme.startsValue = true) (hφ : φ.takesValues = true) :
    ¬ φ.Stops (l :: ls) := by
  intro hs
  have hl := hs l rfl
  unfold Phrase.continues at hl
  rw [h, hφ] at hl
  exact Bool.false_ne_true hl.symm

/-- A value, a function or a parenthesis does not make a power longer. -/
theorem stops_power_of_startsValue (h : l.lexeme.startsValue = true) :
    Phrase.power.Stops (l :: ls) := by
  refine Phrase.stops_cons ?_
  show (false || (l.isSign '^' || false)) = false
  rw [isSign_of_startsValue h (by decide)]
  rfl

end Stops

/-! ### Descending -/

theorem denotes_apply {l : Placed} {f : Builtin} {ls : List Placed} {a : Expr (Complex R)}
    (hl : l.function? = some f) (ha : Denotes .unary ls a) :
    ∃ b : Expr (Complex R), Denotes .unary (l :: ls) b := by
  by_cases hexp : f = .exp
  · subst hexp
    exact ⟨_, .exponential hl ha⟩
  · by_cases hln : f = .ln
    · subst hln
      exact ⟨_, .logarithm hl ha⟩
    · exact ⟨_, .call hl hexp hln ha⟩

/-- What stops an expression is the end of the text or a closing parenthesis. -/
theorem closed_of_stops {d : Nat} {rest : List Placed} (h : Alternates R true d rest)
    (hstop : Phrase.expr.Stops rest) :
    rest = [] ∧ d = 0 ∨ ∃ c rest' d', rest = c :: rest' ∧ c.isSign ')' = true ∧ d = d' + 1 ∧
      Alternates R true d' rest' := by
  cases h with
  | done => exact .inl ⟨rfl, rfl⟩
  | value hl ha h => exact absurd hstop (not_stops_of_startsValue hl rfl)
  | function hl h => exact absurd hstop (not_stops_of_startsValue (startsValue_of_function? hl) rfl)
  | minus hl h => exact absurd hstop (not_stops_of_isSign hl (by decide))
  | @operator d l c ls hl hc h =>
    refine absurd hstop (not_stops_of_isSign hl ?_)
    simp only [List.mem_cons, List.not_mem_nil, or_false] at hc
    rcases hc with rfl | rfl | rfl | rfl <;> decide
  | opened hl h => exact absurd hstop (not_stops_of_startsValue (startsValue_of_open hl) rfl)
  | closed hl h => exact .inr ⟨_, _, _, rfl, hl, rfl, h⟩

theorem descends_unary (n : Nat) (hexpr : ∀ m < n, Descends R .expr m) : Descends R .unary n := by
  induction n with
  | zero =>
    intro d ls hlen h
    cases h <;> cases hlen
  | succ n ih =>
    intro d ls hlen h
    have ih' := ih fun m hm => hexpr m (Nat.lt_succ_of_lt hm)
    cases h with
    | @value _ _ l ls a hl ha h =>
      exact ⟨[l], ls, a, rfl, .ofPrimary ha, h, fun _ _ => rfl⟩
    | @function _ _ l ls f hl h =>
      obtain ⟨used, rest, a, rfl, ha, hrest, hstop⟩ := ih' d ls (Nat.le_of_succ_le_succ hlen) h
      obtain ⟨b, hb⟩ := denotes_apply hl ha
      exact ⟨l :: used, rest, b, rfl, hb, hrest, hstop⟩
    | @minus _ _ l ls hl h =>
      obtain ⟨used, rest, a, rfl, ha, hrest, hstop⟩ := ih' d ls (Nat.le_of_succ_le_succ hlen) h
      exact ⟨l :: used, rest, _, rfl, .neg hl ha, hrest, hstop⟩
    | @opened _ _ l ls hl h =>
      obtain ⟨used, rest, a, rfl, ha, hrest, hstop⟩ :=
        hexpr n (Nat.lt_succ_self n) (d + 1) ls (Nat.le_of_succ_le_succ hlen) h
      obtain ⟨-, hd⟩ | ⟨c, rest', d', rfl, hc, hd, hrest'⟩ := closed_of_stops hrest hstop
      · cases hd
      · cases hd
        refine ⟨l :: (used ++ [c]), rest', a, ?_, .ofPrimary (.group hl hc ha), hrest', fun _ _ => rfl⟩
        rw [List.cons_append, List.append_assoc, List.singleton_append]

theorem Descends.mono {φ : Phrase} {m n : Nat} (hm : m ≤ n) (h : Descends R φ n) :
    Descends R φ m :=
  fun d ls hlen halt => h d ls (Nat.le_trans hlen hm) halt

theorem descends_power (n : Nat) (hunary : Descends R .unary n) : Descends R .power n := by
  induction n with
  | zero =>
    intro d ls hlen h
    cases h <;> cases hlen
  | succ n ih =>
    intro d ls hlen h
    obtain ⟨used, rest, a, rfl, ha, hrest, -⟩ := hunary d ls hlen h
    have hpos := length_pos_of_denotes ha
    have hstop (hs : Phrase.power.Stops rest) : BeginsWith R .power d (used ++ rest) :=
      ⟨used, rest, a, rfl, .ofUnary ha, hrest, hs⟩
    cases hrest with
    | done => exact hstop (Phrase.stops_nil _)
    | value hl _ _ => exact hstop (stops_power_of_startsValue hl)
    | function hl _ => exact hstop (stops_power_of_startsValue (startsValue_of_function? hl))
    | minus hl _ => exact hstop (stops_of_isSign hl (by decide) (by decide))
    | opened hl _ => exact hstop (stops_power_of_startsValue (startsValue_of_open hl))
    | closed hl _ => exact hstop (stops_of_isSign hl (by decide) (by decide))
    | @operator _ l c rest hl hc hrest =>
      by_cases hpow : c = '^'
      · subst hpow
        rw [List.length_append, List.length_cons] at hlen
        obtain ⟨used', rest', b, rfl, hb, hrest', hs⟩ :=
          ih (hunary.mono (Nat.le_succ n)) d rest (by omega) hrest
        refine ⟨used ++ l :: used', rest', _, ?_, .pow hl ha hb, hrest', hs⟩
        rw [List.append_assoc, List.cons_append]
      · refine hstop (stops_of_isSign hl ?_ (by simpa [Phrase.signs] using hpow))
        rintro rfl
        revert hc
        decide

/-- A phrase is continued as long as phrases of the next level follow. -/
def Extends (R : Type u) [RealArith R] (φ ψ : Phrase) (m n : Nat) : Prop :=
  ∀ (d : Nat) (used rest : List Placed) (a : Expr (Complex R)), rest.length ≤ m →
    rest.length ≤ n → Denotes φ used a → Alternates R true d rest → ψ.Stops rest →
    BeginsWith R φ d (used ++ rest)

/-- One more phrase of the next level is taken, and the longer phrase is continued. -/
theorem Extends.next {φ ψ : Phrase} {m n d : Nat} (ih : Extends R φ ψ m n)
    (hψ : Descends R ψ n) {used rest : List Placed} (link : List Placed) (hm : rest.length ≤ m + 1)
    (hn : rest.length ≤ n) (halt : Alternates R false d rest)
    (hjoin : ∀ part (b : Expr (Complex R)), part <+: rest → Denotes ψ part b →
      ∃ c : Expr (Complex R), Denotes φ (used ++ link ++ part) c) :
    BeginsWith R φ d (used ++ (link ++ rest)) := by
  obtain ⟨part, rest₁, b, rfl, hb, hrest₁, hs₁⟩ := hψ d rest hn halt
  have hpos := length_pos_of_denotes hb
  rw [List.length_append] at hm hn
  obtain ⟨c, hc⟩ := hjoin part b (List.prefix_append _ _) hb
  obtain ⟨used', rest₂, c', hsplit, hc', hrest₂, hs₂⟩ := ih d (used ++ link ++ part) rest₁ c
    (by omega) (by omega) hc hrest₁ hs₁
  refine ⟨used', rest₂, c', ?_, hc', hrest₂, hs₂⟩
  rw [← hsplit, List.append_assoc, List.append_assoc]

/-- A product is continued as long as factors follow. -/
theorem extends_term {n : Nat} (hpower : Descends R .power n) (m : Nat) :
    Extends R .term .power m n := by
  induction m with
  | zero =>
    intro d used rest a hm hn ha hrest hs
    obtain rfl := List.length_eq_zero_iff.1 (Nat.le_zero.1 hm)
    exact ⟨used, [], a, rfl, ha, hrest, Phrase.stops_nil _⟩
  | succ m ih =>
    intro d used rest a hm hn ha hrest hs
    have hstop (hs : Phrase.term.Stops rest) : BeginsWith R .term d (used ++ rest) :=
      ⟨used, rest, a, rfl, ha, hrest, hs⟩
    -- a factor follows without a sign
    have hjuxtaposed {l : Placed} {rest' : List Placed} (heq : rest = l :: rest')
        (hl : l.lexeme.startsValue = true) (halt : Alternates R false d rest) :
        BeginsWith R .term d (used ++ rest) := by
      refine ih.next hpower [] hm hn halt fun part b hpart hb => ?_
      obtain ⟨l', part', rfl, -⟩ := head_of_denotes hb
      rw [heq, List.cons_prefix_cons] at hpart
      obtain ⟨rfl, -⟩ := hpart
      rw [List.append_nil]
      exact ⟨_, .juxtaposed (isSign_of_startsValue hl (by decide)) ha hb⟩
    -- a factor follows after a sign
    have hfactor {l : Placed} {c : Char} {op : BinaryOp} {rest' : List Placed}
        (heq : rest = l :: rest') (hl : l.isSign c = true) (hop : Phrase.joins .term c = some op)
        (halt : Alternates R false d rest') :
        BeginsWith R .term d (used ++ rest) := by
      subst heq
      rw [List.length_cons] at hm hn
      refine ih.next hpower [l] (by omega) (by omega) halt fun part b _ hb => ?_
      rw [List.append_assoc, List.singleton_append]
      exact ⟨_, .factor hl hop ha hb⟩
    cases hrest with
    | done => exact hstop (Phrase.stops_nil _)
    | value hl hv h => exact hjuxtaposed rfl hl (.value hl hv h)
    | function hl h => exact hjuxtaposed rfl (startsValue_of_function? hl) (.function hl h)
    | minus hl h => exact hstop (stops_of_isSign hl (by decide) (by decide))
    | opened hl h => exact hjuxtaposed rfl (startsValue_of_open hl) (.opened hl h)
    | closed hl h => exact hstop (stops_of_isSign hl (by decide) (by decide))
    | @operator _ l c rest hl hc h =>
      simp only [List.mem_cons, List.not_mem_nil, or_false] at hc
      rcases hc with rfl | rfl | rfl | rfl
      · exact hstop (stops_of_isSign hl (by decide) (by decide))
      · exact hfactor rfl hl rfl h
      · exact hfactor rfl hl rfl h
      · exact absurd hs (not_stops_of_isSign hl (by decide))

/-- A sum is continued as long as summands follow. -/
theorem extends_expr {n : Nat} (hterm : Descends R .term n) (m : Nat) :
    Extends R .expr .term m n := by
  induction m with
  | zero =>
    intro d used rest a hm hn ha hrest hs
    obtain rfl := List.length_eq_zero_iff.1 (Nat.le_zero.1 hm)
    exact ⟨used, [], a, rfl, ha, hrest, Phrase.stops_nil _⟩
  | succ m ih =>
    intro d used rest a hm hn ha hrest hs
    have hstop (hs : Phrase.expr.Stops rest) : BeginsWith R .expr d (used ++ rest) :=
      ⟨used, rest, a, rfl, ha, hrest, hs⟩
    have hsummand {l : Placed} {c : Char} {op : BinaryOp} {rest' : List Placed}
        (heq : rest = l :: rest') (hl : l.isSign c = true) (hop : Phrase.joins .expr c = some op)
        (halt : Alternates R false d rest') :
        BeginsWith R .expr d (used ++ rest) := by
      subst heq
      rw [List.length_cons] at hm hn
      refine ih.next hterm [l] (by omega) (by omega) halt fun part b _ hb => ?_
      rw [List.append_assoc, List.singleton_append]
      exact ⟨_, .summand hl hop ha hb⟩
    cases hrest with
    | done => exact hstop (Phrase.stops_nil _)
    | value hl _ _ => exact absurd hs (not_stops_of_startsValue hl rfl)
    | function hl _ => exact absurd hs (not_stops_of_startsValue (startsValue_of_function? hl) rfl)
    | minus hl h => exact hsummand rfl hl rfl h
    | opened hl _ => exact absurd hs (not_stops_of_startsValue (startsValue_of_open hl) rfl)
    | closed hl h => exact hstop (stops_of_isSign hl (by decide) (by decide))
    | @operator _ l c rest hl hc h =>
      simp only [List.mem_cons, List.not_mem_nil, or_false] at hc
      rcases hc with rfl | rfl | rfl | rfl
      · exact hsummand rfl hl rfl h
      · exact absurd hs (not_stops_of_isSign hl (by decide))
      · exact absurd hs (not_stops_of_isSign hl (by decide))
      · exact absurd hs (not_stops_of_isSign hl (by decide))

/-- A phrase is one of the next level, continued. -/
theorem descends_of_extends {φ ψ : Phrase} {n : Nat} (hψ : Descends R ψ n)
    (hext : ∀ m, Extends R φ ψ m n)
    (hlift : ∀ {ls} {a : Expr (Complex R)}, Denotes ψ ls a → Denotes φ ls a) :
    Descends R φ n := by
  intro d ls hlen h
  obtain ⟨used, rest, a, rfl, ha, hrest, hs⟩ := hψ d ls hlen h
  rw [List.length_append] at hlen
  exact hext rest.length d used rest a (Nat.le_refl _) (by omega) (hlift ha) hrest hs

theorem descends_term (n : Nat) (hpower : Descends R .power n) : Descends R .term n :=
  descends_of_extends hpower (extends_term hpower) .ofPower

theorem descends_expr (n : Nat) (hterm : Descends R .term n) : Descends R .expr n :=
  descends_of_extends hterm (extends_expr hterm) .ofTerm

theorem descends (n : Nat) : Descends R .expr n := by
  induction n using Nat.strongRecOn with
  | ind n ih => exact descends_expr n (descends_term n (descends_power n (descends_unary n ih)))

/-- Lexemes that alternate are derived. -/
theorem denotes_of_alternates {ls : List Placed} (h : Alternates R false 0 ls) :
    ∃ a : Expr (Complex R), Denotes .expr ls a := by
  obtain ⟨used, rest, a, rfl, ha, hrest, hstop⟩ := descends ls.length 0 ls (Nat.le_refl _) h
  obtain ⟨rfl, -⟩ | ⟨c, rest', d', -, -, hd, -⟩ := closed_of_stops hrest hstop
  · rw [List.append_nil]
    exact ⟨a, ha⟩
  · cases hd

end Formulary

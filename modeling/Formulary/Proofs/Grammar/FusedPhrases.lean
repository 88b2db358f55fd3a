import Formulary.Proofs.Grammar.Fusing

/-!
# Derivations of fused lexemes

Lexemes that derive from the grammar still do when complex numerals are fused. The tree changes only
where a real numeral and an imaginary one are the summands of a sum, or its last two: there one
numeral stands for both.

* `Fuses a b`: the second tree is the first one with such numerals put together.
* `numeral_of_denotes`: a numeral is all of its term if the lexeme after it ends the term.
* `Phrase.Keeps`: a phrase below an expression stays derived wherever it stands. The first lexeme of
  a complex numeral may be all of the phrase, so that what follows matters.
* `Settles`, `Waits`: what fusing leaves of a sum that is not over.
* **`denotes_fusePlaced`**: fused lexemes derive from the expression, and they denote the tree with
  numerals put together.
-/

namespace Formulary

universe u

variable {R : Type u} [RealArith R]

open RealArith

/-- A real and an imaginary numeral that are summands next to each other may be one numeral. -/
inductive Fuses : Expr (Complex R) → Expr (Complex R) → Prop where
  | refl (a : Expr (Complex R)) : Fuses a a
  | neg {a a' : Expr (Complex R)} (ha : Fuses a a') : Fuses (.neg a) (.neg a')
  | binary (op : BinaryOp) {a a' b b' : Expr (Complex R)} (p : Position) (ha : Fuses a a')
    (hb : Fuses b b') : Fuses (.binary op a b p) (.binary op a' b' p)
  | call (f : Builtin) {a a' : Expr (Complex R)} (p : Position) (ha : Fuses a a') :
    Fuses (.call f a p) (.call f a' p)
  /-- The numerals are the whole sum. -/
  | sum (r s : R) (p : Position) :
    Fuses (.binary .add (.number (.ofReal r)) (.number ⟨0, s⟩) p) (.number ⟨r, s⟩)
  /-- The numerals are the last summands. -/
  | tail {a a' : Expr (Complex R)} (r s : R) (p q : Position) (ha : Fuses a a') :
    Fuses (.binary .add (.binary .add a (.number (.ofReal r)) p) (.number ⟨0, s⟩) q)
      (.binary .add a' (.number ⟨r, s⟩) p)

/-! ### Numerals at the start of a term -/

theorem closes_of_isSign {l : Placed} {c : Char} (h : l.isSign c = true)
    (hc : c ∉ [')', '+', '-']) : l.closes = false := by
  simp only [List.mem_cons, List.not_mem_nil, or_false, not_or] at hc
  unfold Placed.closes
  rw [isSign_of_ne h hc.1, isSign_of_ne h hc.2.1, isSign_of_ne h hc.2.2]
  rfl

theorem closes_of_startsValue {l : Placed} (h : l.lexeme.startsValue = true) : l.closes = false := by
  unfold Placed.closes
  rw [isSign_of_startsValue h (by decide), isSign_of_startsValue h (by decide),
    isSign_of_startsValue h (by decide)]
  rfl

theorem opens_of_isSign {l : Placed} {c : Char} (h : l.isSign c = true) (ho : c ≠ '(')
    (hp : c ≠ '+') : l.opens = false := by
  unfold Placed.opens
  rw [isSign_of_ne h ho, isSign_of_ne h hp]
  rfl

theorem isSign_of_cls {l : Placed} {k : LexemeClass} (h : l.lexeme.cls = k) (hk : k ≠ .sign)
    (c : Char) : l.isSign c = false := by
  unfold Placed.isSign Lexeme.isSign
  rw [h, beq_false_of_ne hk]
  rfl

theorem cls_of_function? {l : Placed} {f : Builtin} (h : l.function? = some f) :
    l.lexeme.cls = .word := by
  unfold Placed.function? at h
  split at h
  · next hword => exact eq_of_beq hword
  · cases h

theorem cls_of_isName {l : Placed} (h : l.isName = true) : l.lexeme.cls = .word :=
  eq_of_beq (Bool.and_eq_true_iff.1 (Bool.and_eq_true_iff.1 h).1).1

theorem cls_of_isReal {l : Placed} (h : l.lexeme.isReal = true) : l.lexeme.cls = .numeral :=
  eq_of_beq (Bool.and_eq_true_iff.1 h).1

theorem isReal_of_cls {l : Placed} {k : LexemeClass} (h : l.lexeme.cls = k) (hk : k ≠ .numeral) :
    l.lexeme.isReal = false := by
  unfold Lexeme.isReal
  rw [h, beq_false_of_ne hk]
  rfl

theorem opens_of_cls {l : Placed} {k : LexemeClass} (h : l.lexeme.cls = k) (hk : k ≠ .sign) :
    l.opens = false := by
  unfold Placed.opens
  rw [isSign_of_cls h hk, isSign_of_cls h hk]
  rfl

/-- What joins two phrases does not end the term that a numeral is. -/
theorem not_closesPlaced_join {n x : Placed} {ls xs ms : List Placed} (hls : 0 < ls.length)
    (hx : x.closes = false) (heq : ls ++ x :: xs = n :: ms)
    (ih : ∀ rest, ls = n :: rest → closesPlaced rest = true → rest = []) :
    closesPlaced ms = false := by
  cases ls with
  | nil => cases hls
  | cons l rest =>
    obtain ⟨rfl, rfl⟩ := List.cons.inj heq
    cases rest with
    | nil => exact hx
    | cons m rest =>
      rw [Bool.eq_false_iff]
      intro hcloses
      cases ih _ rfl hcloses

/-- A numeral that begins a term is all of it if a lexeme follows that ends the term. -/
theorem numeral_of_denotes {φ : Phrase} {ls : List Placed} {a : Expr (Complex R)}
    (h : Denotes φ ls a) (hφ : φ ≠ .expr) : ∀ n ms, ls = n :: ms → n.lexeme.cls = .numeral →
      closesPlaced ms = true → ms = [] ∧ ∃ v, a = .number v ∧ readNumber n.text n.start = .ok v := by
  -- all but a number begins with a word or a sign
  have hother {l : Placed} {k : LexemeClass} {ls : List Placed} {a : Expr (Complex R)}
      (hl : l.lexeme.cls = k) (hk : k ≠ .numeral) : ∀ n ms, l :: ls = n :: ms →
      n.lexeme.cls = .numeral → closesPlaced ms = true →
      ms = [] ∧ ∃ v, a = .number v ∧ readNumber n.text n.start = .ok v := by
    intro n ms heq hn
    obtain ⟨rfl, rfl⟩ := List.cons.inj heq
    exact absurd (hl.symm.trans hn) hk
  have hsign {l : Placed} {c : Char} (hl : l.isSign c = true) := (isSign_iff.1 hl).1
  have hjoin {ls xs : List Placed} {x : Placed} {ψ : Phrase} {a b : Expr (Complex R)}
      (hx : x.closes = false) (ha : Denotes ψ ls a)
      (ih : ∀ n ms, ls = n :: ms → n.lexeme.cls = .numeral → closesPlaced ms = true →
        ms = [] ∧ ∃ v, a = .number v ∧ readNumber n.text n.start = .ok v) :
      ∀ n ms, ls ++ x :: xs = n :: ms → n.lexeme.cls = .numeral → closesPlaced ms = true →
        ms = [] ∧ ∃ v, b = .number v ∧ readNumber n.text n.start = .ok v := by
    intro n ms heq hn hms
    rw [not_closesPlaced_join (length_pos_of_denotes ha) hx heq
      fun rest hrest hcloses => (ih n rest hrest hn hcloses).1] at hms
    exact absurd hms Bool.false_ne_true
  induction h with
  | @number l v hl hv =>
    intro n ms heq hn hms
    obtain ⟨rfl, rfl⟩ := List.cons.inj heq
    exact ⟨rfl, v, rfl, hv⟩
  | argument hl hx => exact hother (cls_of_isName hl) (by decide)
  | name hl hx => exact hother (cls_of_isName hl) (by decide)
  | group ho hc ha ih => exact hother (hsign ho) (by decide)
  | neg hl ha ih => exact hother (hsign hl) (by decide)
  | exponential hl ha ih => exact hother (cls_of_function? hl) (by decide)
  | logarithm hl ha ih => exact hother (cls_of_function? hl) (by decide)
  | call hl hexp hln ha ih => exact hother (cls_of_function? hl) (by decide)
  | ofPrimary ha ih => exact ih (by decide)
  | ofUnary ha ih => exact ih (by decide)
  | ofPower ha ih => exact ih (by decide)
  | pow hl ha hb iha ihb =>
    exact hjoin (closes_of_isSign hl (by decide)) ha (iha (by decide))
  | @factor l c op ls rs a b hl hop ha hb iha ihb =>
    have hc : c ∉ [')', '+', '-'] := by
      intro hmem
      simp only [List.mem_cons, List.not_mem_nil, or_false] at hmem
      rcases hmem with rfl | rfl | rfl <;> cases hop
    exact hjoin (closes_of_isSign hl hc) ha (iha (by decide))
  | @juxtaposed l ls rs a b hl ha hb iha ihb =>
    exact hjoin (closes_of_startsValue (startsValue_of_denotes hb hl)) ha (iha (by decide))
  | ofTerm ha ih => exact absurd rfl hφ
  | summand hl hop ha hb iha ihb => exact absurd rfl hφ

/-! ### Phrases below an expression -/

/-- The lexemes are one real numeral: a complex one could begin with it. -/
def IsLone (ls : List Placed) : Prop :=
  ∃ n : Placed, ls = [n] ∧ n.lexeme.isReal = true

/-- The lexemes begin with a plus sign. -/
def startsPlus (ls : List Placed) : Bool :=
  ls.head?.any (·.isSign '+')

/-- The phrase is fused on its own, unless it is a real numeral and a plus sign follows, and then it
is still derived. -/
def Phrase.Keeps (φ : Phrase) (ls : List Placed) (a : Expr (Complex R)) : Prop :=
  ∃ ls' a', Denotes φ ls' a' ∧ Fuses a a' ∧ ∀ opens rest,
    (opens = true → IsLone ls → startsPlus rest = false) →
      fusePlaced opens (ls ++ rest) = ls' ++ fusePlaced false rest

section Keeps

variable {φ ψ χ : Phrase} {l : Placed} {ls rs : List Placed} {a b : Expr (Complex R)}

theorem Phrase.Keeps.widen (hd : ∀ ls a, Denotes (R := R) φ ls a → Denotes ψ ls a)
    (h : φ.Keeps ls a) : ψ.Keeps ls a := by
  obtain ⟨ls', a', ha, hf, heq⟩ := h
  exact ⟨ls', a', hd _ _ ha, hf, heq⟩

/-- A lexeme before a plus sign is left unless it is a real numeral. -/
theorem fusePlaced_of_not_startsPlus {opens : Bool} {n : Placed} {rest : List Placed}
    (h : opens = true → n.lexeme.isReal = true → startsPlus rest = false) :
    fusePlaced opens (n :: rest) = n :: fusePlaced n.opens rest := by
  refine fusePlaced_cons fun p m rest' heq hopens hjoin => ?_
  unfold Placed.joinable at hjoin
  simp only [Bool.and_eq_true] at hjoin
  have hplus := h hopens hjoin.1.1.1.1
  subst heq
  rw [show startsPlus (p :: m :: rest') = p.isSign '+' from rfl, hjoin.1.1.1.2] at hplus
  cases hplus

theorem Phrase.Keeps.terminal (h : Denotes .primary [l] a) (hl : l.opens = false) :
    Phrase.primary.Keeps [l] a := by
  refine ⟨[l], a, h, .refl a, fun opens rest hrest => ?_⟩
  rw [List.singleton_append, List.singleton_append,
    fusePlaced_of_not_startsPlus fun hopens hreal => hrest hopens ⟨l, rfl, hreal⟩, hl]

/-- A lexeme in front of a unary phrase. -/
theorem Phrase.Keeps.prefixed (hreal : l.lexeme.isReal = false) (hopens : l.opens = false)
    (hd : ∀ ls' a', Denotes .unary ls' a' → Fuses a a' →
      ∃ b', Denotes .unary (l :: ls') b' ∧ Fuses b b')
    (ha : Phrase.unary.Keeps ls a) : Phrase.unary.Keeps (l :: ls) b := by
  obtain ⟨ls', a', ha, hf, heq⟩ := ha
  obtain ⟨b', hb, hf'⟩ := hd ls' a' ha hf
  refine ⟨l :: ls', b', hb, hf', fun opens rest _ => ?_⟩
  rw [List.cons_append, fusePlaced_of_not_isReal _ hreal, hopens,
    heq false rest fun h => absurd h Bool.false_ne_true, List.cons_append]

/-- Two phrases with a sign between them. -/
theorem Phrase.Keeps.between {op : BinaryOp} (hl : l.opens = false)
    (hd : ∀ ls' rs' a' b', Denotes (R := R) φ ls' a' → Denotes ψ rs' b' →
      Denotes χ (ls' ++ l :: rs') (.binary op a' b' (some l.start)))
    (ha : φ.Keeps ls a) (hb : ψ.Keeps rs b) :
    χ.Keeps (ls ++ l :: rs) (.binary op a b (some l.start)) := by
  obtain ⟨ls', a', ha, hfa, heqa⟩ := ha
  obtain ⟨rs', b', hb, hfb, heqb⟩ := hb
  refine ⟨ls' ++ l :: rs', _, hd _ _ _ _ ha hb, .binary op _ hfa hfb, fun opens rest _ => ?_⟩
  have hplus : startsPlus (l :: rs ++ rest) = false := (Bool.or_eq_false_iff.1 hl).2
  rw [List.append_assoc, heqa opens _ fun _ _ => hplus, List.cons_append, fusePlaced_false, hl,
    heqb false rest fun h => absurd h Bool.false_ne_true, List.append_assoc, List.cons_append]

theorem Phrase.Keeps.juxtaposed (ha : Phrase.term.Keeps ls a) (hb : Phrase.power.Keeps (l :: rs) b)
    (hstart : l.lexeme.startsValue = true) :
    Phrase.term.Keeps (ls ++ l :: rs) (.binary .mul a b (some l.start)) := by
  obtain ⟨ls', a', ha, hfa, heqa⟩ := ha
  obtain ⟨rs', b', hb, hfb, heqb⟩ := hb
  have hfalse : false = true → IsLone (l :: rs) → startsPlus [] = false :=
    fun h => absurd h Bool.false_ne_true
  -- the right power still begins with the same lexeme
  obtain ⟨us, rfl⟩ : ∃ us, rs' = l :: us := by
    have heq := heqb false [] hfalse
    rw [List.append_nil, fusePlaced_false, show fusePlaced false [] = [] from rfl,
      List.append_nil] at heq
    exact ⟨_, heq.symm⟩
  have hminus : l.isSign '-' = false := isSign_of_startsValue hstart (by decide)
  have hplus (rest : List Placed) : startsPlus (l :: rest) = false :=
    isSign_of_startsValue hstart (by decide)
  refine ⟨ls' ++ l :: us, _, .juxtaposed hminus ha hb, .binary .mul _ hfa hfb, fun opens rest _ => ?_⟩
  rw [List.append_assoc, heqa opens (l :: rs ++ rest) fun _ _ => hplus _,
    heqb false rest fun h => absurd h Bool.false_ne_true, List.append_assoc]

end Keeps

/-! ### Sums -/

/-- All lexemes so far are fused, whatever follows the last summand. -/
def Settles (ls : List Placed) (a : Expr (Complex R)) : Prop :=
  ∃ ls' a', Denotes .expr ls' a' ∧ Fuses a a' ∧ ∀ rest, closesPlaced rest = true →
    fusePlaced true (ls ++ rest) = ls' ++ fusePlaced false rest

/-- The last summand is the real numeral `n`. It is left, or a complex numeral takes its place. -/
structure Waits (ls : List Placed) (a : Expr (Complex R)) (before : List Placed) (n : Placed)
    (v : Complex R) : Prop where
  real : n.lexeme.isReal = true
  simple : n.lexeme.IsSimple
  value : readNumber n.text n.start = .ok v
  fused : ∀ rest, closesPlaced rest = true →
    fusePlaced true (ls ++ rest) = before ++ fusePlaced true (n :: rest)
  alone : ∃ a', Denotes .expr (before ++ [n]) a' ∧ Fuses a a'
  joined : ∀ (m : Placed) (r s : R) (q : Position), v = .ofReal r → m.isNumber = true →
    readNumber m.text m.start = .ok (⟨r, s⟩ : Complex R) →
    ∃ a', Denotes .expr (before ++ [m]) a' ∧ Fuses (.binary .add a (.number ⟨0, s⟩) q) a'

/-- What fusing can leave of a sum. -/
def Summed (ls : List Placed) (a : Expr (Complex R)) : Prop :=
  Settles ls a ∨ ∃ before n v, Waits ls a before n v

section Summed

variable {l : Placed} {ls rs : List Placed} {a b : Expr (Complex R)}

theorem opens_of_isReal (h : l.lexeme.isReal = true) : l.opens = false :=
  opens_of_cls (cls_of_isReal h) (by decide)

/-- Where no plus sign follows the sum is over. -/
theorem Summed.ends (h : Summed ls a) :
    ∃ ls' a', Denotes .expr ls' a' ∧ Fuses a a' ∧ ∀ rest, closesPlaced rest = true →
      startsPlus rest = false → fusePlaced true (ls ++ rest) = ls' ++ fusePlaced false rest := by
  rcases h with ⟨ls', a', ha, hf, heq⟩ | ⟨before, n, v, hw⟩
  · exact ⟨ls', a', ha, hf, fun rest hcloses _ => heq rest hcloses⟩
  · obtain ⟨a', ha, hf⟩ := hw.alone
    refine ⟨before ++ [n], a', ha, hf, fun rest hcloses hplus => ?_⟩
    rw [hw.fused rest hcloses, fusePlaced_of_not_startsPlus fun _ _ => hplus, opens_of_isReal hw.real,
      List.append_assoc]
    rfl

/-- The first summand. -/
theorem Summed.first (hsimple : ∀ l ∈ ls, l.lexeme.IsSimple) (ha : Denotes .term ls a)
    (h : Phrase.term.Keeps ls a) : Summed ls a := by
  by_cases hlone : IsLone ls
  · obtain ⟨n, rfl, hreal⟩ := hlone
    obtain ⟨-, v, rfl, hv⟩ := numeral_of_denotes ha (by decide) n [] rfl (cls_of_isReal hreal) rfl
    refine .inr ⟨[], n, v, hreal, hsimple n List.mem_cons_self, hv, fun _ _ => rfl,
      ⟨_, .ofTerm ha, .refl _⟩, ?_⟩
    rintro m r s q rfl hm hread
    exact ⟨_, .ofTerm (.ofPower (.ofUnary (.ofPrimary (.number hm hread)))), .sum r s q⟩
  · obtain ⟨ls', a', ha', hf, heq⟩ := h
    exact .inl ⟨ls', a', .ofTerm ha', hf, fun rest _ => heq true rest fun _ h => absurd h hlone⟩

theorem joins_expr_iff {c : Char} {op : BinaryOp} :
    Phrase.joins .expr c = some op ↔ c = '+' ∧ op = .add ∨ c = '-' ∧ op = .sub := by
  constructor
  · intro h
    unfold Phrase.joins at h
    split at h
    · cases h
      exact .inl ⟨rfl, rfl⟩
    · cases h
      exact .inr ⟨rfl, rfl⟩
    · next hφ => cases hφ
    · next hφ => cases hφ
    · cases h
  · rintro (⟨rfl, rfl⟩ | ⟨rfl, rfl⟩)
    · rfl
    · rfl

theorem closesPlaced_of_joins {c : Char} {op : BinaryOp} (hl : l.isSign c = true)
    (hop : Phrase.joins .expr c = some op) (rest : List Placed) :
    closesPlaced (l :: rest) = true := by
  show (l.isSign ')' || l.isSign '+' || l.isSign '-') = true
  rcases joins_expr_iff.1 hop with ⟨rfl, -⟩ | ⟨rfl, -⟩
  · rw [hl, Bool.or_true, Bool.true_or]
  · rw [hl, Bool.or_true]

/-- One summand more after lexemes that stay what they are. -/
theorem Summed.next {c : Char} {op : BinaryOp} {ls' : List Placed} {a' : Expr (Complex R)}
    (hl : l.isSign c = true) (hop : Phrase.joins .expr c = some op)
    (hsimple : ∀ m ∈ rs, m.lexeme.IsSimple) (hb : Denotes .term rs b)
    (hkeeps : Phrase.term.Keeps rs b) (ha' : Denotes .expr ls' a') (hf : Fuses a a')
    (heq : ∀ rest, closesPlaced rest = true →
      fusePlaced true (ls ++ l :: (rs ++ rest)) = ls' ++ l :: fusePlaced l.opens (rs ++ rest)) :
    Summed (ls ++ l :: rs) (.binary op a b (some l.start)) := by
  by_cases hlone : l.opens = true ∧ IsLone rs
  · obtain ⟨hopens, n, rfl, hreal⟩ := hlone
    obtain ⟨-, v, rfl, hv⟩ := numeral_of_denotes hb (by decide) n [] rfl (cls_of_isReal hreal) rfl
    obtain ⟨rfl, rfl⟩ : c = '+' ∧ op = .add := by
      rcases joins_expr_iff.1 hop with h | ⟨rfl, -⟩
      · exact h
      · rw [opens_of_isSign hl (by decide) (by decide)] at hopens
        exact absurd hopens Bool.false_ne_true
    refine .inr ⟨ls' ++ [l], n, v, hreal, hsimple n List.mem_cons_self, hv, fun rest hcloses => ?_,
      ⟨.binary .add a' (.number v) (some l.start), ?_, .binary .add _ hf (.refl _)⟩, ?_⟩
    · rw [List.append_assoc, List.cons_append, heq rest hcloses, hopens, List.append_assoc]
      rfl
    · rw [List.append_assoc]
      exact .summand hl hop ha' hb
    · rintro m r s q rfl hm hread
      refine ⟨.binary .add a' (.number ⟨r, s⟩) (some l.start), ?_, .tail r s _ q hf⟩
      rw [List.append_assoc]
      exact .summand hl hop ha' (.ofPower (.ofUnary (.ofPrimary (.number hm hread))))
  · obtain ⟨rs', b', hb', hfb, heqb⟩ := hkeeps
    refine .inl ⟨ls' ++ l :: rs', _, .summand hl hop ha' hb', .binary op _ hf hfb,
      fun rest hcloses => ?_⟩
    rw [List.append_assoc, List.cons_append, heq rest hcloses,
      heqb _ rest fun hopens h => absurd ⟨hopens, h⟩ hlone, List.append_assoc, List.cons_append]

/-- One summand more. A real numeral before it becomes part of a complex numeral only if the
summand is an imaginary numeral and nothing else. -/
theorem Summed.summand {c : Char} {op : BinaryOp} (hl : l.isSign c = true)
    (hop : Phrase.joins .expr c = some op) (hsimple : ∀ m ∈ rs, m.lexeme.IsSimple)
    (hb : Denotes .term rs b) (ha : Summed ls a) (hkeeps : Phrase.term.Keeps rs b) :
    Summed (ls ++ l :: rs) (.binary op a b (some l.start)) := by
  rcases ha with ⟨ls', a', ha', hf, heq⟩ | ⟨before, n, v, hw⟩
  · refine .next hl hop hsimple hb hkeeps ha' hf fun rest _ => ?_
    rw [heq _ (closesPlaced_of_joins hl hop _), fusePlaced_false]
  · by_cases hjoin : ∃ m, rs = [m] ∧ n.joinable l m = true
    · obtain ⟨m, rfl, hjoin⟩ := hjoin
      have hparts := hjoin
      unfold Placed.joinable at hparts
      simp only [Bool.and_eq_true] at hparts
      obtain ⟨rfl, rfl⟩ : c = '+' ∧ op = .add := by
        obtain rfl := isSign_unique hl hparts.1.1.1.2
        exact (joins_expr_iff.1 hop).resolve_right fun h => by cases h.1
      obtain ⟨-, w, rfl, hread⟩ := numeral_of_denotes hb (by decide) m [] rfl
        (eq_of_beq (Bool.and_eq_true_iff.1 hparts.1.1.2).1) rfl
      obtain ⟨r, s, hv, rfl, hjoined⟩ :=
        readNumber_join hjoin hw.simple (hsimple m List.mem_cons_self) hw.value hread
      obtain ⟨a', ha', hf⟩ := hw.joined (n.join l m) r s (some l.start) hv rfl hjoined
      refine .inl ⟨_, a', ha', hf, fun rest hcloses => ?_⟩
      rw [List.append_assoc, List.cons_append, hw.fused _ (closesPlaced_of_joins hl hop _),
        List.singleton_append, fusePlaced_join hjoin hcloses, List.append_assoc,
        List.singleton_append]
    · obtain ⟨a', ha', hf⟩ := hw.alone
      refine .next hl hop hsimple hb hkeeps ha' hf fun rest _ => ?_
      have hleft : fusePlaced true (n :: l :: (rs ++ rest))
          = n :: fusePlaced n.opens (l :: (rs ++ rest)) := by
        refine fusePlaced_cons fun p m rest' hsplit _ hjoin' => ?_
        obtain ⟨rfl, htail⟩ := List.cons.inj hsplit
        obtain ⟨m', rs', rfl, -⟩ := head_of_denotes hb
        obtain ⟨rfl, rfl⟩ := List.cons.inj htail
        cases rs' with
        | nil => exact absurd ⟨_, rfl, hjoin'⟩ hjoin
        | cons m'' rs' =>
          rw [Bool.eq_false_iff]
          intro hcloses
          have hparts := hjoin'
          unfold Placed.joinable at hparts
          simp only [Bool.and_eq_true] at hparts
          obtain ⟨hnil, -⟩ := numeral_of_denotes hb (by decide) _ _ rfl
            (eq_of_beq (Bool.and_eq_true_iff.1 hparts.1.1.2).1) hcloses
          cases hnil
      rw [hw.fused _ (closesPlaced_of_joins hl hop _), hleft, opens_of_isReal hw.real, fusePlaced_false,
        List.append_assoc]
      rfl

theorem Phrase.Keeps.group {o c : Placed} (ho : o.isSign '(' = true) (hc : c.isSign ')' = true)
    (ha : Summed ls a) : Phrase.primary.Keeps (o :: (ls ++ [c])) a := by
  obtain ⟨ls', a', ha', hf, heq⟩ := ha.ends
  refine ⟨o :: (ls' ++ [c]), a', .group ho hc ha', hf, fun opens rest _ => ?_⟩
  have hopens : o.opens = true := by
    unfold Placed.opens
    rw [ho, Bool.true_or]
  have hcloses : closesPlaced (c :: rest) = true := by
    show (c.isSign ')' || _ || _) = true
    rw [hc, Bool.true_or, Bool.true_or]
  rw [List.cons_append, fusePlaced_of_not_isReal _ (isReal_of_cls (isSign_iff.1 ho).1 (by decide)),
    hopens, List.append_assoc, List.singleton_append,
    heq _ hcloses (isSign_of_ne hc (by decide)), fusePlaced_false,
    opens_of_isSign hc (by decide) (by decide), List.cons_append, List.append_assoc]
  rfl

end Summed

/-! ### Derivations -/

/-- What fusing keeps of a phrase. -/
def Phrase.Fusible : Phrase → List Placed → Expr (Complex R) → Prop
  | .expr, ls, a => Summed ls a
  | φ, ls, a => φ.Keeps ls a

/-- Derived phrases of simple numerals are fusible. -/
theorem fusible_of_denotes {φ : Phrase} {ls : List Placed} {a : Expr (Complex R)}
    (h : Denotes φ ls a) (hsimple : ∀ l ∈ ls, l.lexeme.IsSimple) : φ.Fusible ls a := by
  have hfunction {l : Placed} {f : Builtin} (hl : l.function? = some f) :
      l.lexeme.isReal = false ∧ l.opens = false :=
    ⟨isReal_of_cls (cls_of_function? hl) (by decide), opens_of_cls (cls_of_function? hl) (by decide)⟩
  induction h with
  | @number l v hl hv =>
    have hopens : l.opens = false := by
      rcases Bool.or_eq_true_iff.1 hl with hcls | hword
      · exact opens_of_cls (eq_of_beq hcls) (by decide)
      · exact opens_of_cls (eq_of_beq (Bool.and_eq_true_iff.1 hword).1) (by decide)
    exact .terminal (.number hl hv) hopens
  | argument hl hx => exact .terminal (.argument hl hx) (opens_of_cls (cls_of_isName hl) (by decide))
  | name hl hx => exact .terminal (.name hl hx) (opens_of_cls (cls_of_isName hl) (by decide))
  | group ho hc ha ih =>
    exact .group ho hc (ih fun l hl => hsimple l (List.mem_cons_of_mem _ (List.mem_append_left _ hl)))
  | ofPrimary ha ih => exact (ih hsimple).widen fun _ _ => .ofPrimary
  | neg hl ha ih =>
    refine (ih fun l h => hsimple l (List.mem_cons_of_mem _ h)).prefixed
      (isReal_of_cls (isSign_iff.1 hl).1 (by decide)) (opens_of_isSign hl (by decide) (by decide))
      fun ls' a' ha' hf => ⟨_, .neg hl ha', .neg hf⟩
  | exponential hl ha ih =>
    exact (ih fun l h => hsimple l (List.mem_cons_of_mem _ h)).prefixed (hfunction hl).1
      (hfunction hl).2 fun ls' a' ha' hf => ⟨_, .exponential hl ha', .binary _ _ (.refl _) hf⟩
  | logarithm hl ha ih =>
    exact (ih fun l h => hsimple l (List.mem_cons_of_mem _ h)).prefixed (hfunction hl).1
      (hfunction hl).2 fun ls' a' ha' hf => ⟨_, .logarithm hl ha', .call _ _ hf⟩
  | call hl hexp hln ha ih =>
    exact (ih fun l h => hsimple l (List.mem_cons_of_mem _ h)).prefixed (hfunction hl).1
      (hfunction hl).2 fun ls' a' ha' hf => ⟨_, .call hl hexp hln ha', .call _ _ hf⟩
  | ofUnary ha ih => exact (ih hsimple).widen fun _ _ => .ofUnary
  | pow hl ha hb iha ihb =>
    exact .between (opens_of_isSign hl (by decide) (by decide)) (fun _ _ _ _ => .pow hl)
      (iha fun l h => hsimple l (List.mem_append_left _ h))
      (ihb fun l h => hsimple l (List.mem_append_right _ (List.mem_cons_of_mem _ h)))
  | ofPower ha ih => exact (ih hsimple).widen fun _ _ => .ofPower
  | @factor l c op ls rs a b hl hop ha hb iha ihb =>
    have hopens : l.opens = false := by
      refine opens_of_isSign hl ?_ ?_
      · rintro rfl
        cases hop
      · rintro rfl
        cases hop
    exact .between hopens (fun _ _ _ _ => .factor hl hop)
      (iha fun l h => hsimple l (List.mem_append_left _ h))
      (ihb fun l h => hsimple l (List.mem_append_right _ (List.mem_cons_of_mem _ h)))
  | @juxtaposed l ls rs a b hl ha hb iha ihb =>
    exact .juxtaposed (iha fun l h => hsimple l (List.mem_append_left _ h))
      (ihb fun l h => hsimple l (List.mem_append_right _ h)) (startsValue_of_denotes hb hl)
  | ofTerm ha ih => exact .first hsimple ha (ih hsimple)
  | summand hl hop ha hb iha ihb =>
    have hright := fun l h => hsimple l (List.mem_append_right _ (List.mem_cons_of_mem _ h))
    exact .summand hl hop hright hb (iha fun l h => hsimple l (List.mem_append_left _ h)) (ihb hright)

/-- Fused lexemes are derived, and they denote the tree with numerals put together. -/
theorem denotes_fusePlaced {ls : List Placed} {a : Expr (Complex R)} (h : Denotes .expr ls a)
    (hsimple : ∀ l ∈ ls, l.lexeme.IsSimple) :
    ∃ a', Denotes .expr (fusePlaced true ls) a' ∧ Fuses a a' := by
  obtain ⟨ls', a', ha', hf, heq⟩ := Summed.ends (fusible_of_denotes h hsimple)
  have hls : fusePlaced true ls = ls' := by
    have heq := heq [] rfl rfl
    rwa [List.append_nil, show fusePlaced false [] = [] from rfl, List.append_nil] at heq
  exact ⟨a', hls ▸ ha', hf⟩

end Formulary

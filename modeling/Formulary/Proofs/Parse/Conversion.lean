import Formulary.Proofs.Parse.Spelling

/-!
# The run of the conversion

Operators wait on a stack while their right operands are converted. What the conversion of an
operand leaves behind, read from the top of the stack down and then along the output, is the
reversed post-order of its tree, and the operators it leaves on the stack bind at least as tightly
as its phrase.

* `Runs w ts w'`: the conversion goes from `w` to `w'` over the tokens `ts`.
* `postOrder_eq_ok_iff`: the conversion succeeds if it runs to the end and finishes.
* `Held`, `Taken`: what converting an operand leaves, unless a waiting function has taken it.
* `Converts level ts a`: where nothing that binds as tightly waits, the tokens convert to the tree.
* `ConvertsOperand ts a`: the same for a unary phrase, whatever waits.
* `Converts.binary`, `ConvertsOperand.neg`, …: one lemma for each rule of the grammar.
* **`Converts.parseTokens`**: tokens that convert to a tree are parsed as that tree.
-/

namespace Formulary

universe u

/-! ### Runs -/

/-- The conversion goes from one state to the other over the tokens, none of them bad. -/
inductive Runs : Waiting → List Token → Waiting → Prop where
  | nil (w : Waiting) : Runs w [] w
  | cons {w w₁ w' : Waiting} {t : Token} {ts : List Token} (hk : t.kind ≠ .unknown)
    (hp : w.place t = .ok w₁) (hr : Runs w₁ ts w') : Runs w (t :: ts) w'

namespace Runs

theorem single {w w' : Waiting} {t : Token} (hk : t.kind ≠ .unknown) (hp : w.place t = .ok w') :
    Runs w [t] w' :=
  .cons hk hp (.nil w')

theorem append {w w₁ w₂ : Waiting} {ts us : List Token} (h₁ : Runs w ts w₁) (h₂ : Runs w₁ us w₂) :
    Runs w (ts ++ us) w₂ := by
  induction h₁ with
  | nil w => exact h₂
  | cons hk hp _ ih => exact .cons hk hp (ih h₂)

end Runs

theorem postOrderFrom_of_errors {errors : List ParseError} {w : Waiting} {ts out : List Token}
    (he : errors ≠ []) : postOrderFrom errors w ts ≠ .ok out := by
  induction ts generalizing errors w with
  | nil =>
    intro h
    simp only [postOrderFrom] at h
    split at h
    · cases h
    · rw [if_neg (by rw [List.isEmpty_iff]; exact he)] at h
      cases h
  | cons t ts ih =>
    intro h
    simp only [postOrderFrom] at h
    split at h
    · exact ih (by simp) h
    · split at h
      · cases h
      · exact ih he h

/-- The conversion succeeds if and only if it runs to the end and finishes. -/
theorem postOrder_eq_ok_iff {ts out : List Token} :
    postOrder ts = .ok out ↔ ∃ w, Runs .start ts w ∧ w.finish = .ok out := by
  unfold postOrder
  generalize Waiting.start = w
  induction ts generalizing w with
  | nil =>
    simp only [postOrderFrom]
    constructor
    · intro h
      split at h
      · cases h
      · next out' hf =>
        cases h
        exact ⟨w, .nil w, hf⟩
    · rintro ⟨w', hr, hf⟩
      cases hr
      rw [hf]
      rfl
  | cons t ts ih =>
    simp only [postOrderFrom]
    constructor
    · intro h
      split at h
      · exact absurd h (postOrderFrom_of_errors (by simp))
      · next hk =>
        split at h
        · cases h
        · next w₁ hp =>
          obtain ⟨w', hr, hf⟩ := (ih w₁).1 h
          exact ⟨w', .cons (by simpa using hk) hp hr, hf⟩
    · rintro ⟨w', hr, hf⟩
      cases hr with
      | @cons _ w₁ _ _ _ hk hp hr =>
        rw [if_neg (by simpa using hk), hp]
        exact (ih w₁).2 ⟨w', hr, hf⟩

/-! ### Levels -/

/-- The level of the phrase that stands to the left of an operator. -/
def BinaryOp.leftLevel (op : BinaryOp) : Nat :=
  if op.isRightAssoc then op.precedence + 1 else op.precedence

/-- The level of the phrase that stands to the right of an operator. -/
def BinaryOp.rightLevel (op : BinaryOp) : Nat :=
  if op.isRightAssoc then op.precedence else op.precedence + 1

/-- The operator token binds at least as tightly as the level asks. -/
def AtLeast (level : Nat) (t : Token) : Prop :=
  ∃ o : Operator, t.kind = .operator o ∧ level ≤ o.precedence

/-- What waits on top does not take a phrase of the level as its operand before the phrase is
complete: it binds less tightly, or equally and groups to the right. -/
def Below (level : Nat) (t : Token) : Prop :=
  ∃ o : Operator, t.kind = .operator o ∧
    (o.precedence < level ∨ o.precedence = level ∧ o.isRightAssoc = true)

/-- Nothing waits, or what waits on top leaves a phrase of the level alone. -/
def Guarded (level : Nat) (stack : List Token) : Prop :=
  ∀ t ∈ stack.head?, Below level t

theorem Below.mono {l l' : Nat} {t : Token} (hl : l < l') (h : Below l t) : Below l' t := by
  obtain ⟨o, ho, hlt | ⟨heq, -⟩⟩ := h
  · exact ⟨o, ho, .inl (by omega)⟩
  · exact ⟨o, ho, .inl (by omega)⟩

theorem Guarded.mono {l l' : Nat} {stack : List Token} (hl : l < l') (h : Guarded l stack) :
    Guarded l' stack :=
  fun t ht => (h t ht).mono hl

theorem AtLeast.mono {l l' : Nat} {t : Token} (hl : l ≤ l') (h : AtLeast l' t) : AtLeast l t := by
  obtain ⟨o, ho, hle⟩ := h
  exact ⟨o, ho, Nat.le_trans hl hle⟩

/-- What an operand to the left leaves waiting yields to the operator. -/
theorem yieldsTo_of_atLeast {op : BinaryOp} {t : Token} (h : AtLeast op.leftLevel t) :
    t.yieldsTo op.operator = true := by
  obtain ⟨o, ho, hle⟩ := h
  unfold Token.yieldsTo Token.operator?
  rw [ho]
  cases op <;> cases o <;> simp_all [BinaryOp.leftLevel, BinaryOp.precedence,
    BinaryOp.isRightAssoc, BinaryOp.operator, Operator.precedence, Operator.isRightAssoc, yieldsTo]

/-- What waits below an operand does not yield to the operator after it. -/
theorem not_yieldsTo_of_below {op : BinaryOp} {t : Token} (h : Below op.precedence t) :
    t.yieldsTo op.operator = false := by
  obtain ⟨o, ho, hlt⟩ := h
  unfold Token.yieldsTo Token.operator?
  rw [ho]
  cases op <;> cases o <;> simp_all [BinaryOp.precedence, BinaryOp.operator, Operator.precedence,
    Operator.isRightAssoc, yieldsTo]

theorem below_rightLevel {op : BinaryOp} {t : Token} (hk : t.kind = .operator op.operator) :
    Below op.rightLevel t := by
  refine ⟨op.operator, hk, ?_⟩
  cases op <;> simp [BinaryOp.rightLevel, BinaryOp.precedence, BinaryOp.isRightAssoc,
    BinaryOp.operator, Operator.precedence, Operator.isRightAssoc]

/-! ### Releasing what waits -/

namespace Waiting

/-- Exactly what an operand has left waiting is released. -/
theorem releaseWhile_append {out ops stack : List Token} {p : Token → Bool}
    (hops : ∀ t ∈ ops, p t = true) (hstack : ∀ t ∈ stack.head?, p t = false) :
    releaseWhile ⟨out, ops ++ stack⟩ p = ⟨ops.reverse ++ out, stack⟩ := by
  have htake : stack.takeWhile p = [] ∧ stack.dropWhile p = stack := by
    cases stack with
    | nil => exact ⟨rfl, rfl⟩
    | cons t ts =>
      have ht := hstack t rfl
      exact ⟨List.takeWhile_cons_of_neg (by rw [ht]; exact Bool.false_ne_true),
        List.dropWhile_cons_of_neg (by rw [ht]; exact Bool.false_ne_true)⟩
  unfold releaseWhile
  rw [List.takeWhile_append_of_pos hops, List.dropWhile_append_of_pos hops, htake.1, htake.2,
    List.append_nil]

theorem releaseApply_of_not {out stack : List Token} (h : ∀ t ∈ stack.head?, t.isApply = false) :
    releaseApply ⟨out, stack⟩ = ⟨out, stack⟩ := by
  cases stack with
  | nil => rfl
  | cons t ts =>
    show (if t.isApply then _ else _) = _
    rw [h t rfl]
    rfl

end Waiting

theorem not_isOperator_open {t : Token} (h : AtLeast 1 t) : t.isOperator .openParen = false := by
  obtain ⟨o, ho, hle⟩ := h
  unfold Token.isOperator
  rw [ho]
  cases o <;> first | rfl | simp [Operator.precedence] at hle

theorem not_isApply_of_below {t : Token} (h : Below 5 t) : t.isApply = false := by
  obtain ⟨o, ho, hlt⟩ := h
  unfold Token.isApply
  rw [ho]
  cases o <;> first | rfl | simp [Operator.precedence] at hlt

/-! ### Operands -/

variable {R : Type u} [RealArith R]

/-- The operand is on top of the output, some of its operators still waiting: with them it spells
the tree. -/
def Held (level : Nat) (w w' : Waiting) (a : Expr (Complex R)) : Prop :=
  ∃ ops part, w' = ⟨part ++ w.output, ops ++ w.stack⟩ ∧ (∀ t ∈ ops, AtLeast level t) ∧
    Spells (ops.reverse ++ part) a

/-- The operand is on top of the output, and a function that waited for it has followed. -/
def Taken (w w' : Waiting) (a : Expr (Complex R)) : Prop :=
  ∃ part, w' = Waiting.releaseApply ⟨part ++ w.output, w.stack⟩ ∧ Spells part a

/-- Above what leaves a phrase of the level alone, the tokens convert to the tree. -/
def Converts (level : Nat) (ts : List Token) (a : Expr (Complex R)) : Prop :=
  ∀ w, Guarded level w.stack → ∃ w', Runs w ts w' ∧ Held level w w' a

/-- Whatever waits, the tokens of a unary phrase convert to the tree. -/
def ConvertsOperand (ts : List Token) (a : Expr (Complex R)) : Prop :=
  ∀ w, ∃ w', Runs w ts w' ∧ (Held 5 w w' a ∨ Taken w w' a)

variable {t : Token} {ts us : List Token} {a b : Expr (Complex R)}

theorem ConvertsOperand.number {v : Complex R} (hk : t.kind = .number)
    (hv : readNumber t.text t.start = .ok v) : ConvertsOperand [t] (.number v) := by
  intro w
  refine ⟨⟨t :: w.output, w.stack⟩, .single (by simp [hk]) ?_, .inl ⟨[], [t], rfl, by simp, ?_⟩⟩
  · unfold Waiting.place
    rw [hk]
  · exact .number hk hv

theorem ConvertsOperand.name (hk : t.kind = .name) :
    ConvertsOperand (R := R) [t] (.ofName t.text t.start) := by
  intro w
  refine ⟨⟨t :: w.output, w.stack⟩, .single (by simp [hk]) ?_, .inl ⟨[], [t], rfl, by simp, ?_⟩⟩
  · unfold Waiting.place
    rw [hk]
  · exact .name hk

/-- The minus waits below its operand, or right below the operand's end. -/
theorem ConvertsOperand.neg (hk : t.kind = .operator .neg) (h : ConvertsOperand ts a) :
    ConvertsOperand (t :: ts) (.neg a) := by
  intro w
  have hp : w.place t = .ok ⟨w.output, t :: w.stack⟩ := by
    unfold Waiting.place
    rw [hk]
  have ht : AtLeast 5 t := ⟨.neg, hk, Nat.le_refl 5⟩
  obtain ⟨w', hr, hheld | htaken⟩ := h ⟨w.output, t :: w.stack⟩
  · obtain ⟨ops, part, rfl, hops, hspell⟩ := hheld
    refine ⟨_, .cons (by simp [hk]) hp hr, .inl ⟨ops ++ [t], part, ?_, ?_, ?_⟩⟩
    · rw [List.append_assoc, List.singleton_append]
    · intro o ho
      rcases List.mem_append.1 ho with ho | ho
      · exact hops o ho
      · rw [List.mem_singleton.1 ho]
        exact ht
    · rw [List.reverse_append, List.reverse_singleton, List.singleton_append, List.cons_append]
      exact .neg hk hspell
  · obtain ⟨part, rfl, hspell⟩ := htaken
    refine ⟨_, .cons (by simp [hk]) hp hr, .inl ⟨[t], part, ?_, ?_, ?_⟩⟩
    · rw [Waiting.releaseApply_of_not]
      · rfl
      · intro o ho
        cases ho
        unfold Token.isApply
        rw [hk]
    · intro o ho
      rw [List.mem_singleton.1 ho]
      exact ht
    · exact .neg hk hspell

/-- The function waits below its operand, or has taken it. -/
theorem ConvertsOperand.apply {f : Builtin} (hk : t.kind = .operator (.apply f))
    (h : ConvertsOperand ts a) : ConvertsOperand (t :: ts) (.ofApply f a t.start) := by
  intro w
  have hp : w.place t = .ok ⟨w.output, t :: w.stack⟩ := by
    unfold Waiting.place
    rw [hk]
  obtain ⟨w', hr, hheld | htaken⟩ := h ⟨w.output, t :: w.stack⟩
  · obtain ⟨ops, part, rfl, hops, hspell⟩ := hheld
    refine ⟨_, .cons (by simp [hk]) hp hr, .inl ⟨ops ++ [t], part, ?_, ?_, ?_⟩⟩
    · rw [List.append_assoc, List.singleton_append]
    · intro o ho
      rcases List.mem_append.1 ho with ho | ho
      · exact hops o ho
      · rw [List.mem_singleton.1 ho]
        exact ⟨.apply f, hk, by simp [Operator.precedence]⟩
    · rw [List.reverse_append, List.reverse_singleton, List.singleton_append, List.cons_append]
      exact .apply hk hspell
  · obtain ⟨part, rfl, hspell⟩ := htaken
    refine ⟨_, .cons (by simp [hk]) hp hr, .inl ⟨[], t :: part, ?_, by simp, ?_⟩⟩
    · have ht : t.isApply = true := by
        unfold Token.isApply
        rw [hk]
      show (if t.isApply then _ else _) = _
      rw [if_pos ht]
      rfl
    · exact .apply hk hspell

/-- A parenthesis guards its content, and closing it releases all of the content. -/
theorem ConvertsOperand.group {o c : Token} (ho : o.kind = .operator .openParen)
    (hc : c.kind = .operator .closeParen) (h : Converts 1 ts a) :
    ConvertsOperand (o :: (ts ++ [c])) a := by
  intro w
  have hp : w.place o = .ok ⟨w.output, o :: w.stack⟩ := by
    unfold Waiting.place
    rw [ho]
  have hguard : Guarded 1 (o :: w.stack) := by
    intro t ht
    cases ht
    exact ⟨.openParen, ho, .inl Nat.zero_lt_one⟩
  obtain ⟨w', hr, ops, part, rfl, hops, hspell⟩ := h ⟨w.output, o :: w.stack⟩ hguard
  have hrelease : Waiting.releaseWhile ⟨part ++ w.output, ops ++ o :: w.stack⟩
      (!·.isOperator .openParen) = ⟨ops.reverse ++ (part ++ w.output), o :: w.stack⟩ := by
    refine Waiting.releaseWhile_append (fun t ht => ?_) fun t ht => ?_
    · rw [not_isOperator_open (hops t ht)]
      rfl
    · cases ht
      show (!(o.kind == .operator .openParen)) = false
      rw [ho]
      rfl
  have hclose : Waiting.place ⟨part ++ w.output, ops ++ o :: w.stack⟩ c
      = .ok (Waiting.releaseApply ⟨ops.reverse ++ (part ++ w.output), w.stack⟩) := by
    unfold Waiting.place
    rw [hc]
    show Waiting.close _ _ = _
    unfold Waiting.close
    rw [hrelease]
  refine ⟨_, .cons (by simp [ho]) hp (hr.append (.single (by simp [hc]) hclose)),
    .inr ⟨ops.reverse ++ part, ?_, hspell⟩⟩
  rw [List.append_assoc]

/-! ### Operators between operands -/

/-- A unary phrase is a phrase of every level at which no function waits for it. -/
theorem ConvertsOperand.converts {level : Nat} (hl : level ≤ 5) (h : ConvertsOperand ts a) :
    Converts level ts a := by
  intro w hg
  obtain ⟨w', hr, hheld | htaken⟩ := h w
  · obtain ⟨ops, part, hw, hops, hspell⟩ := hheld
    exact ⟨w', hr, ops, part, hw, fun t ht => (hops t ht).mono hl, hspell⟩
  · obtain ⟨part, rfl, hspell⟩ := htaken
    refine ⟨_, hr, [], part, ?_, by simp, hspell⟩
    refine Waiting.releaseApply_of_not fun t ht => not_isApply_of_below ?_
    rcases Nat.lt_or_eq_of_le hl with hlt | rfl
    · exact (hg t ht).mono hlt
    · exact hg t ht

theorem Converts.mono {l l' : Nat} (hl : l ≤ l') (h : Converts l' ts a) : Converts l ts a := by
  intro w hg
  have hg' : Guarded l' w.stack := by
    rcases Nat.lt_or_eq_of_le hl with hlt | rfl
    · exact hg.mono hlt
    · exact hg
  obtain ⟨w', hr, ops, part, hw, hops, hspell⟩ := h w hg'
  exact ⟨w', hr, ops, part, hw, fun t ht => (hops t ht).mono hl, hspell⟩

/-- The operator releases all of its left operand and waits for its right one. -/
theorem Converts.binary {op : BinaryOp} (hk : t.kind = .operator op.operator)
    (ha : Converts op.leftLevel ts a) (hb : Converts op.rightLevel us b) :
    Converts op.precedence (ts ++ t :: us) (.binary op a b (some t.start)) := by
  intro w hg
  have hgl : Guarded op.leftLevel w.stack := by
    cases op with
    | pow => exact hg.mono (Nat.lt_succ_self _)
    | _ => exact hg
  obtain ⟨w₁, hra, opsa, parta, rfl, hopsa, hspella⟩ := ha w hgl
  have hrelease : Waiting.releaseWhile ⟨parta ++ w.output, opsa ++ w.stack⟩
      (·.yieldsTo op.operator) = ⟨opsa.reverse ++ (parta ++ w.output), w.stack⟩ :=
    Waiting.releaseWhile_append (fun o ho => yieldsTo_of_atLeast (hopsa o ho))
      fun o ho => not_yieldsTo_of_below (hg o ho)
  have hp : Waiting.place ⟨parta ++ w.output, opsa ++ w.stack⟩ t
      = .ok ⟨opsa.reverse ++ (parta ++ w.output), t :: w.stack⟩ := by
    unfold Waiting.place
    rw [hk]
    cases op <;> (simp only [BinaryOp.operator] at hrelease ⊢; rw [hrelease])
  have hgr : Guarded op.rightLevel (t :: w.stack) := by
    intro o ho
    cases ho
    exact below_rightLevel hk
  obtain ⟨w₂, hrb, opsb, partb, rfl, hopsb, hspellb⟩ :=
    hb ⟨opsa.reverse ++ (parta ++ w.output), t :: w.stack⟩ hgr
  refine ⟨_, hra.append (.cons (by simp [hk]) hp hrb),
    opsb ++ [t], partb ++ (opsa.reverse ++ parta), ?_, ?_, ?_⟩
  · simp only [List.append_assoc, List.singleton_append]
  · intro o ho
    rcases List.mem_append.1 ho with ho | ho
    · refine (hopsb o ho).mono ?_
      cases op <;> simp [BinaryOp.rightLevel, BinaryOp.precedence, BinaryOp.isRightAssoc,
        BinaryOp.operator, Operator.precedence, Operator.isRightAssoc]
    · rw [List.mem_singleton.1 ho]
      exact ⟨op.operator, hk, Nat.le_refl _⟩
  · rw [List.reverse_append, List.reverse_singleton, List.singleton_append, List.cons_append,
      ← List.append_assoc]
    exact .binary hk hspellb hspella

/-- Tokens that convert to a tree are parsed as that tree. -/
theorem Converts.parseTokens (h : Converts 1 ts a) : parseTokens ts = .ok a := by
  obtain ⟨w', hr, ops, part, rfl, hops, hspell⟩ := h .start (by intro t ht; cases ht)
  have hfinish : Waiting.finish ⟨part ++ Waiting.start.output, ops ++ Waiting.start.stack⟩
      = .ok (part.reverse ++ ops) := by
    have hfind : ops.find? (·.isOperator .openParen) = none := by
      rw [List.find?_eq_none]
      intro t ht
      rw [not_isOperator_open (hops t ht)]
      exact Bool.false_ne_true
    simp only [Waiting.finish, Waiting.start, List.append_nil, hfind]
  rw [parseTokens_eq_ok_iff]
  refine ⟨part.reverse ++ ops, postOrder_eq_ok_iff.2 ⟨_, hr, hfinish⟩, ?_⟩
  rw [List.reverse_append, List.reverse_reverse]
  exact hspell

end Formulary

import Formulary.Proofs.Parse.Leftovers

/-!
# Reordering

The conversion moves tokens about, and parentheses are all that it drops. Values are put out as they
come, and what is put out stays in its place, so that an operator is never put out before a value
that was written before it.

* `Token.isParen`: an opening or a closing parenthesis.
* `nodes`, `operands`: the nodes and the values among tokens.
* `Waiting.Reorders`: the nodes of the tokens have come to what is put out or waits, the values in
  their order at the end of the output.
* `reorders_place`, `reorders_of_runs`: one token and a run of them.
* `nodup_tokenize`: no two tokens of a text are the same.
* **`postOrder_reorders`**: the post-order of a text is its tokens without the parentheses, each of
  them once, with the values in the order of the text and no operator before a value that stands
  before it in the text.
-/

namespace Formulary

/-- The token is a parenthesis. -/
def Token.isParen (t : Token) : Bool :=
  t.isOperator .openParen || t.isOperator .closeParen

/-- The tokens that are nodes of a tree. -/
def nodes (ts : List Token) : List Token :=
  ts.filter (·.kind.isNode)

/-- The tokens that are values. -/
def operands (ts : List Token) : List Token :=
  ts.filter (·.kind.isValue)

theorem not_isValue_of_operator {t : Token} {o : Operator} (h : t.kind = .operator o) :
    t.kind.isValue = false := by
  simp [h, TokenKind.isValue]

/-- The nodes of a text are all its tokens but the parentheses, if no character is bad. -/
theorem isNode_eq_not_isParen {t : Token} (hunknown : t.kind ≠ .unknown) (hblank : t.kind ≠ .blank)
    (hend : t.kind ≠ .endOfText) : t.kind.isNode = !t.isParen := by
  unfold Token.isParen Token.isOperator
  cases hk : t.kind with
  | endOfText => exact absurd hk hend
  | unknown => exact absurd hk hunknown
  | blank => exact absurd hk hblank
  | number => simp [TokenKind.isNode]
  | name => simp [TokenKind.isNode]
  | operator o => cases o <;> rfl

/-! ### One token more -/

namespace Waiting

variable {w w₁ w' : Waiting} {t : Token} {ts us : List Token}

/-- All that is put out or waits. -/
def tokens (w : Waiting) : List Token :=
  w.output ++ w.stack

/-- The conversion has taken in the tokens: their nodes are put out or wait, and their values are
the latest that are put out. What was put out before is there still. -/
structure Reorders (w : Waiting) (ts : List Token) (w' : Waiting) : Prop where
  nodes : (nodes w'.tokens).Perm (nodes w.tokens ++ nodes ts)
  operands : operands w'.output = (operands ts).reverse ++ operands w.output
  output : w.output <:+ w'.output

theorem Reorders.refl (w : Waiting) : w.Reorders [] w :=
  ⟨by simp [Formulary.nodes], by simp [Formulary.operands], List.suffix_rfl⟩

theorem Reorders.append (h : w.Reorders ts w₁) (h' : w₁.Reorders us w') :
    w.Reorders (ts ++ us) w' := by
  refine ⟨?_, ?_, h.output.trans h'.output⟩
  · have happend : Formulary.nodes (ts ++ us) = Formulary.nodes ts ++ Formulary.nodes us :=
      List.filter_append _ _
    rw [happend, ← List.append_assoc]
    exact h'.nodes.trans (h.nodes.append_right _)
  · have happend : Formulary.operands (ts ++ us)
        = Formulary.operands ts ++ Formulary.operands us :=
      List.filter_append _ _
    rw [h'.operands, h.operands, happend, List.reverse_append, List.append_assoc]

/-- What is released moves from the stack to the output, and no value is among it. -/
theorem Releases.reorders (h : w.Releases w') (ho : w.Orderly) : w.Reorders [] w' := by
  obtain ⟨moved, -, hstack, hout⟩ := h
  have hmoved : moved.filter (·.kind.isValue) = [] := by
    rw [List.filter_eq_nil_iff]
    intro t ht
    obtain ⟨o, hk, -⟩ := ho.stack t (hstack ▸ List.mem_append_left _ ht)
    simp [not_isValue_of_operator hk]
  refine ⟨?_, ?_, ⟨_, hout.symm⟩⟩
  · have hperm : w'.tokens.Perm w.tokens := by
      unfold tokens
      rw [hout, hstack, List.append_assoc]
      have hreverse : (moved.reverse ++ (w.output ++ w'.stack)).Perm
          (moved ++ (w.output ++ w'.stack)) := moved.reverse_perm.append_right _
      exact hreverse.trans (List.perm_append_comm_assoc _ _ _)
    rw [show Formulary.nodes [] = [] from rfl, List.append_nil]
    exact hperm.filter _
  · simp [Formulary.operands, hout, hmoved]

/-- The token is put out or waits. -/
theorem reorders_push {out stack : List Token} (hk : t.kind.isValue = false) :
    Reorders ⟨out, stack⟩ [t] ⟨out, t :: stack⟩ := by
  refine ⟨?_, by simp [Formulary.operands, hk], List.suffix_rfl⟩
  have hperm : (out ++ t :: stack).Perm ((out ++ stack) ++ [t]) := by
    rw [List.append_assoc]
    exact (List.perm_append_singleton t stack).symm.append_left out
  have hfilter := hperm.filter (·.kind.isNode)
  rwa [List.filter_append (out ++ stack)] at hfilter

theorem reorders_put {out stack : List Token} (hk : t.kind.isValue = true) :
    Reorders ⟨out, stack⟩ [t] ⟨t :: out, stack⟩ := by
  refine ⟨?_, by simp [Formulary.operands, hk], List.suffix_cons t out⟩
  have hperm : (t :: out ++ stack).Perm ((out ++ stack) ++ [t]) :=
    (List.perm_append_singleton t (out ++ stack)).symm
  have hfilter := hperm.filter (·.kind.isNode)
  rwa [List.filter_append (out ++ stack)] at hfilter

/-- A parenthesis comes and goes unnoticed. -/
theorem reorders_pop {out stack : List Token} (hk : t.isOperator .openParen = true) :
    Reorders ⟨out, t :: stack⟩ [] ⟨out, stack⟩ := by
  have hnode : t.kind.isNode = false := by
    rw [Token.isOperator_iff.1 hk]
    rfl
  refine ⟨?_, by simp [Formulary.operands], List.suffix_rfl⟩
  simp [Formulary.nodes, tokens, hnode]

end Waiting

variable {w w' : Waiting} {t : Token} {ts : List Token}

theorem reorders_place (ho : w.Orderly) (hp : w.place t = .ok w') : w.Reorders [t] w' := by
  obtain ⟨hv, rfl⟩ | ⟨o, hk, -, -, rfl⟩ | ⟨hk, hclose⟩ | ⟨op, hk, out, stack, hrel, rfl⟩ |
    ⟨hnone, rfl⟩ := place_cases hp
  · exact Waiting.reorders_put hv
  · exact Waiting.reorders_push (not_isValue_of_operator hk)
  · -- the closing parenthesis is dropped together with its partner
    obtain ⟨out, o, rest, hrel, hopen, hrel'⟩ := exists_of_close hclose
    have hpopped := (ho.releases hrel).pop
    have hreorders := ((hrel.reorders ho).append (Waiting.reorders_pop hopen)).append
      (hrel'.reorders hpopped)
    refine ⟨?_, ?_, hreorders.output⟩
    · simpa [nodes, hk, TokenKind.isNode] using hreorders.nodes
    · simpa [operands, hk, TokenKind.isValue] using hreorders.operands
  · exact (hrel.reorders ho).append (Waiting.reorders_push (not_isValue_of_operator hk))
  · have hnode : t.kind.isNode = false ∧ t.kind.isValue = false := by
      simp only [List.mem_cons, List.not_mem_nil, or_false] at hnone
      rcases hnone with hk | hk | hk <;> simp [hk, TokenKind.isNode, TokenKind.isValue]
    refine ⟨?_, ?_, List.suffix_rfl⟩
    · simp [nodes, hnode.1]
    · simp [operands, hnode.2]

/-! ### Runs -/

theorem reorders_of_runs (hr : Runs w ts w') (ho : w.Orderly) : w.Reorders ts w' := by
  induction hr with
  | nil w => exact .refl w
  | cons _ hp _ ih => exact (reorders_place ho hp).append (ih (orderly_place ho hp))

theorem Runs.split {us : List Token} (hr : Runs w (ts ++ us) w') :
    ∃ w₁, Runs w ts w₁ ∧ Runs w₁ us w' := by
  induction ts generalizing w with
  | nil => exact ⟨w, .nil w, hr⟩
  | cons t ts ih =>
    cases hr with
    | cons hk hp hr =>
      obtain ⟨w₁, hr₁, hr₂⟩ := ih hr
      exact ⟨w₁, .cons hk hp hr₁, hr₂⟩

theorem Runs.kind_ne_unknown (hr : Runs w ts w') : ∀ t ∈ ts, t.kind ≠ .unknown := by
  induction hr with
  | nil w => simp
  | cons hk _ _ ih =>
    intro u hu
    rcases List.mem_cons.1 hu with rfl | hu
    · exact hk
    · exact ih u hu

/-! ### The tokens of a text -/

/-- The middle of a token's place, doubled. The multiplication before a value has its middle before
that of the value. -/
def Token.middle (t : Token) : Nat :=
  t.start + t.stop

theorem le_middle_of_mem_tokensAfter {last : Option TokenKind} {pos : Nat} {ls : List Lexeme}
    (h : t ∈ tokensAfter last (placed pos ls)) : 2 * pos ≤ t.middle := by
  obtain ⟨l, hl, ht⟩ := exists_of_mem_tokensAfter h
  have hle := le_start_of_mem_placed hl
  rcases ht with rfl | ⟨last', rfl⟩
  · show 2 * pos ≤ l.start + l.start
    omega
  · show 2 * pos ≤ l.start + (l.start + byteLength l.lexeme.chars)
    omega

theorem pairwise_middle_tokensAfter {ls : List Lexeme} (hls : ∀ l ∈ ls, l.chars ≠ [])
    (last : Option TokenKind) (pos : Nat) :
    (tokensAfter last (placed pos ls)).Pairwise (·.middle < ·.middle) := by
  induction ls generalizing last pos with
  | nil => exact .nil
  | cons l ls ih =>
    have ih := fun last => ih (fun l hl => hls l (List.mem_cons_of_mem _ hl)) last
      (pos + byteLength l.chars)
    cases hblank : l.cls == .blank with
    | true =>
      rw [placed_blank _ _ hblank]
      exact ih last
    | false =>
      rw [placed_cons _ _ hblank]
      have hpos := byteLength_pos (hls l List.mem_cons_self)
      have hmiddle (last : Option TokenKind) :
          (Placed.token last ⟨l, pos⟩).middle = 2 * pos + byteLength l.chars := by
        show pos + (pos + byteLength l.chars) = _
        omega
      have hown : (Placed.token last ⟨l, pos⟩ ::
          tokensAfter (some (l.kind last)) (placed (pos + byteLength l.chars) ls)).Pairwise
            (·.middle < ·.middle) := by
        refine List.pairwise_cons.2 ⟨fun t ht => ?_, ih _⟩
        have hle := le_middle_of_mem_tokensAfter ht
        rw [hmiddle]
        omega
      simp only [tokensAfter]
      split
      · refine List.pairwise_cons.2 ⟨fun t ht => ?_, hown⟩
        show pos + pos < t.middle
        rcases List.mem_cons.1 ht with rfl | ht
        · rw [hmiddle]
          omega
        · have hle := le_middle_of_mem_tokensAfter ht
          omega
      · exact hown

/-- No two tokens of a text are the same. -/
theorem nodup_tokenize (s : String) : (tokenize s).Nodup := by
  rw [tokenize_eq]
  refine (pairwise_middle_tokensAfter (fun l hl => ?_) none 0).imp ?_
  · exact chars_ne_nil_of_mem_fuse (fun l hl => chars_ne_nil_of_mem_lexemes hl) hl
  · intro t u hlt heq
    rw [heq] at hlt
    exact Nat.lt_irrefl _ hlt

/-! ### The post-order of a text -/

/-- The nodes of a text that is converted are its tokens without the parentheses. -/
theorem nodes_tokenize {s : String} (hr : Runs w (tokenize s) w') :
    nodes (tokenize s) = (tokenize s).filter (!·.isParen) := by
  refine List.filter_congr fun t ht => ?_
  obtain ⟨hblank, hend⟩ := kind_of_mem_tokenize ht
  exact isNode_eq_not_isParen (hr.kind_ne_unknown t ht) hblank hend

variable {out : List Token}

theorem perm_of_postOrder (h : postOrder ts = .ok out) : out.Perm (nodes ts) := by
  have hnodes : nodes out = out := List.filter_eq_self.2 (isNode_of_postOrder h)
  obtain ⟨w, hr, hf⟩ := postOrder_eq_ok_iff.1 h
  have hreorders := reorders_of_runs hr Waiting.orderly_start
  obtain ⟨rfl, -⟩ := finish_eq_ok hf
  have hperm : (w.output.reverse ++ w.stack).Perm w.tokens := w.output.reverse_perm.append_right _
  rw [← hnodes]
  exact (hperm.filter _).trans hreorders.nodes

theorem operands_of_postOrder (h : postOrder ts = .ok out) : operands out = operands ts := by
  obtain ⟨w, hr, hf⟩ := postOrder_eq_ok_iff.1 h
  have hreorders := reorders_of_runs hr Waiting.orderly_start
  have ho := orderly_of_runs hr Waiting.orderly_start
  obtain ⟨rfl, -⟩ := finish_eq_ok hf
  have hstack : operands w.stack = [] := by
    refine List.filter_eq_nil_iff.2 fun t ht => ?_
    obtain ⟨o, hk, -⟩ := ho.stack t ht
    simp [not_isValue_of_operator hk]
  have hout : operands w.output = (operands ts).reverse := by
    rw [hreorders.operands]
    exact List.append_nil _
  show operands (w.output.reverse ++ w.stack) = _
  rw [operands, List.filter_append, List.filter_reverse]
  show (operands w.output).reverse ++ operands w.stack = _
  rw [hout, hstack, List.reverse_reverse, List.append_nil]

/-- What stands after a value is put out after it. -/
theorem sublist_of_postOrder (h : postOrder ts = .ok out) (hnodup : ts.Nodup) {v t : Token}
    (hv : v.kind.isValue = true) (ht : t.kind.isNode = true) (hsub : [v, t].Sublist ts) :
    [v, t].Sublist out := by
  have htout : t ∈ out := by
    refine (perm_of_postOrder h).mem_iff.2 (List.mem_filter.2 ⟨?_, ht⟩)
    exact hsub.subset (by simp)
  obtain ⟨before, after, rfl, hvbefore, htafter⟩ := List.cons_sublist_iff.1 hsub
  obtain ⟨w, hr, hf⟩ := postOrder_eq_ok_iff.1 h
  obtain ⟨rfl, -⟩ := finish_eq_ok hf
  obtain ⟨w₁, hr₁, hr₂⟩ := hr.split
  have hv₁ : v ∈ w₁.output := mem_of_runs hr₁ (.inr ⟨hvbefore, hv⟩)
  -- the token is not among what is put out before it is read
  have ht₁ : t ∉ w₁.output := by
    intro hmem
    have hreorders := reorders_of_runs hr₁ Waiting.orderly_start
    have hmem : t ∈ nodes w₁.tokens := List.mem_filter.2 ⟨List.mem_append_left _ hmem, ht⟩
    have hmem : t ∈ nodes before := hreorders.nodes.mem_iff.1 hmem
    have hdisjoint := (List.nodup_append.1 hnodup).2.2
    exact hdisjoint t (List.mem_of_mem_filter hmem) t (List.singleton_sublist.1 htafter) rfl
  obtain ⟨new, hnew⟩ :=
    (reorders_of_runs hr₂ (orderly_of_runs hr₁ Waiting.orderly_start)).output
  rw [← hnew, List.reverse_append, List.append_assoc] at htout ⊢
  have htrest : t ∈ new.reverse ++ w.stack := by
    rcases List.mem_append.1 htout with hmem | hmem
    · exact absurd (List.mem_reverse.1 hmem) ht₁
    · exact hmem
  exact (List.singleton_sublist.2 (List.mem_reverse.2 hv₁)).append
    (List.singleton_sublist.2 htrest)

/-- The post-order of a text, also of one that has no tree: it consists of the tokens without the
parentheses, each of them once. The values stand in the order of the text, and whatever stands after
a value in the text, operators between operands among it, stands after it still. -/
theorem postOrder_reorders {s : String} (h : postOrder (tokenize s) = .ok out) :
    out.Perm ((tokenize s).filter (!·.isParen)) ∧ out.Nodup ∧
    out.filter (·.kind.isValue) = (tokenize s).filter (·.kind.isValue) ∧
    ∀ v t, v.kind.isValue = true → t.isParen = false →
      [v, t].Sublist (tokenize s) → [v, t].Sublist out := by
  obtain ⟨w, hr, -⟩ := postOrder_eq_ok_iff.1 h
  have hnodup := nodup_tokenize s
  have hperm := perm_of_postOrder h
  refine ⟨nodes_tokenize hr ▸ hperm, hperm.nodup_iff.2 (hnodup.filter _),
    operands_of_postOrder h, fun v t hv ht hsub => ?_⟩
  have hmem : t ∈ tokenize s := hsub.subset (by simp)
  obtain ⟨hblank, hend⟩ := kind_of_mem_tokenize hmem
  refine sublist_of_postOrder h hnodup hv ?_ hsub
  rw [isNode_eq_not_isParen (hr.kind_ne_unknown t hmem) hblank hend, ht]
  rfl

/-- A sum without its second operand has a post-order, though it has no tree. -/
theorem postOrder_reorders_group : postOrder (tokenize "(x+)y") =
      .ok [⟨.name, "x", 1, 2⟩, ⟨.operator .add, "+", 2, 3⟩, ⟨.name, "y", 4, 5⟩,
        ⟨.operator .mul, "*", 4, 4⟩] ∧
    [⟨.name, "x", 1, 2⟩, ⟨.operator .mul, "*", 4, 4⟩].Sublist
      [⟨.name, "x", 1, 2⟩, ⟨.operator .add, "+", 2, 3⟩, ⟨.name, "y", 4, 5⟩,
        (⟨.operator .mul, "*", 4, 4⟩ : Token)] := by
  have hpost : postOrder (tokenize "(x+)y") =
      .ok [⟨.name, "x", 1, 2⟩, ⟨.operator .add, "+", 2, 3⟩, ⟨.name, "y", 4, 5⟩,
        ⟨.operator .mul, "*", 4, 4⟩] := by
    decide +kernel
  exact ⟨hpost, (postOrder_reorders hpost).2.2.2 _ _ rfl rfl (by decide +kernel)⟩

end Formulary

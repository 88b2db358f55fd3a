import Formulary.Proofs.Grammar.Separation
import Formulary.Proofs.Parse.Errors

/-!
# Nothing is left over

An operator that joins operands stands between any two operands of a text. So of the operands that
are put out, each one but the first has its operator, at the latest on top of the stack, and a tree
cannot be complete before the whole post-order is read.

* `TokenKind.isNode`: the token is a node of a tree.
* `Waiting.Orderly`: only nodes are put out, and only operators wait.
* `Waiting.Spare`: how many operands have no operator yet, with and without the first tokens.
* `orderly_of_runs`, `spare_of_runs`: one lemma for each step and the run from it.
* `takeTree_eq_error`: how the reader fails on nodes.
* **`parse_consumes`**: a text's post-order is read to its end, or the reader fails at an operator
  without operands or at a numeral.
-/

namespace Formulary

universe u

/-- The token is a node of a tree: an operand, a function with its name or an operator that is no
parenthesis. -/
def TokenKind.isNode : TokenKind → Bool
  | .number | .name => true
  | .operator op => op != .openParen && op != .closeParen
  | .blank | .unknown | .endOfText => false

theorem weigh_nonpos {ts : List Token} (h : ∀ t ∈ ts, t.weight ≤ 0) : weigh ts ≤ 0 := by
  induction ts with
  | nil => exact Int.le_refl 0
  | cons t ts ih =>
    have ht := h t List.mem_cons_self
    have hts := ih fun u hu => h u (List.mem_cons_of_mem _ hu)
    show t.weight + weigh ts ≤ 0
    omega

theorem Token.weight_nonpos {t : Token} {o : Operator} (h : t.kind = .operator o) :
    t.weight ≤ 0 := by
  rw [Token.weight_of_operator h]
  split <;> decide

/-! ### What is put out and what waits -/

namespace Waiting

variable {w w' : Waiting} {t : Token} {out stack : List Token} {n : Int}

/-- Only nodes are put out, and only operators wait, none of which is a closing parenthesis. -/
structure Orderly (w : Waiting) : Prop where
  output : ∀ t ∈ w.output, t.kind.isNode = true
  stack : ∀ t ∈ w.stack, ∃ o, t.kind = .operator o ∧ o ≠ .closeParen

theorem orderly_start : start.Orderly :=
  ⟨nofun, nofun⟩

theorem Orderly.weight_nonpos (h : w.Orderly) : ∀ t ∈ w.stack, t.weight ≤ 0 := by
  intro t ht
  obtain ⟨o, hk, -⟩ := h.stack t ht
  exact Token.weight_nonpos hk

theorem Orderly.releases (h : w.Orderly) (hrel : w.Releases w') : w'.Orderly := by
  obtain ⟨moved, hmoved, hstack, hout⟩ := hrel
  refine ⟨fun t ht => ?_, fun t ht => h.stack t (hstack ▸ List.mem_append_right _ ht)⟩
  rw [hout] at ht
  rcases List.mem_append.1 ht with ht | ht
  · have ht := List.mem_reverse.1 ht
    obtain ⟨o, hk, hclose⟩ := h.stack t (hstack ▸ List.mem_append_left _ ht)
    have hopen : o ≠ .openParen := fun ho => by
      have hne := hmoved t ht
      unfold Token.isOperator at hne
      rw [hk, ho] at hne
      cases hne
    rw [hk]
    exact Bool.and_eq_true_iff.2 ⟨bne_iff_ne.2 hopen, bne_iff_ne.2 hclose⟩
  · exact h.output t ht

theorem Orderly.push {o : Operator} (h : Orderly ⟨out, stack⟩) (hk : t.kind = .operator o)
    (ho : o ≠ .closeParen) : Orderly ⟨out, t :: stack⟩ := by
  refine ⟨h.output, fun u hu => ?_⟩
  rcases List.mem_cons.1 hu with rfl | hu
  · exact ⟨o, hk, ho⟩
  · exact h.stack u hu

theorem Orderly.pop (h : Orderly ⟨out, t :: stack⟩) : Orderly ⟨out, stack⟩ :=
  ⟨h.output, fun u hu => h.stack u (List.mem_cons_of_mem _ hu)⟩

/-- At most `n` operands have no operator yet, and fewer without those that were put out first. -/
structure Spare (w : Waiting) (n : Int) : Prop where
  all : w.weight ≤ n
  part : ∀ us t ts, w.output = us ++ t :: ts → weigh us + weigh w.stack < n

theorem Spare.mono {m : Int} (h : w.Spare n) (hle : n ≤ m) : w.Spare m :=
  ⟨Int.le_trans h.all hle, fun us t ts hout => Int.lt_of_lt_of_le (h.part us t ts hout) hle⟩

theorem spare_start : start.Spare 0 :=
  ⟨Int.le_refl 0, fun us t ts hout => by cases us <;> cases hout⟩

theorem spare_push : Spare ⟨out, t :: stack⟩ (t.weight + n) ↔ Spare ⟨out, stack⟩ n := by
  constructor
  · intro h
    have hall := h.all
    rw [weight_push] at hall
    refine ⟨by omega, fun us u ts hout => ?_⟩
    have hpart : weigh us + (t.weight + weigh stack) < t.weight + n := h.part us u ts hout
    show weigh us + weigh stack < n
    omega
  · intro h
    have hall := h.all
    refine ⟨by rw [weight_push]; omega, fun us u ts hout => ?_⟩
    have hpart : weigh us + weigh stack < n := h.part us u ts hout
    show weigh us + (t.weight + weigh stack) < t.weight + n
    omega

/-- An operand is put out where one is due. -/
theorem Spare.put (h : Spare ⟨out, stack⟩ 0) (ht : t.weight = 1) (hs : ∀ u ∈ stack, u.weight ≤ 0) :
    Spare ⟨t :: out, stack⟩ 1 := by
  have hall := h.all
  refine ⟨by rw [weight_put]; omega, fun us u ts hout => ?_⟩
  cases us with
  | nil =>
    have hstack := weigh_nonpos hs
    show 0 + weigh stack < 1
    omega
  | cons v us =>
    obtain ⟨hhead, htail⟩ := List.cons.inj hout
    have hpart : weigh us + weigh stack < 0 := h.part us u ts htail
    rw [← hhead]
    show t.weight + weigh us + weigh stack < 1
    omega

/-- Operators that are put out join what was put out before them. -/
theorem Spare.releases (h : w.Spare 1) (hrel : w.Releases w') (hs : ∀ t ∈ w.stack, t.weight ≤ 0) :
    w'.Spare 1 := by
  refine ⟨hrel.weight ▸ h.all, fun us t ts hsplit => ?_⟩
  obtain ⟨moved, -, hstack, hout⟩ := hrel
  rw [hout] at hsplit
  rcases List.append_eq_append_iff.1 hsplit with ⟨vs, rfl, hout'⟩ | ⟨vs, hmoved, -⟩
  · have hpart := h.part vs t ts hout'
    rw [hstack, weigh_append] at hpart
    rw [weigh_append, weigh_reverse]
    omega
  · -- nothing but operators stands before the split
    have hus : weigh us ≤ 0 := weigh_nonpos fun u hu => hs u <| by
      rw [hstack]
      refine List.mem_append_left _ (List.mem_reverse.1 ?_)
      rw [hmoved]
      exact List.mem_append_left _ hu
    have hrest : weigh w'.stack ≤ 0 := weigh_nonpos fun u hu => hs u <| by
      rw [hstack]
      exact List.mem_append_right _ hu
    omega

end Waiting

/-! ### One token more -/

variable {w w' : Waiting} {t : Token} {ts : List Token}

theorem orderly_place (h : w.Orderly) (hp : w.place t = .ok w') : w'.Orderly := by
  obtain ⟨hv, rfl⟩ | ⟨o, hk, -, hclose, rfl⟩ | ⟨-, hclose⟩ | ⟨op, hk, out, stack, hrel, rfl⟩ | ⟨-, rfl⟩ :=
    place_cases hp
  · refine ⟨fun u hu => ?_, h.stack⟩
    rcases List.mem_cons.1 hu with rfl | hu
    · cases hkind : u.kind with
      | number => rfl
      | name => rfl
      | _ => rw [hkind] at hv; cases hv
    · exact h.output u hu
  · exact h.push hk hclose
  · obtain ⟨out, o, rest, hrel, -, hrel'⟩ := exists_of_close hclose
    exact (h.releases hrel).pop.releases hrel'
  · exact (h.releases hrel).push hk (by cases op <;> exact Operator.noConfusion)
  · exact h

/-- The operands that may be spare after a token of a kind: one after a value, and none where an
operand is due. -/
def spareAfter (last : Option TokenKind) : Int :=
  if last.any TokenKind.endsValue then 1 else 0

theorem spareAfter_le (last : Option TokenKind) : spareAfter last ≤ 1 := by
  unfold spareAfter
  split <;> decide

/-- Where an operand starts, none is spare. -/
theorem spareAfter_eq_zero {last : Option TokenKind} {k : TokenKind}
    (hsep : last.any TokenKind.endsValue = true → k.startsOperand = false)
    (hk : k.startsOperand = true) : spareAfter last = 0 := by
  unfold spareAfter
  split
  · next h =>
    rw [hsep h] at hk
    cases hk
  · rfl

theorem spareAfter_of_operator {o : Operator} (h : o ≠ .closeParen) :
    spareAfter (some (.operator o)) = 0 := by
  unfold spareAfter
  rw [(expects_operator h).2]
  rfl

theorem spare_place {last : Option TokenKind} (ho : w.Orderly) (h : w.Spare (spareAfter last))
    (hsep : last.any TokenKind.endsValue = true → t.kind.startsOperand = false)
    (hk : t.kind ≠ .unknown ∧ t.kind ≠ .blank ∧ t.kind ≠ .endOfText) (hp : w.place t = .ok w') :
    w'.Spare (spareAfter (some t.kind)) := by
  have hone := h.mono (spareAfter_le last)
  obtain ⟨hv, rfl⟩ | ⟨o, hkind, hbinary, hclose, rfl⟩ | ⟨hkind, hclose⟩ |
    ⟨op, hkind, out, stack, hrel, rfl⟩ | ⟨hnone, -⟩ := place_cases hp
  · rw [spareAfter_eq_zero hsep (startsOperand_of_isValue hv)] at h
    have hafter : spareAfter (some t.kind) = 1 := if_pos (endsValue_of_isValue hv)
    rw [hafter]
    exact h.put (Token.weight_of_value hv) ho.weight_nonpos
  · -- what takes its operand from the right starts one
    have hstart : t.kind.startsOperand = true := by
      rw [hkind]
      cases o <;> first | rfl | exact absurd rfl hclose | cases hbinary
    have hweight : t.weight = 0 := by
      rw [Token.weight_of_operator hkind, hbinary]
      rfl
    rw [spareAfter_eq_zero hsep hstart] at h
    rw [hkind, spareAfter_of_operator hclose]
    have hpush := Waiting.spare_push (t := t).2 h
    rwa [hweight] at hpush
  · obtain ⟨out, o, rest, hrel, hopen, hrel'⟩ := exists_of_close hclose
    have hweight : o.weight = 0 := Token.weight_of_operator (eq_of_beq hopen)
    have hafter : spareAfter (some t.kind) = 1 := by
      rw [hkind]
      rfl
    have hpopped : Waiting.Spare ⟨out, rest⟩ 1 := by
      refine Waiting.spare_push (t := o).1 ?_
      rw [hweight]
      exact hone.releases hrel ho.weight_nonpos
    rw [hafter]
    exact hpopped.releases hrel' (ho.releases hrel).pop.weight_nonpos
  · have hweight : t.weight = -1 := by
      rw [Token.weight_of_operator hkind, Operator.binary?_operator]
      rfl
    have hpush := Waiting.spare_push (t := t).2 (hone.releases hrel ho.weight_nonpos)
    rw [hkind, spareAfter_of_operator (by cases op <;> exact Operator.noConfusion)]
    rwa [hweight] at hpush
  · simp only [List.mem_cons, List.not_mem_nil, or_false] at hnone
    rcases hnone with hnone | hnone | hnone
    · exact absurd hnone hk.2.1
    · exact absurd hnone hk.1
    · exact absurd hnone hk.2.2

/-! ### Runs -/

theorem orderly_of_runs (hr : Runs w ts w') (h : w.Orderly) : w'.Orderly := by
  induction hr with
  | nil w => exact h
  | cons _ hp _ ih => exact ih (orderly_place h hp)

/-- After separate tokens at most one operand is spare. -/
theorem spare_of_runs {last : Option TokenKind} (hr : Runs w ts w') (ho : w.Orderly)
    (h : w.Spare (spareAfter last)) (hsep : Separate last ts)
    (hts : ∀ t ∈ ts, t.kind ≠ .blank ∧ t.kind ≠ .endOfText) : w'.Spare 1 := by
  induction hr generalizing last with
  | nil w => exact h.mono (spareAfter_le last)
  | @cons w w₁ w' t ts hk hp hr ih =>
    exact ih (orderly_place ho hp)
      (spare_place ho h hsep.1 ⟨hk, hts t List.mem_cons_self⟩ hp) hsep.2
      fun u hu => hts u (List.mem_cons_of_mem _ hu)

/-! ### The reader -/

variable {R : Type u} [RealArith R]

/-- The reader fails at an operator without operands or at a numeral. -/
def FailsAt (ts : List Token) (e : ParseError) : Prop :=
  ∃ t ∈ ts, e = .noOperands t.start ∨ t.kind = .number ∧ e = .badNumber t.text t.start

theorem FailsAt.mono {us : List Token} {e : ParseError} (h : FailsAt us e) (hsub : us ⊆ ts) :
    FailsAt ts e := by
  obtain ⟨t, ht, he⟩ := h
  exact ⟨t, hsub ht, he⟩

theorem readNumber_eq_error {text : String} {p : Nat} {e : ParseError}
    (h : readNumber (R := R) text p = .error e) : e = .badNumber text p := by
  unfold readNumber at h
  split at h
  · split at h
    · cases h
    · cases h
      rfl
  · cases h
    rfl

/-- How the reader fails on nodes. -/
theorem takeTree_eq_error {missing e : ParseError} (hts : ∀ t ∈ ts, t.kind.isNode = true)
    (h : takeTree (R := R) missing ts = .error e) : ts = [] ∧ e = missing ∨ FailsAt ts e := by
  induction hn : ts.length using Nat.strongRecOn generalizing missing ts with
  | ind n ih =>
    cases ts with
    | nil =>
      rw [takeTree] at h
      cases h
      exact .inl ⟨rfl, rfl⟩
    | cons t ts =>
      have hnode := hts t List.mem_cons_self
      -- a tree that is missing after the operator is missed by the operator
      have hsub {us vs : List Token} (hus : ts = vs ++ us)
          (hrun : takeTree (R := R) (.noOperands t.start) us = .error e) :
          FailsAt (t :: ts) e := by
        have hlen : us.length < n := by
          rw [← hn, hus, List.length_cons, List.length_append]
          omega
        have hmem : us ⊆ t :: ts := by
          rw [hus]
          exact List.subset_cons_of_subset _ (List.subset_append_right _ _)
        obtain ⟨-, rfl⟩ | hfail := ih _ hlen (fun u hu => hts u (hmem hu)) hrun rfl
        · exact ⟨t, List.mem_cons_self, .inl rfl⟩
        · exact hfail.mono hmem
      rw [takeTree] at h
      refine .inr ?_
      split at h
      · next hk =>
        split at h
        · cases h
        · next hread =>
          cases h
          exact ⟨t, List.mem_cons_self, .inr ⟨hk, readNumber_eq_error hread⟩⟩
      · cases h
      · split at h
        · cases h
        · next hrun =>
          cases h
          exact hsub (List.nil_append _).symm hrun
      · split at h
        · cases h
        · next hrun =>
          cases h
          exact hsub (List.nil_append _).symm hrun
      · next o happly hneg hk =>
        split at h
        · next hnone =>
          rw [hk] at hnode
          obtain ⟨hopen, hclose⟩ := Bool.and_eq_true_iff.1 hnode
          obtain ⟨op, hop⟩ := exists_binary happly (bne_iff_ne.1 hopen) (bne_iff_ne.1 hclose) hneg
          rw [hop] at hnone
          cases hnone
        · split at h
          · next hrun =>
            cases h
            exact hsub (List.nil_append _).symm hrun
          · next b rest hlt hrunb =>
            split at h
            · next hruna =>
              cases h
              obtain ⟨us, hus, -⟩ := spells_of_takeTree hrunb
              exact hsub hus hruna
            · cases h
      · next hk =>
        rw [hk] at hnode
        cases hnode
      · next hk =>
        rw [hk] at hnode
        cases hnode
      · next hk =>
        rw [hk] at hnode
        cases hnode

/-! ### The post-order of a text -/

theorem isNode_of_postOrder {out : List Token} (h : postOrder ts = .ok out) :
    ∀ t ∈ out, t.kind.isNode = true := by
  obtain ⟨w, hr, hf⟩ := postOrder_eq_ok_iff.1 h
  have ho := orderly_of_runs hr Waiting.orderly_start
  obtain ⟨rfl, hdepth⟩ := finish_eq_ok hf
  intro t ht
  rcases List.mem_append.1 ht with ht | ht
  · exact ho.output t (List.mem_reverse.1 ht)
  · obtain ⟨o, hk, hclose⟩ := ho.stack t ht
    have hopen : o ≠ .openParen := fun heq => by
      refine List.countP_eq_zero.1 hdepth t ht ?_
      unfold Token.isOperator
      rw [hk, heq]
      rfl
    rw [hk]
    exact Bool.and_eq_true_iff.2 ⟨bne_iff_ne.2 hopen, bne_iff_ne.2 hclose⟩

/-- A tree at the end of a text's post-order is the whole post-order. -/
theorem eq_nil_of_spells {s : String} {out us rest : List Token} {a : Expr (Complex R)}
    (h : postOrder (tokenize s) = .ok out) (hout : out.reverse = us ++ rest) (hspell : Spells us a) :
    rest = [] := by
  obtain ⟨w, hr, hf⟩ := postOrder_eq_ok_iff.1 h
  have ho := orderly_of_runs hr Waiting.orderly_start
  have hstart : Waiting.start.Spare (spareAfter none) := Waiting.spare_start
  have hspare := spare_of_runs hr Waiting.orderly_start hstart (separate_tokenize s)
    fun t ht => kind_of_mem_tokenize ht
  have hone := weigh_of_spells hspell
  rw [(finish_eq_ok hf).1, List.reverse_append, List.reverse_reverse] at hout
  rcases List.append_eq_append_iff.1 hout with ⟨vs, rfl, hvs⟩ | ⟨vs, hstack, -⟩
  · cases rest with
    | nil => rfl
    | cons t rest =>
      have hpart := hspare.part vs t rest hvs
      rw [weigh_append, weigh_reverse] at hone
      omega
  · -- operators alone are no tree
    have hus : weigh us ≤ 0 := weigh_nonpos fun u hu => ho.weight_nonpos u <| by
      refine List.mem_reverse.1 ?_
      rw [hstack]
      exact List.mem_append_left _ hu
    omega

/-- The ways in which the reading of a post-order ends. -/
theorem parse_cases {s : String} {out : List Token} (h : postOrder (tokenize s) = .ok out) :
    out = [] ∧ parse (R := R) s = .error [.empty] ∨
    (∃ a hlt, takeTree (R := R) .empty out.reverse = .ok (a, ⟨[], hlt⟩) ∧ parse s = .ok a) ∨
    ∃ e, takeTree (R := R) .empty out.reverse = .error e ∧ parse (R := R) s = .error [e] ∧
      FailsAt out e := by
  rw [parse_of_postOrder_ok h]
  cases htake : takeTree (R := R) .empty out.reverse with
  | error e =>
    have herror : ofPostOrder (R := R) out = .error e := by
      unfold ofPostOrder
      rw [htake]
    have hnode (t : Token) (ht : t ∈ out.reverse) : t.kind.isNode = true :=
      isNode_of_postOrder h t (List.mem_reverse.1 ht)
    rw [herror]
    obtain ⟨hnil, rfl⟩ | hfail := takeTree_eq_error hnode htake
    · exact .inl ⟨List.reverse_eq_nil_iff.1 hnil, rfl⟩
    · exact .inr (.inr ⟨e, rfl, rfl, hfail.mono fun t ht => List.mem_reverse.1 ht⟩)
  | ok result =>
    obtain ⟨a, rest, hlt⟩ := result
    obtain ⟨us, hus, hspell⟩ := spells_of_takeTree htake
    obtain rfl := eq_nil_of_spells h hus hspell
    have hok : ofPostOrder out = .ok a := by
      unfold ofPostOrder
      rw [htake]
    rw [hok]
    exact .inr (.inl ⟨a, hlt, rfl, rfl⟩)

/-- Operands are never left over. Between two values of a text that nothing unknown separates stands
an operator that joins. A post-order holds nodes only; if it is not empty, the reader takes it as a
whole or fails at an operator without operands or at a numeral. -/
theorem parse_consumes (s : String) :
    (∀ before u mid v after, tokenize s = before ++ u :: (mid ++ v :: after) →
      u.kind.isValue = true → v.kind.isValue = true → (∀ t ∈ mid, t.kind ≠ .unknown) →
      ∃ t ∈ mid, ∃ op : BinaryOp, t.kind = .operator op.operator) ∧
    (∀ out, postOrder (tokenize s) = .ok out →
      (∀ t ∈ out, t.kind.isNode = true) ∧
      (out = [] ∧ parse (R := R) s = .error [.empty] ∨
        (∃ a hlt, takeTree (R := R) .empty out.reverse = .ok (a, ⟨[], hlt⟩) ∧ parse s = .ok a) ∨
        ∃ e, takeTree (R := R) .empty out.reverse = .error e ∧ parse (R := R) s = .error [e] ∧
          FailsAt out e)) ∧
    ∀ es, parse (R := R) s = .error es → ∀ p, .unparsed p ∉ es := by
  refine ⟨fun before u mid v after hts hu hv hmid => ?_,
    fun out h => ⟨isNode_of_postOrder h, parse_cases h⟩, fun es h p hp => ?_⟩
  · have hsep : Separate (some u.kind) (mid ++ v :: after) := (hts ▸ separate_tokenize s).drop
    refine exists_binary_of_separate hsep (endsValue_of_isValue hu) hv fun t ht => ⟨hmid t ht, ?_⟩
    refine kind_of_mem_tokenize (s := s) ?_
    rw [hts]
    simp [ht]
  · obtain rfl := eq_singleton_of_isLate h hp rfl
    cases hpost : postOrder (tokenize s) with
    | error es =>
      rw [parse_of_postOrder hpost] at h
      cases h
      cases not_isLate_of_postOrder hpost hp
    | ok out =>
      obtain ⟨-, herr⟩ | ⟨a, -, -, hok⟩ | ⟨e, -, herr, t, -, rfl | ⟨-, rfl⟩⟩ :=
        parse_cases (R := R) hpost
      · rw [h] at herr
        cases herr
      · rw [h] at hok
        cases hok
      · rw [h] at herr
        cases herr
      · rw [h] at herr
        cases herr

/-- A juxtaposed group is multiplied, and the minus after it has one operand only. -/
theorem parse_consumes_group :
    (∃ t ∈ [impliedProduct 1, ⟨.operator .openParen, "(", 1, 2⟩], ∃ op : BinaryOp,
      t.kind = .operator op.operator) ∧
    ∃ e, parse (R := Double) "2(3)-" = .error [e] ∧ FailsAt [⟨.number, "2", 0, 1⟩,
      ⟨.number, "3", 2, 3⟩, impliedProduct 1, ⟨.operator .sub, "-", 4, 5⟩] e := by
  have htokens : tokenize "2(3)-" = [⟨.number, "2", 0, 1⟩] ++ impliedProduct 1 ::
      ([⟨.operator .openParen, "(", 1, 2⟩] ++ ⟨.number, "3", 2, 3⟩ ::
        [⟨.operator .closeParen, ")", 3, 4⟩, ⟨.operator .sub, "-", 4, 5⟩]) := by
    decide +kernel
  have hpost : postOrder (tokenize "2(3)-") = .ok [⟨.number, "2", 0, 1⟩, ⟨.number, "3", 2, 3⟩,
      impliedProduct 1, ⟨.operator .sub, "-", 4, 5⟩] := by
    rw [htokens]
    rfl
  obtain ⟨hbetween, hreads, -⟩ := parse_consumes (R := Double) "2(3)-"
  refine ⟨?_, ?_⟩
  · exact hbetween [] ⟨.number, "2", 0, 1⟩ _ ⟨.number, "3", 2, 3⟩ _ htokens rfl rfl (by decide)
  · obtain ⟨hnil, -⟩ | ⟨a, hlt, htake, -⟩ | ⟨e, -, herr, hfail⟩ := (hreads _ hpost).2
    · cases hnil
    · -- a tree would weigh one
      obtain ⟨us, hus, hspell⟩ := spells_of_takeTree htake
      rw [List.append_nil] at hus
      have hone := weigh_of_spells hspell
      rw [← hus] at hone
      cases hone
    · exact ⟨e, herr, hfail⟩

end Formulary

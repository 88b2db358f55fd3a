import Mathlib.Logic.Basic
import Formulary.Expr.Simplify
import Formulary.Proofs.Expr.Subtrees

/-!
# What the rules of simplification keep

The rules make few operators of their own: those for signs, sums, differences and products make only
these, and a power may become a quotient. What holds of numbers, and is handed on by what the rules
make, is kept by the rules.

* `foldNumbers?_getD`, `foldCall?_getD`: numbers that fold, and the alternative where they do not.
* `RingClosed Q`: numbers have the property `Q`, and negations, sums, differences and products hand
  it on. `RingClosed.sum`, `RingClosed.product` and others: the rules for these keep it.
* `RuleClosed Q`: all operators and calls hand it on.
* **`RuleClosed.simplify`**: simplification keeps such a property.
* `IsRingTree`, `isRingTree_simplify`: sums, differences and products are the only operators in the
  tree.
-/

namespace Formulary.Expr

universe u

variable {K : Type u} [Arith K] {op : BinaryOp} {a b c d r : Expr K} {p : Position}

/-! ### Folding -/

/-- What holds of finite computed numbers, and of the alternative where numbers do not fold, holds
of the folded operands. -/
theorem foldNumbers?_getD {Q : Expr K → Prop}
    (hn : ∀ v : K, Arith.isFinite v = true → Q (literal v))
    (hd : foldNumbers? op a b = none → Q d) : Q ((foldNumbers? op a b).getD d) := by
  cases h : foldNumbers? op a b with
  | none => exact hd h
  | some r =>
    unfold foldNumbers? at h
    split at h
    · split at h
      · exact absurd h (by simp)
      · split at h
        · next hfin =>
          cases h
          exact hn _ hfin
        · exact absurd h (by simp)
    · exact absurd h (by simp)

theorem foldCall?_getD {f : Builtin} {Q : Expr K → Prop}
    (hn : ∀ v : K, Arith.isFinite v = true → Q (literal v))
    (hd : foldCall? f a = none → Q d) : Q ((foldCall? f a).getD d) := by
  cases h : foldCall? f a with
  | none => exact hd h
  | some r =>
    unfold foldCall? at h
    split at h
    · split at h
      · exact absurd h (by simp)
      · split at h
        · next hfin =>
          cases h
          exact hn _ hfin
        · exact absurd h (by simp)
    · exact absurd h (by simp)

/-- The known values are zero and one. -/
theorem eq_nat_of_knownValue? {f : Builtin} (h : knownValue? f a = some r) :
    r = nat 0 ∨ r = nat 1 := by
  cases f <;> simp_all [knownValue?]

/-! ### Rules for signs, sums and products -/

/-- The operators that the rules for sums and products make. -/
def ringOperators : List BinaryOp :=
  [.add, .sub, .mul]

theorem ne_of_mem_ringOperators {op : BinaryOp} (h : op ∈ ringOperators) :
    op ≠ .div ∧ op ≠ .pow := by
  constructor
  · rintro rfl
    exact absurd h (by decide)
  · rintro rfl
    exact absurd h (by decide)

/-- A property of trees that numbers have, and that is handed on by signs, sums and products. -/
structure RingClosed (Q : Expr K → Prop) : Prop where
  whole {n : Nat} (h : n ≤ 10) : Q (nat n)
  opposite {v : K} (h : Q (number v)) : Q (literal (-v))
  computed {v : K} (h : Arith.isFinite v = true) : Q (literal v)
  neg_iff {a : Expr K} : Q (neg a) ↔ Q a
  binary {op : BinaryOp} {a b : Expr K} {p : Position} (h : op ∈ ringOperators) (ha : Q a)
    (hb : Q b) : Q (binary op a b p)

section Ring

variable {Q : Expr K → Prop} (hQ : RingClosed Q)

include hQ

namespace RingClosed

theorem negated (ha : Q a) : Q a.negated := by
  cases a with
  | number v => exact hQ.opposite ha
  | neg a => exact hQ.neg_iff.1 ha
  | _ => exact hQ.neg_iff.2 ha

theorem joined (h : ∀ {c d}, Q c → Q d → Q (.binary op c d p)) (ha : Q a) (hb : Q b) :
    Q (joined op a b p) :=
  foldNumbers?_getD (fun _ => hQ.computed) fun _ => h ha hb

theorem hoisted (h : ∀ {c d}, Q c → Q d → Q (.binary op c d p)) (ha : Q a) (hb : Q b) :
    Q (hoisted op a b p) := by
  unfold Expr.hoisted
  split
  · exact hQ.joined h (hQ.negated ha) (hQ.negated hb)
  · split
    · exact hQ.negated (hQ.joined h (hQ.negated ha) hb)
    · split
      · exact hQ.negated (hQ.joined h ha (hQ.negated hb))
      · exact h ha hb

theorem product (ha : Q a) (hb : Q b) : Q (product a b p) := by
  have hmul {c d : Expr K} : Q c → Q d → Q (.binary .mul c d p) := hQ.binary (by decide)
  refine foldNumbers?_getD (fun _ => hQ.computed) fun _ => ?_
  unfold productRules
  split
  · exact hQ.whole (by omega)
  · split
    · exact hb
    · split
      · exact ha
      · split
        · exact hQ.negated hb
        · split
          · exact hQ.negated ha
          · split
            · exact hQ.hoisted hmul hb ha
            · exact hQ.hoisted hmul ha hb

theorem sumUnsigned (ha : Q a) (hb : Q b) : Q (sumUnsigned a b p) := by
  refine foldNumbers?_getD (fun _ => hQ.computed) fun _ => ?_
  split
  · exact hQ.product (hQ.whole (by omega)) ha
  · exact hQ.binary (by decide) ha hb

theorem differenceUnsigned (ha : Q a) (hb : Q b) : Q (differenceUnsigned a b p) := by
  refine foldNumbers?_getD (fun _ => hQ.computed) fun _ => ?_
  split
  · exact hQ.whole (by omega)
  · exact hQ.binary (by decide) ha hb

theorem sum (ha : Q a) (hb : Q b) : Q (sum a b p) := by
  refine foldNumbers?_getD (fun _ => hQ.computed) fun _ => ?_
  split
  · exact ha
  · split
    · exact hb
    · split
      · exact hQ.differenceUnsigned ha (hQ.negated hb)
      · exact hQ.sumUnsigned ha hb

theorem difference (ha : Q a) (hb : Q b) : Q (difference a b p) := by
  refine foldNumbers?_getD (fun _ => hQ.computed) fun _ => ?_
  split
  · exact ha
  · split
    · exact hQ.negated hb
    · split
      · exact hQ.sumUnsigned ha (hQ.negated hb)
      · exact hQ.differenceUnsigned ha hb

theorem quotient (h : ∀ {c d}, Q c → Q d → Q (.binary .div c d p)) (ha : Q a) (hb : Q b) :
    Q (quotient a b p) := by
  refine foldNumbers?_getD (fun _ => hQ.computed) fun _ => ?_
  split
  · exact ha
  · split
    · exact hQ.negated ha
    · exact hQ.hoisted h ha hb

theorem operation (h : op ∈ ringOperators) (ha : Q a) (hb : Q b) : Q (operation op a b p) := by
  cases op with
  | add => exact hQ.sum ha hb
  | sub => exact hQ.difference ha hb
  | mul => exact hQ.product ha hb
  | div => exact absurd h (by decide)
  | pow => exact absurd h (by decide)

end RingClosed

end Ring

/-! ### All rules -/

/-- A property of trees that is handed on by all rules. An operator and a call may get new operands,
and a power may become a quotient without a place. -/
structure RuleClosed (Q : Expr K → Prop) : Prop extends RingClosed Q where
  operands {op : BinaryOp} {a b : Expr K} {p : Position} (h : Q (.binary op a b p)) : Q a ∧ Q b
  rejoined {op : BinaryOp} {a b c d : Expr K} {p : Position} (h : Q (.binary op a b p)) (hc : Q c)
    (hd : Q d) : Q (.binary op c d p)
  reciprocal {a b c d : Expr K} {p : Position} (h : Q (.binary .pow a b p)) (hc : Q c) (hd : Q d) :
    Q (.binary .div c d none)
  operand {f : Builtin} {a : Expr K} {p : Position} (h : Q (call f a p)) : Q a
  recalled {f : Builtin} {a b : Expr K} {p : Position} (h : Q (call f a p)) (hb : Q b) :
    Q (call f b p)

section Rules

variable {Q : Expr K → Prop} (hQ : RuleClosed Q)

include hQ

namespace RuleClosed

theorem inversePower (h : Q (.binary .pow c d p)) (ha : Q a) (hb : Q b) :
    Q (inversePower a b p) := by
  have hs : Q (signedPower a b p) := by
    unfold signedPower
    split
    · have ha := hQ.neg_iff.1 ha
      split
      · exact hQ.rejoined h ha hb
      · exact hQ.neg_iff.2 (hQ.rejoined h ha hb)
    · exact hQ.rejoined h ha hb
  unfold Expr.inversePower
  split
  · split
    · exact hQ.operand hb
    · exact hs
  · split
    · exact hQ.operand hb
    · exact hs
  · split
    · exact hQ.operand hb
    · exact hs
  · exact hs

theorem powerUnsigned (h : Q (.binary .pow c d p)) (ha : Q a) (hb : Q b) :
    Q (powerUnsigned a b p) := by
  refine foldNumbers?_getD (fun _ => hQ.computed) fun _ => ?_
  split
  · exact hQ.whole (by omega)
  · split
    · exact hQ.whole (by omega)
    · split
      · exact ha
      · exact hQ.inversePower h ha hb

theorem power (h : Q (.binary .pow c d p)) (ha : Q a) (hb : Q b) : Q (power a b p) := by
  refine foldNumbers?_getD (fun _ => hQ.computed) fun _ => ?_
  split
  · exact hQ.whole (by omega)
  · split
    · exact hQ.whole (by omega)
    · split
      · exact ha
      · split
        · exact hQ.quotient (hQ.reciprocal h) (hQ.whole (by omega))
            (hQ.powerUnsigned h ha (hQ.negated hb))
        · exact hQ.inversePower h ha hb

/-- The operator joins other operands as it joined the ones it had. -/
theorem operation (h : Q (.binary op c d p)) (ha : Q a) (hb : Q b) : Q (operation op a b p) := by
  cases op with
  | add => exact hQ.sum ha hb
  | sub => exact hQ.difference ha hb
  | mul => exact hQ.product ha hb
  | div => exact hQ.quotient (hQ.rejoined h) ha hb
  | pow => exact hQ.power h ha hb

theorem application {f : Builtin} (h : Q (call f c p)) (ha : Q a) : Q (application f a p) := by
  have hs : Q (signedCall f a p) := by
    unfold signedCall
    split
    · exact hQ.neg_iff.2 (hQ.recalled h (hQ.neg_iff.1 ha))
    · exact hQ.neg_iff.2 (hQ.recalled h (hQ.neg_iff.1 ha))
    · exact hQ.recalled h (hQ.neg_iff.1 ha)
    · exact hQ.recalled h ha
  unfold Expr.application
  cases hk : knownValue? f a with
  | some r => rcases eq_nat_of_knownValue? hk with rfl | rfl <;> exact hQ.whole (by omega)
  | none =>
    show Q ((foldCall? f a).getD (signedCall f a p))
    exact foldCall?_getD (fun _ => hQ.computed) fun _ => hs

/-- Simplification keeps the property. -/
theorem simplify (ha : Q a) : Q a.simplify := by
  induction a with
  | neg a ih => exact hQ.negated (ih (hQ.neg_iff.1 ha))
  | binary op a b p iha ihb =>
    obtain ⟨hl, hr⟩ := hQ.operands ha
    exact hQ.operation ha (iha hl) (ihb hr)
  | call f a p ih => exact hQ.application ha (ih (hQ.operand ha))
  | _ => exact ha

end RuleClosed

end Rules

/-! ### Trees without quotients and powers -/

/-- There is no quotient and no power in the tree. -/
def IsRingTree (a : Expr K) : Prop :=
  ∀ op b c p, binary op b c p ∈ a.subtrees → op ∈ ringOperators

omit [Arith K] in
theorem IsRingTree.of_mem {a s : Expr K} (h : a.IsRingTree) (hs : s ∈ a.subtrees) : s.IsRingTree :=
  fun op b c p hmem => h op b c p (subtrees_subset hs hmem)

omit [Arith K] in
theorem exists_of_not_isRingTree {a : Expr K} (h : ¬a.IsRingTree) :
    ∃ op b c p, op ∈ [BinaryOp.div, .pow] ∧ binary op b c p ∈ a.subtrees := by
  simp only [IsRingTree, not_forall] at h
  obtain ⟨op, b, c, p, hmem, hop⟩ := h
  refine ⟨op, b, c, p, ?_, hmem⟩
  cases op with
  | add | sub | mul => exact absurd (by decide) hop
  | div | pow => decide

omit [Arith K] in
theorem isRingTree_call {f : Builtin} {a : Expr K} {p : Position} :
    (call f a p).IsRingTree ↔ a.IsRingTree := by
  constructor
  · exact fun h => h.of_mem (mem_subtrees_call f a p)
  · intro h op b c q hmem
    rcases List.mem_cons.1 hmem with heq | hmem
    · cases heq
    · exact h op b c q hmem

omit [Arith K] in
theorem isRingTree_number (v : K) : (number v).IsRingTree := by
  intro op b c p hmem
  cases List.mem_singleton.1 hmem

theorem ringClosed_isRingTree : RingClosed (IsRingTree (K := K)) where
  whole _ := isRingTree_number _
  opposite _ := isRingTree_number _
  computed _ := isRingTree_number _
  neg_iff {a} := by
    constructor
    · exact fun h => h.of_mem (mem_subtrees_neg a)
    · intro h op b c q hmem
      rcases List.mem_cons.1 hmem with heq | hmem
      · cases heq
      · exact h op b c q hmem
  binary {op a b p} h ha hb := by
    intro op' c d q hmem
    rcases List.mem_cons.1 hmem with heq | hmem
    · cases heq
      exact h
    · rcases List.mem_append.1 hmem with hmem | hmem
      · exact ha op' c d q hmem
      · exact hb op' c d q hmem

theorem ruleClosed_isRingTree : RuleClosed (IsRingTree (K := K)) where
  toRingClosed := ringClosed_isRingTree
  operands h := ⟨h.of_mem (mem_subtrees_left _ _ _ _), h.of_mem (mem_subtrees_right _ _ _ _)⟩
  rejoined h hc hd := ringClosed_isRingTree.binary (h _ _ _ _ (mem_subtrees_self _)) hc hd
  reciprocal h _ _ := absurd (h _ _ _ _ (mem_subtrees_self _)) (by decide)
  operand h := isRingTree_call.1 h
  recalled _ hb := isRingTree_call.2 hb

/-- Simplification makes quotients and powers only of quotients and powers. -/
theorem isRingTree_simplify {a : Expr K} (ha : a.IsRingTree) : a.simplify.IsRingTree :=
  ruleClosed_isRingTree.simplify ha

end Formulary.Expr

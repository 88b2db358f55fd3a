import Mathlib
import Formulary.Expr.Parse

/-!
# Reversed post-orders

The reader of a post-order takes a tree from the front of the reversed token list. Which tokens
those are is a matter of the tree alone, not of what follows them.

* `Spells ts a`: read from the end, the tokens `ts` are the post-order of the tree `a`.
* `takeTree_of_spells`, `spells_of_takeTree`: the reader takes the tokens that spell a tree, no more
  and no fewer.
* **`ofPostOrder_eq_ok_iff`**: a post-order has a tree if and only if it spells one.
-/

namespace Formulary

universe u

variable {R : Type u} [RealArith R]

/-- What a numeral is read as is finite, and it is the value of its characters. -/
theorem readNumber_eq_ok_iff {text : String} {p : Nat} {v : Complex R} :
    readNumber text p = .ok v ↔ literalValue? text.toList = some v ∧ v.isFinite = true := by
  unfold readNumber
  constructor
  · intro h
    split at h
    · next w hw =>
      split at h
      · next hfin =>
        cases h
        exact ⟨hw, hfin⟩
      · cases h
    · cases h
  · rintro ⟨hv, hfin⟩
    rw [hv]
    exact if_pos hfin

/-- The tokens, the root first and right operands before left ones, are those of the tree. -/
inductive Spells : List Token → Expr (Complex R) → Prop where
  | number {t : Token} {v : Complex R} (hk : t.kind = .number)
    (hv : readNumber t.text t.start = .ok v) : Spells [t] (.number v)
  | name {t : Token} (hk : t.kind = .name) : Spells [t] (.ofName t.text t.start)
  | apply {t : Token} {f : Builtin} {ts : List Token} {a : Expr (Complex R)}
    (hk : t.kind = .operator (.apply f)) (ha : Spells ts a) :
    Spells (t :: ts) (.ofApply f a t.start)
  | neg {t : Token} {ts : List Token} {a : Expr (Complex R)} (hk : t.kind = .operator .neg)
    (ha : Spells ts a) : Spells (t :: ts) (.neg a)
  | binary {t : Token} {op : BinaryOp} {us ts : List Token} {a b : Expr (Complex R)}
    (hk : t.kind = .operator op.operator) (hb : Spells us b) (ha : Spells ts a) :
    Spells (t :: (us ++ ts)) (.binary op a b (some t.start))

/-- The reader takes the tokens that spell a tree. -/
theorem takeTree_of_spells {us : List Token} {a : Expr (Complex R)} (h : Spells us a)
    (missing : ParseError) {all : List Token} (rest : List Token) (hall : all = us ++ rest) :
    ∃ hlt, takeTree missing all = .ok (a, ⟨rest, hlt⟩) := by
  induction h generalizing missing all rest with
  | @number t v hk hv =>
    subst hall
    refine ⟨Nat.lt_succ_self _, ?_⟩
    show takeTree missing (t :: rest) = _
    rw [takeTree]
    simp only [hk, hv]
  | @name t hk =>
    subst hall
    refine ⟨Nat.lt_succ_self _, ?_⟩
    show takeTree missing (t :: rest) = _
    rw [takeTree]
    simp only [hk]
  | @apply t f ts a hk ha ih =>
    subst hall
    obtain ⟨hlt, hrun⟩ := ih (.noOperands t.start) rest rfl
    refine ⟨Nat.lt_succ_of_lt hlt, ?_⟩
    show takeTree missing (t :: (ts ++ rest)) = _
    rw [takeTree]
    simp only [hk, hrun]
  | @neg t ts a hk ha ih =>
    subst hall
    obtain ⟨hlt, hrun⟩ := ih (.noOperands t.start) rest rfl
    refine ⟨Nat.lt_succ_of_lt hlt, ?_⟩
    show takeTree missing (t :: (ts ++ rest)) = _
    rw [takeTree]
    simp only [hk, hrun]
  | @binary t op us ts a b hk hb ha ihb iha =>
    obtain ⟨hltb, hrunb⟩ := ihb (.noOperands t.start) (ts ++ rest) rfl
    obtain ⟨hlta, hruna⟩ := iha (.noOperands t.start) rest rfl
    have hall' : all = t :: (us ++ (ts ++ rest)) := by
      rw [hall, List.cons_append, List.append_assoc]
    subst hall'
    refine ⟨Nat.lt_succ_of_lt (Nat.lt_trans hlta hltb), ?_⟩
    rw [takeTree]
    cases op <;> simp only [hk, BinaryOp.operator, Operator.binary?, hrunb, hruna]

/-- What the reader takes spells the tree. -/
theorem spells_of_takeTree {missing : ParseError} {ts rest : List Token} {a : Expr (Complex R)}
    {hlt : rest.length < ts.length} (h : takeTree missing ts = .ok (a, ⟨rest, hlt⟩)) :
    ∃ us, ts = us ++ rest ∧ Spells us a := by
  induction hn : ts.length using Nat.strongRecOn generalizing missing ts rest a with
  | ind n ih =>
    cases ts with
    | nil => simp [takeTree] at h
    | cons t ts =>
      have hlen : ts.length < n := by rw [← hn]; exact Nat.lt_succ_self _
      rw [takeTree] at h
      split at h
      · next hk =>
        split at h
        · next v hv =>
          cases h
          exact ⟨[t], rfl, .number hk hv⟩
        · cases h
      · next hk =>
        cases h
        exact ⟨[t], rfl, .name hk⟩
      · next f hk =>
        split at h
        · next b rest' hlt' hrun =>
          cases h
          obtain ⟨us, rfl, hus⟩ := ih _ hlen hrun rfl
          exact ⟨t :: us, rfl, .apply hk hus⟩
        · cases h
      · next hk =>
        split at h
        · next b rest' hlt' hrun =>
          cases h
          obtain ⟨us, rfl, hus⟩ := ih _ hlen hrun rfl
          exact ⟨t :: us, rfl, .neg hk hus⟩
        · cases h
      · next o happly hneg hk =>
        split at h
        · cases h
        · next op hop =>
          split at h
          · cases h
          · next b rest₁ hlt₁ hrunb =>
            split at h
            · cases h
            · next a' rest₂ hlt₂ hruna =>
              cases h
              obtain ⟨us, rfl, hus⟩ := ih _ hlen hrunb rfl
              obtain ⟨vs, rfl, hvs⟩ := ih _ (Nat.lt_trans hlt₁ hlen) hruna rfl
              refine ⟨t :: (us ++ vs), ?_, .binary ?_ hus hvs⟩
              · rw [List.cons_append, List.append_assoc]
              · rw [hk, Operator.operator_of_binary? hop]
      · cases h
      · cases h
      · cases h

/-- A post-order has a tree if and only if it spells one. -/
theorem ofPostOrder_eq_ok_iff {out : List Token} {a : Expr (Complex R)} :
    ofPostOrder out = .ok a ↔ Spells out.reverse a := by
  constructor
  · intro h
    unfold ofPostOrder at h
    split at h
    · cases h
    · next b hlt hrun =>
      cases h
      obtain ⟨us, hus, hspell⟩ := spells_of_takeTree hrun
      rw [hus, List.append_nil]
      exact hspell
    · cases h
  · intro h
    obtain ⟨hlt, hrun⟩ := takeTree_of_spells h .empty [] (List.append_nil _).symm
    unfold ofPostOrder
    rw [hrun]

/-- A text has a tree if and only if its tokens have a post-order that spells the tree. -/
theorem parseTokens_eq_ok_iff {ts : List Token} {a : Expr (Complex R)} :
    parseTokens ts = .ok a ↔ ∃ out, postOrder ts = .ok out ∧ Spells out.reverse a := by
  unfold parseTokens
  cases hp : postOrder ts with
  | error es => simp
  | ok out =>
    simp only [← ofPostOrder_eq_ok_iff, Except.ok.injEq, exists_eq_left']
    cases ho : ofPostOrder (R := R) out <;> simp [Except.mapError]

end Formulary

import Formulary.Expr.Basic

/-!
# The trees in a tree

* `Expr.subtrees`: the tree itself and all trees in it.
* `Expr.of_mem_subtrees`: what trees hand on to their operands, they hand on to all trees in them.
* `Expr.subtrees_subset`: what is in a tree of a tree is in the tree.
* `Expr.mem_variableNames_iff`: the names of the variables are those of the variables in the tree.
-/

namespace Formulary.Expr

universe u

variable {K : Type u}

/-- The tree itself and all trees in it. -/
def subtrees : Expr K → List (Expr K)
  | number v => [number v]
  | argument => [argument]
  | named n p => [named n p]
  | neg a => neg a :: a.subtrees
  | binary op a b p => binary op a b p :: (a.subtrees ++ b.subtrees)
  | call f a p => call f a p :: a.subtrees

theorem mem_subtrees_self (a : Expr K) : a ∈ a.subtrees := by
  cases a <;> exact List.mem_cons_self

/-- What trees hand on to their operands, all trees in a tree have from it. -/
theorem of_mem_subtrees {Q : Expr K → Prop} (hneg : ∀ {a}, Q (neg a) → Q a)
    (hbinary : ∀ {op a b p}, Q (binary op a b p) → Q a ∧ Q b)
    (hcall : ∀ {f a p}, Q (call f a p) → Q a) {a s : Expr K} (ha : Q a) (hs : s ∈ a.subtrees) :
    Q s := by
  induction a with
  | neg a ih =>
    rcases List.mem_cons.1 hs with rfl | hs
    · exact ha
    · exact ih (hneg ha) hs
  | binary op a b p iha ihb =>
    rcases List.mem_cons.1 hs with rfl | hs
    · exact ha
    · rcases List.mem_append.1 hs with hs | hs
      · exact iha (hbinary ha).1 hs
      · exact ihb (hbinary ha).2 hs
  | call f a p ih =>
    rcases List.mem_cons.1 hs with rfl | hs
    · exact ha
    · exact ih (hcall ha) hs
  | _ =>
    obtain rfl := List.mem_singleton.1 hs
    exact ha

theorem subtrees_subset {a s : Expr K} (hs : s ∈ a.subtrees) : s.subtrees ⊆ a.subtrees :=
  of_mem_subtrees (Q := fun t => t.subtrees ⊆ a.subtrees)
    (fun h _ ht => h (List.mem_cons_of_mem _ ht))
    (fun h => ⟨fun _ ht => h (List.mem_cons_of_mem _ (List.mem_append_left _ ht)),
      fun _ ht => h (List.mem_cons_of_mem _ (List.mem_append_right _ ht))⟩)
    (fun h _ ht => h (List.mem_cons_of_mem _ ht)) (List.Subset.refl _) hs

theorem mem_subtrees_neg (a : Expr K) : a ∈ (neg a).subtrees :=
  .tail _ (mem_subtrees_self a)

theorem mem_subtrees_left (op : BinaryOp) (a b : Expr K) (p : Position) :
    a ∈ (binary op a b p).subtrees :=
  .tail _ (List.mem_append_left _ (mem_subtrees_self a))

theorem mem_subtrees_right (op : BinaryOp) (a b : Expr K) (p : Position) :
    b ∈ (binary op a b p).subtrees :=
  .tail _ (List.mem_append_right _ (mem_subtrees_self b))

theorem mem_subtrees_call (f : Builtin) (a : Expr K) (p : Position) :
    a ∈ (call f a p).subtrees :=
  .tail _ (mem_subtrees_self a)

/-! ### Names -/

theorem mem_addName_iff {names : List String} {name n : String} :
    n ∈ addName names name ↔ n ∈ names ∨ n = name := by
  unfold addName
  split
  · next h =>
    refine ⟨.inl, ?_⟩
    rintro (hn | rfl)
    · exact hn
    · exact h
  · rw [List.mem_append, List.mem_singleton]

theorem mem_collectNames_iff {names : List String} {a : Expr K} {n : String} :
    n ∈ collectNames names a ↔ n ∈ names ∨ ∃ p, named n p ∈ a.subtrees := by
  induction a generalizing names with
  | number v => simp [collectNames, subtrees]
  | argument => simp [collectNames, subtrees]
  | named m p =>
    show n ∈ addName names m ↔ _
    rw [mem_addName_iff]
    refine or_congr Iff.rfl ⟨?_, ?_⟩
    · rintro rfl
      exact ⟨p, mem_subtrees_self _⟩
    · rintro ⟨q, hmem⟩
      cases List.mem_singleton.1 hmem
      rfl
  | neg a ih => simp [collectNames, subtrees, ih]
  | binary op a b p iha ihb => simp [collectNames, subtrees, iha, ihb, exists_or, or_assoc]
  | call f a p ih => simp [collectNames, subtrees, ih]

/-- A name is one of a variable in the tree. -/
theorem mem_variableNames_iff {a : Expr K} {n : String} :
    n ∈ a.variableNames ↔ ∃ p, named n p ∈ a.subtrees := by
  unfold variableNames
  rw [mem_collectNames_iff]
  simp

end Formulary.Expr

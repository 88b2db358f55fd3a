import Formulary.Binary64.Arith
import Formulary.Proofs.Parse.Reordering
import Formulary.Proofs.Program.Simulation

/-!
# Programs and post-orders

A tree is read from the end of a post-order and laid out from its beginning, and both come to the
same: the program of a text performs its post-order token by token. Only the exponential is not
performed, since its node is a power.

* `Performs names t i`: the instruction does what the token asks for.
* `performs_emit`: the code of a tree performs the tokens that spell it, whatever slots come before
  its own and after them.
* **`performs_ofExpr`**: the program of a text performs its post-order.
-/

namespace Formulary

universe u

variable {R : Type u} [RealArith R]

/-- The instruction does what the token of a post-order asks for. The names are those of the slots. -/
inductive Performs (names : List String) (t : Token) : Instruction (Complex R) → Prop where
  | number {v : Complex R} (hk : t.kind = .number) (hv : readNumber t.text t.start = .ok v) :
    Performs names t (.push v)
  | argument (hk : t.kind = .name) (hx : t.text = argumentName) : Performs names t .argument
  | name {slot : Nat} (hk : t.kind = .name) (hx : t.text ≠ argumentName)
    (hslot : names[slot]? = some t.text) : Performs names t (.load slot (some t.start))
  | neg (hk : t.kind = .operator .neg) : Performs names t .neg
  | binary {op : BinaryOp} (hk : t.kind = .operator op.operator) :
    Performs names t (.binary op (some t.start))
  /-- The two names of the natural logarithm mean one function. -/
  | logarithm (hk : t.kind = .operator (.apply .ln)) : Performs names t (.call .log (some t.start))
  | call {f : Builtin} (hk : t.kind = .operator (.apply f)) (hexp : f ≠ .exp) (hln : f ≠ .ln) :
    Performs names t (.call f (some t.start))

/-- No token applies the exponential. -/
def ExpFree (ts : List Token) : Prop :=
  ∀ t ∈ ts, t.kind ≠ .operator (.apply .exp)

theorem ExpFree.mono {ts us : List Token} (h : ExpFree ts) (hsub : us ⊆ ts) : ExpFree us :=
  fun t ht => h t (hsub ht)

/-- The step for a name loads the slot of the name, or is that of the argument. -/
theorem performs_ofName {names all : List String} {t : Token} (hk : t.kind = .name)
    (hp : (Program.emit names (.ofName t.text t.start : Expr (Complex R))).names <+: all) :
    List.Forall₂ (Performs all) [t]
      (Program.emit names (.ofName t.text t.start : Expr (Complex R))).code := by
  by_cases hx : t.text = argumentName
  · have hname : (Expr.ofName t.text t.start : Expr (Complex R)) = .argument := if_pos hx
    rw [hname]
    exact .cons (.argument hk hx) .nil
  · have hname : (Expr.ofName t.text t.start : Expr (Complex R)) = .named t.text (some t.start) :=
      if_neg hx
    rw [hname] at hp ⊢
    have hslot := getElem?_idxOf_of_prefix (Expr.mem_addName names t.text) hp
    exact .cons (.name hk hx hslot) .nil

/-- A function follows the code of its operand. -/
theorem performs_ofApply {names all : List String} {t : Token} {f : Builtin} {ts : List Token}
    {a : Expr (Complex R)} (hk : t.kind = .operator (.apply f)) (hexp : f ≠ .exp)
    (hp : (Program.emit names (.ofApply f a t.start)).names <+: all)
    (ha : (Program.emit names a).names <+: all →
      List.Forall₂ (Performs all) ts (Program.emit names a).code) :
    List.Forall₂ (Performs all) (ts ++ [t]) (Program.emit names (.ofApply f a t.start)).code := by
  by_cases hln : f = .ln
  · subst hln
    exact List.rel_append (ha hp) (.cons (.logarithm hk) .nil)
  · have hcall : Expr.ofApply f a t.start = .call f a (some t.start) := by
      cases f <;> first | rfl | exact absurd rfl hexp | exact absurd rfl hln
    rw [hcall] at hp ⊢
    exact List.rel_append (ha hp) (.cons (.call hk hexp hln) .nil)

/-- The code of a tree performs the tokens that spell it, whatever slots come before its own and
after them. -/
theorem performs_emit {ts : List Token} {a : Expr (Complex R)} (h : Spells ts a)
    (hexp : ExpFree ts) {names all : List String} (hp : (Program.emit names a).names <+: all) :
    List.Forall₂ (Performs all) ts.reverse (Program.emit names a).code := by
  induction h generalizing names with
  | number hk hv => exact .cons (.number hk hv) .nil
  | name hk => exact performs_ofName hk hp
  | @apply t f ts a hk ha ih =>
    rw [List.reverse_cons]
    have hf : f ≠ .exp := by
      rintro rfl
      exact hexp t List.mem_cons_self hk
    exact performs_ofApply hk hf hp (ih (hexp.mono (List.subset_cons_self t ts)))
  | @neg t ts a hk ha ih =>
    rw [List.reverse_cons]
    exact List.rel_append (ih (hexp.mono (List.subset_cons_self t ts)) hp) (.cons (.neg hk) .nil)
  | @binary t op us ts a b hk hb ha ihb iha =>
    have hus : us ⊆ t :: (us ++ ts) :=
      List.subset_cons_of_subset t (List.subset_append_left us ts)
    have hts : ts ⊆ t :: (us ++ ts) :=
      List.subset_cons_of_subset t (List.subset_append_right us ts)
    -- the slots of the right operand follow those of the left one
    have hnames := Program.names_prefix_emit (Program.emit names a).names b
    rw [List.reverse_cons, List.reverse_append]
    exact List.rel_append (List.rel_append (iha (hexp.mono hts) (hnames.trans hp))
      (ihb (hexp.mono hus) hp)) (.cons (.binary hk) .nil)

/-- The program of a text that does not apply the exponential performs the post-order of the text,
token by token and in the same order. -/
theorem performs_ofExpr {s : String} {a : Expr (Complex R)} (h : parse s = .ok a)
    (hexp : ∀ t ∈ tokenize s, t.kind ≠ .operator (.apply .exp)) :
    ∃ out, postOrder (tokenize s) = .ok out ∧
      List.Forall₂ (Performs (Program.ofExpr a).names) out (Program.ofExpr a).code := by
  obtain ⟨out, hpost, hspells⟩ := parseTokens_eq_ok_iff.1 h
  have hout : ExpFree out.reverse := by
    intro t ht
    have hmem := (perm_of_postOrder hpost).mem_iff.1 (List.mem_reverse.1 ht)
    exact hexp t (List.mem_of_mem_filter hmem)
  refine ⟨out, hpost, ?_⟩
  have hperforms := performs_emit hspells hout (List.prefix_refl (Program.ofExpr a).names)
  rwa [List.reverse_reverse] at hperforms

/-- The steps for a difference with a natural logarithm, each for its token. -/
theorem performs_ofExpr_difference :
    ∃ out, postOrder (tokenize "k-ln(x)") = .ok out ∧
      List.Forall₂ (Performs (R := Double) ["k"]) out
        [.load 0 (some 0), .argument, .call .log (some 2), .binary .sub (some 1)] := by
  have htokens : tokenize "k-ln(x)" = [⟨.name, "k", 0, 1⟩, ⟨.operator .sub, "-", 1, 2⟩,
      ⟨.operator (.apply .ln), "ln", 2, 4⟩, ⟨.operator .openParen, "(", 4, 5⟩,
      ⟨.name, "x", 5, 6⟩, ⟨.operator .closeParen, ")", 6, 7⟩] := by
    decide +kernel
  have hpost : postOrder (tokenize "k-ln(x)") = .ok [⟨.name, "k", 0, 1⟩, ⟨.name, "x", 5, 6⟩,
      ⟨.operator (.apply .ln), "ln", 2, 4⟩, ⟨.operator .sub, "-", 1, 2⟩] := by
    rw [htokens]
    decide +kernel
  have hk : Spells [⟨.name, "k", 0, 1⟩] (.named "k" (some 0) : Expr (Complex Double)) :=
    .name (t := ⟨.name, "k", 0, 1⟩) rfl
  have hx : Spells [⟨.name, "x", 5, 6⟩] (.argument : Expr (Complex Double)) :=
    .name (t := ⟨.name, "x", 5, 6⟩) rfl
  have hspells : Spells [⟨.operator .sub, "-", 1, 2⟩, ⟨.operator (.apply .ln), "ln", 2, 4⟩,
      ⟨.name, "x", 5, 6⟩, ⟨.name, "k", 0, 1⟩] (.binary .sub (.named "k" (some 0))
        (.call .log .argument (some 2)) (some 1) : Expr (Complex Double)) :=
    .binary (t := ⟨.operator .sub, "-", 1, 2⟩) rfl
      (.apply (t := ⟨.operator (.apply .ln), "ln", 2, 4⟩) (f := .ln) rfl hx) hk
  refine performs_ofExpr (parseTokens_eq_ok_iff.2 ⟨_, hpost, hspells⟩) ?_
  rw [htokens]
  decide +kernel

end Formulary

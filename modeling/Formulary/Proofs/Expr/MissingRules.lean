import Formulary.Formula.Basic
import Formulary.Proofs.Expr.Subtrees

/-!
# Trees without a derivative

Differentiating fails on the functions that no rule covers, wherever they stand in the tree, and of
several calls it reports the one that comes first from the root down and from left to right.

* `withoutRule`: the functions that no rule covers (`outerDerivative?_eq_none_iff`).
* `Expr.missingRule?`: the error of a tree whose root calls one of them.
* `Expr.firstMissing?`: the error of the first such call in the tree.
* `differentiate_of_missing`, `exists_of_firstMissing?`: differentiating fails with this error, and
  succeeds if there is none.
* `Expr.FirstMissing a e`: the error names the first such call, spelled out.
* **`derivative_error_iff`**: all ways to differentiate a formula fail with this error and no other.
-/

namespace Formulary

universe u

/-- The functions whose derivative no rule gives. -/
def withoutRule : List Builtin :=
  [.cbrt, .log2, .erf, .gamma]

namespace Expr

variable {K : Type u}

/-- The error of a tree whose root calls a function without a rule. -/
def missingRule? : Expr K → Option DerivativeError
  | call f _ p => if f ∈ withoutRule then some ⟨f, p⟩ else none
  | _ => none

/-- The error of the first call of a function without a rule, from the root down and from left to
right. -/
def firstMissing? (a : Expr K) : Option DerivativeError :=
  a.subtrees.findSome? missingRule?

/-- The error names the function and the place of a call without a rule, and no such call comes
before it. -/
def FirstMissing (a : Expr K) (e : DerivativeError) : Prop :=
  ∃ before b after, a.subtrees = before ++ call e.function b e.position :: after ∧
    e.function ∈ withoutRule ∧ ∀ f c p, call f c p ∈ before → f ∉ withoutRule

/-! ### The first call -/

theorem missingRule?_eq_some_iff {a : Expr K} {e : DerivativeError} :
    a.missingRule? = some e ↔ e.function ∈ withoutRule ∧ ∃ b, a = call e.function b e.position := by
  constructor
  · intro h
    cases a with
    | call f b p =>
      obtain ⟨hf, heq⟩ := Option.ite_none_right_eq_some.1 h
      cases heq
      exact ⟨hf, b, rfl⟩
    | _ => cases h
  · rintro ⟨hf, b, rfl⟩
    exact if_pos hf

theorem missingRule?_eq_none_iff {a : Expr K} :
    a.missingRule? = none ↔ ∀ f b p, a = call f b p → f ∉ withoutRule := by
  rw [Option.eq_none_iff_forall_ne_some]
  constructor
  · rintro h f b p rfl hf
    exact h ⟨f, p⟩ (if_pos hf)
  · intro h e he
    obtain ⟨hf, b, rfl⟩ := missingRule?_eq_some_iff.1 he
    exact h _ b _ rfl hf

/-- The first error is that of a call with no other before it. -/
theorem firstMissing?_eq_some_iff {a : Expr K} {e : DerivativeError} :
    a.firstMissing? = some e ↔ a.FirstMissing e := by
  unfold firstMissing? FirstMissing
  rw [List.findSome?_eq_some_iff]
  constructor
  · rintro ⟨before, s, after, hsplit, hs, hbefore⟩
    obtain ⟨hf, b, rfl⟩ := missingRule?_eq_some_iff.1 hs
    exact ⟨before, b, after, hsplit, hf, fun f c p hc =>
      missingRule?_eq_none_iff.1 (hbefore _ hc) f c p rfl⟩
  · rintro ⟨before, b, after, hsplit, hf, hbefore⟩
    refine ⟨before, _, after, hsplit, missingRule?_eq_some_iff.2 ⟨hf, b, rfl⟩, fun s hs => ?_⟩
    exact missingRule?_eq_none_iff.2 fun f c p heq => hbefore f c p (heq ▸ hs)

/-- There is an error exactly if a function without a rule is called anywhere. -/
theorem exists_firstMissing?_iff {a : Expr K} :
    (∃ e, a.firstMissing? = some e) ↔ ∃ f b p, call f b p ∈ a.subtrees ∧ f ∈ withoutRule := by
  unfold firstMissing?
  constructor
  · rintro ⟨e, he⟩
    obtain ⟨s, hs, hse⟩ := List.exists_of_findSome?_eq_some he
    obtain ⟨hf, b, rfl⟩ := missingRule?_eq_some_iff.1 hse
    exact ⟨_, b, _, hs, hf⟩
  · rintro ⟨f, b, p, hs, hf⟩
    rw [← Option.isSome_iff_exists, List.findSome?_isSome_iff]
    exact ⟨_, hs, Option.isSome_iff_exists.2 ⟨⟨f, p⟩, if_pos hf⟩⟩

theorem firstMissing?_binary (op : BinaryOp) (a b : Expr K) (p : Position) :
    (binary op a b p).firstMissing? = a.firstMissing?.or b.firstMissing? :=
  List.findSome?_append

theorem firstMissing?_call (f : Builtin) (a : Expr K) (p : Position) :
    (call f a p).firstMissing? = (call f a p).missingRule?.or a.firstMissing? := by
  unfold firstMissing?
  rw [subtrees, List.findSome?_cons]
  cases (call f a p).missingRule? <;> rfl

/-! ### Differentiating -/

variable [Arith K]

/-- The rules leave out these functions and no others. -/
theorem outerDerivative?_eq_none_iff {f : Builtin} {a : Expr K} :
    outerDerivative? f a = none ↔ f ∈ withoutRule := by
  cases f <;> simp [outerDerivative?, withoutRule]

theorem exists_outerDerivative? {f : Builtin} (h : f ∉ withoutRule) (a : Expr K) :
    ∃ outer, outerDerivative? f a = some outer :=
  Option.ne_none_iff_exists'.1 fun hnone => h (outerDerivative?_eq_none_iff.1 hnone)

/-- A tree that calls no function without a rule has a derivative. -/
theorem exists_of_firstMissing? {a : Expr K} (h : a.firstMissing? = none) :
    ∃ a', a.differentiate = .ok a' := by
  induction a with
  | number v => exact ⟨_, rfl⟩
  | argument => exact ⟨_, rfl⟩
  | named n p => exact ⟨_, rfl⟩
  | neg a ih =>
    obtain ⟨a', ha⟩ := ih h
    exact ⟨_, by rw [differentiate, ha]⟩
  | binary op a b p iha ihb =>
    rw [firstMissing?_binary, Option.or_eq_none_iff] at h
    obtain ⟨a', ha⟩ := iha h.1
    obtain ⟨b', hb⟩ := ihb h.2
    exact ⟨diffBinary op a b a' b', by rw [differentiate, ha, hb]⟩
  | call f a p ih =>
    rw [firstMissing?_call, Option.or_eq_none_iff] at h
    obtain ⟨outer, ho⟩ := exists_outerDerivative? (missingRule?_eq_none_iff.1 h.1 f a p rfl) a
    obtain ⟨a', ha⟩ := ih h.2
    exact ⟨times outer a', by rw [differentiate, ho, ha]⟩

/-- Where functions without a rule are called, differentiating reports the first such call. -/
theorem differentiate_of_missing {a : Expr K} {e : DerivativeError}
    (h : a.firstMissing? = some e) : a.differentiate = .error e := by
  induction a with
  | number v => cases h
  | argument => cases h
  | named n p => cases h
  | neg a ih => rw [differentiate, ih h]
  | binary op a b p iha ihb =>
    rw [firstMissing?_binary, Option.or_eq_some_iff] at h
    obtain ha | ⟨ha, hb⟩ := h
    · rw [differentiate, iha ha]
    · -- the left operand has a derivative, so that the right one is reached
      obtain ⟨a', ha'⟩ := exists_of_firstMissing? ha
      rw [differentiate, ha', ihb hb]
  | call f a p ih =>
    rw [firstMissing?_call, Option.or_eq_some_iff] at h
    obtain hf | ⟨hf, ha⟩ := h
    · -- the function is looked at before its operand
      obtain ⟨hmem, b, heq⟩ := missingRule?_eq_some_iff.1 hf
      cases heq
      rw [differentiate, outerDerivative?_eq_none_iff.2 hmem]
    · obtain ⟨outer, ho⟩ := exists_outerDerivative? (missingRule?_eq_none_iff.1 hf f a p rfl) a
      rw [differentiate, ho, ih ha]

theorem differentiate_eq_error_iff {a : Expr K} {e : DerivativeError} :
    a.differentiate = .error e ↔ a.firstMissing? = some e := by
  refine ⟨fun h => ?_, differentiate_of_missing⟩
  cases hm : a.firstMissing? with
  | none =>
    obtain ⟨a', ha⟩ := exists_of_firstMissing? hm
    rw [ha] at h
    cases h
  | some e' =>
    rw [differentiate_of_missing hm] at h
    cases h
    rfl

/-- Simplifying the derivative changes no error. -/
theorem derivative_eq_error_iff {a : Expr K} {e : DerivativeError} :
    a.derivative = .error e ↔ a.firstMissing? = some e := by
  rw [← differentiate_eq_error_iff]
  unfold derivative
  cases a.differentiate with
  | ok a' => exact ⟨nofun, nofun⟩
  | error e' => exact Iff.rfl

end Expr

/-! ### Formulas -/

/-- What is made of a value does not matter where there is an error. -/
theorem map_eq_error_iff {ε : Type} {α β : Type u} {g : α → β} {r : Except ε α} {e : ε} :
    r.map g = .error e ↔ r = .error e := by
  cases r with
  | ok v => exact ⟨nofun, nofun⟩
  | error e' =>
    exact ⟨fun h => congrArg _ (Except.error.inj h), fun h => congrArg _ (Except.error.inj h)⟩

namespace Formula

variable {R : Type u} [RealArith R] {f : Formula R} {e : DerivativeError}

/-- A formula has no raw derivative where its tree has none. -/
theorem rawDerivative_eq_error_iff :
    f.rawDerivative = .error e ↔ f.root.firstMissing? = some e := by
  rw [← Expr.differentiate_eq_error_iff]
  exact map_eq_error_iff

/-- A formula has no derivative where its tree has none, whether derivatives are simplified or
not. -/
theorem derivative_eq_error_iff :
    f.derivative = .error e ↔ f.root.firstMissing? = some e := by
  unfold derivative
  split
  · rw [← Expr.derivative_eq_error_iff]
    exact map_eq_error_iff
  · exact rawDerivative_eq_error_iff

end Formula

/-- **When a derivative fails**: all ways to differentiate fail if and only if the tree calls a
function without a rule, used or not, and the error names the first such call. -/
theorem derivative_error_iff {R : Type u} [RealArith R] (f : Formula R) :
    ((∃ e, f.root.differentiate = .error e) ↔
      ∃ g b p, .call g b p ∈ f.root.subtrees ∧ g ∈ withoutRule) ∧
    ∀ e, (f.root.differentiate = .error e ↔ f.root.FirstMissing e) ∧
      (f.root.derivative = .error e ↔ f.root.FirstMissing e) ∧
      (f.rawDerivative = .error e ↔ f.root.FirstMissing e) ∧
      (f.derivative = .error e ↔ f.root.FirstMissing e) := by
  constructor
  · rw [← Expr.exists_firstMissing?_iff]
    exact exists_congr fun e => Expr.differentiate_eq_error_iff
  · intro e
    rw [← Expr.firstMissing?_eq_some_iff]
    exact ⟨Expr.differentiate_eq_error_iff, Expr.derivative_eq_error_iff,
      Formula.rawDerivative_eq_error_iff, Formula.derivative_eq_error_iff⟩

end Formulary

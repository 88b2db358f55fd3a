import Formulary.Proofs.Arithmetic.ZeroLaws
import Formulary.Proofs.Expr.Sums
import Formulary.Proofs.Grammar.Rejects

/-!
# Trees reached from a text

A tree is read from a text, and simplifying and differentiating lead to others. What the leaves of
the first one satisfy they all do.

* `Expr.Reaches a b`: steps of simplifying and differentiating lead from the one tree to the other.
* `leavesHold_of_reaches`: a property of leaves that each step keeps holds of all trees reached.
* `exists_ofDecimal`: the numbers of a text are decimals, with no sign on either part.
* **`plainLeaves_of_parse`**: the numbers of a parsed tree are finite and have no negative zero.
* `derivedLeaves N`: such numbers, names with the property `N`, and functions but for the exponential
  and the second name of the logarithm. `derivedLeaves_of_parse`, `derivedLeaves_of_reaches`: the
  trees that a text leads to have such leaves.
-/

namespace Formulary

open RealArith

universe u

/-! ### Steps -/

section Reaches

variable {K : Type u} [Arith K]

/-- Steps of simplifying and differentiating lead from the first tree to the second. -/
inductive Expr.Reaches (a : Expr K) : Expr K → Prop where
  | refl : Reaches a a
  | simplify {b : Expr K} (h : Reaches a b) : Reaches a b.simplify
  | differentiate {b c : Expr K} (h : Reaches a b) (hd : b.differentiate = .ok c) : Reaches a c
  | derivative {b c : Expr K} (h : Reaches a b) (hd : b.derivative = .ok c) : Reaches a c

/-- What each step keeps holds of the leaves of every tree that is reached. -/
theorem leavesHold_of_reaches {P : LeafProperty K} (hs : P.Simplifies) (hd : P.Differentiates)
    {a b : Expr K} (h : a.Reaches b) (ha : a.LeavesHold P) : b.LeavesHold P := by
  induction h with
  | refl => exact ha
  | simplify h ih => exact Expr.leavesHold_simplify hs ih
  | differentiate h hdiff ih => exact Expr.leavesHold_differentiate hd ih hdiff
  | @derivative b c h hdiff ih =>
    unfold Expr.derivative at hdiff
    cases hraw : b.differentiate with
    | error e =>
      rw [hraw] at hdiff
      cases hdiff
    | ok c' =>
      rw [hraw] at hdiff
      cases hdiff
      exact Expr.leavesHold_simplify hs (Expr.leavesHold_differentiate hd ih hraw)

end Reaches

/-! ### The numbers of a text -/

section Numbers

variable {R : Type u} [RealArith R]

/-- The parts of a number that was read are decimals. -/
theorem exists_ofDecimal {text : String} {p : Nat} {v : Complex R}
    (h : readNumber text p = .ok v) : ∃ d e, v = ⟨ofDecimal d, ofDecimal e⟩ := by
  have hreal {cs : List Char} {r : R} (hr : realValue? cs = some r) : ∃ d, r = ofDecimal d := by
    obtain ⟨d, -, rfl⟩ := Option.map_eq_some_iff.1 hr
    exact ⟨d, rfl⟩
  obtain ⟨hv, -⟩ := readNumber_eq_ok_iff.1 h
  unfold literalValue? at hv
  split at hv
  · unfold imaginaryValue? at hv
    split at hv
    · cases hv
      exact ⟨⟨0, 0⟩, ⟨1, 0⟩, rfl⟩
    · split at hv
      · split at hv
        · next re im hre him =>
          cases hv
          obtain ⟨d, rfl⟩ := hreal hre
          split at him
          · cases him
            exact ⟨d, ⟨1, 0⟩, rfl⟩
          · obtain ⟨e, rfl⟩ := hreal him
            exact ⟨d, e, rfl⟩
        · cases hv
      · obtain ⟨r, hr, rfl⟩ := Option.map_eq_some_iff.1 hv
        obtain ⟨d, rfl⟩ := hreal hr
        exact ⟨⟨0, 0⟩, d, rfl⟩
  · obtain ⟨r, hr, rfl⟩ := Option.map_eq_some_iff.1 hv
    obtain ⟨d, rfl⟩ := hreal hr
    exact ⟨d, ⟨0, 0⟩, rfl⟩

variable [ZeroLaws R]

theorem noMinusZero_of_readNumber {text : String} {p : Nat} {v : Complex R}
    (h : readNumber text p = .ok v) : v.noMinusZero = true := by
  obtain ⟨d, e, rfl⟩ := exists_ofDecimal h
  exact Complex.noMinusZero_iff.2 ⟨ZeroLaws.isMinusZero_ofDecimal d, ZeroLaws.isMinusZero_ofDecimal e⟩

theorem lt_zero_of_readNumber {text : String} {p : Nat} {v : Complex R}
    (h : readNumber text p = .ok v) : lt v.re 0 = false := by
  obtain ⟨d, e, rfl⟩ := exists_ofDecimal h
  exact ZeroLaws.lt_ofDecimal_zero d

/-! ### Leaves of parsed trees -/

omit [ZeroLaws R] in
/-- A property of leaves holds of a derived tree if it holds of the numbers that are read, the names
of the text and Euler's number, and of the functions that are left when exponentials and logarithms
have one form. -/
theorem leavesHold_of_denotes {P : LeafProperty (Complex R)} {φ : Phrase} {ls : List Placed}
    {a : Expr (Complex R)} (h : Denotes φ ls a)
    (hnumber : ∀ text p v, readNumber text p = .ok v → P.number v)
    (hname : ∀ l ∈ ls, l.isName = true → l.text ≠ argumentName → P.name l.text)
    (heuler : P.name eulerName) (hfunction : ∀ f, f ≠ .exp → f ≠ .ln → P.function f) :
    a.LeavesHold P := by
  induction h with
  | number hl hv => exact hnumber _ _ _ hv
  | argument hl hx => trivial
  | name hl hx => exact hname _ List.mem_cons_self hl hx
  | group ho hc ha ih =>
    exact ih fun l h => hname l (List.mem_cons_of_mem _ (List.mem_append_left _ h))
  | neg hl ha ih => exact ih fun l h => hname l (List.mem_cons_of_mem _ h)
  | exponential hl ha ih =>
    exact ⟨heuler, ih fun l h => hname l (List.mem_cons_of_mem _ h)⟩
  | logarithm hl ha ih =>
    exact ⟨hfunction .log (by decide) (by decide), ih fun l h => hname l (List.mem_cons_of_mem _ h)⟩
  | call hl hexp hln ha ih =>
    exact ⟨hfunction _ hexp hln, ih fun l h => hname l (List.mem_cons_of_mem _ h)⟩
  | ofPrimary ha ih => exact ih hname
  | ofUnary ha ih => exact ih hname
  | ofPower ha ih => exact ih hname
  | ofTerm ha ih => exact ih hname
  | pow hl ha hb iha ihb =>
    exact ⟨iha fun l h => hname l (List.mem_append_left _ h),
      ihb fun l h => hname l (List.mem_append_right _ (List.mem_cons_of_mem _ h))⟩
  | factor hl hop ha hb iha ihb =>
    exact ⟨iha fun l h => hname l (List.mem_append_left _ h),
      ihb fun l h => hname l (List.mem_append_right _ (List.mem_cons_of_mem _ h))⟩
  | juxtaposed hl ha hb iha ihb =>
    exact ⟨iha fun l h => hname l (List.mem_append_left _ h),
      ihb fun l h => hname l (List.mem_append_right _ h)⟩
  | summand hl hop ha hb iha ihb =>
    exact ⟨iha fun l h => hname l (List.mem_append_left _ h),
      ihb fun l h => hname l (List.mem_append_right _ (List.mem_cons_of_mem _ h))⟩

/-- The numbers of a derived tree are finite and have no negative zero. -/
theorem plainLeaves_of_denotes {φ : Phrase} {ls : List Placed} {a : Expr (Complex R)}
    (h : Denotes φ ls a) : a.LeavesHold plainLeaves :=
  leavesHold_of_denotes h
    (fun _ _ _ hv => ⟨(readNumber_eq_ok_iff.1 hv).2, noMinusZero_of_readNumber hv⟩)
    (fun _ _ _ _ => trivial) trivial fun _ _ _ => trivial

/-- The numbers of a parsed tree are finite and have no negative zero. -/
theorem plainLeaves_of_parse {s : String} {a : Expr (Complex R)} (h : parse s = .ok a) :
    a.LeavesHold plainLeaves :=
  plainLeaves_of_denotes (denotes_of_parse h)

/-! ### Leaves of the trees that a text leads to -/

/-- Finite numbers without a negative zero, names with a property, and the functions that are left
when exponentials and logarithms have one form. -/
def derivedLeaves (N : String → Prop) : LeafProperty (Complex R) where
  number v := v.isFinite = true ∧ v.noMinusZero = true
  name := N
  function f := f ≠ .exp ∧ f ≠ .ln

variable {N : String → Prop}

theorem plain_ofNat (n : Nat) (h : n ≤ 10) :
    (Arith.ofNat n : Complex R).isFinite = true ∧ (Arith.ofNat n : Complex R).noMinusZero = true :=
  ⟨Complex.isFinite_iff.2 ⟨SignLaws.isFinite_ofNat n h, SignLaws.isFinite_ofNat 0 (by omega)⟩,
    Complex.noMinusZero_iff.2 ⟨ZeroLaws.isMinusZero_ofDecimal _, ZeroLaws.isMinusZero_ofDecimal _⟩⟩

theorem derivedLeaves_simplifies : (derivedLeaves (R := R) N).Simplifies where
  whole n h := plain_ofNat n h
  opposite _ h := ⟨Complex.isFinite_opposite h.1, Complex.noMinusZero_normalize _⟩
  computed _ h := ⟨Complex.isFinite_normalize h, Complex.noMinusZero_normalize _⟩

/-- No exponential is left whose derivative could bring in Euler's number. -/
theorem derivedLeaves_differentiates : (derivedLeaves (R := R) N).Differentiates where
  whole n h := plain_ofNat n h
  function f h := by
    revert f
    show ∀ f ∈ [Builtin.sin, .cos, .sinh, .cosh, .sqrt, .log], f ≠ .exp ∧ f ≠ .ln
    decide
  euler h := absurd rfl h.1

/-- The leaves of a parsed tree. -/
theorem derivedLeaves_of_parse {s : String} {a : Expr (Complex R)} (h : parse s = .ok a)
    (hname : ∀ l ∈ written s, l.isName = true → l.text ≠ argumentName → N l.text)
    (heuler : N eulerName) : a.LeavesHold (derivedLeaves N) :=
  leavesHold_of_denotes (denotes_of_parse h)
    (fun _ _ _ hv => ⟨(readNumber_eq_ok_iff.1 hv).2, noMinusZero_of_readNumber hv⟩) hname heuler
    fun _ hexp hln => ⟨hexp, hln⟩

theorem derivedLeaves_of_reaches {a b : Expr (Complex R)} (hreach : a.Reaches b)
    (ha : a.LeavesHold (derivedLeaves N)) : b.LeavesHold (derivedLeaves N) :=
  leavesHold_of_reaches derivedLeaves_simplifies derivedLeaves_differentiates hreach ha

end Numbers

end Formulary

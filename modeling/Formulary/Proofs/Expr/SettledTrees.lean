import Formulary.Binary64.Arith
import Formulary.Proofs.Expr.Settling

/-!
# What the rules come to

Where the rules of simplification call one another until none applies, they come to what the
functions without recursion give at once: without its sign, or on the other side of a product, a
normal operand is one to which few rules still apply. Whatever the tree, no more than five calls
stand in one another.

* `settleRules?_of_settled`, `settleCall?_of_settled`: no rule changes settled operands.
* `settle?_mul`, `settle?_div`, `settle?_add`, `settle?_sub`, `settle?_pow`: what each operator
  comes to, and at which depth.
* `settle?_eq`, `settleCall?_eq`: on normal operands the rewriting ends with `operation` and with
  `application`.
* `size_simplify`: the size of a simplified tree.
* **`settled?_eq_simplify`**: for every tree the rewriting ends with the simplified tree, which has
  less than twice as many nodes.
-/

namespace Formulary.Expr

universe u

variable {K : Type u} [Arith K] {op : BinaryOp} {f : Builtin} {a b c : Expr K} {p : Position}
  {again : BinaryOp → Expr K → Expr K → Position → Option (Expr K)}

/-- The rules that apply decide what becomes of operands that do not fold. -/
theorem settle?_eq_getD {d : Nat}
    (h : foldNumbers? op a b = none → settleRules? (settle? d) op a b p = some c) :
    settle? (d + 1) op a b p = some ((foldNumbers? op a b).getD c) := by
  rw [settle?]
  cases hfold : foldNumbers? op a b with
  | some r => rfl
  | none => exact h hfold

/-! ### Settled operands -/

theorem settleSigns?_of_settled (hs : SignsSettled a b) :
    settleSigns? again op a b p = some (binary op a b p) := by
  simp only [settleSigns?, hs.both, hs.left, hs.right, Bool.false_eq_true, if_false]

theorem settleBase?_of_unsigned (h : (a.isNeg && (integerExponent? b).isSome) = false) :
    settleBase? again a b p = some (binary .pow a b p) := by
  unfold settleBase?
  split
  · next c k hk =>
    rw [hk] at h
    exact absurd h.symm Bool.false_ne_true
  · rfl

theorem settleInverse?_of_settled (hs : PowerSettled a b) :
    settleInverse? again a b p = some (binary .pow a b p) := by
  have hbase : settleBase? again a b p = _ := settleBase?_of_unsigned hs.base_unsigned
  have hinv := hs.not_inverse
  unfold settleInverse?
  split
  · simp only [show (a == nat 10) = false from hinv, Bool.false_eq_true, if_false, hbase]
  · simp only [show a.isEuler = false from hinv, Bool.false_eq_true, if_false, hbase]
  · simp only [show a.isEuler = false from hinv, Bool.false_eq_true, if_false, hbase]
  · exact hbase

/-- The rules leave settled operands to their operator. -/
theorem settleRules?_of_settled (hs : Settled op a b) :
    settleRules? again op a b p = some (binary op a b p) := by
  cases op with
  | add =>
    have h : SumSettled a b := hs
    simp only [settleRules?, settleSum?, h.left_ne_zero, h.right_ne_zero, h.right_unsigned,
      h.ne, Bool.false_eq_true, if_false]
  | sub =>
    have h : SumSettled a b := hs
    simp only [settleRules?, settleDifference?, h.left_ne_zero, h.right_ne_zero,
      h.right_unsigned, h.ne, Bool.false_eq_true, if_false]
  | mul =>
    obtain ⟨h, hsigns⟩ := hs
    have hleft : (b.isNumber && !a.isNumber) = false := by
      cases hb : b.isNumber with
      | false => rfl
      | true => rw [h.number_left hb]; rfl
    simp only [settleRules?, settleProduct?, h.left_ne_zero, h.right_ne_zero,
      h.left_ne_one, h.right_ne_one, h.left_ne_minusOne, h.right_ne_minusOne, hleft,
      settleSigns?_of_settled hsigns, Bool.or_self, Bool.false_eq_true, if_false]
  | div =>
    obtain ⟨h, hsigns⟩ := hs
    simp only [settleRules?, settleQuotient?, h.ne_one, h.ne_minusOne,
      settleSigns?_of_settled hsigns, Bool.false_eq_true, if_false]
  | pow =>
    have h : PowerSettled a b := hs
    simp only [settleRules?, settlePower?, h.ne_zeroPower, h.base_ne_one,
      h.exponent_ne_zero, h.exponent_ne_one, h.exponent_unsigned, settleInverse?_of_settled h,
      Bool.or_self, Bool.false_eq_true, if_false]

theorem settle?_joined (d : Nat) (hs : Settled op a b) :
    settle? (d + 1) op a b p = some (joined op a b p) :=
  settle?_eq_getD fun _ => settleRules?_of_settled hs

theorem settleCall?_of_settled (d : Nat) (hs : CallSettled f a) :
    settleCall? (d + 1) f a p = some (call f a p) := by
  rw [settleCall?]
  split
  · next r hr =>
    rw [hs.unknown, hs.unfolded] at hr
    cases hr
  · have h := hs.unsigned
    unfold settleOperand?
    split <;> first
      | rfl
      | exact absurd (h (by simp)).symm Bool.false_ne_true

section Laws

variable [NegationLaws K] (d : Nat)

/-! ### Products and quotients -/

/-- Signs go in front as `hoisted` says, if nothing is left to do without them. -/
theorem settleSigns?_eq (ha : IsNormal a) (hb : IsNormal b)
    (hs : ∀ a' b', SameUpToSign a a' → SameUpToSign b b' → SignsSettled a' b' → Settled op a' b') :
    settleSigns? (settle? (d + 1)) op a b p = some (hoisted op a b p) := by
  rw [settleSigns?, hoisted]
  cases hboth : a.isNegative && b.isNegative with
  | true =>
    obtain ⟨hna, hnb⟩ := Bool.and_eq_true_iff.1 hboth
    exact settle?_joined d (hs _ _ (.inr ⟨hna, rfl⟩) (.inr ⟨hnb, rfl⟩)
      (signsSettled_negated ha hb hboth))
  | false =>
    cases hnega : a.isNeg with
    | true =>
      cases a with
      | neg c =>
        have hjoined : settle? (d + 1) op c b p = some (joined op c b p) :=
          settle?_joined d (hs c b (.inr ⟨rfl, rfl⟩) (.inl rfl) (signsSettled_left ha hboth))
        show (settle? (d + 1) op c b p).map negated = some (joined op c b p).negated
        rw [hjoined]
        rfl
      | _ => exact absurd hnega Bool.false_ne_true
    | false =>
      cases hnegb : b.isNeg with
      | true =>
        cases b with
        | neg c =>
          have hna : a.isNegative = false := by
            rw [← hboth]
            exact (Bool.and_true _).symm
          have hjoined : settle? (d + 1) op a c p = some (joined op a c p) :=
            settle?_joined d (hs a c (.inl rfl) (.inr ⟨rfl, rfl⟩) (signsSettled_right hna hb))
          show (settle? (d + 1) op a c p).map negated = some (joined op a c p).negated
          rw [hjoined]
          rfl
        | _ => exact absurd hnegb Bool.false_ne_true
      | false => rfl

/-- The rules for products, with the factors as they are or exchanged. -/
theorem settleProduct?_eq (ha : IsNormal a) (hb : IsNormal b) :
    settleProduct? (settle? (d + 2)) a b p = some (productRules a b p) := by
  rw [settleProduct?, productRules]
  split
  · rfl
  · next hzero =>
    split
    · rfl
    · next ha1 =>
      split
      · rfl
      · next hb1 =>
        split
        · rfl
        · next ham =>
          split
          · rfl
          · next hbm =>
            rw [Bool.not_eq_true, Bool.or_eq_false_iff] at hzero
            rw [Bool.not_eq_true] at ha1 hb1 ham hbm
            split
            · next hswap =>
              obtain ⟨hbnum, hanum⟩ := Bool.and_eq_true_iff.1 hswap
              rw [Bool.not_eq_true'] at hanum
              have hfactors : FactorsSettled b a :=
                ⟨hzero.2, hzero.1, hb1, ha1, hbm, ham, fun _ => hbnum⟩
              have hsigns : settleSigns? (settle? (d + 1)) .mul b a p = some (hoisted .mul b a p) :=
                settleSigns?_eq d hb ha fun b' a' hb' ha' hs =>
                  ⟨settled_factors hb ha hfactors hb' ha', hs⟩
              rw [settle?, foldNumbers?_of_right hanum]
              show settleProduct? (settle? (d + 1)) b a p = _
              simp only [settleProduct?, hzero.1, hzero.2, ha1, hb1, ham, hbm,
                hanum, hsigns, Bool.or_self, Bool.false_and, Bool.false_eq_true, if_false]
            · next hswap =>
              refine settleSigns?_eq (d + 1) ha hb fun a' b' ha' hb' hs =>
                ⟨settled_factors ha hb ⟨hzero.1, hzero.2, ha1, hb1, ham, hbm, ?_⟩ ha' hb', hs⟩
              intro hbnum
              rw [hbnum, Bool.true_and, Bool.not_eq_true, Bool.not_eq_false'] at hswap
              exact hswap

theorem settle?_mul (ha : IsNormal a) (hb : IsNormal b) :
    settle? (d + 3) .mul a b p = some (product a b p) :=
  settle?_eq_getD fun _ => settleProduct?_eq d ha hb

theorem settle?_div (ha : IsNormal a) (hb : IsNormal b) :
    settle? (d + 2) .div a b p = some (quotient a b p) := by
  refine settle?_eq_getD fun _ => ?_
  rw [settleRules?, settleQuotient?]
  split
  · rfl
  · next hb1 =>
    split
    · rfl
    · next hbm =>
      rw [Bool.not_eq_true] at hb1 hbm
      refine settleSigns?_eq d ha hb fun a' b' _ hb' hs => ⟨?_, hs⟩
      rcases hb' with rfl | ⟨hneg, rfl⟩
      · exact ⟨hb1, hbm⟩
      · exact ⟨negated_beq_one hb hneg hbm, negated_beq_minusOne hb hneg⟩

/-! ### Sums and differences -/

/-- The last rules for sums: a tree plus itself. -/
theorem settleSum?_of_unsigned (ha : IsNormal a) (ha0 : (a == nat 0) = false)
    (hb0 : (b == nat 0) = false) (hneg : b.isNegative = false) :
    settleSum? (settle? (d + 3)) a b p =
      some (if a == b then product (nat 2) a none else binary .add a b p) := by
  simp only [settleSum?, ha0, hb0, hneg, Bool.false_eq_true, if_false]
  split
  · exact settle?_mul d (.number _) ha
  · rfl

omit [NegationLaws K] in
/-- The last rules for differences: a tree less itself. -/
theorem settleDifference?_of_unsigned (ha0 : (a == nat 0) = false) (hb0 : (b == nat 0) = false)
    (hneg : b.isNegative = false) :
    settleDifference? again a b p = some (if a == b then nat 0 else binary .sub a b p) := by
  simp only [settleDifference?, ha0, hb0, hneg, Bool.false_eq_true, if_false]
  split
  · rfl
  · rfl

theorem settle?_sumUnsigned (ha : IsNormal a) (ha0 : (a == nat 0) = false)
    (hb0 : (b == nat 0) = false) (hneg : b.isNegative = false) :
    settle? (d + 4) .add a b p = some (sumUnsigned a b p) :=
  settle?_eq_getD fun _ => settleSum?_of_unsigned d ha ha0 hb0 hneg

omit [NegationLaws K] in
theorem settle?_differenceUnsigned (ha0 : (a == nat 0) = false) (hb0 : (b == nat 0) = false)
    (hneg : b.isNegative = false) :
    settle? (d + 1) .sub a b p = some (differenceUnsigned a b p) :=
  settle?_eq_getD fun _ => settleDifference?_of_unsigned ha0 hb0 hneg

theorem settle?_add (ha : IsNormal a) (hb : IsNormal b) :
    settle? (d + 4) .add a b p = some (sum a b p) := by
  refine settle?_eq_getD fun hfold => ?_
  rw [settleRules?]
  cases hb0 : b == nat 0 with
  | true => simp only [settleSum?, hb0, if_true]
  | false =>
    cases ha0 : a == nat 0 with
    | true => simp only [settleSum?, hb0, ha0, Bool.false_eq_true, if_false, if_true]
    | false =>
      cases hneg : b.isNegative with
      | true =>
        simp only [settleSum?, hb0, ha0, hneg, Bool.false_eq_true, if_false, if_true]
        exact settle?_differenceUnsigned (d + 2) ha0 (negated_beq_zero hb hneg) (isNegative_negated hb hneg)
      | false =>
        rw [settleSum?_of_unsigned d ha ha0 hb0 hneg, sumUnsigned, hfold]
        rfl

theorem settle?_sub (ha : IsNormal a) (hb : IsNormal b) :
    settle? (d + 5) .sub a b p = some (difference a b p) := by
  refine settle?_eq_getD fun hfold => ?_
  rw [settleRules?]
  cases hb0 : b == nat 0 with
  | true => simp only [settleDifference?, hb0, if_true]
  | false =>
    cases ha0 : a == nat 0 with
    | true => simp only [settleDifference?, hb0, ha0, Bool.false_eq_true, if_false, if_true]
    | false =>
      cases hneg : b.isNegative with
      | true =>
        simp only [settleDifference?, hb0, ha0, hneg, Bool.false_eq_true, if_false, if_true]
        exact settle?_sumUnsigned d ha ha0 (negated_beq_zero hb hneg) (isNegative_negated hb hneg)
      | false =>
        rw [settleDifference?_of_unsigned ha0 hb0 hneg, differenceUnsigned, hfold]
        rfl

/-! ### Powers -/

omit [NegationLaws K] in
/-- Without the sign of its base a power is settled. -/
theorem settleBase?_eq (ha : IsNormal a) (hb0 : (b == nat 0) = false) (hb1 : (b == nat 1) = false)
    (hneg : (b.isNumber && b.isNegative) = false) :
    settleBase? (settle? (d + 1)) a b p = some (signedPower a b p) := by
  cases hsign : a.isNeg && (integerExponent? b).isSome with
  | false => rw [settleBase?_of_unsigned hsign, signedPower_of_unsigned hsign]
  | true =>
    obtain ⟨hisNeg, hsome⟩ := Bool.and_eq_true_iff.1 hsign
    obtain ⟨k, hk⟩ := Option.isSome_iff_exists.1 hsome
    cases ha with
    | @neg c hc hnum hnegc =>
      have hs : Settled .pow c b := powerSettled_of_neg (.neg hc hnum hnegc) hk hb0 hb1 hneg
      have hpow : settle? (d + 1) .pow c b p = some (binary .pow c b p) := by
        rw [settle?_joined d hs, joined, foldNumbers?_of_left hnum, Option.getD_none]
      simp only [settleBase?, signedPower, hk, hpow]
      split
      · rfl
      · rfl
    | _ => exact absurd hisNeg Bool.false_ne_true

omit [NegationLaws K] in
theorem settleInverse?_eq (ha : IsNormal a) (hb0 : (b == nat 0) = false)
    (hb1 : (b == nat 1) = false) (hneg : (b.isNumber && b.isNegative) = false) :
    settleInverse? (settle? (d + 1)) a b p = some (inversePower a b p) := by
  have hbase : settleBase? (settle? (d + 1)) a b p = _ := settleBase?_eq d ha hb0 hb1 hneg
  unfold settleInverse? inversePower
  rw [hbase]
  cases b with
  | call g c q =>
    cases g with
    | log10 | log | ln => exact (apply_ite some _ _ _).symm
    | _ => rfl
  | _ => rfl

omit [NegationLaws K] in
theorem settle?_powerUnsigned (ha : IsNormal a) (hneg : (b.isNumber && b.isNegative) = false) :
    settle? (d + 2) .pow a b p = some (powerUnsigned a b p) := by
  refine settle?_eq_getD fun _ => ?_
  rw [settleRules?, settlePower?, hneg]
  split
  · rfl
  · split
    · rfl
    · next hone =>
      split
      · rfl
      · next hb1 =>
        rw [Bool.not_eq_true, Bool.or_eq_false_iff] at hone
        rw [Bool.not_eq_true] at hb1
        exact settleInverse?_eq d ha hone.2 hb1 hneg

theorem settle?_pow (ha : IsNormal a) (hb : IsNormal b) :
    settle? (d + 3) .pow a b p = some (power a b p) := by
  cases hneg : b.isNumber && b.isNegative with
  | false =>
    rw [settle?_powerUnsigned (d + 1) ha hneg, power_of_unsigned hneg]
  | true =>
    refine settle?_eq_getD fun _ => ?_
    rw [settleRules?, settlePower?, hneg]
    split
    · rfl
    · split
      · rfl
      · split
        · rfl
        · -- the reciprocal of a normal power
          have hunsigned : (b.negated.isNumber && b.negated.isNegative) = false := by
            rw [isNegative_negated hb (Bool.and_eq_true_iff.1 hneg).2, Bool.and_false]
          have hpower : IsNormal (powerUnsigned a b.negated p) :=
            isNormal_powerUnsigned ha (isNormal_negated hb) hunsigned
          show ((settle? (d + 2) .pow a b.negated p).bind fun r =>
            settle? (d + 2) .div (nat 1) r none) =
              some (quotient (nat 1) (powerUnsigned a b.negated p) none)
          rw [settle?_powerUnsigned d ha hunsigned]
          exact settle?_div d (.number _) hpower

/-! ### Whole trees -/

/-- On normal operands the rewriting ends with what `operation` makes of them. -/
theorem settle?_eq (ha : IsNormal a) (hb : IsNormal b) :
    settle? (d + 5) op a b p = some (operation op a b p) := by
  cases op with
  | add => exact settle?_add (d + 1) ha hb
  | sub => exact settle?_sub d ha hb
  | mul => exact settle?_mul (d + 2) ha hb
  | div => exact settle?_div (d + 3) ha hb
  | pow => exact settle?_pow (d + 2) ha hb

omit [NegationLaws K] in
/-- On a normal operand the rewriting ends with what `application` makes of it. -/
theorem settleCall?_eq (ha : IsNormal a) :
    settleCall? (d + 2) f a p = some (application f a p) := by
  have hoperand {g : Builtin} {c : Expr K} (hg : g ∈ [Builtin.sin, .cos, .tan])
      (hc : IsNormal (neg c)) : settleCall? (d + 1) g c p = some (call g c p) :=
    settleCall?_of_settled d (callSettled_of_neg hg hc)
  rw [settleCall?, application]
  cases hvalue : (knownValue? f a <|> foldCall? f a) with
  | some r => rfl
  | none =>
    dsimp only [Option.getD_none]
    unfold settleOperand? signedCall
    cases a with
    | neg c =>
      cases f with
      | sin | tan =>
        dsimp only
        rw [hoperand (by simp) ha]
        rfl
      | cos => exact hoperand (by simp) ha
      | _ => rfl
    | _ => cases f <;> rfl

/-- Simplification is the result of the rewriting. -/
theorem settled?_eq (a : Expr K) : a.settled? (d + 5) = some a.simplify := by
  induction a with
  | number v => rfl
  | argument => rfl
  | named n p => rfl
  | neg a ih =>
    rw [settled?, ih]
    rfl
  | binary op a b p iha ihb =>
    rw [settled?, iha, ihb]
    exact settle?_eq d (isNormal_simplify a) (isNormal_simplify b)
  | call f a p ih =>
    rw [settled?, ih]
    exact settleCall?_eq (d + 3) (isNormal_simplify a)

omit d in
theorem size_operation_le (op : BinaryOp) (ha : IsNormal a) (hb : IsNormal b) :
    (operation op a b p).size ≤ 1 + (a.size + b.size + if op = .pow then 2 else 0) := by
  -- any depth will do that is enough for both
  obtain ⟨r, hr, hsize⟩ := settlesWithin_operation op a b p
    (d := 4 * (a.size + b.size) + 10 + 5) (by omega)
  rw [settle?_eq _ ha hb] at hr
  cases hr
  exact hsize

omit [NegationLaws K] d in
theorem size_application_le (ha : IsNormal a) : (application f a p).size ≤ 1 + a.size := by
  obtain ⟨r, hr, hsize⟩ := settlesWithin_call f a p (d := a.size + 2) (by omega)
  rw [settleCall?_eq _ ha] at hr
  cases hr
  exact hsize

omit d in
/-- Only powers get new nodes, two at most. -/
theorem size_simplify (a : Expr K) : a.simplify.size ≤ a.size + 2 * a.powerCount := by
  induction a with
  | number v => exact Nat.le_refl 1
  | argument => exact Nat.le_refl 1
  | named n p => exact Nat.le_refl 1
  | neg a ih =>
    have hsize : (neg a).simplify.size ≤ a.simplify.size + 1 := size_negated_le a.simplify
    simp only [size, powerCount]
    omega
  | binary op a b p iha ihb =>
    have hsize : (binary op a b p).simplify.size ≤ _ :=
      size_operation_le op (isNormal_simplify a) (isNormal_simplify b)
    refine hsize.trans ?_
    simp only [size, powerCount]
    split <;> omega
  | call f a p ih =>
    have hsize : (call f a p).simplify.size ≤ _ := size_application_le (isNormal_simplify a)
    simp only [size, powerCount]
    omega

omit d in
/-- **The rules come to an end**, for any operands and any numbers: a depth of calls that is linear
in the sizes of the operands is enough. For a whole tree five calls in one another are enough, and
they make the simplified tree. Only a power gets new nodes, two at most, so the tree less than
doubles. -/
theorem settled?_eq_simplify (a : Expr K) :
    (∀ (op : BinaryOp) (b c : Expr K) (p : Position), ∃ r, ∀ d,
      4 * (b.size + c.size) + 10 < d → settle? d op b c p = some r) ∧
    (∀ (f : Builtin) (b : Expr K) (p : Position), ∃ r, ∀ d,
      b.size < d → settleCall? d f b p = some r) ∧
    (∀ d, 5 ≤ d → a.settled? d = some a.simplify) ∧
    a.simplify.size ≤ a.size + 2 * a.powerCount ∧ a.simplify.size ≤ 2 * a.size - 1 := by
  have hsize := size_simplify a
  have hcount := two_mul_powerCount_lt_size a
  refine ⟨exists_settle?, exists_settleCall?, fun d hd => ?_, hsize, by omega⟩
  obtain ⟨e, rfl⟩ := Nat.exists_eq_add_of_le' hd
  exact settled?_eq e a

end Laws

/-- Machine numbers have the laws: `x ^ (-2)` becomes `1 / x ^ 2`, and no bound is too large. -/
theorem settled?_eq_simplify_reciprocal :
    let a : Expr (Complex Double) := toPower argument (number (-Arith.ofNat 2))
    a.settled? 5 = some a.simplify ∧ a.simplify.size = 5 ∧ a.size + 2 * a.powerCount = 5 ∧
      2 * a.size - 1 = 5 ∧ a.simplify.size ≤ 2 * a.size - 1 := by
  intro a
  have hsize : a.simplify.size = 5 := by decide +kernel
  obtain ⟨-, -, heq, -, hle⟩ := settled?_eq_simplify a
  exact ⟨heq 5 (Nat.le_refl 5), hsize, rfl, rfl, hle⟩

end Formulary.Expr

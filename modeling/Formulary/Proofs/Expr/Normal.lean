import Formulary.Proofs.Expr.Leaves

/-!
# Normal forms of simplification

A tree is normal if no rule of simplification applies at any of its nodes. The rules call one
another, sums turn into differences and powers into quotients, yet whatever they make of normal
operands is normal, and a normal tree is left as it is.

* `SumSettled`, `SignsSettled`, `FactorsSettled`, `DivisorSettled`, `PowerSettled`, `CallSettled`: no
  rule of one kind applies to the operands.
* `IsNormal`: no rule applies at any node.
* `isNormal_operation`, `isNormal_application`: what the rules make of normal operands is normal.
* **`isNormal_simplify`**: simplified trees are normal.
* **`simplify_of_isNormal`**: simplification leaves normal trees alone.
-/

namespace Formulary.Expr

universe u

variable {K : Type u} [Arith K]

/-! ### Operands to which no rule applies -/

/-- No rule for sums and differences applies: no operand is zero, the right one has no minus sign
and the operands differ. -/
structure SumSettled (a b : Expr K) : Prop where
  left_ne_zero : (a == nat 0) = false
  right_ne_zero : (b == nat 0) = false
  right_unsigned : b.isNegative = false
  ne : (a == b) = false

/-- No rule for the signs of factors applies: neither is a negation, and at most one is negative. -/
structure SignsSettled (a b : Expr K) : Prop where
  left : a.isNeg = false
  right : b.isNeg = false
  both : (a.isNegative && b.isNegative) = false

/-- No rule for products applies but those for signs: no factor is zero, one or minus one, and
a number does not stand on the right of what is none. -/
structure FactorsSettled (a b : Expr K) : Prop where
  left_ne_zero : (a == nat 0) = false
  right_ne_zero : (b == nat 0) = false
  left_ne_one : (a == nat 1) = false
  right_ne_one : (b == nat 1) = false
  left_ne_minusOne : (a == minusOne) = false
  right_ne_minusOne : (b == minusOne) = false
  number_left : b.isNumber = true → a.isNumber = true

/-- No rule for quotients applies but those for signs: the divisor is not one or minus one. -/
structure DivisorSettled (b : Expr K) : Prop where
  ne_one : (b == nat 1) = false
  ne_minusOne : (b == minusOne) = false

/-- The exponent undoes a logarithm to the base. -/
def isInverse (a : Expr K) : Expr K → Bool
  | call .log10 _ _ => a == nat 10
  | call .log _ _ | call .ln _ _ => a.isEuler
  | _ => false

/-- No rule for powers applies. -/
structure PowerSettled (a b : Expr K) : Prop where
  ne_zeroPower : isZeroPower a b = false
  base_ne_one : (a == nat 1) = false
  exponent_ne_zero : (b == nat 0) = false
  exponent_ne_one : (b == nat 1) = false
  exponent_unsigned : (b.isNumber && b.isNegative) = false
  base_unsigned : (a.isNeg && (integerExponent? b).isSome) = false
  not_inverse : isInverse a b = false

/-- No rule for applications applies. -/
structure CallSettled (f : Builtin) (a : Expr K) : Prop where
  unknown : knownValue? f a = none
  unfolded : foldCall? f a = none
  unsigned : f ∈ [Builtin.sin, .cos, .tan] → a.isNeg = false

/-- No rule for the operator applies to the operands. -/
def Settled : BinaryOp → Expr K → Expr K → Prop
  | .add, a, b | .sub, a, b => SumSettled a b
  | .mul, a, b => FactorsSettled a b ∧ SignsSettled a b
  | .div, a, b => DivisorSettled b ∧ SignsSettled a b
  | .pow, a, b => PowerSettled a b

/-- No rule of simplification applies at any node of the tree. -/
inductive IsNormal : Expr K → Prop where
  | number (v : K) : IsNormal (number v)
  | argument : IsNormal argument
  | named (n : String) (p : Position) : IsNormal (named n p)
  | neg {a : Expr K} (ha : IsNormal a) (hnum : a.isNumber = false) (hneg : a.isNeg = false) :
    IsNormal (neg a)
  | binary {op : BinaryOp} {a b : Expr K} (p : Position) (ha : IsNormal a) (hb : IsNormal b)
    (hfold : foldNumbers? op a b = none) (hs : Settled op a b) : IsNormal (binary op a b p)
  | call {f : Builtin} {a : Expr K} (p : Position) (ha : IsNormal a) (hs : CallSettled f a) :
    IsNormal (call f a p)

variable {op : BinaryOp} {f : Builtin} {a b : Expr K} {p : Position}

/-! ### Numbers and signs -/

theorem beq_number_of_not (v : K) (h : a.isNumber = false) : (a == number v) = false := by
  cases a with
  | number w => exact absurd h.symm Bool.false_ne_true
  | _ => rfl

theorem beq_nat_of_not (n : Nat) (h : a.isNumber = false) : (a == nat n) = false :=
  beq_number_of_not _ h

theorem beq_minusOne_of_not (h : a.isNumber = false) : (a == minusOne) = false :=
  beq_number_of_not _ h

theorem foldNumbers?_of_left (h : a.isNumber = false) : foldNumbers? op a b = none := by
  cases a with
  | number v => exact absurd h.symm Bool.false_ne_true
  | _ => rfl

theorem foldNumbers?_of_right (h : b.isNumber = false) : foldNumbers? op a b = none := by
  cases b with
  | number v => exact absurd h.symm Bool.false_ne_true
  | _ => cases a <;> rfl

theorem isNeg_of_isNegative (h : a.isNegative = false) : a.isNeg = false := by
  cases a with
  | neg c => exact absurd h.symm Bool.false_ne_true
  | _ => rfl

theorem isNegative_of_not (hnum : a.isNumber = false) (hneg : a.isNeg = false) :
    a.isNegative = false := by
  cases a with
  | number v => exact absurd hnum.symm Bool.false_ne_true
  | neg c => exact absurd hneg.symm Bool.false_ne_true
  | _ => rfl

theorem negated_of_not (hnum : a.isNumber = false) (hneg : a.isNeg = false) :
    a.negated = neg a := by
  cases a with
  | number v => exact absurd hnum.symm Bool.false_ne_true
  | neg b => exact absurd hneg.symm Bool.false_ne_true
  | _ => rfl

/-- A tree with a minus sign in front is a negative number or a negation. -/
theorem isNegative_cases (h : a.isNegative = true) :
    (∃ v, a = number v ∧ Arith.isNegative v = true) ∨ ∃ c, a = neg c := by
  cases a with
  | number v => exact .inl ⟨v, rfl, h⟩
  | neg c => exact .inr ⟨c, rfl⟩
  | _ => exact absurd h Bool.false_ne_true

theorem isNormal_negated (ha : IsNormal a) : IsNormal a.negated := by
  cases ha with
  | number v => exact .number _
  | argument => exact .neg .argument rfl rfl
  | named n p => exact .neg (.named n p) rfl rfl
  | neg hc hnum hneg => exact hc
  | binary p hb hc hfold hs => exact .neg (.binary p hb hc hfold hs) rfl rfl
  | call p hb hs => exact .neg (.call p hb hs) rfl rfl

theorem isNumber_negated (ha : IsNormal a) : a.negated.isNumber = a.isNumber := by
  cases ha with
  | neg hc hnum hneg => exact hnum
  | _ => rfl

section Signs

variable [NegationLaws K]

/-- Without its sign a normal tree has none. -/
theorem isNegative_negated (ha : IsNormal a) (h : a.isNegative = true) :
    a.negated.isNegative = false := by
  rcases isNegative_cases h with ⟨v, rfl, hv⟩ | ⟨c, rfl⟩
  · exact NegationLaws.isNegative_opposite v hv
  · cases ha with
    | neg hc hnum hneg => exact isNegative_of_not hnum hneg

theorem negated_beq_zero (ha : IsNormal a) (h : a.isNegative = true) :
    (a.negated == nat 0) = false := by
  rcases isNegative_cases h with ⟨v, rfl, hv⟩ | ⟨c, rfl⟩
  · exact NegationLaws.opposite_beq_zero v hv
  · cases ha with
    | neg hc hnum hneg => exact beq_nat_of_not 0 hnum

theorem negated_beq_minusOne (ha : IsNormal a) (h : a.isNegative = true) :
    (a.negated == minusOne) = false := by
  rcases isNegative_cases h with ⟨v, rfl, hv⟩ | ⟨c, rfl⟩
  · exact NegationLaws.opposite_beq_minusOne v hv
  · cases ha with
    | neg hc hnum hneg => exact beq_minusOne_of_not hnum

theorem negated_beq_one (ha : IsNormal a) (h : a.isNegative = true)
    (hne : (a == minusOne) = false) : (a.negated == nat 1) = false := by
  rcases isNegative_cases h with ⟨v, rfl, hv⟩ | ⟨c, rfl⟩
  · rw [Bool.eq_false_iff]
    intro hone
    have heq : (number v == (minusOne : Expr K)) = true := NegationLaws.opposite_beq_one v hone
    rw [heq] at hne
    exact Bool.false_ne_true hne.symm
  · cases ha with
    | neg hc hnum hneg => exact beq_nat_of_not 1 hnum

end Signs

/-! ### Settled operands are left alone -/

theorem hoisted_of_settled (hs : SignsSettled a b) : hoisted op a b p = binary op a b p := by
  simp only [hoisted, hs.both, hs.left, hs.right, Bool.false_eq_true, if_false]

theorem signedPower_of_unsigned (h : (a.isNeg && (integerExponent? b).isSome) = false) :
    signedPower a b p = binary .pow a b p := by
  unfold signedPower
  split
  · next c k hk =>
    rw [hk] at h
    exact absurd h.symm Bool.false_ne_true
  · rfl

theorem inversePower_of_settled (hs : PowerSettled a b) :
    inversePower a b p = binary .pow a b p := by
  have hsign := signedPower_of_unsigned (p := p) hs.base_unsigned
  have hinv := hs.not_inverse
  unfold inversePower
  split
  · simp only [show (a == nat 10) = false from hinv, Bool.false_eq_true, if_false, hsign]
  · simp only [show a.isEuler = false from hinv, Bool.false_eq_true, if_false, hsign]
  · simp only [show a.isEuler = false from hinv, Bool.false_eq_true, if_false, hsign]
  · exact hsign

/-- No rule changes settled operands. -/
theorem operation_of_settled (hfold : foldNumbers? op a b = none) (hs : Settled op a b) :
    operation op a b p = binary op a b p := by
  cases op with
  | add =>
    have h : SumSettled a b := hs
    simp only [operation, sum, sumUnsigned, hfold, h.left_ne_zero, h.right_ne_zero,
      h.right_unsigned, h.ne, Option.getD_none, Bool.false_eq_true, if_false]
  | sub =>
    have h : SumSettled a b := hs
    simp only [operation, difference, differenceUnsigned, hfold, h.left_ne_zero, h.right_ne_zero,
      h.right_unsigned, h.ne, Option.getD_none, Bool.false_eq_true, if_false]
  | mul =>
    obtain ⟨h, hsigns⟩ := hs
    have hleft : (b.isNumber && !a.isNumber) = false := by
      have hnum := h.number_left
      cases hb : b.isNumber with
      | false => rfl
      | true => rw [hnum hb]; rfl
    simp only [operation, product, productRules, hfold, h.left_ne_zero, h.right_ne_zero,
      h.left_ne_one, h.right_ne_one, h.left_ne_minusOne, h.right_ne_minusOne, hleft,
      hoisted_of_settled hsigns, Option.getD_none, Bool.or_self, Bool.false_eq_true, if_false]
  | div =>
    obtain ⟨h, hsigns⟩ := hs
    simp only [operation, quotient, hfold, h.ne_one, h.ne_minusOne, hoisted_of_settled hsigns,
      Option.getD_none, Bool.false_eq_true, if_false]
  | pow =>
    have h : PowerSettled a b := hs
    simp only [operation, power, hfold, h.ne_zeroPower, h.base_ne_one, h.exponent_ne_zero,
      h.exponent_ne_one, h.exponent_unsigned, inversePower_of_settled h, Option.getD_none,
      Bool.or_self, Bool.false_eq_true, if_false]

theorem application_of_settled (hs : CallSettled f a) : application f a p = call f a p := by
  have hsign : signedCall f a p = call f a p := by
    have h := hs.unsigned
    unfold signedCall
    split <;> first
      | rfl
      | exact absurd (h (by simp)).symm Bool.false_ne_true
  rw [application, hs.unknown, hs.unfolded, hsign]
  rfl

/-- Simplification leaves normal trees alone. -/
theorem simplify_of_isNormal (ha : IsNormal a) : a.simplify = a := by
  induction ha with
  | number v => rfl
  | argument => rfl
  | named n p => rfl
  | @neg c hc hnum hneg ih =>
    show c.simplify.negated = neg c
    rw [ih, negated_of_not hnum hneg]
  | @binary op a b p ha hb hfold hs iha ihb =>
    show operation op a.simplify b.simplify p = _
    rw [iha, ihb]
    exact operation_of_settled hfold hs
  | @call f a p ha hs ih =>
    show application f a.simplify p = _
    rw [ih]
    exact application_of_settled hs

/-! ### What the rules make is normal -/

/-- The operands joined are normal if no further rule applies to them. -/
theorem isNormal_joined (ha : IsNormal a) (hb : IsNormal b) (hs : Settled op a b) :
    IsNormal (joined op a b p) :=
  foldNumbers?_getD (fun _ _ => .number _) fun hfold => .binary p ha hb hfold hs

section Rules

variable [NegationLaws K]

/-- An operand as it is, or without the sign it has. -/
def SameUpToSign (a a' : Expr K) : Prop :=
  a' = a ∨ a.isNegative = true ∧ a' = a.negated

/-- Two operands without the signs they had. -/
theorem signsSettled_negated (ha : IsNormal a) (hb : IsNormal b)
    (h : (a.isNegative && b.isNegative) = true) : SignsSettled a.negated b.negated := by
  obtain ⟨hna, hnb⟩ := Bool.and_eq_true_iff.1 h
  have ha' := isNegative_negated ha hna
  have hb' := isNegative_negated hb hnb
  refine ⟨isNeg_of_isNegative ha', isNeg_of_isNegative hb', ?_⟩
  rw [ha', Bool.false_and]

omit [NegationLaws K] in
/-- A left operand that was negated. -/
theorem signsSettled_left (ha : IsNormal (neg a)) (hb : b.isNegative = false) :
    SignsSettled a b := by
  cases ha with
  | neg ha hnum hneg =>
    refine ⟨hneg, isNeg_of_isNegative hb, ?_⟩
    rw [hb, Bool.and_false]

omit [NegationLaws K] in
/-- A right operand that was negated. -/
theorem signsSettled_right (ha : a.isNegative = false) (hb : IsNormal (neg b)) :
    SignsSettled a b := by
  cases hb with
  | neg hb hnum hneg =>
    refine ⟨isNeg_of_isNegative ha, hneg, ?_⟩
    rw [ha, Bool.false_and]

/-- Hoisting the signs of normal operands gives a normal tree, provided the other rules for the
operator do not apply to the operands, with their signs or without. -/
theorem isNormal_hoisted (ha : IsNormal a) (hb : IsNormal b) (hfold : foldNumbers? op a b = none)
    (hs : ∀ a' b', SameUpToSign a a' → SameUpToSign b b' → SignsSettled a' b' → Settled op a' b') :
    IsNormal (hoisted op a b p) := by
  unfold hoisted
  cases hboth : a.isNegative && b.isNegative with
  | true =>
    obtain ⟨hna, hnb⟩ := Bool.and_eq_true_iff.1 hboth
    exact isNormal_joined (isNormal_negated ha) (isNormal_negated hb)
      (hs _ _ (.inr ⟨hna, rfl⟩) (.inr ⟨hnb, rfl⟩) (signsSettled_negated ha hb hboth))
  | false =>
    cases hnega : a.isNeg with
    | true =>
      cases ha with
      | @neg c hc hnum hneg =>
        have hsettled : Settled op c b :=
          hs c b (.inr ⟨rfl, rfl⟩) (.inl rfl) (signsSettled_left (.neg hc hnum hneg) hboth)
        have hjoined : joined op c b p = binary op c b p := by
          rw [joined, foldNumbers?_of_left hnum, Option.getD_none]
        show IsNormal (joined op c b p).negated
        rw [hjoined]
        exact .neg (.binary p hc hb (foldNumbers?_of_left hnum) hsettled) rfl rfl
      | _ => exact absurd hnega Bool.false_ne_true
    | false =>
      cases hnegb : b.isNeg with
      | true =>
        cases hb with
        | @neg c hc hnum hneg =>
          have hna : a.isNegative = false := by
            rw [← hboth]
            exact (Bool.and_true _).symm
          have hsettled : Settled op a c :=
            hs a c (.inl rfl) (.inr ⟨rfl, rfl⟩) (signsSettled_right hna (.neg hc hnum hneg))
          have hjoined : joined op a c p = binary op a c p := by
            rw [joined, foldNumbers?_of_right hnum, Option.getD_none]
          show IsNormal (joined op a c p).negated
          rw [hjoined]
          exact .neg (.binary p ha hc (foldNumbers?_of_right hnum) hsettled) rfl rfl
        | _ => exact absurd hnegb Bool.false_ne_true
      | false => exact .binary p ha hb hfold (hs a b (.inl rfl) (.inl rfl) ⟨hnega, hnegb, hboth⟩)

/-- A factor that is not zero, one or minus one is none of them without its sign. -/
theorem factor_sameUpToSign {a' : Expr K} (ha : IsNormal a) (h : SameUpToSign a a')
    (hzero : (a == nat 0) = false) (hone : (a == nat 1) = false) (hminus : (a == minusOne) = false) :
    (a' == nat 0) = false ∧ (a' == nat 1) = false ∧ (a' == minusOne) = false ∧
      a'.isNumber = a.isNumber := by
  rcases h with rfl | ⟨hneg, rfl⟩
  · exact ⟨hzero, hone, hminus, rfl⟩
  · exact ⟨negated_beq_zero ha hneg, negated_beq_one ha hneg hminus, negated_beq_minusOne ha hneg,
      isNumber_negated ha⟩

theorem settled_factors {a' b' : Expr K} (ha : IsNormal a) (hb : IsNormal b)
    (h : FactorsSettled a b) (ha' : SameUpToSign a a') (hb' : SameUpToSign b b') :
    FactorsSettled a' b' := by
  obtain ⟨ha0, ha1, ham, hanum⟩ := factor_sameUpToSign ha ha' h.left_ne_zero h.left_ne_one
    h.left_ne_minusOne
  obtain ⟨hb0, hb1, hbm, hbnum⟩ := factor_sameUpToSign hb hb' h.right_ne_zero h.right_ne_one
    h.right_ne_minusOne
  refine ⟨ha0, hb0, ha1, hb1, ham, hbm, ?_⟩
  rw [hanum, hbnum]
  exact h.number_left

theorem isNormal_product (ha : IsNormal a) (hb : IsNormal b) : IsNormal (product a b p) := by
  refine foldNumbers?_getD (fun _ _ => .number _) fun hfold => ?_
  unfold productRules
  split
  · exact .number _
  · next hzero =>
    split
    · exact hb
    · next ha1 =>
      split
      · exact ha
      · next hb1 =>
        split
        · exact isNormal_negated hb
        · next ham =>
          split
          · exact isNormal_negated ha
          · next hbm =>
            rw [Bool.not_eq_true, Bool.or_eq_false_iff] at hzero
            rw [Bool.not_eq_true] at ha1 hb1 ham hbm
            split
            · next hswap =>
              obtain ⟨hbnum, hanum⟩ := Bool.and_eq_true_iff.1 hswap
              rw [Bool.not_eq_true'] at hanum
              refine isNormal_hoisted hb ha (foldNumbers?_of_right hanum) fun b' a' hb' ha' hs =>
                ⟨settled_factors hb ha ⟨hzero.2, hzero.1, hb1, ha1, hbm, ham, ?_⟩ hb' ha', hs⟩
              intro _
              exact hbnum
            · next hswap =>
              refine isNormal_hoisted ha hb hfold fun a' b' ha' hb' hs =>
                ⟨settled_factors ha hb ⟨hzero.1, hzero.2, ha1, hb1, ham, hbm, ?_⟩ ha' hb', hs⟩
              intro hbnum
              rw [hbnum, Bool.true_and, Bool.not_eq_true, Bool.not_eq_false'] at hswap
              exact hswap

theorem isNormal_quotient (ha : IsNormal a) (hb : IsNormal b) : IsNormal (quotient a b p) := by
  refine foldNumbers?_getD (fun _ _ => .number _) fun hfold => ?_
  split
  · exact ha
  · next hb1 =>
    split
    · exact isNormal_negated ha
    · next hbm =>
      rw [Bool.not_eq_true] at hb1 hbm
      refine isNormal_hoisted ha hb hfold fun a' b' _ hb' hs => ⟨?_, hs⟩
      rcases hb' with rfl | ⟨hneg, rfl⟩
      · exact ⟨hb1, hbm⟩
      · exact ⟨negated_beq_one hb hneg hbm, negated_beq_minusOne hb hneg⟩

/-! ### Sums and differences -/

theorem isNormal_sumUnsigned (ha : IsNormal a) (hb : IsNormal b) (ha0 : (a == nat 0) = false)
    (hb0 : (b == nat 0) = false) (hneg : b.isNegative = false) :
    IsNormal (sumUnsigned a b p) := by
  refine foldNumbers?_getD (fun _ _ => .number _) fun hfold => ?_
  split
  · exact isNormal_product (.number _) ha
  · next hne => exact .binary p ha hb hfold ⟨ha0, hb0, hneg, Bool.not_eq_true _ ▸ hne⟩

omit [NegationLaws K] in
theorem isNormal_differenceUnsigned (ha : IsNormal a) (hb : IsNormal b)
    (ha0 : (a == nat 0) = false) (hb0 : (b == nat 0) = false) (hneg : b.isNegative = false) :
    IsNormal (differenceUnsigned a b p) := by
  refine foldNumbers?_getD (fun _ _ => .number _) fun hfold => ?_
  split
  · exact .number _
  · next hne => exact .binary p ha hb hfold ⟨ha0, hb0, hneg, Bool.not_eq_true _ ▸ hne⟩

theorem isNormal_sum (ha : IsNormal a) (hb : IsNormal b) : IsNormal (sum a b p) := by
  refine foldNumbers?_getD (fun _ _ => .number _) fun _ => ?_
  split
  · exact ha
  · next hb0 =>
    split
    · exact hb
    · next ha0 =>
      rw [Bool.not_eq_true] at hb0 ha0
      split
      · next hneg =>
        exact isNormal_differenceUnsigned ha (isNormal_negated hb) ha0 (negated_beq_zero hb hneg)
          (isNegative_negated hb hneg)
      · next hneg => exact isNormal_sumUnsigned ha hb ha0 hb0 (Bool.not_eq_true _ ▸ hneg)

theorem isNormal_difference (ha : IsNormal a) (hb : IsNormal b) :
    IsNormal (difference a b p) := by
  refine foldNumbers?_getD (fun _ _ => .number _) fun _ => ?_
  split
  · exact ha
  · next hb0 =>
    split
    · exact isNormal_negated hb
    · next ha0 =>
      rw [Bool.not_eq_true] at hb0 ha0
      split
      · next hneg =>
        exact isNormal_sumUnsigned ha (isNormal_negated hb) ha0 (negated_beq_zero hb hneg)
          (isNegative_negated hb hneg)
      · next hneg => exact isNormal_differenceUnsigned ha hb ha0 hb0 (Bool.not_eq_true _ ▸ hneg)

/-! ### Powers -/

omit [NegationLaws K] in
/-- No rule applies to an integer power of what was negated. -/
theorem powerSettled_of_neg {k : Int} (ha : IsNormal (neg a)) (hk : integerExponent? b = some k)
    (hb0 : (b == nat 0) = false) (hb1 : (b == nat 1) = false)
    (hneg : (b.isNumber && b.isNegative) = false) : PowerSettled a b := by
  cases ha with
  | neg ha hnum hnega =>
    refine ⟨?_, beq_nat_of_not 1 hnum, hb0, hb1, hneg, ?_, ?_⟩
    · rw [isZeroPower, beq_nat_of_not 0 hnum, Bool.false_and]
    · rw [hnega, Bool.false_and]
    · -- an exponent with a value is a number, so it undoes no logarithm
      cases b with
      | call f d q => cases hk
      | _ => rfl

omit [NegationLaws K] in
/-- The rule for the sign of the base gives a normal power if the rules before it do not apply. -/
theorem isNormal_signedPower (ha : IsNormal a) (hb : IsNormal b)
    (hfold : foldNumbers? .pow a b = none) (hzero : isZeroPower a b = false)
    (ha1 : (a == nat 1) = false) (hb0 : (b == nat 0) = false) (hb1 : (b == nat 1) = false)
    (hneg : (b.isNumber && b.isNegative) = false) (hinv : isInverse a b = false) :
    IsNormal (signedPower a b p) := by
  cases hsign : a.isNeg && (integerExponent? b).isSome with
  | false =>
    rw [signedPower_of_unsigned hsign]
    exact .binary p ha hb hfold ⟨hzero, ha1, hb0, hb1, hneg, hsign, hinv⟩
  | true =>
    obtain ⟨hisNeg, hsome⟩ := Bool.and_eq_true_iff.1 hsign
    obtain ⟨k, hk⟩ := Option.isSome_iff_exists.1 hsome
    cases ha with
    | @neg c hc hnum hnegc =>
      have hpow : IsNormal (binary .pow c b p) :=
        .binary p hc hb (foldNumbers?_of_left hnum)
          (powerSettled_of_neg (.neg hc hnum hnegc) hk hb0 hb1 hneg)
      unfold signedPower
      rw [hk]
      show IsNormal (if k % 2 = 0 then binary .pow c b p else neg (binary .pow c b p))
      split
      · exact hpow
      · exact .neg hpow rfl rfl
    | _ => exact absurd hisNeg Bool.false_ne_true

omit [NegationLaws K] in
theorem isNormal_inversePower (ha : IsNormal a) (hb : IsNormal b)
    (hfold : foldNumbers? .pow a b = none) (hzero : isZeroPower a b = false)
    (ha1 : (a == nat 1) = false) (hb0 : (b == nat 0) = false) (hb1 : (b == nat 1) = false)
    (hneg : (b.isNumber && b.isNegative) = false) : IsNormal (inversePower a b p) := by
  have hsigned := isNormal_signedPower (p := p) ha hb hfold hzero ha1 hb0 hb1 hneg
  unfold inversePower
  split
  · split
    · cases hb with
      | call q hc hs => exact hc
    · next hinv => exact hsigned (Bool.not_eq_true _ ▸ hinv)
  · split
    · cases hb with
      | call q hc hs => exact hc
    · next hinv => exact hsigned (Bool.not_eq_true _ ▸ hinv)
  · split
    · cases hb with
      | call q hc hs => exact hc
    · next hinv => exact hsigned (Bool.not_eq_true _ ▸ hinv)
  · next h10 hlog hln =>
    refine hsigned ?_
    unfold isInverse
    split
    · next c q => exact absurd rfl (h10 c q)
    · next c q => exact absurd rfl (hlog c q)
    · next c q => exact absurd rfl (hln c q)
    · rfl

omit [NegationLaws K] in
theorem isNormal_powerUnsigned (ha : IsNormal a) (hb : IsNormal b)
    (hneg : (b.isNumber && b.isNegative) = false) : IsNormal (powerUnsigned a b p) := by
  refine foldNumbers?_getD (fun _ _ => .number _) fun hfold => ?_
  split
  · exact .number _
  · next hzero =>
    split
    · exact .number _
    · next hone =>
      split
      · exact ha
      · next hb1 =>
        rw [Bool.not_eq_true, Bool.or_eq_false_iff] at hone
        rw [Bool.not_eq_true] at hzero hb1
        exact isNormal_inversePower ha hb hfold hzero hone.1 hone.2 hb1 hneg

omit [NegationLaws K] in
theorem power_of_unsigned (h : (b.isNumber && b.isNegative) = false) :
    power a b p = powerUnsigned a b p := by
  simp only [power, powerUnsigned, h, Bool.false_eq_true, if_false]

theorem isNormal_power (ha : IsNormal a) (hb : IsNormal b) : IsNormal (power a b p) := by
  cases hneg : b.isNumber && b.isNegative with
  | false =>
    rw [power_of_unsigned hneg]
    exact isNormal_powerUnsigned ha hb hneg
  | true =>
    refine foldNumbers?_getD (fun _ _ => .number _) fun _ => ?_
    split
    · exact .number _
    · split
      · exact .number _
      · split
        · exact ha
        · -- the reciprocal of the power with the opposite exponent
          refine isNormal_quotient (.number _) (isNormal_powerUnsigned ha (isNormal_negated hb) ?_)
          rw [isNegative_negated hb (Bool.and_eq_true_iff.1 hneg).2, Bool.and_false]

/-! ### Whole trees -/

theorem isNormal_operation (ha : IsNormal a) (hb : IsNormal b) :
    IsNormal (operation op a b p) := by
  cases op with
  | add => exact isNormal_sum ha hb
  | sub => exact isNormal_difference ha hb
  | mul => exact isNormal_product ha hb
  | div => exact isNormal_quotient ha hb
  | pow => exact isNormal_power ha hb

omit [NegationLaws K] in
/-- The operand of a negation is no number and has no sign, so no rule applies to the circular
functions at it. -/
theorem callSettled_of_neg (hf : f ∈ [Builtin.sin, .cos, .tan]) (ha : IsNormal (neg a)) :
    CallSettled f a := by
  cases ha with
  | neg ha hnum hnega =>
    refine ⟨?_, ?_, fun _ => hnega⟩
    · have h0 := beq_nat_of_not 0 hnum
      simp only [List.mem_cons, List.not_mem_nil, or_false] at hf
      rcases hf with rfl | rfl | rfl <;>
        simp only [knownValue?, h0, Bool.false_eq_true, if_false]
    · cases a with
      | number v => exact absurd hnum.symm Bool.false_ne_true
      | _ => rfl

omit [NegationLaws K] in
/-- An application to an operand without a sign is settled where its value is not known. -/
theorem isNormal_signedCall (ha : IsNormal a) (hknown : knownValue? f a = none)
    (hfold : foldCall? f a = none) : IsNormal (signedCall f a p) := by
  have hneg {g : Builtin} {c : Expr K} (hg : g ∈ [Builtin.sin, .cos, .tan]) (hc : IsNormal (neg c)) :
      IsNormal (call g c p) := by
    have hs := callSettled_of_neg hg hc
    cases hc with
    | neg hc hnum hnegc => exact .call p hc hs
  unfold signedCall
  split
  · next c => exact .neg (hneg (by simp) ha) rfl rfl
  · next c => exact .neg (hneg (by simp) ha) rfl rfl
  · next c => exact hneg (by simp) ha
  · next hsin htan hcos =>
    refine .call p ha ⟨hknown, hfold, fun hmem => ?_⟩
    cases a with
    | neg c =>
      simp only [List.mem_cons, List.not_mem_nil, or_false] at hmem
      rcases hmem with rfl | rfl | rfl
      · exact absurd rfl (hsin c rfl)
      · exact absurd rfl (hcos c rfl)
      · exact absurd rfl (htan c rfl)
    | _ => rfl

omit [NegationLaws K] in
theorem isNormal_application (ha : IsNormal a) : IsNormal (application f a p) := by
  unfold application
  cases hknown : knownValue? f a with
  | some r =>
    have hr := eq_nat_of_knownValue? hknown
    rcases hr with rfl | rfl
    · exact .number _
    · exact .number _
  | none =>
    exact foldCall?_getD (fun _ _ => .number _) fun hfold => isNormal_signedCall ha hknown hfold

/-- Simplified trees are normal. -/
theorem isNormal_simplify (a : Expr K) : IsNormal a.simplify := by
  induction a with
  | number v => exact .number v
  | argument => exact .argument
  | named n p => exact .named n p
  | neg a ih => exact isNormal_negated ih
  | binary op a b p iha ihb => exact isNormal_operation iha ihb
  | call f a p ih => exact isNormal_application ih

end Rules

end Formulary.Expr

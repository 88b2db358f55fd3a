import Formulary.Expr.Settling
import Formulary.Proofs.Expr.Normal

/-!
# The rules come to an end

The rules of simplification call one another, often with trees of the size they were given, yet the
calls end for any operands. For products, quotients, sums and differences twice the size of an
operand, with one added for a minus sign in front, goes down at each call; a number on the right of
a product counts once more. A power calls itself with a smaller base or an exponent without its
sign, and then a quotient. So the depth of the calls is bounded by what goes down.

* `settle?_refined`, `settleCall?_refined`: more depth does not change a result.
* `signWeight`, `signWeight_negated`: what taking a sign off an operand makes less.
* `SettlesWithin n r`: the rewriting ends with a tree of at most `n` nodes.
* `settlesWithin_mul`, `settlesWithin_div`, `settlesWithin_sums`, `settlesWithin_pow`,
  `settlesWithin_call`: it does for each operator, whatever the operands. Only a power with a
  negative exponent gets more nodes, two of them.
* **`exists_settle?`**, **`exists_settleCall?`**: a depth that is linear in the sizes of the
  operands is enough.
-/

namespace Formulary.Expr

universe u

variable {K : Type u}

/-! ### Counting powers -/

/-- The number of powers in the tree. -/
def powerCount : Expr K → Nat
  | number _ | argument | named _ _ => 0
  | neg a => a.powerCount
  | binary op a b _ => (if op = .pow then 1 else 0) + a.powerCount + b.powerCount
  | call _ a _ => a.powerCount

/-- Each power has two operands, so less than half of the nodes are powers. -/
theorem two_mul_powerCount_lt_size (a : Expr K) : 2 * a.powerCount < a.size := by
  induction a with
  | number v => exact Nat.zero_lt_one
  | argument => exact Nat.zero_lt_one
  | named n p => exact Nat.zero_lt_one
  | neg a ih =>
    simp only [powerCount, size]
    omega
  | binary op a b p iha ihb =>
    simp only [powerCount, size]
    split <;> omega
  | call f a p ih =>
    simp only [powerCount, size]
    omega

variable [Arith K] {op : BinaryOp} {f : Builtin} {a b t : Expr K} {p : Position} {d m n : Nat}

/-! ### Depth -/

omit [Arith K] in
/-- What the first rewriting comes to, the second one comes to as well. -/
def RefinedBy (r s : Option (Expr K)) : Prop :=
  ∀ t, r = some t → s = some t

namespace RefinedBy

omit [Arith K]

theorem refl (r : Option (Expr K)) : RefinedBy r r :=
  fun _ h => h

theorem bind {r s : Option (Expr K)} {g h : Expr K → Option (Expr K)} (hrs : RefinedBy r s)
    (hgh : ∀ t, RefinedBy (g t) (h t)) : RefinedBy (r.bind g) (s.bind h) := by
  intro t ht
  obtain ⟨u, hu, hg⟩ := Option.bind_eq_some_iff.1 ht
  exact Option.bind_eq_some_iff.2 ⟨u, hrs u hu, hgh u t hg⟩

theorem map {r s : Option (Expr K)} (g : Expr K → Expr K) (hrs : RefinedBy r s) :
    RefinedBy (r.map g) (s.map g) := by
  intro t ht
  obtain ⟨u, hu, hg⟩ := Option.map_eq_some_iff.1 ht
  exact Option.map_eq_some_iff.2 ⟨u, hrs u hu, hg⟩

theorem ite {c : Prop} [Decidable c] {r s r' s' : Option (Expr K)} (hr : RefinedBy r r')
    (hs : RefinedBy s s') : RefinedBy (if c then r else s) (if c then r' else s') := by
  split
  · exact hr
  · exact hs

end RefinedBy

section Refined

variable {again again' : BinaryOp → Expr K → Expr K → Position → Option (Expr K)}
  (h : ∀ op a b p, RefinedBy (again op a b p) (again' op a b p))

include h

theorem settleSigns?_refined :
    RefinedBy (settleSigns? again op a b p) (settleSigns? again' op a b p) :=
  .ite (h _ _ _ _) <| .ite ((h _ _ _ _).map _) <| .ite ((h _ _ _ _).map _) (.refl _)

theorem settleSum?_refined : RefinedBy (settleSum? again a b p) (settleSum? again' a b p) :=
  .ite (.refl _) <| .ite (.refl _) <| .ite (h _ _ _ _) <| .ite (h _ _ _ _) (.refl _)

theorem settleDifference?_refined :
    RefinedBy (settleDifference? again a b p) (settleDifference? again' a b p) :=
  .ite (.refl _) <| .ite (.refl _) <| .ite (h _ _ _ _) <| .ite (.refl _) (.refl _)

theorem settleProduct?_refined :
    RefinedBy (settleProduct? again a b p) (settleProduct? again' a b p) :=
  .ite (.refl _) <| .ite (.refl _) <| .ite (.refl _) <| .ite (.refl _) <| .ite (.refl _) <|
    .ite (h _ _ _ _) (settleSigns?_refined h)

theorem settleQuotient?_refined :
    RefinedBy (settleQuotient? again a b p) (settleQuotient? again' a b p) :=
  .ite (.refl _) <| .ite (.refl _) (settleSigns?_refined h)

theorem settleBase?_refined :
    RefinedBy (settleBase? again a b p) (settleBase? again' a b p) := by
  unfold settleBase?
  split
  · exact .ite (h _ _ _ _) ((h _ _ _ _).map _)
  · exact .refl _

theorem settleInverse?_refined :
    RefinedBy (settleInverse? again a b p) (settleInverse? again' a b p) := by
  unfold settleInverse?
  split
  · exact .ite (.refl _) (settleBase?_refined h)
  · exact .ite (.refl _) (settleBase?_refined h)
  · exact .ite (.refl _) (settleBase?_refined h)
  · exact settleBase?_refined h

theorem settlePower?_refined :
    RefinedBy (settlePower? again a b p) (settlePower? again' a b p) :=
  .ite (.refl _) <| .ite (.refl _) <| .ite (.refl _) <|
    .ite ((h _ _ _ _).bind fun _ => h _ _ _ _) (settleInverse?_refined h)

/-- Rules that go on with a rewriting that comes to more come to more themselves. -/
theorem settleRules?_refined (op : BinaryOp) :
    RefinedBy (settleRules? again op a b p) (settleRules? again' op a b p) := by
  cases op with
  | add => exact settleSum?_refined h
  | sub => exact settleDifference?_refined h
  | mul => exact settleProduct?_refined h
  | div => exact settleQuotient?_refined h
  | pow => exact settlePower?_refined h

end Refined

/-- More depth does not change a result. -/
theorem settle?_refined (d : Nat) (op : BinaryOp) (a b : Expr K) (p : Position) :
    RefinedBy (settle? d op a b p) (settle? (d + 1) op a b p) := by
  induction d generalizing op a b p with
  | zero => exact fun t ht => absurd ht.symm (Option.some_ne_none t)
  | succ d ih =>
    rw [settle?, settle?]
    split
    · exact .refl _
    · exact settleRules?_refined ih op

theorem settleCall?_refined (d : Nat) (f : Builtin) (a : Expr K) (p : Position) :
    RefinedBy (settleCall? d f a p) (settleCall? (d + 1) f a p) := by
  induction d generalizing f a with
  | zero => exact fun t ht => absurd ht.symm (Option.some_ne_none t)
  | succ d ih =>
    rw [settleCall?, settleCall?]
    split
    · exact .refl _
    · unfold settleOperand?
      split
      · exact (ih _ _).map _
      · exact (ih _ _).map _
      · exact ih _ _
      · exact .refl _

/-! ### Sizes -/

theorem size_negated_le (a : Expr K) : a.negated.size ≤ a.size + 1 := by
  cases a <;> simp only [negated, literal, size] <;> omega

/-- A sign is taken off and none is put in front. -/
theorem size_negated_le_of_isNegative (h : a.isNegative = true) : a.negated.size ≤ a.size := by
  rcases isNegative_cases h with ⟨v, rfl, -⟩ | ⟨c, rfl⟩
  · exact Nat.le_refl 1
  · exact Nat.le_add_left c.size 1

theorem size_negated_lt_of_isNeg (h : a.isNeg = true) : a.negated.size < a.size := by
  cases a with
  | neg c =>
    show c.size < 1 + c.size
    omega
  | _ => exact absurd h Bool.false_ne_true

theorem isNegative_of_isNeg (h : a.isNeg = true) : a.isNegative = true := by
  cases a with
  | neg c => rfl
  | _ => exact absurd h Bool.false_ne_true

/-- Twice the size of an operand, and one more if it has a minus sign in front. -/
def signWeight (a : Expr K) : Nat :=
  2 * a.size + if a.isNegative then 1 else 0

theorem signWeight_bounds (a : Expr K) :
    2 * a.size ≤ a.signWeight ∧ a.signWeight ≤ 2 * a.size + 1 := by
  unfold signWeight
  split <;> omega

/-- Without its sign an operand weighs less, be it a number of the same size. -/
theorem signWeight_negated [NegationLaws K] (h : a.isNegative = true) :
    a.negated.signWeight < a.signWeight := by
  rcases isNegative_cases h with ⟨v, rfl, hv⟩ | ⟨c, rfl⟩
  · have hopposite : (number v).negated.isNegative = false := NegationLaws.isNegative_opposite v hv
    show 2 * 1 + (if (number v).negated.isNegative then 1 else 0) < 2 * 1 + if _ then 1 else 0
    rw [hopposite, show (number v).isNegative = true from hv]
    exact Nat.lt_succ_self 2
  · show 2 * c.size + (if c.isNegative then 1 else 0) < 2 * (1 + c.size) + 1
    split <;> omega

/-- The weight of two factors; a number on the right of what is none counts once. -/
def productWeight (a b : Expr K) : Nat :=
  2 * (a.signWeight + b.signWeight) + if b.isNumber && !a.isNumber then 1 else 0

theorem productWeight_le (a b : Expr K) : productWeight a b ≤ 4 * (a.size + b.size) + 5 := by
  have hboundsa := signWeight_bounds a
  have hboundsb := signWeight_bounds b
  unfold productWeight
  split <;> omega

theorem productWeight_lt {a' b' : Expr K}
    (h : a'.signWeight + b'.signWeight < a.signWeight + b.signWeight) :
    productWeight a' b' < productWeight a b := by
  unfold productWeight
  split <;> split <;> omega

theorem productWeight_swap (h : (b.isNumber && !a.isNumber) = true) :
    productWeight b a < productWeight a b := by
  obtain ⟨hb, ha⟩ := Bool.and_eq_true_iff.1 h
  rw [Bool.not_eq_true'] at ha
  simp only [productWeight, ha, hb, Bool.not_true, Bool.false_and, Bool.not_false, Bool.true_and,
    Bool.false_eq_true, if_false, if_true]
  omega

/-! ### Rewritings that end -/

/-- The rewriting ends with a tree of at most `n` nodes. -/
def SettlesWithin (n : Nat) (r : Option (Expr K)) : Prop :=
  ∃ t, r = some t ∧ t.size ≤ n

namespace SettlesWithin

omit [Arith K] in
theorem some (h : t.size ≤ n) : SettlesWithin n (some t) :=
  ⟨t, rfl, h⟩

omit [Arith K] in
theorem mono {r : Option (Expr K)} (h : SettlesWithin m r) (hmn : m ≤ n) : SettlesWithin n r := by
  obtain ⟨t, rfl, ht⟩ := h
  exact some (ht.trans hmn)

omit [Arith K] in
/-- What is done with the result of a rewriting that ends. -/
theorem bind {r : Option (Expr K)} {g : Expr K → Option (Expr K)} (h : SettlesWithin m r)
    (hg : ∀ t : Expr K, t.size ≤ m → SettlesWithin n (g t)) : SettlesWithin n (r.bind g) := by
  obtain ⟨t, rfl, ht⟩ := h
  exact hg t ht

omit [Arith K] in
/-- An operator that is left as it is. -/
theorem unchanged : SettlesWithin (1 + (a.size + b.size)) (Option.some (binary op a b p)) :=
  some (Nat.le_of_eq (Nat.add_assoc 1 _ _))

theorem negated {r : Option (Expr K)} (h : SettlesWithin m r) :
    SettlesWithin (m + 1) (r.map Expr.negated) := by
  obtain ⟨t, rfl, ht⟩ := h
  exact some ((size_negated_le t).trans (Nat.succ_le_succ ht))

end SettlesWithin

theorem size_of_foldNumbers? {r : Expr K} (h : foldNumbers? op a b = some r) : r.size = 1 := by
  unfold foldNumbers? at h
  split at h
  · split at h
    · cases h
    · split at h
      · cases h
        rfl
      · cases h
  · cases h

/-- Numbers that fold make one node, so only the rules of the operator matter. -/
theorem settlesWithin_settle? (h : SettlesWithin (1 + n) (settleRules? (settle? d) op a b p)) :
    SettlesWithin (1 + n) (settle? (d + 1) op a b p) := by
  rw [settle?]
  cases hfold : foldNumbers? op a b with
  | some r =>
    refine .some ?_
    rw [size_of_foldNumbers? hfold]
    omega
  | none => exact h

section Laws

variable [NegationLaws K]

/-! #### Products and quotients -/

/-- Signs go in front if operands of less weight settle. -/
theorem settlesWithin_signs {again : BinaryOp → Expr K → Expr K → Position → Option (Expr K)}
    (h : ∀ a' b' : Expr K, a'.signWeight + b'.signWeight < a.signWeight + b.signWeight →
      SettlesWithin (1 + (a'.size + b'.size)) (again op a' b' p)) :
    SettlesWithin (1 + (a.size + b.size)) (settleSigns? again op a b p) := by
  unfold settleSigns?
  split
  · next hboth =>
    obtain ⟨ha, hb⟩ := Bool.and_eq_true_iff.1 hboth
    have hsizea := size_negated_le_of_isNegative ha
    have hsizeb := size_negated_le_of_isNegative hb
    have hweighta := signWeight_negated ha
    have hweightb := signWeight_negated hb
    exact (h _ _ (by omega)).mono (by omega)
  · split
    · next ha =>
      have hsize := size_negated_lt_of_isNeg ha
      have hweight := signWeight_negated (isNegative_of_isNeg ha)
      exact (h _ _ (by omega)).negated.mono (by omega)
    · split
      · next hb =>
        have hsize := size_negated_lt_of_isNeg hb
        have hweight := signWeight_negated (isNegative_of_isNeg hb)
        exact (h _ _ (by omega)).negated.mono (by omega)
      · exact .unchanged

theorem settlesWithin_mul (a b : Expr K) (p : Position) (hd : productWeight a b < d) :
    SettlesWithin (1 + (a.size + b.size)) (settle? d .mul a b p) := by
  induction d generalizing a b with
  | zero => exact absurd hd (Nat.not_lt_zero _)
  | succ d ih =>
    apply settlesWithin_settle?
    have hsizea := size_negated_le a
    have hsizeb := size_negated_le b
    have hposa := a.size_pos
    have hposb := b.size_pos
    show SettlesWithin _ (settleProduct? (settle? d) a b p)
    unfold settleProduct?
    split
    · exact .some (Nat.le_add_right 1 _)
    · split
      · exact .some (by omega)
      · split
        · exact .some (by omega)
        · split
          · exact .some (by omega)
          · split
            · exact .some (by omega)
            · split
              · next hswap =>
                have hweight := productWeight_swap hswap
                exact (ih b a (by omega)).mono (by omega)
              · refine settlesWithin_signs fun a' b' hlt => ih a' b' ?_
                have hweight := productWeight_lt hlt
                omega

theorem settlesWithin_div (a b : Expr K) (p : Position) (hd : a.signWeight + b.signWeight < d) :
    SettlesWithin (1 + (a.size + b.size)) (settle? d .div a b p) := by
  induction d generalizing a b with
  | zero => exact absurd hd (Nat.not_lt_zero _)
  | succ d ih =>
    apply settlesWithin_settle?
    have hsizea := size_negated_le a
    show SettlesWithin _ (settleQuotient? (settle? d) a b p)
    unfold settleQuotient?
    split
    · exact .some (by omega)
    · split
      · exact .some (by omega)
      · exact settlesWithin_signs fun a' b' hlt => ih a' b' (by omega)

/-! #### Sums and differences -/

/-- Sums and differences call each other until the right operand has no sign. Then a sum may become
a product. -/
theorem settlesWithin_sums (a b : Expr K) (p : Position)
    (hd : b.signWeight + productWeight (nat 2) a < d) :
    SettlesWithin (1 + (a.size + b.size)) (settle? d .add a b p) ∧
      SettlesWithin (1 + (a.size + b.size)) (settle? d .sub a b p) := by
  induction d generalizing b with
  | zero => exact absurd hd (Nat.not_lt_zero _)
  | succ d ih =>
    have hsizeb := size_negated_le b
    have hposa := a.size_pos
    have hposb := b.size_pos
    have hweightb := signWeight_bounds b
    -- the operand without its sign, for both operators
    have hnegated (hb : b.isNegative = true) :
        SettlesWithin (1 + (a.size + b.size)) (settle? d .add a b.negated p) ∧
          SettlesWithin (1 + (a.size + b.size)) (settle? d .sub a b.negated p) := by
      have hsize := size_negated_le_of_isNegative hb
      have hweight := signWeight_negated hb
      obtain ⟨hadd, hsub⟩ := ih b.negated (by omega)
      exact ⟨hadd.mono (by omega), hsub.mono (by omega)⟩
    constructor
    · apply settlesWithin_settle?
      show SettlesWithin _ (settleSum? (settle? d) a b p)
      unfold settleSum?
      split
      · exact .some (by omega)
      · split
        · exact .some (by omega)
        · split
          · next hb => exact (hnegated hb).2
          · split
            · have htwo : (nat 2 : Expr K).size = 1 := rfl
              exact (settlesWithin_mul (nat 2) a none (by omega)).mono (by omega)
            · exact .unchanged
    · apply settlesWithin_settle?
      show SettlesWithin _ (settleDifference? (settle? d) a b p)
      unfold settleDifference?
      split
      · exact .some (by omega)
      · split
        · exact .some (by omega)
        · split
          · next hb => exact (hnegated hb).1
          · split
            · exact .some (Nat.le_add_right 1 _)
            · exact .unchanged

/-! #### Powers -/

omit [NegationLaws K] in
/-- The rules for a base with a sign and for exponents that undo a logarithm. -/
theorem settlesWithin_inverse {again : BinaryOp → Expr K → Expr K → Position → Option (Expr K)}
    (h : ∀ c, a = neg c → SettlesWithin (1 + (c.size + b.size)) (again .pow c b p)) :
    SettlesWithin (1 + (a.size + b.size)) (settleInverse? again a b p) := by
  have hbase : SettlesWithin (1 + (a.size + b.size)) (settleBase? again a b p) := by
    unfold settleBase?
    split
    · next c k _ =>
      have hc := h c rfl
      have hsize : (neg c).size = 1 + c.size := rfl
      split
      · exact hc.mono (by omega)
      · exact hc.negated.mono (by omega)
    · exact .unchanged
  have hoperand {g : Builtin} {c : Expr K} {q : Position} (hb : b = call g c q) :
      SettlesWithin (1 + (a.size + b.size)) (some c) := by
    have hsize : b.size = 1 + c.size := hb ▸ rfl
    exact .some (by omega)
  unfold settleInverse?
  split
  · split
    · exact hoperand rfl
    · exact hbase
  · split
    · exact hoperand rfl
    · exact hbase
  · split
    · exact hoperand rfl
    · exact hbase
  · exact hbase

omit [NegationLaws K] in
/-- Where the exponent is no negative number, the signs of the base come off one by one. -/
theorem settlesWithin_unsignedPower (a b : Expr K) (p : Position)
    (hb : (b.isNumber && b.isNegative) = false) (hd : a.size < d) :
    SettlesWithin (1 + (a.size + b.size)) (settle? d .pow a b p) := by
  induction d generalizing a with
  | zero => exact absurd hd (Nat.not_lt_zero _)
  | succ d ih =>
    apply settlesWithin_settle?
    show SettlesWithin _ (settlePower? (settle? d) a b p)
    rw [settlePower?, hb]
    split
    · exact .some (Nat.le_add_right 1 _)
    · split
      · exact .some (Nat.le_add_right 1 _)
      · split
        · exact .some (by omega)
        · refine settlesWithin_inverse fun c hc => ih c ?_
          have hsize : a.size = 1 + c.size := hc ▸ rfl
          omega

theorem settlesWithin_pow (a b : Expr K) (p : Position) (hd : 2 * (a.size + b.size) + 7 < d) :
    SettlesWithin (1 + (a.size + b.size + 2)) (settle? d .pow a b p) := by
  cases hb : b.isNumber && b.isNegative with
  | false => exact (settlesWithin_unsignedPower a b p hb (by omega)).mono (by omega)
  | true =>
    obtain ⟨d, rfl⟩ := Nat.exists_eq_succ_of_ne_zero (Nat.ne_zero_of_lt hd)
    apply settlesWithin_settle?
    show SettlesWithin _ (settlePower? (settle? d) a b p)
    rw [settlePower?, hb]
    split
    · exact .some (Nat.le_add_right 1 _)
    · split
      · exact .some (Nat.le_add_right 1 _)
      · split
        · exact .some (by omega)
        · -- the power without the sign settles within its size, and the reciprocal adds two nodes
          obtain ⟨hnum, hneg⟩ := Bool.and_eq_true_iff.1 hb
          have hsize := size_negated_le_of_isNegative hneg
          have hunsigned : (b.negated.isNumber && b.negated.isNegative) = false := by
            rcases isNegative_cases hneg with ⟨v, rfl, hv⟩ | ⟨c, rfl⟩
            · exact NegationLaws.isNegative_opposite v hv
            · exact absurd hnum Bool.false_ne_true
          refine (settlesWithin_unsignedPower a b.negated p hunsigned (by omega)).bind fun t ht => ?_
          have hone : (nat 1 : Expr K).size = 1 := rfl
          have hweight := signWeight_bounds (nat 1 : Expr K)
          have hweight' := signWeight_bounds t
          exact (settlesWithin_div (nat 1) t none (by omega)).mono (by omega)

/-- The rewriting ends for all operators and operands. -/
theorem settlesWithin_operation (op : BinaryOp) (a b : Expr K) (p : Position)
    (hd : 4 * (a.size + b.size) + 10 < d) :
    SettlesWithin (1 + (a.size + b.size + if op = .pow then 2 else 0)) (settle? d op a b p) := by
  have hweight := productWeight_le a b
  have hweight' := productWeight_le (nat 2) a
  have hboundsa := signWeight_bounds a
  have hboundsb := signWeight_bounds b
  have htwo : (nat 2 : Expr K).size = 1 := rfl
  cases op with
  | add => exact (settlesWithin_sums a b p (by omega)).1
  | sub => exact (settlesWithin_sums a b p (by omega)).2
  | mul => exact settlesWithin_mul a b p (by omega)
  | div => exact settlesWithin_div a b p (by omega)
  | pow => exact settlesWithin_pow a b p (by omega)

end Laws

/-! #### Functions -/

theorem size_of_foldCall? {r : Expr K} (h : foldCall? f a = some r) : r.size = 1 := by
  unfold foldCall? at h
  split at h
  · split at h
    · cases h
    · split at h
      · cases h
        rfl
      · cases h
  · cases h

theorem size_of_value {r : Expr K} (h : (knownValue? f a <|> foldCall? f a) = some r) :
    r.size = 1 := by
  cases hknown : knownValue? f a with
  | some t =>
    rw [hknown] at h
    cases h
    rcases eq_nat_of_knownValue? hknown with rfl | rfl <;> rfl
  | none =>
    rw [hknown] at h
    exact size_of_foldCall? h

/-- The signs of an operand come off one by one. -/
theorem settlesWithin_call (f : Builtin) (a : Expr K) (p : Position) (hd : a.size < d) :
    SettlesWithin (1 + a.size) (settleCall? d f a p) := by
  induction d generalizing f a with
  | zero => exact absurd hd (Nat.not_lt_zero _)
  | succ d ih =>
    rw [settleCall?]
    split
    · next r hr =>
      refine .some ?_
      rw [size_of_value hr]
      omega
    · have hsize (c : Expr K) : (neg c).size = c.size + 1 := Nat.add_comm 1 c.size
      unfold settleOperand?
      split
      · next c _ => exact (ih .sin c (by rw [hsize] at hd; omega)).negated.mono (by rw [hsize]; omega)
      · next c _ => exact (ih .tan c (by rw [hsize] at hd; omega)).negated.mono (by rw [hsize]; omega)
      · next c _ => exact (ih .cos c (by rw [hsize] at hd; omega)).mono (by rw [hsize]; omega)
      · exact .some (Nat.le_refl _)

/-! #### Results -/

omit [Arith K] in
theorem refinedBy_of_le {r : Nat → Option (Expr K)} (hr : ∀ d, RefinedBy (r d) (r (d + 1)))
    (hmn : m ≤ n) : RefinedBy (r m) (r n) := by
  induction hmn with
  | refl => exact .refl _
  | step _ ih => exact fun t ht => hr _ t (ih t ht)

/-- A depth that is linear in the sizes of the operands is enough. -/
theorem exists_settle? [NegationLaws K] (op : BinaryOp) (a b : Expr K) (p : Position) :
    ∃ r, ∀ d, 4 * (a.size + b.size) + 10 < d → settle? d op a b p = some r := by
  obtain ⟨r, hr, -⟩ := settlesWithin_operation op a b p (Nat.lt_succ_self _)
  exact ⟨r, fun d hd => refinedBy_of_le (fun d => settle?_refined d op a b p) hd r hr⟩

theorem exists_settleCall? (f : Builtin) (a : Expr K) (p : Position) :
    ∃ r, ∀ d, a.size < d → settleCall? d f a p = some r := by
  obtain ⟨r, hr, -⟩ := settlesWithin_call f a p (Nat.lt_succ_self _)
  exact ⟨r, fun d hd => refinedBy_of_le (fun d => settleCall?_refined d f a p) hd r hr⟩

end Formulary.Expr

import Formulary.Proofs.Arithmetic.FieldLaws
import Formulary.Proofs.Expr.Normal
import Formulary.Proofs.Expr.Positions
import Formulary.Proofs.Expr.Subtrees

/-!
# The value of what a rule makes

Each rule of simplification joins simplified operands into a tree that has the value of the operator
at the values of the operands. The laws of the arithmetic are asked of the numbers with a property
`P` only, so every statement carries along that all values in a tree have the property.

* `AllGive P x vars mode a`: all trees in the tree have values with the property `P`.
* `Gives P x vars mode a v`: besides, the tree has the value `v`.
* `Allowed op w`: the operator takes `w` as its right operand; a zero is no divisor.
* `eq_of_beq_gives`: trees that test equal have the same value.
* `gives_negated`, `gives_product`, `gives_quotient`, `gives_sum`, `gives_difference`: signs and the
  four operators.
* **`gives_operation`**: all operators but the power.
* **`gives_application`**: all functions, where the logarithm of Euler's number is one.
-/

namespace Formulary.Expr

universe u

variable {K : Type u} [Arith K]

/-- All trees in the tree have values with the property. -/
def AllGive (P : K → Prop) (x : K) (vars : Vars K) (mode : EvalMode) (a : Expr K) : Prop :=
  ∀ s ∈ a.subtrees, ∃ w, s.eval x vars mode = .ok w ∧ P w

/-- The tree has the value `v`, and all values in it have the property. -/
structure Gives (P : K → Prop) (x : K) (vars : Vars K) (mode : EvalMode) (a : Expr K) (v : K) :
    Prop where
  eval : a.eval x vars mode = .ok v
  all : AllGive P x vars mode a

/-- The operator takes the number as its right operand. -/
def Allowed (op : BinaryOp) (w : K) : Prop :=
  op = .div → Arith.isZero w = false

theorem allowed_of_ne {op : BinaryOp} {w : K} (h : op ≠ .div) : Allowed op w :=
  fun hop => absurd hop h

theorem evalBinary_of_allowed {op : BinaryOp} {w : K} (h : Allowed op w) (v : K) (p : Position) :
    evalBinary op v w p = .ok (Arith.normalize (op.apply v w)) := by
  unfold evalBinary
  rw [if_neg]
  rintro ⟨hop, hzero⟩
  rw [h hop] at hzero
  exact Bool.false_ne_true hzero

/-- An operator that has a value takes its right operand. -/
theorem evalBinary_eq_ok {op : BinaryOp} {v w r : K} {p : Position}
    (h : evalBinary op v w p = .ok r) :
    Allowed op w ∧ r = Arith.normalize (op.apply v w) := by
  unfold evalBinary at h
  split at h
  · cases h
  · next hdiv =>
    refine ⟨fun hop => ?_, ?_⟩
    · cases hzero : Arith.isZero w with
      | false => rfl
      | true => exact absurd ⟨hop, hzero⟩ hdiv
    · cases h
      rfl

theorem evalCall_eq_ok {f : Builtin} {v r : K} {p : Position} {mode : EvalMode}
    (h : evalCall f v p mode = .ok r) : r = Arith.normalize (Arith.apply f v) := by
  unfold evalCall at h
  split at h
  · cases h
  · cases h
    rfl

/-- In complex mode every function has a value everywhere. -/
theorem evalCall_complex (f : Builtin) (v : K) (p : Position) :
    evalCall f v p .complex = .ok (Arith.normalize (Arith.apply f v)) :=
  if_neg fun h => EvalMode.noConfusion h.1

/-! ### Values of operands -/

section Parts

variable {x r : K} {vars : Vars K} {mode : EvalMode} {op : BinaryOp} {f : Builtin}
  {a b : Expr K} {p : Position}

theorem eval_neg_eq_ok (h : (neg a).eval x vars mode = .ok r) :
    ∃ v, a.eval x vars mode = .ok v ∧ r = Arith.normalize (-v) := by
  simp only [eval] at h
  split at h
  · next v hv =>
    cases h
    exact ⟨v, hv, rfl⟩
  · cases h

theorem eval_binary_eq_ok (h : (binary op a b p).eval x vars mode = .ok r) :
    ∃ v w, a.eval x vars mode = .ok v ∧ b.eval x vars mode = .ok w ∧
      evalBinary op v w p = .ok r := by
  simp only [eval] at h
  split at h
  · cases h
  · next v hv =>
    split at h
    · cases h
    · next w hw => exact ⟨v, w, hv, hw, h⟩

theorem eval_call_eq_ok (h : (call f a p).eval x vars mode = .ok r) :
    ∃ v, a.eval x vars mode = .ok v ∧ evalCall f v p mode = .ok r := by
  simp only [eval] at h
  split at h
  · next v hv => exact ⟨v, hv, h⟩
  · cases h

theorem eval_binary {v w : K} (ha : a.eval x vars mode = .ok v) (hb : b.eval x vars mode = .ok w) :
    (binary op a b p).eval x vars mode = evalBinary op v w p := by
  simp only [eval, ha, hb]

/-- The value of the variable for Euler's number is in the table. -/
theorem get?_of_isEuler (h : a.isEuler = true) (hv : a.eval x vars mode = .ok r) :
    vars.get? eulerName = some r := by
  cases a with
  | named name q =>
    obtain rfl : name = eulerName := eq_of_beq h
    change evalNamed vars eulerName q = .ok r at hv
    unfold evalNamed at hv
    split at hv
    · next e he =>
      cases hv
      exact he
    · cases hv
  | _ => exact absurd h Bool.false_ne_true

theorem eval_binary_of_allowed {v w : K} (h : Allowed op w) (ha : a.eval x vars mode = .ok v)
    (hb : b.eval x vars mode = .ok w) :
    (binary op a b p).eval x vars mode = .ok (Arith.normalize (op.apply v w)) :=
  (eval_binary ha hb).trans (evalBinary_of_allowed h v p)

theorem eval_call {v : K} (ha : a.eval x vars mode = .ok v) :
    (call f a p).eval x vars mode = evalCall f v p mode := by
  simp only [eval, ha]

theorem eval_neg {v : K} (ha : a.eval x vars mode = .ok v) :
    (neg a).eval x vars mode = .ok (Arith.normalize (-v)) := by
  simp only [eval, ha]

end Parts

/-! ### Trees whose values have a property -/

section Gives

variable {P : K → Prop} {x v w : K} {vars : Vars K} {mode : EvalMode} {op : BinaryOp} {f : Builtin}
  {a b s : Expr K} {p : Position}

theorem AllGive.of_mem (h : AllGive P x vars mode a) (hs : s ∈ a.subtrees) :
    AllGive P x vars mode s :=
  fun t ht => h t (subtrees_subset hs ht)

theorem AllGive.gives (h : AllGive P x vars mode a) (hv : a.eval x vars mode = .ok v) :
    Gives P x vars mode a v :=
  ⟨hv, h⟩

/-- The value of the tree is one of the values in it. -/
theorem Gives.holds (h : Gives P x vars mode a v) : P v := by
  obtain ⟨w, hw, hP⟩ := h.all a (mem_subtrees_self a)
  cases hw.symm.trans h.eval
  exact hP

theorem gives_number (h : P v) : Gives P x vars mode (number v) v := by
  refine ⟨rfl, fun s hs => ?_⟩
  obtain rfl := List.mem_singleton.1 hs
  exact ⟨v, rfl, h⟩

theorem gives_literal (h : P (Arith.normalize v)) :
    Gives P x vars mode (literal v) (Arith.normalize v) :=
  gives_number h

/-- The operand of a negation. -/
theorem gives_of_neg (h : Gives P x vars mode (neg a) v) :
    ∃ u, Gives P x vars mode a u ∧ v = Arith.normalize (-u) := by
  obtain ⟨u, hu, rfl⟩ := eval_neg_eq_ok h.eval
  exact ⟨u, (h.all.of_mem (mem_subtrees_neg a)).gives hu, rfl⟩

/-- The operand of a function. -/
theorem gives_of_call (h : Gives P x vars mode (call f a p) v) :
    ∃ u, Gives P x vars mode a u ∧ evalCall f u p mode = .ok v := by
  obtain ⟨u, hu, hcall⟩ := eval_call_eq_ok h.eval
  exact ⟨u, (h.all.of_mem (mem_subtrees_call f a p)).gives hu, hcall⟩

theorem gives_binary (op : BinaryOp) (ha : Gives P x vars mode a v) (hb : Gives P x vars mode b w)
    (hw : Allowed op w) (hr : P (Arith.normalize (op.apply v w))) :
    Gives P x vars mode (binary op a b p) (Arith.normalize (op.apply v w)) := by
  have heval := eval_binary_of_allowed (p := p) hw ha.eval hb.eval
  refine ⟨heval, fun s hs => ?_⟩
  rcases List.mem_cons.1 hs with rfl | hs
  · exact ⟨_, heval, hr⟩
  · rcases List.mem_append.1 hs with hs | hs
    · exact ha.all s hs
    · exact hb.all s hs

theorem gives_call {r : K} (ha : Gives P x vars mode a v) (hcall : evalCall f v p mode = .ok r)
    (hr : P r) : Gives P x vars mode (call f a p) r := by
  have heval := (eval_call (f := f) (p := p) ha.eval).trans hcall
  refine ⟨heval, fun s hs => ?_⟩
  rcases List.mem_cons.1 hs with rfl | hs
  · exact ⟨r, heval, hr⟩
  · exact ha.all s hs

end Gives

/-! ### Equal trees -/

/-- Trees that test equal differ in their places only, if equal literals are the same number. -/
theorem unplaced_eq_of_beq {a b : Expr K}
    (hbeq : ∀ v w, number v ∈ a.subtrees → number w ∈ b.subtrees → (v == w) = true → v = w)
    (h : (a == b) = true) : a.unplaced = b.unplaced := by
  induction a generalizing b with
  | number v =>
    cases b with
    | number w => exact congrArg number (hbeq v w (mem_subtrees_self _) (mem_subtrees_self _) h)
    | _ => exact absurd h Bool.false_ne_true
  | argument =>
    cases b with
    | argument => rfl
    | _ => exact absurd h Bool.false_ne_true
  | named n p =>
    cases b with
    | named m q => exact congrArg (named · none) (eq_of_beq h)
    | _ => exact absurd h Bool.false_ne_true
  | neg a ih =>
    cases b with
    | neg b =>
      exact congrArg neg (ih (fun v w hv hw => hbeq v w (.tail _ hv) (.tail _ hw)) h)
    | _ => exact absurd h Bool.false_ne_true
  | binary op a₁ a₂ p ih₁ ih₂ =>
    cases b with
    | binary op' b₁ b₂ q =>
      obtain ⟨h₁, h₂⟩ := Bool.and_eq_true_iff.1 h
      obtain ⟨hop, h₁⟩ := Bool.and_eq_true_iff.1 h₁
      have hleft := ih₁ (fun v w hv hw => hbeq v w (.tail _ (List.mem_append_left _ hv))
        (.tail _ (List.mem_append_left _ hw))) h₁
      have hright := ih₂ (fun v w hv hw => hbeq v w (.tail _ (List.mem_append_right _ hv))
        (.tail _ (List.mem_append_right _ hw))) h₂
      simp only [unplaced, eq_of_beq hop, hleft, hright]
    | _ => exact absurd h Bool.false_ne_true
  | call f a p ih =>
    cases b with
    | call g b q =>
      obtain ⟨hf, h⟩ := Bool.and_eq_true_iff.1 h
      have hoperand := ih (fun v w hv hw => hbeq v w (.tail _ hv) (.tail _ hw)) h
      simp only [unplaced, eq_of_beq hf, hoperand]
    | _ => exact absurd h Bool.false_ne_true

/-! ### Rules -/

section Rules

variable {P : K → Prop} (laws : OperatorLawsOn P) {x v w : K} {vars : Vars K} {mode : EvalMode}
  {op : BinaryOp} {a b d : Expr K} {p : Position}

include laws

/-- Trees that test equal have the same value. -/
theorem eq_of_beq_gives (h : (a == b) = true) (ha : Gives P x vars mode a v)
    (hb : Gives P x vars mode b w) : v = w := by
  have hplace := unplaced_eq_of_beq (fun u u' hu hu' hbeq => by
    have hu := ((ha.all.of_mem hu).gives rfl).holds
    have hu' := ((hb.all.of_mem hu').gives rfl).holds
    rw [laws.eq_of_beq hu hbeq, laws.normalize_eq hu']) h
  have hsame := sameOutcome_of_unplaced x vars mode hplace
  unfold SameOutcome at hsame
  rw [ha.eval, hb.eval] at hsame
  exact Except.ok.inj hsame

/-- What tests equal to a number has its kept form as value. -/
theorem eq_of_beq_number (h : (a == number w) = true) (ha : Gives P x vars mode a v) :
    v = Arith.normalize w := by
  cases a with
  | number u =>
    cases ha.eval
    exact laws.eq_of_beq ha.holds h
  | _ => exact absurd h Bool.false_ne_true

theorem eq_of_beq_nat {n : Nat} (hn : n ≤ 10) (h : (a == nat n) = true)
    (ha : Gives P x vars mode a v) : v = Arith.ofNat n :=
  (eq_of_beq_number laws h ha).trans (laws.normalize_eq (laws.whole hn))

theorem gives_nat {n : Nat} (h : n ≤ 10) : Gives P x vars mode (nat n) (Arith.ofNat n) :=
  gives_number (laws.whole h)

theorem gives_neg (h : Gives P x vars mode a v) :
    Gives P x vars mode (neg a) (Arith.normalize (-v)) := by
  refine ⟨eval_neg h.eval, fun s hs => ?_⟩
  rcases List.mem_cons.1 hs with rfl | hs
  · exact ⟨_, eval_neg h.eval, laws.neg h.holds⟩
  · exact h.all s hs

theorem gives_negated (h : Gives P x vars mode a v) :
    Gives P x vars mode a.negated (Arith.normalize (-v)) := by
  cases a with
  | number u =>
    cases h.eval
    exact gives_literal (laws.neg h.holds)
  | neg b =>
    obtain ⟨u, hu, rfl⟩ := gives_of_neg h
    rw [laws.neg_neg hu.holds]
    exact hu
  | _ => exact gives_neg laws h

omit laws in
/-- Two numbers that are folded have the value of the operator; else the alternative counts. -/
theorem gives_foldNumbers? (op : BinaryOp) (ha : Gives P x vars mode a v)
    (hb : Gives P x vars mode b w) (hr : P (Arith.normalize (op.apply v w)))
    (hd : Gives P x vars mode d (Arith.normalize (op.apply v w))) :
    Gives P x vars mode ((foldNumbers? op a b).getD d) (Arith.normalize (op.apply v w)) := by
  cases hfold : foldNumbers? op a b with
  | none => exact hd
  | some r =>
    unfold foldNumbers? at hfold
    split at hfold
    · cases ha.eval
      cases hb.eval
      split at hfold
      · cases hfold
      · split at hfold
        · cases hfold
          exact gives_literal hr
        · cases hfold
    · cases hfold

omit laws in
theorem gives_joined (ha : Gives P x vars mode a v) (hb : Gives P x vars mode b w)
    (hw : Allowed op w) (hr : P (Arith.normalize (op.apply v w))) :
    Gives P x vars mode (joined op a b p) (Arith.normalize (op.apply v w)) :=
  gives_foldNumbers? op ha hb hr (gives_binary op ha hb hw hr)

/-! #### Signs of products and quotients -/

/-- Zero has no other sign. -/
theorem neg_zero_eq : Arith.normalize (-Arith.ofNat 0 : K) = Arith.ofNat 0 := by
  have hzero := laws.whole (n := 0) (by omega)
  rw [← laws.zero_sub hzero, laws.sub_self hzero]

/-- A number that is no zero is none with the other sign. -/
theorem isZero_neg (hw : P w) (h : Arith.isZero w = false) :
    Arith.isZero (Arith.normalize (-w)) = false := by
  rw [Bool.eq_false_iff] at h ⊢
  intro hzero
  have hneg : Arith.normalize (-w) = Arith.ofNat 0 :=
    (laws.eq_of_beq (laws.neg hw) hzero).trans (laws.normalize_eq (laws.whole (by omega)))
  have heq : w = Arith.ofNat 0 := by
    rw [← laws.neg_neg hw, hneg, neg_zero_eq laws]
  rw [heq] at h
  exact h laws.zero_beq

omit laws in
/-- The sign of either operand becomes the sign of the result. -/
structure MovesSigns (P : K → Prop) (op : BinaryOp) : Prop where
  left {v w : K} (hv : P v) (hw : P w) (h : Allowed op w)
    (hr : P (Arith.normalize (op.apply v w))) :
    Arith.normalize (op.apply (Arith.normalize (-v)) w) =
      Arith.normalize (-Arith.normalize (op.apply v w))
  right {v w : K} (hv : P v) (hw : P w) (h : Allowed op w)
    (hr : P (Arith.normalize (op.apply v w))) :
    Arith.normalize (op.apply v (Arith.normalize (-w))) =
      Arith.normalize (-Arith.normalize (op.apply v w))

theorem movesSigns_mul : MovesSigns P .mul where
  left hv hw _ hr := laws.neg_mul hv hw hr
  right {v w} hv hw _ hr := by
    have hcomm := laws.mul_comm hv hw hr
    have hleft := laws.neg_mul hw hv (hcomm ▸ hr)
    show Arith.normalize (v * Arith.normalize (-w)) = Arith.normalize (-Arith.normalize (v * w))
    rw [laws.mul_comm (laws.neg hw) hv (hleft ▸ laws.neg (hcomm ▸ hr)), hleft, hcomm]

theorem movesSigns_div : MovesSigns P .div where
  left hv hw h hr := laws.neg_div hv hw (h rfl) hr
  right hv hw h hr := laws.div_neg hv hw (h rfl) hr

/-- With its signs in front a product or a quotient has the same value. -/
theorem gives_hoisted (hop : MovesSigns P op) (ha : Gives P x vars mode a v)
    (hb : Gives P x vars mode b w) (hw : Allowed op w)
    (hr : P (Arith.normalize (op.apply v w))) :
    Gives P x vars mode (hoisted op a b p) (Arith.normalize (op.apply v w)) := by
  have ha' := gives_negated laws ha
  have hb' := gives_negated laws hb
  have hw' : Allowed op (Arith.normalize (-w)) := fun h => isZero_neg laws hb.holds (hw h)
  have hleft := hop.left ha.holds hb.holds hw hr
  have hright := hop.right ha.holds hb.holds hw hr
  have hnegr := laws.neg hr
  unfold hoisted
  split
  · -- both operands lose their sign
    have hboth : Arith.normalize (op.apply (Arith.normalize (-v)) (Arith.normalize (-w))) =
        Arith.normalize (op.apply v w) := by
      rw [hop.right ha'.holds hb.holds hw (hleft ▸ hnegr), hleft, laws.neg_neg hr]
    have h := gives_joined (p := p) ha' hb' hw' (hboth ▸ hr)
    rwa [hboth] at h
  · split
    · have h := gives_negated laws (gives_joined (p := p) ha' hb hw (hleft ▸ hnegr))
      rwa [hleft, laws.neg_neg hr] at h
    · split
      · have h := gives_negated laws (gives_joined (p := p) ha hb' hw' (hright ▸ hnegr))
        rwa [hright, laws.neg_neg hr] at h
      · exact gives_binary op ha hb hw hr

/-! #### Operators -/

theorem gives_product (ha : Gives P x vars mode a v) (hb : Gives P x vars mode b w)
    (hr : P (Arith.normalize (v * w))) :
    Gives P x vars mode (product a b p) (Arith.normalize (v * w)) := by
  have hcomm := laws.mul_comm ha.holds hb.holds hr
  refine gives_foldNumbers? .mul ha hb hr ?_
  show Gives P x vars mode (productRules a b p) (Arith.normalize (v * w))
  unfold productRules
  split
  · next h =>
    have hzero : Arith.normalize (v * w) = Arith.ofNat 0 := by
      rcases Bool.or_eq_true_iff.1 h with h | h
      · rw [eq_of_beq_nat laws (by omega) h ha, laws.zero_mul hb.holds]
      · rw [← hcomm, eq_of_beq_nat laws (by omega) h hb, laws.zero_mul ha.holds]
    rw [hzero]
    exact gives_nat laws (by omega)
  · split
    · next h =>
      rw [eq_of_beq_nat laws (by omega) h ha, laws.one_mul hb.holds]
      exact hb
    · split
      · next h =>
        rw [← hcomm, eq_of_beq_nat laws (by omega) h hb, laws.one_mul ha.holds]
        exact ha
      · split
        · next h =>
          rw [eq_of_beq_number laws h ha, laws.minusOne_mul hb.holds]
          exact gives_negated laws hb
        · split
          · next h =>
            rw [← hcomm, eq_of_beq_number laws h hb, laws.minusOne_mul ha.holds]
            exact gives_negated laws ha
          · split
            · rw [← hcomm] at hr ⊢
              exact gives_hoisted laws (movesSigns_mul laws) hb ha (allowed_of_ne (by decide)) hr
            · exact gives_hoisted laws (movesSigns_mul laws) ha hb (allowed_of_ne (by decide)) hr

theorem gives_quotient (ha : Gives P x vars mode a v) (hb : Gives P x vars mode b w)
    (hw : Arith.isZero w = false) (hr : P (Arith.normalize (v / w))) :
    Gives P x vars mode (quotient a b p) (Arith.normalize (v / w)) := by
  refine gives_foldNumbers? .div ha hb hr ?_
  show Gives P x vars mode _ (Arith.normalize (v / w))
  split
  · next h =>
    rw [eq_of_beq_nat laws (by omega) h hb, laws.div_one ha.holds]
    exact ha
  · split
    · next h =>
      rw [eq_of_beq_number laws h hb, laws.div_minusOne ha.holds]
      exact gives_negated laws ha
    · exact gives_hoisted laws (movesSigns_div laws) ha hb (fun _ => hw) hr

theorem gives_sumUnsigned (ha : Gives P x vars mode a v) (hb : Gives P x vars mode b w)
    (hr : P (Arith.normalize (v + w))) :
    Gives P x vars mode (sumUnsigned a b p) (Arith.normalize (v + w)) := by
  refine gives_foldNumbers? .add ha hb hr ?_
  show Gives P x vars mode _ (Arith.normalize (v + w))
  split
  · next h =>
    obtain rfl := eq_of_beq_gives laws h ha hb
    have htwice := laws.add_self ha.holds hr
    rw [← htwice] at hr ⊢
    exact gives_product laws (gives_nat laws (by omega)) ha hr
  · exact gives_binary .add ha hb (allowed_of_ne (by decide)) hr

theorem gives_differenceUnsigned (ha : Gives P x vars mode a v) (hb : Gives P x vars mode b w)
    (hr : P (Arith.normalize (v - w))) :
    Gives P x vars mode (differenceUnsigned a b p) (Arith.normalize (v - w)) := by
  refine gives_foldNumbers? .sub ha hb hr ?_
  show Gives P x vars mode _ (Arith.normalize (v - w))
  split
  · next h =>
    obtain rfl := eq_of_beq_gives laws h ha hb
    rw [laws.sub_self ha.holds]
    exact gives_nat laws (by omega)
  · exact gives_binary .sub ha hb (allowed_of_ne (by decide)) hr

theorem gives_sum (ha : Gives P x vars mode a v) (hb : Gives P x vars mode b w)
    (hr : P (Arith.normalize (v + w))) :
    Gives P x vars mode (sum a b p) (Arith.normalize (v + w)) := by
  refine gives_foldNumbers? .add ha hb hr ?_
  show Gives P x vars mode _ (Arith.normalize (v + w))
  split
  · next h =>
    rw [← laws.add_comm ha.holds hb.holds hr, eq_of_beq_nat laws (by omega) h hb,
      laws.zero_add ha.holds]
    exact ha
  · split
    · next h =>
      rw [eq_of_beq_nat laws (by omega) h ha, laws.zero_add hb.holds]
      exact hb
    · split
      · -- a sum with `w` is a difference with `-w`
        have hdiff := laws.sub_neg ha.holds hb.holds hr
        rw [← hdiff] at hr ⊢
        exact gives_differenceUnsigned laws ha (gives_negated laws hb) hr
      · exact gives_sumUnsigned laws ha hb hr

theorem gives_difference (ha : Gives P x vars mode a v) (hb : Gives P x vars mode b w)
    (hr : P (Arith.normalize (v - w))) :
    Gives P x vars mode (difference a b p) (Arith.normalize (v - w)) := by
  have hsum := laws.add_neg ha.holds hb.holds hr
  refine gives_foldNumbers? .sub ha hb hr ?_
  show Gives P x vars mode _ (Arith.normalize (v - w))
  split
  · next h =>
    have heq : Arith.normalize (v - w) = v := by
      rw [← hsum] at hr ⊢
      rw [← laws.add_comm ha.holds (laws.neg hb.holds) hr, eq_of_beq_nat laws (by omega) h hb,
        neg_zero_eq laws, laws.zero_add ha.holds]
    rw [heq]
    exact ha
  · split
    · next h =>
      rw [eq_of_beq_nat laws (by omega) h ha, laws.zero_sub hb.holds]
      exact gives_negated laws hb
    · split
      · rw [← hsum] at hr ⊢
        exact gives_sumUnsigned laws ha (gives_negated laws hb) hr
      · exact gives_differenceUnsigned laws ha hb hr

/-- Joining two simplified trees by an operator other than the power gives the value of the
operator. -/
theorem gives_operation (hop : op ≠ .pow) (ha : Gives P x vars mode a v)
    (hb : Gives P x vars mode b w) (hw : Allowed op w)
    (hr : P (Arith.normalize (op.apply v w))) :
    Gives P x vars mode (operation op a b p) (Arith.normalize (op.apply v w)) := by
  cases op with
  | add => exact gives_sum laws ha hb hr
  | sub => exact gives_difference laws ha hb hr
  | mul => exact gives_product laws ha hb hr
  | div => exact gives_quotient laws ha hb (hw rfl) hr
  | pow => exact absurd rfl hop

end Rules

/-! ### Functions -/

section Functions

variable {P : K → Prop} {x v r : K} {vars : Vars K} {mode : EvalMode} {f : Builtin} {a d : Expr K}
  {p : Position}

theorem evalCall_of_not_isLogarithm (hf : f.isLogarithm = false) :
    evalCall f v p mode = .ok (Arith.normalize (Arith.apply f v)) := by
  unfold evalCall
  rw [if_neg]
  rintro ⟨-, hlog, -⟩
  rw [hf] at hlog
  exact Bool.false_ne_true hlog

/-- A number to which a function is applied by folding has the value of the function; else the
alternative counts. -/
theorem gives_foldCall? (ha : Gives P x vars mode a v) (hcall : evalCall f v p mode = .ok r)
    (hr : P r) (hd : Gives P x vars mode d r) :
    Gives P x vars mode ((foldCall? f a).getD d) r := by
  obtain rfl := evalCall_eq_ok hcall
  cases hfold : foldCall? f a with
  | none => exact hd
  | some c =>
    unfold foldCall? at hfold
    split at hfold
    · cases ha.eval
      split at hfold
      · cases hfold
      · split at hfold
        · cases hfold
          exact gives_literal hr
        · cases hfold
    · cases hfold

variable (laws : FieldLawsOn P)

include laws

/-- The known values are the values of the functions. -/
theorem gives_knownValue? {c : Expr K} (ha : Gives P x vars mode a v)
    (he : a.isEuler = true → f.isNaturalLog = true →
      Arith.normalize (Arith.apply f v) = Arith.ofNat 1)
    (h : knownValue? f a = some c) :
    Gives P x vars mode c (Arith.normalize (Arith.apply f v)) := by
  have hnat {n : Nat} (hn : n ≤ 10) (heq : Arith.normalize (Arith.apply f v) = Arith.ofNat n) :
      Gives P x vars mode (nat n) (Arith.normalize (Arith.apply f v)) := by
    rw [heq]
    exact gives_nat laws.toOperatorLawsOn hn
  have hargument {n k : Nat} (hn : n ≤ 10) (hbeq : (a == nat n) = true)
      (hf : Arith.normalize (Arith.apply f (Arith.ofNat n : K)) = Arith.ofNat k) :
      Arith.normalize (Arith.apply f v) = Arith.ofNat k := by
    rw [eq_of_beq_nat laws.toOperatorLawsOn hn hbeq ha, hf]
  unfold knownValue? at h
  split at h
  · split at h
    · next hname =>
      cases h
      exact hnat (by omega) (he hname rfl)
    · cases h
  · split at h
    · next hname =>
      cases h
      exact hnat (by omega) (he hname rfl)
    · cases h
  · split at h
    · next hten =>
      cases h
      exact hnat (by omega) (hargument (by omega) hten laws.log10_ten)
    · cases h
  · split at h
    · next hzero =>
      cases h
      exact hnat (by omega) (hargument (by omega) hzero laws.sin_zero)
    · cases h
  · split at h
    · next hzero =>
      cases h
      exact hnat (by omega) (hargument (by omega) hzero laws.tan_zero)
    · cases h
  · split at h
    · next hzero =>
      cases h
      exact hnat (by omega) (hargument (by omega) hzero laws.cos_zero)
    · cases h
  · cases h

/-- An odd function of a negation is the negation of the function. -/
theorem gives_oddCall (hf : f.isLogarithm = false)
    (hodd : ∀ u, P u → P (Arith.normalize (Arith.apply f u)) →
      Arith.normalize (Arith.apply f (Arith.normalize (-u))) =
        Arith.normalize (-Arith.normalize (Arith.apply f u)))
    (ha : Gives P x vars mode (neg a) v) (hr : P (Arith.normalize (Arith.apply f v))) :
    Gives P x vars mode (neg (call f a p)) (Arith.normalize (Arith.apply f v)) := by
  obtain ⟨u, hu, hv⟩ := gives_of_neg ha
  have hneg := hodd v ha.holds hr
  rw [hv, laws.neg_neg hu.holds, ← hv] at hneg
  have hcall : Gives P x vars mode (call f a p) (Arith.normalize (Arith.apply f u)) :=
    gives_call hu (evalCall_of_not_isLogarithm hf) (hneg ▸ laws.neg hr)
  have h := gives_neg laws.toOperatorLawsOn hcall
  rwa [hneg, laws.neg_neg hr] at h

theorem gives_signedCall (ha : Gives P x vars mode a v) (hcall : evalCall f v p mode = .ok r)
    (hr : P r) : Gives P x vars mode (signedCall f a p) r := by
  obtain rfl := evalCall_eq_ok hcall
  unfold signedCall
  split
  · exact gives_oddCall laws rfl (fun _ => laws.sin_neg) ha hr
  · exact gives_oddCall laws rfl (fun _ => laws.tan_neg) ha hr
  · obtain ⟨u, hu, hv⟩ := gives_of_neg ha
    have heven := laws.cos_neg ha.holds hr
    rw [hv, laws.neg_neg hu.holds, ← hv] at heven
    rw [← heven] at hr ⊢
    exact gives_call hu (evalCall_of_not_isLogarithm rfl) hr
  · exact gives_call ha hcall hr

/-- Applying a function to a simplified tree gives the value of the function, if the logarithm of
Euler's number is one. -/
theorem gives_application (ha : Gives P x vars mode a v)
    (he : a.isEuler = true → f.isNaturalLog = true →
      Arith.normalize (Arith.apply f v) = Arith.ofNat 1)
    (hcall : evalCall f v p mode = .ok r) (hr : P r) :
    Gives P x vars mode (application f a p) r := by
  unfold application
  cases hk : knownValue? f a with
  | some c =>
    rw [evalCall_eq_ok hcall]
    exact gives_knownValue? laws ha he hk
  | none => exact gives_foldCall? ha hcall hr (gives_signedCall laws ha hcall hr)

end Functions

end Formulary.Expr

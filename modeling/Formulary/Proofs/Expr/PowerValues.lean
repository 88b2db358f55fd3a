import Formulary.Proofs.Expr.RuleValues

/-!
# The value of what the rules for powers make

A power of zero is simplified to zero unless the exponent is a number outside the right half plane.
That is right for every exponent but one: the power of zero to the exponent zero is one. So the
statements ask that an exponent of zero is not one of those that have the value zero without being a
number. All other rules keep the value.

* `SafeExponent a b w`: if the base `a` is zero and the exponent `b` is no number, its value `w` is
  not zero.
* `isNaturalLog`: the exponents that a power of Euler's number undoes.
* `gives_signedPower`, `gives_inversePower`, `gives_powerUnsigned`: powers whose exponent is no
  negative number.
* **`gives_power`**: all powers.
-/

namespace Formulary.Expr

universe u

variable {K : Type u} [Arith K]

/-- The exponent of a base that is the number zero is itself a number, or its value is not zero. -/
def SafeExponent (a b : Expr K) (w : K) : Prop :=
  (a == nat 0) = true → b.isNumber = false → Arith.isZero w = false

/-- The tree is a natural logarithm. -/
def isNaturalLog : Expr K → Bool
  | call f _ _ => f.isNaturalLog
  | _ => false

section Rules

variable {P : K → Prop} {euler : K} (laws : OperatorLawsOn P) (powers : PowerLawsOn P euler)
  {x v w : K} {vars : Vars K} {mode : EvalMode} {a b : Expr K} {p : Position}

include laws powers

/-- The exponents with which a zero base is simplified to zero are not zero. -/
theorem isZero_of_isZeroPower (hsafe : SafeExponent a b w) (hb : Gives P x vars mode b w)
    (h : isZeroPower a b = true) : Arith.isZero w = false := by
  obtain ⟨hbase, hall⟩ := Bool.and_eq_true_iff.1 h
  cases b with
  | number u =>
    cases hb.eval
    have hright : Arith.isRight w = true := hall
    rw [Bool.eq_false_iff]
    intro hzero
    have hw : w = Arith.ofNat 0 := eq_of_beq_nat laws (by omega) hzero hb
    rw [hw, powers.isRight_zero] at hright
    exact Bool.false_ne_true hright
  | _ => exact hsafe hbase rfl

theorem gives_signedPower (ha : Gives P x vars mode a v) (hb : Gives P x vars mode b w)
    (hr : P (Arith.normalize (Arith.pow v w))) :
    Gives P x vars mode (signedPower a b p) (Arith.normalize (Arith.pow v w)) := by
  have hpow {c : Expr K} {u : K} (hc : Gives P x vars mode c u)
      (hu : P (Arith.normalize (Arith.pow u w))) :
      Gives P x vars mode (binary .pow c b p) (Arith.normalize (Arith.pow u w)) :=
    gives_binary .pow hc hb (allowed_of_ne (by decide)) hu
  unfold signedPower
  split
  · next c k hk =>
    obtain ⟨u, hu, hv⟩ := gives_of_neg ha
    have hopposite : Arith.normalize (-v) = u := by rw [hv, laws.neg_neg hu.holds]
    have hk : Arith.integer? w = some k := by
      cases b with
      | number e =>
        cases hb.eval
        exact hk
      | _ => cases hk
    split
    · next heven =>
      have hsame := powers.pow_even ha.holds hb.holds hk heven hr
      rw [hopposite] at hsame
      rw [← hsame] at hr ⊢
      exact hpow hu hr
    · next hodd =>
      have hneg := powers.pow_odd ha.holds hb.holds hk hodd hr
      rw [hopposite] at hneg
      have h := gives_neg laws (hpow hu (hneg ▸ laws.neg hr))
      rwa [hneg, laws.neg_neg hr] at h
  · exact hpow ha hr

/-- What is left when an exponent undoes a logarithm. -/
theorem gives_inversePower (he : a.isEuler = true → b.isNaturalLog = true → v = euler)
    (ha : Gives P x vars mode a v) (hb : Gives P x vars mode b w)
    (hr : P (Arith.normalize (Arith.pow v w))) :
    Gives P x vars mode (inversePower a b p) (Arith.normalize (Arith.pow v w)) := by
  have hsigned := gives_signedPower (p := p) laws powers ha hb hr
  have hlog {f : Builtin} {c : Expr K} {q : Position} (hf : f.isNaturalLog = true)
      (hv : v = euler) (hb : Gives P x vars mode (call f c q) w) :
      Gives P x vars mode c (Arith.normalize (Arith.pow v w)) := by
    obtain ⟨u, hu, hcall⟩ := gives_of_call hb
    obtain rfl := evalCall_eq_ok hcall
    rw [hv, powers.euler_pow_log hf hu.holds hb.holds]
    exact hu
  unfold inversePower
  split
  · next c q =>
    split
    · next hten =>
      obtain ⟨u, hu, hcall⟩ := gives_of_call hb
      obtain rfl := evalCall_eq_ok hcall
      rw [eq_of_beq_nat laws (by omega) hten ha, powers.ten_pow_log10 hu.holds hb.holds]
      exact hu
    · exact hsigned
  · split
    · next hname => exact hlog rfl (he hname rfl) hb
    · exact hsigned
  · split
    · next hname => exact hlog rfl (he hname rfl) hb
    · exact hsigned
  · exact hsigned

/-- The rules that all powers share, whatever is done in the last case. -/
theorem gives_powerRules {d : Expr K} (ha : Gives P x vars mode a v)
    (hb : Gives P x vars mode b w) (hsafe : SafeExponent a b w)
    (hr : P (Arith.normalize (Arith.pow v w)))
    (hd : Gives P x vars mode d (Arith.normalize (Arith.pow v w))) :
    Gives P x vars mode
      ((foldNumbers? .pow a b).getD
        (if isZeroPower a b then nat 0
        else if a == nat 1 || b == nat 0 then nat 1
        else if b == nat 1 then a
        else d))
      (Arith.normalize (Arith.pow v w)) := by
  refine gives_foldNumbers? .pow ha hb hr ?_
  show Gives P x vars mode _ (Arith.normalize (Arith.pow v w))
  split
  · next h =>
    have hw := isZero_of_isZeroPower laws powers hsafe hb h
    have hv := eq_of_beq_nat laws (by omega) (Bool.and_eq_true_iff.1 h).1 ha
    rw [hv] at hr ⊢
    rw [powers.zero_pow hb.holds hw hr]
    exact gives_nat laws (by omega)
  · split
    · next h =>
      have hone : Arith.normalize (Arith.pow v w) = Arith.ofNat 1 := by
        rcases Bool.or_eq_true_iff.1 h with h | h
        · rw [eq_of_beq_nat laws (by omega) h ha, powers.one_pow hb.holds]
        · rw [eq_of_beq_nat laws (by omega) h hb, powers.pow_zero ha.holds]
      rw [hone]
      exact gives_nat laws (by omega)
    · split
      · next h =>
        rw [eq_of_beq_nat laws (by omega) h hb, powers.pow_one ha.holds]
        exact ha
      · exact hd

theorem gives_powerUnsigned (he : a.isEuler = true → b.isNaturalLog = true → v = euler)
    (ha : Gives P x vars mode a v) (hb : Gives P x vars mode b w) (hsafe : SafeExponent a b w)
    (hr : P (Arith.normalize (Arith.pow v w))) :
    Gives P x vars mode (powerUnsigned a b p) (Arith.normalize (Arith.pow v w)) :=
  gives_powerRules laws powers ha hb hsafe hr (gives_inversePower laws powers he ha hb hr)

/-- The power of two simplified trees has the value of the power, if the name of Euler's number
means that number where it is the base of a natural logarithm. -/
theorem gives_power (he : a.isEuler = true → b.isNaturalLog = true → v = euler)
    (ha : Gives P x vars mode a v) (hb : Gives P x vars mode b w) (hsafe : SafeExponent a b w)
    (hr : P (Arith.normalize (Arith.pow v w))) :
    Gives P x vars mode (power a b p) (Arith.normalize (Arith.pow v w)) := by
  refine gives_powerRules laws powers ha hb hsafe hr ?_
  split
  · next h =>
    -- a negative number as exponent: the reciprocal of the power without the sign
    obtain ⟨hnum, hneg⟩ := Bool.and_eq_true_iff.1 h
    cases b with
    | number e =>
      cases hb.eval
      obtain ⟨hP, hzero, hpow⟩ := powers.pow_negative ha.holds hb.holds hneg hr
      have hunsigned : Gives P x vars mode (powerUnsigned a (number w).negated p)
          (Arith.normalize (Arith.pow v (Arith.normalize (-w)))) :=
        gives_powerUnsigned laws powers (fun _ hlog => absurd hlog Bool.false_ne_true) ha
          (gives_negated laws hb) (fun _ hnot => absurd hnot.symm Bool.false_ne_true) hP
      rw [← hpow] at hr ⊢
      exact gives_quotient laws (gives_nat laws (by omega)) hunsigned hzero hr
    | _ => exact absurd hnum Bool.false_ne_true
  · exact gives_inversePower laws powers he ha hb hr

end Rules

end Formulary.Expr

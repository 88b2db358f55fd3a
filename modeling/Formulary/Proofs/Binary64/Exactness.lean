import Formulary.Proofs.Binary64.Symmetry

/-!
# Operations that are not rounded

A double that is multiplied or divided by one fits its format already, so nothing is rounded. The sum
of a number with itself is rounded like the product with two, for rounding does not see how a number
is written.

* `roundWithAccuracy_mul_two_pow`: zeros behind a mantissa do not count.
* `roundWithAccuracy_of_canonical`: the mantissa of a double is rounded to itself.
* `mul_one_eq`, `div_one_eq`, `add_self_eq`: these operations at finite numbers.
* `view_mul_one`, `view_div_one`, `view_add_self`: the same for all doubles.
* `alike_mul_zero`, `alike_sub_self`: what gives zero. `Alike.mul_self_eq`: squares.
-/

namespace Formulary.Binary64

open Float.Model Float.Model.UnpackedFloat

variable {s : Sign} {m : Nat} {e : Int}

/-! ### Rounding -/

theorem shiftRight_add (em : ExtendedMantissa) (j k : Nat) : em >>> (j + k) = (em >>> j) >>> k := by
  induction k with
  | zero => rfl
  | succ k ih => exact congrArg ExtendedMantissa.shiftRightOne ih

/-- Zeros behind a mantissa are shifted out first. -/
theorem shiftToTargetExponent_mul_two_pow (hm : 0 < m)
    (he : e ≤ max ((m.log2 : Int) + e - 52) (-1074)) (k : Nat) :
    shiftToTargetExponent Format.binary64 (m * 2 ^ k) (e - k) .exact =
      shiftToTargetExponent Format.binary64 m e .exact := by
  have hlog := log2_mul_two_pow hm k
  have hamount : (max ((m.log2 : Int) + e - 52) (-1074) - (e - k)).toNat =
      k + (max ((m.log2 : Int) + e - 52) (-1074) - e).toNat := by omega
  rw [shiftToTargetExponent_eq rfl he,
    shiftToTargetExponent_eq (t := max ((m.log2 : Int) + e - 52) (-1074)) (by omega) (by omega),
    hamount, shiftRight_add, shiftRight_mul_two_pow]

/-- Rounding does not see how a number is written, as long as bits are only dropped. -/
theorem roundWithAccuracy_mul_two_pow (hm : 0 < m)
    (he : e ≤ max ((m.log2 : Int) + e - 52) (-1074)) (k : Nat) :
    roundWithAccuracy Format.binary64 s (m * 2 ^ k) (e - k) .exact =
      roundWithAccuracy Format.binary64 s m e .exact := by
  unfold roundWithAccuracy
  rw [shiftToTargetExponent_mul_two_pow hm he]

theorem Canonical.target_eq (h : Canonical m e) (hm : 0 < m) :
    max ((m.log2 : Int) + e - 52) (-1074) = e := by
  have hleast := h.least_le
  have hlog : m.log2 < 53 := (Nat.log2_lt hm.ne').2 h.lt
  obtain hfull | rfl := h.full
  · have hfull : m.log2 = 52 := (Nat.log2_eq_iff hm.ne').2 ⟨hfull, h.lt⟩
    omega
  · omega

/-- The mantissa of a double is not rounded. -/
theorem roundWithAccuracy_of_canonical (h : Canonical m e) (hm : 0 < m) :
    roundWithAccuracy Format.binary64 s m e .exact = .finite s m e hm := by
  have hzero : (e - e).toNat = 0 := by omega
  have hshift : shiftToTargetExponent Format.binary64 m e .exact = (⟨m, false, false⟩, e) := by
    rw [shiftToTargetExponent_eq (h.target_eq hm) le_rfl, hzero]
    rfl
  have hrounded : (⟨m, false, false⟩ : ExtendedMantissa).roundedMantissa = m := rfl
  unfold roundWithAccuracy
  rw [hshift]
  dsimp only
  rw [hrounded, hshift]
  exact dif_neg hm.ne'

/-! ### Finite numbers -/

/-- One and two, unpacked. -/
def oneUnpacked : UnpackedFloat :=
  .finite .positive (2 ^ 52) (-52) (by decide)

def twoUnpacked : UnpackedFloat :=
  .finite .positive (2 ^ 52) (-51) (by decide)

theorem sign_mul_positive (s : Sign) : s * .positive = s := by
  cases s <;> rfl

theorem sign_div_positive (s : Sign) : s / .positive = s := by
  cases s <;> rfl

theorem mul_one_eq (h : Canonical m e) (hm : 0 < m) :
    (UnpackedFloat.finite s m e hm).mul Format.binary64 oneUnpacked = .finite s m e hm := by
  have hround := roundWithAccuracy_mul_two_pow (s := s) hm (h.target_eq hm).ge 52
  rw [roundWithAccuracy_of_canonical h hm] at hround
  rw [oneUnpacked, UnpackedFloat.mul, sign_mul_positive]
  exact hround

/-- One divides without remainder. -/
theorem divCore_one (h : Canonical m e) (hm : 0 < m) :
    ∃ k : Nat, divCore Format.binary64 m e (2 ^ 52) (-52) = (m * 2 ^ k, e - k, .exact) := by
  have htotal : totalExponent m e - totalExponent (2 ^ 52) (-52) = totalExponent m (e - 1) := by
    show (m.log2 : Int) + 1 + e - ((2 ^ 52 : Nat).log2 + 1 + -52) = (m.log2 : Int) + 1 + (e - 1)
    rw [Nat.log2_two_pow]
    omega
  have htarget := h.target_eq hm
  obtain ⟨k, hk⟩ : ∃ k : Nat, min (e - -52) (max ((m.log2 : Int) + (e - 1) - 52) (-1074)) = e - k :=
    ⟨(e - min (e - -52) (max ((m.log2 : Int) + (e - 1) - 52) (-1074))).toNat, by omega⟩
  have hamount : (e - -52 - (e - k)).toNat = k + 52 := by omega
  refine ⟨k, ?_⟩
  unfold divCore
  rw [htotal, targetExponent_eq, hk]
  dsimp only
  rw [hamount, Nat.shiftLeft_eq, pow_add, ← mul_assoc, Nat.mul_div_cancel _ (by decide),
    Nat.mul_mod_left]
  rfl

theorem div_one_eq (h : Canonical m e) (hm : 0 < m) :
    (UnpackedFloat.finite s m e hm).div Format.binary64 oneUnpacked = .finite s m e hm := by
  obtain ⟨k, hcore⟩ := divCore_one h hm
  rw [oneUnpacked, UnpackedFloat.div, hcore, sign_div_positive]
  exact (roundWithAccuracy_mul_two_pow hm (h.target_eq hm).ge k).trans
    (roundWithAccuracy_of_canonical h hm)

/-- The sum of a number with itself is rounded like twice the mantissa. -/
theorem add_self_round (h : Canonical m e) (hm : 0 < m) :
    (UnpackedFloat.finite s m e hm).add Format.binary64 (.finite s m e hm) =
      roundWithAccuracy Format.binary64 s (2 * m) e .exact := by
  have hlog : (2 * m).log2 = m.log2 + 1 := Nat.log2_two_mul hm.ne'
  have htarget := h.target_eq hm
  have hround {t : Sign} := round_eq (s := t) (m := 2 * m) (e := e) (by omega)
  have hsame : decreaseExponent m e (min e e) = (m, e) := by
    rw [min_self, decreaseExponent, Int.sub_self]
    exact congrArg (m, ·) (Int.sub_zero e)
  have hsum : s.apply (m : Int) + s.apply m = s.apply (2 * m : Nat) := by
    cases s with
    | positive => show (m : Int) + m = (2 * m : Nat); omega
    | negative => show -(m : Int) + -m = -(2 * m : Nat); omega
  rw [UnpackedFloat.add, hsame, min_self]
  dsimp only
  rw [hsum]
  unfold UnpackedFloat.normalize
  cases s with
  | positive =>
    have hpos : compare (Sign.positive.apply ((2 * m : Nat) : Int)) 0 = .gt :=
      Int.compare_eq_gt.2 (by show (0 : Int) < (2 * m : Nat); omega)
    rw [hpos]
    exact hround
  | negative =>
    have hneg : compare (Sign.negative.apply ((2 * m : Nat) : Int)) 0 = .lt :=
      Int.compare_eq_lt.2 (by show -((2 * m : Nat) : Int) < 0; omega)
    have hback : -Sign.negative.apply ((2 * m : Nat) : Int) = (2 * m : Nat) := Int.neg_neg _
    rw [hneg, hback]
    exact hround

theorem add_self_eq (h : Canonical m e) (hm : 0 < m) :
    (UnpackedFloat.finite s m e hm).add Format.binary64 (.finite s m e hm) =
      twoUnpacked.mul Format.binary64 (.finite s m e hm) := by
  have hlog : (2 * m).log2 = m.log2 + 1 := Nat.log2_two_mul hm.ne'
  have htarget := h.target_eq hm
  have hmantissa : 2 ^ 52 * m = 2 * m * 2 ^ 51 := by omega
  have hround := roundWithAccuracy_mul_two_pow (s := s) (m := 2 * m) (e := e) (by omega) (by omega) 51
  rw [add_self_round h hm, twoUnpacked, unpacked_mul_comm, UnpackedFloat.mul, sign_mul_positive,
    Nat.mul_comm m, hmantissa, ← hround]
  rfl

theorem unpacked_add_comm (u v : UnpackedFloat) :
    u.add Format.binary64 v = v.add Format.binary64 u := by
  cases u with
  | finite s m e hm =>
    cases v with
    | finite t m' e' hm' =>
      simp only [UnpackedFloat.add, Int.min_comm e e', Int.add_comm]
    | _ => rfl
  | notANumber => cases v <;> rfl
  | infinity s =>
    cases v with
    | infinity t => cases s <;> cases t <;> rfl
    | _ => rfl
  | zero s =>
    cases v with
    | zero t => cases s <;> cases t <;> rfl
    | _ => rfl

theorem alike_mul_zero {u : UnpackedFloat} (h : u.isFinite = true) (s : Sign) :
    Alike (u.mul Format.binary64 (.zero s)) (.zero .positive) := by
  cases u with
  | finite => exact .zero _ _
  | zero => exact .zero _ _
  | _ => exact absurd h Bool.false_ne_true

theorem alike_sub_self {u : UnpackedFloat} (h : u.isFinite = true) :
    Alike (u.sub Format.binary64 u) (.zero .positive) := by
  cases u with
  | finite s m e hm =>
    rw [UnpackedFloat.sub]
    dsimp only
    rw [Int.sub_self]
    exact .refl _
  | zero s => cases s <;> exact .refl _
  | _ => exact absurd h Bool.false_ne_true

theorem unpacked_neg_neg (u : UnpackedFloat) : u.neg.neg = u := by
  cases u with
  | notANumber => rfl
  | _ s => cases s <;> rfl

namespace Alike

variable {u v : UnpackedFloat}

theorem isFinite_eq (h : Alike u v) : u.isFinite = v.isFinite := by
  cases h with
  | refl => rfl
  | zero => rfl

/-- A square does not know the sign, not even that of a zero. -/
theorem mul_self_eq (h : Alike u v.neg) : u.mul Format.binary64 u = v.mul Format.binary64 v := by
  generalize hneg : v.neg = w at h
  cases h with
  | refl =>
    subst hneg
    rw [mul_neg_left, unpacked_mul_comm, mul_neg_left, unpacked_neg_neg]
  | zero s t =>
    cases v with
    | zero r => cases s <;> cases r <;> rfl
    | _ => cases hneg

end Alike

end Formulary.Binary64

namespace Formulary.Double

open RealArith Float.Model Float.Model.UnpackedFloat Binary64

/-! ### Doubles -/

/-- What a double stands for fits a double. -/
theorem stored_view (a : Double) : stored (view a) = view a := by
  cases a with
  | defined x => exact congrArg unpacked (packed_unpacked x)
  | undefined s => exact stored_notANumber

theorem canonical_of_view {a : Double} {s : Sign} {m : Nat} {e : Int} {hm : 0 < m}
    (h : view a = .finite s m e hm) : Canonical m e := by
  cases a with
  | defined x => exact canonical_of_unpacked h
  | undefined t => cases h

theorem view_one : view 1 = oneUnpacked :=
  rfl

theorem view_two : view 2 = twoUnpacked :=
  rfl

theorem view_mul_one (a : Double) : view (a * 1) = view a := by
  have hexact : (view a).mul Format.binary64 oneUnpacked = view a := by
    cases h : view a with
    | finite s m e hm => exact mul_one_eq (canonical_of_view h) hm
    | infinity s => exact congrArg UnpackedFloat.infinity (sign_mul_positive s)
    | zero s => exact congrArg UnpackedFloat.zero (sign_mul_positive s)
    | notANumber => rfl
  rw [view_mul, view_one, hexact, stored_view]

theorem view_div_one (a : Double) : view (a / 1) = view a := by
  have hexact : (view a).div Format.binary64 oneUnpacked = view a := by
    cases h : view a with
    | finite s m e hm => exact div_one_eq (canonical_of_view h) hm
    | infinity s => exact congrArg UnpackedFloat.infinity (sign_div_positive s)
    | zero s => exact congrArg UnpackedFloat.zero (sign_div_positive s)
    | notANumber => rfl
  rw [view_div, view_one, hexact, stored_view]

theorem view_add_self (a : Double) : view (a + a) = view (2 * a) := by
  have hsame : (view a).add Format.binary64 (view a) = twoUnpacked.mul Format.binary64 (view a) := by
    cases h : view a with
    | finite s m e hm => exact add_self_eq (canonical_of_view h) hm
    | infinity s => cases s <;> rfl
    | zero s => cases s <;> rfl
    | notANumber => rfl
  rw [view_add, view_mul, view_two, hsame]

end Formulary.Double

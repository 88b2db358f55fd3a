import Formulary.Proofs.Binary64.Defined
import Formulary.Proofs.Binary64.Whole

/-!
# Doubles of decimals that are not too great

A number is rounded to a finite double as long as it lies below the middle between the greatest
double and the power of two after it. Only a number from there on is rounded up to that power.

* `overflowBound`: this middle.
* `isStorable`: the exponent of an unpacked number is that of a finite double.
* `isStorable_roundWithAccuracy`: numbers below the middle are rounded to such ones.
* `Decimal.Below d bound`: the decimal is less than a natural number.
* **`isFinite_ofDecimal`**: a decimal below the middle is rounded to a finite double.
-/

namespace Formulary

/-- The decimal is less than a natural number. -/
def Decimal.Below (d : Decimal) (bound : Nat) : Prop :=
  d.digits * 10 ^ d.exponent.toNat < bound * 10 ^ (-d.exponent).toNat

end Formulary

namespace Formulary.Binary64

open Float.Model Float.Model.UnpackedFloat

/-- The middle between the greatest double and the power of two after it. -/
@[irreducible] def overflowBound : Nat :=
  (2 ^ 54 - 1) * 2 ^ 970

/-- The exponent is that of a finite double, if it is not too small. -/
def isStorable : UnpackedFloat → Bool
  | .zero _ => true
  | .finite _ _ e _ => decide (e ≤ 971)
  | .notANumber | .infinity _ => false

/-! ### Packing -/

/-- Only the greatest exponent marks numbers that are not finite. -/
theorem isFinite_unpack_packComponents {s : Sign} {e : BitVec 11} {m : BitVec 52}
    (h : e ≠ -1#11) :
    (UnpackedFloat.unpack Format.binary64 (packComponents Format.binary64 s e m)).isFinite
      = true := by
  unfold UnpackedFloat.unpack
  simp only [unpackMantissa_packComponents, unpackExponent_packComponents]
  rw [if_neg h]
  split
  · split <;> rfl
  · rfl

theorem isFinite_unpacked_packed {u : UnpackedFloat} (h : isStorable u = true) :
    (unpacked (packed u)).isFinite = true := by
  rw [unpacked_packed]
  cases u with
  | notANumber => cases h
  | infinity s => cases h
  | zero s => exact isFinite_unpack_packComponents (by decide)
  | finite s m e hm =>
    have he : e ≤ 971 := of_decide_eq_true h
    obtain ⟨hgt, -⟩ | ⟨e', m', he', hpack⟩ := pack_finite (e := e) hm
    · omega
    · rw [hpack]
      exact isFinite_unpack_packComponents he'

/-! ### Rounding -/

theorem shiftToTargetExponent_def (m : Nat) (e : Int) (acc : Accuracy) :
    shiftToTargetExponent Format.binary64 m e acc =
      (ExtendedMantissa.ofMantissaAndAccuracy m acc >>>
        (max ((m.log2 : Int) + e - 52) (-1074) - e).toNat,
      e + (max ((m.log2 : Int) + e - 52) (-1074) - e).toNat) := by
  unfold shiftToTargetExponent
  rw [targetExponent_eq]
  rfl

theorem mantissa_ofMantissaAndAccuracy (m : Nat) (acc : Accuracy) :
    (ExtendedMantissa.ofMantissaAndAccuracy m acc).mantissa = m := by
  cases acc with
  | exact => rfl
  | inexact o => cases o <;> rfl

/-- Below the half, nothing is added. -/
theorem roundedMantissa_of_roundBit {em : ExtendedMantissa} (h : em.roundBit = false) :
    em.roundedMantissa = em.mantissa := by
  obtain ⟨m, r, s⟩ := em
  obtain rfl : r = false := h
  cases s <;> rfl

/-- With the greatest exponent, a mantissa below the middle is not rounded up to one bit more. -/
theorem roundedMantissa_lt {em : ExtendedMantissa} {j : Nat}
    (h : em.mantissa < (2 ^ 54 - 1) * 2 ^ j) : (em >>> (j + 1)).roundedMantissa < 2 ^ 53 := by
  have hhalf : (em >>> j).mantissa < 2 ^ 54 - 1 := by
    rw [shiftRight_mantissa]
    exact Nat.div_lt_of_lt_mul (by rwa [Nat.mul_comm])
  have hmantissa : (em >>> (j + 1)).mantissa = (em >>> j).mantissa / 2 := rfl
  have hbit : (em >>> (j + 1)).roundBit = ((em >>> j).mantissa % 2 != 0) := rfl
  by_cases heven : (em >>> j).mantissa % 2 = 0
  · rw [heven] at hbit
    rw [roundedMantissa_of_roundBit hbit]
    omega
  · have hle := (roundedMantissa_bounds (em >>> (j + 1))).2
    omega

/-- A number below the middle is rounded to one with the exponent of a finite double. -/
theorem isStorable_roundWithAccuracy {s : Sign} {m : Nat} {e : Int} {acc : Accuracy}
    (he : e ≤ 970) (h : m < (2 ^ 54 - 1) * 2 ^ (970 - e).toNat) :
    isStorable (roundWithAccuracy Format.binary64 s m e acc) = true := by
  have hlog : (m.log2 : Int) + e ≤ 1023 := by
    by_cases hm : m = 0
    · rw [hm, Nat.log2_zero]
      omega
    · have hlt : m < 2 ^ (54 + (970 - e).toNat) :=
        calc m < (2 ^ 54 - 1) * 2 ^ (970 - e).toNat := h
          _ ≤ 2 ^ 54 * 2 ^ (970 - e).toNat := Nat.mul_le_mul_right _ (by decide)
          _ = 2 ^ (54 + (970 - e).toNat) := (pow_add 2 54 _).symm
      have hlog := (Nat.log2_lt hm).2 hlt
      omega
  obtain ⟨k, hk⟩ : ∃ k, k = (max ((m.log2 : Int) + e - 52) (-1074) - e).toNat := ⟨_, rfl⟩
  obtain ⟨em, hem⟩ : ∃ em, em = ExtendedMantissa.ofMantissaAndAccuracy m acc := ⟨_, rfl⟩
  have hmantissa : em.mantissa = m := hem ▸ mantissa_ofMantissaAndAccuracy m acc
  -- the rounded mantissa has one bit more than fits at most, and fits with the greatest exponent
  have hround : (em >>> k).roundedMantissa ≤ 2 ^ 53 := by
    have hlt : m / 2 ^ k < 2 ^ 53 := by
      rw [Nat.div_lt_iff_lt_mul (by positivity), ← pow_add]
      exact lt_of_lt_of_le Nat.lt_log2_self (Nat.pow_le_pow_right (by decide) (by omega))
    have hle := (roundedMantissa_bounds (em >>> k)).2
    rw [shiftRight_mantissa, hmantissa] at hle
    omega
  have hlast : e + (k : Int) = 971 → (em >>> k).roundedMantissa < 2 ^ 53 := by
    intro hlast
    have hk' : k = (970 - e).toNat + 1 := by omega
    rw [hk']
    exact roundedMantissa_lt (hmantissa ▸ h)
  obtain ⟨r, hr⟩ : ∃ r, r = (em >>> k).roundedMantissa := ⟨_, rfl⟩
  have hcarry : (r.log2 : Int) + (e + k) - 52 ≤ 971 := by
    rw [← hr] at hround hlast
    by_cases hzero : r = 0
    · rw [hzero, Nat.log2_zero]
      omega
    · have hbits : r.log2 < 54 := (Nat.log2_lt hzero).2 (by omega)
      by_cases hk' : e + (k : Int) = 971
      · have hbits := (Nat.log2_lt hzero).2 (hlast hk')
        omega
      · omega
  unfold roundWithAccuracy
  rw [shiftToTargetExponent_def, ← hk, ← hem]
  dsimp only
  rw [← hr, shiftToTargetExponent_def]
  dsimp only
  split
  · rfl
  · refine decide_eq_true ?_
    omega

theorem isStorable_mul {s s' : Sign} {m m' : Nat} {e e' : Int} {hm : 0 < m} {hm' : 0 < m'}
    (he : e + e' ≤ 970) (h : m * m' < (2 ^ 54 - 1) * 2 ^ (970 - (e + e')).toNat) :
    isStorable (UnpackedFloat.mul Format.binary64 (.finite s m e hm) (.finite s' m' e' hm'))
      = true :=
  isStorable_roundWithAccuracy he h

theorem isStorable_div {s s' : Sign} {m m' : Nat} {e e' : Int} {hm : 0 < m} {hm' : 0 < m'}
    (he : e - e' ≤ 970) (h : m < (2 ^ 54 - 1) * 2 ^ (970 - (e - e')).toNat * m') :
    isStorable (UnpackedFloat.div Format.binary64 (.finite s m e hm) (.finite s' m' e' hm'))
      = true := by
  show isStorable (roundWithAccuracy Format.binary64 (s / s') _ _ _) = true
  generalize Format.binary64.targetExponent _ = t
  refine isStorable_roundWithAccuracy (by omega) ?_
  have hshift : (970 - min (e - e') t).toNat =
      (970 - (e - e')).toNat + (e - e' - min (e - e') t).toNat := by omega
  rw [Nat.div_lt_iff_lt_mul hm', Nat.shiftLeft_eq, hshift, pow_add]
  calc m * 2 ^ (e - e' - min (e - e') t).toNat
      < (2 ^ 54 - 1) * 2 ^ (970 - (e - e')).toNat * m' * 2 ^ (e - e' - min (e - e') t).toNat :=
        Nat.mul_lt_mul_of_pos_right h (by positivity)
    _ = _ := by ring

/-! ### Small numbers -/

/-- The number is zero, or its mantissa fits and its exponent is near zero. -/
def isModest : UnpackedFloat → Bool
  | .zero _ => true
  | .finite _ m e _ => decide (m < 2 ^ 53) && decide (-52 ≤ e) && decide (e ≤ 52)
  | .notANumber | .infinity _ => false

theorem cases_of_isModest {u : UnpackedFloat} (h : isModest u = true) :
    (∃ s, u = .zero s) ∨
      ∃ s m e hm, u = .finite s m e hm ∧ m < 2 ^ 53 ∧ -52 ≤ e ∧ e ≤ 52 := by
  cases u with
  | notANumber => cases h
  | infinity s => cases h
  | zero s => exact .inl ⟨s, rfl⟩
  | finite s m e hm =>
    obtain ⟨h, he'⟩ := Bool.and_eq_true_iff.1 h
    obtain ⟨hm', he⟩ := Bool.and_eq_true_iff.1 h
    exact .inr ⟨s, m, e, hm, rfl, of_decide_eq_true hm', of_decide_eq_true he,
      of_decide_eq_true he'⟩

theorem isModest_powersOfTen : ∀ e : Fin 23,
    isModest (unpacked (Float.exactlyRepresentablePowersOfTen[e])) = true := by
  decide +kernel

theorem isStorable_mul_of_isModest {u v : UnpackedFloat} (hu : isModest u = true)
    (hv : isModest v = true) : isStorable (u.mul Format.binary64 v) = true := by
  obtain ⟨s, rfl⟩ | ⟨s, m, e, hm, rfl, hlt, -, he⟩ := cases_of_isModest hu
  · obtain ⟨s', rfl⟩ | ⟨s', m', e', hm', rfl, -⟩ := cases_of_isModest hv <;> rfl
  · obtain ⟨s', rfl⟩ | ⟨s', m', e', hm', rfl, hlt', -, he'⟩ := cases_of_isModest hv
    · rfl
    · refine isStorable_mul (by omega) ?_
      calc m * m' < 2 ^ 53 * 2 ^ 53 := Nat.mul_lt_mul'' hlt hlt'
        _ ≤ (2 ^ 54 - 1) * 2 ^ 53 := by decide
        _ ≤ (2 ^ 54 - 1) * 2 ^ (970 - (e + e')).toNat :=
          Nat.mul_le_mul_left _ (Nat.pow_le_pow_right (by decide) (by omega))

theorem isStorable_div_of_isModest {u v : UnpackedFloat} (hu : isModest u = true)
    (hv : isModest v = true) (hproper : isProper v = true) :
    isStorable (u.div Format.binary64 v) = true := by
  obtain ⟨s', rfl⟩ | ⟨s', m', e', hm', rfl, -, he', -⟩ := cases_of_isModest hv
  · cases hproper
  · obtain ⟨s, rfl⟩ | ⟨s, m, e, hm, rfl, hlt, -, he⟩ := cases_of_isModest hu
    · rfl
    · refine isStorable_div (by omega) ?_
      calc m < 2 ^ 54 - 1 := by omega
        _ ≤ (2 ^ 54 - 1) * 2 ^ (970 - (e - e')).toNat :=
          Nat.le_mul_of_pos_right _ (by positivity)
        _ ≤ (2 ^ 54 - 1) * 2 ^ (970 - (e - e')).toNat * m' := Nat.le_mul_of_pos_right _ hm'

/-- A natural number that fits the mantissa is rounded to a mantissa that fills it. -/
theorem round_natCast {n : Nat} (hn : 0 < n) (h : n.log2 ≤ 52) :
    ∃ m h, UnpackedFloat.round Format.binary64 .positive n 0 =
      .finite .positive m ((n.log2 : Int) - 52) h ∧ 2 ^ 52 ≤ m ∧ m < 2 ^ 53 := by
  obtain ⟨hlow, hhigh⟩ := normal_bounds hn h
  have hexact : (⟨n * 2 ^ (52 - n.log2), false, false⟩ : ExtendedMantissa).roundedMantissa =
      n * 2 ^ (52 - n.log2) := rfl
  have hshift : shiftToTargetExponent Format.binary64 (n * 2 ^ (52 - n.log2)) ((n.log2 : Int) - 52)
      .exact = (⟨n * 2 ^ (52 - n.log2), false, false⟩, (n.log2 : Int) - 52) := by
    have hlog := log2_mul_two_pow hn (52 - n.log2)
    rw [shiftToTargetExponent_eq (t := (n.log2 : Int) - 52) (by omega) le_rfl, sub_self]
    rfl
  refine ⟨n * 2 ^ (52 - n.log2), by positivity, ?_, hlow, hhigh⟩
  have hmax : max ((n.log2 : Int) + 0 - 52) (-1074) = (n.log2 : Int) - 52 := by omega
  have hamount : (0 - ((n.log2 : Int) - 52)).toNat = 52 - n.log2 := by omega
  have hexponent : (0 : Int) - ((52 - n.log2 : Nat) : Int) = (n.log2 : Int) - 52 := by omega
  unfold UnpackedFloat.round decreaseExponent
  rw [targetExponent_eq, hmax]
  dsimp only
  rw [hamount, hexponent, Nat.shiftLeft_eq,
    roundWithAccuracy_eq hshift (by omega) (hexact ▸ hlow) (hexact ▸ hhigh.le)]
  exact if_pos hhigh

/-- The double of a natural number that fits the mantissa. -/
theorem isModest_toFloat {n : Nat} (h : n < 2 ^ 53) :
    isModest (unpacked n.toUInt64.toFloat) = true := by
  have hword : n.toUInt64.toNat = n := by
    rw [Nat.toUInt64_eq, UInt64.toNat_ofNat']
    omega
  have hdouble : unpacked n.toUInt64.toFloat =
      unpacked (packed (UnpackedFloat.ofNat Format.binary64 n.toUInt64.toNat)) := rfl
  rw [hdouble, hword]
  obtain rfl | hn := n.eq_zero_or_pos
  · decide +kernel
  · have hlog : n.log2 ≤ 52 := Nat.le_of_lt_succ ((Nat.log2_lt hn.ne').2 h)
    have hpos : compare (n : Int) 0 = .gt := by
      rw [Int.compare_eq_gt]
      omega
    obtain ⟨m, hm, hround, hlow, hhigh⟩ := round_natCast hn hlog
    unfold UnpackedFloat.ofNat UnpackedFloat.ofInt UnpackedFloat.normalize
    rw [hpos]
    dsimp only
    rw [Int.toNat_natCast, hround,
      unpacked_packed_of_normal hm hlow hhigh (by omega) (by omega)]
    refine Bool.and_eq_true_iff.2 ⟨Bool.and_eq_true_iff.2 ⟨?_, ?_⟩, ?_⟩
    · exact decide_eq_true hhigh
    · exact decide_eq_true (by omega)
    · exact decide_eq_true (by omega)

/-! ### Decimals -/

theorem isStorable_ofScientific {m n : Nat} (h : m < overflowBound * 10 ^ n) :
    isStorable (UnpackedFloat.ofScientific Format.binary64 m (-n)) = true := by
  unfold UnpackedFloat.ofScientific
  split
  · rfl
  · split
    · next hgt =>
      change (2 : Int) ^ 11 < -(n : Int) at hgt
      omega
    · split
      · rfl
      · split
        · next hnonneg =>
          obtain rfl : n = 0 := by omega
          have hexponent :
              (970 - (-(Format.binary64.mantissaBits : Int) + 0)).toNat = 970 + 53 := by decide
          rw [pow_zero, mul_one] at h
          refine isStorable_mul (by decide) ?_
          show m <<< 53 * 10 ^ 0 < _
          rw [pow_zero, mul_one, Nat.shiftLeft_eq]
          refine lt_of_lt_of_eq (Nat.mul_lt_mul_of_pos_right h (by decide)) ?_
          unfold overflowBound
          rw [mul_assoc, ← pow_add, hexponent]
        · refine isStorable_div (by decide) ?_
          have hexponent : (970 - ((0 : Int) - 0)).toNat = 970 := by decide
          rw [Int.neg_neg, Int.toNat_natCast, hexponent]
          unfold overflowBound at h
          exact h

theorem isFinite_float_ofScientific {m n : Nat} {s : Bool} (hs : s = true ∨ n = 0)
    (h : m < overflowBound * 10 ^ n) : (unpacked (Float.ofScientific m s n)).isFinite = true := by
  unfold Float.ofScientific
  split
  · next hsmall =>
    have hten := isModest_powersOfTen ⟨n, Nat.lt_succ_of_le hsmall.2⟩
    have hproper := isProper_powersOfTen ⟨n, Nat.lt_succ_of_le hsmall.2⟩
    have hm := isModest_toFloat hsmall.1
    dsimp only
    split
    · exact isFinite_unpacked_packed (isStorable_div_of_isModest hm hten hproper)
    · exact isFinite_unpacked_packed (isStorable_mul_of_isModest hm hten)
  · have hexponent : (if s then Int.negOfNat n else Int.ofNat n) = -(n : Int) := by
      rcases hs with rfl | rfl
      · exact Int.negOfNat_eq
      · cases s <;> rfl
    dsimp only
    rw [hexponent]
    exact isFinite_unpacked_packed (isStorable_ofScientific h)

/-- A decimal of moderate size has few digits before the point. -/
theorem digitCount_le {m n : Nat} (h : m < overflowBound * 10 ^ n) : digitCount m ≤ 309 + n := by
  unfold digitCount
  rw [Nat.length_toDigits_le_iff (by decide) (by omega), pow_add]
  have hbound : overflowBound < 10 ^ 309 := by decide +kernel
  exact lt_trans h (Nat.mul_lt_mul_of_pos_right hbound (by positivity))

/-- A decimal without an exponent, or with a negative one, that is less than the middle is rounded
to a finite double. -/
theorem isFinite_ofDecimal {d : Decimal} (he : d.exponent ≤ 0) (h : d.Below overflowBound) :
    (unpacked (ofDecimal d)).isFinite = true := by
  obtain ⟨m, e⟩ := d
  obtain ⟨n, rfl⟩ : ∃ n : Nat, e = -(n : Int) := ⟨(-e).toNat, by
    change e ≤ 0 at he
    omega⟩
  have hlt : m < overflowBound * 10 ^ n := by
    unfold Decimal.Below at h
    dsimp only at h
    rwa [Int.neg_neg, Int.toNat_natCast, Int.toNat_neg_natCast, pow_zero, mul_one] at h
  have hsize := digitCount_le hlt
  unfold ofDecimal
  dsimp only
  split
  · decide +kernel
  · rw [if_neg (by omega)]
    cases n with
    | zero =>
      show (unpacked (Float.ofScientific m false 0)).isFinite = true
      exact isFinite_float_ofScientific (.inr rfl) hlt
    | succ n =>
      show (unpacked (Float.ofScientific m true (n + 1))).isFinite = true
      exact isFinite_float_ofScientific (.inl rfl) hlt

end Formulary.Binary64

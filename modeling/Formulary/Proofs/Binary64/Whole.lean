import Formulary.Proofs.Binary64.Sign

/-!
# Whole doubles

A double counts downwards through whole numbers: one less than a whole double is whole again. Where
the doubles lie further apart than one, the difference is rounded to one of them, and all of them
are whole.

* `scaledFloor`, `unpackedFloor?`, `floor?_eq`: the integer part of an unpacked number.
* `IsWhole u n`: the unpacked number is the natural number `n`.
* `isWhole_iff_floor`: it is the integer part of itself, and so is its negation.
* `round_of_small`, `round_of_great`: a positive natural number is rounded to one.
* **`exists_isWhole_sub_one`**: one less than a whole double that is not zero.
-/

namespace Formulary.Binary64

open Float.Model Float.Model.UnpackedFloat

/-! ### The integer part -/

/-- The greatest integer that is not above `m · 2 ^ e`. -/
def scaledFloor (m : Int) : Int → Int
  | .ofNat n => m <<< n
  | .negSucc n => m >>> (n + 1)

/-- The greatest integer that is not above an unpacked number. -/
def unpackedFloor? : UnpackedFloat → Option Int
  | .zero _ => some 0
  | .finite s m e _ => some (scaledFloor (s.apply m) e)
  | .infinity _ | .notANumber => none

theorem signed_eq_apply (s : Sign) (m : Nat) :
    (if isMinus s then -(m : Int) else m) = s.apply m := by
  cases s <;> rfl

theorem floor?_of_decode {x : Float} {negative : Bool} {m : Nat} {q : Int}
    (h : decode x = .finite negative m q) :
    floor? x = some (scaledFloor (if negative then -(m : Int) else m) q) := by
  unfold floor?
  rw [h]
  cases q <;> rfl

/-- The integer part of a double is that of its unpacked number. -/
theorem floor?_eq (x : Float) : floor? x = unpackedFloor? (unpacked x) := by
  have hdecode := decode_eq_partsOf x
  cases hx : unpacked x with
  | finite s m e hm =>
    rw [hx] at hdecode
    rw [floor?_of_decode hdecode, signed_eq_apply]
    rfl
  | zero s =>
    rw [hx] at hdecode
    rw [floor?_of_decode hdecode, signed_eq_apply]
    cases s <;> rfl
  | _ =>
    rw [hx] at hdecode
    unfold floor?
    rw [hdecode]
    rfl

theorem bounds_of_unpacked {x : Float} {s : Sign} {m : Nat} {e : Int} {hm : 0 < m}
    (h : unpacked x = .finite s m e hm) : m < 2 ^ 53 ∧ e ≤ 971 := by
  let w : BitVec Format.binary64.numBits := x.toBits.toBitVec
  have hmantissa : (unpackMantissa w).toNat < 2 ^ 52 := (unpackMantissa w).isLt
  have hexponent : (unpackExponent w).toNat < 2048 := (unpackExponent w).isLt
  change UnpackedFloat.unpack Format.binary64 w = _ at h
  unfold UnpackedFloat.unpack at h
  dsimp only at h
  split at h
  · split at h <;> cases h
  · next hne =>
    have hlt : (unpackExponent w).toNat ≠ 2047 := fun he => hne (BitVec.eq_of_toNat_eq he)
    have hbias : Format.binary64.exponentBias = 1023 := by decide
    split at h
    · next hzero =>
      split at h
      · cases h
      · cases h
        rw [hzero, hbias]
        refine ⟨by omega, by decide⟩
    · cases h
      rw [toNat_hidden_bit, hbias]
      show _ ∧ ((unpackExponent w).toNat : Int) - ((1023 : Nat) + (52 : Nat)) ≤ 971
      omega

/-! ### Natural numbers -/

/-- The unpacked number is the natural number `n`. -/
def IsWhole : UnpackedFloat → Nat → Prop
  | .zero _, n => n = 0
  | .finite .positive m e _, n => n * 2 ^ (-e).toNat = m * 2 ^ e.toNat
  | _, _ => False

theorem scaledFloor_neg {m : Nat} (hm : 0 < m) (e : Int) : scaledFloor (-m) e < 0 := by
  have hneg : -(m : Int) < 0 := by omega
  cases e with
  | ofNat k =>
    show (-(m : Int)) <<< k < 0
    rw [Int.shiftLeft_eq]
    exact Int.mul_neg_of_neg_of_pos hneg (by positivity)
  | negSucc k =>
    show (-(m : Int)) >>> (k + 1) < 0
    rw [Int.shiftRight_eq_div_pow]
    exact Int.ediv_neg_of_neg_of_pos hneg (by positivity)

theorem scaledFloor_eq_iff {m n : Nat} {e : Int} :
    scaledFloor m e = n ∧ scaledFloor (-m) e = -n ↔ n * 2 ^ (-e).toNat = m * 2 ^ e.toNat := by
  cases e with
  | ofNat k =>
    have hshift (i : Int) : scaledFloor i (.ofNat k) = i * 2 ^ k := Int.shiftLeft_eq i k
    have hexponent : (-(Int.ofNat k)).toNat = 0 := by simp
    rw [hshift, hshift, hexponent, pow_zero, mul_one]
    show _ ↔ n = m * 2 ^ k
    constructor
    · rintro ⟨h, -⟩
      exact_mod_cast h.symm
    · rintro rfl
      push_cast
      exact ⟨rfl, neg_mul _ _⟩
  | negSucc k =>
    have hpos : (0 : Int) < (2 ^ (k + 1) : Nat) := by positivity
    have hshift (i : Int) : scaledFloor i (.negSucc k) = i / (2 ^ (k + 1) : Nat) :=
      Int.shiftRight_eq_div_pow i (k + 1)
    have hexponent : (-(Int.negSucc k)).toNat = k + 1 := by simp
    rw [hshift, hshift, hexponent]
    show _ ↔ n * 2 ^ (k + 1) = m * 2 ^ 0
    rw [pow_zero, mul_one]
    constructor
    · rintro ⟨h, hneg⟩
      have hle := Int.ediv_mul_le m hpos.ne'
      have hle' := Int.ediv_mul_le (-m) hpos.ne'
      rw [h] at hle
      rw [hneg, neg_mul] at hle'
      exact_mod_cast le_antisymm hle (neg_le_neg_iff.1 hle')
    · rintro rfl
      rw [Nat.cast_mul, ← neg_mul]
      exact ⟨Int.mul_ediv_cancel _ hpos.ne', Int.mul_ediv_cancel _ hpos.ne'⟩

/-- A natural number is its own integer part, and so is its negation. -/
theorem isWhole_iff_floor {u : UnpackedFloat} {n : Nat} :
    (unpackedFloor? u = some (n : Int) ∧ unpackedFloor? u.neg = some (-n : Int)) ↔ IsWhole u n := by
  cases u with
  | notANumber => exact ⟨fun h => (by cases h.1), False.elim⟩
  | infinity s => exact ⟨fun h => (by cases h.1), fun h => (by cases s <;> exact h.elim)⟩
  | zero s =>
    show some (0 : Int) = some (n : Int) ∧ some (0 : Int) = some (-n : Int) ↔ n = 0
    simp only [Option.some.injEq]
    omega
  | finite s m e hm =>
    cases s with
    | positive =>
      show some (scaledFloor m e) = _ ∧ some (scaledFloor (-m) e) = _ ↔ _
      simp only [Option.some.injEq]
      exact scaledFloor_eq_iff
    | negative =>
      refine ⟨fun h => ?_, False.elim⟩
      have hneg := scaledFloor_neg hm e
      have hfloor : scaledFloor (-m) e = n := Option.some.inj h.1
      omega

theorem isFinite_of_isWhole {u : UnpackedFloat} {n : Nat} (h : IsWhole u n) :
    u.isFinite = true := by
  cases u with
  | notANumber => exact h.elim
  | infinity s => cases s <;> exact h.elim
  | _ => rfl

theorem not_lt_of_isWhole {u : UnpackedFloat} {n : Nat} (h : IsWhole u n) :
    u.lt (.zero .positive) = false := by
  cases u with
  | notANumber => rfl
  | infinity s => cases s <;> exact h.elim
  | zero s => rfl
  | finite s m e hm =>
    cases s with
    | positive => rfl
    | negative => exact h.elim

theorem beq_zero_of_isWhole {u : UnpackedFloat} (h : IsWhole u 0) :
    u.beq (.zero .positive) = true := by
  cases u with
  | notANumber => exact h.elim
  | infinity s => cases s <;> exact h.elim
  | zero s => rfl
  | finite s m e hm =>
    cases s with
    | positive =>
      have hpos : 0 < m * 2 ^ e.toNat := by positivity
      have heq : 0 * 2 ^ (-e).toNat = m * 2 ^ e.toNat := h
      omega
    | negative => exact h.elim

/-! ### Rounding -/

theorem shiftRight_mantissa (em : ExtendedMantissa) (k : Nat) :
    (em >>> k).mantissa = em.mantissa / 2 ^ k := by
  induction k with
  | zero => exact (Nat.div_one _).symm
  | succ k ih =>
    show (em >>> k).mantissa / 2 = _
    rw [ih, Nat.div_div_eq_div_mul, pow_succ]

/-- Nothing is lost where only zeros are shifted out. -/
theorem shiftRight_mul_two_pow (m k : Nat) :
    (⟨m * 2 ^ k, false, false⟩ : ExtendedMantissa) >>> k = ⟨m, false, false⟩ := by
  induction k generalizing m with
  | zero =>
    rw [pow_zero, mul_one]
    rfl
  | succ k ih =>
    show ((⟨m * 2 ^ (k + 1), false, false⟩ : ExtendedMantissa) >>> k).shiftRightOne = _
    rw [pow_succ', ← mul_assoc, ih]
    simp [ExtendedMantissa.shiftRightOne]

theorem roundedMantissa_bounds (em : ExtendedMantissa) :
    em.mantissa ≤ em.roundedMantissa ∧ em.roundedMantissa ≤ em.mantissa + 1 := by
  obtain ⟨m, r, s⟩ := em
  show m ≤ (ExtendedMantissa.mk m r s).accuracy.roundToNearestEven m ∧
    (ExtendedMantissa.mk m r s).accuracy.roundToNearestEven m ≤ m + 1
  cases r <;> cases s <;>
    simp only [ExtendedMantissa.accuracy, Accuracy.roundToNearestEven] <;> omega

theorem targetExponent_eq (m : Nat) (e : Int) :
    Format.binary64.targetExponent (totalExponent m e) = max ((m.log2 : Int) + e - 52) (-1074) := by
  show max ((m.log2 : Int) + 1 + e - 53) (-1074) = _
  omega

theorem shiftToTargetExponent_eq {m : Nat} {e t : Int}
    (ht : max ((m.log2 : Int) + e - 52) (-1074) = t) (he : e ≤ t) :
    shiftToTargetExponent Format.binary64 m e .exact =
      ((⟨m, false, false⟩ : ExtendedMantissa) >>> (t - e).toNat, t) := by
  unfold shiftToTargetExponent
  rw [targetExponent_eq, ht]
  show (_, e + ((t - e).toNat : Int)) = _
  rw [Int.toNat_of_nonneg (by omega), add_sub_cancel]
  rfl

/-- A mantissa that is rounded up to one bit more than fits moves the exponent by one. -/
theorem roundWithAccuracy_eq {s : Sign} {m : Nat} {e t : Int} {em : ExtendedMantissa}
    (hshift : shiftToTargetExponent Format.binary64 m e .exact = (em, t)) (ht : -1074 ≤ t)
    (hlow : 2 ^ 52 ≤ em.roundedMantissa) (hhigh : em.roundedMantissa ≤ 2 ^ 53) :
    roundWithAccuracy Format.binary64 s m e .exact =
      if em.roundedMantissa < 2 ^ 53 then .finite s em.roundedMantissa t (by omega)
      else .finite s (2 ^ 52) (t + 1) (by decide) := by
  unfold roundWithAccuracy
  rw [hshift]
  dsimp only
  by_cases hlt : em.roundedMantissa < 2 ^ 53
  · have hlog : em.roundedMantissa.log2 = 52 := (Nat.log2_eq_iff (by omega)).2 ⟨hlow, hlt⟩
    have hzero : (t - t).toNat = 0 := by omega
    rw [shiftToTargetExponent_eq (t := t) (by omega) le_rfl, hzero, if_pos hlt]
    exact dif_neg (by show ¬em.roundedMantissa = 0; omega)
  · have heq : em.roundedMantissa = 2 ^ 53 := by omega
    have hone : (t + 1 - t).toNat = 1 := by omega
    have hcarry : shiftToTargetExponent Format.binary64 em.roundedMantissa t .exact =
        (⟨2 ^ 52, false, false⟩, t + 1) := by
      rw [heq, shiftToTargetExponent_eq (t := t + 1) (by rw [Nat.log2_two_pow]; omega) (by omega),
        hone]
      rfl
    rw [hcarry, if_neg hlt]
    rfl

theorem log2_mul_two_pow {n : Nat} (hn : 0 < n) (k : Nat) : (n * 2 ^ k).log2 = n.log2 + k := by
  induction k with
  | zero => rw [pow_zero, mul_one, Nat.add_zero]
  | succ k ih =>
    have hne : n * 2 ^ k ≠ 0 := by positivity
    rw [pow_succ', mul_left_comm, Nat.log2_two_mul hne, ih, Nat.add_assoc]

/-- Without bits below the last place of the result, rounding only drops bits. -/
theorem round_eq {s : Sign} {m : Nat} {e : Int} (h : e ≤ max ((m.log2 : Int) + e - 52) (-1074)) :
    UnpackedFloat.round Format.binary64 s m e = roundWithAccuracy Format.binary64 s m e .exact := by
  have hzero : (e - max ((m.log2 : Int) + e - 52) (-1074)).toNat = 0 := by omega
  unfold UnpackedFloat.round decreaseExponent
  rw [targetExponent_eq]
  dsimp only
  rw [hzero, Nat.shiftLeft_zero, Nat.cast_zero, sub_zero]

/-- A natural number that fits the mantissa, moved to the left until it fills it. -/
theorem normal_bounds {n : Nat} (hn : 0 < n) (h : n.log2 ≤ 52) :
    2 ^ 52 ≤ n * 2 ^ (52 - n.log2) ∧ n * 2 ^ (52 - n.log2) < 2 ^ 53 := by
  constructor
  · calc 2 ^ 52 = 2 ^ n.log2 * 2 ^ (52 - n.log2) := by rw [← pow_add]; congr 1; omega
      _ ≤ n * 2 ^ (52 - n.log2) := Nat.mul_le_mul_right _ (Nat.log2_self_le hn.ne')
  · calc n * 2 ^ (52 - n.log2) < 2 ^ (n.log2 + 1) * 2 ^ (52 - n.log2) :=
          Nat.mul_lt_mul_of_pos_right Nat.lt_log2_self (by positivity)
      _ = 2 ^ 53 := by rw [← pow_add]; congr 1; omega

/-- A natural number that fits the mantissa is rounded to itself. -/
theorem round_of_small {n k : Nat} (hn : 0 < n) (hk : 52 ≤ k) (h : n.log2 ≤ 52) :
    ∃ m h, UnpackedFloat.round Format.binary64 .positive (n * 2 ^ k) (-k) =
        .finite .positive m ((n.log2 : Int) - 52) h ∧
      2 ^ 52 ≤ m ∧ m < 2 ^ 53 ∧ m = n * 2 ^ (52 - n.log2) := by
  have hlog := log2_mul_two_pow hn k
  have hle : (-(k : Int)) ≤ (n.log2 : Int) - 52 := by omega
  have hshift := shiftToTargetExponent_eq (m := n * 2 ^ k) (e := -k) (t := (n.log2 : Int) - 52)
    (by omega) hle
  have hpow : n * 2 ^ k = n * 2 ^ (52 - n.log2) * 2 ^ ((n.log2 : Int) - 52 - -(k : Int)).toNat := by
    rw [mul_assoc, ← pow_add]
    congr 2
    omega
  obtain ⟨hlow, hhigh⟩ := normal_bounds hn h
  rw [hpow, shiftRight_mul_two_pow, ← hpow] at hshift
  refine ⟨_, by positivity, ?_, hlow, hhigh, rfl⟩
  rw [round_eq (by omega), roundWithAccuracy_eq hshift (by omega) hlow hhigh.le]
  exact if_pos hhigh

/-- A greater natural number is rounded to a multiple of a power of two. Below `m · 2 ^ e` the
multiple needs no greater power. -/
theorem round_of_great {n k m e : Nat} (hk : 52 ≤ k) (h : 52 < n.log2) (hm : m < 2 ^ 53)
    (hlt : n < m * 2 ^ e) :
    ∃ (m' e' : Nat) (h : 0 < m'), UnpackedFloat.round Format.binary64 .positive (n * 2 ^ k) (-k) =
        .finite .positive m' e' h ∧ 2 ^ 52 ≤ m' ∧ m' < 2 ^ 53 ∧ e' ≤ e := by
  have hn : 0 < n := Nat.pos_of_ne_zero fun h0 => by simp [h0] at h
  have hlog := log2_mul_two_pow hn k
  obtain ⟨t, ht⟩ : ∃ t, n.log2 = 52 + t := Nat.exists_eq_add_of_le h.le
  have hshift := shiftToTargetExponent_eq (m := n * 2 ^ k) (e := -k) (t := t) (by omega) (by omega)
  have hamount : ((t : Int) - -(k : Int)).toNat = t + k := by omega
  rw [hamount] at hshift
  obtain ⟨em, hem⟩ : ∃ em, em = (⟨n * 2 ^ k, false, false⟩ : ExtendedMantissa) >>> (t + k) :=
    ⟨_, rfl⟩
  rw [← hem] at hshift
  have hmantissa : em.mantissa = n / 2 ^ t := by
    rw [hem, shiftRight_mantissa, pow_add]
    exact Nat.mul_div_mul_right n (2 ^ t) (by positivity)
  have hlow : 2 ^ 52 ≤ em.mantissa := by
    rw [hmantissa, Nat.le_div_iff_mul_le (by positivity), ← pow_add, ← ht]
    exact Nat.log2_self_le hn.ne'
  have hhigh : em.mantissa < 2 ^ 53 := by
    rw [hmantissa, Nat.div_lt_iff_lt_mul (by positivity), ← pow_add]
    exact lt_of_lt_of_le Nat.lt_log2_self (Nat.pow_le_pow_right (by decide) (by omega))
  obtain ⟨hge, hle⟩ := roundedMantissa_bounds em
  have hte : t ≤ e := by
    have hpow : 2 ^ (52 + t) < 2 ^ (53 + e) :=
      calc 2 ^ (52 + t) ≤ n := ht ▸ Nat.log2_self_le hn.ne'
        _ < m * 2 ^ e := hlt
        _ ≤ 2 ^ 53 * 2 ^ e := Nat.mul_le_mul_right _ hm.le
        _ = 2 ^ (53 + e) := (pow_add 2 53 e).symm
    have hexponent := (Nat.pow_lt_pow_iff_right (by decide)).1 hpow
    omega
  rw [round_eq (by omega), roundWithAccuracy_eq hshift (by omega) (hlow.trans hge) (by omega)]
  by_cases hfits : em.roundedMantissa < 2 ^ 53
  · exact ⟨em.roundedMantissa, t, by omega, if_pos hfits, hlow.trans hge, hfits, hte⟩
  · refine ⟨2 ^ 52, t + 1, by decide, if_neg hfits, le_rfl, by decide, ?_⟩
    -- with the exponent of `m · 2 ^ e` the mantissa would be at most `m`
    have hne : t ≠ e := by
      rintro rfl
      have hdiv : n / 2 ^ t < m := Nat.div_lt_of_lt_mul (by rwa [mul_comm])
      omega
    omega

/-! ### One less -/

/-- A normal number is packed and unpacked without loss. -/
theorem unpacked_packed_of_normal {s : Sign} {m : Nat} {e : Int} (hm : 0 < m) (hlow : 2 ^ 52 ≤ m)
    (hhigh : m < 2 ^ 53) (he : -1074 ≤ e) (he' : e ≤ 971) :
    unpacked (packed (.finite s m e hm)) = .finite s m e hm := by
  have hlog : m.log2 + 1 = 53 := congrArg (· + 1) ((Nat.log2_eq_iff hm.ne').2 ⟨hlow, hhigh⟩)
  have hbias : Format.binary64.exponentBias = 1023 := by decide
  have hbiased : ((e + (1023 : Nat) + (52 : Nat)).toNat : Int) = e + 1075 := by omega
  have hpack : UnpackedFloat.pack Format.binary64 (.finite s m e hm) =
      packComponents Format.binary64 s (BitVec.ofNat 11 (e + (1023 : Nat) + (52 : Nat)).toNat)
        (BitVec.ofNat 52 m) := by
    unfold UnpackedFloat.pack
    dsimp only
    rw [hbias, if_neg, if_pos]
    · exact hlog
    · show ¬2048 ≤ _ + 1
      omega
  have hexponent : (BitVec.ofNat 11 (e + (1023 : Nat) + (52 : Nat)).toNat).toNat =
      (e + (1023 : Nat) + (52 : Nat)).toNat := by
    rw [BitVec.toNat_ofNat]
    omega
  have hmantissa : (1#1 ++ BitVec.ofNat 52 m).toNat = m := by
    rw [toNat_hidden_bit, BitVec.toNat_ofNat]
    omega
  rw [unpacked_packed, hpack]
  unfold UnpackedFloat.unpack
  dsimp only
  simp only [unpackMantissa_packComponents, unpackExponent_packComponents,
    unpackSign_packComponents, sign_ofBitVec_toBitVec, hexponent, hbias, hmantissa]
  rw [if_neg, if_neg]
  · congr 1
    omega
  · intro h
    have h := congrArg BitVec.toNat h
    rw [hexponent] at h
    change _ = 0 at h
    omega
  · intro h
    have h := congrArg BitVec.toNat h
    rw [hexponent] at h
    change _ = 2047 at h
    omega

theorem exists_isWhole_packed_round {n k m e : Nat} (hn : 0 < n) (hk : 52 ≤ k) (hm : m < 2 ^ 53)
    (he : e ≤ 971) (hlt : n < m * 2 ^ e) :
    ∃ i, IsWhole (unpacked (packed (UnpackedFloat.round Format.binary64 .positive (n * 2 ^ k) (-k))))
      i := by
  by_cases h : n.log2 ≤ 52
  · obtain ⟨m', hpos, hround, hlow, hhigh, hvalue⟩ := round_of_small hn hk h
    rw [hround, unpacked_packed_of_normal hpos hlow hhigh (by omega) (by omega)]
    refine ⟨n, ?_⟩
    have hexponent : (-((n.log2 : Int) - 52)).toNat = 52 - n.log2 := by omega
    have hzero : ((n.log2 : Int) - 52).toNat = 0 := by omega
    show n * 2 ^ (-((n.log2 : Int) - 52)).toNat = m' * 2 ^ ((n.log2 : Int) - 52).toNat
    rw [hexponent, hzero, hvalue, pow_zero, mul_one]
  · obtain ⟨m', e', hpos, hround, hlow, hhigh, hle⟩ := round_of_great hk (by omega) hm hlt
    rw [hround, unpacked_packed_of_normal hpos hlow hhigh (by omega) (by omega)]
    refine ⟨m' * 2 ^ e', ?_⟩
    show m' * 2 ^ e' * 2 ^ (-(e' : Int)).toNat = m' * 2 ^ (e' : Int).toNat
    have hzero : (-(e' : Int)).toNat = 0 := by omega
    rw [hzero, pow_zero, mul_one, Int.toNat_natCast]

/-- The difference of a whole double and one before it is rounded. -/
theorem unpacked_sub_one {x : Float} {m n : Nat} {e : Int} {hm : 0 < m}
    (hx : unpacked x = .finite .positive m e hm) (h : IsWhole (unpacked x) (n + 1)) :
    ∃ k : Nat, 52 ≤ k ∧
      x - 1.0 = packed (normalize Format.binary64 (n * 2 ^ k : Nat) (-k) .positive) := by
  let k := (-(min e (-52))).toNat
  refine ⟨k, by omega, ?_⟩
  rw [hx] at h
  have hvalue : (n + 1) * 2 ^ (-e).toNat = m * 2 ^ e.toNat := h
  have hmin : min e (-52) = -(k : Int) := by omega
  have hleft : m <<< (e - -(k : Int)).toNat = (n + 1) * 2 ^ k := by
    have hsum : (e - -(k : Int)).toNat + (-e).toNat = e.toNat + k := by omega
    apply Nat.eq_of_mul_eq_mul_right (Nat.two_pow_pos (-e).toNat)
    rw [Nat.shiftLeft_eq, mul_assoc, ← pow_add, hsum, pow_add, ← mul_assoc, ← hvalue]
    ring
  have hright : 0x10000000000000 <<< (-52 - -(k : Int)).toNat = 2 ^ k := by
    rw [Nat.shiftLeft_eq]
    show 2 ^ 52 * _ = _
    rw [← pow_add]
    congr 1
    omega
  show packed (UnpackedFloat.sub Format.binary64 (unpacked x)
    (.finite .positive 0x10000000000000 (-52) (by decide))) = _
  rw [hx]
  congr 1
  unfold UnpackedFloat.sub decreaseExponent
  dsimp only
  rw [hmin, hleft, hright]
  congr 1
  show (((n + 1) * 2 ^ k : Nat) : Int) - ((2 ^ k : Nat) : Int) = _
  push_cast
  ring

/-- One less than a whole double that is not zero is a whole double. -/
theorem exists_isWhole_sub_one {x : Float} {n : Nat} (h : IsWhole (unpacked x) (n + 1)) :
    ∃ i, IsWhole (unpacked (x - 1.0)) i := by
  cases hx : unpacked x with
  | notANumber =>
    rw [hx] at h
    exact h.elim
  | infinity s =>
    rw [hx] at h
    cases s <;> exact h.elim
  | zero s =>
    rw [hx] at h
    exact absurd h n.succ_ne_zero
  | finite s m e hm =>
    cases s with
    | negative =>
      rw [hx] at h
      exact h.elim
    | positive =>
      obtain ⟨hm53, he⟩ := bounds_of_unpacked hx
      obtain ⟨k, hk, hsub⟩ := unpacked_sub_one hx h
      rw [hsub]
      rw [hx] at h
      have hvalue : (n + 1) * 2 ^ (-e).toNat = m * 2 ^ e.toNat := h
      obtain rfl | hn := n.eq_zero_or_pos
      · have hzero : compare ((0 * 2 ^ k : Nat) : Int) 0 = .eq := by
          rw [Nat.zero_mul]
          rfl
        have hpacked : unpacked (packed (.zero .positive)) = .zero .positive := rfl
        unfold UnpackedFloat.normalize
        rw [hzero]
        dsimp only
        rw [hpacked]
        exact ⟨0, rfl⟩
      · have hlt : n < m * 2 ^ e.toNat :=
          calc n < n + 1 := n.lt_succ_self
            _ ≤ (n + 1) * 2 ^ (-e).toNat := Nat.le_mul_of_pos_right _ (by positivity)
            _ = m * 2 ^ e.toNat := hvalue
        have hpos : compare ((n * 2 ^ k : Nat) : Int) 0 = .gt := by
          rw [Int.compare_eq_gt]
          positivity
        unfold UnpackedFloat.normalize
        rw [hpos]
        exact exists_isWhole_packed_round hn hk hm53 (by omega) hlt

end Formulary.Binary64

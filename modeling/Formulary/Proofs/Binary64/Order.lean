import Formulary.Proofs.Arithmetic.WholeLaws
import Formulary.Proofs.Binary64.Sign

/-!
# The order of doubles

Doubles are compared exponent first, which is right because every mantissa fills its places unless
the exponent is the least. So a difference of ordered numbers is not below zero, though it is
rounded.

* `Canonical`, `canonical_of_unpacked`: the mantissa and the exponent of a double.
* `shifted_le_of_compare`: the comparison of exponents and mantissas compares the numbers.
* `not_lt_zero_sub`, `not_lt_zero_div`, `floor_nonneg`: differences of ordered numbers, their
  quotients by positive numbers, and integer parts are not below zero.
* **`Double.le_eq_not_lt`**: of two finite doubles one is at most the other or above it.
* **`Double.floor_quotient_nonneg`**: a whole number of positive steps leads from a number to a
  greater one.
-/

namespace Formulary

namespace Binary64

open Float.Model Float.Model.UnpackedFloat

/-! ### Mantissas -/

/-- The mantissa and the exponent of a double: the mantissa fills its places unless the exponent is
the least. -/
structure Canonical (m : Nat) (e : Int) : Prop where
  lt : m < 2 ^ 53
  least_le : -1074 ≤ e
  full : 2 ^ 52 ≤ m ∨ e = -1074

theorem canonical_of_unpacked {x : Float} {s : Sign} {m : Nat} {e : Int} {hm : 0 < m}
    (h : unpacked x = .finite s m e hm) : Canonical m e := by
  let w : BitVec Format.binary64.numBits := x.toBits.toBitVec
  have hbias : Format.binary64.exponentBias = 1023 := by decide
  have hlt := (bounds_of_unpacked h).1
  change UnpackedFloat.unpack Format.binary64 w = _ at h
  unfold UnpackedFloat.unpack at h
  dsimp only at h
  split at h
  · split at h <;> cases h
  · split at h
    · next hzero =>
      split at h
      · cases h
      · cases h
        rw [hzero, hbias]
        exact ⟨hlt, by decide, .inr (by decide)⟩
    · next hne =>
      cases h
      have hexponent : (unpackExponent w).toNat ≠ 0 := fun he => hne (BitVec.eq_of_toNat_eq he)
      refine ⟨hlt, ?_, .inl ?_⟩
      · rw [hbias]
        show -1074 ≤ ((unpackExponent w).toNat : Int) - ((1023 : Nat) + (52 : Nat))
        omega
      · rw [toNat_hidden_bit]
        exact Nat.le_add_right _ _

/-- The comparison of exponents and then mantissas compares the numbers, both written with one
exponent that neither is below. -/
theorem shifted_le_of_compare {m m' : Nat} {e e' t : Int} (h : Canonical m e)
    (h' : Canonical m' e') (ht : t ≤ e)
    (hle : ((compare e e').then (compare m m')).isLE = true) :
    m <<< (e - t).toNat ≤ m' <<< (e' - t).toNat := by
  rw [Nat.shiftLeft_eq, Nat.shiftLeft_eq]
  obtain hlt | heq | hgt := lt_trichotomy e e'
  · have hfull : 2 ^ 52 ≤ m' := h'.full.resolve_right (by have := h.least_le; omega)
    obtain ⟨k, hk⟩ : ∃ k : Nat, (e' - t).toNat = (e - t).toNat + (k + 1) :=
      ⟨(e' - e - 1).toNat, by omega⟩
    calc m * 2 ^ (e - t).toNat
        ≤ (2 ^ 52 * 2) * 2 ^ (e - t).toNat := Nat.mul_le_mul_right _ h.lt.le
      _ ≤ (m' * 2 ^ (k + 1)) * 2 ^ (e - t).toNat :=
          Nat.mul_le_mul_right _
            (Nat.mul_le_mul hfull (Nat.le_self_pow (Nat.succ_ne_zero k) 2))
      _ = m' * 2 ^ (e' - t).toNat := by
        rw [hk, pow_add _ _ (k + 1), mul_assoc, mul_comm (2 ^ (k + 1))]
  · subst heq
    rw [(compare_eq_iff_eq (a := e)).2 rfl, Ordering.eq_then, Nat.isLE_compare] at hle
    exact Nat.mul_le_mul_right _ hle
  · rw [Int.compare_eq_gt.2 hgt] at hle
    exact absurd hle Bool.false_ne_true

/-! ### Comparisons -/

theorem le_eq (u v : UnpackedFloat) : (u.lt v || u.beq v) = u.le v := by
  unfold UnpackedFloat.lt UnpackedFloat.beq UnpackedFloat.le
  cases u.compare v with
  | none => rfl
  | some o => cases o <;> rfl

/-- Exponents and mantissas compared the other way round. -/
theorem compare_then_swap (m m' : Nat) (e e' : Int) :
    (compare e' e).then (compare m' m) = ((compare e e').then (compare m m')).swap := by
  rw [Ordering.swap_then, ← Int.compare_swap, ← Nat.compare_swap]

/-- Compared the other way round, numbers are in the other order. -/
theorem compare_swap (u v : UnpackedFloat) : v.compare u = (u.compare v).map Ordering.swap := by
  cases u with
  | notANumber => cases v <;> rfl
  | infinity s =>
    cases v with
    | infinity t => cases s <;> cases t <;> rfl
    | finite t m e hm => cases s <;> cases t <;> rfl
    | _ => cases s <;> rfl
  | zero s =>
    cases v with
    | notANumber => rfl
    | zero t => rfl
    | infinity t | finite t => cases t <;> rfl
  | finite s m e hm =>
    cases v with
    | finite t m' e' hm' =>
      cases s <;> cases t
      · exact congrArg (some ·.swap) (compare_then_swap m m' e e')
      · rfl
      · rfl
      · exact congrArg some (compare_then_swap m m' e e')
    | infinity t => cases s <;> cases t <;> rfl
    | _ => cases s <;> rfl

theorem compare_ne_none {u v : UnpackedFloat} (hu : u.isFinite = true) (hv : v.isFinite = true) :
    u.compare v ≠ none := by
  intro h
  cases u with
  | zero s =>
    cases v with
    | zero t => cases h
    | finite t m e hm => cases t <;> cases h
    | _ => exact absurd hv Bool.false_ne_true
  | finite s m e hm =>
    cases v with
    | zero t => cases s <;> cases h
    | finite t m' e' hm' => cases s <;> cases t <;> cases h
    | _ => exact absurd hv Bool.false_ne_true
  | _ => exact absurd hu Bool.false_ne_true

theorem unpacked_le_eq_not_lt {u v : UnpackedFloat} (hu : u.isFinite = true)
    (hv : v.isFinite = true) : u.le v = !v.lt u := by
  unfold UnpackedFloat.le UnpackedFloat.lt
  rw [compare_swap u v]
  cases h : u.compare v with
  | none => exact absurd h (compare_ne_none hu hv)
  | some o => cases o <;> rfl

/-! ### Numbers that are not below zero -/

theorem isPlus_or_of_not_lt_zero {u : UnpackedFloat} (h : u.lt (.zero .positive) = false) :
    isPlus u = true ∨ u = .zero .negative := by
  cases u with
  | notANumber => exact .inl rfl
  | zero s => cases s with
    | positive => exact .inl rfl
    | negative => exact .inr rfl
  | infinity s => cases s with
    | positive => exact .inl rfl
    | negative => exact absurd h.symm Bool.false_ne_true
  | finite s m e hm => cases s with
    | positive => exact .inl rfl
    | negative => exact absurd h.symm Bool.false_ne_true

theorem not_lt_zero_of_isPlus {u : UnpackedFloat} (h : isPlus u = true) :
    u.lt (.zero .positive) = false := by
  obtain rfl | rfl | rfl | ⟨m, e, hm, rfl⟩ := cases_of_isPlus h <;> rfl

theorem not_lt_zero_packed {u : UnpackedFloat} (h : u.lt (.zero .positive) = false) :
    (unpacked (packed u)).lt (.zero .positive) = false := by
  obtain hplus | rfl := isPlus_or_of_not_lt_zero h
  · exact not_lt_zero_of_isPlus (isPlus_unpacked_packed hplus)
  · rfl

theorem isPlus_normalize (spec : Format) {k : Int} (h : 0 ≤ k) (e : Int) :
    isPlus (UnpackedFloat.normalize spec k e .positive) = true := by
  unfold UnpackedFloat.normalize
  split
  · next hlt =>
    rw [Int.compare_eq_lt] at hlt
    omega
  · rfl
  · exact isPlus_roundWithAccuracy spec _ _ _

/-- A difference of ordered numbers is not below zero. -/
theorem not_lt_zero_sub {x y : Float} (hx : (unpacked x).isFinite = true)
    (hy : (unpacked y).isFinite = true) (h : (unpacked x).le (unpacked y) = true) :
    (unpacked (y - x)).lt (.zero .positive) = false := by
  show (unpacked (packed
    (UnpackedFloat.sub Format.binary64 (unpacked y) (unpacked x)))).lt _ = false
  apply not_lt_zero_packed
  cases hvx : unpacked x with
  | notANumber | infinity =>
    rw [hvx] at hx
    exact absurd hx Bool.false_ne_true
  | zero s =>
    cases hvy : unpacked y with
    | notANumber | infinity =>
      rw [hvy] at hy
      exact absurd hy Bool.false_ne_true
    | zero t => cases s <;> cases t <;> rfl
    | finite t m e hm =>
      rw [hvx, hvy] at h
      cases t with
      | negative => exact absurd h Bool.false_ne_true
      | positive => rfl
  | finite s m e hm =>
    cases hvy : unpacked y with
    | notANumber | infinity =>
      rw [hvy] at hy
      exact absurd hy Bool.false_ne_true
    | zero t =>
      rw [hvx, hvy] at h
      cases s with
      | negative => rfl
      | positive => exact absurd h Bool.false_ne_true
    | finite t m' e' hm' =>
      rw [hvx, hvy] at h
      have hc := canonical_of_unpacked hvx
      have hc' := canonical_of_unpacked hvy
      refine not_lt_zero_of_isPlus (isPlus_normalize _ (Int.sub_nonneg.2 ?_) _)
      cases s with
      | negative =>
        cases t with
        | negative =>
          -- of two negative numbers the lesser one is the greater one without its sign
          refine Int.neg_le_neg (Int.ofNat_le.2 (shifted_le_of_compare hc' hc (min_le_left _ _) ?_))
          rw [compare_then_swap]
          exact h
        | positive =>
          exact le_trans (Int.neg_nonpos_of_nonneg (Int.natCast_nonneg _)) (Int.natCast_nonneg _)
      | positive =>
        cases t with
        | negative => exact absurd h Bool.false_ne_true
        | positive => exact Int.ofNat_le.2 (shifted_le_of_compare hc hc' (min_le_right _ _) h)

/-- A quotient by a number above zero is not below zero if the dividend is not. -/
theorem not_lt_zero_div {x y : Float} (hx : (unpacked x).lt (.zero .positive) = false)
    (hy : UnpackedFloat.lt (.zero .positive) (unpacked y) = true) :
    (unpacked (x / y)).lt (.zero .positive) = false := by
  show (unpacked (packed
    (UnpackedFloat.div Format.binary64 (unpacked x) (unpacked y)))).lt _ = false
  apply not_lt_zero_packed
  have hplus : isPlus (unpacked y) = true := by
    cases hv : unpacked y with
    | notANumber => rfl
    | zero s =>
      rw [hv] at hy
      exact absurd hy Bool.false_ne_true
    | infinity s | finite s =>
      rw [hv] at hy
      cases s with
      | positive => rfl
      | negative => exact absurd hy Bool.false_ne_true
  obtain hx | hx := isPlus_or_of_not_lt_zero hx
  · exact not_lt_zero_of_isPlus (isPlus_div _ hx hplus)
  · rw [hx]
    cases unpacked y <;> rfl

theorem scaledFloor_nonneg (m : Nat) (e : Int) : 0 ≤ scaledFloor m e := by
  cases e with
  | ofNat n => exact Int.natCast_nonneg (m <<< n)
  | negSucc n => exact Int.natCast_nonneg (m >>> (n + 1))

theorem floor_nonneg {u : UnpackedFloat} {n : Int} (h : u.lt (.zero .positive) = false)
    (hn : unpackedFloor? u = some n) : 0 ≤ n := by
  cases u with
  | notANumber | infinity => cases hn
  | zero s =>
    cases hn
    exact le_rfl
  | finite s m e hm =>
    cases s with
    | negative => exact absurd h.symm Bool.false_ne_true
    | positive =>
      cases hn
      exact scaledFloor_nonneg m e

end Binary64

/-! ### Doubles -/

namespace Double

open RealArith Binary64

theorem le_view (a b : Double) : le a b = (view a).le (view b) := by
  unfold le
  rw [lt_view, beq_view, le_eq]

/-- Of two finite doubles one is at most the other or above it. -/
theorem le_eq_not_lt {a b : Double} (ha : RealArith.isFinite a = true)
    (hb : RealArith.isFinite b = true) : le a b = !lt b a := by
  rw [isFinite_view] at ha hb
  rw [le_view, lt_view, unpacked_le_eq_not_lt ha hb]

/-- A difference of ordered finite doubles is not below zero. -/
theorem sub_not_lt_zero {a b : Double} (ha : RealArith.isFinite a = true)
    (hb : RealArith.isFinite b = true) (hab : le a b = true) : lt (b - a) 0 = false := by
  rw [isFinite_view] at ha hb
  rw [le_view] at hab
  rw [lt_view]
  cases a with
  | undefined s => exact absurd ha Bool.false_ne_true
  | defined x =>
    cases b with
    | undefined s => exact absurd hb Bool.false_ne_true
    | defined y =>
      show (view (ofFloat (y - x))).lt _ = false
      rw [view_ofFloat]
      exact not_lt_zero_sub ha hb hab

/-- A quotient by a double above zero is not below zero if the dividend is not. -/
theorem div_not_lt_zero {a b : Double} (ha : lt a 0 = false) (hb : lt 0 b = true) :
    lt (a / b) 0 = false := by
  rw [lt_view] at ha hb ⊢
  cases a with
  | undefined s => cases b <;> rfl
  | defined x =>
    cases b with
    | undefined s => exact absurd hb Bool.false_ne_true
    | defined y =>
      show (view (ofFloat (x / y))).lt _ = false
      rw [view_ofFloat]
      exact not_lt_zero_div ha hb

/-- A whole number of positive steps leads from a number to a greater one. -/
theorem floor_quotient_nonneg {a b c : Double} {n : Int} (ha : RealArith.isFinite a = true)
    (hb : RealArith.isFinite b = true) (hab : le a b = true) (hc : lt 0 c = true)
    (hn : floor? ((b - a) / c) = some n) : 0 ≤ n := by
  have hquotient := div_not_lt_zero (sub_not_lt_zero ha hb hab) hc
  rw [lt_view] at hquotient
  rw [floor?_view] at hn
  exact floor_nonneg hquotient hn

end Double

end Formulary

import Mathlib
import Formulary.Binary64.Arith

/-!
# Doubles as words

A double is a word of a sign, an exponent and a fraction. Its operations unpack the words, compute,
and pack the result.

* `packComponents_fields`, `toNat_packComponents`: a word is its three fields, and what they count
  for as a number.
* `pack_unpack`: unpacking a double and packing it again gives the double.
* `fields_neg`, `unpacked_neg`: negation changes the sign and nothing else.
* `add_zero_of_ne`, `zero_add_of_ne`, `sub_zero_eq`, `zero_sub_of_ne`: operations with zero are exact.
* `decide_lt_eq`, `unpacked_neg_beq`: comparisons look at the unpacked numbers, where signs change
  sides.
-/

namespace Formulary.Binary64

open Float.Model Float.Model.UnpackedFloat

/-! ### The fields of a word -/

theorem sign_ofBitVec_toBitVec (s : Sign) : Sign.ofBitVec s.toBitVec = s := by
  cases s <;> rfl

theorem sign_toBitVec_ofBitVec (v : BitVec 1) : (Sign.ofBitVec v).toBitVec = v := by
  revert v
  decide

theorem sign_neg_neg (s : Sign) : -(-s) = s := by
  cases s <;> rfl

theorem packComponents_fields (b : BitVec Format.binary64.numBits) :
    packComponents Format.binary64 (Sign.ofBitVec (unpackSign b)) (unpackExponent b)
      (unpackMantissa b) = b := by
  rw [packComponents, sign_toBitVec_ofBitVec]
  apply BitVec.eq_of_getLsbD_eq
  intro i hi
  simp [unpackSign, unpackExponent, unpackMantissa]
  grind

theorem unpackSign_packComponents (s : Sign) (e : BitVec 11) (m : BitVec 52) :
    unpackSign (packComponents Format.binary64 s e m) = s.toBitVec := by
  apply BitVec.eq_of_getLsbD_eq
  intro i hi
  have hi0 : i = 0 := by omega
  subst hi0
  simp only [unpackSign, packComponents, BitVec.getLsbD_cast, BitVec.getLsbD_extractLsb]
  grind

theorem toNat_packComponents (s : Sign) (e : BitVec 11) (m : BitVec 52) :
    (packComponents Format.binary64 s e m).toNat =
      s.toBitVec.toNat * 0x8000000000000000 + e.toNat * 0x10000000000000 + m.toNat := by
  have hm := m.isLt
  have he := e.isLt
  show (s.toBitVec ++ e ++ m).toNat = _
  rw [BitVec.toNat_append, ← Nat.shiftLeft_add_eq_or_of_lt m.isLt, BitVec.toNat_append,
    ← Nat.shiftLeft_add_eq_or_of_lt e.isLt, Nat.shiftLeft_eq, Nat.shiftLeft_eq]
  omega

/-- The significand of a normal double: a one before the fraction. -/
theorem toNat_hidden_bit (m : BitVec 52) : (1#1 ++ m).toNat = 0x10000000000000 + m.toNat := by
  rw [BitVec.toNat_append, ← Nat.shiftLeft_add_eq_or_of_lt m.isLt]
  rfl

theorem log2_hidden_bit (m : BitVec 52) : (1#1 ++ m).toNat.log2 = 52 := by
  have hm : m.toNat < 0x10000000000000 := m.isLt
  have h := toNat_hidden_bit m
  rw [Nat.log2_eq_iff (by omega)]
  omega

theorem ofNat_hidden_bit (m : BitVec 52) : BitVec.ofNat 52 (1#1 ++ m).toNat = m := by
  have hm : m.toNat < 0x10000000000000 := m.isLt
  apply BitVec.eq_of_toNat_eq
  rw [BitVec.toNat_ofNat, toNat_hidden_bit]
  omega

theorem log2_lt_of_ne_zero {m : BitVec 52} (h : m ≠ 0#52) : m.toNat.log2 < 52 := by
  have h0 : m.toNat ≠ 0 := fun hm => h (BitVec.eq_of_toNat_eq hm)
  exact (Nat.log2_lt h0).2 m.isLt

/-! ### Packing and unpacking -/

/-- A valid word is packed back to itself: the one undefined number it can hold is the canonical
one. -/
theorem pack_unpackWord {b : BitVec Format.binary64.numBits} (hv : Format.binary64.Valid b) :
    UnpackedFloat.pack Format.binary64 (UnpackedFloat.unpack Format.binary64 b) = b := by
  have hfields := packComponents_fields b
  have hlt : (unpackExponent b).toNat < 2048 := (unpackExponent b).isLt
  have hbias : Format.binary64.exponentBias = 1023 := by decide
  unfold UnpackedFloat.unpack
  dsimp only
  split
  · rename_i he
    split
    · rename_i hm
      rw [he, hm] at hfields
      exact hfields
    · rename_i hm
      exact (hv.eq_packedNaN he hm).symm
  · rename_i he
    split
    · rename_i he0
      split
      · rename_i hm
        rw [he0, hm] at hfields
        exact hfields
      · rename_i hm
        -- a subnormal number: its significand is too short for the hidden bit
        have hlog := log2_lt_of_ne_zero hm
        simp only [UnpackedFloat.pack, hbias]
        rw [if_neg, if_neg, BitVec.ofNat_toNat, BitVec.setWidth_eq, ← he0, hfields]
        · show ¬(unpackMantissa b).toNat.log2 + 1 = 53
          omega
        · rw [he0]
          decide
    · -- a normal number: the exponent comes back as it was stored
      have hne : (unpackExponent b).toNat ≠ 2047 := fun h => he (BitVec.eq_of_toNat_eq h)
      have hexp : (((unpackExponent b).toNat : Int) - ((1023 : Nat) + (52 : Nat)) + (1023 : Nat) +
          (52 : Nat)).toNat = (unpackExponent b).toNat := by omega
      simp only [UnpackedFloat.pack, hbias, hexp]
      rw [if_neg, if_pos, BitVec.ofNat_toNat, BitVec.setWidth_eq, ofNat_hidden_bit, hfields]
      · rw [log2_hidden_bit]
        rfl
      · show ¬2048 ≤ (unpackExponent b).toNat + 1
        omega

theorem pack_unpack (x : Float.Model) : Float.Model.pack x.unpack = x := by
  obtain ⟨bits, hv⟩ := x
  have h := pack_unpackWord hv
  simp only [Float.Model.pack, Float.Model.unpack, h]

/-- The unpacked number of a double. -/
def unpacked (x : Float) : UnpackedFloat :=
  x.toModel.unpack

/-- The double of an unpacked number. -/
def packed (u : UnpackedFloat) : Float :=
  .ofModel (Float.Model.pack u)

theorem packed_unpacked (x : Float) : packed (unpacked x) = x := by
  rw [packed, unpacked, pack_unpack]

theorem unpacked_injective {x y : Float} (h : unpacked x = unpacked y) : x = y := by
  rw [← packed_unpacked x, h, packed_unpacked]

/-- A word with the other sign unpacks to the negation, unless it is an undefined number. -/
theorem unpack_packComponents_neg (s : Sign) (e : BitVec 11) (m : BitVec 52)
    (h : e = -1#11 → m = 0#52) :
    UnpackedFloat.unpack Format.binary64 (packComponents Format.binary64 (-s) e m) =
      (UnpackedFloat.unpack Format.binary64 (packComponents Format.binary64 s e m)).neg := by
  unfold UnpackedFloat.unpack
  simp only [unpackMantissa_packComponents, unpackExponent_packComponents,
    unpackSign_packComponents, sign_ofBitVec_toBitVec]
  split
  · next he => rw [if_pos (h he), if_pos (h he)]; rfl
  · split
    · split <;> rfl
    · rfl

/-! ### Negation -/

/-- The fraction of an infinite exponent is zero unless the word is an undefined number. -/
theorem mantissa_eq_zero {b : BitVec Format.binary64.numBits}
    (h : UnpackedFloat.unpack Format.binary64 b ≠ .notANumber) (he : unpackExponent b = -1#11) :
    unpackMantissa b = 0#52 := by
  refine Decidable.byContradiction fun hm => h ?_
  unfold UnpackedFloat.unpack
  dsimp only
  rw [if_pos he, if_neg hm]

/-- A double that is defined and its negation are words that differ in the sign alone. -/
theorem fields_neg {x : Float} (h : unpacked x ≠ .notANumber) :
    ∃ (s : Sign) (e : BitVec 11) (m : BitVec 52),
      x.toBits.toBitVec = packComponents Format.binary64 s e m ∧
      (-x).toBits.toBitVec = packComponents Format.binary64 (-s) e m ∧
      unpacked (-x) = (unpacked x).neg := by
  let w : BitVec Format.binary64.numBits := x.toBits.toBitVec
  let b := packComponents Format.binary64 (-(Sign.ofBitVec (unpackSign w))) (unpackExponent w)
    (unpackMantissa w)
  have hm : unpackExponent w = -1#11 → unpackMantissa w = 0#52 := mantissa_eq_zero h
  have hvalid : Format.binary64.Valid b := by
    refine ⟨fun he hne => absurd ?_ hne⟩
    rw [unpackExponent_packComponents] at he
    rw [unpackMantissa_packComponents]
    exact hm he
  have hunpack : (Float.Model.mk (UInt64.ofBitVec b) hvalid).unpack = (unpacked x).neg := by
    have hn := unpack_packComponents_neg (Sign.ofBitVec (unpackSign w)) (unpackExponent w)
      (unpackMantissa w) hm
    rw [packComponents_fields w] at hn
    exact hn
  have hneg : -x = .ofModel ⟨UInt64.ofBitVec b, hvalid⟩ := by
    show Float.ofModel (Float.Model.pack (unpacked x).neg) = _
    rw [← hunpack, pack_unpack]
  refine ⟨_, _, _, (packComponents_fields w).symm, ?_, ?_⟩
  · rw [hneg]
    rfl
  · rw [hneg]
    exact hunpack

theorem unpacked_neg (x : Float) : unpacked (-x) = (unpacked x).neg := by
  by_cases h : unpacked x = .notANumber
  · show Float.Model.unpack (Float.Model.pack (UnpackedFloat.neg (unpacked x))) = _
    rw [h]
    rfl
  · obtain ⟨_, _, _, _, _, hn⟩ := fields_neg h
    exact hn

theorem neg_neg (x : Float) : -(-x) = x := by
  apply unpacked_injective
  rw [unpacked_neg, unpacked_neg]
  cases unpacked x <;> simp only [UnpackedFloat.neg, sign_neg_neg]

/-! ### Operations with zero -/

theorem add_zero_of_ne {x : Float} (h : unpacked x ≠ .zero .negative) : x + 0.0 = x := by
  show packed (UnpackedFloat.add Format.binary64 (unpacked x) (.zero .positive)) = x
  have hu : UnpackedFloat.add Format.binary64 (unpacked x) (.zero .positive) = unpacked x := by
    cases hx : unpacked x with
    | zero s => cases s with
      | negative => exact absurd hx h
      | positive => rfl
    | _ => rfl
  rw [hu, packed_unpacked]

theorem add_zero_of_eq {x : Float} (h : unpacked x = .zero .negative) : x + 0.0 = 0.0 := by
  show packed (UnpackedFloat.add Format.binary64 (unpacked x) (.zero .positive)) = 0.0
  rw [h]
  rfl

theorem zero_add_of_ne {x : Float} (h : unpacked x ≠ .zero .negative) : 0.0 + x = x := by
  show packed (UnpackedFloat.add Format.binary64 (.zero .positive) (unpacked x)) = x
  have hu : UnpackedFloat.add Format.binary64 (.zero .positive) (unpacked x) = unpacked x := by
    cases hx : unpacked x with
    | zero s => cases s with
      | negative => exact absurd hx h
      | positive => rfl
    | _ => rfl
  rw [hu, packed_unpacked]

theorem sub_zero_eq (x : Float) : x - 0.0 = x := by
  show packed (UnpackedFloat.sub Format.binary64 (unpacked x) (.zero .positive)) = x
  have hu : UnpackedFloat.sub Format.binary64 (unpacked x) (.zero .positive) = unpacked x := by
    cases unpacked x with
    | zero s => cases s <;> rfl
    | _ => rfl
  rw [hu, packed_unpacked]

theorem zero_sub_of_ne {x : Float} (h : ∀ s, unpacked x ≠ .zero s) : 0.0 - x = -x := by
  show packed (UnpackedFloat.sub Format.binary64 (.zero .positive) (unpacked x)) =
    packed (unpacked x).neg
  congr 1
  cases hx : unpacked x with
  | zero s => exact absurd hx (h s)
  | _ => rfl

/-! ### Comparisons -/

theorem decide_lt_eq (x y : Float) : decide (x < y) = (unpacked x).lt (unpacked y) := by
  rw [Bool.eq_iff_iff, decide_eq_true_iff]
  show decide (x.toModel.lt y.toModel = true) = true ↔ _
  rw [decide_eq_true_iff]
  exact Iff.rfl

theorem isFinite_eq (x : Float) : x.isFinite = (unpacked x).isFinite := rfl

theorem isNaN_eq (x : Float) : x.isNaN = (unpacked x).isNaN := rfl

theorem swap_beq_eq (o : Ordering) : (some o.swap == some Ordering.eq) = (some o == some .eq) := by
  cases o <;> rfl

/-- A sign may change sides in an equation. -/
theorem unpacked_neg_beq (u v : UnpackedFloat) : u.neg.beq v = u.beq v.neg := by
  cases u with
  | notANumber => rfl
  | infinity s => cases v <;> cases s <;> first | rfl | (rename_i t; cases t <;> rfl)
  | zero s =>
    cases v with
    | finite t m e hm => cases t <;> rfl
    | infinity t => cases t <;> rfl
    | _ => rfl
  | finite s m e hm =>
    cases v with
    | finite t m' e' hm' =>
      cases s <;> cases t
      · rfl
      · show (some _ == some Ordering.eq) = (some _ == some Ordering.eq)
        exact (swap_beq_eq _).symm
      · exact swap_beq_eq _
      · rfl
    | infinity t => cases t <;> rfl
    | zero t => cases s <;> rfl
    | notANumber => cases s <;> rfl

/-- The sign of zero does not show in an equation. -/
theorem unpacked_beq_zero (u : UnpackedFloat) (s t : Sign) : u.beq (.zero s) = u.beq (.zero t) := by
  cases u with
  | finite r m e hm => cases r <;> rfl
  | infinity r => cases r <;> rfl
  | _ => rfl

theorem unpacked_zero_beq (u : UnpackedFloat) (s t : Sign) :
    UnpackedFloat.beq (.zero s) u = UnpackedFloat.beq (.zero t) u := by
  cases u with
  | finite r m e hm => cases r <;> rfl
  | infinity r => cases r <;> rfl
  | _ => rfl

theorem unpacked_neg_lt_zero (u : UnpackedFloat) (s : Sign) :
    u.neg.lt (.zero s) = UnpackedFloat.lt (.zero s) u := by
  cases u with
  | finite r m e hm => cases r <;> rfl
  | infinity r => cases r <;> rfl
  | _ => rfl

theorem unpacked_beq_self {u : UnpackedFloat} (h : u.isFinite = true) : u.beq u = true := by
  cases u with
  | finite s m e hm => cases s <;> simp [UnpackedFloat.beq, UnpackedFloat.compare]
  | zero s => rfl
  | _ => exact absurd h Bool.false_ne_true

/-- Equal numbers are on the same side of zero. -/
theorem unpacked_lt_zero_congr {u v : UnpackedFloat} (h : u.beq v = true) :
    u.lt (.zero .positive) = v.lt (.zero .positive) := by
  cases u with
  | notANumber => exact absurd h Bool.false_ne_true
  | infinity s =>
    cases v with
    | infinity t => cases s <;> cases t <;> first | rfl | exact absurd h Bool.false_ne_true
    | _ => cases s <;> exact absurd h Bool.false_ne_true
  | zero s =>
    cases v with
    | finite t m e hm => cases t <;> exact absurd h Bool.false_ne_true
    | infinity t => cases t <;> exact absurd h Bool.false_ne_true
    | notANumber => exact absurd h Bool.false_ne_true
    | zero t => rfl
  | finite s m e hm =>
    cases v with
    | finite t m' e' hm' =>
      cases s <;> cases t <;> first | rfl | exact absurd h Bool.false_ne_true
    | infinity t => cases s <;> cases t <;> exact absurd h Bool.false_ne_true
    | _ => cases s <;> exact absurd h Bool.false_ne_true

/-- At most one of three: below zero, equal to zero, above zero. -/
theorem unpacked_trichotomy (u : UnpackedFloat) (s : Sign) :
    (u.lt (.zero s) && u.beq (.zero s)) = false ∧
    (UnpackedFloat.lt (.zero s) u && u.beq (.zero s)) = false ∧
    (u.lt (.zero s) && UnpackedFloat.lt (.zero s) u) = false := by
  cases u with
  | finite r m e hm => cases r <;> exact ⟨rfl, rfl, rfl⟩
  | infinity r => cases r <;> exact ⟨rfl, rfl, rfl⟩
  | _ => exact ⟨rfl, rfl, rfl⟩

end Formulary.Binary64

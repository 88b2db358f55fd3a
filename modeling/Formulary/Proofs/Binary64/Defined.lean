import Formulary.Binary64.Arith
import Formulary.Proofs.Binary64.Sign

/-!
# Doubles of decimals are defined

The double nearest to a decimal is a number or infinite. It is found by rounding products and
quotients with powers of ten, none of which is zero or infinite.

* `isNaN_mul`, `isNaN_div`: a defined number times or over a finite one that is not zero.
* `pack_finite`: what a number that is not zero is packed as.
* `isNaN_unpacked_packed`: packing keeps numbers defined.
* **`isNaN_ofDecimal`**: the double of a decimal is defined.
* `Double.isInfinite_ofDecimal`: it is infinite if it is not finite.
-/

namespace Formulary.Binary64

open Float.Model Float.Model.UnpackedFloat

/-- The number is finite and not zero. -/
def isProper : UnpackedFloat → Bool
  | .finite .. => true
  | .notANumber | .infinity _ | .zero _ => false

/-! ### Operations that give a number -/

theorem isNaN_roundWithAccuracy (spec : Format) (s : Sign) (m : Nat) (e : Int) (acc : Accuracy) :
    (roundWithAccuracy spec s m e acc).isNaN = false := by
  unfold roundWithAccuracy
  dsimp only
  split <;> rfl

theorem isNaN_mul (spec : Format) {u v : UnpackedFloat} (hu : u.isNaN = false)
    (hv : isProper v = true) : (u.mul spec v).isNaN = false := by
  cases v with
  | finite s m e hm =>
    cases u with
    | notANumber => cases hu
    | infinity _ => rfl
    | zero _ => rfl
    | finite _ _ _ _ => exact isNaN_roundWithAccuracy spec _ _ _ _
  | _ => cases hv

theorem isNaN_div (spec : Format) {u v : UnpackedFloat} (hu : u.isNaN = false)
    (hv : isProper v = true) : (u.div spec v).isNaN = false := by
  cases v with
  | finite s m e hm =>
    cases u with
    | notANumber => cases hu
    | infinity _ => rfl
    | zero _ => rfl
    | finite _ _ _ _ => exact isNaN_roundWithAccuracy spec _ _ _ _
  | _ => cases hv

theorem isNaN_ofScientific (spec : Format) (m : Nat) (e : Int) :
    (UnpackedFloat.ofScientific spec m e).isNaN = false := by
  unfold UnpackedFloat.ofScientific
  split
  · rfl
  · split
    · rfl
    · split
      · rfl
      · split
        · exact isNaN_mul spec rfl rfl
        · exact isNaN_div spec rfl rfl

theorem isNaN_ofNat (spec : Format) (n : Nat) : (UnpackedFloat.ofNat spec n).isNaN = false := by
  unfold UnpackedFloat.ofNat UnpackedFloat.ofInt UnpackedFloat.normalize
  split
  · exact isNaN_roundWithAccuracy spec _ _ _ _
  · rfl
  · exact isNaN_roundWithAccuracy spec _ _ _ _

/-! ### Packing keeps numbers defined -/

/-- Only the greatest exponent marks infinite and undefined numbers. -/
theorem isNaN_unpack_packComponents {s : Sign} {e : BitVec 11} {m : BitVec 52}
    (h : e ≠ -1#11 ∨ m = 0#52) :
    (UnpackedFloat.unpack Format.binary64 (packComponents Format.binary64 s e m)).isNaN = false := by
  unfold UnpackedFloat.unpack
  simp only [unpackMantissa_packComponents, unpackExponent_packComponents]
  split
  · next he =>
    rw [if_pos (h.resolve_left fun hne => hne he)]
    rfl
  · split
    · split <;> rfl
    · rfl

/-- A number that is not zero is packed with an exponent of finite doubles, or is too great, and its
sign makes no difference. -/
theorem pack_finite {m : Nat} {e : Int} (hm : 0 < m) :
    (971 < e ∧ ∀ s, UnpackedFloat.pack Format.binary64 (.finite s m e hm) =
      packedInfinity Format.binary64 s) ∨
    ∃ (e' : BitVec 11) (m' : BitVec 52), e' ≠ -1#11 ∧
      ∀ s, UnpackedFloat.pack Format.binary64 (.finite s m e hm) =
        packComponents Format.binary64 s e' m' := by
  have hbias : Format.binary64.exponentBias = 1023 := by decide
  unfold UnpackedFloat.pack
  dsimp only
  rw [hbias]
  split
  · next hgt =>
    change 2048 ≤ (e + ((1023 : Nat) : Int) + ((52 : Nat) : Int)).toNat + 1 at hgt
    exact .inl ⟨by omega, fun _ => rfl⟩
  · next hlt =>
    change ¬2048 ≤ (e + ((1023 : Nat) : Int) + ((52 : Nat) : Int)).toNat + 1 at hlt
    split
    · refine .inr ⟨_, _, fun heq => ?_, fun _ => rfl⟩
      have hnat := congrArg BitVec.toNat heq
      rw [BitVec.toNat_ofNat] at hnat
      change (e + ((1023 : Nat) : Int) + ((52 : Nat) : Int)).toNat % 2048 = 2047 at hnat
      omega
    · exact .inr ⟨_, _, by decide, fun _ => rfl⟩

theorem isNaN_unpacked_packed {u : UnpackedFloat} (h : u.isNaN = false) :
    (unpacked (packed u)).isNaN = false := by
  rw [unpacked_packed]
  cases u with
  | notANumber => cases h
  | infinity s => exact isNaN_unpack_packComponents (.inr rfl)
  | zero s => exact isNaN_unpack_packComponents (.inr rfl)
  | finite s m e hm =>
    obtain ⟨-, hpack⟩ | ⟨e', m', he', hpack⟩ := pack_finite (e := e) hm
    · rw [hpack]
      exact isNaN_unpack_packComponents (.inr rfl)
    · rw [hpack]
      exact isNaN_unpack_packComponents (.inl he')

/-! ### Decimals -/

theorem isProper_powersOfTen : ∀ e : Fin 23,
    isProper (unpacked (Float.exactlyRepresentablePowersOfTen[e])) = true := by
  decide +kernel

theorem isNaN_float_ofScientific (m : Nat) (s : Bool) (e : Nat) :
    (unpacked (Float.ofScientific m s e)).isNaN = false := by
  unfold Float.ofScientific
  split
  · next h =>
    have hten := isProper_powersOfTen ⟨e, Nat.lt_succ_of_le h.2⟩
    have hm : (unpacked m.toUInt64.toFloat).isNaN = false :=
      isNaN_unpacked_packed (isNaN_ofNat _ _)
    dsimp only
    split
    · exact isNaN_unpacked_packed (isNaN_div _ hm hten)
    · exact isNaN_unpacked_packed (isNaN_mul _ hm hten)
  · exact isNaN_unpacked_packed (isNaN_ofScientific _ _ _)

/-- The double of a decimal is defined. -/
theorem isNaN_ofDecimal (d : Decimal) : (unpacked (ofDecimal d)).isNaN = false := by
  unfold ofDecimal
  dsimp only
  split
  · decide +kernel
  · split
    · decide +kernel
    · split <;> exact isNaN_float_ofScientific _ _ _

end Formulary.Binary64

namespace Formulary.Double

open Float.Model Binary64

/-- A number that is no undefined one equals itself. -/
theorem unpacked_beq_self_of_not_isNaN {u : UnpackedFloat} (h : u.isNaN = false) :
    u.beq u = true := by
  cases u with
  | notANumber => cases h
  | infinity s => cases s <;> rfl
  | _ => exact unpacked_beq_self rfl

/-- The double of a decimal that is not finite is infinite. -/
theorem isInfinite_ofDecimal (d : Decimal) :
    RealArith.isInfinite (RealArith.ofDecimal d : Double) =
      !RealArith.isFinite (RealArith.ofDecimal d : Double) := by
  have hself : ((RealArith.ofDecimal d : Double) == RealArith.ofDecimal d) = true :=
    unpacked_beq_self_of_not_isNaN (isNaN_ofDecimal d)
  unfold RealArith.isInfinite
  rw [hself, Bool.and_true]

end Formulary.Double

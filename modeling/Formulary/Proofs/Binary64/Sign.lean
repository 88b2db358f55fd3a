import Formulary.Proofs.Binary64.Word

/-!
# Doubles without a minus sign

* `isPlus`: the unpacked number has no minus sign.
* `isPlus_mul`, `isPlus_div`, `isPlus_ofScientific`: operations that introduce none.
* **`isPlus_ofDecimal`**: the double of a decimal has no minus sign.
* `partsOf`, `decode_eq_partsOf`: what a double stands for, from its unpacked number.
* `decode_neg`: what a negative double stands for, and its negation.
* **`text_eq_neg`**: the text of a negative double is a minus sign and the text of its negation.
-/

namespace Formulary.Binary64

open Float.Model Float.Model.UnpackedFloat

/-- The number has no minus sign. -/
def isPlus : UnpackedFloat → Bool
  | .notANumber => true
  | .infinity s | .zero s | .finite s .. => s == .positive

/-! ### Operations on numbers without a minus sign -/

theorem sign_eq_of_isPlus {s : Sign} (h : (s == .positive) = true) : s = .positive := by
  cases s with
  | positive => rfl
  | negative => exact absurd h Bool.false_ne_true

theorem isPlus_roundWithAccuracy (spec : Format) (m : Nat) (e : Int) (acc : Accuracy) :
    isPlus (roundWithAccuracy spec .positive m e acc) = true := by
  unfold roundWithAccuracy
  dsimp only
  split <;> rfl

/-- The numbers without a minus sign. -/
theorem cases_of_isPlus {u : UnpackedFloat} (h : isPlus u = true) :
    u = .notANumber ∨ u = .infinity .positive ∨ u = .zero .positive ∨
      ∃ m e hm, u = .finite .positive m e hm := by
  cases u with
  | notANumber => exact .inl rfl
  | infinity s =>
    obtain rfl := sign_eq_of_isPlus h
    exact .inr (.inl rfl)
  | zero s =>
    obtain rfl := sign_eq_of_isPlus h
    exact .inr (.inr (.inl rfl))
  | finite s m e hm =>
    obtain rfl := sign_eq_of_isPlus h
    exact .inr (.inr (.inr ⟨m, e, hm, rfl⟩))

theorem isPlus_mul (spec : Format) {u v : UnpackedFloat} (hu : isPlus u = true)
    (hv : isPlus v = true) : isPlus (u.mul spec v) = true := by
  obtain rfl | rfl | rfl | ⟨m, e, hm, rfl⟩ := cases_of_isPlus hu <;>
    obtain rfl | rfl | rfl | ⟨m', e', hm', rfl⟩ := cases_of_isPlus hv <;>
    first | rfl | exact isPlus_roundWithAccuracy spec _ _ _

theorem isPlus_div (spec : Format) {u v : UnpackedFloat} (hu : isPlus u = true)
    (hv : isPlus v = true) : isPlus (u.div spec v) = true := by
  obtain rfl | rfl | rfl | ⟨m, e, hm, rfl⟩ := cases_of_isPlus hu <;>
    obtain rfl | rfl | rfl | ⟨m', e', hm', rfl⟩ := cases_of_isPlus hv <;>
    first | rfl | exact isPlus_roundWithAccuracy spec _ _ _

theorem isPlus_ofScientific (spec : Format) (m : Nat) (e : Int) :
    isPlus (UnpackedFloat.ofScientific spec m e) = true := by
  unfold UnpackedFloat.ofScientific
  split
  · rfl
  · split
    · rfl
    · split
      · rfl
      · split
        · exact isPlus_mul spec rfl rfl
        · exact isPlus_div spec rfl rfl

theorem isPlus_ofNat (spec : Format) (n : Nat) : isPlus (UnpackedFloat.ofNat spec n) = true := by
  unfold UnpackedFloat.ofNat UnpackedFloat.ofInt UnpackedFloat.normalize
  split
  · next h =>
    rw [Int.compare_eq_lt] at h
    omega
  · rfl
  · exact isPlus_roundWithAccuracy spec _ _ _

/-! ### Packing keeps the sign -/

theorem unpacked_packed (u : UnpackedFloat) :
    unpacked (packed u) = UnpackedFloat.unpack Format.binary64 (UnpackedFloat.pack Format.binary64 u) :=
  rfl

theorem isPlus_unpack_packComponents (e : BitVec 11) (m : BitVec 52) :
    isPlus (UnpackedFloat.unpack Format.binary64 (packComponents Format.binary64 .positive e m))
      = true := by
  unfold UnpackedFloat.unpack
  simp only [unpackSign_packComponents, sign_ofBitVec_toBitVec]
  split
  · split <;> rfl
  · split
    · split <;> rfl
    · rfl

theorem isPlus_unpacked_packed {u : UnpackedFloat} (h : isPlus u = true) :
    isPlus (unpacked (packed u)) = true := by
  rw [unpacked_packed]
  obtain rfl | rfl | rfl | ⟨m, e, hm, rfl⟩ := cases_of_isPlus h
  · rfl
  · rfl
  · rfl
  · unfold UnpackedFloat.pack
    dsimp only
    split
    · exact isPlus_unpack_packComponents _ _
    · split <;> exact isPlus_unpack_packComponents _ _

/-! ### Decimals -/

theorem isPlus_powersOfTen : ∀ e : Fin 23,
    isPlus (unpacked (Float.exactlyRepresentablePowersOfTen[e])) = true := by
  decide +kernel

theorem isPlus_float_ofScientific (m : Nat) (s : Bool) (e : Nat) :
    isPlus (unpacked (Float.ofScientific m s e)) = true := by
  unfold Float.ofScientific
  split
  · next h =>
    have hten := isPlus_powersOfTen ⟨e, Nat.lt_succ_of_le h.2⟩
    have hm : isPlus (unpacked m.toUInt64.toFloat) = true :=
      isPlus_unpacked_packed (isPlus_ofNat _ _)
    dsimp only
    split
    · exact isPlus_unpacked_packed (isPlus_div _ hm hten)
    · exact isPlus_unpacked_packed (isPlus_mul _ hm hten)
  · exact isPlus_unpacked_packed (isPlus_ofScientific _ _ _)

/-- The double of a decimal has no minus sign. -/
theorem isPlus_ofDecimal (d : Decimal) : isPlus (unpacked (ofDecimal d)) = true := by
  unfold ofDecimal
  dsimp only
  split
  · decide +kernel
  · split
    · decide +kernel
    · split <;> exact isPlus_float_ofScientific _ _ _

/-! ### Texts -/

/-- The parts of a word from its fields as numbers. -/
theorem decode_eq {x : Float} {n e m : Nat}
    (hx : x.toBits.toNat = n * 0x8000000000000000 + e * 0x10000000000000 + m) (he : e < 0x800)
    (hm : m < 0x10000000000000) :
    decode x = if e = 2047 then if m = 0 then .infinite (n == 1) else .undefined
      else if e = 0 then .finite (n == 1) m (-1074)
      else .finite (n == 1) (0x10000000000000 + m) ((e : Int) - 1075) := by
  have hsign : x.toBits.toNat >>> 63 = n := by
    rw [hx, Nat.shiftRight_eq_div_pow]
    omega
  have hexponent : x.toBits.toNat >>> 52 % 0x800 = e := by
    rw [hx, Nat.shiftRight_eq_div_pow]
    omega
  have hfraction : x.toBits.toNat % 0x10000000000000 = m := by
    rw [hx]
    omega
  unfold decode
  simp only [hsign, hexponent, hfraction]

/-- The sign is a minus. -/
def isMinus (s : Sign) : Bool :=
  s == .negative

theorem isMinus_ofBitVec (s : BitVec 1) : isMinus (Sign.ofBitVec s) = (s.toNat == 1) := by
  obtain rfl | rfl := BitVec.eq_zero_or_eq_one s <;> rfl

/-- What a double with this unpacked number stands for. -/
def partsOf : UnpackedFloat → Parts
  | .notANumber => .undefined
  | .infinity s => .infinite (isMinus s)
  | .zero s => .finite (isMinus s) 0 (-1074)
  | .finite s m e _ => .finite (isMinus s) m e

/-- The parts read from the bits are those of the unpacked number. -/
theorem decode_eq_partsOf (x : Float) : decode x = partsOf (unpacked x) := by
  let w : BitVec Format.binary64.numBits := x.toBits.toBitVec
  let e : BitVec 11 := unpackExponent w
  let m : BitVec 52 := unpackMantissa w
  have hbits : x.toBits.toNat =
      (unpackSign w).toNat * 0x8000000000000000 + e.toNat * 0x10000000000000 + m.toNat := by
    rw [← UInt64.toNat_toBitVec, ← sign_toBitVec_ofBitVec (unpackSign w), ← toNat_packComponents]
    exact congrArg BitVec.toNat (packComponents_fields w).symm
  have hinfinite : e = -1#11 ↔ e.toNat = 2047 := BitVec.toNat_inj.symm
  have hzero : e = 0#11 ↔ e.toNat = 0 := BitVec.toNat_inj.symm
  have hnone : m = 0#52 ↔ m.toNat = 0 := BitVec.toNat_inj.symm
  have hbias : Format.binary64.exponentBias = 1023 := by decide
  rw [decode_eq hbits e.isLt m.isLt, ← isMinus_ofBitVec]
  show _ = partsOf (UnpackedFloat.unpack Format.binary64 w)
  unfold UnpackedFloat.unpack
  dsimp only
  by_cases he : e.toNat = 2047
  · rw [if_pos he, if_pos (hinfinite.2 he)]
    by_cases hm : m.toNat = 0
    · rw [if_pos hm, if_pos (hnone.2 hm)]
      rfl
    · rw [if_neg hm, if_neg (mt hnone.1 hm)]
      rfl
  · rw [if_neg he, if_neg (mt hinfinite.1 he)]
    by_cases he0 : e.toNat = 0
    · rw [if_pos he0, if_pos (hzero.2 he0)]
      by_cases hm : m.toNat = 0
      · rw [dif_pos (hnone.2 hm), hm]
        rfl
      · rw [dif_neg (mt hnone.1 hm), hbias]
        show _ = Parts.finite _ m.toNat ((e.toNat : Int) - ((1023 : Nat) + (52 : Nat)) + 1)
        rw [he0]
        rfl
    · rw [if_neg he0, if_neg (mt hzero.1 he0), ← toNat_hidden_bit m, hbias]
      rfl

/-- A negative double and its negation stand for the same number with either sign. -/
theorem decode_neg {x : Float} (hlt : (unpacked x).lt (.zero .positive) = true) :
    (∃ m q, decode x = .finite true m q ∧ decode (-x) = .finite false m q) ∨
      decode x = .infinite true ∧ decode (-x) = .infinite false := by
  rw [decode_eq_partsOf, decode_eq_partsOf, unpacked_neg]
  cases hx : unpacked x with
  | infinity s =>
    rw [hx] at hlt
    cases s with
    | negative => exact .inr ⟨rfl, rfl⟩
    | positive => exact absurd hlt Bool.false_ne_true
  | finite s m e hm =>
    rw [hx] at hlt
    cases s with
    | negative => exact .inl ⟨m, e, rfl, rfl⟩
    | positive => exact absurd hlt Bool.false_ne_true
  | _ =>
    rw [hx] at hlt
    exact absurd hlt Bool.false_ne_true

/-- The text of a negative double is a minus sign and the text of its negation. -/
theorem text_eq_neg {x : Float} (hlt : (unpacked x).lt (.zero .positive) = true) :
    text x = "-" ++ text (-x) := by
  unfold text textWith
  obtain ⟨m, q, hx, hn⟩ | ⟨hx, hn⟩ := decode_neg hlt
  · rw [hx, hn]
    show "-" ++ _ = "-" ++ ("" ++ _)
    rw [String.empty_append]
  · rw [hx, hn]
    rfl

end Formulary.Binary64

import Formulary.Proofs.Arithmetic.SignLaws
import Formulary.Proofs.Binary64.Defined
import Formulary.Proofs.Binary64.Order

/-!
# Operations of doubles and signs

An operation of the machine rounds a number and its negation alike. Only the sign of a zero is not
kept: a sum that cancels gives a positive zero whatever the signs of the summands were.

* `Alike u v`: the same number, but for the sign of a zero.
* `add_neg`, `sub_eq_add_neg`, `mul_neg_left`, `div_neg_left`: unpacked numbers with other signs.
* `Alike.add`, `Alike.mul`, `Alike.div`: the sign of a zero does not show in other numbers.
* `stored u`: the number that is left of `u` in a double; `stored_neg`, `Alike.stored`.
* `lengthOf u v`: the length of a vector of unpacked numbers.
* `view_add`, `view_mul`, `view_div`, `view_hypot`: the operations of doubles on these numbers.
-/

namespace Formulary.Binary64

open Float.Model Float.Model.UnpackedFloat

/-! ### Zeros of either sign -/

/-- The same number, but for the sign of a zero. -/
inductive Alike : UnpackedFloat → UnpackedFloat → Prop where
  | refl (u : UnpackedFloat) : Alike u u
  | zero (s t : Sign) : Alike (.zero s) (.zero t)

namespace Alike

variable {u u' v v' w : UnpackedFloat}

theorem of_eq (h : u = v) : Alike u v :=
  h ▸ .refl u

theorem symm (h : Alike u v) : Alike v u := by
  cases h with
  | refl => exact .refl u
  | zero s t => exact .zero t s

theorem trans (h : Alike u v) (h' : Alike v w) : Alike u w := by
  cases h with
  | refl => exact h'
  | zero s t =>
    cases h' with
    | refl => exact .zero s t
    | zero _ r => exact .zero s r

theorem compare_left (h : Alike u u') (v : UnpackedFloat) : u.compare v = u'.compare v := by
  cases h with
  | refl => rfl
  | zero s t =>
    cases v with
    | finite r => cases r <;> rfl
    | infinity r => cases r <;> rfl
    | _ => rfl

theorem compare_right (h : Alike v v') (u : UnpackedFloat) : u.compare v = u.compare v' := by
  cases h with
  | refl => rfl
  | zero s t =>
    cases u with
    | finite r => cases r <;> rfl
    | infinity r => cases r <;> rfl
    | _ => rfl

/-- Numbers that test equal are alike. -/
theorem of_beq (h : u.beq v = true) : Alike u v := by
  have heq : u.compare v = some .eq := LawfulBEq.eq_of_beq h
  cases u with
  | notANumber => cases heq
  | infinity s =>
    cases v with
    | infinity t => cases s <;> cases t <;> first | exact .refl _ | cases heq
    | _ => cases s <;> cases heq
  | zero s =>
    cases v with
    | zero t => exact .zero s t
    | finite t => cases t <;> cases heq
    | infinity t => cases t <;> cases heq
    | notANumber => cases heq
  | finite s m e hm =>
    cases v with
    | finite t m' e' hm' =>
      -- for two negative numbers the order is turned round, but equality is not
      have hparts (h : ((compare e e').then (compare m m')) = .eq) (r : Sign) :
          Alike (.finite r m e hm) (.finite r m' e' hm') := by
        obtain ⟨he, hm⟩ := Ordering.then_eq_eq.1 h
        obtain rfl := compare_eq_iff_eq.1 he
        obtain rfl := compare_eq_iff_eq.1 hm
        exact .refl _
      cases s <;> cases t
      · exact hparts (Ordering.swap_eq_eq.1 (Option.some.inj heq)) _
      · cases heq
      · cases heq
      · exact hparts (Option.some.inj heq) _
    | infinity t => cases s <;> cases t <;> cases heq
    | _ => cases s <;> cases heq

end Alike

theorem unpacked_beq_comm (u v : UnpackedFloat) : u.beq v = v.beq u := by
  unfold UnpackedFloat.beq
  rw [compare_swap u v]
  cases u.compare v with
  | none => rfl
  | some o => cases o <;> rfl

/-- A finite number that is neither below zero nor zero is above it. -/
theorem unpacked_zero_lt {u : UnpackedFloat} (h : u.isFinite = true)
    (hlt : u.lt (.zero .positive) = false) (hne : u.beq (.zero .positive) = false) :
    UnpackedFloat.lt (.zero .positive) u = true := by
  cases u with
  | finite s m e hm =>
    cases s with
    | negative => exact absurd hlt (Ne.symm Bool.false_ne_true)
    | positive => rfl
  | zero s => exact absurd hne (Ne.symm Bool.false_ne_true)
  | _ => exact absurd h Bool.false_ne_true

/-! ### Rounding -/

theorem roundWithAccuracy_neg (spec : Format) (s : Sign) (m : Nat) (e : Int) (acc : Accuracy) :
    roundWithAccuracy spec (-s) m e acc = (roundWithAccuracy spec s m e acc).neg := by
  unfold roundWithAccuracy
  dsimp only
  split <;> rfl

/-- A sum that is not zero is rounded like the sum with the other sign. -/
theorem normalize_neg (spec : Format) (m e : Int) :
    Alike (UnpackedFloat.normalize spec (-m) e .positive)
      (UnpackedFloat.normalize spec m e .positive).neg := by
  rcases lt_trichotomy m 0 with hm | rfl | hm
  · have hneg : compare (-m) 0 = .gt := Int.compare_eq_gt.2 (by omega)
    unfold UnpackedFloat.normalize
    rw [hneg, Int.compare_eq_lt.2 hm]
    exact .of_eq (roundWithAccuracy_neg spec .negative _ _ _)
  -- a sum that cancels is a positive zero, and its negation a negative one
  · exact .zero _ _
  · have hneg : compare (-m) 0 = .lt := Int.compare_eq_lt.2 (by omega)
    unfold UnpackedFloat.normalize
    rw [hneg, Int.compare_eq_gt.2 hm, Int.neg_neg]
    exact .of_eq (roundWithAccuracy_neg spec .positive _ _ _)

theorem apply_neg (s : Sign) (k : Int) : (-s).apply k = -s.apply k := by
  cases s with
  | negative => exact (Int.neg_neg k).symm
  | positive => rfl

/-! ### Operations -/

theorem sign_neg_mul (s t : Sign) : -s * t = -(s * t) := by
  cases s <;> cases t <;> rfl

theorem sign_mul_comm (s t : Sign) : s * t = t * s := by
  cases s <;> cases t <;> rfl

theorem sign_neg_div (s t : Sign) : -s / t = -(s / t) := by
  cases s <;> cases t <;> rfl

theorem sub_eq_add_neg (spec : Format) (u v : UnpackedFloat) : u.sub spec v = u.add spec v.neg := by
  cases u with
  | finite s m e hm =>
    cases v with
    | finite t m' e' hm' =>
      simp only [UnpackedFloat.sub, UnpackedFloat.add, UnpackedFloat.neg, apply_neg, Int.sub_eq_add_neg]
    | _ => rfl
  | _ => cases v <;> rfl

theorem add_neg (spec : Format) (u v : UnpackedFloat) :
    Alike (u.neg.add spec v.neg) (u.add spec v).neg := by
  cases u with
  | finite s m e hm =>
    cases v with
    | finite t m' e' hm' =>
      simp only [UnpackedFloat.add, UnpackedFloat.neg, apply_neg, ← Int.neg_add]
      exact normalize_neg spec _ _
    | _ => exact .refl _
  | infinity s =>
    cases v with
    | infinity t => cases s <;> cases t <;> exact .refl _
    | _ => exact .refl _
  | zero s =>
    cases v with
    | zero t => cases s <;> cases t <;> first | exact .refl _ | exact .zero _ _
    | _ => exact .refl _
  | notANumber => exact .refl _

theorem mul_neg_left (spec : Format) (u v : UnpackedFloat) :
    u.neg.mul spec v = (u.mul spec v).neg := by
  cases u with
  | finite s m e hm =>
    cases v with
    | finite t m' e' hm' =>
      rw [UnpackedFloat.neg, UnpackedFloat.mul, UnpackedFloat.mul, sign_neg_mul,
        roundWithAccuracy_neg]
    | notANumber => rfl
    | infinity t => cases s <;> cases t <;> rfl
    | zero t => cases s <;> cases t <;> rfl
  | notANumber => rfl
  | infinity s =>
    cases v with
    | notANumber => rfl
    | zero t => rfl
    | infinity t => cases s <;> cases t <;> rfl
    | finite t m' e' hm' => cases s <;> cases t <;> rfl
  | zero s =>
    cases v with
    | notANumber => rfl
    | infinity t => rfl
    | zero t => cases s <;> cases t <;> rfl
    | finite t m' e' hm' => cases s <;> cases t <;> rfl

theorem unpacked_mul_comm (spec : Format) (u v : UnpackedFloat) : u.mul spec v = v.mul spec u := by
  cases u with
  | finite s m e hm =>
    cases v with
    | finite t m' e' hm' =>
      rw [UnpackedFloat.mul, UnpackedFloat.mul, sign_mul_comm, Nat.mul_comm, Int.add_comm]
    | notANumber => rfl
    | infinity t => exact congrArg UnpackedFloat.infinity (sign_mul_comm s t)
    | zero t => exact congrArg UnpackedFloat.zero (sign_mul_comm s t)
  | notANumber => cases v <;> rfl
  | infinity s =>
    cases v with
    | notANumber => rfl
    | zero t => rfl
    | _ t => exact congrArg UnpackedFloat.infinity (sign_mul_comm s t)
  | zero s =>
    cases v with
    | notANumber => rfl
    | infinity t => rfl
    | _ t => exact congrArg UnpackedFloat.zero (sign_mul_comm s t)

theorem div_neg_left (spec : Format) (u v : UnpackedFloat) :
    u.neg.div spec v = (u.div spec v).neg := by
  cases u with
  | finite s m e hm =>
    cases v with
    | finite t m' e' hm' =>
      rw [UnpackedFloat.neg, UnpackedFloat.div, UnpackedFloat.div, sign_neg_div]
      exact roundWithAccuracy_neg spec _ _ _ _
    | notANumber => rfl
    | infinity t => exact congrArg UnpackedFloat.zero (sign_neg_div s t)
    | zero t => exact congrArg UnpackedFloat.infinity (sign_neg_div s t)
  | notANumber => rfl
  | infinity s =>
    cases v with
    | notANumber => rfl
    | infinity t => rfl
    | _ t => exact congrArg UnpackedFloat.infinity (sign_neg_div s t)
  | zero s =>
    cases v with
    | notANumber => rfl
    | zero t => rfl
    | _ t => exact congrArg UnpackedFloat.zero (sign_neg_div s t)

namespace Alike

variable {u u' v v' : UnpackedFloat}

theorem add (spec : Format) (h : Alike u u') (h' : Alike v v') :
    Alike (u.add spec v) (u'.add spec v') := by
  cases h with
  | refl =>
    cases h' with
    | refl => exact .refl _
    | zero s t =>
      cases u with
      | zero r => cases r <;> cases s <;> cases t <;> exact .zero _ _
      | _ => exact .refl _
  | zero s t =>
    cases h' with
    | refl =>
      cases v with
      | zero r => cases s <;> cases t <;> cases r <;> exact .zero _ _
      | _ => exact .refl _
    | zero s' t' => cases s <;> cases t <;> cases s' <;> cases t' <;> exact .zero _ _

theorem mul_right (spec : Format) (h : Alike u u') (v : UnpackedFloat) :
    Alike (u.mul spec v) (u'.mul spec v) := by
  cases h with
  | refl => exact .refl _
  | zero s t =>
    cases v with
    | notANumber => exact .refl _
    | infinity r => exact .refl _
    | _ r => exact .zero _ _

theorem mul (spec : Format) (h : Alike u u') (h' : Alike v v') :
    Alike (u.mul spec v) (u'.mul spec v') := by
  refine (h.mul_right spec v).trans ?_
  rw [unpacked_mul_comm spec u' v, unpacked_mul_comm spec u' v']
  exact h'.mul_right spec u'

theorem div (spec : Format) (h : Alike u u') (v : UnpackedFloat) :
    Alike (u.div spec v) (u'.div spec v) := by
  cases h with
  | refl => exact .refl _
  | zero s t =>
    cases v with
    | notANumber => exact .refl _
    | zero r => exact .refl _
    | _ r => exact .zero _ _

end Alike

/-! ### Numbers kept in doubles -/

/-- The number that is left of an unpacked one in a double. -/
def stored (u : UnpackedFloat) : UnpackedFloat :=
  unpacked (packed u)

theorem stored_notANumber : stored .notANumber = .notANumber := by
  rfl

theorem stored_zero (s : Sign) : stored (.zero s) = .zero s := by
  cases s <;> rfl

/-- A number and its negation are kept alike. -/
theorem stored_neg (u : UnpackedFloat) : stored u.neg = (stored u).neg := by
  cases u with
  | notANumber => rfl
  | infinity s => cases s <;> rfl
  | zero s => cases s <;> rfl
  | finite s m e hm =>
    unfold stored UnpackedFloat.neg
    rw [unpacked_packed, unpacked_packed]
    -- whether the number overflows and how it is rounded do not depend on its sign
    obtain ⟨-, hpack⟩ | ⟨e', m', he', hpack⟩ := pack_finite (e := e) hm
    · rw [hpack, hpack]
      exact unpack_packComponents_neg s _ _ fun _ => rfl
    · rw [hpack, hpack]
      exact unpack_packComponents_neg s e' m' fun h => absurd h he'

theorem Alike.stored {u v : UnpackedFloat} (h : Alike u v) : Alike (stored u) (stored v) := by
  cases h with
  | refl => exact .refl _
  | zero s t =>
    rw [stored_zero, stored_zero]
    exact .zero s t

/-! ### The length of a vector -/

/-- The length of a vector of unpacked numbers, whose signs do not count. -/
def lengthOf (u v : UnpackedFloat) : UnpackedFloat :=
  match partsOf u, partsOf v with
  | .infinite _, _ | _, .infinite _ => .infinity .positive
  | .finite _ m p, .finite _ n q => unpacked (hypotParts m p n q)
  | _, _ => .notANumber

theorem lengthOf_neg (u v : UnpackedFloat) : lengthOf u.neg v.neg = lengthOf u v := by
  cases u <;> cases v <;> rfl

theorem Alike.lengthOf_eq {u u' v v' : UnpackedFloat} (h : Alike u u') (h' : Alike v v') :
    lengthOf u v = lengthOf u' v' := by
  cases h with
  | refl =>
    cases h' with
    | refl => rfl
    | zero s t => cases u <;> rfl
  | zero s t =>
    cases h' with
    | refl => cases v <;> rfl
    | zero s t => rfl

theorem lengthOf_of_isInf {u v : UnpackedFloat} (h : (u.isInf || v.isInf) = true) :
    lengthOf u v = .infinity .positive := by
  cases u with
  | infinity s => rfl
  | _ =>
    cases v with
    | infinity t => rfl
    | _ => exact absurd h Bool.false_ne_true

theorem lengthOf_of_notANumber {u v : UnpackedFloat} (h : (u.isInf || v.isInf) = false)
    (hundefined : u = .notANumber ∨ v = .notANumber) : lengthOf u v = .notANumber := by
  rcases hundefined with rfl | rfl
  · cases v with
    | infinity t => exact absurd h (Ne.symm Bool.false_ne_true)
    | _ => rfl
  · cases u with
    | infinity s => exact absurd h (Ne.symm Bool.false_ne_true)
    | _ => rfl

theorem unpacked_infinity :
    unpacked (Float.ofBits 0x7ff0000000000000) = .infinity .positive := by
  rfl

theorem unpacked_undefined : unpacked (0.0 / 0.0) = .notANumber := by
  rfl

theorem unpacked_hypot (x y : Float) :
    unpacked (hypot x y) = lengthOf (unpacked x) (unpacked y) := by
  unfold hypot lengthOf
  rw [decode_eq_partsOf, decode_eq_partsOf]
  cases partsOf (unpacked x) with
  | infinite s => exact unpacked_infinity
  | undefined =>
    cases partsOf (unpacked y) with
    | infinite t => exact unpacked_infinity
    | _ => exact unpacked_undefined
  | finite s m p =>
    cases partsOf (unpacked y) with
    | infinite t => exact unpacked_infinity
    | finite t n q => rfl
    | undefined => exact unpacked_undefined

end Formulary.Binary64

namespace Formulary.Double

open Float.Model Float.Model.UnpackedFloat Binary64

/-! ### Operations of doubles -/

theorem view_map₂ {f : Float → Float → Float} {op : UnpackedFloat → UnpackedFloat → UnpackedFloat}
    (hf : ∀ x y, unpacked (f x y) = stored (op (unpacked x) (unpacked y)))
    (hleft : ∀ v, op .notANumber v = .notANumber) (hright : ∀ u, op u .notANumber = .notANumber)
    (a b : Double) : view (map₂ f a b) = stored (op (view a) (view b)) := by
  cases a with
  | defined x =>
    cases b with
    | defined y => exact (view_ofFloat (f x y)).trans (hf x y)
    | undefined t =>
      show UnpackedFloat.notANumber = stored (op (unpacked x) .notANumber)
      rw [hright, stored_notANumber]
  | undefined s =>
    rw [map₂_undefined_left]
    show UnpackedFloat.notANumber = stored (op .notANumber (view b))
    rw [hleft, stored_notANumber]

theorem view_add (a b : Double) :
    view (a + b) = stored ((view a).add Format.binary64 (view b)) :=
  view_map₂ (fun _ _ => rfl) (fun _ => rfl) (fun u => by cases u <;> rfl) a b

theorem view_sub (a b : Double) :
    view (a - b) = stored ((view a).sub Format.binary64 (view b)) :=
  view_map₂ (fun _ _ => rfl) (fun _ => rfl) (fun u => by cases u <;> rfl) a b

theorem view_mul (a b : Double) :
    view (a * b) = stored ((view a).mul Format.binary64 (view b)) :=
  view_map₂ (fun _ _ => rfl) (fun _ => rfl) (fun u => by cases u <;> rfl) a b

theorem view_div (a b : Double) :
    view (a / b) = stored ((view a).div Format.binary64 (view b)) :=
  view_map₂ (fun _ _ => rfl) (fun _ => rfl) (fun u => by cases u <;> rfl) a b

theorem unpacked_toFloat (a : Double) : unpacked a.toFloat = view a := by
  cases a with
  | defined x => rfl
  | undefined s => exact unpacked_undefined

theorem view_hypot (a b : Double) : view (hypot a b) = lengthOf (view a) (view b) := by
  have hisInf : ((view a).isInf || (view b).isInf) = (a.toFloat.isInf || b.toFloat.isInf) := by
    rw [← unpacked_toFloat, ← unpacked_toFloat]
    rfl
  unfold hypot
  rw [← hisInf]
  by_cases hinf : ((view a).isInf || (view b).isInf) = true
  · rw [if_pos hinf, lengthOf_of_isInf hinf]
    exact unpacked_infinity
  · rw [if_neg hinf]
    rw [Bool.not_eq_true] at hinf
    cases a with
    | defined x =>
      cases b with
      | defined y => exact (view_ofFloat _).trans (unpacked_hypot x y)
      | undefined t => exact (lengthOf_of_notANumber hinf (.inr rfl)).symm
    | undefined s =>
      rw [map₂_undefined_left]
      exact (lengthOf_of_notANumber hinf (.inl rfl)).symm

end Formulary.Double

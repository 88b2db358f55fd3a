import Mathlib
import Formulary.Proofs.Printing.Lexing
import Formulary.Decimal.Numeral

/-!
# Decimals that are written out

A decimal is written as digits, with a point before the last of them if its exponent is negative.
The text is a plain numeral of the same number.

* `positional_eq`: the digits before and after the point.
* `Decimal.expanded`: the decimal with the zeros that a positive exponent stands for.
* **`isPlainNumeral_positional`**, **`ofNumeral?_positional`**: the two statements.
-/

namespace Formulary

open Text

/-! ### Digits -/

theorem isDigit_of_mem_digitChars {d : Decimal} {c : Char} (h : c ∈ d.digitChars) :
    isDigit c = true := by
  have hdigit := Nat.isDigit_of_mem_toDigits (by decide) (by decide) h
  obtain ⟨hlow, hhigh⟩ := Bool.and_eq_true_iff.1 hdigit
  exact isDigit_iff.2 ⟨of_decide_eq_true hlow, of_decide_eq_true hhigh⟩

theorem digitChars_ne_nil (d : Decimal) : d.digitChars ≠ [] :=
  Nat.toDigits_ne_nil

theorem digitsValue_digitChars (d : Decimal) : digitsValue d.digitChars = d.digits :=
  Nat.ofDigitChars_ten_toDigits

theorem digitsValue_append_zeros (cs : List Char) (n : Nat) :
    digitsValue (cs ++ List.replicate n '0') = digitsValue cs * 10 ^ n := by
  show Nat.ofDigitChars 10 (cs ++ List.replicate n '0') 0 = Nat.ofDigitChars 10 cs 0 * 10 ^ n
  rw [Nat.ofDigitChars_append, Nat.ofDigitChars_replicate_zero, Nat.mul_comm]

theorem digitsValue_zeros_append (cs : List Char) (n : Nat) :
    digitsValue (List.replicate n '0' ++ cs) = digitsValue cs := by
  show Nat.ofDigitChars 10 (List.replicate n '0' ++ cs) 0 = Nat.ofDigitChars 10 cs 0
  rw [Nat.ofDigitChars_append, Nat.ofDigitChars_replicate_zero, Nat.mul_zero]

/-! ### Numerals -/

/-- Digits, and a point and digits if there are any after it. -/
def pointed (ds es : List Char) : List Char :=
  if es = [] then ds else ds ++ '.' :: es

section Pointed

variable {ds es : List Char}

theorem takeWhile_digits (hds : ∀ c ∈ ds, isDigit c = true) : ds.takeWhile isDigit = ds :=
  List.takeWhile_eq_self_iff.2 hds

theorem dropWhile_digits (hds : ∀ c ∈ ds, isDigit c = true) : ds.dropWhile isDigit = [] :=
  List.dropWhile_eq_nil_iff.2 hds

theorem takeDigits_point (hds : ∀ c ∈ ds, isDigit c = true) (es : List Char) :
    takeDigits (ds ++ '.' :: es) = ds :=
  takeDigits_append_stop hds fun c hc => by
    cases hc
    decide

theorem isPlainNumeral_pointed (hne : ds ≠ []) (hds : ∀ c ∈ ds, isDigit c = true)
    (hes : ∀ c ∈ es, isDigit c = true) : isPlainNumeral (pointed ds es) = true := by
  obtain ⟨d, ds, rfl⟩ := List.exists_cons_of_ne_nil hne
  have hd : isDigit d = true := hds d List.mem_cons_self
  unfold isPlainNumeral pointed
  cases es with
  | nil =>
    have htake : takeDigits (d :: ds) = d :: ds := takeWhile_digits hds
    rw [if_pos rfl, htake, List.drop_length]
    exact Bool.and_eq_true_iff.2 ⟨hd, by rw [show takeFraction [] = [] from rfl, List.append_nil,
      beq_self_eq_true]⟩
  | cons e es =>
    have hfraction : takeFraction ('.' :: e :: es) = '.' :: e :: es := by
      show (if isDigit e then '.' :: takeDigits (e :: es) else []) = _
      rw [if_pos (hes e List.mem_cons_self)]
      exact congrArg _ (takeWhile_digits hes)
    rw [if_neg (List.cons_ne_nil e es), takeDigits_point hds, List.drop_left, hfraction]
    exact Bool.and_eq_true_iff.2 ⟨hd, beq_self_eq_true _⟩

theorem ofNumeral?_pointed (hne : ds ≠ []) (hds : ∀ c ∈ ds, isDigit c = true)
    (hes : ∀ c ∈ es, isDigit c = true) :
    Decimal.ofNumeral? (pointed ds es) = some ⟨digitsValue (ds ++ es), -(es.length : Int)⟩ := by
  have hempty : ds.isEmpty = false := by
    rw [Bool.eq_false_iff]
    exact fun h => hne (List.isEmpty_iff.1 h)
  unfold pointed
  cases es with
  | nil =>
    have hdrop := dropWhile_digits hds
    have hpoint : ∀ t, ds.dropWhile isDigit ≠ '.' :: t := fun t =>
      hdrop ▸ (List.cons_ne_nil '.' t).symm
    rw [if_pos rfl, Decimal.ofNumeral?_of_no_point hpoint, takeWhile_digits hds, hdrop, hempty,
      if_neg Bool.false_ne_true, List.append_nil]
    rfl
  | cons e es =>
    have hdrop : (ds ++ '.' :: e :: es).dropWhile isDigit = '.' :: e :: es := by
      rw [List.dropWhile_append_of_pos hds]
      rfl
    have htakes : (ds ++ '.' :: e :: es).takeWhile isDigit = ds := takeDigits_point hds (e :: es)
    rw [if_neg (List.cons_ne_nil e es), Decimal.ofNumeral?_of_point hdrop, htakes,
      takeWhile_digits hes, dropWhile_digits hes, hempty, Bool.false_and,
      if_neg Bool.false_ne_true]
    show some (Decimal.mk _ _) = _
    rw [Int.zero_sub]

end Pointed

/-! ### Decimals -/

/-- The digits of a decimal before and after its point. -/
theorem positional_eq (d : Decimal) : ∃ ds es : List Char,
    d.positional = pointed ds es ∧ ds ≠ [] ∧ (∀ c ∈ ds, isDigit c = true) ∧
      (∀ c ∈ es, isDigit c = true) ∧ digitsValue (ds ++ es) = d.digits * 10 ^ d.exponent.toNat ∧
      es.length = (-d.exponent).toNat := by
  have hdigits : ∀ c ∈ d.digitChars, isDigit c = true := fun c => isDigit_of_mem_digitChars
  have hzeros (n : Nat) : ∀ c ∈ List.replicate n '0', isDigit c = true := fun c hc => by
    rw [List.eq_of_mem_replicate hc]
    decide
  have happend {xs ys : List Char} (hxs : ∀ c ∈ xs, isDigit c = true)
      (hys : ∀ c ∈ ys, isDigit c = true) : ∀ c ∈ xs ++ ys, isDigit c = true := fun c hc =>
    (List.mem_append.1 hc).elim (hxs c) (hys c)
  have hvalue := digitsValue_digitChars d
  unfold Decimal.positional
  cases hexponent : d.exponent with
  | ofNat n =>
    refine ⟨d.digitChars ++ List.replicate n '0', [], rfl, ?_, happend hdigits (hzeros n),
      List.forall_mem_nil _, ?_, (Int.toNat_neg_natCast n).symm⟩
    · exact List.append_ne_nil_of_left_ne_nil (digitChars_ne_nil d) _
    · rw [List.append_nil, digitsValue_append_zeros, hvalue]
      rfl
  | negSucc n =>
    show ∃ ds es, Decimal.pointBefore (n + 1) d.digitChars = _ ∧ _
    unfold Decimal.pointBefore
    split
    · next hlt =>
      let k := d.digitChars.length - (n + 1)
      have hlength : (d.digitChars.drop k).length = n + 1 := by
        rw [List.length_drop]
        omega
      refine ⟨d.digitChars.take k, d.digitChars.drop k, ?_, ?_,
        fun c hc => hdigits c (List.mem_of_mem_take hc),
        fun c hc => hdigits c (List.mem_of_mem_drop hc), ?_, hlength⟩
      · exact (if_neg (List.ne_nil_of_length_eq_add_one hlength)).symm
      · refine List.ne_nil_of_length_pos ?_
        rw [List.length_take]
        omega
      · rw [List.take_append_drop, hvalue]
        exact (Nat.mul_one _).symm
    · next hle =>
      have hlength : (List.replicate (n + 1 - d.digitChars.length) '0' ++ d.digitChars).length =
          n + 1 := by
        rw [List.length_append, List.length_replicate]
        omega
      refine ⟨['0'], List.replicate (n + 1 - d.digitChars.length) '0' ++ d.digitChars, ?_,
        List.cons_ne_nil _ _, hzeros 1, happend (hzeros _) hdigits, ?_, hlength⟩
      · exact (if_neg (List.ne_nil_of_length_eq_add_one hlength)).symm
      · show digitsValue (List.replicate 1 '0' ++ _) = _
        rw [digitsValue_zeros_append, digitsValue_zeros_append, hvalue]
        exact (Nat.mul_one _).symm

/-- The decimal with the zeros that a positive exponent stands for. -/
def Decimal.expanded (d : Decimal) : Decimal :=
  ⟨d.digits * 10 ^ d.exponent.toNat, -((-d.exponent).toNat : Int)⟩

/-- A decimal that is written out is a plain numeral. -/
theorem isPlainNumeral_positional (d : Decimal) : isPlainNumeral d.positional = true := by
  obtain ⟨ds, es, htext, hne, hds, hes, -⟩ := positional_eq d
  rw [htext]
  exact isPlainNumeral_pointed hne hds hes

/-- A decimal that is written out is read as itself with its zeros. -/
theorem ofNumeral?_positional (d : Decimal) :
    Decimal.ofNumeral? d.positional = some d.expanded := by
  obtain ⟨ds, es, htext, hne, hds, hes, hvalue, hlength⟩ := positional_eq d
  rw [htext, ofNumeral?_pointed hne hds hes, hvalue, hlength]
  rfl

end Formulary

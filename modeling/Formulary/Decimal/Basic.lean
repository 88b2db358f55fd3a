/-!
# Decimals

* `Decimal`: the number `digits · 10 ^ exponent`.
* `Decimal.positional`: its text with a point where needed and never an exponent.
* `Decimal.scientific`: its text with one digit before the point and an exponent.
-/

namespace Formulary

/-- The number `digits · 10 ^ exponent`. -/
structure Decimal where
  digits : Nat
  exponent : Int
  deriving DecidableEq, Repr, Inhabited

namespace Decimal

/-- The digits of the number without its exponent. -/
def digitChars (d : Decimal) : List Char :=
  Nat.toDigits 10 d.digits

/-- Digits with the point before the last `places` of them, zeros filled in on the left. -/
def pointBefore (places : Nat) (digits : List Char) : List Char :=
  if places < digits.length then
    digits.take (digits.length - places) ++ '.' :: digits.drop (digits.length - places)
  else '0' :: '.' :: List.replicate (places - digits.length) '0' ++ digits

/-- The number written out in full, without an exponent. -/
def positional (d : Decimal) : List Char :=
  match d.exponent with
  | .ofNat n => d.digitChars ++ List.replicate n '0'
  | .negSucc n => pointBefore (n + 1) d.digitChars

/-- The number with one digit before the point and an exponent after an `e`. -/
def scientific (d : Decimal) : List Char :=
  let point := d.exponent + (d.digitChars.length - 1 : Nat)
  let mantissa :=
    match d.digitChars with
    | [] => []
    | [c] => [c]
    | c :: cs => c :: '.' :: cs
  mantissa ++ 'e' :: (toString point).toList

example : positional ⟨125, -2⟩ = ['1', '.', '2', '5'] ∧ positional ⟨5, -3⟩ = "0.005".toList ∧
    positional ⟨5, 2⟩ = ['5', '0', '0'] := by decide +kernel

example : scientific ⟨125, -4⟩ = "1.25e-2".toList ∧ scientific ⟨5, 2⟩ = "5e2".toList := by
  decide +kernel

end Decimal

end Formulary

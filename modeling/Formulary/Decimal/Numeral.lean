import Formulary.Decimal.Basic
import Formulary.Text.Name

/-!
# Reading decimals

A numeral is digits with at most one point among them, at least one digit, and an optional exponent:
an `e` of either case, an optional sign and digits.

* `digitsValue`: the number that digits spell.
* `Decimal.ofNumeral?`: the decimal that a numeral stands for; `ofNumeral?_of_point` and
  `ofNumeral?_of_no_point` take the two forms of a numeral apart.
-/

namespace Formulary

open Text

/-- The number a digit stands for. -/
def digitValue (c : Char) : Nat :=
  c.toNat - '0'.toNat

/-- The number digits spell, after the number `n` before them. -/
def digitsValueFrom (n : Nat) (cs : List Char) : Nat :=
  cs.foldl (fun v c => 10 * v + digitValue c) n

/-- The number digits spell. -/
def digitsValue (cs : List Char) : Nat :=
  digitsValueFrom 0 cs

namespace Decimal

/-- The digits of an exponent, all of them to the end of the text. -/
def exponentDigits? (cs : List Char) : Option Nat :=
  if !cs.isEmpty && cs.all isDigit then some (digitsValue cs) else none

/-- The exponent at the end of a numeral: nothing for zero, or a mark, an optional sign and
digits. -/
def exponentValue? : List Char → Option Int
  | [] => some 0
  | m :: s =>
    if m == 'e' || m == 'E' then
      match s with
      | '-' :: r => (exponentDigits? r).map fun n => -(n : Int)
      | '+' :: r => (exponentDigits? r).map fun n => (n : Int)
      | r => (exponentDigits? r).map fun n => (n : Int)
    else none

/-- The decimal that a numeral stands for. -/
def ofNumeral? (s : List Char) : Option Decimal :=
  let whole := s.takeWhile isDigit
  let s₁ := s.dropWhile isDigit
  let fraction :=
    match s₁ with
    | '.' :: r => r.takeWhile isDigit
    | _ => []
  let s₂ :=
    match s₁ with
    | '.' :: r => r.dropWhile isDigit
    | r => r
  if whole.isEmpty && fraction.isEmpty then none
  else
    (exponentValue? s₂).map fun e => ⟨digitsValue (whole ++ fraction), e - fraction.length⟩

/-- The parts of a numeral with a point. -/
theorem ofNumeral?_of_point {s t : List Char} (h : s.dropWhile isDigit = '.' :: t) :
    ofNumeral? s =
      if (s.takeWhile isDigit).isEmpty && (t.takeWhile isDigit).isEmpty then none
      else (exponentValue? (t.dropWhile isDigit)).map fun e =>
        ⟨digitsValue (s.takeWhile isDigit ++ t.takeWhile isDigit),
          e - (t.takeWhile isDigit).length⟩ := by
  unfold ofNumeral?
  simp only [h]

/-- The parts of a numeral without a point. -/
theorem ofNumeral?_of_no_point {s : List Char} (h : ∀ t, s.dropWhile isDigit ≠ '.' :: t) :
    ofNumeral? s =
      if (s.takeWhile isDigit).isEmpty then none
      else (exponentValue? (s.dropWhile isDigit)).map fun e =>
        ⟨digitsValue (s.takeWhile isDigit), e⟩ := by
  unfold ofNumeral?
  dsimp only
  split
  · next t ht => exact absurd ht (h t)
  · simp only [List.isEmpty_nil, Bool.and_true, List.append_nil, List.length_nil,
      Int.natCast_zero, Int.sub_zero]

example : ofNumeral? "1.5e-3".toList = some ⟨15, -4⟩ ∧ ofNumeral? ".25".toList = some ⟨25, -2⟩ ∧
    ofNumeral? "1e".toList = none ∧ ofNumeral? ".".toList = none := by decide +kernel

end Decimal

end Formulary

import Formulary.Decimal.Rounding

/-!
# Words of binary floating point numbers

* `Binary64.Parts`: what a double stands for; `Binary64.decode` reads it from the bits.
* `Binary64.signBit`, `Binary64.floor?`: sign and integer part, exactly.
* `Binary64.twoPow`: powers of two. `Binary64.ofScaled`: the double nearest to `m · 2 ^ q`.
* `Binary64.ofDecimal`: the double nearest to a decimal.
* `Binary64.text`, `Binary64.scientific`, `Binary64.roundedText`: the written forms of a double.
-/

namespace Formulary.Binary64

/-- What a double stands for: no number, an infinity, or `mantissa · 2 ^ exponent` with a sign. -/
inductive Parts where
  | undefined
  | infinite (negative : Bool)
  | finite (negative : Bool) (mantissa : Nat) (exponent : Int)
  deriving DecidableEq, Repr

/-- The parts of a double. -/
def decode (x : Float) : Parts :=
  let bits : Nat := x.toBits.toNat
  let negative := bits >>> 63 == 1
  let biased : Nat := bits >>> 52 % 0x800
  let fraction : Nat := bits % 0x10000000000000
  if biased = 2047 then if fraction = 0 then .infinite negative else .undefined
  else if biased = 0 then .finite negative fraction (-1074)
  else .finite negative (0x10000000000000 + fraction) ((biased : Int) - 1075)

/-- The sign is a minus, be it that of a zero. -/
def signBit (x : Float) : Bool :=
  decide (0x8000000000000000 ≤ x.toBits.toNat)

/-- The greatest integer that is not above a finite double. -/
def floor? (x : Float) : Option Int :=
  match decode x with
  | .finite negative m q =>
    let signed : Int := if negative then -(m : Int) else m
    match q with
    | .ofNat n => some (signed <<< n)
    | .negSucc n => some (signed >>> (n + 1))
  | _ => none

/-- The power of two with an exponent from `-1022` to `1023`. -/
def twoPow (k : Int) : Float :=
  Float.ofBits (UInt64.ofNat ((k + 1023).toNat <<< 52))

/-- The double without the lower half of its bits. -/
def clearLow (x : Float) : Float :=
  Float.ofBits (UInt64.ofNat (x.toBits.toNat >>> 32 <<< 32))

/-- The double nearest to `m · 2 ^ q`, a half going to the even neighbour. The bits of a double,
read as a number, count the doubles from zero up, so a mantissa that is rounded up to the next power
of two moves the exponent by itself. -/
def ofScaled (m : Nat) (q : Int) : Float :=
  let size : Int := if m = 0 then 0 else m.log2 + 1
  let grid := max (q + size - 53) (-1074)
  let steps :=
    match grid - q with
    | .ofNat n => Decimal.divNearestEven m (1 <<< n)
    | .negSucc n => m <<< (n + 1)
  let bits := (grid + 1074).toNat <<< 52 + steps
  Float.ofBits (UInt64.ofNat (min bits 0x7ff0000000000000))

example : ofScaled 3 (-1) == 1.5 ∧ ofScaled 1 (-1074) == 5e-324 ∧ ofScaled 0x3fffffffffffff 0 ==
    18014398509481984.0 := by
  decide +kernel

/-! ### Decimals -/

/-- The number of digits of a natural number. -/
def digitCount (n : Nat) : Nat :=
  (Nat.toDigits 10 n).length

/-- The double nearest to a decimal. A decimal beyond all doubles is infinite, and one closer to
zero than all others is zero. -/
def ofDecimal (d : Decimal) : Float :=
  let size := d.exponent + digitCount d.digits
  if d.digits = 0 ∨ size < -400 then 0.0
  else if 400 < size then Float.ofBits 0x7ff0000000000000
  else
    match d.exponent with
    | .ofNat n => Float.ofScientific d.digits false n
    | .negSucc n => Float.ofScientific d.digits true (n + 1)

/-- The fraction `m · 2 ^ q`. -/
def ratio (m : Nat) (q : Int) : Nat × Nat :=
  match q with
  | .ofNat n => (m <<< n, 1)
  | .negSucc n => (m, 1 <<< (n + 1))

/-- The least `p` with `m · 2 ^ q < 10 ^ p`, from an estimate by the length of `m` in bits. -/
def decimalMagnitude (m : Nat) (q : Int) : Int :=
  let bits := (m.log2 : Int) + 1 + q
  let (num, den) := ratio m q
  Decimal.magnitude num den 4 ((bits * 30103).fdiv 100000 + 2)

/-- The reals that are rounded to `m · 2 ^ q`, with `m · 2 ^ q` among them: half way to both
neighbours, the ends included if `m` is even. The neighbour below a power of two is only half as
far. -/
def bracket (m : Nat) (q : Int) : Decimal.Bracket :=
  let below := if m = 0x10000000000000 ∧ -1074 < q then 1 else 2
  let (scale, den) := ratio 1 (q - 2)
  ⟨(4 * m - below) * scale, 4 * m * scale, (4 * m + 2) * scale, den, m % 2 = 0⟩

/-- The decimal with the fewest digits that is rounded to `m · 2 ^ q`, the nearest of them. -/
def shortest (m : Nat) (q : Int) : Decimal :=
  Decimal.shortest (bracket m q) (decimalMagnitude m q)

/-- The text of a double, from the text of a positive finite one and that of zero. -/
def textWith (zero : String) (positive : Nat → Int → List Char) (x : Float) : String :=
  match decode x with
  | .undefined => "NaN"
  | .infinite negative => if negative then "-inf" else "inf"
  | .finite negative m q =>
    (if negative then "-" else "") ++ if m = 0 then zero else String.ofList (positive m q)

/-- A double written out in full with the fewest digits that read back as the same double. -/
def text : Float → String :=
  textWith "0" fun m q => (shortest m q).positional

/-- A double with the fewest digits, one before the point, and an exponent. -/
def scientific : Float → String :=
  textWith "0e0" fun m q => (shortest m q).scientific

/-- A double with `count` digits, one before the point, and an exponent. A zero of either sign is
the digit zero. -/
def roundedText (count : Nat) (x : Float) : String :=
  if x == 0.0 then "0"
  else
    textWith "0" (fun m q =>
      let (num, den) := ratio m q
      (Decimal.rounded count num den (decimalMagnitude m q)).scientific) x

example : text 0.1 = "0.1" ∧ text 1e21 = "1000000000000000000000" ∧ text (-0.0) = "-0" := by
  decide +kernel

example : scientific 5e-324 = "5e-324" ∧ scientific 1.7976931348623157e308 =
    "1.7976931348623157e308" := by
  decide +kernel

example : roundedText 3 2.5 = "2.50e0" ∧ roundedText 2 0.125 = "1.2e-1" := by decide +kernel

end Formulary.Binary64

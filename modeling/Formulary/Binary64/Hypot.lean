import Formulary.Binary64.Decode

/-!
# The length of a vector

* `floorSqrt`: the root of a natural number, rounded down; `floorSqrt_le` and `lt_floorSqrt` pin it
  down.
* `Binary64.hypot`: the double nearest to the length of a vector. The squares of the coordinates are
  added exactly, and only the root is rounded.
-/

namespace Formulary

/-- The greatest number whose square is at most `n`, bit by bit. -/
def floorSqrt (n : Nat) : Nat :=
  if n = 0 then 0
  else
    let r := 2 * floorSqrt (n / 4)
    if (r + 1) * (r + 1) ≤ n then r + 1 else r
termination_by n

theorem floorSqrt_le (n : Nat) : floorSqrt n * floorSqrt n ≤ n := by
  fun_induction floorSqrt n with
  | case1 => simp
  | case2 n h r hr => exact hr
  | case3 n h r hr ih =>
    have h₁ : r * r = 4 * (floorSqrt (n / 4) * floorSqrt (n / 4)) :=
      Nat.mul_mul_mul_comm 2 _ 2 _
    omega

theorem lt_floorSqrt (n : Nat) : n < (floorSqrt n + 1) * (floorSqrt n + 1) := by
  fun_induction floorSqrt n with
  | case1 => simp
  | case2 n h r hr ih =>
    have h₁ : (r + 1 + 1) * (r + 1 + 1) =
        4 * ((floorSqrt (n / 4) + 1) * (floorSqrt (n / 4) + 1)) := by
      have h₂ : r + 1 + 1 = 2 * (floorSqrt (n / 4) + 1) := by omega
      rw [h₂]
      exact Nat.mul_mul_mul_comm 2 _ 2 _
    omega
  | case3 n h r hr ih => omega

namespace Binary64

/-- The number of doublings that make the root of `n` at least 56 bits long. -/
def rootShift (n : Nat) : Nat :=
  57 - n.log2 / 2

/-- The double nearest to the root of `n · 4 ^ e`. A digit after the root tells whether it is exact,
which decides how a half is rounded. -/
def sqrtScaled (n : Nat) (e : Int) : Float :=
  let k := rootShift n
  let scaled := n <<< (2 * k)
  let r := floorSqrt scaled
  ofScaled (2 * r + if r * r = scaled then 0 else 1) (e - k - 1)

/-- The length of the vector with coordinates `m · 2 ^ p` and `n · 2 ^ q`. -/
def hypotParts (m : Nat) (p : Int) (n : Nat) (q : Int) : Float :=
  let e := min p q
  let a := m <<< (p - e).toNat
  let b := n <<< (q - e).toNat
  sqrtScaled (a * a + b * b) e

/-- The length of the vector with two coordinates; infinite if one is, even next to an undefined
one. -/
def hypot (x y : Float) : Float :=
  match decode x, decode y with
  | .infinite _, _ | _, .infinite _ => Float.ofBits 0x7ff0000000000000
  | .finite _ m p, .finite _ n q => hypotParts m p n q
  | _, _ => 0.0 / 0.0

example : hypot 3.0 4.0 == 5.0 ∧ hypot 5e-324 0.0 == 5e-324 := by decide +kernel

example : hypot 0.8660254037844386 0.5 == 1.0 ∧ hypot 1e308 1e308 == 1.4142135623730951e308 := by
  decide +kernel

end Binary64

end Formulary

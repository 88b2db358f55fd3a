import Formulary.Binary64.Decode

/-!
# The real cube root

* `floorCbrt`: the cube root of a natural number, rounded down; `floorCbrt_le` and `lt_floorCbrt`
  pin it down.
* `Binary64.cbrt`: the double nearest to the cube root. The root of a whole number is computed with
  more digits than a double has, and is rounded once.
-/

namespace Formulary

/-- The greatest number whose cube is at most `n`, bit by bit. -/
def floorCbrt (n : Nat) : Nat :=
  if n = 0 then 0
  else
    let r := 2 * floorCbrt (n / 8)
    if (r + 1) * (r + 1) * (r + 1) ≤ n then r + 1 else r
termination_by n

theorem cube_two_mul (a : Nat) : 2 * a * (2 * a) * (2 * a) = 8 * (a * a * a) := by
  rw [Nat.mul_mul_mul_comm 2 a 2 a, Nat.mul_mul_mul_comm (2 * 2) (a * a) 2 a]

theorem floorCbrt_le (n : Nat) : floorCbrt n * floorCbrt n * floorCbrt n ≤ n := by
  fun_induction floorCbrt n with
  | case1 => simp
  | case2 n h r hr => exact hr
  | case3 n h r hr ih =>
    have h₁ : r * r * r = 8 * (floorCbrt (n / 8) * floorCbrt (n / 8) * floorCbrt (n / 8)) :=
      cube_two_mul _
    omega

theorem lt_floorCbrt (n : Nat) : n < (floorCbrt n + 1) * (floorCbrt n + 1) * (floorCbrt n + 1) := by
  fun_induction floorCbrt n with
  | case1 => simp
  | case2 n h r hr ih =>
    have h₁ : (r + 1 + 1) * (r + 1 + 1) * (r + 1 + 1) =
        8 * ((floorCbrt (n / 8) + 1) * (floorCbrt (n / 8) + 1) * (floorCbrt (n / 8) + 1)) := by
      have h₂ : r + 1 + 1 = 2 * (floorCbrt (n / 8) + 1) := by omega
      rw [h₂]
      exact cube_two_mul _
    omega
  | case3 n h r hr ih => omega

namespace Binary64

/-- The double nearest to the cube root of `n · 8 ^ e`. The root gets at least 56 bits, and one more
bit tells whether it is exact, which decides how a half is rounded. -/
def cbrtScaled (n : Nat) (e : Int) : Float :=
  let k := 57 - n.log2 / 3
  let scaled := n <<< (3 * k)
  let r := floorCbrt scaled
  ofScaled (2 * r + if r * r * r = scaled then 0 else 1) (e - k - 1)

/-- The cube root of `m · 2 ^ q`. -/
def cbrtParts (m : Nat) (q : Int) : Float :=
  cbrtScaled (m <<< (q % 3).toNat) (q / 3)

/-- The cube root. Zeros, infinities and the undefined double are their own. -/
def cbrt (x : Float) : Float :=
  match decode x with
  | .finite negative m q =>
    if m = 0 then x else if negative then -cbrtParts m q else cbrtParts m q
  | _ => x

example : cbrt 27.0 == 3.0 ∧ cbrt (-0.125) == -0.5 := by decide +kernel

example : cbrt 2.5 == 1.3572088082974534 ∧ cbrt 5e-324 == 1.7031839360032603e-108 := by
  decide +kernel

end Binary64

end Formulary

import Formulary.Formula.Interval
import Formulary.Proofs.Binary64.Order
import Formulary.Proofs.Program.Batch

/-!
# Values of formulas, point by point

A batch and an interval give at every point what the formula gives there alone, and an interval is
refused for its bounds, its step and its number of points only.

* `stepCount?_eq_some_iff`, `stepCount?_eq_none_iff`: the number of steps, and when there is none.
* `IsOrdered`, `intervalPoints_of_isOrdered`: the bounds and the step of an interval, its points.
* `interval_eq_map`: an interval is pointwise.
* `IsRefused`, `intervalPoints_of_isRefused`: the intervals without points.
* **`values_pointwise`**: batches and intervals of formulas over doubles.
-/

namespace Formulary

open RealArith

universe u

section Points

variable {R : Type u} [RealArith R] {min max step : R}

/-! ### The number of points -/

theorem stepCount?_eq_some_iff {n : ℕ} :
    stepCount? min max step = some n ↔
      ∃ k : ℤ, floor? ((max - min) / step) = some k ∧ k < maxIntervalPoints ∧ k.toNat = n := by
  unfold stepCount?
  cases floor? ((max - min) / step) with
  | none => simp
  | some k =>
    by_cases hk : k < maxIntervalPoints
    · simp [hk]
    · simp [hk]

theorem stepCount?_eq_none_iff :
    stepCount? min max step = none ↔
      floor? ((max - min) / step) = none ∨
        ∃ k : ℤ, floor? ((max - min) / step) = some k ∧ maxIntervalPoints ≤ k := by
  unfold stepCount?
  cases floor? ((max - min) / step) with
  | none => simp
  | some k => simp

/-! ### The points -/

/-- The bounds and the step are finite, the bounds are in order, and the step leads upwards. -/
structure IsOrdered (min max step : R) : Prop where
  min_finite : isFinite min = true
  max_finite : isFinite max = true
  min_le_max : le min max = true
  step_finite : isFinite step = true
  step_positive : le step 0 = false

theorem intervalPoints_of_isOrdered (h : IsOrdered min max step) :
    intervalPoints min max step =
      match stepCount? min max step with
      | some n => .ok ((List.range (n + 1)).map fun i => min + ofNat i * step)
      | none => .error (.tooLong min max step) := by
  have hguard :
      (isFinite min && isFinite max && le min max && isFinite step && !(le step 0)) = true := by
    rw [h.min_finite, h.max_finite, h.min_le_max, h.step_finite, h.step_positive]
    rfl
  unfold intervalPoints
  exact if_pos hguard

theorem intervalPoints_of_not_isOrdered (h : ¬IsOrdered min max step) :
    intervalPoints min max step = .error (.empty min max step) := by
  rw [intervalPoints, if_neg]
  intro hguard
  simp only [Bool.and_eq_true, Bool.not_eq_true'] at hguard
  obtain ⟨⟨⟨⟨hmin, hmax⟩, hle⟩, hstep⟩, hpos⟩ := hguard
  exact h ⟨hmin, hmax, hle, hstep, hpos⟩

/-- An interval is the list of its points with the values of the formula there. -/
theorem Formula.interval_eq_map (f : Formula R) (min max step : R) :
    f.interval min max step =
      (intervalPoints min max step).map fun xs => xs.map fun x => (x, f.realValueAt x) := by
  unfold Formula.interval
  congr 1
  funext xs
  rw [Formula.program, evalBatch_eq_map, List.map_map, List.map_map, List.map_prod_left_eq_zip]
  rfl

/-- The intervals without points: a bound or the step is not finite, the bounds are in the wrong
order, the step leads nowhere, or it is taken too often. -/
def IsRefused (min max step : R) : Prop :=
  isFinite min = false ∨ isFinite max = false ∨ isFinite step = false ∨ lt max min = true ∨
    le step 0 = true ∨ floor? ((max - min) / step) = none ∨
    ∃ n : ℤ, floor? ((max - min) / step) = some n ∧ maxIntervalPoints ≤ n

end Points

/-! ### Doubles -/

section Doubles

variable {min max step : Double}

/-- The bounds and the step of an interval that is not refused, and its number of steps. -/
theorem exists_stepCount_of_not_isRefused (h : ¬IsRefused min max step) :
    IsOrdered min max step ∧ ∃ n : ℕ, floor? ((max - min) / step) = some (n : ℤ) ∧
      n < maxIntervalPoints := by
  unfold IsRefused at h
  simp only [not_or, Bool.not_eq_false, Bool.not_eq_true, not_exists, not_and, Int.not_le] at h
  obtain ⟨hmin, hmax, hstep, hlt, hle, hfloor, hcount⟩ := h
  have hbounds : le min max = true := by rw [Double.le_eq_not_lt hmin hmax, hlt, Bool.not_false]
  have hpositive : lt 0 step = true := by
    have hzero : isFinite (0 : Double) = true := SignLaws.isFinite_ofNat 0 (Nat.zero_le 10)
    rw [Double.le_eq_not_lt hstep hzero] at hle
    exact (Bool.not_eq_false' _).mp hle
  obtain ⟨k, hk⟩ := Option.ne_none_iff_exists'.1 hfloor
  obtain ⟨n, rfl⟩ := Int.eq_ofNat_of_zero_le
    (Double.floor_quotient_nonneg hmin hmax hbounds hpositive hk)
  exact ⟨⟨hmin, hmax, hbounds, hstep, hle⟩, n, hk, Int.ofNat_lt.1 (hcount n hk)⟩

/-- A refused interval has no points. -/
theorem intervalPoints_of_isRefused (h : IsRefused min max step) :
    ∃ r, intervalPoints min max step = .error r := by
  by_cases ho : IsOrdered min max step
  · have hnone : stepCount? min max step = none := by
      obtain h | h | h | h | h | h := h
      · exact absurd ho.min_finite (Bool.eq_false_iff.1 h)
      · exact absurd ho.max_finite (Bool.eq_false_iff.1 h)
      · exact absurd ho.step_finite (Bool.eq_false_iff.1 h)
      · have hle := ho.min_le_max
        rw [Double.le_eq_not_lt ho.min_finite ho.max_finite, h] at hle
        exact absurd hle Bool.false_ne_true
      · exact absurd h (Bool.eq_false_iff.1 ho.step_positive)
      · exact stepCount?_eq_none_iff.2 h
    rw [intervalPoints_of_isOrdered ho, hnone]
    exact ⟨_, rfl⟩
  · exact ⟨_, intervalPoints_of_not_isOrdered ho⟩

/-- **Batched evaluation is pointwise.** The values of a formula at several arguments are its values
at each of them, failures included, and a program does the same with any table in both modes. An
interval is refused for its bounds, its step or the number of its points, and is otherwise the list
of its points, counted from the lower bound, with the real values there. -/
theorem values_pointwise (f : Formula Double) :
    (∀ xs, f.valuesAt xs = xs.map f.valueAt) ∧
    (∀ xs vars mode, f.program.evalBatch xs vars mode = xs.map fun x => f.root.eval x vars mode) ∧
    ∀ min max step : Double,
      (IsRefused min max step → ∃ r, f.interval min max step = .error r) ∧
      (¬IsRefused min max step → ∃ n : ℕ, floor? ((max - min) / step) = some (n : ℤ) ∧
        n + 1 ≤ maxIntervalPoints ∧
        f.interval min max step = .ok ((List.range (n + 1)).map fun i =>
          (min + ofNat i * step, f.realValueAt (min + ofNat i * step)))) := by
  refine ⟨f.valuesAt_eq_map, fun xs vars mode => evalBatch_eq_map f.root xs vars mode,
    fun min max step => ⟨fun h => ?_, fun h => ?_⟩⟩
  · obtain ⟨r, hr⟩ := intervalPoints_of_isRefused h
    refine ⟨r, ?_⟩
    rw [f.interval_eq_map, hr]
    rfl
  · obtain ⟨ho, n, hn, hlt⟩ := exists_stepCount_of_not_isRefused h
    have hsteps : stepCount? min max step = some n :=
      stepCount?_eq_some_iff.2 ⟨n, hn, Int.ofNat_lt.2 hlt, Int.toNat_natCast n⟩
    refine ⟨n, hn, hlt, ?_⟩
    rw [f.interval_eq_map, intervalPoints_of_isOrdered ho, hsteps]
    exact congrArg Except.ok List.map_map

/-- From zero to two in steps of one there are three points. -/
theorem values_pointwise_three_points :
    ¬IsRefused (0 : Double) 2 1 ∧ ∃ n : ℕ, floor? ((2 - 0) / 1 : Double) = some (n : ℤ) ∧
      n + 1 ≤ maxIntervalPoints ∧
      (Formula.ofExpr .argument .constants).interval (0 : Double) 2 1 =
        .ok ((List.range (n + 1)).map fun i => (0 + ofNat i * 1,
          (Formula.ofExpr .argument .constants).realValueAt (0 + ofNat i * 1))) := by
  have hfloor : floor? ((2 - 0) / 1 : Double) = some 2 := by decide +kernel
  have hkept : ¬IsRefused (0 : Double) 2 1 := by
    unfold IsRefused
    rw [hfloor]
    rintro (h | h | h | h | h | h | ⟨n, h, hle⟩)
    · exact absurd h (by decide +kernel)
    · exact absurd h (by decide +kernel)
    · exact absurd h (by decide +kernel)
    · exact absurd h (by decide +kernel)
    · exact absurd h (by decide +kernel)
    · cases h
    · cases h
      exact absurd hle (by decide)
  exact ⟨hkept, ((values_pointwise (Formula.ofExpr .argument .constants)).2.2 0 2 1).2 hkept⟩

end Doubles

end Formulary

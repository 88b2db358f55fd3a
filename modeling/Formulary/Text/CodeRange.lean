/-!
# Sets of code points

A property of characters is given by the ranges of code points that have it. The tables that follow
this form are those of version 17 of the Unicode standard.

* `inRanges`: membership in a list of closed ranges.
-/

namespace Formulary.Text

/-- The code point lies in one of the closed ranges. -/
def inRanges (ranges : List (Nat × Nat)) (n : Nat) : Bool :=
  ranges.any fun r => decide (r.1 ≤ n) && decide (n ≤ r.2)

theorem inRanges_iff {ranges : List (Nat × Nat)} {n : Nat} :
    inRanges ranges n = true ↔ ∃ r ∈ ranges, r.1 ≤ n ∧ n ≤ r.2 := by
  simp [inRanges]

end Formulary.Text

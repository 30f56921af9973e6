import SpendScript.Text

/-! # Classes of code points

A class of code points is given by closed ranges. -/

namespace SpendScript.Text

/-- Whether a code point lies in one of the closed ranges. -/
def inRanges (ranges : List (Nat × Nat)) (c : CodePoint) : Bool :=
  ranges.any fun r => r.1 ≤ c.val && c.val ≤ r.2

theorem inRanges_iff {ranges : List (Nat × Nat)} {c : CodePoint} :
    inRanges ranges c = true ↔ ∃ r ∈ ranges, r.1 ≤ c.val ∧ c.val ≤ r.2 := by
  simp [inRanges]

end SpendScript.Text

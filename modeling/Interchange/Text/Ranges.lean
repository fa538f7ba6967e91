/-!
# Sets of code points

A set of code points is a list of closed ranges.
-/

namespace Interchange.Text

/-- Closed ranges of code points, each given by its first and its last member. -/
abbrev Ranges := List (Nat × Nat)

/-- Whether some range holds `n`. -/
def Ranges.contains (ranges : Ranges) (n : Nat) : Bool :=
  ranges.any fun range => range.1 ≤ n && n ≤ range.2

theorem Ranges.contains_iff (ranges : Ranges) (n : Nat) :
    ranges.contains n = true ↔ ∃ range ∈ ranges, range.1 ≤ n ∧ n ≤ range.2 := by
  simp [Ranges.contains]

end Interchange.Text

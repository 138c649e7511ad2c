/-
  ShellQuery.Text.Ranges

  Sets of code points given as sorted tables of ranges, both ends included. The tables of the
  Unicode properties that the query language refers to are looked up with `inRanges`.
-/

namespace ShellQuery.Text

/-- Whether a code point lies in one of the ranges. The ranges are in ascending order, so the
    search stops at the first one that begins beyond the code point. -/
def inRanges : List (Nat × Nat) → Nat → Bool
  | [], _ => false
  | (low, high) :: rest, n => if n < low then false else n ≤ high || inRanges rest n

end ShellQuery.Text

/-
  ShellQuery.Text.Recent

  The letters, marks and digits that edition 17.0 of the Unicode standard added, as a sorted table
  of code point ranges. The patterns of calls and wrappers follow edition 16.0, in which these
  characters have no properties yet; identifiers follow edition 17.0.
-/
import ShellQuery.Text.Ranges

namespace ShellQuery.Text

/-- Letters, marks and decimal digits that edition 16.0 did not have. -/
def recentRanges : List (Nat × Nat) := [
  (2191, 2191), (3164, 3164), (3292, 3292), (6863, 6877), (6880, 6891), (42958, 42959),
  (42962, 42962), (42964, 42964), (42993, 42993), (67904, 67929), (69317, 69319), (69370, 69371),
  (72544, 72551), (73136, 73179), (73184, 73193), (93856, 93880), (93883, 93907), (94194, 94198),
  (100344, 100351), (101641, 101662), (101760, 101874), (124608, 124638), (124640, 124661),
  (124670, 124671), (177978, 177983), (183970, 183981), (205744, 210041)]

/-- A letter, mark or digit that edition 16.0 did not have. -/
def isRecent (c : Char) : Bool :=
  inRanges recentRanges c.toNat

end ShellQuery.Text

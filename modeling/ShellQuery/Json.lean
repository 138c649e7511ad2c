/-
  ShellQuery.Json

  JSON values as results show them. Objects keep the order of their members, and integers are
  apart from other numbers, which are doubles.
-/
import ShellQuery.Number.Binary64

namespace ShellQuery

/-- A JSON value. -/
inductive Json where
  | null
  | bool (b : Bool)
  | int (n : Int)
  | real (x : Binary64)
  | string (s : String)
  | array (items : List Json)
  | object (members : List (String × Json))
deriving Inhabited, Repr

namespace Json

/-- A text or null. -/
def ofString? : Option String → Json
  | none => .null
  | some s => .string s

end Json

end ShellQuery

/-
  ShellQuery.Operation.Modifier

  The chained calls that change what a `find` returns.
-/

namespace ShellQuery

/-- A chained call that a `find` takes into account. -/
inductive Modifier where
  | limit
  | skip
  | sort
  | project
deriving DecidableEq, Repr

namespace Modifier

/-- The name of the chained call. -/
def name : Modifier → String
  | .limit => "limit"
  | .skip => "skip"
  | .sort => "sort"
  | .project => "project"

/-- The modifier with the given name. -/
def ofName? (name : String) : Option Modifier :=
  [limit, skip, sort, project].find? (·.name = name)

/-- What the argument of the call must be. -/
def expects : Modifier → String
  | .limit => "an integer"
  | .skip => "a non-negative integer"
  | .sort => "a sort document"
  | .project => "a projection document"

end Modifier

end ShellQuery

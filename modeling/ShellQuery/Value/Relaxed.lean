/-
  ShellQuery.Value.Relaxed

  Values as JSON. Integers of both widths are JSON integers and finite doubles JSON numbers; what
  JSON lacks is an object with a key that begins with a dollar sign.
-/
import ShellQuery.Date.Written
import ShellQuery.Json
import ShellQuery.Value

namespace ShellQuery.Value

/-- A double as JSON. -/
def relaxedDouble (x : Binary64) : Json :=
  if x.isNaN then .object [("$numberDouble", .string "NaN")]
  else if x.isInfinite then
    .object [("$numberDouble", .string (if x.negative then "-Infinity" else "Infinity"))]
  else .real x

/-- A moment as JSON: from 1970 to the end of the year 9999 its RFC 3339 text, else its
    milliseconds. -/
def relaxedDate (millis : Int64) : Json :=
  let m := Date.Moment.ofMillis millis.toInt
  if 0 ≤ millis.toInt ∧ m.date.year ≤ 9999 then .object [("$date", .string m.internet)]
  else .object [("$date", .object [("$numberLong", .string (toString millis.toInt))])]

mutual

/-- A value as JSON. -/
def relaxed : Value → Json
  | .null => .null
  | .bool b => .bool b
  | .int32 n => .int n.toInt
  | .int64 n => .int n.toInt
  | .double x => relaxedDouble x
  | .string s => .string s
  | .date millis => relaxedDate millis
  | .regex pattern options =>
    .object [("$regularExpression",
      .object [("pattern", .string pattern), ("options", .string options)])]
  | .array items => .array (relaxedItems items)
  | .document fields => .object (relaxedFields fields)

/-- The items of an array as JSON. -/
def relaxedItems : List Value → List Json
  | [] => []
  | v :: rest => v.relaxed :: relaxedItems rest

/-- The fields of a document as JSON. -/
def relaxedFields : List (String × Value) → List (String × Json)
  | [] => []
  | (k, v) :: rest => (k, v.relaxed) :: relaxedFields rest

end

end ShellQuery.Value

/-
  ShellQuery.Value.Shown

  The text of a value in messages. Strings stand between quotes without any escaping, so the text
  is for reading and not for parsing back.
-/
import ShellQuery.Date.Written
import ShellQuery.Number.Shortest
import ShellQuery.Value

namespace ShellQuery.Value

/-- A moment as messages show it. Beyond the years of six digits it is the plain count of
    milliseconds. -/
def shownDate (millis : Int64) : String :=
  let m := Date.Moment.ofMillis millis.toInt
  if m.date.year.natAbs ≤ 999999 then m.spelled else toString millis.toInt

mutual

/-- The text of a value in messages. -/
def shown : Value → String
  | .null => "null"
  | .bool b => if b then "true" else "false"
  | .int32 n => toString n.toInt
  | .int64 n => toString n.toInt
  | .double x => x.plainText
  | .string s => "\"" ++ s ++ "\""
  | .date millis => "DateTime(\"" ++ shownDate millis ++ "\")"
  | .regex pattern options => "/" ++ pattern ++ "/" ++ options
  | .array items => "[" ++ shownItems items ++ "]"
  | .document [] => "\x7b\x7d"
  | .document ((k, v) :: rest) =>
    "\x7b \"" ++ k ++ "\": " ++ v.shown ++ shownFields rest ++ " \x7d"

/-- The texts of the items, with commas between them. -/
def shownItems : List Value → String
  | [] => ""
  | [v] => v.shown
  | v :: rest => v.shown ++ ", " ++ shownItems rest

/-- The texts of the fields after the first, each after a comma. -/
def shownFields : List (String × Value) → String
  | [] => ""
  | (k, v) :: rest => ", \"" ++ k ++ "\": " ++ v.shown ++ shownFields rest

end

end ShellQuery.Value

/-
  ShellQuery.Json.Written

  JSON texts on several lines: two spaces for each level, one member or item on each line, and
  empty arrays and objects in one piece.
-/
import ShellQuery.Json
import ShellQuery.Number.Shortest

namespace ShellQuery.Json

/-! ## Strings -/

/-- The escape of a control character without one of its own. -/
def controlEscape (c : Char) : List Char :=
  let digit (n : Nat) : Char := Nat.digitChar n
  ['\\', 'u', '0', '0', digit (c.toNat / 16), digit (c.toNat % 16)]

/-- A character of a string. Only quotes, backslashes and control characters are escaped. -/
def escapedChar (c : Char) : List Char :=
  if c = '"' then ['\\', '"']
  else if c = '\\' then ['\\', '\\']
  else if c = '\n' then ['\\', 'n']
  else if c = '\r' then ['\\', 'r']
  else if c = '\t' then ['\\', 't']
  else if c = '\x08' then ['\\', 'b']
  else if c = '\x0c' then ['\\', 'f']
  else if c.toNat < 0x20 then controlEscape c
  else [c]

/-- A string between quotes. -/
def quoted (s : String) : String :=
  .ofList ('"' :: s.toList.flatMap escapedChar ++ ['"'])

/-! ## Values -/

/-- A line feed and the indentation of a level. -/
def newLine (level : Nat) : String :=
  .ofList ('\n' :: List.replicate (2 * level) ' ')

mutual

/-- The text of a value that stands at the given level. -/
def writtenAt (level : Nat) : Json → String
  | .null => "null"
  | .bool b => if b then "true" else "false"
  | .int n => toString n
  | .real x => x.jsonText
  | .string s => quoted s
  | .array [] => "[]"
  | .array (v :: rest) =>
    "[" ++ newLine (level + 1) ++ writtenAt (level + 1) v ++ writtenItems (level + 1) rest ++
      newLine level ++ "]"
  | .object [] => "\x7b\x7d"
  | .object ((k, v) :: rest) =>
    "\x7b" ++ newLine (level + 1) ++ quoted k ++ ": " ++ writtenAt (level + 1) v ++
      writtenMembers (level + 1) rest ++ newLine level ++ "\x7d"

/-- The items after the first, each after a comma on a line of its own. -/
def writtenItems (level : Nat) : List Json → String
  | [] => ""
  | v :: rest => "," ++ newLine level ++ writtenAt level v ++ writtenItems level rest

/-- The members after the first, each after a comma on a line of its own. -/
def writtenMembers (level : Nat) : List (String × Json) → String
  | [] => ""
  | (k, v) :: rest =>
    "," ++ newLine level ++ quoted k ++ ": " ++ writtenAt level v ++ writtenMembers level rest

end

/-- The text of a value on several lines. -/
def written (v : Json) : String :=
  v.writtenAt 0

end ShellQuery.Json

/-
  ShellQuery.Json.Fault

  Why a text is not the JSON that a file should hold: it is no JSON at all, or a value in it is not
  what is wanted there. The first fault of a text counts, in reading order, whichever kind it is.

  A fault keeps the text that was left where it was found; its line and its column, in bytes, are
  counted from there.
-/
import ShellQuery.Bracket
import ShellQuery.Number.Shortest
import ShellQuery.Text.Quoted

namespace ShellQuery.Json

/-! ## Causes -/

/-- What a value in a file can be. -/
inductive Found where
  | null
  | bool (b : Bool)
  | integer (n : Int)
  | real (x : Binary64)
  | string (s : String)
  | list
  | map
deriving DecidableEq, Repr

/-- The wording of what was found. -/
def Found.description : Found → String
  | .null => "null"
  | .bool b => "boolean \x60" ++ (if b then "true" else "false") ++ "\x60"
  | .integer n => "integer \x60" ++ toString n ++ "\x60"
  | .real x => "floating point \x60" ++ x.jsonText ++ "\x60"
  | .string s => "string " ++ Text.quoted s
  | .list => "sequence"
  | .map => "map"

/-- What a value in a file is wanted to be. -/
inductive Wanted where
  | bool
  | string
  | unsigned64
  | signed64
  | map
  | record (title : String)
deriving DecidableEq, Repr

/-- The wording of what is wanted. -/
def Wanted.description : Wanted → String
  | .bool => "a boolean"
  | .string => "a string"
  | .unsigned64 => "a natural number of 64 bits"
  | .signed64 => "an integer of 64 bits"
  | .map => "a map"
  | .record title => "struct " ++ title

/-- What is wrong with a file. -/
inductive Cause where
  | endInValue
  | endInString
  | endInList
  | endInMap
  | noValue
  | noName
  | noColon
  | noListSeparator
  | noMapSeparator
  | keyNotString
  | trailingComma
  | trailingCharacters
  | badNumber
  | numberTooLarge
  | badEscape
  | controlCharacter
  /-- Half of a surrogate pair where the other half should be or without its first half. -/
  | loneSurrogate
  /-- The first half of a surrogate pair without an escape after it. -/
  | halfPair
  | wrongType (found : Found) (wanted : Wanted)
  | wrongValue (found : Found) (wanted : Wanted)
  | missingField (name : String)
  | duplicateField (name : String)
  /-- A list that ends before a field that the record needs. -/
  | wrongLength (length : Nat) (title : String) (fields : Nat)
deriving DecidableEq, Repr

/-- The wording of a cause. -/
def Cause.message : Cause → String
  | .endInValue => "EOF while parsing a value"
  | .endInString => "EOF while parsing a string"
  | .endInList => "EOF while parsing a list"
  | .endInMap => "EOF while parsing an object"
  | .noValue => "expected value"
  | .noName => "expected ident"
  | .noColon => "expected \x60:\x60"
  | .noListSeparator => "expected \x60,\x60 or \x60]\x60"
  | .noMapSeparator => "expected \x60,\x60 or \x60\x7d\x60"
  | .keyNotString => "key must be a string"
  | .trailingComma => "trailing comma"
  | .trailingCharacters => "trailing characters"
  | .badNumber => "invalid number"
  | .numberTooLarge => "number out of range"
  | .badEscape => "invalid escape"
  | .controlCharacter =>
    "control character (\\u0000-\\u001F) found while parsing a string"
  | .loneSurrogate => "lone leading surrogate in hex escape"
  | .halfPair => "unexpected end of hex escape"
  | .wrongType found wanted =>
    "invalid type: " ++ found.description ++ ", expected " ++ wanted.description
  | .wrongValue found wanted =>
    "invalid value: " ++ found.description ++ ", expected " ++ wanted.description
  | .missingField name => "missing field \x60" ++ name ++ "\x60"
  | .duplicateField name => "duplicate field \x60" ++ name ++ "\x60"
  | .wrongLength length title fields =>
    "invalid length " ++ toString length ++ ", expected struct " ++ title ++ " with " ++
      toString fields ++ (if fields = 1 then " element" else " elements")

/-! ## Places -/

/-- A cause and the place where it was found. -/
structure Fault where
  cause : Cause
  /-- The text that was left. -/
  rest : List Char
  /-- How many bytes of it count as read already. -/
  ahead : Nat := 0
deriving DecidableEq, Repr

/-- A place in a text: the number of its line, and how many bytes of the line are before it. -/
structure Place where
  line : Nat := 1
  column : Nat := 0
deriving DecidableEq, Repr

namespace Place

/-- The place after a number of bytes of a text. A line feed begins a new line. -/
def advance (p : Place) : Nat → List Char → Place
  | 0, _ | _, [] => p
  | bytes + 1, c :: cs =>
    if c = '\n' then advance { line := p.line + 1 } bytes cs
    else
      let size := min c.utf8Size (bytes + 1)
      advance { p with column := p.column + size } (bytes + 1 - size) cs

/-- The place at the end of a text. -/
def ofText (cs : List Char) : Place :=
  Place.advance {} (byteLength cs) cs

end Place

namespace Fault

/-- The place of a fault found in the given text. -/
def place (whole : List Char) (f : Fault) : Place :=
  (Place.ofText (whole.take (whole.length - f.rest.length))).advance f.ahead f.rest

/-- The message of a fault found in the given text. -/
def message (whole : List Char) (f : Fault) : String :=
  let p := f.place whole
  f.cause.message ++ " at line " ++ toString p.line ++ " column " ++ toString p.column

end Fault

end ShellQuery.Json

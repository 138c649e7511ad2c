/-
  ShellQuery.Literal

  Where a text is code and where it is a string or a regular expression. One automaton reads the
  text a character at a time; the search for a closing delimiter and the replacement of wrapper
  calls both follow it, so they see the same literals.

  A quote opens a string anywhere. A slash opens a regular expression only where a value may
  start: at the beginning, or after an opening parenthesis or bracket, a comma or a colon, narrow
  blanks aside. Inside a regular expression a slash between square brackets does not close it.
-/
import ShellQuery.Text.Blank

namespace ShellQuery

open Text

/-- What the next character of a text is read as. -/
inductive Zone where
  /-- Code, with the last character before it that is no narrow blank. -/
  | code (last : Option Char)
  /-- The inside of a literal, and whether a class of a regular expression is open. -/
  | literal (delimiter : Char) (inClass : Bool)
  /-- The character after a backslash in a literal. -/
  | escaped (delimiter : Char) (inClass : Bool)
deriving DecidableEq, Repr

namespace Zone

/-- The zone a text begins in. -/
def start : Zone :=
  .code none

def isCode : Zone → Bool
  | .code _ => true
  | _ => false

/-- Whether a value may start after the given character, so that a slash opens a regular
    expression. -/
def valueMayStart : Option Char → Bool
  | none => true
  | some c => c = '(' || c = ',' || c = ':' || c = '['

/-- Whether a character opens a literal in code. -/
def opensLiteral (last : Option Char) (c : Char) : Bool :=
  c = '"' || c = '\'' || (c = '/' && valueMayStart last)

/-- The last character of code, after one that opens no literal. -/
def lastAfter (last : Option Char) (c : Char) : Option Char :=
  if isAsciiBlank c then last else some c

/-- The zone after a character. -/
def next (z : Zone) (c : Char) : Zone :=
  match z with
  | .code last =>
    if opensLiteral last c then .literal c false
    else if isAsciiBlank c then .code last
    else .code (some c)
  | .literal d inClass =>
    if c = '\\' then .escaped d inClass
    else if d = '/' && c = '[' then .literal d true
    else if d = '/' && c = ']' then .literal d false
    else if c = d && !inClass then .code (some d)
    else .literal d inClass
  | .escaped d inClass => .literal d inClass

/-- The zone after a text. -/
def run (z : Zone) (cs : List Char) : Zone :=
  cs.foldl next z

theorem run_append (z : Zone) (as bs : List Char) : z.run (as ++ bs) = (z.run as).run bs :=
  List.foldl_append

end Zone

end ShellQuery

/-
  ShellQuery.Console.Completion

  What the console offers for an unfinished line: its own commands, target names after `/target`,
  and the methods of a collection after the last dot of a dotted name. Places in a line are
  counted in bytes.
-/
import ShellQuery.Bracket
import ShellQuery.Operation.Kind
import ShellQuery.Text.Cut
import ShellQuery.Text.Word

namespace ShellQuery.Console

open Text

/-! ## Commands -/

/-- A command of the console and what it does. -/
structure CommandHelp where
  name : String
  description : String

/-- The commands that are offered and listed. -/
def commands : List CommandHelp := [
  ⟨"/target", "Select the target queries run against"⟩,
  ⟨"/targets", "List registered targets"⟩,
  ⟨"/inspect", "Show what a query would run, without connecting"⟩,
  ⟨"/probe", "Connect to the selected target and list collections"⟩,
  ⟨"/close", "Close the selected target's connection"⟩,
  ⟨"/clear", "Clear the screen"⟩,
  ⟨"/help", "Show available commands"⟩,
  ⟨"/exit", "Quit the REPL"⟩]

/-- A text followed by blanks up to a width. -/
def padRight (width : Nat) (s : String) : String :=
  .ofList (s.toList ++ List.replicate (width - s.length) ' ')

/-! ## Offers -/

/-- What is shown for an offer, and what takes the place of the unfinished text. -/
structure Candidate where
  display : String
  replacement : String
deriving DecidableEq, Repr

/-- The byte where the unfinished text begins, and the offers for it. -/
structure Offer where
  start : Nat
  candidates : List Candidate
deriving DecidableEq, Repr

/-- Whether one text begins with another. -/
def beginsWith (start cs : List Char) : Bool :=
  start.isPrefixOf cs

/-- The methods offered for a line that begins like a call on a collection. -/
def methodOffer? (line : List Char) : Option Offer := do
  if !beginsWith "db.".toList line then none
  else
    let (path, typed) ← cutLast? '.' line
    if byteLength path < 3 || path.contains '(' || !typed.all isAsciiAlphanumeric then none
    else
      let names := OperationKind.collectionMethods.map OperationKind.name
      let offered := names.filter fun name => beginsWith typed name.toList
      some ⟨byteLength path + 1, offered.map fun name => ⟨name, name ++ "("⟩⟩

/-- The commands that a text begins. -/
def commandOffer (line : List Char) : Offer :=
  let offered := commands.filter fun c => beginsWith line c.name.toList
  ⟨0, offered.map fun c => ⟨padRight 16 c.name ++ " " ++ c.description, c.name ++ " "⟩⟩

/-- The targets that a text begins, blanks around it aside. -/
def targetOffer (targets : List String) (start : Nat) (typed : List Char) : Offer :=
  let offered := targets.filter fun id => beginsWith (trim typed) id.toList
  ⟨start, offered.map fun id => ⟨id, id ++ " "⟩⟩

/-- Whether a text is an unfinished command. -/
def isCommandStart (line : List Char) : Bool :=
  beginsWith ['/'] line && !line.contains ' '

/-- The offers for the part of a line before the cursor. -/
def complete (targets : List String) (line : List Char) : Offer :=
  let command := "/target ".toList
  if isCommandStart line then commandOffer line
  else if beginsWith command line then
    targetOffer targets (byteLength command) (line.drop command.length)
  else (methodOffer? line).getD ⟨byteLength line, []⟩

/-- The rest of the first command that a line begins, shown after the cursor at its end. -/
def hint? (line : List Char) : Option String := do
  if !isCommandStart line then none
  else
    let c ← commands.find? fun c => beginsWith line c.name.toList && c.name.toList ≠ line
    some (.ofList (c.name.toList.drop line.length))

/-! ## The cursor -/

/-- Cuts a line at a byte. -/
def cutAtByte (n : Nat) : List Char → List Char × List Char
  | [] => ([], [])
  | c :: cs =>
    if n < c.utf8Size then ([], c :: cs)
    else
      let (before, after) := cutAtByte (n - c.utf8Size) cs
      (c :: before, after)

/-- What the console shows for a line with the cursor at a byte of it: the offers, and a hint if
    the cursor is at the end. -/
def assist (targets : List String) (line : List Char) (cursor : Nat) : Offer × Option String :=
  let (before, after) := cutAtByte cursor line
  (complete targets before, if after = [] then hint? line else none)

end ShellQuery.Console

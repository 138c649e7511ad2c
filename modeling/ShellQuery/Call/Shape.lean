/-
  ShellQuery.Call.Shape

  The shapes of a primary call, up to and with its opening parenthesis. Between the parts of a
  call any blanks may stand. A dotted collection name is as long as it can be: its last part is the
  method only where the parenthesis follows it directly.
-/
import ShellQuery.Operation.Kind
import ShellQuery.Wrapper

namespace ShellQuery.Call

open Text Wrapper

/-- The front of a call: what it is called on, the method, and the text after the opening
    parenthesis. -/
structure Head where
  shape : CallShape
  collection : Option (List Char)
  method : List Char
  rest : List Char
deriving DecidableEq, Repr

/-! ## Parts -/

/-- Reads `db` and the dot after it. -/
def afterDatabase? (cs : List Char) : Option (List Char) := do
  let cs ← dropText? ['d', 'b'] cs
  let cs ← dropMark? '.' cs
  some (trimStart cs)

/-- Splits off a name: one character of the first class and any number of the second. -/
def name? (first rest : Char → Bool) : List Char → Option (List Char × List Char)
  | [] => none
  | c :: cs => if first c then some (c :: cs.takeWhile rest, cs.dropWhile rest) else none

/-- Reads a method name and the opening parenthesis after it. -/
def method? (cs : List Char) : Option (List Char × List Char) := do
  let (name, cs) ← name? isNameStart isNameRest cs
  let rest ← dropMark? '(' cs
  some (name, rest)

/-- Reads a dot, a method name and an opening parenthesis. -/
def dotMethod? (cs : List Char) : Option (List Char × List Char) := do
  let cs ← dropMark? '.' cs
  method? (trimStart cs)

/-! ## Calls on the database -/

/-- Reads one of the three calls on the database itself. -/
def admin? (cs : List Char) : Option Head := do
  let cs ← afterDatabase? cs
  let named (shape : CallShape) (method : List Char) : Option Head := do
    let cs ← dropText? method cs
    let rest ← dropMark? '(' cs
    some ⟨shape, none, method, rest⟩
  named .currentOp "currentOp".toList <|> named .runCommand "runCommand".toList <|>
    named .adminCommand "adminCommand".toList

/-! ## Calls on a collection given by a string -/

/-- Reads a string up to the same quote, without escapes. -/
def plainString? : List Char → Option (List Char × List Char)
  | [] => none
  | c :: cs =>
    if isQuote c then
      match cs.dropWhile (· ≠ c) with
      | [] => none
      | _ :: rest => some (cs.takeWhile (· ≠ c), rest)
    else none

/-- Reads `db.getCollection("name").method(`. -/
def getCollection? (cs : List Char) : Option Head := do
  let cs ← afterDatabase? cs
  let cs ← dropText? "getCollection".toList cs
  let cs ← dropMark? '(' cs
  let (name, cs) ← plainString? (trimStart cs)
  let cs ← dropMark? ')' cs
  let (method, rest) ← dotMethod? cs
  some ⟨.getCollection, some name, method, rest⟩

/-! ## Calls on a collection given by its dotted name -/

/-- Splits off a part of a dotted name. -/
def part? (cs : List Char) : Option (List Char × List Char) :=
  name? isNameStart isCollectionRest cs

/-- Reads what follows the parts of a collection name in `name`: more parts while that leads to a
    call, else the method. The text gets shorter with each part, which bounds `fuel`. -/
def dotted? (fuel : Nat) (name : List Char) (cs : List Char) :
    Option (List Char × List Char × List Char) :=
  match fuel with
  | 0 => none
  | fuel + 1 =>
    let longer := do
      let cs ← dropText? ['.'] cs
      let (part, cs) ← part? cs
      dotted? fuel (name ++ '.' :: part) cs
    let here := do
      let (method, rest) ← dotMethod? cs
      some (name, method, rest)
    longer <|> here

/-- Reads `db.name.method(`, the name having one part or more. -/
def collection? (cs : List Char) : Option Head := do
  let cs ← afterDatabase? cs
  let (part, cs) ← part? cs
  let (name, method, rest) ← dotted? (cs.length + 1) part cs
  some ⟨.collection, some name, method, rest⟩

/-- The front of a call of any shape. -/
def head? (cs : List Char) : Option Head :=
  admin? cs <|> getCollection? cs <|> collection? cs

end ShellQuery.Call

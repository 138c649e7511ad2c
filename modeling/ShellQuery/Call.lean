/-
  ShellQuery.Call

  The primary call of a query: what it is called on, its method, the text of its arguments and the
  text after it. Comment lines are dropped first.
-/
import ShellQuery.Bracket
import ShellQuery.Call.Shape
import ShellQuery.Error

namespace ShellQuery

open Text

/-! ## Comment lines -/

/-- The lines of a text. A carriage return before a line feed belongs to the line end. -/
def lines : List Char → List (List Char)
  | [] => []
  | c :: cs =>
    if c = '\n' then [] :: lines cs
    else
      match lines cs with
      | [] => [[c]]
      | line :: rest => if c = '\r' && cs.head? = some '\n' then [] :: rest else (c :: line) :: rest

/-- Whether a line holds nothing but a comment. -/
def isCommentLine (line : List Char) : Bool :=
  (trimStart line).take 2 = ['/', '/']

/-- A text without its comment lines and without blanks around it. -/
def cleanQuery (cs : List Char) : List Char :=
  trim (List.intercalate ['\n'] ((lines cs).filter (!isCommentLine ·)))

/-! ## The primary call -/

/-- The primary call of a query. -/
structure Call where
  shape : CallShape
  /-- The collection, for a call on one. -/
  collection : Option String
  method : String
  /-- The text between the parentheses. -/
  arguments : String
  /-- The text after the closing parenthesis, without blanks around it. -/
  remainder : String
deriving DecidableEq, Repr

namespace Call

/-- What is wrong with a text that has none of the shapes. -/
def unreadable (cs : List Char) : Malformation :=
  if (Wrapper.dropText? "db.getCollection".toList cs).isSome then .badGetCollection
  else .unknownShape

/-- Cuts a call after its front at the delimiter that closes it. -/
def ofHead (text : List Char) (head : Head) : Except QueryError Call :=
  match close? head.rest with
  | none => .error (.unbalanced (byteLength (text.take (text.length - head.rest.length - 1))))
  | some cut =>
    .ok {
      shape := head.shape
      collection := head.collection.map .ofList
      method := .ofList head.method
      arguments := .ofList cut.inside
      remainder := .ofList (trim cut.after) }

/-- The primary call of a query text. -/
def ofQuery (query : List Char) : Except QueryError Call :=
  let text := cleanQuery query
  if text = [] then .error (.malformed .emptyQuery)
  else match head? text with
    | none => .error (.malformed (unreadable text))
    | some head =>
      if head.collection = some [] then .error (.malformed .unnamedCollection)
      else ofHead text head

end Call

end ShellQuery

/-
  ShellQuery.Path

  Paths into a command's response, such as `.inprog.length` or `.databases[0].name`: their text,
  their steps, and what they lead to in a value.
-/
import ShellQuery.Chain

namespace ShellQuery

open Text

/-- One step of a path. -/
inductive PathStep where
  | field (name : String)
  | index (n : Nat)
deriving DecidableEq, Repr

/-- A path, from the outermost step to the innermost. -/
abbrev Path : Type := List PathStep

/-- Takes an item out of an array: the item, and the others, the last of them in its place. -/
def Value.takeItem? (n : Nat) (items : List Value) : Option (Value × List Value) :=
  match items[n]?, items.getLast? with
  | some item, some last => some (item, (items.set n last).dropLast)
  | _, _ => none

namespace Path

/-! ## Text -/

/-- The text of a step. -/
def stepText : PathStep → String
  | .field name => "." ++ name
  | .index n => "[" ++ toString n ++ "]"

/-- The text of a path. -/
def text (path : Path) : String :=
  String.join (path.map stepText)

/-- Reads the steps of a path. Each takes up a character, which bounds `fuel`. -/
def stepsFrom (fuel : Nat) (cs : List Char) : Except QueryError Path :=
  match fuel with
  | 0 => .ok []
  | fuel + 1 =>
    if Chain.isEnd cs then .ok []
    else match cs with
      | [] => .ok []
      | c :: rest =>
        if c = '.' then
          let name := rest.takeWhile isStepChar
          if name = [] then .error (Chain.unexpected cs)
          else do
            let steps ← stepsFrom fuel (rest.dropWhile isStepChar)
            .ok (.field (.ofList name) :: steps)
        else if c = '[' then
          let digits := rest.takeWhile isAsciiDigit
          let after := rest.dropWhile isAsciiDigit
          if digits = [] || after.head? ≠ some ']' then
            .error (.malformed (.badIndex (.ofList cs)))
          else if 2 ^ (64 : Nat) ≤ digitsValue digits then
            .error (.malformed (.indexOutOfRange (.ofList digits)))
          else do
            let steps ← stepsFrom fuel after.tail
            .ok (.index (digitsValue digits) :: steps)
        else .error (Chain.unexpected cs)

/-- Reads a path that takes up the whole text, up to the end of the statement. -/
def parse (cs : List Char) : Except QueryError Path :=
  stepsFrom (cs.length + 1) (skipAsciiBlanks cs)

/-! ## Application -/

/-- What a step leads to. The length of an array or a string, in characters, is a field of it. -/
def step? : PathStep → Value → Option Value
  | .field name, .document fields => Document.get? name fields
  | .field name, .array items =>
    if name = "length" then some (.int64 (.ofNat items.length)) else none
  | .field name, .string s =>
    if name = "length" then some (.int64 (.ofNat s.length)) else none
  | .index n, .array items => items[n]?
  | _, _ => none

/-- What a path leads to, if every step leads somewhere. -/
def follow? (path : Path) (v : Value) : Option Value :=
  path.foldlM (fun v step => step? step v) v

/-! ## Taking apart -/

/-- Takes the part that a step leads to out of a value. What is left of the value is lost. -/
def take? : PathStep → Value → Option Value
  | .field name, .document fields => (Document.take? name fields).map Prod.fst
  | .field name, .array items =>
    if name = "length" then some (.int64 (.ofNat items.length)) else none
  | .field name, .string s =>
    if name = "length" then some (.int64 (.ofNat s.length)) else none
  | .index n, .array items => (Value.takeItem? n items).map Prod.fst
  | _, _ => none

end Path

end ShellQuery

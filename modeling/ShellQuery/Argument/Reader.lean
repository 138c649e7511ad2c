/-
  ShellQuery.Argument.Reader

  The reader of argument lists: values separated by commas, with objects and arrays inside one
  another. Nothing is evaluated; all that can come out are documents, arrays and scalars.

  The readers that call each other count down a bound on the depth of their calls. A bracket takes
  two calls, one for the value and one for what stands inside it, so a text of `n` characters needs
  a depth of `2 * n + 1` at most: that is what `readValue` grants. The moment that a date
  construction without an argument stands for is a parameter.
-/
import ShellQuery.Argument.Lexeme
import ShellQuery.Date.Reading
import ShellQuery.Wrapper

namespace ShellQuery.Argument

open Text

variable (now : Int64)

/-! ## Dates and keywords -/

/-- Reads what a date construction holds between its parentheses. -/
def dateArgument (cs : List Char) : Except QueryError (Int64 × List Char) :=
  match cs with
  | [] => .error (faultAt [] .noDate)
  | c :: _ =>
    if c = ')' then .ok (now, cs)
    else if c = '"' || c = '\'' then do
      let (text, rest) ← string cs
      match Date.parseMillis text.toList with
      | some millis => .ok (.ofInt millis, rest)
      | none => .error (faultAt cs (.badDate text))
    else if isAsciiDigit c || c = '-' then do
      let (value, rest) ← number cs
      match value with
      | .int32 n => .ok (.ofInt n.toInt, rest)
      | .int64 n => .ok (n, rest)
      | _ => .error (faultAt cs .badMilliseconds)
    else .error (faultAt cs .noDate)

/-- Reads the parentheses of a date construction and what is between them. -/
def dateCall (cs : List Char) : Except QueryError (Value × List Char) := do
  let ((), cs) ← expect '(' (trimStart cs)
  let (millis, cs) ← dateArgument now (trimStart cs)
  let ((), cs) ← expect ')' (trimStart cs)
  .ok (.date millis, cs)

/-- Reads a keyword or a date construction. -/
def keyword (cs : List Char) : Except QueryError (Value × List Char) :=
  let (word, rest) := identifier cs
  let word := String.ofList word
  if word = "true" then .ok (.bool true, rest)
  else if word = "false" then .ok (.bool false, rest)
  else if word = "null" || word = "undefined" then .ok (.null, rest)
  else if word = "NaN" then .ok (.double .nan, rest)
  else if word = "Infinity" then .ok (.double (.infinity false), rest)
  else if word = "new" then
    let rest := trimStart rest
    let (name, after) := identifier rest
    if name = "Date".toList then dateCall now after
    else .error (faultAt rest (.badConstructor (.ofList name)))
  else if word = "Date" then dateCall now rest
  else .error (faultAt cs (.unexpectedIdentifier word))

/-! ## Values -/

/-- Reads the key of a field: a string, or a run of key characters. -/
def key : List Char → Except QueryError (String × List Char)
  | [] => .error (faultAt [] .unterminatedObject)
  | c :: cs =>
    if c = '"' || c = '\'' then string (c :: cs)
    else if isKeyChar c then
      .ok (.ofList ((c :: cs).takeWhile isKeyChar), (c :: cs).dropWhile isKeyChar)
    else .error (faultAt (c :: cs) (.unexpectedKey c))

mutual

/-- Reads one value. -/
def value (depth : Nat) (cs : List Char) : Except QueryError (Value × List Char) :=
  match depth with
  | 0 => .error (faultAt cs .noValue)
  | depth + 1 =>
    match cs with
    | [] => .error (faultAt [] .noValue)
    | c :: rest =>
      if c = '{' then fields depth [] rest
      else if c = '[' then items depth [] rest
      else if c = '"' || c = '\'' then do
        let (text, rest) ← string cs
        .ok (.string text, rest)
      else if c = '/' then regex cs
      else if isAsciiDigit c || c = '-' || c = '+' || c = '.' then number cs
      else if isIdentStart c then keyword now cs
      else .error (faultAt cs (.unexpectedCharacter c))

/-- Reads the fields of an object after those in `read`, up to and with its closing brace. -/
def fields (depth : Nat) (read : Document) (cs : List Char) :
    Except QueryError (Value × List Char) :=
  match depth with
  | 0 => .error (faultAt cs .noValue)
  | depth + 1 =>
    let cs := trimStart cs
    if cs.head? = some '}' then .ok (.document read, cs.tail)
    else do
      let (name, cs) ← key cs
      let ((), cs) ← expect ':' (trimStart cs)
      let (v, cs) ← value depth (trimStart cs)
      let read := read.insert name v
      match trimStart cs with
      | [] => .error (faultAt [] .unterminatedObject)
      | c :: cs =>
        if c = ',' then fields depth read cs
        else if c = '}' then .ok (.document read, cs)
        else .error (faultAt (c :: cs) (.unexpectedInObject c))

/-- Reads the items of an array after those in `read`, up to and with its closing bracket. -/
def items (depth : Nat) (read : List Value) (cs : List Char) :
    Except QueryError (Value × List Char) :=
  match depth with
  | 0 => .error (faultAt cs .noValue)
  | depth + 1 =>
    let cs := trimStart cs
    if cs.head? = some ']' then .ok (.array read, cs.tail)
    else do
      let (v, cs) ← value depth cs
      let read := read ++ [v]
      match trimStart cs with
      | [] => .error (faultAt [] .unterminatedArray)
      | c :: cs =>
        if c = ',' then items depth read cs
        else if c = ']' then .ok (.array read, cs)
        else .error (faultAt (c :: cs) (.unexpectedInArray c))

end

/-- Reads one value, at a depth that the brackets of the text cannot use up. -/
def readValue (cs : List Char) : Except QueryError (Value × List Char) :=
  value now (2 * cs.length + 1) cs

/--
Reads values up to the end of the text, after those in `read`. A comma may follow the last. A step
reads a value and what parts it from the next, so there are fewer steps than characters.
-/
def values (steps : Nat) (read : List Value) (cs : List Char) : Except QueryError (List Value) :=
  match steps with
  | 0 => .error (faultAt cs .noValue)
  | steps + 1 =>
    let cs := trimStart cs
    if cs = [] then .ok read
    else do
      let (v, cs) ← readValue now cs
      let read := read ++ [v]
      let cs := trimStart cs
      if cs = [] then .ok read
      else do
        let ((), cs) ← expect ',' cs
        values steps read cs

end ShellQuery.Argument

namespace ShellQuery

/-! ## Texts -/

open Argument Text

variable (now : Int64)

/-- Reads a list of values that takes up the whole text. -/
def parseArguments (cs : List Char) : Except QueryError (List Value) :=
  values now (cs.length + 1) [] cs

/-- Reads one value that takes up the whole text. -/
def parseValue (cs : List Char) : Except QueryError Value := do
  let (v, rest) ← readValue now (trimStart cs)
  let rest := trimStart rest
  if rest = [] then .ok v else .error (faultAt rest .trailingContent)

/-- Reads a list of values in which wrapper calls may stand for literals. -/
def parseShellArguments (cs : List Char) : Except QueryError (List Value) :=
  parseArguments now (Wrapper.normalize cs)

end ShellQuery

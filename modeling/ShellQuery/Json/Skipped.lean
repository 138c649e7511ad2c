/-
  ShellQuery.Json.Skipped

  Values that nobody asks for. They are read only for their form, with a list of the brackets that
  are open, so that they may be nested to any depth.
-/
import ShellQuery.Json.Scalar

namespace ShellQuery.Json

open Text

/-- What a value that is not yet complete is part of. -/
inductive Enclosing where
  | list
  | map
deriving DecidableEq, Repr

/-- The fault of a text that ends in a list or a map. -/
def Enclosing.unfinished : Enclosing → Cause
  | .list => .endInList
  | .map => .endInMap

/-- The fault of a text that goes on after a part with neither a comma nor the end. -/
def Enclosing.unseparated : Enclosing → Cause
  | .list => .noListSeparator
  | .map => .noMapSeparator

/-- The character that ends a list or a map. -/
def Enclosing.closer : Enclosing → Char
  | .list => ']'
  | .map => '}'

/-- The text after the key of a member and its colon. -/
def dropKey (cs : List Char) : Except Fault (List Char) :=
  match skipSpace cs with
  | [] => faultAt .endInMap []
  | c :: cs =>
    if c ≠ '"' then faultAfter .keyNotString (c :: cs)
    else do
      match skipSpace (← dropString cs) with
      | [] => faultAt .endInMap []
      | d :: cs => if d = ':' then .ok cs else faultAfter .noColon (d :: cs)

/-- The text from the next value of a list or a map on. -/
def dropToValue (e : Enclosing) (cs : List Char) : Except Fault (List Char) :=
  match e with
  | .list => .ok cs
  | .map => dropKey cs

/-- Where the skipping of a value stands: a value is due, or one has just come to its end. -/
inductive Due where
  | value
  | separator
deriving DecidableEq, Repr

/-- The text after a value, where a value or a separator is due in the given lists and maps, the
    innermost one first. `fuel` bounds the steps, each of which takes up a character. -/
def skipFrom (fuel : Nat) (due : Due) (enclosing : List Enclosing) (cs : List Char) :
    Except Fault (List Char) :=
  match fuel, due, enclosing with
  | 0, _, _ => faultAt .endInValue cs
  | _, .separator, [] => .ok cs
  | fuel + 1, .separator, e :: outer =>
    match skipSpace cs with
    | [] => faultAt e.unfinished []
    | c :: rest =>
      if c = ',' then do skipFrom fuel .value (e :: outer) (← dropToValue e rest)
      else if c = e.closer then skipFrom fuel .separator outer rest
      else faultAfter e.unseparated (c :: rest)
  | fuel + 1, .value, enclosing =>
    let enter (e : Enclosing) (rest : List Char) : Except Fault (List Char) :=
      match skipSpace rest with
      | [] => faultAt e.unfinished []
      | c :: after =>
        if c = e.closer then skipFrom fuel .separator enclosing after
        else do skipFrom fuel .value (e :: enclosing) (← dropToValue e (c :: after))
    match skipSpace cs with
    | [] => faultAt .endInValue []
    | c :: rest =>
      if c = '[' then enter .list rest
      else if c = '{' then enter .map rest
      else do
        let rest ←
          if c = '"' then dropString rest
          else if c = 'n' then dropName ['u', 'l', 'l'] rest
          else if c = 't' then dropName ['r', 'u', 'e'] rest
          else if c = 'f' then dropName ['a', 'l', 's', 'e'] rest
          else if c = '-' then dropNumber rest
          else if isAsciiDigit c then dropNumber (c :: rest)
          else faultAfter .noValue (c :: rest)
        skipFrom fuel .separator enclosing rest

/-- The text after one value of any kind. -/
def skipValue (cs : List Char) : Except Fault (List Char) :=
  skipFrom (cs.length + 2) .value [] cs

end ShellQuery.Json

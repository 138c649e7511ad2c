/-
  ShellQuery.Wrapper

  The wrapper calls of the shell, such as `ObjectId("…")` or `NumberLong(5)`, and the plain
  literals that stand for them. Each rule has a constructor name, a form of argument and a
  replacement; `Wrapper.match?` recognises one call at the front of a text.

  Payloads are read without escapes: a quoted one is a run of characters that are no quotes, and
  either quote opens and closes it.
-/
import ShellQuery.Literal
import ShellQuery.Text.Word

namespace ShellQuery

open Text

/-- The wrapper calls that are replaced by plain literals, in the order of their replacement. -/
inductive Wrapper where
  | objectId
  | newObjectId
  | isoDate
  | isoNow
  | numberLong
  | numberInt
  | numberDecimal
  | uuid
  | binData
  | timestamp
deriving DecidableEq, Repr

namespace Wrapper

def all : List Wrapper :=
  [objectId, newObjectId, isoDate, isoNow, numberLong, numberInt, numberDecimal, uuid, binData,
    timestamp]

/-- The name of the constructor that a wrapper calls. -/
def constructorName : Wrapper → List Char
  | .objectId | .newObjectId => ['O', 'b', 'j', 'e', 'c', 't', 'I', 'd']
  | .isoDate | .isoNow => ['I', 'S', 'O', 'D', 'a', 't', 'e']
  | .numberLong => ['N', 'u', 'm', 'b', 'e', 'r', 'L', 'o', 'n', 'g']
  | .numberInt => ['N', 'u', 'm', 'b', 'e', 'r', 'I', 'n', 't']
  | .numberDecimal => ['N', 'u', 'm', 'b', 'e', 'r', 'D', 'e', 'c', 'i', 'm', 'a', 'l']
  | .uuid => ['U', 'U', 'I', 'D']
  | .binData => ['B', 'i', 'n', 'D', 'a', 't', 'a']
  | .timestamp => ['T', 'i', 'm', 'e', 's', 't', 'a', 'm', 'p']

/-! ## Pieces of a call -/

/-- Drops a text from the front of another. -/
def dropText? : List Char → List Char → Option (List Char)
  | [], cs => some cs
  | _ :: _, [] => none
  | w :: ws, c :: cs => if w = c then dropText? ws cs else none

def isQuote (c : Char) : Bool :=
  c = '"' || c = '\''

/-- Drops blanks and one given character. -/
def dropMark? (mark : Char) (cs : List Char) : Option (List Char) :=
  match trimStart cs with
  | [] => none
  | c :: rest => if c = mark then some rest else none

/-- Drops a quote where there is one. -/
def dropQuote : List Char → List Char
  | [] => []
  | c :: cs => if isQuote c then cs else c :: cs

/-- Reads a run of one or more characters of a class. -/
def run? (p : Char → Bool) (cs : List Char) : Option (List Char × List Char) :=
  match cs.takeWhile p with
  | [] => none
  | taken => some (taken, cs.dropWhile p)

/-- Reads blanks and a quoted payload. -/
def payload? (cs : List Char) : Option (List Char × List Char) :=
  match trimStart cs with
  | [] => none
  | c :: rest =>
    if isQuote c then do
      let (taken, rest) ← run? (fun d => !isQuote d) rest
      -- the run ends at a quote or at the end of the text
      match rest with
      | [] => none
      | _ :: rest => some (taken, rest)
    else none

/-- Reads an integer with an optional minus sign; its digits may be of any script. -/
def integer? : List Char → Option (List Char × List Char)
  | '-' :: cs => (run? isWordDigit cs).map fun (ds, rest) => ('-' :: ds, rest)
  | cs => run? isWordDigit cs

/-- Reads to the first place where an optional quote, blanks and a closing parenthesis follow, with
    at least one character before it and no quote or parenthesis among them. -/
def loosePayload? : List Char → Option (List Char × List Char)
  | [] => none
  | c :: cs =>
    if isQuote c || c = ')' then none
    else match dropMark? ')' (dropQuote cs) with
      | some rest => some ([c], rest)
      | none => (loosePayload? cs).map fun (taken, rest) => (c :: taken, rest)

/-- Reads blanks, an optional quote and a loose payload. Blanks belong to the payload only where it
    would be empty without them. -/
def loose? : List Char → Option (List Char × List Char)
  | [] => none
  | c :: cs =>
    if isBlank c then loose? cs <|> loosePayload? (c :: cs)
    else if isQuote c then loosePayload? cs
    else loosePayload? (c :: cs)

/-! ## Calls -/

/-- A payload between double quotes. -/
def quote (payload : List Char) : List Char :=
  '"' :: payload ++ ['"']

/-- Reads what follows the opening parenthesis of a wrapper call, up to and with the closing one:
    the literal that stands for the call, and the text after it. -/
def arguments? (w : Wrapper) (cs : List Char) : Option (List Char × List Char) :=
  match w with
  | .objectId | .uuid => do
    let (payload, cs) ← payload? cs
    let rest ← dropMark? ')' cs
    some (quote payload, rest)
  | .newObjectId => do
    let rest ← dropMark? ')' cs
    some (quote [], rest)
  | .isoDate => do
    let (payload, cs) ← payload? cs
    let rest ← dropMark? ')' cs
    some ("new Date(".toList ++ quote payload ++ [')'], rest)
  | .isoNow => do
    let rest ← dropMark? ')' cs
    some ("new Date()".toList, rest)
  | .numberLong | .numberInt => do
    let (digits, cs) ← integer? (dropQuote (trimStart cs))
    let rest ← dropMark? ')' (dropQuote cs)
    some (digits, rest)
  | .numberDecimal => loose? cs
  | .binData => do
    let (_, cs) ← run? isWordDigit (trimStart cs)
    let cs ← dropMark? ',' cs
    let (payload, cs) ← payload? cs
    let rest ← dropMark? ')' cs
    some (quote payload, rest)
  | .timestamp => do
    let (seconds, cs) ← run? isWordDigit (trimStart cs)
    let cs ← dropMark? ',' cs
    let (increment, cs) ← run? isWordDigit (trimStart cs)
    let rest ← dropMark? ')' cs
    some ("\x7b\"t\": ".toList ++ seconds ++ ", \"i\": ".toList ++ increment ++ ['}'], rest)

/-- Reads a wrapper call without `new`. -/
def call? (w : Wrapper) (cs : List Char) : Option (List Char × List Char) := do
  let cs ← dropText? w.constructorName cs
  let cs ← dropMark? '(' cs
  w.arguments? cs

/-- Reads `new` and at least one blank. -/
def dropNew? (cs : List Char) : Option (List Char) := do
  let cs ← dropText? ['n', 'e', 'w'] cs
  let (_, rest) ← run? isBlank cs
  some rest

/-- Recognises a wrapper call at the front of a text: the literal that stands for it, and the text
    after it. The call must not follow a word character. -/
def match? (w : Wrapper) (before : Option Char) (cs : List Char) :
    Option (List Char × List Char) :=
  if before.any isWord then none
  else (dropNew? cs).bind w.call? <|> w.call? cs

/-! ## Unwrapping -/

/-- Replaces the calls of one wrapper, from left to right. `dropping` counts the characters that
    still belong to a call replaced already, `copying` those of a call that begins inside a
    literal, which is kept as it is. -/
def unwrapFrom (w : Wrapper) (z : Zone) (before : Option Char) (dropping copying : Nat) :
    List Char → List Char
  | [] => []
  | c :: cs =>
    match dropping, copying with
    | dropping + 1, _ => unwrapFrom w (z.next c) (some c) dropping 0 cs
    | 0, copying + 1 => c :: unwrapFrom w (z.next c) (some c) 0 copying cs
    | 0, 0 =>
      match w.match? before (c :: cs) with
      | none => c :: unwrapFrom w (z.next c) (some c) 0 0 cs
      | some (literal, rest) =>
        let remaining := cs.length - rest.length
        if z.isCode then literal ++ unwrapFrom w (z.next c) (some c) remaining 0 cs
        else c :: unwrapFrom w (z.next c) (some c) 0 remaining cs

/-- Replaces every call of one wrapper that does not begin inside a literal. -/
def unwrap (w : Wrapper) (cs : List Char) : List Char :=
  w.unwrapFrom .start none 0 0 cs

/-- Replaces the calls of all wrappers, one wrapper after the other. -/
def normalize (cs : List Char) : List Char :=
  all.foldl (fun text w => w.unwrap text) cs

end Wrapper

end ShellQuery

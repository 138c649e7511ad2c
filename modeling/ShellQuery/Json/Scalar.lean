/-
  ShellQuery.Json.Scalar

  The strings, numbers and names of JSON texts. A reader takes the text from its first character
  on and returns what it read and the text after it.

  What nobody asks for is skipped: it must have the form of a value, but its escapes need not stand
  for characters and its numbers may be of any size.
-/
import ShellQuery.Argument.Lexeme
import ShellQuery.Json.Fault

namespace ShellQuery.Json

open Text

/-- Reads a value from the front of a text. -/
abbrev Reader (α : Type) : Type :=
  StateT (List Char) (Except Fault) α

/-- A fault at the front of a text. -/
def faultAt {α : Type} (cause : Cause) (rest : List Char) : Except Fault α :=
  .error { cause, rest }

/-- A fault whose place is after the first byte of a text. -/
def faultAfter {α : Type} (cause : Cause) (rest : List Char) : Except Fault α :=
  .error { cause, rest, ahead := 1 }

/-- The white space of JSON. -/
def isSpace (c : Char) : Bool :=
  c = ' ' || c = '\n' || c = '\t' || c = '\r'

/-- Drops the white space a text begins with. -/
def skipSpace (cs : List Char) : List Char :=
  cs.dropWhile isSpace

/-- The text after one of the three names, the first character of which was read. -/
def dropName : List Char → List Char → Except Fault (List Char)
  | [], cs => .ok cs
  | _ :: _, [] => faultAt .endInValue []
  | w :: ws, c :: cs => if c = w then dropName ws cs else faultAfter .noName (c :: cs)

/-! ## Escapes -/

/-- The character that a backslash and the given one stand for. -/
def unescape? (c : Char) : Option Char :=
  if c = '"' || c = '\\' || c = '/' then some c
  else if c = 'b' then some '\x08'
  else if c = 'f' then some '\x0c'
  else if c = 'n' then some '\n'
  else if c = 'r' then some '\r'
  else if c = 't' then some '\t'
  else none

/-- The fault of a text that does not begin with four hexadecimal digits. Four bytes count as read,
    whatever they are. -/
def hexQuadFault {α : Type} (cs : List Char) : Except Fault α :=
  if byteLength cs < 4 then faultAt .endInString []
  else .error { cause := .badEscape, rest := cs, ahead := 4 }

/-- The number that four hexadecimal digits stand for, and the text after them. -/
def hexQuad (cs : List Char) : Except Fault (Nat × List Char) :=
  match cs with
  | h₁ :: h₂ :: h₃ :: h₄ :: rest =>
    match Argument.hexQuad? h₁ h₂ h₃ h₄ with
    | some n => .ok (n, rest)
    | none => hexQuadFault cs
  | _ => hexQuadFault cs

/-- The character of two surrogates. -/
def surrogatePair (lead trail : Nat) : Char :=
  Char.ofNat (0x10000 + (lead - 0xD800) * 0x400 + (trail - 0xDC00))

/-- The character of an escape after its `\u`. Two escapes together stand for a character beyond
    the first `2 ^ 16`. -/
def unicodeEscape (cs : List Char) : Except Fault (Char × List Char) := do
  let (n, cs) ← hexQuad cs
  if Argument.isScalar n then .ok (Char.ofNat n, cs)
  else if 0xDC00 ≤ n then faultAt .loneSurrogate cs
  else
    match cs with
    | [] => faultAt .endInString []
    | c :: cs =>
      if c ≠ '\\' then faultAfter .halfPair (c :: cs)
      else match cs with
        | [] => faultAt .endInString []
        | u :: cs =>
          if u ≠ 'u' then faultAfter .halfPair (u :: cs)
          else do
            let (trail, cs) ← hexQuad cs
            if 0xDC00 ≤ trail ∧ trail ≤ 0xDFFF then .ok (surrogatePair n trail, cs)
            else faultAt .loneSurrogate cs

/-- The character of an escape after its backslash. -/
def escape : List Char → Except Fault (Char × List Char)
  | [] => faultAt .endInString []
  | c :: cs =>
    if c = 'u' then unicodeEscape cs
    else match unescape? c with
      | some d => .ok (d, cs)
      | none => faultAfter .badEscape (c :: cs)

/-- The text after an escape, which need not stand for a character, after its backslash. -/
def dropEscape : List Char → Except Fault (List Char)
  | [] => faultAt .endInString []
  | c :: cs =>
    if c = 'u' then (hexQuad cs).map (·.2)
    else if (unescape? c).isSome then .ok cs
    else faultAfter .badEscape (c :: cs)

/-! ## Strings -/

/-- Reads a string after its opening quote; `read` is what came before, last character first.
    `fuel` bounds the characters. -/
def stringRest (fuel : Nat) (read cs : List Char) : Except Fault (String × List Char) :=
  match fuel, cs with
  | 0, _ | _, [] => faultAt .endInString []
  | fuel + 1, c :: cs =>
    if c = '"' then .ok (.ofList read.reverse, cs)
    else if c = '\\' then do
      let (d, rest) ← escape cs
      stringRest fuel (d :: read) rest
    else if c.toNat < 0x20 then faultAfter .controlCharacter (c :: cs)
    else stringRest fuel (c :: read) cs

/-- Reads a string after its opening quote. -/
def stringBody : Reader String :=
  fun cs => stringRest cs.length [] cs

/-- The text after the closing quote of a string that is skipped. `fuel` bounds the characters. -/
def dropStringRest (fuel : Nat) (cs : List Char) : Except Fault (List Char) :=
  match fuel, cs with
  | 0, _ | _, [] => faultAt .endInString []
  | fuel + 1, c :: cs =>
    if c = '"' then .ok cs
    else if c = '\\' then do dropStringRest fuel (← dropEscape cs)
    else if c.toNat < 0x20 then faultAt .controlCharacter (c :: cs)
    else dropStringRest fuel cs

/-- The text after a string that is skipped, after its opening quote. -/
def dropString (cs : List Char) : Except Fault (List Char) :=
  dropStringRest cs.length cs

/-! ## Numbers as they are written -/

/-- A fault of a number. Where the text ends, its cause is the given one. -/
def numberFault {α : Type} (atEnd : Cause) : List Char → Except Fault α
  | [] => faultAt atEnd []
  | cs => faultAfter .badNumber cs

/-- Splits off one digit or more. -/
def someDigits (atEnd : Cause) (cs : List Char) : Except Fault (List Char × List Char) :=
  match cs with
  | [] => numberFault atEnd []
  | c :: _ => if isAsciiDigit c then .ok (Numeral.spanDigits cs) else numberFault atEnd cs

/-- Splits off the digits before the point, at least one. None may follow a leading zero. -/
def wholeDigits (atEnd : Cause) (cs : List Char) : Except Fault (List Char × List Char) := do
  let (digits, rest) ← someDigits atEnd cs
  if digits.head? = some '0' && digits.length ≠ 1 then faultAfter .badNumber cs.tail
  else .ok (digits, rest)

/-- Splits off a point and the digits after it, if there is one. -/
def fractionDigits (atEnd : Cause) : List Char → Except Fault (Option (List Char) × List Char)
  | '.' :: cs => do
    let (digits, rest) ← someDigits atEnd cs
    .ok (some digits, rest)
  | cs => .ok (none, cs)

/-- Splits off an exponent, if there is one: whether it is negative, and its digits. -/
def exponentDigits (atEnd : Cause) (cs : List Char) :
    Except Fault (Option (Bool × List Char) × List Char) :=
  match cs with
  | [] => .ok (none, [])
  | c :: after =>
    if c = 'e' || c = 'E' then do
      let (negative, after) := match after with
        | '-' :: ds => (true, ds)
        | '+' :: ds => (false, ds)
        | ds => (false, ds)
      let (digits, rest) ← someDigits atEnd after
      .ok (some (negative, digits), rest)
    else .ok (none, cs)

/-- Reads a number after its sign, to its parts. -/
def numeral (atEnd : Cause) (negative : Bool) (cs : List Char) :
    Except Fault (Numeral × List Char) := do
  let (whole, cs) ← wholeDigits atEnd cs
  let (fraction, cs) ← fractionDigits atEnd cs
  let (exponent, cs) ← exponentDigits atEnd cs
  .ok (⟨negative, whole, fraction.isSome, fraction.getD [], exponent⟩, cs)

/-- The text after a number that is skipped, after its sign. -/
def dropNumber (cs : List Char) : Except Fault (List Char) :=
  (numeral .badNumber false cs).map (·.2)

end ShellQuery.Json

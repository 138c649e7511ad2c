/-
  ShellQuery.Argument.Lexeme

  The scalars of argument texts: strings, regular expressions, numbers and identifiers. A reader
  takes the text from its first character on and returns what it read and the text after it; a
  fault carries the first characters of the text at the place where it was found.
-/
import ShellQuery.Error
import ShellQuery.Number.Numeral
import ShellQuery.Text.Blank
import ShellQuery.Value

namespace ShellQuery.Argument

open Text

/-- How much of a text a fault shows. -/
def fragmentLength : Nat := 24

/-- The text that a fault at the given place shows. -/
def fragment (cs : List Char) : String :=
  if cs = [] then "<end of input>" else .ofList (cs.take fragmentLength)

/-- A fault found at the given text. -/
def faultAt (cs : List Char) (fault : ArgumentFault) : QueryError :=
  .argument (fragment cs) fault

/-- Reads one given character. -/
def expect (wanted : Char) : List Char → Except QueryError (Unit × List Char)
  | [] => .error (faultAt [] (.expected wanted none))
  | c :: cs =>
    if c = wanted then .ok ((), cs) else .error (faultAt (c :: cs) (.expected wanted (some c)))

/-- Puts a character in front of what was read. -/
def push (c : Char) :
    Except QueryError (List Char × List Char) → Except QueryError (List Char × List Char)
  | .ok (cs, rest) => .ok (c :: cs, rest)
  | .error e => .error e

/-! ## Strings -/

/-- The character that a backslash and the given one stand for. -/
def unescape (c : Char) : Char :=
  if c = 'n' then '\n'
  else if c = 't' then '\t'
  else if c = 'r' then '\r'
  else if c = 'b' then '\x08'
  else if c = 'f' then '\x0c'
  else if c = '0' then '\x00'
  else c

/-- The value of a hexadecimal digit. -/
def hexDigit? (c : Char) : Option Nat :=
  if '0' ≤ c && c ≤ '9' then some (c.toNat - '0'.toNat)
  else if 'a' ≤ c && c ≤ 'f' then some (c.toNat - 'a'.toNat + 10)
  else if 'A' ≤ c && c ≤ 'F' then some (c.toNat - 'A'.toNat + 10)
  else none

/-- The value of four hexadecimal digits. -/
def hexQuad? (a b c d : Char) : Option Nat := do
  let a ← hexDigit? a
  let b ← hexDigit? b
  let c ← hexDigit? c
  let d ← hexDigit? d
  some (((a * 16 + b) * 16 + c) * 16 + d)

/-- Whether a number below `2 ^ 16` is a character and no surrogate. -/
def isScalar (n : Nat) : Bool :=
  n < 0xD800 || 0xDFFF < n

/-- Reads a string up to its closing quote. `opening` is the text from the opening quote on. -/
def stringBody (opening : List Char) (quote : Char) :
    List Char → Except QueryError (List Char × List Char)
  | [] => .error (faultAt opening .unterminatedString)
  | c :: cs =>
    if c = quote then .ok ([], cs)
    else if c = '\\' then
      match cs with
      | [] => .error (faultAt opening .unterminatedString)
      | e :: rest =>
        if e = 'u' then
          match rest with
          | h₁ :: h₂ :: h₃ :: h₄ :: after =>
            match hexQuad? h₁ h₂ h₃ h₄ with
            | none => .error (faultAt rest .badUnicodeEscape)
            | some n =>
              if isScalar n then push (Char.ofNat n) (stringBody opening quote after)
              else .error (faultAt rest .badCodePoint)
          | _ => .error (faultAt rest .badUnicodeEscape)
        else push (unescape e) (stringBody opening quote rest)
    else push c (stringBody opening quote cs)

/-- Reads a string from its opening quote on. -/
def string : List Char → Except QueryError (String × List Char)
  | [] => .error (faultAt [] .unterminatedString)
  | quote :: cs => do
    let (text, rest) ← stringBody (quote :: cs) quote cs
    .ok (.ofList text, rest)

/-! ## Regular expressions -/

/-- Reads a regular expression up to its closing slash, with its escapes as written. -/
def regexBody (opening : List Char) (inClass : Bool) :
    List Char → Except QueryError (List Char × List Char)
  | [] => .error (faultAt opening .unterminatedRegex)
  | c :: cs =>
    if c = '\\' then
      match cs with
      | [] => .error (faultAt opening .unterminatedRegex)
      | e :: rest => push '\\' (push e (regexBody opening inClass rest))
    else if c = '[' then push c (regexBody opening true cs)
    else if c = ']' then push c (regexBody opening false cs)
    else if c = '/' && !inClass then .ok ([], cs)
    else push c (regexBody opening inClass cs)

/-- The flags that a regular expression may have, in the order in which they are kept. -/
def regexFlags : List Char :=
  ['i', 'l', 'm', 's', 'u', 'x']

/-- Reads flags up to the first character that is no ASCII letter. -/
def flags : List Char → Except QueryError (List Char × List Char)
  | [] => .ok ([], [])
  | c :: cs =>
    if !isAsciiLetter c then .ok ([], c :: cs)
    else if regexFlags.contains c then push c (flags cs)
    else .error (faultAt (c :: cs) (.badRegexFlag c))

/-- Reads a regular expression from its opening slash on. Its flags are sorted, each once. -/
def regex : List Char → Except QueryError (Value × List Char)
  | [] => .error (faultAt [] (.expected '/' none))
  | c :: cs => do
    let (pattern, rest) ← regexBody (c :: cs) false cs
    let (written, rest) ← flags rest
    let options := regexFlags.filter written.contains
    .ok (.regex (.ofList pattern) (.ofList options), rest)

/-! ## Identifiers and numbers -/

/-- Splits off the identifier that a text begins with, which may be empty. -/
def identifier (cs : List Char) : List Char × List Char :=
  (cs.takeWhile isIdentChar, cs.dropWhile isIdentChar)

theorem identifier_append (cs : List Char) : (identifier cs).1 ++ (identifier cs).2 = cs :=
  List.takeWhile_append_dropWhile

/-- Splits off the characters that may belong to an unsigned number: digits, points, and exponent
    marks with a sign after them. -/
def numberRun : List Char → List Char × List Char
  | [] => ([], [])
  | c :: cs =>
    if isAsciiDigit c || c = '.' then
      let (taken, rest) := numberRun cs
      (c :: taken, rest)
    else if c = 'e' || c = 'E' then
      match cs with
      | [] => ([c], [])
      | s :: after =>
        if s = '-' || s = '+' then
          let (taken, rest) := numberRun after
          (c :: s :: taken, rest)
        else
          let (taken, rest) := numberRun (s :: after)
          (c :: taken, rest)
    else ([], c :: cs)

theorem numberRun_append (cs : List Char) : (numberRun cs).1 ++ (numberRun cs).2 = cs := by
  fun_induction numberRun cs with
  | case1 => rfl
  | case2 => simp_all
  | case3 => rfl
  | case4 => simp_all
  | case5 => simp_all
  | case6 => rfl

/-- The value of a numeral: an integer that fits 64 bits as an integer, any other as a double. -/
def numeralValue (n : Numeral) : Value :=
  if n.isInteger ∧ -2 ^ (63 : Nat) ≤ n.toInt ∧ n.toInt < 2 ^ (63 : Nat) then .ofInt64 (.ofInt n.toInt)
  else .double n.toBinary64

/-- The text of a signed number as its numeral is read: without a plus sign. -/
def unsignPlus : List Char → List Char
  | '+' :: cs => cs
  | cs => cs

/-- Splits off the sign that a text begins with, if there is one. -/
def sign : List Char → List Char × List Char
  | [] => ([], [])
  | c :: cs => if c = '-' || c = '+' then ([c], cs) else ([], c :: cs)

theorem sign_append (cs : List Char) : (sign cs).1 ++ (sign cs).2 = cs := by
  cases cs with
  | nil => rfl
  | cons c cs =>
    simp only [sign]
    split <;> rfl

/-- Reads a number, or an infinity with a sign before it. -/
def number (cs : List Char) : Except QueryError (Value × List Char) :=
  let (signed, afterSign) := sign cs
  if afterSign.head? = some 'I' then
    let (word, rest) := identifier afterSign
    if word = "Infinity".toList then .ok (.double (.infinity (signed = ['-'])), rest)
    else .error (faultAt cs (.badNumber (.ofList word)))
  else
    let (taken, rest) := numberRun afterSign
    match Numeral.ofChars? (unsignPlus (signed ++ taken)) with
    | some n => .ok (numeralValue n, rest)
    | none => .error (faultAt cs (.badNumber (.ofList (signed ++ taken))))

end ShellQuery.Argument

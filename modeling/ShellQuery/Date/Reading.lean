/-
  ShellQuery.Date.Reading

  The date texts that a date construction takes, blanks around them aside. A text is read as the first
  of these that it fits: an RFC 3339 text (`internet?`), and then the formats without a zone, which
  stand for Coordinated Universal Time (`local?`):

    %Y-%m-%dT%H:%M:%S%.f
    %Y-%m-%dT%H:%M
    %Y-%m-%d %H:%M:%S%.f
    %Y-%m-%d                at midnight

  In a format a number may have blanks in front of it, and any number of digits from one to those of
  its field: four for a year, which has no bound after a sign, and two for the others. The space
  stands for blanks, also for none, and `%.f` for nothing or a point with one or more digits.

  A second 60 is allowed and counts as one second past 59. Digits of a fraction beyond the third
  are dropped.
-/
import ShellQuery.Date.Calendar
import ShellQuery.Number.Numeral
import ShellQuery.Text.Blank

namespace ShellQuery.Date

open Text

/-! ## Fields -/

/-- Reads a number of at most `most` digits and at least one. -/
def digitsUpTo (most : Nat) (cs : List Char) : Option (Nat × List Char) :=
  let ds := (cs.take most).takeWhile isAsciiDigit
  if ds = [] then none else some (digitsValue ds, cs.drop ds.length)

/-- Reads a number of exactly `count` digits. -/
def digitsExactly (count : Nat) (cs : List Char) : Option (Nat × List Char) :=
  let ds := (cs.take count).takeWhile isAsciiDigit
  if ds.length = count then some (digitsValue ds, cs.drop count) else none

/-- Reads one given character. -/
def character (c : Char) : List Char → Option (List Char)
  | d :: cs => if d = c then some cs else none
  | [] => none

/-- The milliseconds of a fraction of a second, by its digits. -/
def millisOfFraction (ds : List Char) : Nat :=
  digitsValue ((ds ++ ['0', '0', '0']).take 3)

/-- Reads the fraction of a second: nothing, or a point and one or more digits. -/
def fractionPart : List Char → Option (Nat × List Char)
  | '.' :: cs =>
    let (ds, rest) := Numeral.spanDigits cs
    if ds = [] then none else some (millisOfFraction ds, rest)
  | cs => some (0, cs)

/-- The moment with the given fields, if the calendar and the clock have it. -/
def moment? (year : Int) (month day hour minute second millisecond : Nat) : Option Moment :=
  let date : CalendarDay := ⟨year, month, day⟩
  if date.isValid && hour < 24 && minute < 60 && second ≤ 60 then
    some ⟨date, hour, minute, second, millisecond⟩
  else none

/-! ## Texts with a zone -/

/-- Reads the zone of an RFC 3339 text, to its offset in minutes. -/
def zone : List Char → Option (Int × List Char)
  | c :: cs =>
    if c = 'Z' || c = 'z' then some (0, cs)
    else if c = '+' || c = '-' || c = '\u2212' then do
      let (hours, cs) ← digitsExactly 2 cs
      let cs ← character ':' cs
      let (minutes, cs) ← digitsExactly 2 cs
      if hours < 24 && minutes < 60 then
        let offset : Int := (hours * 60 + minutes : Nat)
        some (if c = '+' then offset else -offset, cs)
      else none
    else none
  | [] => none

/-- Milliseconds of an RFC 3339 text. -/
def internet? (cs : List Char) : Option Int := do
  let (year, cs) ← digitsExactly 4 cs
  let cs ← character '-' cs
  let (month, cs) ← digitsExactly 2 cs
  let cs ← character '-' cs
  let (day, cs) ← digitsExactly 2 cs
  let cs ← match cs with
    | c :: cs => if c = 'T' || c = 't' || c = ' ' then some cs else none
    | [] => none
  let (hour, cs) ← digitsExactly 2 cs
  let cs ← character ':' cs
  let (minute, cs) ← digitsExactly 2 cs
  let cs ← character ':' cs
  let (second, cs) ← digitsExactly 2 cs
  let (millisecond, cs) ← fractionPart cs
  let (offset, cs) ← zone cs
  let m ← moment? year month day hour minute second millisecond
  if cs = [] then some (m.toMillis - offset * 60000) else none

/-! ## Texts without a zone -/

/-- Reads a number of one or two digits after any blanks. -/
def paddedField (cs : List Char) : Option (Nat × List Char) :=
  digitsUpTo 2 (trimStart cs)

/-- Reads a year after any blanks: up to four digits, or any number of them after a sign. -/
def yearField (cs : List Char) : Option (Int × List Char) :=
  match trimStart cs with
  | '-' :: cs => (digitsUpTo cs.length cs).map fun (n, rest) => (-(n : Int), rest)
  | '+' :: cs => (digitsUpTo cs.length cs).map fun (n, rest) => ((n : Int), rest)
  | cs => (digitsUpTo 4 cs).map fun (n, rest) => ((n : Int), rest)

/-- Reads a date, the years from -262143 to 262142. -/
def dateFields (cs : List Char) : Option ((Int × Nat × Nat) × List Char) := do
  let (year, cs) ← yearField cs
  let cs ← character '-' cs
  let (month, cs) ← paddedField cs
  let cs ← character '-' cs
  let (day, cs) ← paddedField cs
  if -262143 ≤ year ∧ year ≤ 262142 then some ((year, month, day), cs) else none

/-- Reads a time with seconds and an optional fraction, up to the end of the text. -/
def timeFields (cs : List Char) : Option (Nat × Nat × Nat × Nat) := do
  let (hour, cs) ← paddedField cs
  let cs ← character ':' cs
  let (minute, cs) ← paddedField cs
  let cs ← character ':' cs
  let (second, cs) ← paddedField cs
  let (millisecond, cs) ← fractionPart cs
  if cs = [] then some (hour, minute, second, millisecond) else none

/-- Reads a time without seconds, up to the end of the text. -/
def shortTimeFields (cs : List Char) : Option (Nat × Nat) := do
  let (hour, cs) ← paddedField cs
  let cs ← character ':' cs
  let (minute, cs) ← paddedField cs
  if cs = [] then some (hour, minute) else none

/-- The moment of a text without a zone. -/
def local? (cs : List Char) : Option Moment := do
  let ((year, month, day), rest) ← dateFields cs
  let at? (time : Nat × Nat × Nat × Nat) : Option Moment :=
    moment? year month day time.1 time.2.1 time.2.2.1 time.2.2.2
  let afterT? := character 'T' rest
  let seconds? := (afterT?.bind timeFields).bind at?
  let short? := (afterT?.bind shortTimeFields).bind fun (hour, minute) => at? (hour, minute, 0, 0)
  let spaced? := (timeFields (trimStart rest)).bind at?
  let dayOnly? := if rest = [] then at? (0, 0, 0, 0) else none
  seconds? <|> short? <|> spaced? <|> dayOnly?

/-- The milliseconds since 1970 that a date text stands for, blanks around it aside. -/
def parseMillis (cs : List Char) : Option Int :=
  let cs := trim cs
  internet? cs <|> (local? cs).map Moment.toMillis

end ShellQuery.Date

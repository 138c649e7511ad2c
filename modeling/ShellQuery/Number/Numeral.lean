/-
  ShellQuery.Number.Numeral

  Written numbers: an optional minus sign, digits with an optional point, and an optional exponent.
  A numeral keeps its parts as written; its double and its integer are functions on it.
-/
import ShellQuery.Number.Binary64
import ShellQuery.Text.Word

namespace ShellQuery

open Text

/-- The value of a run of ASCII digits. -/
def digitsValue (ds : List Char) : Nat :=
  ds.foldl (fun n d => 10 * n + (d.toNat - '0'.toNat)) 0

/-- A number as written. -/
structure Numeral where
  negative : Bool
  /-- The digits before the point. -/
  whole : List Char
  /-- Whether a point is written. -/
  pointed : Bool
  /-- The digits after the point. -/
  fraction : List Char
  /-- The sign and the digits of the exponent, if one is written. -/
  exponent : Option (Bool × List Char)
deriving DecidableEq, Repr

namespace Numeral

/-- Splits off the digits a text begins with. -/
def spanDigits (cs : List Char) : List Char × List Char :=
  (cs.takeWhile isAsciiDigit, cs.dropWhile isAsciiDigit)

/-- Reads an exponent that takes up the whole text: `e` or `E`, a sign or none, digits. -/
def exponentOf? : List Char → Option (Option (Bool × List Char))
  | [] => some none
  | c :: cs =>
    if c = 'e' || c = 'E' then
      let (negative, digits) := match cs with
        | '-' :: ds => (true, ds)
        | '+' :: ds => (false, ds)
        | ds => (false, ds)
      if digits ≠ [] && digits.all isAsciiDigit then some (some (negative, digits)) else none
    else none

/-- Reads a number that takes up the whole text. There must be a digit before or after the
    point. -/
def ofChars? (cs : List Char) : Option Numeral := do
  let (negative, cs) := match cs with
    | '-' :: rest => (true, rest)
    | rest => (false, rest)
  let (whole, cs) := spanDigits cs
  let (pointed, fraction, cs) := match cs with
    | '.' :: rest => (true, spanDigits rest)
    | rest => (false, [], rest)
  if whole = [] && fraction = [] then none
  else
    let exponent ← exponentOf? cs
    some ⟨negative, whole, pointed, fraction, exponent⟩

/-- Whether neither a point nor an exponent is written. -/
def isInteger (n : Numeral) : Bool :=
  !n.pointed && n.exponent.isNone

/-- The digits before the point as an integer, with the sign. -/
def toInt (n : Numeral) : Int :=
  let m : Int := digitsValue n.whole
  if n.negative then -m else m

/-- The exponent of ten that the last digit written stands at. -/
def lastPlace (n : Numeral) : Int :=
  let written : Int := match n.exponent with
    | none => 0
    | some (true, ds) => -digitsValue ds
    | some (false, ds) => digitsValue ds
  written - n.fraction.length

/-- The double nearest to the number. -/
def toBinary64 (n : Numeral) : Binary64 :=
  .ofDecimal n.negative (digitsValue (n.whole ++ n.fraction)) n.lastPlace

end Numeral

end ShellQuery

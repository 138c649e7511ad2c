/-
  ShellQuery.Date.Written

  The two texts of a moment. `internet` is the RFC 3339 text in Coordinated Universal Time that JSON
  results show, `%Y-%m-%dT%H:%M:%S%.fZ`, and `spelled` the one that messages show,
  `%Y-%m-%d %-H:%M:%S.%f +00:00:00`, with an unpadded hour and a sign before a long or negative year.
  The zeros that a fraction ends in are cut, and `internet` has no fraction that is zero, where
  `spelled` has one zero.
-/
import ShellQuery.Date.Calendar

namespace ShellQuery.Date

/-- A number in decimal digits, with zeros in front up to a width. -/
def padded (width n : Nat) : List Char :=
  let ds := Nat.toDigits 10 n
  List.replicate (width - ds.length) '0' ++ ds

/-- The three digits of the milliseconds without the zeros they end in. -/
def fractionDigits (millisecond : Nat) : List Char :=
  ((padded 3 millisecond).reverse.dropWhile (· = '0')).reverse

namespace Moment

/-- `2024-01-01T00:00:00Z`, with a fraction of a second where there is one. The year must have
    four digits. -/
def internet (m : Moment) : String :=
  let fraction := match fractionDigits m.millisecond with
    | [] => []
    | ds => '.' :: ds
  .ofList <|
    padded 4 m.date.year.toNat ++ '-' :: padded 2 m.date.month ++ '-' :: padded 2 m.date.day ++
      'T' :: padded 2 m.hour ++ ':' :: padded 2 m.minute ++ ':' :: padded 2 m.second ++
      fraction ++ ['Z']

/-- A year of four digits as it is, a longer one with a plus sign, a negative one with a minus
    sign. -/
def spelledYear (year : Int) : List Char :=
  let ds := padded 4 year.natAbs
  if year < 0 then '-' :: ds
  else if 9999 < year then '+' :: ds
  else ds

/-- `2024-01-01 0:00:00.0 +00:00:00`. -/
def spelled (m : Moment) : String :=
  let fraction := match fractionDigits m.millisecond with
    | [] => ['0']
    | ds => ds
  .ofList <|
    spelledYear m.date.year ++ '-' :: padded 2 m.date.month ++ '-' :: padded 2 m.date.day ++
      ' ' :: Nat.toDigits 10 m.hour ++ ':' :: padded 2 m.minute ++ ':' :: padded 2 m.second ++
      '.' :: fraction ++ " +00:00:00".toList

end Moment

end ShellQuery.Date

/-
  ShellQuery.Number.Shortest

  The shortest decimal text that reads back as a given double. The numbers that round to a double
  form an interval; for one digit, two digits and so on the two decimals next to the double are
  tried, and the first grid with a decimal in the interval gives the digits.

  Two notations use them: the plain one of messages, which never has an exponent, and the one of
  JSON texts, which always shows that the number is no integer. Where two decimals are equally
  near, the plain notation takes the greater one, and JSON texts the one with an even last digit.
-/
import ShellQuery.Number.Binary64

namespace ShellQuery

/-- The positive decimal `0.d₁d₂… * 10 ^ point`, by its digits and the place of its point. -/
structure ShortDecimal where
  digits : List Char
  point : Int
deriving DecidableEq, Repr

/-- Which of two equally near decimals is taken. -/
inductive Tie where
  | greater
  | even
deriving DecidableEq, Repr

namespace Binary64

/-! ## The digits -/

/-- The interval of the numbers that round to a positive finite double, in quarters of its last
    place, and whether the ends belong to it. Below a power of two the gap is half as wide. -/
def roundingInterval (x : Binary64) : Nat × Nat × Bool :=
  let m := x.significand
  let low := if m = 2 ^ (52 : Nat) && 1 < x.exponentField then 4 * m - 1 else 4 * m - 2
  (low, 4 * m + 2, m % 2 = 0)

/-- Whether `num / den` rounds to `x`. -/
def accepts (x : Binary64) (num den : Nat) : Bool :=
  let (low, high, closed) := x.roundingInterval
  let value := num * 2 ^ (1076 : Nat)
  let low := low * 2 ^ x.unit * den
  let high := high * 2 ^ x.unit * den
  if closed then low ≤ value && value ≤ high else low < value && value < high

/-- The least `k` from `k₀` on with `num * 10 ^ k ≥ den`, at most `fuel` steps away. -/
def leadingZeros (num den : Nat) : Nat → Nat → Nat
  | 0, k => k
  | fuel + 1, k => if den ≤ num * 10 ^ k then k else leadingZeros num den fuel (k + 1)

/-- The place of the decimal point of `num / den` before its first digit that is not zero. The
    smallest double has its first digit at the 324th place. -/
def pointOf (num den : Nat) : Int :=
  if den ≤ num then (Nat.toDigits 10 (num / den)).length
  else 1 - (leadingZeros num den 330 0 : Int)

/-- `num / den` times a power of ten, as a quotient. -/
def shiftDecimal (num den : Nat) : Int → Nat × Nat
  | .ofNat e => (num * 10 ^ e, den)
  | .negSucc e => (num, den * 10 ^ (e + 1))

/-- The nearer of two neighbours on a grid, `rest / den` above the lower one. -/
def nearer (tie : Tie) (below rest den : Nat) : Nat :=
  if 2 * rest < den then below
  else if den < 2 * rest then below + 1
  else match tie with
    | .greater => below + 1
    | .even => below + below % 2

/-- The multiple of the power of ten `place` nearest to `x` among those that round to it, as a
    coefficient. -/
def nearestOnGrid? (tie : Tie) (x : Binary64) (place : Int) : Option Nat :=
  let (num, den) := shiftDecimal x.scaled (2 ^ (1074 : Nat)) (-place)
  let below := num / den
  let rest := num % den
  let ok (d : Nat) : Bool :=
    let (n, m) := shiftDecimal d 1 place
    x.accepts n m
  match ok below, ok (below + 1) with
  | true, true => some (nearer tie below rest den)
  | true, false => some below
  | false, true => some (below + 1)
  | false, false => none

/-- Tries `count` digits, then more, at most `fuel` times. -/
def searchDigits (tie : Tie) (x : Binary64) (point : Int) : Nat → Nat → Nat × Int
  | 0, count => (0, point - count)
  | fuel + 1, count =>
    match nearestOnGrid? tie x (point - count) with
    | some d => (d, point - count)
    | none => searchDigits tie x point fuel (count + 1)

/-- The shortest decimal that reads back as a positive finite double, and of several the nearest.
    Seventeen digits are always enough. -/
def shortest (tie : Tie) (x : Binary64) : ShortDecimal :=
  let (d, place) := searchDigits tie x (pointOf x.scaled (2 ^ (1074 : Nat))) 18 1
  let ds := Nat.toDigits 10 d
  ⟨(ds.reverse.dropWhile (· = '0')).reverse, ds.length + place⟩

end Binary64

namespace ShortDecimal

/-- Digits around a point, with zeros up to the point where the digits do not reach it. -/
def positional (d : ShortDecimal) : List Char :=
  match d.point with
  | .ofNat 0 => '0' :: '.' :: d.digits
  | .negSucc k => '0' :: '.' :: (List.replicate (k + 1) '0' ++ d.digits)
  | .ofNat k =>
    if d.digits.length ≤ k then d.digits ++ List.replicate (k - d.digits.length) '0'
    else d.digits.take k ++ '.' :: d.digits.drop k

/-- An exponent with its sign. -/
def exponentText (e : Int) : List Char :=
  if e < 0 then (toString e).toList else '+' :: (toString e).toList

/-- One digit, the others after a point, and the exponent. -/
def scientific (d : ShortDecimal) : List Char :=
  let mantissa := match d.digits with
    | [] => []
    | [c] => [c]
    | c :: cs => c :: '.' :: cs
  mantissa ++ 'e' :: exponentText (d.point - 1)

/-- The notation of JSON texts: an exponent outside of `10 ^ (-5)` to `10 ^ 16`, and a fraction
    wherever there is none. -/
def json (d : ShortDecimal) : List Char :=
  if -5 < d.point ∧ d.point ≤ 16 then
    if d.digits.length ≤ d.point then d.positional ++ ['.', '0'] else d.positional
  else d.scientific

end ShortDecimal

namespace Binary64

/-! ## The two notations -/

/-- A sign before the text of a number that has one. -/
def signed (x : Binary64) (text : List Char) : String :=
  .ofList (if x.negative then '-' :: text else text)

/-- The plain notation: shortest digits, no exponent, no point for an integer. -/
def plainText (x : Binary64) : String :=
  if x.isNaN then "NaN"
  else if x.isInfinite then x.signed ['i', 'n', 'f']
  else if x.scaled = 0 then x.signed ['0']
  else x.signed (x.shortest .greater).positional

/-- The notation of JSON texts, for a finite number. -/
def jsonText (x : Binary64) : String :=
  if x.scaled = 0 then x.signed ['0', '.', '0'] else x.signed (x.shortest .even).json

end Binary64

end ShellQuery

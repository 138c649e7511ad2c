/-
  ShellQuery.Json.Amount

  What the numbers of JSON texts come to. Integers of up to 64 bits are exact. Any other number is
  a double, but not always the nearest one: the first digits make an integer of 64 bits, which is
  then multiplied or divided by powers of ten, each step being rounded. A number beyond the largest
  double is a fault.
-/
import ShellQuery.Json.Scalar

namespace ShellQuery.Json

/-- Puts digits behind an integer as long as it stays below `2 ^ 64`; the other digits are left. -/
def pack (n : Nat) : List Char → Nat × List Char
  | [] => (n, [])
  | d :: ds =>
    let next := 10 * n + (d.toNat - '0'.toNat)
    if next < 2 ^ (64 : Nat) then pack next ds else (n, d :: ds)

/-- A power of ten that is no greater than the largest double. -/
def powerOfTen (e : Nat) : Binary64 :=
  .ofDecimal false 1 e

/-- A double multiplied by a power of ten, unless it is too large. Far below zero the power is
    reached in steps of `10 ^ 308`, the third of which would come to nothing. -/
def scale? (steps : Nat) (x : Binary64) (e : Int) : Option Binary64 :=
  if e.natAbs ≤ 308 then
    if e < 0 then some (x.div (powerOfTen e.natAbs))
    else
      let y := x.mul (powerOfTen e.natAbs)
      if y.isInfinite then none else some y
  else if x.scaled = 0 then some x
  else if 0 ≤ e then none
  else match steps with
    | 0 => some (.zero false)
    | steps + 1 => scale? steps (x.div (powerOfTen 308)) (e + 308)

/-- The digits of an exponent after the first ones that come to `2 ^ 31` or more. -/
def beyondExponent? (n : Nat) : List Char → Option (List Char)
  | [] => none
  | d :: ds =>
    let next := 10 * n + (d.toNat - '0'.toNat)
    if 2 ^ (31 : Nat) ≤ next then some ds else beyondExponent? next ds

/-- The double of a number with the given 64-bit integer and place, `rest` being the text after
    it. -/
def realOf (n : Numeral) (digits : Nat) (place : Int) (rest : List Char) :
    Except Fault Binary64 :=
  let signed (x : Binary64) : Binary64 := .ofFields n.negative x.magnitude
  let scaled (e : Int) : Except Fault Binary64 :=
    match scale? 2 (.ofRatio false digits 1) (place + e) with
    | some x => .ok (signed x)
    | none => faultAt .numberTooLarge rest
  match n.exponent with
  | none => scaled 0
  | some (negative, ds) =>
    match beyondExponent? 0 ds with
    | none => scaled (if negative then -digitsValue ds else digitsValue ds)
    | some left =>
      if digits = 0 || negative then .ok (signed (.zero false))
      else faultAt .numberTooLarge (left ++ rest)

/-- What a number comes to, `rest` being the text after it. -/
def amount (n : Numeral) (rest : List Char) : Except Fault Found :=
  let (whole, left) := pack 0 n.whole
  if n.isInteger && left = [] then
    if !n.negative then .ok (.integer whole)
    else if whole ≠ 0 && whole ≤ 2 ^ (63 : Nat) then .ok (.integer (-whole))
    else .ok (.real (.ofFields true (Binary64.ofRatio false whole 1).magnitude))
  else do
    let (digits, unused) := pack whole n.fraction
    let place : Int := left.length - (n.fraction.length - unused.length : Nat)
    .ok (.real (← realOf n digits place rest))

end ShellQuery.Json

/-
  ShellQuery.Number.Binary64

  Double-precision numbers as their 64 bits, with every operation in exact natural-number
  arithmetic. A finite number is `significand * 2 ^ unit / 2 ^ 1074`, and `ofRatio` rounds a
  quotient of naturals to the nearest such number, a tie to the even significand.
-/

namespace ShellQuery

-- Powers of numbers are the core library's here, also where those of monoids are at hand.
attribute [scoped instance (2000)] instPowNat

/-- A double-precision number, given by its IEEE 754 bits. -/
structure Binary64 where
  bits : UInt64
deriving DecidableEq, Repr, Inhabited

namespace Binary64

/-! ## Fields -/

/-- Whether the sign bit is set. -/
def negative (x : Binary64) : Bool :=
  2 ^ (63 : Nat) ≤ x.bits.toNat

/-- The bits without the sign. -/
def magnitude (x : Binary64) : Nat :=
  x.bits.toNat % 2 ^ (63 : Nat)

/-- The biased exponent field. -/
def exponentField (x : Binary64) : Nat :=
  x.magnitude / 2 ^ (52 : Nat)

/-- The fraction field. -/
def fractionField (x : Binary64) : Nat :=
  x.magnitude % 2 ^ (52 : Nat)

def isFinite (x : Binary64) : Bool :=
  x.exponentField < 2047

def isInfinite (x : Binary64) : Bool :=
  x.magnitude = 2047 * 2 ^ (52 : Nat)

def isNaN (x : Binary64) : Bool :=
  2047 * 2 ^ (52 : Nat) < x.magnitude

/-- The significand of a finite number, with the leading bit of a normal one. -/
def significand (x : Binary64) : Nat :=
  if x.exponentField = 0 then x.fractionField else x.fractionField + 2 ^ (52 : Nat)

/-- The exponent of the last place of a finite number, counted from `2 ^ (-1074)`. -/
def unit (x : Binary64) : Nat :=
  x.exponentField - 1

/-- The absolute value of a finite number, in units of `2 ^ (-1074)`. -/
def scaled (x : Binary64) : Nat :=
  x.significand * 2 ^ x.unit

/-! ## Named values -/

/-- The number with the given sign and magnitude bits. -/
def ofFields (negative : Bool) (magnitude : Nat) : Binary64 :=
  ⟨UInt64.ofNat (if negative then 2 ^ (63 : Nat) + magnitude else magnitude)⟩

def zero (negative : Bool) : Binary64 :=
  ofFields negative 0

def infinity (negative : Bool) : Binary64 :=
  ofFields negative (2047 * 2 ^ (52 : Nat))

def nan : Binary64 :=
  ofFields false (2047 * 2 ^ (52 : Nat) + 2 ^ (51 : Nat))

/-! ## Rounding -/

/-- The quotient rounded to the nearest natural number, a half to the even one. -/
def roundHalfEven (num den : Nat) : Nat :=
  let q := num / den
  let r := num % den
  if 2 * r < den then q
  else if 2 * r = den then q + q % 2
  else q + 1

/-- The last place that a magnitude of `s` units of `2 ^ (-1074)` is rounded to. -/
def unitFor (s : Nat) : Nat :=
  Nat.log2 s - 52

/-- The double nearest to `num / den`, a tie to the even significand; from half a unit beyond the
    largest finite number on it is infinite. The sum carries a significand that rounds up to
    `2 ^ 53` into the exponent. -/
def ofRatio (negative : Bool) (num den : Nat) : Binary64 :=
  let unit := unitFor (num * 2 ^ (1074 : Nat) / den)
  let significand := roundHalfEven (num * 2 ^ (1074 : Nat)) (den * 2 ^ unit)
  ofFields negative (min (unit * 2 ^ (52 : Nat) + significand) (2047 * 2 ^ (52 : Nat)))

/-- The double nearest to `coefficient * 10 ^ exponent`. Beyond the first two bounds every such
    number is infinite or zero, whatever its digits, so its power of ten is not computed. -/
def ofDecimal (negative : Bool) (coefficient : Nat) (exponent : Int) : Binary64 :=
  let digits : Int := (Nat.toDigits 10 coefficient).length
  if coefficient = 0 then zero negative
  else if digits + exponent > 310 then infinity negative
  else if digits + exponent < -330 then zero negative
  else match exponent with
    | .ofNat e => ofRatio negative (coefficient * 10 ^ e) 1
    | .negSucc e => ofRatio negative coefficient (10 ^ (e + 1))

/-! ## Products and quotients -/

/-- The product of two finite numbers, rounded. -/
def mul (x y : Binary64) : Binary64 :=
  ofRatio (x.negative != y.negative) (x.scaled * y.scaled) (2 ^ (1074 : Nat) * 2 ^ (1074 : Nat))

/-- The quotient of two finite numbers, the second of which is not zero, rounded. -/
def div (x y : Binary64) : Binary64 :=
  ofRatio (x.negative != y.negative) x.scaled y.scaled

/-! ## Integers -/

/-- A finite number without a fractional part. -/
def isIntegral (x : Binary64) : Bool :=
  x.isFinite && x.scaled % 2 ^ (1074 : Nat) = 0

/-- The integer part of a finite number, toward zero. -/
def truncate (x : Binary64) : Int :=
  let n : Int := (x.scaled / 2 ^ (1074 : Nat) : Nat)
  if x.negative then -n else n

end Binary64

end ShellQuery

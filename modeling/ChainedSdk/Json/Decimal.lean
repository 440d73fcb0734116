/-!
# Decimal numbers and the nearest binary one

A number written with a fraction or an exponent is kept as it was written. Where it has to act as a
number it counts as the nearest double-precision number, and all that is asked of that one is
whether it is whole.
-/

namespace ChainedSdk

/-- The number `mantissa * 10 ^ exponent`. -/
structure Decimal where
  mantissa : Int
  exponent : Int
deriving DecidableEq, Repr, Inhabited

namespace Decimal

/-- What the double-precision number nearest to a decimal is like. -/
inductive Rounded where
  | whole (value : Int)
  | fractional
  | infinite
deriving DecidableEq, Repr

/-- The quotient of two naturals rounded to a whole number, a half going to the even neighbour. -/
def divideToEven (numerator denominator : Nat) : Nat :=
  let quotient := numerator / denominator
  let twice := 2 * (numerator % denominator)
  if twice < denominator then quotient
  else if twice > denominator then quotient + 1
  else quotient + quotient % 2

/-- The exponent of the largest power of two that is at most a positive quotient. -/
def floorLog2 (numerator denominator : Nat) : Int :=
  let guess : Int := (numerator.log2 : Int) - (denominator.log2 : Int)
  let fits : Bool := match guess with
    | .ofNat up => denominator <<< up ≤ numerator
    | .negSucc down => denominator ≤ numerator <<< (down + 1)
  if fits then guess else guess - 1

/-- A positive quotient as significand and exponent of a double-precision number whose exponent has
no upper limit: 53 binary digits, fewer below the smallest exponent. -/
def nearestBinary (numerator denominator : Nat) : Nat × Int :=
  let least : Int := -1074
  let wanted := floorLog2 numerator denominator - 52
  let exponent := if wanted < least then least else wanted
  match exponent with
  | .ofNat up => (divideToEven numerator (denominator <<< up), exponent)
  | .negSucc down => (divideToEven (numerator <<< (down + 1)) denominator, exponent)

/-- The size of a positive decimal as a double-precision number. -/
def roundedSize (mantissa : Nat) (exponent : Int) : Rounded :=
  let digits : Int := (Nat.toDigits 10 mantissa).length
  if digits + exponent > 310 then .infinite
  else if digits + exponent < -330 then .whole 0
  else
    let (significand, binaryExponent) := match exponent with
      | .ofNat up => nearestBinary (mantissa * Nat.pow 10 up) 1
      | .negSucc down => nearestBinary mantissa (Nat.pow 10 (down + 1))
    match binaryExponent with
    | .ofNat up =>
      if significand <<< up < 1 <<< 1024 then .whole (significand <<< up : Nat) else .infinite
    | .negSucc down =>
      if significand % (1 <<< (down + 1)) = 0 then .whole (significand >>> (down + 1) : Nat)
      else .fractional

/-- What the double-precision number nearest to a decimal is like. -/
def rounded (decimal : Decimal) : Rounded :=
  if decimal.mantissa = 0 then .whole 0
  else match roundedSize decimal.mantissa.natAbs decimal.exponent with
    | .whole value => .whole (if decimal.mantissa < 0 then -value else value)
    | .fractional => .fractional
    | .infinite => .infinite

end Decimal

end ChainedSdk

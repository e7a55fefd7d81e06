import HostScript.Text.Basic

/-!
# Binary floating point formats

A format is the pair of field widths of an IEEE 754 interchange format.
-/

namespace HostScript.Binary

/-- Quotient rounded to the nearest integer, a half to the even neighbour. -/
def roundDiv (numerator denominator : Nat) : Nat :=
  let quotient := numerator / denominator
  let twice := 2 * (numerator % denominator)
  if denominator < twice ∨ (twice = denominator ∧ quotient % 2 = 1) then quotient + 1
  else quotient

/-- Field widths of a binary interchange format. -/
structure Format where
  fractionBits : Nat
  exponentBits : Nat
  deriving Repr, DecidableEq

def single : Format :=
  ⟨23, 8⟩

def double : Format :=
  ⟨52, 11⟩

/-- A finite number `mantissa · 2 ^ exponent` with its sign. -/
structure Scaled where
  negative : Bool
  mantissa : Nat
  exponent : Int
  deriving Repr, DecidableEq

namespace Format

variable (format : Format)

def signBit : Nat :=
  Nat.pow 2 (format.fractionBits + format.exponentBits)

def infinity : Nat :=
  (Nat.pow 2 format.exponentBits - 1) * Nat.pow 2 format.fractionBits

/-- The pattern given for every result that is not a number. -/
def notANumber : Nat :=
  format.infinity + Nat.pow 2 (format.fractionBits - 1)

def leastExponent : Int :=
  2 - (Nat.pow 2 (format.exponentBits - 1) : Nat) - format.fractionBits

def isNegative (bits : Nat) : Bool :=
  format.signBit ≤ bits

/-- The pattern without its sign. -/
def unsigned (bits : Nat) : Nat :=
  bits % format.signBit

def withSign (negative : Bool) (unsigned : Nat) : Nat :=
  if negative then format.signBit + unsigned else unsigned

def isNaN (bits : Nat) : Bool :=
  format.infinity < format.unsigned bits

def isInfinite (bits : Nat) : Bool :=
  format.unsigned bits = format.infinity

def isZero (bits : Nat) : Bool :=
  format.unsigned bits = 0

def exponentField (bits : Nat) : Nat :=
  format.unsigned bits / Nat.pow 2 format.fractionBits

def fractionField (bits : Nat) : Nat :=
  bits % Nat.pow 2 format.fractionBits

def magnitude (bits : Nat) : Scaled :=
  let field := format.exponentField bits
  let fraction := format.fractionField bits
  { negative := format.isNegative bits
    mantissa := if field = 0 then fraction else fraction + Nat.pow 2 format.fractionBits
    exponent := format.leastExponent + (field - 1 : Nat) }

/-- The unsigned pattern nearest to `numerator / denominator`; a mantissa that rounds up to the
next power of two carries into the exponent field. -/
def round (numerator denominator : Nat) : Nat :=
  if numerator = 0 then 0
  else
    let size : Int := (Nat.log2 numerator : Int) - Nat.log2 denominator
    let place : Int := max (size - 1 - format.fractionBits) format.leastExponent
    let divided (exponent : Int) (rounded : Nat → Nat → Nat) : Nat :=
      if 0 ≤ exponent then rounded numerator (denominator * Nat.pow 2 exponent.toNat)
      else rounded (numerator * Nat.pow 2 (-exponent).toNat) denominator
    let wide : Bool := Nat.pow 2 (format.fractionBits + 1) ≤ divided place (· / ·)
    let last := if wide then place + 1 else place
    let bits := (last - format.leastExponent).toNat * Nat.pow 2 format.fractionBits
      + divided last roundDiv
    min bits format.infinity

def ofScaled (number : Scaled) : Nat :=
  let unsigned :=
    if 0 ≤ number.exponent then format.round (number.mantissa * Nat.pow 2 number.exponent.toNat) 1
    else format.round number.mantissa (Nat.pow 2 (-number.exponent).toNat)
  format.withSign number.negative unsigned

/-- The pattern nearest to an integer. -/
def ofInt (n : Int) : Nat :=
  format.withSign (n < 0) (format.round n.natAbs 1)

/-- The pattern nearest to `digits / 10 ^ places`; `none` when it is too large. -/
def ofDecimal? (digits places : Nat) : Option Nat :=
  let bits := format.round digits (Nat.pow 10 places)
  if bits = format.infinity then none else some bits

def convert (target : Format) (bits : Nat) : Nat :=
  if format.isNaN bits then target.notANumber
  else if format.isInfinite bits then target.withSign (format.isNegative bits) target.infinity
  else target.ofScaled (format.magnitude bits)

/-- The integer part of a pattern, cut toward zero; what is not finite counts as zero. -/
def truncate (bits : Nat) : Int :=
  if format.isNaN bits || format.isInfinite bits then 0
  else
    let number := format.magnitude bits
    let whole : Nat :=
      if 0 ≤ number.exponent then number.mantissa * Nat.pow 2 number.exponent.toNat
      else number.mantissa / Nat.pow 2 (-number.exponent).toNat
    if number.negative then -(whole : Int) else whole

/-- Numbers in order; meaningless for a pattern that is not a number. -/
def key (bits : Nat) : Int :=
  if format.isNegative bits then -(format.unsigned bits : Int) else format.unsigned bits

/-- Equality of numbers: the zeros agree and a pattern that is not a number differs from all. -/
def equal (a b : Nat) : Bool :=
  !format.isNaN a && !format.isNaN b && format.key a == format.key b

/-- The order of numbers, false beside a pattern that is not a number. -/
def less (a b : Nat) : Bool :=
  !format.isNaN a && !format.isNaN b && format.key a < format.key b

/-- A total order: what is not a number comes first and is equal to itself. -/
def order (a b : Nat) : Ordering :=
  match format.isNaN a, format.isNaN b with
  | true, true => .eq
  | true, false => .lt
  | false, true => .gt
  | false, false => compare (format.key a) (format.key b)

end Format

end HostScript.Binary

/-! The decimal forms of numbers. -/

namespace HostScript.Binary

def belowPower (numerator denominator : Nat) (exponent : Int) : Bool :=
  if 0 ≤ exponent then numerator < denominator * Nat.pow 10 exponent.toNat
  else numerator * Nat.pow 10 (-exponent).toNat < denominator

/-- The least power of ten above a positive ratio, as its exponent. -/
def decimalSize (numerator denominator : Nat) : Int :=
  let size : Int := (Nat.log2 numerator : Int) - Nat.log2 denominator
  let estimate : Int := Int.fdiv (size * 30103) 100000
  ([estimate - 1, estimate, estimate + 1].find? (belowPower numerator denominator)).getD
    (estimate + 2)

/-- Significant decimal digits, as a number, with the power of ten of the last one. -/
structure Digits where
  value : Nat
  exponent : Int
  deriving Repr, DecidableEq

/-- A point of the grid of the given count of digits; a full grid is a single digit. -/
def Digits.ofGrid (size : Int) (digits point : Nat) : Digits :=
  if point = Nat.pow 10 digits then { value := 1, exponent := size }
  else { value := point, exponent := size - digits }

namespace Format

variable (format : Format)

/-- The reals that round to a positive number, as ratios over one denominator. -/
structure Interval where
  low : Nat
  middle : Nat
  high : Nat
  denominator : Nat
  closed : Bool

def interval (bits : Nat) : Interval :=
  let number := format.magnitude bits
  let narrow : Bool := format.fractionField bits = 0 && 1 < format.exponentField bits
  let exponent := number.exponent - 2
  let factor : Nat := if 0 ≤ exponent then Nat.pow 2 exponent.toNat else 1
  { low := (4 * number.mantissa - if narrow then 1 else 2) * factor
    middle := 4 * number.mantissa * factor
    high := (4 * number.mantissa + 2) * factor
    denominator := if 0 ≤ exponent then 1 else Nat.pow 2 (-exponent).toNat
    closed := number.mantissa % 2 = 0 }

def gridPoint? (span : Interval) (place : Int) : Option Nat :=
  let up : Nat := if 0 ≤ place then Nat.pow 10 place.toNat else 1
  let down : Nat := if 0 ≤ place then 1 else Nat.pow 10 (-place).toNat
  let unit := span.denominator * up
  let middle := span.middle * down
  let inside (point : Nat) : Bool :=
    let scaled := point * unit
    if span.closed then span.low * down ≤ scaled && scaled ≤ span.high * down
    else span.low * down < scaled && scaled < span.high * down
  let below := middle / unit
  let twice := 2 * (middle % unit)
  let nearest :=
    if unit < twice || (twice = unit && below % 2 = 1) then below + 1 else below
  let other := if nearest = below then below + 1 else below
  if inside nearest then some nearest
  else if inside other then some other
  else none

def searchGrid (span : Interval) (size : Int) : (tries digits : Nat) → Digits
  | 0, digits =>
    Digits.ofGrid size digits ((gridPoint? span (size - digits)).getD 0)
  | tries + 1, digits =>
    match gridPoint? span (size - digits) with
    | some value => Digits.ofGrid size digits value
    | none => searchGrid span size tries (digits + 1)

def shortest (bits : Nat) : Digits :=
  if format.isZero bits then { value := 0, exponent := 0 }
  else
    let span := format.interval bits
    searchGrid span (decimalSize span.middle span.denominator) 16 1

end Format

/-- Which magnitudes are written with an exponent. -/
inductive Style where
  /-- None is. -/
  | positional
  /-- Those whose leading digit stands below `least`, or at `most` and above. -/
  | mixed (least most : Int)
  deriving Repr, DecidableEq

/-- An exponent is written below `1e-04` and from `1e+06` on. -/
def general : Style :=
  .mixed (-4) 6

def zeros (count : Nat) : Text :=
  List.replicate count (Text.byte '0')

/-- Digits with a point after the first `point` of them, filled with zeros where needed. -/
def pointText (digits : Text) (point : Int) : Text :=
  if point ≤ 0 then "0." ++ zeros (-point).toNat ++ digits
  else
    let whole := point.toNat
    if digits.length ≤ whole then digits ++ zeros (whole - digits.length)
    else digits.take whole ++ Text.byte '.' :: digits.drop whole

def exponentText (digits : Text) (exponent : Int) : Text :=
  let fraction := digits.drop 1
  let point : Text := if fraction.isEmpty then [] else Text.byte '.' :: fraction
  let sign : Text := if exponent < 0 then "e-" else "e+"
  digits.take 1 ++ point ++ sign ++ Text.padded 2 exponent.natAbs

def Digits.text (style : Style) (digits : Digits) : Text :=
  if digits.value = 0 then "0"
  else
    let written := Text.decimal digits.value
    let point : Int := written.length + digits.exponent
    match style with
    | .positional => pointText written point
    | .mixed least most =>
      if point - 1 < least || most ≤ point - 1 then exponentText written (point - 1)
      else pointText written point

def Format.text (format : Format) (style : Style) (bits : Nat) : Text :=
  if format.isNaN bits then "NaN"
  else if format.isInfinite bits then
    if format.isNegative bits then "-Inf" else "+Inf"
  else
    let digits := (format.shortest bits).text style
    if format.isNegative bits then Text.byte '-' :: digits else digits

end HostScript.Binary

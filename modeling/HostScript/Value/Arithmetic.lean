import HostScript.Value.Basic

/-!
# Operations of the machine on values

Arithmetic takes two values of one primitive type and yields a value of that type: integers
wrap, booleans count as zero and one, floating point follows IEEE 754.
-/

namespace HostScript.Binary.Format

variable (format : Format)

/-- Both numbers as integers over the smaller of the two exponents. -/
def aligned (a b : Scaled) : Int × Int × Int :=
  let exponent := min a.exponent b.exponent
  let whole (number : Scaled) : Int :=
    let scaled : Int := (number.mantissa * Nat.pow 2 (number.exponent - exponent).toNat : Nat)
    if number.negative then -scaled else scaled
  (whole a, whole b, exponent)

/-- The pattern with its sign turned. -/
def negate (bits : Nat) : Nat :=
  format.withSign (!format.isNegative bits) (format.unsigned bits)

/-- The pattern without its sign, as a number. -/
def absolute (bits : Nat) : Nat :=
  format.unsigned bits

/-- Sum; two zeros of different sign, and any exact cancellation, give positive zero. -/
def add (a b : Nat) : Nat :=
  if format.isNaN a || format.isNaN b then format.notANumber
  else if format.isInfinite a then
    if format.isInfinite b && format.isNegative a != format.isNegative b then format.notANumber
    else a
  else if format.isInfinite b then b
  else
    let (x, y, exponent) := aligned (format.magnitude a) (format.magnitude b)
    let total := x + y
    if total = 0 then format.withSign (format.isNegative a && format.isNegative b) 0
    else format.ofScaled { negative := total < 0, mantissa := total.natAbs, exponent }

/-- Difference. -/
def subtract (a b : Nat) : Nat :=
  format.add a (if format.isNaN b then b else format.negate b)

/-- Product; zero times infinity is not a number. -/
def multiply (a b : Nat) : Nat :=
  let negative := format.isNegative a != format.isNegative b
  if format.isNaN a || format.isNaN b then format.notANumber
  else if format.isInfinite a || format.isInfinite b then
    if format.isZero a || format.isZero b then format.notANumber
    else format.withSign negative format.infinity
  else
    let x := format.magnitude a
    let y := format.magnitude b
    format.ofScaled
      { negative, mantissa := x.mantissa * y.mantissa, exponent := x.exponent + y.exponent }

/-- Quotient; zero by zero and infinity by infinity are not numbers. -/
def divide (a b : Nat) : Nat :=
  let negative := format.isNegative a != format.isNegative b
  if format.isNaN a || format.isNaN b then format.notANumber
  else if format.isInfinite a then
    if format.isInfinite b then format.notANumber else format.withSign negative format.infinity
  else if format.isInfinite b then format.withSign negative 0
  else if format.isZero b then
    if format.isZero a then format.notANumber else format.withSign negative format.infinity
  else
    let x := format.magnitude a
    let y := format.magnitude b
    let exponent := x.exponent - y.exponent
    let unsigned :=
      if 0 ≤ exponent then format.round (x.mantissa * Nat.pow 2 exponent.toNat) y.mantissa
      else format.round x.mantissa (y.mantissa * Nat.pow 2 (-exponent).toNat)
    format.withSign negative unsigned

/-- Remainder of the quotient cut toward zero, with the sign of the dividend. -/
def remainder (a b : Nat) : Nat :=
  if format.isNaN a || format.isNaN b || format.isInfinite a || format.isZero b then
    format.notANumber
  else if format.isInfinite b then a
  else
    let (x, y, exponent) := aligned (format.magnitude a) (format.magnitude b)
    format.ofScaled
      { negative := format.isNegative a, mantissa := x.natAbs % y.natAbs, exponent }

/-- The lesser number; negative zero is less than positive zero. -/
def least (a b : Nat) : Nat :=
  if format.isNaN a || format.isNaN b then format.notANumber
  else if format.isZero a && format.isZero b then
    if format.isNegative a then a else b
  else if format.less b a then b else a

/-- The greater number; positive zero is greater than negative zero. -/
def greatest (a b : Nat) : Nat :=
  if format.isNaN a || format.isNaN b then format.notANumber
  else if format.isZero a && format.isZero b then
    if format.isNegative a then b else a
  else if format.less a b then b else a

end HostScript.Binary.Format

namespace HostScript

/-- Binary operations on two values of one type. -/
inductive Arith where
  | add | subtract | multiply | divide | remainder | bitAnd | bitOr
  deriving Repr, DecidableEq

/-- The instruction of an operation, as messages name it. -/
def Arith.text : Arith → Text
  | .add => "ADD"
  | .subtract => "SUB"
  | .multiply => "MUL"
  | .divide => "DIV"
  | .remainder => "REM"
  | .bitAnd => "AND"
  | .bitOr => "OR"

/-- Why an operation has no result. -/
inductive ArithmeticFault where
  | divideByZero
  | mismatch (op : Arith) (left right : Option Ty)
  | undefined (op : Arith) (found : Option Ty)
  | notOnFloats (op : Arith)
  | incomparable (left right : Option Ty)
  | unordered (found : Option Ty)
  | notNegatable (found : Option Ty)
  deriving Repr, DecidableEq

def ArithmeticFault.text : ArithmeticFault → Text
  | .divideByZero => "attempted to divide by zero"
  | .mismatch op left right =>
    Text.join ["operation ", op.text, " on mismatched operands ", Ty.optionText left, " and ",
      Ty.optionText right]
  | .undefined op found =>
    Text.join ["operation ", op.text, " is not defined on ", Ty.optionText found]
  | .notOnFloats op =>
    Text.join ["operation ", op.text, " is not defined on floating point values"]
  | .incomparable left right =>
    Text.join ["cannot compare ", Ty.optionText left, " with ", Ty.optionText right]
  | .unordered found => Text.join ["values of type ", Ty.optionText found, " are not ordered"]
  | .notNegatable found =>
    Text.join ["value of type ", Ty.optionText found, " cannot be negated"]

namespace Arith

def onBits (op : Arith) (signed : Bool) (a b : BitVec w) : Except ArithmeticFault (BitVec w) :=
  match op with
  | .add => .ok (a + b)
  | .subtract => .ok (a - b)
  | .multiply => .ok (a * b)
  | .divide =>
    if b = 0 then .error .divideByZero
    else .ok (if signed then a.sdiv b else a.udiv b)
  | .remainder =>
    if b = 0 then .error .divideByZero
    else .ok (if signed then a.srem b else a.umod b)
  | .bitAnd => .ok (a &&& b)
  | .bitOr => .ok (a ||| b)

def onFloats (op : Arith) (format : Binary.Format) (a b : Nat) : Except ArithmeticFault Nat :=
  match op with
  | .add => .ok (format.add a b)
  | .subtract => .ok (format.subtract a b)
  | .multiply => .ok (format.multiply a b)
  | .divide => .ok (format.divide a b)
  | .remainder => .ok (format.remainder a b)
  | .bitAnd | .bitOr => .error (.notOnFloats op)

def bit (value : Bool) : BitVec 32 :=
  if value then 1 else 0

def apply (op : Arith) (left right : Value) : Except ArithmeticFault Value :=
  match left, right with
  | .bool a, .bool b => do
    let result ← op.onBits true (bit a) (bit b)
    return .bool (result != 0)
  | .int kind a, .int other b =>
    if same : other = kind then do
      let result ← op.onBits kind.signed a (same ▸ b)
      return .int kind result
    else .error (.mismatch op left.typeOf right.typeOf)
  | .float kind a, .float other b =>
    if kind = other then do
      let result ← op.onFloats kind.format a.toNat b.toNat
      return .float kind (BitVec.ofNat _ result)
    else .error (.mismatch op left.typeOf right.typeOf)
  | .bool _, _ | .int _ _, _ | .float _ _, _ =>
    .error (.mismatch op left.typeOf right.typeOf)
  | _, _ => .error (.undefined op left.typeOf)

end Arith

namespace Value

def order (left right : Value) : Except ArithmeticFault Ordering :=
  match left, right with
  | .bool a, .bool b => .ok (compare a.toNat b.toNat)
  | .int kind a, .int other b =>
    if kind = other then .ok (compare (integerValue kind a) (integerValue other b))
    else .error (.incomparable left.typeOf right.typeOf)
  | .float kind a, .float other b =>
    if kind = other then .ok (kind.format.order a.toNat b.toNat)
    else .error (.incomparable left.typeOf right.typeOf)
  | .bool _, _ | .int _ _, _ | .float _ _, _ =>
    .error (.incomparable left.typeOf right.typeOf)
  | _, _ => .error (.unordered left.typeOf)

/-- Arithmetic negation; a boolean is its own. -/
def negated (value : Value) : Except ArithmeticFault Value :=
  match value with
  | .bool b => .ok (.bool b)
  | .int kind bits => .ok (.int kind (-bits))
  | .float kind bits => .ok (.float kind (BitVec.ofNat _ (kind.format.negate bits.toNat)))
  | _ => .error (.notNegatable value.typeOf)

end Value

end HostScript

import HostScript.Ty.Basic

/-!
# Values

What a script computes with.  Primitives are bit patterns of their type's width.
-/

namespace HostScript

/-- The interface of ordered primitives and strings. -/
def Ty.comparable : Ty :=
  .named { number := 0, name := "IComparable" }

def Ty.typeType : Ty :=
  .named { number := 1, name := "Type" }

/-- The type of the store of persistent variables. -/
def Ty.scriptState : Ty :=
  .named { number := 2, name := "ScriptState" }

/-- A reference to an array: its elements are found under the address. -/
structure ArrayRef where
  element : Ty
  dimensions : List Nat
  address : Nat
  deriving Repr, DecidableEq

/-- The place of a local variable; every taking of an address is a thing of its own. -/
structure LocalRef where
  frame : Nat
  slot : Nat
  stamp : Nat
  deriving Repr, DecidableEq

/-- Values of a running script. -/
inductive Value where
  | null
  | bool (value : Bool)
  | int (kind : IntKind) (bits : BitVec kind.width)
  | float (kind : FloatKind) (bits : BitVec kind.width)
  | string (value : Text)
  | type (described : Ty)
  | array (reference : ArrayRef)
  | object (shown : Ty) (number : Nat)
  | host
  | state
  /-- A thing of the host that shows nothing of itself. -/
  | sealed
  | address (reference : LocalRef)
  deriving Repr, DecidableEq

namespace Value

/-- A 32-bit integer. -/
def int32 (n : Int) : Value :=
  .int .int32 (BitVec.ofInt 32 n)

/-- A 32-bit floating point number from its bits. -/
def single (bits : Nat) : Value :=
  .float .single (BitVec.ofNat 32 bits)

/-- A 64-bit floating point number from its bits. -/
def double (bits : Nat) : Value :=
  .float .double (BitVec.ofNat 64 bits)

def integerValue (kind : IntKind) (bits : BitVec kind.width) : Int :=
  if kind.signed then bits.toInt else bits.toNat

/-- The type of a value; the null reference has none. -/
def typeOf : Value → Option Ty
  | .null => none
  | .bool _ => some .bool
  | .int kind _ => some (.prim (.int kind))
  | .float kind _ => some (.prim (.float kind))
  | .string _ => some .string
  | .type _ => some .typeType
  | .array reference => some (.array reference.element reference.dimensions.length)
  | .object shown _ => some shown
  | .state => some .scriptState
  | .host | .sealed | .address _ => some .object

def default : Ty → Value
  | .prim .bool => .bool false
  | .prim (.int kind) => .int kind 0
  | .prim (.float kind) => .float kind 0
  | _ => .null

def boolText (value : Bool) : Text :=
  if value then "true" else "false"

/--
The text of a value that the library itself can word; things of the host are
worded by the host.
-/
def text? : Value → Option Text
  | .null => some []
  | .bool value => some (boolText value)
  | .int kind bits => some (Text.integer (integerValue kind bits))
  | .float kind bits => some (kind.format.text Binary.general bits.toNat)
  | .string value => some value
  | .type described => some described.text
  | .array reference => some (Ty.array reference.element reference.dimensions.length).text
  | .state => some Ty.scriptState.text
  | _ => none

/-- The text of a constant in listings and messages: the null reference is shown. -/
def plainText (value : Value) : Text :=
  match value with
  | .null => "<nil>"
  | value => value.text?.getD []

/-- Whether two values are equal: equal numbers, equal bytes, the same thing. -/
def equals : Value → Value → Bool
  | .float .single a, .float .single b => Binary.single.equal a.toNat b.toNat
  | .float .double a, .float .double b => Binary.double.equal a.toNat b.toNat
  | .float _ _, _ => false
  | a, b => a == b

end Value

/-- Why a value cannot take a form. -/
inductive ValueFault where
  | notNumeric (found : Option Ty)
  | noConversion (kind : Text)
  | nullStored (target : Ty)
  | notAssignable (found : Option Ty) (target : Ty)
  | rankMismatch (rank given : Nat)
  | indexRange (index : Int) (bound : Nat)
  deriving Repr, DecidableEq

def ValueFault.text : ValueFault → Text
  | .notNumeric found => Text.join ["value of type ", Ty.optionText found, " is not numeric"]
  | .noConversion kind => "cannot convert to " ++ kind
  | .nullStored target => "null cannot be stored as " ++ target.text
  | .notAssignable found target =>
    Text.join ["value of type ", Ty.optionText found, " is not assignable to ", target.text]
  | .rankMismatch rank given =>
    Text.join ["array of rank ", Text.decimal rank, " indexed with ", Text.decimal given,
      " indices"]
  | .indexRange index bound =>
    Text.join ["index ", Text.integer index, " out of range [0, ", Text.decimal bound, ")"]

/-- A primitive value: what arithmetic and conversion see. -/
inductive Scalar where
  | integer (value : Int)
  | float (kind : FloatKind) (bits : BitVec kind.width)
  deriving Repr, DecidableEq

namespace Scalar

/-- The integer part; for floating point numbers from `2 ^ 63` on machines may differ. -/
def truncate : Scalar → Int
  | .integer value => value
  | .float kind bits => kind.format.truncate bits.toNat

def isNonzero : Scalar → Bool
  | .integer value => value != 0
  | .float kind bits => !kind.format.isZero bits.toNat

def toFloat (target : FloatKind) : Scalar → BitVec target.width
  | .integer value => BitVec.ofNat _ (target.format.ofInt value)
  | .float kind bits => BitVec.ofNat _ (kind.format.convert target.format bits.toNat)

end Scalar

namespace Value

def scalar? : Value → Option Scalar
  | .bool value => some (.integer (if value then 1 else 0))
  | .int kind bits => some (.integer (integerValue kind bits))
  | .float kind bits => some (.float kind bits)
  | _ => none

def ofScalar (scalar : Scalar) : Prim → Value
  | .bool => .bool scalar.isNonzero
  | .int kind => .int kind (BitVec.ofInt _ scalar.truncate)
  | .float kind => .float kind (scalar.toFloat kind)

def convert (value : Value) (target : Prim) : Except ValueFault Value :=
  match value.scalar? with
  | some scalar => .ok (ofScalar scalar target)
  | none => .error (.notNumeric value.typeOf)

/-- Converts to the kind with a number; only primitive kinds can be converted to. -/
def convertToKind (value : Value) (number : Nat) : Except ValueFault Value :=
  match Kind.ofNumber? number with
  | some (.prim target) => value.convert target
  | _ => .error (.noConversion (Kind.numberedText number))

/-- A primitive value as a 64-bit floating point pattern. -/
def toDouble (value : Value) : Except ValueFault Nat :=
  match value.scalar? with
  | some scalar => .ok (scalar.toFloat .double).toNat
  | none => .error (.notNumeric value.typeOf)

def toIndex (value : Value) : Except ValueFault Int :=
  match value.scalar? with
  | some scalar => .ok (BitVec.ofInt 32 scalar.truncate).toInt
  | none => .error (.notNumeric value.typeOf)

end Value

end HostScript

import HostScript.Machine.World

/-!
# Routines of the library

What the members of the predeclared types do, and the functions of the mathematical library.
-/

namespace HostScript

def orderNumber : Ordering → Int
  | .lt => -1
  | .eq => 0
  | .gt => 1

namespace MathFunction

def decimalLogarithm (x : Float) : Float :=
  let (fraction, exponent) := Float.frExp x
  let binary :=
    if fraction == 0.5 then Float.ofInt (exponent - 1)
    else fraction.log * (1 / 0.693147180559945309417232121458176568) + Float.ofInt exponent
  binary * (0.693147180559945309417232121458176568 / 2.30258509299404568401799145468436421)

def logistic (x steepness : Float) : Float :=
  let denominator := 1 + (-x * steepness).exp
  if denominator == 0 then 0 else 1 / denominator

/-- A function of one 64-bit number. -/
def unary? : MathFunction → Option (Float → Float)
  | .sin => some Float.sin
  | .cos => some Float.cos
  | .tan => some Float.tan
  | .asin => some Float.asin
  | .acos => some Float.acos
  | .atan => some Float.atan
  | .sqrt => some Float.sqrt
  | .log10 => some decimalLogarithm
  | _ => none

/-- A function of two 64-bit numbers. -/
def binary? : MathFunction → Option (Float → Float → Float)
  | .pow => some Float.pow
  | .log => some fun x base => x.log / base.log
  | .sigmoid => some logistic
  | _ => none

def ofPattern (bits : BitVec 64) : Float :=
  Float.ofBits ⟨bits⟩

def toValue (number : Float) : Value :=
  .double number.toBits.toNat

def signOf (bits : Nat) : Except RunFault Value :=
  if Binary.single.isNaN bits then .error .signOfNaN
  else if Binary.single.isZero bits then .ok (Value.int32 0)
  else .ok (Value.int32 (if Binary.single.isNegative bits then -1 else 1))

def apply (function : MathFunction) (arguments : List Value) : Act H Value :=
  match function, arguments with
  | .abs, [.float .single x] => return .single (Binary.single.absolute x.toNat)
  | .sign, [.float .single x] => Act.lift id (signOf x.toNat)
  | .min, [.float .single x, .float .single y] =>
    return .single (Binary.single.least x.toNat y.toNat)
  | .max, [.float .single x, .float .single y] =>
    return .single (Binary.single.greatest x.toNat y.toNat)
  | .sqr, [.float .single x] => return .single (Binary.single.multiply x.toNat x.toNat)
  | .rand, [.float .double ceiling] => do
    let world ← get
    let (next, after) := world.draw
    set after
    return .double (Binary.double.multiply next ceiling.toNat)
  | function, [.float .double x] =>
    match function.unary? with
    | some f => return toValue (f (ofPattern x))
    | none => Act.crash .foreignValue
  | function, [.float .double x, .float .double y] =>
    match function.binary? with
    | some f => return toValue (f (ofPattern x) (ofPattern y))
    | none => Act.crash .foreignValue
  | _, _ => Act.crash .foreignValue

end MathFunction

namespace Intrinsic

def orderOf (receiver argument : Value) : Act H Value :=
  match receiver, argument with
  | .string a, .string b => return Value.int32 (orderNumber (Text.compare a b))
  | _, .null => return Value.int32 1
  | .string _, other => Act.fail (.incomparableText other.typeOf)
  | receiver, argument => do
    let a ← Act.lift .value receiver.toDouble
    let b ← Act.during .comparing (Act.lift .value argument.toDouble)
    return Value.int32
      (if Binary.double.less a b then -1 else if Binary.double.less b a then 1 else 0)

/-- The bytes of a string; what is no string has none. -/
def bytesOf : Value → Text
  | .string value => value
  | _ => []

def run (host : Host H) (intrinsic : Intrinsic) (receiver : Value) (arguments : List Value) :
    Act H Value :=
  match intrinsic, receiver, arguments with
  | .toText, receiver, _ => do
    let world ← get
    return .string (world.textOf host receiver)
  | .typeOf, receiver, _ =>
    match receiver.typeOf with
    | some type => return .type type
    | none => return .null
  | .typeName, .type described, _ => return .string described.text
  | .typeKind, .type described, _ => return .string (host.types.kind described).text
  | .compareTo, receiver, [argument] => orderOf receiver argument
  | .textLength, .string value, _ => return Value.int32 value.runes.length
  | .textEquality agree, _, [a, b] =>
    let same := bytesOf a == bytesOf b && (a == .null) == (b == .null)
    return .bool (same == agree)
  | .math function, _, arguments => function.apply arguments
  | _, _, _ => Act.crash .foreignValue

end Intrinsic

end HostScript

namespace HostScript.Host

variable (host : Host H)

def loadField (field : Field) (receiver : Value) : Act H Value :=
  match field.literal with
  | some value => return value
  | none =>
    if field.hasReader then host.readField field.label receiver
    else Act.fail (.fieldUnreadable field.name)

def storeField (field : Field) (receiver value : Value) : Act H Unit :=
  if field.canWrite then host.writeField field.label receiver value
  else Act.fail (.fieldReadOnly field.name)

def getProperty (property : Property) (receiver : Value) (index : List Value) : Act H Value :=
  if property.canRead then
    match property.routine with
    | .intrinsic intrinsic => intrinsic.run host receiver index
    | .host label => host.readProperty label receiver index
  else Act.fail (.propertyWriteOnly property.name)

def setProperty (property : Property) (receiver : Value) (index : List Value) (value : Value) :
    Act H Unit :=
  if property.canWrite then
    match property.routine with
    | .intrinsic _ => Act.crash .foreignValue
    | .host label => host.writeProperty label receiver index value
  else Act.fail (.propertyReadOnly property.name)

def call (method : Method) (receiver : Value) (arguments : List Value) : Act H Value :=
  Act.during (.callTo method.text)
    (match method.routine with
      | .intrinsic intrinsic => intrinsic.run host receiver arguments
      | .host label => host.invoke label receiver arguments)

def lateMember (target : Value) (name : Text) : Act H DataMember :=
  let type := target.typeOf
  match host.types.dataMembers (type.getD .object) name false with
  | [] => Act.fail (.memberNotFound name type)
  | [member] => pure member
  | _ => Act.fail (.memberAmbiguous name type)

def lateGet (target : Value) (name : Text) : Act H Value := do
  match ← host.lateMember target name with
  | .field field => host.loadField field target
  | .property property => host.getProperty property target []

/-- Writes a member found by name; the value is adapted to its type. -/
def lateSet (target : Value) (name : Text) (value : Value) : Act H Unit := do
  let member ← host.lateMember target name
  let adapted ←
    Act.during (.setting name) (Act.lift .value (host.types.coerce value member.type))
  match member with
  | .field field => host.storeField field target adapted
  | .property property => host.setProperty property target [] adapted

def adaptArguments (name : Text) : (number : Nat) → List Ty → List Value → Act H (List Value)
  | number, param :: params, argument :: arguments => do
    let adapted ←
      Act.during (.argument number name) (Act.lift .value (host.types.coerce argument param))
    let following ← adaptArguments name (number + 1) params arguments
    return adapted :: following
  | _, _, arguments => return arguments

def lateCall (target : Value) (name : Text) (list : ArrayRef) : Act H Value := do
  let type := target.typeOf
  let arguments ← (List.range list.size).mapM fun (i : Nat) => Act.loadElement list [(i : Int)]
  let candidates := host.types.methods (type.getD .object) name false
  let method ←
    Act.during (.methodOn name type)
      (Act.lift .absence (host.types.select candidates (arguments.map Value.typeOf)))
  let adapted ← host.adaptArguments name 1 method.params arguments
  let result ← host.call method target adapted
  return if method.returnsValue then result else .null

end HostScript.Host

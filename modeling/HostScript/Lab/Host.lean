import HostScript.Lab.Basic
import HostScript.Machine.Library

/-!
# The host of the lab

What the members of the lab's types and the names bound to its host do.
-/

namespace HostScript.Lab

/-- An integer in base ten with an optional sign, if it fits 32 bits. -/
def parseInt32? (text : Text) : Option (BitVec 32) :=
  let (isNegative, digits) : Bool × Text :=
    match text with
    | [] => (false, [])
    | first :: rest =>
      if first = Text.byte '-' then (true, rest)
      else if first = Text.byte '+' then (false, rest)
      else (false, text)
  let isDigit (b : UInt8) : Bool := Text.byte '0' ≤ b && b ≤ Text.byte '9'
  if digits.isEmpty || !digits.all isDigit then none
  else
    let magnitude : Nat := digits.foldl (fun n b => n * 10 + (b.toNat - 48)) 0
    if isNegative then
      if magnitude ≤ 2147483648 then some (BitVec.ofInt 32 (-magnitude)) else none
    else if magnitude ≤ 2147483647 then some (BitVec.ofNat 32 magnitude) else none

def refuse (message : Text) : LabAct α :=
  Act.fail (.said message)

def onHost (receiver : Value) : LabAct Unit :=
  if receiver = .host then pure () else Act.crash .foreignValue

def hostField? (label : String) : Option Text :=
  if label.startsWith "host." then some (Text.ofString label |>.drop 5) else none

def readField (label : String) (receiver : Value) : LabAct Value := do
  match label with
  | "Base.Id" => return .int .int32 (← object receiver).2.id
  | "Base.Tag" => return .string (← object receiver).2.tag
  | "Base.Count" => return .int .int32 (← look).count
  | "Base.Dup" => return .int .int32 (← object receiver).2.dup
  | "Derived.Extra" => return .double (← object receiver).2.extra
  | "static.Global" => return .single (← look).global
  | "static.GlobalRO" => return Value.int32 9
  | "host.ro" => return .single 0x40200000
  | "host.noset" => return Value.int32 6
  | "exact.f" =>
    onHost receiver
    return getField "f" (← look)
  | "host.State" => return if (← get).attached then .state else .null
  | _ =>
    match hostField? label with
    | some name =>
      onHost receiver
      return getField name (← look)
    | none => Act.crash .foreignValue

def writeField (label : String) (receiver value : Value) : LabAct Unit := do
  match label with
  | "Base.Id" =>
    let _ ← object receiver
    let id ← asInt32 value
    changeObject receiver fun found => { found with id }
  | "Base.Count" =>
    let count ← asInt32 value
    change fun lab => { lab with count }
  | "Base.Dup" =>
    let _ ← object receiver
    let dup ← asInt32 value
    changeObject receiver fun found => { found with dup }
  | "Base.Hidden" =>
    let _ ← object receiver
    let sunk ← asSingle value
    changeObject receiver fun found => { found with sunk }
  | "Derived.Extra" =>
    let _ ← object receiver
    let extra ← asDouble value
    changeObject receiver fun found => { found with extra }
  | "static.Global" =>
    let global ← asSingle value
    change fun lab => { lab with global }
  | "exact.f" =>
    onHost receiver
    let _ ← asSingle value
    change (setField "f" value)
  | _ =>
    match hostField? label with
    | some name =>
      onHost receiver
      change (setField name value)
    | none => Act.crash .foreignValue

def poolPlace (index : List Value) : LabAct Nat := do
  match index with
  | [.int .int32 bits] =>
    let i := bits.toInt
    if 0 ≤ i ∧ i < 4 then return i.toNat else refuse "sealed index"
  | _ => Act.crash .foreignValue

def first (values : List Value) : Value :=
  values.headD .null

def second (values : List Value) : Value :=
  (values.drop 1).headD .null

def readProperty (label : String) (receiver : Value) (index : List Value) : LabAct Value := do
  match label with
  | "double.Rec" => return receiver
  | "IShape.Sides" => return Value.int32 3
  | "Base.Self" => return receiver
  | "Base.Scale" => return .single (← object receiver).2.scale
  | "Base.Shared" => return .double (← look).shared
  | "Base.StaticRO" => return Value.int32 11
  | "Base.Dup" => return Value.int32 0
  | "Base.Bad" => refuse "bad get"
  | "Base.Item" =>
    let (_, found) ← object receiver
    return .single ((found.items.find? (asText (first index))).getD 0)
  | "Derived.Scale" => return Value.int32 7
  | "Derived.Cell" =>
    let a ← asInt32 (first index)
    let b ← asInt32 (second index)
    return .int .int32 (show BitVec 32 from a * 10 + b)
  | "Sealed.Pool" =>
    let place ← poolPlace index
    return .int .int32 ((← look).pool.getD place 0)
  | _ => Act.crash .foreignValue

def writeProperty (label : String) (receiver : Value) (index : List Value) (value : Value) :
    LabAct Unit := do
  match label with
  | "double.Rec" => note "Rec" [receiver, value]
  | "Base.Sink" =>
    let (_, found) ← object receiver
    let added ← asSingle value
    let sunk := Binary.single.add found.sunk added
    changeObject receiver fun found => { found with sunk }
  | "Base.Scale" =>
    let _ ← object receiver
    let scale ← asSingle value
    changeObject receiver fun found => { found with scale }
  | "Base.Shared" =>
    let shared ← asDouble value
    change fun lab => { lab with shared }
  | "Base.StaticWO" => note "StaticWO" [value]
  | "Base.Bad" => refuse "bad set"
  | "Base.Item" =>
    let _ ← object receiver
    let bits ← asSingle value
    changeObject receiver fun found =>
      { found with items := found.items.insert (asText (first index)) bits }
  | "WOnly.Slot" => note "Slot" [first index, value]
  | "Sealed.Pool" =>
    let place ← poolPlace index
    let bits ← asInt32 value
    change fun lab => { lab with pool := lab.pool.setIfInBounds place bits }
  | _ => Act.crash .foreignValue

def describe (lab : Contents) : Value → Option Text
  | .host => some "host"
  | .sealed => some "opaque"
  | .object shownType number =>
    if shownType = tDerived then
      (lab.objects[number - 1]?).map fun found =>
        Text.join ["Derived#", Text.integer found.id.toInt]
    else none
  | _ => none

def wordOf (lab : Contents) (value : Value) : Text :=
  (value.text?.or (describe lab value)).getD (Ty.optionText value.typeOf)

/-- Calls of the operators of `Base`. -/
def operate (label : String) (a b : Value) : LabAct Value := do
  match label with
  | "Base.Addition" =>
    if a = .null ∨ b = .null then refuse "null operand"
    else
      let (_, left) ← object a
      let (_, right) ← object b
      newBase (left.id + right.id) "sum"
  | "Base.Subtraction" => return .string "sub"
  | "Base.Multiply.left" =>
    let (_, left) ← object a
    return .single (Binary.single.multiply left.scale (← asSingle b))
  | "Base.Multiply.right" =>
    let left ← asSingle a
    let (_, right) ← object b
    return .single (Binary.single.add left right.scale)
  | "Base.Modulus" =>
    let divisor ← asInt32 b
    if divisor = 0 then refuse "mod zero"
    else
      let (_, left) ← object a
      return .int .int32 (left.id.srem divisor)
  | "Base.LessThan" =>
    let (_, left) ← object a
    let (_, right) ← object b
    return .bool (left.id.slt right.id)
  | "Base.LogicalAnd" =>
    note "and" [a, b]
    return .bool true
  | _ => Act.crash .foreignValue

def invokeMember (label : String) (receiver : Value) (arguments : List Value) :
    LabAct Value := do
  match label with
  | "int32.Parse" =>
    match parseInt32? (asText (first arguments)) with
    | some bits => return .int .int32 bits
    | none => refuse "bad integer"
  | "INamed.GetName" => return .string ("named:" ++ Ty.optionText receiver.typeOf)
  | "IShape.Area" =>
    match receiver with
    | .object shownType _ =>
      let (_, found) ← object receiver
      if shownType = tDerived then
        return .single (Binary.double.convert Binary.single found.extra)
      else refuse "no area"
    | _ => refuse "no area"
  | "Base.GetName" => return .string ("base:" ++ (← object receiver).2.tag)
  | "Base.Over.i" => return .string "i"
  | "Base.Over.f" => return .string "f"
  | "Base.Over.s" => return .string "s"
  | "Base.Over.io" => return .string "io"
  | "Base.Over.oi" => return .string "oi"
  | "Base.Over.static" => return .string "static"
  | "Base.Add" =>
    let (_, found) ← object receiver
    let scale := Binary.single.add found.scale (← asSingle (first arguments))
    changeObject receiver fun found => { found with scale }
    return .single scale
  | "Base.Nothing" =>
    note "Nothing" [receiver]
    return Value.int32 1
  | "Base.Fail" => refuse (asText (first arguments))
  | "Base.Panic" => Act.crash (.said (asText (first arguments)))
  | "Base.Echo" => return first arguments
  | "Base.Pick.B" => return .string "B"
  | "Base.Pick.D" => return .string "D"
  | "Base.Pick.N" => return .string "N"
  | "Base.Wide" =>
    let lab ← look
    return .string
      (Text.join ["wide ", wordOf lab (first arguments), " ", wordOf lab (second arguments)])
  | "Base.Make" => newBase (← asInt32 (first arguments)) "made"
  | "Base.Null" => return .null
  | "Derived.GetName" => return .string ("derived:" ++ (← object receiver).2.tag)
  | "Derived.Over.i" => return .string "di"
  | "Derived.Over.d" => return .string "dd"
  | "Derived.Area" =>
    let (_, found) ← object receiver
    let doubled := Binary.double.multiply found.extra 0x4000000000000000
    return .single (Binary.double.convert Binary.single doubled)
  | _ => operate label (first arguments) (second arguments)

def invokeHost (label : String) (arguments : List Value) : LabAct Value := do
  match label with
  | "host.push" =>
    let _ ← asSingle (first arguments)
    note "push" [first arguments]
    return .null
  | "host.emit" =>
    note "emit" [first arguments]
    return .null
  | "host.emit2" =>
    note "emit2" [first arguments, second arguments]
    return .null
  | "host.side" =>
    note "side" []
    return .bool true
  | "host.cat" => return .string (asText (first arguments) ++ asText (second arguments))
  | "host.fail" => refuse (asText (first arguments))
  | "host.failed" => refuse "failed"
  | "host.boom" => Act.crash (.said (asText (first arguments)))
  | "host.booms" => Act.crash (.said "boom")
  | "host.one" => return Value.int32 1
  | "host.mk" => newBase (← asInt32 (first arguments)) "mk"
  | "host.nul" => return .null
  | "host.isum" =>
    match arguments with
    | [.int .int64 (a : BitVec 64), .int .uint8 (b : BitVec 8)] =>
      return .int .int64 (show BitVec 64 from a + b.setWidth 64)
    | _ => Act.crash .foreignValue
  | "host.voidret" =>
    note "voidret" []
    return .null
  | "host.badret" => return Value.int32 7
  | "host.notbool" => return .string "maybe"
  | "host.mkarr" =>
    let length ← asInt32 (first arguments)
    if length.toInt < 0 then Act.crash .outOfRange
    else return .array (← Act.newArray .single [length.toInt.toNat])
  | "host.opaque" => return .sealed
  | "static.twice" =>
    let x ← asSingle (first arguments)
    return .single (Binary.single.add x x)
  | "static.sum3" =>
    match arguments with
    | [.int .int32 a, .int .int32 b, .int .int32 c] => return .int .int32 (a + b + c)
    | _ => Act.crash .foreignValue
  | "static.Pow" => MathFunction.apply .pow arguments
  | _ => Act.crash .foreignValue

/-- Calls a method. -/
def invoke (label : String) (receiver : Value) (arguments : List Value) : LabAct Value :=
  if label.startsWith "host." || label.startsWith "static." then invokeHost label arguments
  else invokeMember label receiver arguments

def host : Host Contents :=
  { types, readField, writeField, readProperty, writeProperty, invoke, describe }

end HostScript.Lab

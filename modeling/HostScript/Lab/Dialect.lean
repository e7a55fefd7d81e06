import HostScript.Analysis.Cast
import HostScript.Lab.Basic

/-!
# The dialect of the lab

The names that scripts of the lab are written with, and what its transforms stand
for.
-/

namespace HostScript.Lab

open Typed (Expr Piece)

def typeNames : List (Text × Ty) :=
  [("INamed", tNamed), ("IShape", tShape), ("IComparable", .comparable), ("Base", tBase),
    ("Derived", tDerived), ("WOnly", tWriteOnly), ("Sealed", tSealed), ("Type", .typeType),
    ("FArr", .array .single 1), ("Grid", .array .int32 2), ("OArr", .array .object 1),
    ("BArr", .array tBase 1)]

def constants : List (Text × Value) :=
  [("KF", .single 0x3fc00000), ("KD", .double 0x3fb999999999999a),
    ("KI", .int .int64 5000000000), ("KS", .string "konst"), ("KB", .bool true),
    ("KU", .int .uint8 200), ("KT", .type .int32)]

def hostMethods : List (String × List Ty × Ty) :=
  [("push", [.single], .void), ("emit", [.object], .void), ("side", [], .bool),
    ("cat", [.string, .string], .string), ("fail", [.string], .void),
    ("boom", [.string], .void), ("mk", [.int32], tBase), ("nul", [], tBase),
    ("isum", [.prim (.int .int64), .prim (.int .uint8)], .prim (.int .int64)),
    ("voidret", [], .void), ("badret", [], .single), ("notbool", [], .bool),
    ("mkarr", [.int32], .array .single 1), ("opaque", [], .object)]

def transforms : List (String × Ty) :=
  [("powT", .single), ("dupT", .single), ("voidT", .void), ("tryT", .single), ("strT", .string),
    ("errT", .single), ("badopT", .void), ("relabelT", .void), ("nolabelT", .void),
    ("untryT", .void)]

def hostLabel (name : Text) : String :=
  "host." ++ (name.toString?.getD "")

/-- All names of the lab, the store of persistent variables last if it is asked for. -/
def bind (withState : Bool) : Binding :=
  let names : List Binder :=
    typeNames.map fun (name, type) => fun bound => bound.typeName name type
  let fields : List Binder :=
    (fieldTypes ++ referenceTypes).map fun (name, type) => fun bound =>
      bound.field name type (hostLabel name)
  let others : List Binder :=
    [fun bound => bound.readOnlyField "ro" .single "host.ro",
      fun bound =>
        bound.addField
          { name := "noset", type := .int32, hasWriter := false, label := "host.noset" }]
  let literals : List Binder :=
    constants.map fun (name, value) => fun bound => bound.constant name value
  let statics : List Binder :=
    [fun bound => bound.staticField "Global" .single "static.Global" true,
      fun bound => bound.staticField "GlobalRO" .int32 "static.GlobalRO" false]
  let methods : List Binder :=
    hostMethods.map fun (name, params, result) => fun bound =>
      bound.method name params result ("host." ++ name)
  let staticMethods : List Binder :=
    [fun bound => bound.staticMethod "twice" [.single] .single (.host "static.twice"),
      fun bound => bound.staticMethod "sum3" [.int32, .int32, .int32] .int32 (.host "static.sum3")]
  let patterns : List Binder :=
    transforms.map fun (name, result) => fun bound => bound.transform name result name
  let state : List Binder :=
    if withState then [fun bound => bound.bindState "State" "host.State"] else []
  (Binding.bindEach
    (names ++ fields ++ others ++ literals ++ statics ++ methods ++ staticMethods ++ patterns
      ++ state)
    Binding.standard).2

def castPiece (argument : Expr) (target : Ty) : Piece :=
  match Analysis.castTo types argument target with
  | .ok converted => .value converted
  | .error failure => .fail failure

/-- A failure to expand. -/
def refusePiece (message : Text) : List Piece :=
  [.fail (.cause (.said message))]

def powMethod : Method :=
  staticMethod "Pow" [.double, .double] .double "static.Pow"

/-- What the transforms stand for. -/
def expand (key : String) (arguments : List Expr) : List Piece :=
  match key, arguments with
  | "powT", [x, y] =>
    [castPiece x .double, castPiece y .double, .code (.method Op.call powMethod),
      .code (.convert (Kind.prim (.float .single)).number)]
  | "powT", _ => refusePiece "two arguments expected"
  | "dupT", [x] =>
    [.reserve .single, castPiece x .single, .slot .storeLocal 0, .slot .loadLocal 0,
      .slot .loadLocal 0, .code (.plain Op.add), .release 0]
  | "dupT", _ => refusePiece "one argument expected"
  | "voidT", arguments =>
    arguments.flatMap fun argument => [.value argument, .code (.plain Op.pop)]
  | "tryT", [x, y] =>
    [.reserve .single, .code .beginTry, castPiece x .single, .slot .storeLocal 0,
        .code .beginFinally, .value y]
      ++ (if y.type = .void then [] else [.code (.plain Op.pop)])
      ++ [.code .endTry, .slot .loadLocal 0, .release 0]
  | "tryT", _ => refusePiece "two arguments expected"
  | "strT", [x] => [castPiece x .string]
  | "strT", _ => refusePiece "one argument expected"
  | "errT", _ => [.fail (semantic 7 (.said "classified"))]
  | "badopT", _ => [.code (.plain Op.push)]
  | "relabelT", _ => [.label, .mark 0, .mark 0]
  | "nolabelT", _ => [.label, .jump .jump 0]
  | "untryT", [] => [.code .beginTry]
  | "untryT", [_] => [.code .endTry]
  | "untryT", _ => [.code .beginFinally]
  | _, _ => []

def dialect (withState : Bool) : Dialect :=
  { types, binding := bind withState, expand }

def namedTypes : List (Text × Ty) :=
  let known : List Ty :=
    [.void, .string, .object, .comparable, .typeType, .scriptState, tNamed, tShape, tBase,
      tDerived, tWriteOnly, tSealed]
  (known ++ Prim.all.map Ty.prim).map fun type => (type.text, type)

/-- What stands before and after the first period. -/
def dotted (name : Text) : Text × Text :=
  let owner := name.takeWhile fun b => b != Text.byte '.'
  (owner, name.drop (owner.length + 1))

def isHosted (name : Text) : Bool :=
  (dotted name).1 == Text.ofString "host"

/-- The fields and properties of a dotted name, those of instances first. -/
def dataMembers (name : Text) : List DataMember :=
  let (owner, member) := dotted name
  match Ty.ofText? namedTypes owner with
  | some type => types.dataMembers type member false ++ types.dataMembers type member true
  | none => []

def fieldNamed (name : Text) : Field :=
  let member := (dotted name).2
  if isHosted name then
    if member == Text.ofString "state" then
      { name := "State", type := .scriptState, readOnly := true, hasWriter := false,
        label := "host.State" }
    else if member == Text.ofString "f" then
      { name := member, type := .single, label := "exact.f" }
    else { name := member, type := .object, label := hostLabel member }
  else
    let found := (dataMembers name).findSome? fun
      | .field field => some field
      | .property _ => none
    found.getD { name := member, type := .object }

def propertyNamed (name : Text) : Property :=
  let (owner, member) := dotted name
  let found := (dataMembers name).findSome? fun
    | .property property => some property
    | .field _ => none
  let indexer := (Ty.ofText? namedTypes owner).bind fun type =>
    (types.indexer? type).filter fun property => property.name == member
  (found.or indexer).getD { name := member, type := .object, routine := .host "" }

/-- The methods of the host that code written by hand calls, with what the host knows them by. -/
def plainMethods : List (Text × List Ty × Option Ty × String) :=
  [("emit", [.object], some .void, "host.emit"),
    ("emit2", [.object, .object], none, "host.emit2"),
    ("fail", [], some .void, "host.failed"), ("boom", [], some .void, "host.booms"),
    ("one", [], some .int32, "host.one")]

def methodNamed (name : Text) (place : Nat) : Method :=
  let (owner, member) := dotted name
  if isHosted name then
    let (params, result, label) := (plainMethods.lookup member).getD ([], none, "")
    { name := member, params, result, routine := .host label }
  else
    let found :=
      match Ty.ofText? namedTypes owner with
      | some type => types.methods type member false ++ types.methods type member true
      | none => []
    found[place]?.getD { name := member, routine := .host "" }

end HostScript.Lab

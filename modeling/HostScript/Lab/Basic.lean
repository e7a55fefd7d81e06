import HostScript.Machine.World

/-!
# The lab

A host for trying scripts out.
-/

namespace HostScript.Lab

def tNamed : Ty :=
  .named { number := 3, name := "INamed" }

/-- An interface of things with an area. -/
def tShape : Ty :=
  .named { number := 4, name := "IShape" }

/-- The class with members of every sort. -/
def tBase : Ty :=
  .named { number := 5, name := "Base" }

/-- A class derived from `Base`. -/
def tDerived : Ty :=
  .named { number := 6, name := "Derived" }

def tWriteOnly : Ty :=
  .named { number := 7, name := "WOnly" }

/-- A class with a static indexer. -/
def tSealed : Ty :=
  .named { number := 8, name := "Sealed" }

def firstFreeNumber : Nat :=
  9

/-- What a value looked like at a moment: an array shows its elements. -/
inductive Picture where
  | value (value : Value)
  | array (type : Ty) (dimensions : List Nat) (elements : List Picture)
  /-- An array too deep inside others to be looked into. -/
  | hidden (type : Ty)
  deriving Repr, BEq

/-- A value as it is shown: patterns that are no number look alike, and so do addresses. -/
def shown : Value → Value
  | .float kind bits =>
    if kind.format.isNaN bits.toNat then .float kind (BitVec.ofNat _ kind.format.notANumber)
    else .float kind bits
  | .address _ => .address { frame := 0, slot := 0, stamp := 0 }
  | value => value

def picture (world : World H) : (depth : Nat) → Value → Picture
  | 0, .array reference => .hidden (.array reference.element reference.dimensions.length)
  | depth + 1, .array reference =>
    .array (.array reference.element reference.dimensions.length) reference.dimensions
      ((world.elements reference).toList.map (picture world depth))
  | _, value => .value (shown value)

def pictureDepth : Nat :=
  3

/-- An object of the lab. -/
structure Object where
  type : Ty
  id : BitVec 32 := 0
  tag : Text := []
  scale : Nat := 0
  sunk : Nat := 0
  dup : BitVec 32 := 0
  extra : Nat := 0
  items : Entries Nat := []
  deriving Repr, DecidableEq

/-- The state of the lab. -/
structure Contents where
  /-- Objects in the order of creation; they are numbered from one. -/
  objects : Array Object
  fields : List (Text × Value)
  /-- Static storage. -/
  count : BitVec 32 := 0
  shared : Nat := 0
  global : Nat := 0
  pool : Array (BitVec 32) := #[0, 0, 0, 0]
  /-- What scripts did, the last first. -/
  trace : List (Text × List Picture) := []
  deriving Repr

/-- Actions in the lab. -/
abbrev LabAct := Act Contents

def look : LabAct Contents := do
  return (← get).host

def change (f : Contents → Contents) : LabAct Unit :=
  modify fun world => { world with host := f world.host }

def note (name : Text) (values : List Value) : LabAct Unit := do
  let world ← get
  let pictures := values.map (picture world pictureDepth)
  change fun lab => { lab with trace := (name, pictures) :: lab.trace }

def object (value : Value) : LabAct (Nat × Object) := do
  match value with
  | .object _ number =>
    match (← look).objects[number - 1]? with
    | some found => return (number - 1, found)
    | none => Act.crash (.said "not a lab object")
  | _ => Act.crash (.said "not a lab object")

def changeObject (value : Value) (f : Object → Object) : LabAct Unit := do
  let (place, found) ← object value
  change fun lab => { lab with objects := lab.objects.setIfInBounds place (f found) }

def newObject (made : Object) : LabAct Value := do
  let lab ← look
  change fun lab => { lab with objects := lab.objects.push made }
  return .object made.type (lab.objects.size + 1)

/-- Makes an object of `Base`; its scale is its id. -/
def newBase (id : BitVec 32) (tag : Text) : LabAct Value :=
  newObject { type := tBase, id, tag, scale := Binary.single.ofInt id.toInt }

/-- A 32-bit floating point pattern. -/
def asSingle : Value → LabAct Nat
  | .float .single bits => return bits.toNat
  | _ => Act.crash .foreignValue

/-- A 64-bit floating point pattern. -/
def asDouble : Value → LabAct Nat
  | .float .double bits => return bits.toNat
  | _ => Act.crash .foreignValue

def asInt32 : Value → LabAct (BitVec 32)
  | .int .int32 bits => return bits
  | _ => Act.crash .foreignValue

/-- A text; what is no text is empty. -/
def asText : Value → Text
  | .string value => value
  | _ => []

def ofText (text : Text) : Value :=
  .string text

/-- The start of the world: the objects, fields and arrays of the lab. -/
def start (store : Store) (chance : List Nat) : World Contents :=
  let floats : ArrayRef := { element := .single, dimensions := [4], address := 0 }
  let grid : ArrayRef := { element := .int32, dimensions := [2, 3], address := 1 }
  let objects : ArrayRef := { element := .object, dimensions := [3], address := 2 }
  let bases : ArrayRef := { element := tBase, dimensions := [2], address := 3 }
  let zero (primitive : Prim) : Value := Value.default (.prim primitive)
  { host :=
      { objects :=
          #[{ type := tBase, id := 1, tag := "one", scale := Binary.single.ofInt 1 },
            { type := tDerived, id := 2, tag := "two", scale := Binary.single.ofInt 2,
              extra := 0x3ff8000000000000 },
            { type := tWriteOnly, id := 3, tag := "w", scale := Binary.single.ofInt 3 },
            { type := tSealed, id := 4, tag := "s", scale := Binary.single.ofInt 4 }]
        fields :=
          [("f", zero (.float .single)), ("d", zero (.float .double)),
            ("i", zero (.int .int32)), ("i8", zero (.int .int8)), ("u8", zero (.int .uint8)),
            ("i16", zero (.int .int16)), ("u16", zero (.int .uint16)),
            ("u32", zero (.int .uint32)), ("i64", zero (.int .int64)),
            ("u64", zero (.int .uint64)), ("flag", zero .bool), ("str", .string []),
            ("o", .null), ("base", .object tBase 1), ("derived", .object tDerived 2),
            ("named", .null), ("shape", .object tDerived 2), ("cmp", .null),
            ("arr", .array floats), ("grid", .array grid), ("objs", .array objects),
            ("bases", .array bases), ("typ", .null), ("wonly", .object tWriteOnly 3),
            ("sealed", .object tSealed 4)] }
    arrays :=
      #[#[.single 0x3f800000, .single 0x40000000, .single 0x40400000, .single 0x40800000],
        Array.replicate 6 (zero (.int .int32)), #[.null, .null, .null], #[.null, .null]]
    store
    chance }

def fieldTypes : List (Text × Ty) :=
  [("f", .single), ("d", .double), ("i", .int32), ("i8", .prim (.int .int8)),
    ("u8", .prim (.int .uint8)), ("i16", .prim (.int .int16)), ("u16", .prim (.int .uint16)),
    ("u32", .prim (.int .uint32)), ("i64", .prim (.int .int64)), ("u64", .prim (.int .uint64)),
    ("flag", .bool), ("str", .string)]

def referenceTypes : List (Text × Ty) :=
  [("o", .object), ("base", tBase), ("derived", tDerived), ("named", tNamed), ("shape", tShape),
    ("cmp", .comparable), ("arr", .array .single 1), ("grid", .array .int32 2),
    ("objs", .array .object 1), ("bases", .array tBase 1), ("typ", .typeType),
    ("wonly", tWriteOnly), ("sealed", tSealed)]

/-- What a field keeps of a value: one of another representation leaves zero. -/
def kept (name : Text) (value : Value) : Value :=
  match fieldTypes.lookup name with
  | none => value
  | some type =>
    if value.typeOf = some type then value
    else if type = .string then .string []
    else Value.default type

def setField (name : Text) (value : Value) (lab : Contents) : Contents :=
  { lab with
    fields := lab.fields.map fun entry =>
      if entry.1 = name then (name, kept name value) else entry }

def getField (name : Text) (lab : Contents) : Value :=
  (lab.fields.lookup name).getD .null

/-- What a location looks like. -/
inductive Sight where
  | value (picture : Picture)
  | pool (values : List (BitVec 32))
  | object (object : Object)
  deriving Repr, BEq

/-- An object as it is shown: patterns that are no number look alike. -/
def Object.shown (object : Object) : Object :=
  let seen (format : Binary.Format) (bits : Nat) : Nat :=
    if format.isNaN bits then format.notANumber else bits
  { object with
    scale := seen Binary.single object.scale
    sunk := seen Binary.single object.sunk
    extra := seen Binary.double object.extra
    items := object.items.map fun (key, bits) => (key, seen Binary.single bits) }

/-- All locations of the lab and what they look like. -/
def sights (world : World Contents) : List (Text × Sight) :=
  let lab := world.host
  let seen (value : Value) : Sight := .value (picture world pictureDepth value)
  let fields : List (Text × Sight) := lab.fields.map fun (name, value) => (name, seen value)
  let statics : List (Text × Sight) :=
    [("Count", seen (.int .int32 lab.count)), ("Shared", seen (.double lab.shared)),
      ("Global", seen (.single lab.global)), ("Sealed", .pool lab.pool.toList)]
  let objects : List (Text × Sight) := lab.objects.toList.zipIdx.map fun (object, place) =>
    (Text.byte '#' :: Text.decimal (place + 1), .object object.shown)
  fields ++ statics ++ objects

/-- The locations that look different, as they look now. -/
def changes (before after : List (Text × Sight)) : List (Text × Sight) :=
  after.filter fun (name, sight) => before.lookup name != some sight

/-- The trace since the last report in order, and the lab with an empty one. -/
def takeTrace (world : World Contents) : List (Text × List Picture) × World Contents :=
  (world.host.trace.reverse, { world with host := { world.host with trace := [] } })

def method (name : Text) (params : List Ty) (result : Ty) (label : String) : Method :=
  { name, params, result := some result, routine := .host label }

def staticMethod (name : Text) (params : List Ty) (result : Ty) (label : String) : Method :=
  { name, params, result := some result, isStatic := true, routine := .host label }

def readable (name : Text) (type : Ty) (label : String) : Property :=
  { name, type, routine := .host label }

def accessible (name : Text) (type : Ty) (label : String) : Property :=
  { name, type, canWrite := true, routine := .host label }

def writable (name : Text) (type : Ty) (label : String) : Property :=
  { name, type, canRead := false, canWrite := true, routine := .host label }

def literal (name : Text) (type : Ty) (value : Value) : Field :=
  { name, type, literal := some value, hasReader := false, hasWriter := false }

def namedDecl : TypeDecl :=
  { isInterface := true
    base := none
    methods := [method "GetName" [] .string "INamed.GetName"] }

/-- Members of things with an area. -/
def shapeDecl : TypeDecl :=
  { isInterface := true
    base := none
    interfaces := [tNamed]
    properties := [readable "Sides" .int32 "IShape.Sides"]
    methods := [method "Area" [] .single "IShape.Area"] }

def baseMethods : List Method :=
  [method "GetName" [] .string "Base.GetName",
    method "Over" [.int32] .string "Base.Over.i",
    method "Over" [.single] .string "Base.Over.f",
    method "Over" [.string] .string "Base.Over.s",
    method "Over" [.int32, .object] .string "Base.Over.io",
    method "Over" [.object, .int32] .string "Base.Over.oi",
    method "Add" [.single] .single "Base.Add",
    method "Nothing" [] .void "Base.Nothing",
    method "Fail" [.string] .void "Base.Fail",
    method "Panic" [.string] .void "Base.Panic",
    method "Echo" [.object] .object "Base.Echo",
    method "Pick" [tBase] .string "Base.Pick.B",
    method "Pick" [tDerived] .string "Base.Pick.D",
    method "Pick" [tNamed] .string "Base.Pick.N",
    method "Wide" [.double, .object] .string "Base.Wide",
    staticMethod "Make" [.int32] tBase "Base.Make",
    staticMethod "Null" [] tBase "Base.Null",
    staticMethod "Over" [.int32] .string "Base.Over.static",
    staticMethod "op_Addition" [tBase, tBase] tBase "Base.Addition",
    staticMethod "op_Subtraction" [tBase, tBase] .string "Base.Subtraction",
    staticMethod "op_Multiply" [tBase, .single] .single "Base.Multiply.left",
    staticMethod "op_Multiply" [.single, tBase] .single "Base.Multiply.right",
    staticMethod "op_Modulus" [tBase, .int32] .int32 "Base.Modulus",
    staticMethod "op_LessThan" [tBase, tBase] .bool "Base.LessThan",
    staticMethod "op_LogicalAnd" [tBase, tBase] .bool "Base.LogicalAnd"]

def baseDecl : TypeDecl :=
  { interfaces := [tNamed]
    fields :=
      [{ name := "Id", type := .int32, label := "Base.Id" },
        { name := "Tag", type := .string, readOnly := true, hasWriter := false,
          label := "Base.Tag" },
        { name := "Count", type := .int32, shared := true, label := "Base.Count" },
        literal "Max" .int32 (Value.int32 100),
        literal "Label" .string (.string "base"),
        literal "Nil" tBase .null,
        { name := "Dup", type := .int32, label := "Base.Dup" },
        { name := "Hidden", type := .single, hasReader := false, label := "Base.Hidden" }]
    properties :=
      [readable "Self" tBase "Base.Self",
        writable "Sink" .single "Base.Sink",
        accessible "Scale" .single "Base.Scale",
        { accessible "Shared" .double "Base.Shared" with isStatic := true },
        { readable "StaticRO" .int32 "Base.StaticRO" with isStatic := true },
        { writable "StaticWO" .int32 "Base.StaticWO" with isStatic := true },
        readable "Dup" .int32 "Base.Dup",
        accessible "Bad" .single "Base.Bad"]
    methods := baseMethods
    indexer := some { accessible "Item" .single "Base.Item" with params := [.string] } }

def derivedDecl : TypeDecl :=
  { base := some tBase
    interfaces := [tShape]
    fields := [{ name := "Extra", type := .double, label := "Derived.Extra" }]
    properties := [readable "Scale" .int32 "Derived.Scale"]
    methods :=
      [method "GetName" [] .string "Derived.GetName",
        method "Over" [.int32] .string "Derived.Over.i",
        method "Over" [.double] .string "Derived.Over.d",
        method "Area" [] .single "Derived.Area"]
    indexer := some { readable "Cell" .int32 "Derived.Cell" with params := [.int32, .int32] } }

/-- Members of `WOnly`. -/
def writeOnlyDecl : TypeDecl :=
  { indexer := some { writable "Slot" .single "WOnly.Slot" with params := [.int32] } }

def sealedDecl : TypeDecl :=
  { indexer :=
      some { accessible "Pool" .int32 "Sealed.Pool" with isStatic := true, params := [.int32] } }

def types : Universe :=
  let amended :=
    (Universe.predeclared.amend .double fun declared =>
      { declared with
        properties := declared.properties ++ [accessible "Rec" .double "double.Rec"] })
      |>.amend .int32 fun declared =>
        { declared with
          fields := declared.fields ++ [literal "MaxValue" .int32 (Value.int32 2147483647)]
          methods := declared.methods ++ [staticMethod "Parse" [.string] .int32 "int32.Parse"] }
  { declarations :=
      [(tNamed, namedDecl), (tShape, shapeDecl), (tBase, baseDecl), (tDerived, derivedDecl),
        (tWriteOnly, writeOnlyDecl), (tSealed, sealedDecl)] ++ amended.declarations }

end HostScript.Lab

import HostScript.Member.Universe
import HostScript.Cbor.Read
import HostScript.Failure
import HostScript.Text.Printable

/-!
# Stores

A store keeps values under names between runs.
-/

namespace HostScript

/-- What goes wrong in a store, or what was being done then. -/
inductive StoreFault where
  | notPersistable (found : Option Ty)
  | unsupportedKind (kind : Text)
  | unsupportedVersion (version : Int)
  | closed
  | diskFailure
  | diskFull
  | emptyPath
  | fileMissing (path : Text)
  | notPermitted
  | data (fault : Cbor.ReadFault)
  | value (fault : ValueFault)
  | storing (name : Text)
  | reading (name : Text)
  | corrupted (name : Text)
  | listing
  | decodingEntry
  | decodingAs (representation : Text)
  | decodingValue (name : Text)
  | rendering (name : Text)
  | readingSnapshot (path : Text)
  | decodingSnapshot (path : Text)
  | writingSnapshot (path : Text)
  deriving Repr, DecidableEq

def StoreFault.text (word : Cbor.ReadFault → Text) : StoreFault → Text
  | .notPersistable found =>
    Text.join ["value of type ", Ty.optionText found, " cannot be persisted"]
  | .unsupportedKind kind => "unsupported persisted kind " ++ kind
  | .unsupportedVersion version => "unsupported snapshot version " ++ Text.integer version
  | .closed => "leveldb: closed"
  | .diskFailure => "disk failure"
  | .diskFull => "disk full"
  | .emptyPath => "path cannot be empty"
  | .fileMissing path => Text.join ["open ", path, ": file does not exist"]
  | .notPermitted => "operation not permitted"
  | .data fault => word fault
  | .value fault => fault.text
  | .storing name => "failed to store " ++ name.inQuotes
  | .reading name => "failed to read " ++ name.inQuotes
  | .corrupted name => "corrupted value of " ++ name.inQuotes
  | .listing => "failed to list state keys"
  | .decodingEntry => "failed to decode entry"
  | .decodingAs representation => "failed to decode " ++ representation
  | .decodingValue name => "failed to decode " ++ name.inQuotes
  | .rendering name => "failed to render " ++ name.inQuotes
  | .readingSnapshot path => "failed to read snapshot " ++ path.quoted
  | .decodingSnapshot path => "failed to decode snapshot " ++ path.quoted
  | .writingSnapshot path => "failed to write snapshot " ++ path.quoted

/-- Failures of stores. -/
abbrev StoreFailure := Failure StoreFault

def Cbor.FloatWidth.format : FloatWidth → Binary.Format
  | .half => { exponentBits := 5, fractionBits := 10 }
  | .single => Binary.single
  | .double => Binary.double

namespace Cbor.Item

def tagsFit : Item → Bool
  | .tagged 0 (.text _) => true
  | .tagged 1 (.unsigned _) | .tagged 1 (.negative _) | .tagged 1 (.float _ _) => true
  | .tagged 2 (.bytes _) | .tagged 3 (.bytes _) => true
  | .tagged tag content => 3 < tag && tagsFit content
  | _ => true

/-- The item behind its tags; a tagged byte string may be a large number. -/
def untagged : Item → Item
  | .tagged 2 (.bytes content) => .unsigned (ofBigEndian content)
  | .tagged 3 (.bytes content) => .negative (ofBigEndian content)
  | .tagged _ content => untagged content
  | item => item

def isNull : Item → Bool
  | .simple value => value = 22 || value = 23
  | _ => false

/-- The entry under a small number; the first one counts, and a text may write the number. -/
def entry? (key : Nat) (entries : List Item) : Option Item :=
  ((pairs entries).find? fun pair =>
    match pair.1 with
    | .unsigned value => value = key
    | .text content => content = Text.decimal key
    | _ => false).map Prod.snd

def isRecordKey : Item → Bool
  | .unsigned _ => true
  | .negative value => value < Nat.pow 2 63
  | .text content => content.isUtf8
  | _ => false

/-- The entries of a record; the null item has none. -/
def record? (item : Item) : Option (List Item) :=
  if !item.tagsFit then none
  else
    match item.untagged with
    | .map entries =>
      if (pairs entries).all fun pair => isRecordKey pair.1 then some entries else none
    | other => if other.isNull then some [] else none

/-- The integer of an item; the null item is zero. -/
def integer? (item : Item) : Option Int :=
  if !item.tagsFit then none
  else
    match item.untagged with
    | .unsigned value => if value < Nat.pow 2 64 then some value else none
    | .negative value => if value < Nat.pow 2 63 then some (-1 - value) else none
    | .simple value =>
      if value < 20 || 31 < value then some value
      else if value = 22 || value = 23 then some 0
      else none
    | _ => none

/-- The text of an item; the null item is empty. -/
def string? (item : Item) : Option Text :=
  if !item.tagsFit then none
  else
    match item.untagged with
    | .text content => if content.isUtf8 then some content else none
    | other => if other.isNull then some [] else none

/-- The truth value of an item; the null item is false. -/
def bool? (item : Item) : Option Bool :=
  if !item.tagsFit then none
  else
    match item.untagged with
    | .simple 20 => some false
    | .simple 21 => some true
    | other => if other.isNull then some false else none

/-- The 64-bit floating point pattern of a number. -/
def double? (item : Item) : Option Nat :=
  match (if item.tagsFit then item.untagged else .array []) with
  | .float width bits => some (width.format.convert Binary.double bits)
  | _ => (integer? item).map Binary.double.ofInt

end Cbor.Item

/-- The largest finite 32-bit floating point number, as a 64-bit pattern. -/
def largestSingle : Nat :=
  0x47efffffe0000000

namespace Value

def isPersistable : Value → Bool
  | .null | .bool _ | .int _ _ | .float _ _ | .string _ => true
  | _ => false

/-- The item of a floating point pattern; what is not finite is written in the shortest width. -/
def floatItem (kind : FloatKind) (bits : Nat) : Cbor.Item :=
  if kind.format.isNaN bits then .float .half 0x7e00
  else if kind.format.isInfinite bits then
    .float .half (if kind.format.isNegative bits then 0xfc00 else 0x7c00)
  else
    match kind with
    | .single => .float .single bits
    | .double => .float .double bits

def item? : Value → Option (Kind × Cbor.Item)
  | .null => some (.object, .null)
  | .bool value => some (.prim .bool, .ofBool value)
  | .int kind bits => some (.prim (.int kind), .ofInt (integerValue kind bits))
  | .float kind bits => some (.prim (.float kind), floatItem kind bits.toNat)
  | .string value => some (.string, .text value)
  | _ => none

def entry? (value : Value) : Option Cbor.Item :=
  value.item?.map fun (kind, item) => .map [.unsigned 1, .unsigned kind.number, .unsigned 2, item]

def encode (value : Value) : Except StoreFailure Text :=
  match value.entry? with
  | some item => .ok item.encode
  | none => .error (.cause (.notPersistable value.typeOf))

def intOfItem? (kind : IntKind) (item : Cbor.Item) : Option Value := do
  let value ← item.integer?
  let bits : BitVec kind.width := BitVec.ofInt _ value
  if integerValue kind bits = value then some (.int kind bits) else none

def floatOfItem? (kind : FloatKind) (item : Cbor.Item) : Option Value := do
  let bits ← item.double?
  match kind with
  | .double => some (.double bits)
  | .single =>
    let unsigned := Binary.double.unsigned bits
    if largestSingle < unsigned && !Binary.double.isInfinite bits && !Binary.double.isNaN bits
        && !item.integer?.isSome then none
    else some (.single (Binary.double.convert Binary.single bits))

def primOfItem? : Prim → Cbor.Item → Option Value
  | .bool, item => item.bool?.map .bool
  | .int kind, item => intOfItem? kind item
  | .float kind, item => floatOfItem? kind item

def representationText : Prim → Text
  | .float .single => "float32"
  | .float .double => "float64"
  | primitive => primitive.text

def ofItem (representation : Text) (form : Cbor.Item → Option Value) (item : Option Cbor.Item) :
    Except StoreFailure Value :=
  let fault (cause : Cbor.ReadFault) : Except StoreFailure Value :=
    .error (.within (.decodingAs representation) (.cause (.data cause)))
  match item with
  | none => fault .empty
  | some item =>
    match form item with
    | some value => .ok value
    | none => fault .malformed

def ofEntry (entry : Cbor.Item) : Except StoreFailure Value :=
  let malformed : Except StoreFailure Value :=
    .error (.within .decodingEntry (.cause (.data .malformed)))
  match entry.record? with
  | none => malformed
  | some fields =>
    let item := Cbor.Item.entry? 2 fields
    match ((Cbor.Item.entry? 1 fields).getD .null).integer? with
    | none => malformed
    | some number =>
      if number < 0 || 255 < number || !(item.all Cbor.Item.tagsFit) then malformed
      else
        match Kind.ofNumber? number.toNat with
        | some (.prim primitive) =>
          ofItem (representationText primitive) (primOfItem? primitive) item
        | some .string => ofItem "string" (fun item => item.string?.map .string) item
        | some .object => .ok .null
        | _ => .error (.cause (.unsupportedKind (Kind.numberedText number.toNat)))

def decode (bytes : Text) : Except StoreFailure Value :=
  match Cbor.read bytes with
  | .ok item => ofEntry item
  | .error fault => .error (.within .decodingEntry (.cause (.data fault)))

end Value

/-- Pairs in ascending order of their keys. -/
abbrev Entries (α : Type) := List (Text × α)

namespace Entries

def find? (key : Text) : Entries α → Option α
  | [] => none
  | (other, value) :: rest => if key = other then some value else find? key rest

def insert (key : Text) (value : α) : Entries α → Entries α
  | [] => [(key, value)]
  | (other, previous) :: rest =>
    if key = other then (key, value) :: rest
    else if Text.compare key other = .lt then (key, value) :: (other, previous) :: rest
    else (other, previous) :: insert key value rest

def erase (key : Text) (entries : Entries α) : Entries α :=
  entries.filter fun entry => entry.1 != key

def keys (entries : Entries α) : List Text :=
  entries.map Prod.fst

end Entries

/-- Persisted forms by key. -/
structure Database where
  entries : Entries Text := []
  isClosed : Bool := false
  deriving Repr, DecidableEq

namespace Database

def key (scope name : Text) : Text :=
  scope ++ Text.byte '/' :: name

def scopeKey (scope : Text) : Text :=
  key scope []

def get (database : Database) (scope name : Text) : Except StoreFailure (Option Value) :=
  if database.isClosed then .error (.within (.reading name) (.cause .closed))
  else
    match database.entries.find? (key scope name) with
    | none => .ok none
    | some bytes =>
      match Value.decode bytes with
      | .ok value => .ok (some value)
      | .error failure => .error (.within (.corrupted name) failure)

def putBytes (database : Database) (scope name bytes : Text) : Database :=
  { database with entries := database.entries.insert (key scope name) bytes }

def put (database : Database) (scope name : Text) (value : Value) :
    Except StoreFailure Database :=
  match value.encode with
  | .error failure => .error (.within (.storing name) failure)
  | .ok bytes =>
    if database.isClosed then .error (.cause .closed)
    else .ok (database.putBytes scope name bytes)

def delete (database : Database) (scope name : Text) : Except StoreFailure Database :=
  if database.isClosed then .error (.cause .closed)
  else .ok { database with entries := database.entries.erase (key scope name) }

def keys (database : Database) (scope : Text) : Except StoreFailure (List Text) :=
  if database.isClosed then .error (.within .listing (.cause .closed))
  else
    let start := scopeKey scope
    .ok ((database.entries.keys.filter start.isPrefixOf).map fun key => key.drop start.length)

def clear (database : Database) (scope : Text) : Except StoreFailure Database :=
  if database.isClosed then .error (.within .listing (.cause .closed))
  else
    let start := scopeKey scope
    .ok { database with entries := database.entries.filter fun entry => !start.isPrefixOf entry.1 }

end Database

/-- Where values are kept. -/
inductive Store where
  | memory (values : Entries Value)
  | durable (scope : Text) (database : Database)
  /-- A memory that cannot read or write the names with the given beginnings. -/
  | faulty (unreadable unwritable : Text) (values : Entries Value)
  deriving Repr, DecidableEq

namespace Store

/-- A memory that keeps nothing yet. -/
def empty : Store :=
  .memory []

def get (store : Store) (name : Text) : Except StoreFailure (Option Value) :=
  match store with
  | .memory values => .ok (values.find? name)
  | .durable scope database => database.get scope name
  | .faulty unreadable _ values =>
    if unreadable.isPrefixOf name then .error (.cause .diskFailure) else .ok (values.find? name)

def put (store : Store) (name : Text) (value : Value) : Except StoreFailure Store :=
  match store with
  | .memory values => .ok (.memory (values.insert name value))
  | .durable scope database => do
    let changed ← database.put scope name value
    return .durable scope changed
  | .faulty unreadable unwritable values =>
    if unwritable.isPrefixOf name then .error (.cause .diskFull)
    else .ok (.faulty unreadable unwritable (values.insert name value))

def delete (store : Store) (name : Text) : Except StoreFailure Store :=
  match store with
  | .memory values => .ok (.memory (values.erase name))
  | .durable scope database => do
    let changed ← database.delete scope name
    return .durable scope changed
  | .faulty unreadable unwritable values =>
    .ok (.faulty unreadable unwritable (values.erase name))

/-- The names in ascending order. -/
def keys : Store → Except StoreFailure (List Text)
  | .memory values => .ok values.keys
  | .durable scope database => database.keys scope
  | .faulty _ _ values => .ok values.keys

/-- Removes all names. -/
def clear : Store → Except StoreFailure Store
  | .memory _ => .ok (.memory [])
  | .durable scope database => do
    let changed ← database.clear scope
    return .durable scope changed
  | .faulty unreadable unwritable _ => .ok (.faulty unreadable unwritable [])

/-- A stored value as a type: itself if it fits, else its conversion, else the default. -/
def fitted (types : Universe) (type : Ty) (stored : Value) : Except ValueFault Value :=
  if stored.typeOf = some type then .ok stored
  else
    match type, stored.typeOf with
    | .prim primitive, some (.prim _) => stored.convert primitive
    | .prim _, _ => .ok (Value.default type)
    | _, shown =>
      .ok (if stored = .null || types.isAssignableFrom type shown then stored else .null)

/-- The value under a name as a type. -/
def value (store : Store) (types : Universe) (name : Text) (type : Ty) :
    Except StoreFailure Value := do
  match ← store.get name with
  | some stored => (fitted types type stored).mapError fun fault => .cause (.value fault)
  | none => return Value.default type

end Store

end HostScript

/-! A database in one piece of data. -/

namespace HostScript.Database

def archiveItems : Entries Text → List Cbor.Item
  | [] => []
  | (key, form) :: rest => .bytes key :: .bytes form :: archiveItems rest

def archive (database : Database) : Text :=
  (Cbor.Item.map (archiveItems database.entries)).encode

def archivedEntries? : List (Cbor.Item × Cbor.Item) → Option (Entries Text)
  | [] => some []
  | (.bytes key, .bytes form) :: rest => do
    let following ← archivedEntries? rest
    return following.insert key form
  | _ => none

def ofArchive? (content : Text) : Option Database :=
  match Cbor.read content with
  | .ok (.map entries) =>
    (archivedEntries? (Cbor.Item.pairs entries)).map fun entries => { entries }
  | _ => none

end HostScript.Database

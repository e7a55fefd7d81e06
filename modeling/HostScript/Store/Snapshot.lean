import HostScript.Store.Basic
import HostScript.Json.Read

/-!
# Snapshots

A snapshot is a file with the persisted forms of the values of a store: a map with the version
under 1 and the values by name under 2.
-/

namespace HostScript

/-- A set of files. -/
structure Files where
  contents : Entries Text := []
  isReadOnly : Bool := false
  /-- Whether a file can only be written into a folder that is there. -/
  needsFolder : Bool := false
  deriving Repr, DecidableEq

namespace Files

def read (files : Files) (path : Text) : Except StoreFailure Text :=
  match files.contents.find? path with
  | some content => .ok content
  | none => .error (.cause (.fileMissing path))

/-- The folder that a path leads through; a plain name has none. -/
def folderOf (path : Text) : Text :=
  ((path.reverse.dropWhile fun b => b != Text.byte '/').drop 1).reverse

/-- Whether the folder of a path is there: folders come with the files in them. -/
def hasFolder (files : Files) (path : Text) : Bool :=
  let folder := folderOf path
  let start := folder ++ [Text.byte '/']
  folder.isEmpty || folder == Text.ofString "."
    || files.contents.any fun entry => start.isPrefixOf entry.1

def write (files : Files) (path content : Text) : Except StoreFailure Files :=
  if files.isReadOnly then .error (.cause .notPermitted)
  else if files.needsFolder && !files.hasFolder path then .error (.cause (.fileMissing path))
  else .ok { files with contents := files.contents.insert path content }

end Files

end HostScript

namespace HostScript.Snapshot

def version : Nat :=
  1

def collect (store : Store) : List Text → Except StoreFailure (List Cbor.Item)
  | [] => .ok []
  | name :: rest => do
    let stored ← store.get name
    let following ← collect store rest
    match stored.bind Value.entry? with
    | some entry => return .text name :: entry :: following
    | none => return following

def encode (store : Store) : Except StoreFailure Text := do
  let names ← store.keys
  let entries ← collect store names
  return (Cbor.Item.map [.unsigned 1, .unsigned version, .unsigned 2, .map entries]).encode

def save (files : Files) (path : Text) (store : Store) : Except StoreFailure Files := do
  let content ← encode store
  match files.write path content with
  | .ok written => return written
  | .error failure => .error (.within (.writingSnapshot path) failure)

/-- The names with their items; a later entry of a name counts. -/
def namedItems? : List (Cbor.Item × Cbor.Item) → Option (Entries Cbor.Item)
  | [] => some []
  | (key, item) :: rest => do
    let following ← namedItems? rest
    let name ← key.string?
    if item.tagsFit then
      some (if (following.find? name).isSome then following else following.insert name item)
    else none

def contents? (item : Cbor.Item) : Option (Int × Entries Cbor.Item) := do
  let fields ← item.record?
  let number ← ((Cbor.Item.entry? 1 fields).getD .null).integer?
  let values := (Cbor.Item.entry? 2 fields).getD .null
  if !values.tagsFit || number < -(Nat.pow 2 63 : Nat) || (Nat.pow 2 63 : Nat) ≤ number then none
  else
    match values.untagged with
    | .map entries => do
      let items ← namedItems? (Cbor.Item.pairs entries)
      some (number, items)
    | other => if other.isNull then some (number, []) else none

def restore : Store → Entries Cbor.Item → Except StoreFailure Unit × Store
  | store, [] => (.ok (), store)
  | store, (name, item) :: rest =>
    match Value.ofEntry item with
    | .error failure => (.error (.within (.decodingValue name) failure), store)
    | .ok value =>
      match store.put name value with
      | .error failure => (.error failure, store)
      | .ok changed => restore changed rest

/--
Reads the content of a snapshot into a store, its entries in some order; values before a fault
stay.
-/
def decodeIn (order : Entries Cbor.Item → Entries Cbor.Item) (path content : Text)
    (store : Store) : Except StoreFailure Unit × Store :=
  let failed (fault : Cbor.ReadFault) : Except StoreFailure Unit × Store :=
    (.error (.within (.decodingSnapshot path) (.cause (.data fault))), store)
  match Cbor.read content with
  | .error fault => failed fault
  | .ok item =>
    match contents? item with
    | none => failed .malformed
    | some (number, items) =>
      if number = version then restore store (order items)
      else (.error (.cause (.unsupportedVersion number)), store)

/-- Loads a snapshot whose entries are visited in some order: none is promised. -/
def loadIn (order : Entries Cbor.Item → Entries Cbor.Item) (files : Files) (path : Text)
    (store : Store) : Except StoreFailure Unit × Store :=
  match files.read path with
  | .error failure => (.error (.within (.readingSnapshot path) failure), store)
  | .ok content => decodeIn order path content store

/-- Loads a snapshot in the order of its names. -/
def load (files : Files) (path : Text) (store : Store) : Except StoreFailure Unit × Store :=
  loadIn id files path store

end HostScript.Snapshot

namespace HostScript.Store

/-- A value in a dump; `word` gives the text of what is no primitive. -/
def dumpValue (word : Value → Text) : Value → Text
  | .null => "null"
  | .bool value => Value.boolText value
  | .int kind bits => Text.integer (Value.integerValue kind bits)
  | .float kind bits =>
    Binary.double.text .positional (kind.format.convert Binary.double bits.toNat)
  | .string value => Json.quoted value
  | value => Json.quoted (word value)

def dumpMembers (store : Store) (word : Value → Text) :
    List Text → Except StoreFailure (List Text)
  | [] => .ok []
  | name :: rest => do
    let stored ← store.get name
    if name.isEmpty then .error (.within (.rendering name) (.cause .emptyPath))
    else
      let member := Text.join [Json.quoted name, ":", dumpValue word (stored.getD .null)]
      let members ← dumpMembers store word rest
      return member :: members

def dump (store : Store) (word : Value → Text) : Except StoreFailure Text := do
  let names ← store.keys
  let members ← dumpMembers store word names
  return Text.byte '\x7b' :: (Text.joinWith "," members ++ [Text.byte '\x7d'])

end HostScript.Store

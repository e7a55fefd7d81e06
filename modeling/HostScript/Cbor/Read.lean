import HostScript.Text.Basic

/-!
# Reading data items

`read` accepts any well-formed item that fills the data, with lengths in any form.
-/

namespace HostScript.Cbor

/-- Widths of floating point items. -/
inductive FloatWidth where
  | half | single | double
  deriving Repr, DecidableEq

def FloatWidth.size : FloatWidth → Nat
  | .half => 2
  | .single => 4
  | .double => 8

/-- Data items. -/
inductive Item where
  | unsigned (value : Nat)
  | negative (value : Nat)
  | bytes (content : Text)
  | text (content : Text)
  | array (items : List Item)
  /-- Keys and values in turn. -/
  | map (entries : List Item)
  | tagged (tag : Nat) (content : Item)
  /-- Simple values: `false`, `true`, `null` and `undefined` are 20 to 23. -/
  | simple (value : Nat)
  | float (width : FloatWidth) (bits : Nat)
  deriving Repr

def bigEndian : (size : Nat) → (n : Nat) → Text
  | 0, _ => []
  | size + 1, n => bigEndian size (n / 256) ++ [(n % 256).toUInt8]

def ofBigEndian (bytes : Text) : Nat :=
  bytes.foldl (fun n b => n * 256 + b.toNat) 0

/-- A head: the major type with its number in the fewest bytes. -/
def head (major n : Nat) : Text :=
  let first (info : Nat) : UInt8 := (major * 32 + info).toUInt8
  if n < 24 then [first n]
  else if n < Nat.pow 2 8 then first 24 :: bigEndian 1 n
  else if n < Nat.pow 2 16 then first 25 :: bigEndian 2 n
  else if n < Nat.pow 2 32 then first 26 :: bigEndian 4 n
  else first 27 :: bigEndian 8 n

namespace Item

mutual

def encode : Item → Text
  | .unsigned value => head 0 value
  | .negative value => head 1 value
  | .bytes content => head 2 content.length ++ content
  | .text content => head 3 content.length ++ content
  | .array items => head 4 items.length ++ encodeAll items
  | .map entries => head 5 (entries.length / 2) ++ encodeAll entries
  | .tagged tag content => head 6 tag ++ content.encode
  | .simple value => head 7 value
  | .float .half bits => 0xf9 :: bigEndian 2 bits
  | .float .single bits => 0xfa :: bigEndian 4 bits
  | .float .double bits => 0xfb :: bigEndian 8 bits

def encodeAll : List Item → Text
  | [] => []
  | item :: rest => item.encode ++ encodeAll rest

end

def null : Item :=
  .simple 22

def ofBool (value : Bool) : Item :=
  .simple (if value then 21 else 20)

/-- An integer. -/
def ofInt : Int → Item
  | .ofNat n => .unsigned n
  | .negSucc n => .negative n

def pairs : List Item → List (Item × Item)
  | key :: value :: rest => (key, value) :: pairs rest
  | _ => []

end Item

/-- Why data holds no item. -/
inductive ReadFault where
  | empty
  | truncated
  /-- The data is not well formed, or not of the expected form. -/
  | malformed
  deriving Repr, DecidableEq

def ReadFault.text : ReadFault → Text
  | .empty => "EOF"
  | .truncated => "unexpected EOF"
  | .malformed => "malformed data item"

/-- The most levels of nesting. -/
def maxDepth : Nat :=
  32

def maxMembers : Nat :=
  131072

/-- The first byte of a head, split, and its number; no number for an indefinite length. -/
structure Head where
  major : Nat
  info : Nat
  value : Option Nat

def readNumber (size : Nat) (bytes : Text) : Except ReadFault (Nat × Text) :=
  let digits := bytes.take size
  if digits.length = size then .ok (ofBigEndian digits, bytes.drop size) else .error .truncated

def readHead : Text → Except ReadFault (Head × Text)
  | [] => .error .truncated
  | first :: rest =>
    let major := first.toNat / 32
    let info := first.toNat % 32
    let sized (size : Nat) : Except ReadFault (Head × Text) := do
      let (value, rest) ← readNumber size rest
      if major = 7 ∧ size = 1 ∧ value < 32 then .error .malformed
      else return ({ major, info, value := some value }, rest)
    if info < 24 then .ok ({ major, info, value := some info }, rest)
    else if info = 24 then sized 1
    else if info = 25 then sized 2
    else if info = 26 then sized 4
    else if info = 27 then sized 8
    else if info = 31 ∧ 2 ≤ major ∧ major ≤ 5 then .ok ({ major, info, value := none }, rest)
    else .error .malformed

def readContent (length : Nat) (bytes : Text) : Except ReadFault (Text × Text) :=
  if Nat.pow 2 63 ≤ length then .error .malformed
  else
    let content := bytes.take length
    if content.length = length then .ok (content, bytes.drop length) else .error .truncated

def readChunks (major : Nat) : (bound : Nat) → Text → Except ReadFault (Text × Text)
  | 0, _ => .error .truncated
  | bound + 1, bytes =>
    match bytes with
    | [] => .error .truncated
    | 0xff :: rest => .ok ([], rest)
    | first :: _ =>
      if first.toNat / 32 ≠ major ∨ first.toNat % 32 = 31 then .error .malformed
      else do
        let (chunkHead, rest) ← readHead bytes
        let (chunk, rest) ← readContent (chunkHead.value.getD 0) rest
        let (chunks, rest) ← readChunks major bound rest
        return (chunk ++ chunks, rest)

def simpleItem (info value : Nat) : Item :=
  if info = 25 then .float .half value
  else if info = 26 then .float .single value
  else if info = 27 then .float .double value
  else .simple value

def collection (major : Nat) (items : List Item) : Item :=
  if major = 4 then .array items else .map items

mutual

/-- Reads an item at a depth of nesting; `tagged` says that a tag stands before it. -/
def readItem : (bound depth : Nat) → (tagged : Bool) → Text → Except ReadFault (Item × Text)
  | 0, _, _, _ => .error .truncated
  | bound + 1, depth, tagged, bytes => do
    let (itemHead, rest) ← readHead bytes
    match itemHead.major, itemHead.value with
    | 0, some value => return (.unsigned value, rest)
    | 1, some value => return (.negative value, rest)
    | 2, some length =>
      let (content, rest) ← readContent length rest
      return (.bytes content, rest)
    | 3, some length =>
      let (content, rest) ← readContent length rest
      return (.text content, rest)
    | 2, none =>
      let (content, rest) ← readChunks 2 bound rest
      return (.bytes content, rest)
    | 3, none =>
      let (content, rest) ← readChunks 3 bound rest
      return (.text content, rest)
    | 6, some tag =>
      let depth := if tagged then depth + 1 else depth
      if maxDepth < depth then .error .malformed
      else
        let (content, rest) ← readItem bound depth true rest
        return (.tagged tag content, rest)
    | 7, some value => return (simpleItem itemHead.info value, rest)
    | major, some count =>
      if maxDepth < depth + 1 ∨ maxMembers < count then .error .malformed
      else
        let (items, rest) ←
          readItems bound (depth + 1) (if major = 4 then count else 2 * count) rest
        return (collection major items, rest)
    | major, none =>
      if maxDepth < depth + 1 then .error .malformed
      else
        let (items, rest) ← readOpenItems bound (depth + 1) rest
        let members := if major = 4 then items.length else items.length / 2
        if maxMembers < members ∨ (major ≠ 4 ∧ items.length % 2 = 1) then .error .malformed
        else return (collection major items, rest)

def readItems : (bound depth count : Nat) → Text → Except ReadFault (List Item × Text)
  | _, _, 0, bytes => .ok ([], bytes)
  | 0, _, _ + 1, _ => .error .truncated
  | bound + 1, depth, count + 1, bytes => do
    let (item, rest) ← readItem bound depth false bytes
    let (items, rest) ← readItems bound depth count rest
    return (item :: items, rest)

def readOpenItems : (bound depth : Nat) → Text → Except ReadFault (List Item × Text)
  | 0, _, _ => .error .truncated
  | bound + 1, depth, bytes =>
    match bytes with
    | [] => .error .truncated
    | 0xff :: rest => .ok ([], rest)
    | bytes => do
      let (item, rest) ← readItem bound depth false bytes
      let (items, rest) ← readOpenItems bound depth rest
      return (item :: items, rest)

end

def read (bytes : Text) : Except ReadFault Item :=
  if bytes.isEmpty then .error .empty
  else do
    let (item, rest) ← readItem (2 * bytes.length + 2) 0 false bytes
    if rest.isEmpty then return item else .error .malformed

end HostScript.Cbor

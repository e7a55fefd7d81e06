import HostScript.Code.Op
import HostScript.Text.Printable

/-!
# Fingerprints

A program is known by a hash of its code and of the layout of its pools.
-/

namespace HostScript.Xxh64

def prime1 : UInt64 :=
  11400714785074694791

def prime2 : UInt64 :=
  14029467366897019727

def prime3 : UInt64 :=
  1609587929392839161

def prime4 : UInt64 :=
  9650029242287828579

def prime5 : UInt64 :=
  2870177450012600261

def rotate (x : UInt64) (count : UInt64) : UInt64 :=
  (x <<< count) ||| (x >>> (64 - count))

def littleEndian (bytes : Text) : UInt64 :=
  bytes.foldr (fun b value => value * 256 + b.toNat.toUInt64) 0

def round (lane input : UInt64) : UInt64 :=
  rotate (lane + input * prime2) 31 * prime1

def merge (result lane : UInt64) : UInt64 :=
  (result ^^^ round 0 lane) * prime1 + prime4

/-- The four lanes. -/
structure Lanes where
  a : UInt64
  b : UInt64
  c : UInt64
  d : UInt64

def Lanes.start : Lanes :=
  { a := prime1 + prime2, b := prime2, c := 0, d := 0 - prime1 }

def Lanes.stripe (lanes : Lanes) (bytes : Text) : Lanes :=
  { a := round lanes.a (littleEndian (bytes.take 8))
    b := round lanes.b (littleEndian ((bytes.drop 8).take 8))
    c := round lanes.c (littleEndian ((bytes.drop 16).take 8))
    d := round lanes.d (littleEndian ((bytes.drop 24).take 8)) }

def Lanes.converge (lanes : Lanes) : UInt64 :=
  let sum := rotate lanes.a 1 + rotate lanes.b 7 + rotate lanes.c 12 + rotate lanes.d 18
  merge (merge (merge (merge sum lanes.a) lanes.b) lanes.c) lanes.d

/-- Takes all full stripes; the bound is on their number. -/
def stripes : (bound : Nat) → Lanes → Text → Lanes × Text
  | 0, lanes, bytes => (lanes, bytes)
  | bound + 1, lanes, bytes =>
    let stripe := bytes.take 32
    if stripe.length = 32 then stripes bound (lanes.stripe stripe) (bytes.drop 32)
    else (lanes, bytes)

/-- Mixes in the bytes after the last full stripe, fewer than 32. -/
def tail : (bound : Nat) → UInt64 → Text → UInt64
  | 0, hash, _ => hash
  | bound + 1, hash, bytes =>
    let eight := bytes.take 8
    let four := bytes.take 4
    if eight.length = 8 then
      let mixed := hash ^^^ round 0 (littleEndian eight)
      tail bound (rotate mixed 27 * prime1 + prime4) (bytes.drop 8)
    else if four.length = 4 then
      let mixed := hash ^^^ (littleEndian four * prime1)
      tail bound (rotate mixed 23 * prime2 + prime3) (bytes.drop 4)
    else
      match bytes with
      | [] => hash
      | b :: rest =>
        let mixed := hash ^^^ (b.toNat.toUInt64 * prime5)
        tail bound (rotate mixed 11 * prime1) rest

/-- The final mixing. -/
def avalanche (hash : UInt64) : UInt64 :=
  let first := (hash ^^^ (hash >>> 33)) * prime2
  let second := (first ^^^ (first >>> 29)) * prime3
  second ^^^ (second >>> 32)

def hash (bytes : Text) : UInt64 :=
  let length := bytes.length
  let (lanes, rest) := stripes (length / 32) .start bytes
  let start := if length < 32 then prime5 else lanes.converge
  avalanche (tail rest.length (start + length.toUInt64) rest)

end HostScript.Xxh64

/-! Bytes as a big-endian number in base 58. -/

namespace HostScript.Base58

/-- The digits: no zero, capital O, capital I or small l. -/
def alphabet : Text :=
  "123456789ABCDEFGHJKLMNPQRSTUVWXYZabcdefghijkmnopqrstuvwxyz"

/-- The digit of a number below 58. -/
def digit (n : Nat) : UInt8 :=
  alphabet.getD n 49

def digits : (bound : Nat) → Nat → Text
  | 0, _ => []
  | bound + 1, n => if n = 0 then [] else digits bound (n / 58) ++ [digit (n % 58)]

def encode (bytes : Text) : Text :=
  let zeros := bytes.takeWhile (· == 0)
  let value := bytes.foldl (fun n b => n * 256 + b.toNat) 0
  zeros.map (fun _ => digit 0) ++ digits (2 * bytes.length) value

end HostScript.Base58

namespace HostScript.Program

def representation : Value → Text
  | .null => "<nil>"
  | .bool _ => "bool"
  | .int kind _ => kind.text
  | .float .single _ => "float32"
  | .float .double _ => "float64"
  | .string _ => "string"
  | .type _ => "*types.Type"
  | value => Ty.optionText value.typeOf

/-- What the hash is taken of. -/
def layout (program : Program) : Text :=
  Text.join
    ([program.code.toList]
      ++ program.constants.toList.map (fun value =>
          Text.join ["c", representation value, ":", value.plainText, ";"])
      ++ program.types.toList.map (fun type => Text.join ["t", type.text, ";"])
      ++ program.fields.toList.map (fun field =>
          Text.join ["f", field.name, ":", field.type.text, ";"])
      ++ program.properties.toList.map (fun property =>
          Text.join ["p", property.name, ":", property.type.text, ";"])
      ++ program.methods.toList.map (fun method => Text.join ["m", method.text, ";"])
      ++ program.names.toList.map (fun name => Text.join ["n", name, ";"])
      ++ program.locals.toList.map (fun type => Text.join ["l", type.text, ";"]))

/-- The eight bytes of a number, the highest first. -/
def bigEndian (n : UInt64) : Text :=
  ([56, 48, 40, 32, 24, 16, 8, 0] : List UInt64).map fun shift => (n >>> shift).toUInt8

def fingerprint (program : Program) : Text :=
  Base58.encode (bigEndian (Xxh64.hash program.layout))

def constantText : Value → Text
  | .string value => value.quoted
  | value => Text.join [value.plainText, " (", Ty.optionText value.typeOf, ")"]

def operandText? (program : Program) (operand : OperandClass) (n : Nat) : Option Text :=
  match operand with
  | .absent => none
  | .constant => (program.constants[n]?).map constantText
  | .localSlot =>
    (program.locals[n]?).map fun type => Text.join [Text.decimal n, " (", type.text, ")"]
  | .field => (program.fields[n]?).map Field.name
  | .property => (program.properties[n]?).map Property.name
  | .method => (program.methods[n]?).map Method.text
  | .name => program.names[n]?
  | .type => (program.types[n]?).map Ty.text
  | .kind => some (Kind.numberedText (n % 256))
  | .rank => some (Text.decimal n)
  | .position => some (Text.padded 4 n)

def instructionText (program : Program) (position : Nat) (op : UInt8) : Text :=
  let name := Code.mnemonic op
  let operand : Option Nat :=
    if Code.size op = 1 then none else program.word? (position + 1)
  match operand with
  | none => Text.join [Text.padded 4 position, " ", name, "\n"]
  | some n =>
    let shown := (program.operandText? (Code.operandClass op) n).getD ("#" ++ Text.decimal n)
    Text.join [Text.padded 4 position, " ", Text.filled 10 name, " ", shown, "\n"]

/-- The instructions from a position on; an instruction takes at least one byte. -/
def instructionsText (program : Program) : (bytes position : Nat) → List Text
  | 0, _ => []
  | bytes + 1, position =>
    match program.code[position]? with
    | none => []
    | some op =>
      program.instructionText position op
        :: program.instructionsText bytes (position + Code.size op)

def listing (program : Program) : Text :=
  let locals := program.locals.toList.mapIdx fun slot type =>
    Text.join [".local ", Text.decimal slot, " ", type.text, "\n"]
  Text.join (locals ++ program.instructionsText program.code.size 0)

end HostScript.Program

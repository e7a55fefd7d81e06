import HostScript.Number.Binary

/-!
# Types

Script types are primitives, `void`, `string`, `object`, classes and interfaces declared by a
host, and arrays of any of them.
-/

namespace HostScript

/-- Integer representations. -/
inductive IntKind where
  | int8 | uint8 | int16 | uint16 | int32 | uint32 | int64 | uint64
  deriving Repr, DecidableEq

namespace IntKind

def width : IntKind → Nat
  | .int8 | .uint8 => 8
  | .int16 | .uint16 => 16
  | .int32 | .uint32 => 32
  | .int64 | .uint64 => 64

def signed : IntKind → Bool
  | .int8 | .int16 | .int32 | .int64 => true
  | .uint8 | .uint16 | .uint32 | .uint64 => false

def all : List IntKind :=
  [.int8, .uint8, .int16, .uint16, .int32, .uint32, .int64, .uint64]

/-- The name of the type. -/
def text : IntKind → Text
  | .int8 => "int8"
  | .uint8 => "uint8"
  | .int16 => "int16"
  | .uint16 => "uint16"
  | .int32 => "int32"
  | .uint32 => "uint32"
  | .int64 => "int64"
  | .uint64 => "uint64"

end IntKind

/-- Floating point representations. -/
inductive FloatKind where
  | single | double
  deriving Repr, DecidableEq

namespace FloatKind

def width : FloatKind → Nat
  | .single => 32
  | .double => 64

def format : FloatKind → Binary.Format
  | .single => Binary.single
  | .double => Binary.double

/-- The name of the type. -/
def text : FloatKind → Text
  | .single => "float"
  | .double => "double"

end FloatKind

/-- Primitive types: their values are stored by value. -/
inductive Prim where
  | bool
  | int (kind : IntKind)
  | float (kind : FloatKind)
  deriving Repr, DecidableEq

namespace Prim

def all : List Prim :=
  .bool :: IntKind.all.map .int ++ [.float .single, .float .double]

/-- The name of the type. -/
def text : Prim → Text
  | .bool => "bool"
  | .int representation => representation.text
  | .float representation => representation.text

/-- Whether values of the type take part in 32-bit integer arithmetic. -/
def isI4 : Prim → Bool
  | .bool => true
  | .int representation => representation.width ≤ 32
  | .float _ => false

end Prim

/-- Representation classes of types. -/
inductive Kind where
  | void
  | prim (prim : Prim)
  | string
  | object
  | classKind
  | interface
  | array
  deriving Repr, DecidableEq

namespace Kind

def all : List Kind :=
  .void :: Prim.all.map .prim ++ [.string, .object, .classKind, .interface, .array]

def text : Kind → Text
  | .void => "void"
  | .prim primitive => primitive.text
  | .string => "string"
  | .object => "object"
  | .classKind => "class"
  | .interface => "interface"
  | .array => "array"

def ofNumber? (number : Nat) : Option Kind :=
  all[number]?

def number (kind : Kind) : Nat :=
  all.idxOf kind

def numberedText (number : Nat) : Text :=
  match ofNumber? number with
  | some kind => kind.text
  | none => "unknown"

def isPrimitive : Kind → Bool
  | .prim _ => true
  | _ => false

def isInteger : Kind → Bool
  | .prim (.int _) => true
  | _ => false

def isFloat : Kind → Bool
  | .prim (.float _) => true
  | _ => false

def isUnsigned : Kind → Bool
  | .prim (.int representation) => !representation.signed
  | _ => false

end Kind

/-- A declared type, known by its number; the name is for messages. -/
structure TypeName where
  number : Nat
  name : Text
  deriving Repr, DecidableEq

/-- Script types. -/
inductive Ty where
  | void
  | prim (prim : Prim)
  | string
  | object
  | named (name : TypeName)
  | array (element : Ty) (rank : Nat)
  deriving Repr, DecidableEq

namespace Ty

/-- The 32-bit integer type. -/
def int32 : Ty :=
  .prim (.int .int32)

def bool : Ty :=
  .prim .bool

/-- The 32-bit floating point type. -/
def single : Ty :=
  .prim (.float .single)

/-- The 64-bit floating point type. -/
def double : Ty :=
  .prim (.float .double)

/-- The name of a type; an array's shows its rank by commas. -/
def text : Ty → Text
  | .void => "void"
  | .prim primitive => primitive.text
  | .string => "string"
  | .object => "object"
  | .named declared => declared.name
  | .array element rank =>
    text element ++ Text.byte '[' :: (List.replicate (rank - 1) (Text.byte ',') ++ "]")

def isValue : Ty → Bool
  | .prim _ => true
  | _ => false

/-- Whether values of the type take part in 32-bit integer arithmetic. -/
def isI4 : Ty → Bool
  | .prim primitive => primitive.isI4
  | _ => false

def isReference : Ty → Bool
  | .void | .prim _ => false
  | _ => true

def isArray : Ty → Bool
  | .array _ _ => true
  | _ => false

def element? : Ty → Option Ty
  | .array element _ => some element
  | _ => none

/-- The count of an array's dimensions; what is no array has none. -/
def rank : Ty → Nat
  | .array _ rank => rank
  | _ => 0

/-- The name of a type that may be missing: the null reference has none. -/
def optionText : Option Ty → Text
  | some type => type.text
  | none => "<nil>"

end Ty

end HostScript

/-! The name of a type: a known one, or that of an array. -/

namespace HostScript.Ty

def ofReversed? (names : List (Text × Ty)) : (steps : Nat) → Text → Option Ty
  | 0, reversed => names.lookup reversed.reverse
  | steps + 1, reversed =>
    match reversed with
    | 93 :: rest =>
      let commas := (rest.takeWhile fun b => b == Text.byte ',').length
      match rest.drop commas with
      | 91 :: element =>
        (ofReversed? names steps element).map fun type => .array type (commas + 1)
      | _ => none
    | _ => names.lookup reversed.reverse

def ofText? (names : List (Text × Ty)) (text : Text) : Option Ty :=
  ofReversed? names text.length text.reverse

end HostScript.Ty

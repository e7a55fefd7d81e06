import HostScript.Store.Basic
import HostScript.Value.Arithmetic

/-!
# Hosts and worlds

A host declares types and acts when their members are used.
-/

namespace HostScript

/-- Why an action was given up. -/
inductive Crash where
  | said (message : Text)
  /-- A position outside of the code, of a pool, of the local variables or of an array. -/
  | outOfRange
  /-- A value of another representation than an accessor takes. -/
  | foreignValue
  deriving Repr, DecidableEq

def Crash.text : Crash → Text
  | .said message => message
  | .outOfRange => "runtime error: index out of range"
  | .foreignValue => "interface conversion: value of another representation"

/-- What goes wrong in a run, or what was being done then. -/
inductive RunFault where
  | value (fault : ValueFault)
  | arithmetic (fault : ArithmeticFault)
  | absence (absence : Universe.Absence)
  | store (fault : StoreFault)
  | said (message : Text)
  | crashed (crash : Crash)
  | emptyStack
  | stackHolds (held required : Nat)
  | nullReference
  | fieldUnreadable (name : Text)
  | fieldReadOnly (name : Text)
  | propertyWriteOnly (name : Text)
  | propertyReadOnly (name : Text)
  | memberNotFound (name : Text) (type : Option Ty)
  | memberAmbiguous (name : Text) (type : Option Ty)
  | notArray (found : Option Ty)
  | negativeLength (length : Int)
  | lateArguments (found : Option Ty)
  | notBoolean (shown : Text) (found : Option Ty)
  | nullUnboxed (target : Ty)
  | invalidCast (found : Option Ty) (target : Ty)
  | outsideHandler
  | stateKey (found : Option Ty)
  | notState (representation : Text)
  | unknownCode (code : UInt8)
  | incomparableText (found : Option Ty)
  | signOfNaN
  | limitExceeded
  | brokenCode
  | cancelled
  | aborted
  | instruction (mnemonic : Text) (position : Nat)
  | callTo (method : Text)
  | argument (number : Nat) (name : Text)
  | methodOn (name : Text) (type : Option Ty)
  | setting (name : Text)
  | loading (name : Text)
  | storing (name : Text)
  | comparing
  deriving Repr, DecidableEq

def RunFault.text (word : Cbor.ReadFault → Text) : RunFault → Text
  | .value fault => fault.text
  | .arithmetic fault => fault.text
  | .absence missing => missing.text
  | .store fault => fault.text word
  | .said message => message
  | .crashed crash => "host panic: " ++ crash.text
  | .emptyStack => "empty stack"
  | .stackHolds held required =>
    Text.join ["stack holds ", Text.decimal held, " values, ", Text.decimal required,
      " required"]
  | .nullReference => "null reference"
  | .fieldUnreadable name => Text.join ["field ", name.inQuotes, " cannot be read"]
  | .fieldReadOnly name => Text.join ["field ", name.inQuotes, " is read-only"]
  | .propertyWriteOnly name => Text.join ["property ", name.inQuotes, " is write-only"]
  | .propertyReadOnly name => Text.join ["property ", name.inQuotes, " is read-only"]
  | .memberNotFound name type =>
    Text.join ["member ", name.inQuotes, " not found on ", Ty.optionText type]
  | .memberAmbiguous name type =>
    Text.join ["member ", name.inQuotes, " is ambiguous on ", Ty.optionText type]
  | .notArray found => Text.join ["value of type ", Ty.optionText found, " is not an array"]
  | .negativeLength length => "negative array length " ++ Text.integer length
  | .lateArguments found =>
    "late call arguments must be an array, found " ++ Ty.optionText found
  | .notBoolean shown found =>
    Text.join ["not a boolean value ", shown.inQuotes, " of type ",
      (Ty.optionText found).inQuotes]
  | .nullUnboxed target => "null reference cannot be converted to " ++ target.text
  | .invalidCast found target =>
    Text.join ["invalid cast from ", Ty.optionText found, " to ", target.text]
  | .outsideHandler => "end of finally handler outside of handler"
  | .stateKey found => "invalid state key of type " ++ Ty.optionText found
  | .notState representation =>
    Text.join ["value of type ", representation, " is not a script state"]
  | .unknownCode code =>
    let digits := Nat.toDigits 16 code.toNat
    "unknown code 0x" ++ digits.map Text.byte
  | .incomparableText found => "cannot compare string with " ++ Ty.optionText found
  | .signOfNaN => "sign of NaN"
  | .limitExceeded => "operation limit exceeded"
  | .brokenCode => "broken code"
  | .cancelled => "context canceled"
  | .aborted => "invocation aborted"
  | .instruction mnemonic position =>
    Text.join [mnemonic, " at ", Text.padded 4 position]
  | .callTo method => "call to " ++ method
  | .argument number name =>
    Text.join ["argument ", Text.decimal number, " of ", name.inQuotes]
  | .methodOn name type =>
    Text.join ["method ", name.inQuotes, " on ", Ty.optionText type]
  | .setting name => "cannot set " ++ name.inQuotes
  | .loading name => "failed to load " ++ name.inQuotes
  | .storing name => "failed to store " ++ name.inQuotes
  | .comparing => "CompareTo"

/-- Failures of a run. -/
abbrev RunFailure := Failure RunFault

/-- What scripts and their host share and change. -/
structure World (H : Type) where
  host : H
  /-- The elements of arrays in row-major order, by address. -/
  arrays : Array (Array Value) := #[]
  store : Store := .empty
  /-- Whether the host still offers the store. -/
  attached : Bool := true
  /-- Whether scripts are given the host at all. -/
  isHosted : Bool := true
  /-- The local variables of ended invocations, by number; those of a running one come later. -/
  frames : Array (Array Value) := #[]
  /-- The numbers that chance gives in turn, as 64-bit floating point patterns. -/
  chance : List Nat := []
  given : Nat := 0

/-- What ends an action early. -/
inductive Trouble where
  | failed (failure : RunFailure)
  | crashed (crash : Crash)
  deriving Repr, DecidableEq

/-- An action in the world of a host. -/
abbrev Act (H : Type) := ExceptT Trouble (StateM (World H))

namespace Act

def fail (fault : RunFault) : Act H α :=
  throw (.failed (.cause fault))

/-- Gives up. -/
def crash (crash : Crash) : Act H α :=
  throw (.crashed crash)

def lift (wrap : ε → RunFault) : Except ε α → Act H α
  | .ok value => pure value
  | .error fault => fail (wrap fault)

/-- Names what was being done when an action fails. -/
def during (context : RunFault) (action : Act H α) : Act H α :=
  fun world =>
    match action world with
    | (.error (.failed failure), after) => (.error (.failed (.within context failure)), after)
    | result => result

end Act

/-- The types of a host and what their members do. -/
structure Host (H : Type) where
  types : Universe
  readField : (label : String) → (receiver : Value) → Act H Value
  writeField : (label : String) → (receiver value : Value) → Act H Unit
  readProperty : (label : String) → (receiver : Value) → (index : List Value) → Act H Value
  writeProperty :
    (label : String) → (receiver : Value) → (index : List Value) → (value : Value) → Act H Unit
  invoke : (label : String) → (receiver : Value) → (arguments : List Value) → Act H Value
  /-- The text of a thing of the host, if it has one of its own. -/
  describe : H → Value → Option Text

namespace World

def elements (world : World H) (reference : ArrayRef) : Array Value :=
  world.arrays.getD reference.address #[]

def textOf (world : World H) (host : Host H) (value : Value) : Text :=
  match value.text? with
  | some text => text
  | none => (host.describe world.host value).getD (Ty.optionText value.typeOf)

/-- The text of a value in messages: the null reference is shown. -/
def shownText (world : World H) (host : Host H) : Value → Text
  | .null => "<nil>"
  | value => world.textOf host value

/-- The number that chance gives next: those given to the world in turn, else a half. -/
def draw (world : World H) : Nat × World H :=
  let next := world.chance.getD (world.given % world.chance.length) 0x3fe0000000000000
  (next, { world with given := world.given + 1 })

end World

namespace ArrayRef

/-- A product in the 64-bit integers that count elements: what is too large wraps. -/
def wrapped (product : Int) : Int :=
  (BitVec.ofInt 64 product).toInt

/-- The count of elements in an array of some dimensions. -/
def count : List Nat → Int
  | [] => 1
  | first :: rest =>
    rest.foldl (fun (product : Int) (bound : Nat) => wrapped (product * bound)) first

/-- The most elements that an array can have: each takes 16 of `2 ^ 48` bytes. -/
def most : Nat :=
  Nat.pow 2 44

/-- The place of an element, row after row. -/
def offsetFrom : (offset : Int) → (dimensions : List Nat) → (index : List Int) →
    Except ValueFault Int
  | offset, bound :: dimensions, i :: index =>
    if i < 0 ∨ (bound : Int) ≤ i then .error (.indexRange i bound)
    else offsetFrom (wrapped (offset * bound) + i) dimensions index
  | offset, _, _ => .ok offset

def offset (reference : ArrayRef) (index : List Int) : Except ValueFault Int :=
  if index.length = reference.dimensions.length then offsetFrom 0 reference.dimensions index
  else .error (.rankMismatch reference.dimensions.length index.length)

def size (reference : ArrayRef) : Nat :=
  (count reference.dimensions).toNat

end ArrayRef

namespace Act

def newArrayOf (element : Ty) (dimensions : List Nat) (elements : Array Value) :
    Act H ArrayRef := do
  let world ← get
  set { world with arrays := world.arrays.push elements }
  return { element, dimensions, address := world.arrays.size }

/-- Makes an array of defaults; a count below zero, or of more than can be had, is given up. -/
def newArray (element : Ty) (dimensions : List Nat) : Act H ArrayRef :=
  let count := ArrayRef.count dimensions
  if count < 0 ∨ (ArrayRef.most : Int) < count then crash .outOfRange
  else newArrayOf element dimensions (Array.replicate count.toNat (Value.default element))

/-- Makes an array with given elements; one that cannot be adapted leaves the default. -/
def newArrayWith (types : Universe) (element : Ty) (dimensions : List Nat)
    (given : List Value) : Act H ArrayRef :=
  let fallback := Value.default element
  let adapted := given.map fun value => (types.coerce value element).toOption.getD fallback
  let size := (ArrayRef.count dimensions).toNat
  newArrayOf element dimensions
    (adapted ++ List.replicate (size - adapted.length) fallback |>.take size).toArray

/-- The place of an element among those that there are. -/
def position (reference : ArrayRef) (offset : Int) : Act H Nat := do
  let world ← get
  if 0 ≤ offset ∧ offset < (world.elements reference).size then return offset.toNat
  else crash .outOfRange

def loadElement (reference : ArrayRef) (index : List Int) : Act H Value := do
  let place ← position reference (← lift .value (reference.offset index))
  let world ← get
  return (world.elements reference).getD place .null

def storeElement (types : Universe) (reference : ArrayRef) (index : List Int) (value : Value) :
    Act H Unit := do
  let offset ← lift .value (reference.offset index)
  let adapted ← lift .value (types.coerce value reference.element)
  let place ← position reference offset
  modify fun world =>
    { world with
      arrays := world.arrays.modify reference.address fun elements =>
        elements.setIfInBounds place adapted }

end Act

end HostScript

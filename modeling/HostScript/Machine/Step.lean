import HostScript.Code.Op
import HostScript.Machine.Library

/-!
# The machine

The machine works on a stack of values and on local variables.
-/

namespace HostScript

/-- An entered protected region; it reaches from its start up to its handler. -/
structure Region where
  start : Nat
  handler : Nat
  deriving Repr, DecidableEq

def Region.contains (region : Region) (position : Nat) : Bool :=
  region.start ≤ position && position < region.handler

/-- What a running handler resumes when it ends. -/
inductive Resumption where
  | jump (target : Nat)
  | failure (failure : RunFailure)
  deriving Repr, DecidableEq

/-- A running handler: what it resumes and how many regions were entered around it. -/
structure Completion where
  resumption : Resumption
  depth : Nat
  deriving Repr, DecidableEq

/-- The state of an invocation. -/
structure Frame where
  /-- The number that addresses of the local variables know the invocation by. -/
  number : Nat := 0
  locals : Array Value
  stack : List Value := []
  regions : List Region := []
  /-- Running handlers, the innermost first. -/
  completions : List Completion := []
  next : Nat := 0
  position : Nat := 0
  /-- The count of instructions begun. -/
  operations : Nat := 0
  deriving Repr, DecidableEq

/-- A frame and a world: what a step starts from and ends with, also when it fails. -/
structure Configuration (H : Type) where
  frame : Frame
  world : World H

/-- Instructions change the frame and the world together, and keep both when they fail. -/
abbrev Step (H : Type) := ExceptT Trouble (StateM (Configuration H))

namespace Step

def fail (fault : RunFault) : Step H α :=
  throw (.failed (.cause fault))

def lift (wrap : ε → RunFault) : Except ε α → Step H α
  | .ok value => pure value
  | .error fault => fail (wrap fault)

def act (action : Act H α) : Step H α :=
  fun configuration =>
    let (result, world) := action configuration.world
    (result, { configuration with world })

def frame : Step H Frame := do
  return (← get).frame

def modifyFrame (change : Frame → Frame) : Step H Unit :=
  modify fun configuration => { configuration with frame := change configuration.frame }

def push (value : Value) : Step H Unit :=
  modifyFrame fun frame => { frame with stack := value :: frame.stack }

def peek : Step H Value := do
  match (← frame).stack with
  | [] => fail .emptyStack
  | value :: _ => return value

def pop : Step H Value := do
  match (← frame).stack with
  | [] => fail .emptyStack
  | value :: rest =>
    modifyFrame fun frame => { frame with stack := rest }
    return value

def popMany (count : Nat) : Step H (List Value) := do
  let stack := (← frame).stack
  if stack.length < count then fail (.stackHolds stack.length count)
  else
    modifyFrame fun frame => { frame with stack := stack.drop count }
    return (stack.take count).reverse

def operand (program : Program) : Step H Nat := do
  let next := (← frame).next
  match program.word? next with
  | none => throw (.crashed .outOfRange)
  | some n =>
    modifyFrame fun frame => { frame with next := next + 2 }
    return n

def entry (program : Program) (pool : Array α) : Step H α := do
  let index ← operand program
  match pool[index]? with
  | some found => return found
  | none => throw (.crashed .outOfRange)

def dereference (value : Value) : Step H Value := do
  match value with
  | .address reference =>
    let configuration ← get
    let locals :=
      if reference.frame = configuration.frame.number then configuration.frame.locals
      else configuration.world.frames.getD reference.frame #[]
    return locals.getD reference.slot .null
  | value => return value

/-- Takes the target of a member access. -/
def receiver : Step H Value := do
  let value ← dereference (← pop)
  if value = .null then fail .nullReference else return value

/-- Takes a boolean; `shown` gives the text of any other value. -/
def popBoolean (host : Host H) : Step H Bool := do
  match ← pop with
  | .bool value => return value
  | value =>
    let world := (← get).world
    fail (.notBoolean (world.shownText host value) value.typeOf)

def element (rank : Nat) : Step H (ArrayRef × List Int) := do
  let values ← popMany rank
  let index ← values.mapM fun value => lift .value value.toIndex
  match ← receiver with
  | .array reference => return (reference, index)
  | value => fail (.notArray value.typeOf)

def representationText : Value → Text
  | .float .single _ => "float32"
  | .float .double _ => "float64"
  | .type _ => "*types.Type"
  | .array _ => "*types.Array"
  | .address _ => "*vm.ref"
  | value => Ty.optionText value.typeOf

/-- Takes a name and says whether a store stands below it. -/
def stateReference : Step H (Text × Bool) := do
  match ← pop with
  | .string name =>
    match ← pop with
    | .null => return (name, false)
    | .state => return (name, true)
    | value => fail (.notState (representationText value))
  | value => fail (.stateKey value.typeOf)

def leave (target : Nat) : Step H Unit :=
  modifyFrame fun frame =>
    match frame.regions with
    | region :: outer =>
      if region.contains target then { frame with next := target }
      else
        { frame with
          regions := outer
          completions :=
            { resumption := .jump target, depth := outer.length } :: frame.completions
          next := region.handler }
    | [] => { frame with next := target }

def endFinally : Step H Unit := do
  match (← frame).completions with
  | [] => fail .outsideHandler
  | completion :: rest =>
    modifyFrame fun frame => { frame with completions := rest }
    match completion.resumption with
    | .failure failure => throw (.failed failure)
    | .jump target => leave target

def binary (operation : Value → Value → Except ArithmeticFault Value) : Step H Unit := do
  let right ← pop
  let left ← pop
  push (← lift .arithmetic (operation left right))

/-- Reads a persistent variable. -/
def stateGet (host : Host H) (type : Ty) : Step H Unit := do
  let (name, isThere) ← stateReference
  if isThere then
    match (← get).world.store.value host.types name type with
    | .ok value => push value
    | .error failure => throw (.failed (.within (.loading name) (failure.map .store)))
  else push (Value.default type)

/-- Writes a persistent variable. -/
def stateSet : Step H Unit := do
  let value ← pop
  let (name, isThere) ← stateReference
  if isThere then
    match (← get).world.store.put name value with
    | .ok store =>
      modify fun configuration =>
        { configuration with world := { configuration.world with store } }
    | .error failure => throw (.failed (.within (.storing name) (failure.map .store)))

def newArray (element : Ty) : Step H Unit := do
  let length ← lift .value (← pop).toIndex
  if length < 0 then fail (.negativeLength length)
  else push (.array (← act (Act.newArray element [length.toNat])))

def call (host : Host H) (method : Method) (onReceiver : Bool) : Step H Unit := do
  let arguments ← popMany method.params.length
  let target ← if onReceiver then receiver else pure .null
  let result ← act (host.call method target arguments)
  if method.returnsValue then push result

def getProperty (host : Host H) (property : Property) (onReceiver : Bool) : Step H Unit := do
  let index ← popMany property.params.length
  let target ← if onReceiver then receiver else pure .null
  push (← act (host.getProperty property target index))

def setProperty (host : Host H) (property : Property) (onReceiver : Bool) : Step H Unit := do
  let value ← pop
  let index ← popMany property.params.length
  let target ← if onReceiver then receiver else pure .null
  act (host.setProperty property target index value)

def lateCall (host : Host H) (name : Text) : Step H Unit := do
  let arguments ← pop
  let target ← receiver
  match arguments with
  | .array list => push (← act (host.lateCall target name list))
  | value => fail (.lateArguments value.typeOf)

/-- Takes a value out of its box: it has to be of exactly the type. -/
def unbox (type : Ty) : Step H Unit := do
  let value ← pop
  if value = .null then fail (.nullUnboxed type)
  else if value.typeOf = some type then push value
  else fail (.invalidCast value.typeOf type)

def castClass (host : Host H) (type : Ty) : Step H Unit := do
  let value ← peek
  if value = .null || host.types.isAssignableFrom type value.typeOf then return ()
  else fail (.invalidCast value.typeOf type)

def jumpIf (host : Host H) (wanted : Bool) (target : Nat) : Step H Unit := do
  let value ← popBoolean host
  if value = wanted then modifyFrame fun frame => { frame with next := target }

/-- Performs an operation; the answer says whether the invocation ends. -/
def perform (host : Host H) (program : Program) : Op → Step H Bool
  | .nop => return false
  | .push => do
    push (← entry program program.constants)
    return false
  | .pushNull => do
    push .null
    return false
  | .pop => do
    let _ ← pop
    return false
  | .dup => do
    push (← peek)
    return false
  | .loadHost => do
    push (if (← get).world.isHosted then .host else .null)
    return false
  | .loadLocal => do
    push (← entry program (← frame).locals)
    return false
  | .storeLocal => do
    let value ← pop
    let slot ← operand program
    if slot < (← frame).locals.size then
      modifyFrame fun frame => { frame with locals := frame.locals.setIfInBounds slot value }
      return false
    else throw (.crashed .outOfRange)
  | .loadLocalAddress => do
    let slot ← operand program
    let configuration ← get
    if slot < configuration.frame.locals.size then
      push (.address
        { frame := configuration.frame.number, slot,
          stamp := configuration.frame.operations })
      return false
    else throw (.crashed .outOfRange)
  | .loadField => do
    let field ← entry program program.fields
    push (← act (host.loadField field (← receiver)))
    return false
  | .loadStaticField => do
    let field ← entry program program.fields
    push (← act (host.loadField field .null))
    return false
  | .storeField => do
    let field ← entry program program.fields
    let value ← pop
    act (host.storeField field (← receiver) value)
    return false
  | .storeStaticField => do
    let field ← entry program program.fields
    let value ← pop
    act (host.storeField field .null value)
    return false
  | .getProperty => do
    getProperty host (← entry program program.properties) true
    return false
  | .getStaticProperty => do
    getProperty host (← entry program program.properties) false
    return false
  | .setProperty => do
    setProperty host (← entry program program.properties) true
    return false
  | .setStaticProperty => do
    setProperty host (← entry program program.properties) false
    return false
  | .call => do
    call host (← entry program program.methods) false
    return false
  | .callVirtual => do
    call host (← entry program program.methods) true
    return false
  | .loadElement => do
    let (reference, index) ← element (← operand program)
    push (← act (Act.loadElement reference index))
    return false
  | .storeElement => do
    let rank ← operand program
    let value ← pop
    let (reference, index) ← element rank
    act (Act.storeElement host.types reference index value)
    return false
  | .newArray => do
    newArray (← entry program program.types)
    return false
  | .lateGet => do
    let name ← entry program program.names
    push (← act (host.lateGet (← receiver) name))
    return false
  | .lateSet => do
    let name ← entry program program.names
    let value ← pop
    act (host.lateSet (← receiver) name value)
    return false
  | .lateCall => do
    lateCall host (← entry program program.names)
    return false
  | .add => do
    binary (Arith.apply .add)
    return false
  | .subtract => do
    binary (Arith.apply .subtract)
    return false
  | .multiply => do
    binary (Arith.apply .multiply)
    return false
  | .divide => do
    binary (Arith.apply .divide)
    return false
  | .remainder => do
    binary (Arith.apply .remainder)
    return false
  | .bitAnd => do
    binary (Arith.apply .bitAnd)
    return false
  | .bitOr => do
    binary (Arith.apply .bitOr)
    return false
  | .equal => do
    binary fun left right => .ok (.bool (left.equals right))
    return false
  | .greater => do
    binary fun left right => do return .bool ((← left.order right) == .gt)
    return false
  | .less => do
    binary fun left right => do return .bool ((← left.order right) == .lt)
    return false
  | .negate => do
    push (← lift .arithmetic (← pop).negated)
    return false
  | .complement => do
    push (.bool !(← popBoolean host))
    return false
  | .convert => do
    let kind ← operand program
    let value ← dereference (← pop)
    push (← lift .value (value.convertToKind (kind % 256)))
    return false
  | .box => do
    let _ ← operand program
    return false
  | .unbox => do
    unbox (← entry program program.types)
    return false
  | .castClass => do
    castClass host (← entry program program.types)
    return false
  | .jump => do
    let target ← operand program
    modifyFrame fun frame => { frame with next := target }
    return false
  | .jumpIfTrue => do
    jumpIf host true (← operand program)
    return false
  | .jumpIfFalse => do
    jumpIf host false (← operand program)
    return false
  | .tryRegion => do
    let handler ← operand program
    modifyFrame fun frame =>
      { frame with regions := { start := frame.next, handler } :: frame.regions }
    return false
  | .leave => do
    leave (← operand program)
    return false
  | .endFinally => do
    endFinally
    return false
  | .stateGet => do
    stateGet host (← entry program program.types)
    return false
  | .stateSet => do
    stateSet
    return false
  | .ret => return true

def performByte (host : Host H) (program : Program) (byte : UInt8) : Step H Bool :=
  match Op.ofCode? byte with
  | some op => perform host program op
  | none => fail (.unknownCode byte)

end Step

end HostScript

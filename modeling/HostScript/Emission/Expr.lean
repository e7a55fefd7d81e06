import HostScript.Typed.Basic

/-!
# Code of expressions

The code of an expression leaves its value on the stack; the code of a call without result
leaves nothing.
-/

namespace HostScript.Emission

/-- A local variable: its slot and type. -/
structure Scratch where
  slot : Nat
  type : Ty
  deriving Repr, DecidableEq

/-- What was written, and what it is numbered by. -/
structure Draft where
  directives : List Directive := []
  nextLabel : Nat := 0
  nextSlot : Nat := 0
  /-- Local variables that may be used again, in the order they were given back. -/
  free : List Scratch := []

/-- Writing a part of a program. -/
abbrev Emitter := StateT Draft (Except CompileFailure)

def fail (offset : Nat) (fault : CompileFault) : Emitter α :=
  throw (semantic offset fault)

/-- Writes a directive; those that define labels or local variables are counted. -/
def write (directive : Directive) : Emitter Unit :=
  modify fun draft =>
    { draft with
      directives := directive :: draft.directives
      nextLabel :=
        match directive with
        | .defineLabel => draft.nextLabel + 1
        | .beginTry => draft.nextLabel + 2
        | _ => draft.nextLabel
      nextSlot :=
        match directive with
        | .declareLocal _ => draft.nextSlot + 1
        | _ => draft.nextSlot }

/-- Writes an operation without operand. -/
def plain (op : Op) : Emitter Unit :=
  write (.plain op)

def newLabel : Emitter Nat := do
  let label := (← get).nextLabel
  write .defineLabel
  return label

def newLocal (type : Ty) : Emitter Scratch := do
  let slot := (← get).nextSlot
  write (.declareLocal type)
  return { slot, type }

/-- Takes a local variable of a type; one only needed for the next instruction stays free. -/
def checkOut (type : Ty) (isTemporary : Bool) : Emitter Scratch := do
  let draft ← get
  match draft.free.find? fun scratch => scratch.type == type with
  | some scratch =>
    if !isTemporary then
      set { draft with free := draft.free.eraseP fun other => other.type == type }
    return scratch
  | none =>
    let scratch ← newLocal type
    if isTemporary then
      modify fun draft => { draft with free := draft.free ++ [scratch] }
    return scratch

/-- Gives a local variable back. -/
def checkIn (scratch : Scratch) : Emitter Unit :=
  modify fun draft => { draft with free := draft.free ++ [scratch] }

def onSlot (op : Op) (slot : Nat) : Emitter Unit :=
  write (.slot op slot)

end HostScript.Emission

namespace HostScript

def Literal.value : Literal → Value
  | .integer value => .int .int32 value
  | .float bits => .float .single bits
  | .string value => .string value
  | .boolean value => .bool value
  | .null => .null

def Operator.arithmetic? : Operator → Option Op
  | .add => some .add
  | .subtract => some .subtract
  | .multiply => some .multiply
  | .divide => some .divide
  | .modulo => some .remainder
  | .bitAnd => some .bitAnd
  | .bitOr => some .bitOr
  | _ => none

def Method.callOp (method : Method) : Op :=
  if method.isStatic then .call else .callVirtual

namespace Emission

open Typed (Expr Piece)

def operatorCode (offset : Nat) (op : Operator) : Emitter Unit :=
  match op.arithmetic? with
  | some operation => plain operation
  | none =>
    match op with
    | .equal => plain .equal
    | .notEqual => do
      plain .equal
      plain .complement
    | .less => plain .less
    | .greater => plain .greater
    | .lessEqual => do
      plain .greater
      plain .complement
    | .greaterEqual => do
      plain .less
      plain .complement
    | _ => fail offset (.notBinary op)

def castCode (types : Universe) (source target : Ty) : Emitter Unit :=
  if source.isValue && target.isReference then write (.type Op.box source)
  else if source.isReference && target.isValue then write (.type Op.unbox target)
  else if source.isReference then
    if types.isAssignable target source then return ()
    else write (.type Op.castClass target)
  else write (.convert (types.kind target).number)

def fieldCode (field : Field) : Emitter Unit := do
  match field.literal with
  | some value => write (.constant value)
  | none =>
    if field.shared then write (.field Op.loadStaticField field)
    else
      plain .loadHost
      write (.field Op.loadField field)

def referenceCode (offset : Nat) (name : Text) : Option Symbol → Emitter Unit
  | some (.variable declared) => onSlot .loadLocal declared.slot
  | some (.field _ field) => fieldCode field
  | _ => fail offset (.notVariable name)

def localVariable? : Expr → Option Variable
  | .reference _ _ (some (.variable declared)) => some declared
  | _ => none

/-- Writes the code of the receiver of an instance member. A value is passed by the address of a
local variable, which is to be given back unless `isImmediate`: the member follows at once. -/
def receiver (target : Expr) (code : Emitter Unit) (isImmediate : Bool) :
    Emitter (Option Scratch) := do
  if !target.type.isValue then
    code
    return none
  else
    match localVariable? target with
    | some declared =>
      onSlot .loadLocalAddress declared.slot
      return none
    | none =>
      code
      let scratch ← checkOut target.type isImmediate
      onSlot .storeLocal scratch.slot
      onSlot .loadLocalAddress scratch.slot
      return if isImmediate then none else some scratch

def memberCode (name : Ident) (member : DataMember) : Emitter Unit :=
  match member with
  | .field field =>
    write (.field (if field.isStatic then Op.loadStaticField else Op.loadField) field)
  | .property property =>
    if property.canRead then
      write (.property (if property.isStatic then Op.getStaticProperty else Op.getProperty)
        property)
    else fail name.offset (.propertyWriteOnly property.name)

def indexCode (rank : Nat) : Option Property → Emitter Unit
  | none => write (.rank Op.loadElement rank)
  | some indexer =>
    write (.property (if indexer.isStatic then Op.getStaticProperty else Op.getProperty) indexer)

/-- What the pieces of an expansion know by number. -/
structure Bench where
  slots : Array Scratch := #[]
  labels : Array Nat := #[]

def duringExpansion (offset : Nat) (name : Text) (action : Emitter Unit) : Emitter Unit :=
  fun draft =>
    match action draft with
    | .ok result => .ok result
    | .error failure => .error (failure.classifyUnless .semantic offset (.expanding name))

mutual

def expression (types : Universe) : Expr → Emitter Unit
  | .literal _ value => write (.constant value.value)
  | .reference offset name symbol => referenceCode offset name symbol
  | .operator offset op left right overload _ => do
    match overload with
    | some method =>
      expression types left
      expression types right
      write (.method Op.call method)
    | none =>
      if op = .both ∨ op = .either then
        let short ← newLabel
        let exit ← newLabel
        expression types left
        write (.jump (if op = .either then Op.jumpIfTrue else Op.jumpIfFalse) short)
        expression types right
        write (.jump Op.jump exit)
        write (.mark short)
        write (.constant (.bool (op = .either)))
        write (.mark exit)
      else
        expression types left
        expression types right
        operatorCode offset op
  | .unary _ op operand _ => do
    expression types operand
    plain (if op = .negate then .negate else .complement)
  | .conditional _ condition yes no _ => do
    let chosen ← newLabel
    let exit ← newLabel
    expression types condition
    write (.jump Op.jumpIfTrue chosen)
    expression types no
    write (.jump Op.jump exit)
    write (.mark chosen)
    expression types yes
    write (.mark exit)
  | .cast _ _ target operand => do
    expression types operand
    castCode types operand.type target
  | .call _ _ method arguments => do
    if !method.isStatic then plain .loadHost
    expressions types arguments
    write (.method method.callOp method)
  | .expansion offset name _ _ pieces => do
    duringExpansion offset name.name (expandPieces types {} pieces)
  | .invocation _ target _ arguments method => do
    if method.isStatic then
      expressions types arguments
      write (.method Op.call method)
    else
      let held ← receiver target (expression types target) arguments.isEmpty
      expressions types arguments
      write (.method Op.callVirtual method)
      if let some scratch := held then checkIn scratch
  | .lateInvocation _ target name arguments => do
    let list ← checkOut (.array .object 1) false
    write (.constant (Value.int32 arguments.length))
    write (.type Op.newArray .object)
    onSlot .storeLocal list.slot
    elements types list.slot 0 arguments
    expression types target
    onSlot .loadLocal list.slot
    write (.name Op.lateCall name.name)
    checkIn list
  | .property _ target name member => do
    match member with
    | .field { literal := some value, .. } => write (.constant value)
    | _ =>
      if !member.isStatic then
        let _ ← receiver target (expression types target) true
      memberCode name member
  | .lateProperty _ target name => do
    expression types target
    write (.name Op.lateGet name.name)
  | .index offset target indices indexer _ => do
    match indexer with
    | some property =>
      if !property.canRead then fail offset .indexerWriteOnly
      if !property.isStatic then expression types target
    | none => expression types target
    expressions types indices
    indexCode indices.length indexer

def expressions (types : Universe) : List Expr → Emitter Unit
  | [] => return ()
  | first :: rest => do
    expression types first
    expressions types rest

def elements (types : Universe) (slot : Nat) (index : Nat) : List Expr → Emitter Unit
  | [] => return ()
  | first :: rest => do
    onSlot .loadLocal slot
    write (.constant (Value.int32 index))
    expression types first
    write (.rank Op.storeElement 1)
    elements types slot (index + 1) rest

def expandPieces (types : Universe) (bench : Bench) : List Piece → Emitter Unit
  | [] => return ()
  | piece :: rest => do
    let next ← expandPiece types bench piece
    expandPieces types next rest

def expandPiece (types : Universe) (bench : Bench) : Piece → Emitter Bench
  | .value given => do
    expression types given
    return bench
  | .code directive => do
    write directive
    return bench
  | .reserve type => do
    let scratch ← checkOut type false
    return { bench with slots := bench.slots.push scratch }
  | .release number => do
    if let some scratch := bench.slots[number]? then checkIn scratch
    return bench
  | .slot op number => do
    if let some scratch := bench.slots[number]? then onSlot op scratch.slot
    return bench
  | .label => do
    let label ← newLabel
    return { bench with labels := bench.labels.push label }
  | .mark number => do
    if let some label := bench.labels[number]? then write (.mark label)
    return bench
  | .jump op number => do
    if let some label := bench.labels[number]? then write (.jump op label)
    return bench
  | .fail failure => throw failure

end

end Emission

end HostScript

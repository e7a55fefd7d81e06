import HostScript.Emission.Expr

/-!
# Code of statements and scripts

Around the body of a script stands the code that reads the persistent variables
before it and writes them after it, on every way out: the body is a protected region
and the writing is its handler.
-/

namespace HostScript.Emission

open Typed (Expr)

/-- The labels of a loop. -/
structure Loop where
  start : Nat
  exit : Nat

/-- What the code of a statement needs to know of what surrounds it. -/
structure Surroundings where
  types : Universe
  loops : List Loop := []
  exit : Nat

def storeReference (types : Universe) (offset : Nat) (name : Text) (value : Expr) :
    Option Symbol → Emitter Unit
  | some (.variable declared) => do
    expression types value
    onSlot .storeLocal declared.slot
  | some (.field _ field) => do
    if !field.canWrite then fail offset (.fieldReadOnly field.name)
    else if field.shared then
      expression types value
      write (.field Op.storeStaticField field)
    else
      plain .loadHost
      expression types value
      write (.field Op.storeField field)
  | _ => fail offset (.cannotAssign name)

def memberStoreCode : DataMember → Emitter Unit
  | .field field =>
    write (.field (if field.isStatic then Op.storeStaticField else Op.storeField) field)
  | .property property =>
    write (.property (if property.isStatic then Op.setStaticProperty else Op.setProperty)
      property)

def storeMember (types : Universe) (target : Expr) (name : Ident) (member : DataMember)
    (value : Expr) : Emitter Unit := do
  if !member.canWrite then fail name.offset (.memberReadOnly name.name)
  else
    let held ←
      if member.isStatic then pure none
      else receiver target (expression types target) false
    expression types value
    memberStoreCode member
    if let some scratch := held then checkIn scratch

def storeIndexed (types : Universe) (offset : Nat) (target : Expr) (indices : List Expr)
    (indexer : Option Property) (value : Expr) : Emitter Unit := do
  match indexer with
  | some property =>
    if !property.canWrite then fail offset .indexerReadOnly
    if !property.isStatic then expression types target
  | none => expression types target
  expressions types indices
  expression types value
  match indexer with
  | none => write (.rank Op.storeElement indices.length)
  | some property =>
    write (.property (if property.isStatic then Op.setStaticProperty else Op.setProperty)
      property)

/-- Writes an assignment. -/
def store (types : Universe) (target value : Expr) : Emitter Unit :=
  match target with
  | .reference offset name symbol => storeReference types offset name value symbol
  | .property _ owner name member => storeMember types owner name member value
  | .lateProperty _ owner name => do
    expression types owner
    expression types value
    write (.name Op.lateSet name.name)
  | .index offset owner indices indexer _ => storeIndexed types offset owner indices indexer value
  | other => fail other.offset .invalidTarget

/-- Whether a call leaves a value; a call by name always does. -/
def leavesValue : Expr → Bool
  | .lateInvocation _ _ _ _ => true
  | call => call.type != .void

mutual

def statement (around : Surroundings) : Typed.Statement → Emitter Unit
  | .block body => block around body
  | .assignment _ target value => store around.types target value
  | .declaration _ _ _ declared value => do
    expression around.types value
    onSlot .storeLocal declared.slot
  | .persistent _ _ _ _ => return ()
  | .ifThen _ condition yes => do
    let exit ← newLabel
    expression around.types condition
    write (.jump Op.jumpIfFalse exit)
    block around yes
    write (.mark exit)
  | .ifElse _ condition yes no => do
    let other ← newLabel
    let exit ← newLabel
    expression around.types condition
    write (.jump Op.jumpIfFalse other)
    block around yes
    write (.jump Op.jump exit)
    write (.mark other)
    block around no
    write (.mark exit)
  | .whileLoop _ condition body => do
    let start ← newLabel
    let exit ← newLabel
    write (.mark start)
    expression around.types condition
    write (.jump Op.jumpIfFalse exit)
    block { around with loops := { start, exit } :: around.loops } body
    write (.jump Op.jump start)
    write (.mark exit)
  | .breakLoop offset =>
    match around.loops with
    | [] => fail offset .notInLoop
    | loop :: _ => write (.jump Op.jump loop.exit)
  | .continueLoop offset =>
    match around.loops with
    | [] => fail offset .notInLoop
    | loop :: _ => write (.jump Op.jump loop.start)
  | .leave _ => write (.jump Op.leave around.exit)
  | .callStatement _ call => do
    expression around.types call
    if call.type != .void then plain .pop
  | .invocationStatement _ call => do
    expression around.types call
    if leavesValue call then plain .pop

def block (around : Surroundings) : Typed.Block → Emitter Unit
  | .mk _ _ body => statements around body

def statements (around : Surroundings) : List Typed.Statement → Emitter Unit
  | [] => return ()
  | first :: rest => do
    statement around first
    statements around rest

end

def loadPersistent (stateSlot : Nat) (declared : Variable) : Emitter Unit := do
  onSlot .loadLocal stateSlot
  write (.constant (.string declared.name))
  write (.type Op.stateGet declared.type)
  onSlot .storeLocal declared.slot

def savePersistent (stateSlot : Nat) (declared : Variable) : Emitter Unit := do
  onSlot .loadLocal stateSlot
  write (.constant (.string declared.name))
  onSlot .loadLocal declared.slot
  if declared.type.isValue then write (.type Op.box declared.type)
  plain .stateSet

def script (types : Universe) (state : Option Field) (analysed : Typed.Script) :
    Emitter Unit := do
  for type in analysed.locals do
    write (.declareLocal type)
  let exit ← newLabel
  match state with
  | none => block { types, exit } analysed.body
  | some field =>
    let held ← newLocal .scriptState
    plain .loadHost
    write (.field Op.loadField field)
    onSlot .storeLocal held.slot
    for declared in analysed.persistent do
      loadPersistent held.slot declared
    write .beginTry
    block { types, exit } analysed.body
    write .beginFinally
    for declared in analysed.persistent do
      savePersistent held.slot declared
    write .endTry
  write (.mark exit)
  plain .ret

def directives (types : Universe) (state : Option Field) (analysed : Typed.Script) :
    Except CompileFailure (List Directive) := do
  let ((), draft) ← script types state analysed {}
  return draft.directives.reverse

end HostScript.Emission

namespace HostScript.Dialect

def program (dialect : Dialect) (analysed : Typed.Script) : Except CompileFailure Program := do
  let directives ← Emission.directives dialect.types dialect.binding.state analysed
  match Assembly.assemble directives with
  | .ok program => return program
  | .error fault => .error (.within .building (.cause (.assembly fault)))

end HostScript.Dialect

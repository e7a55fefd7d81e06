import HostScript.Analysis.Cast

/-!
# Resolution of names

Analysis walks the tree once, in the order of the source.
-/

namespace HostScript.Analysis

open Typed (Expr)

/-- What analysis has found so far. -/
structure Progress where
  scopes : Scopes
  locals : Array Ty := #[]
  persistent : List Variable := []

/-- Analysis of a part of a tree. -/
abbrev Analyzer := StateT Progress (Except CompileFailure)

def fail (offset : Nat) (fault : CompileFault) : Analyzer α :=
  throw (semantic offset fault)

def lookup (name : Text) : Analyzer (Option Symbol) := do
  return (← get).scopes.find? name

def takeSlot (type : Ty) : Analyzer Nat := do
  let progress ← get
  set { progress with locals := progress.locals.push type }
  return progress.locals.size

def lookupType (name : Ident) : Analyzer Ty := do
  match ← lookup name.name with
  | some (.typeName _ type) => return type
  | some _ => fail name.offset (.notType name.name)
  | none => fail name.offset (.unknownType name.name)

def addVariable (add : Scopes → Symbol → Except SymbolFault Scopes) (offset : Nat)
    (declared : Variable) : Analyzer Unit := do
  let progress ← get
  match add progress.scopes (.variable declared) with
  | .ok scopes =>
    let persistent :=
      if declared.isPersistent then progress.persistent ++ [declared] else progress.persistent
    set { progress with scopes, persistent }
  | .error fault =>
    throw (.classified .semantic offset (.within .declaring (.cause (.symbol fault))))

def declare (name : Ident) (type : Ty) (isPersistent : Bool) : Analyzer Variable := do
  if (← lookup name.name).isSome then fail name.offset (.previouslyDeclared name.name)
  else
    let declared : Variable := { name := name.name, type, slot := ← takeSlot type, isPersistent }
    addVariable Scopes.declare name.offset declared
    return declared

def declareAssigned (offset : Nat) (name : Text) : Analyzer Symbol := do
  let declared : Variable :=
    { name, type := .single, slot := ← takeSlot .single, isPersistent := true }
  addVariable Scopes.declareGlobal offset declared
  return .variable declared

def resolved (offset : Nat) (name : Text) (symbol : Symbol) : Analyzer Expr :=
  match symbol with
  | .variable _ | .field _ _ => return .reference offset name (some symbol)
  | _ => fail offset (.notVariableInExpression name)

def assigned (offset : Nat) (name : Text) : Analyzer Expr := do
  match ← lookup name with
  | some symbol => resolved offset name symbol
  | none => resolved offset name (← declareAssigned offset name)

def reference (offset : Nat) (name : Text) : Analyzer Expr := do
  match ← lookup name with
  | some symbol => resolved offset name symbol
  | none => fail offset (.undeclared name)

/-- An expression whose type is needed and not known: its parts are written, then the program ends.
-/
def missing (offset : Nat) (type : Ty) (parts : List Expr) : Expr :=
  .expansion offset { name := [], offset } { result := type, key := "" } parts
    (parts.map .value ++ [.fail (semantic offset .missingType)])

mutual

/-- An expression that is taken as it is: no name or call in it is resolved, and only literals and
conversions have types that a conversion can start from. -/
def final : Tree.Expr → Expr
  | .literal offset value => .literal offset value
  | .reference offset name => .reference offset name none
  | .operator offset op left right => .operator offset op (final left) (final right) none .void
  | .unary offset op operand => .unary offset op (final operand) .void
  | .conditional offset condition yes no =>
    .conditional offset (final condition) (final yes) (final no) .void
  | .cast offset _ operand => missing offset .void [final operand]
  | .conversion type operand =>
    if operand.hasType then .cast operand.offset none type (final operand)
    else missing operand.offset type [final operand]
  | .call offset name arguments =>
    .expansion offset name { result := .void, key := "" } (finals arguments)
      [.fail (semantic offset (.notMethod name.name))]
  | .invocation offset _ _ _ | .property offset _ _ => missing offset .void []
  | .lateInvocation offset target name arguments =>
    .lateInvocation offset (final target) name (finals arguments)
  | .lateProperty offset target name => .lateProperty offset (final target) name
  | .index offset target indices => .index offset (final target) (finals indices) none .void

/-- Expressions that are taken as they are. -/
def finals : List Tree.Expr → List Expr
  | [] => []
  | first :: rest => final first :: finals rest

end

def castAll (types : Universe) : List Expr → List Ty → Except CompileFailure (List Expr)
  | argument :: arguments, param :: params => do
    let converted ← castTo types argument param
    let following ← castAll types arguments params
    return converted :: following
  | arguments, _ => .ok arguments

/-- The target of a member access: an analysed value, or the name of a type. -/
structure Target where
  expression : Expr
  type : Ty
  isStatic : Bool

def typeTarget? (expression : Tree.Expr) : Analyzer (Option Target) := do
  match expression with
  | .reference offset name =>
    match ← lookup name with
    | some (.typeName symbolName type) =>
      if type = .void then return none
      else
        let named : Expr := .reference offset name (some (.typeName symbolName type))
        return some { expression := named, type, isStatic := true }
    | _ => return none
  | _ => return none

/-- An analysed value as a target; nothing can be done with `void`. -/
def valueTarget (offset : Nat) (expression : Expr) : Analyzer Target :=
  if expression.type = .void then fail offset .voidMembers
  else return { expression, type := expression.type, isStatic := false }

def invocation (types : Universe) (offset : Nat) (target : Target) (name : Ident)
    (arguments : List Expr) : Analyzer Expr :=
  let candidates := types.methods target.type name.name target.isStatic
  match types.select candidates (arguments.map Expr.argumentType) with
  | .ok method => do
    let converted ← castAll types arguments method.params
    return .invocation offset target.expression name converted method
  | .error missing =>
    let context : CompileFault :=
      match missing with
      | .ambiguous => .callOn target.type name.name
      | .notFound => .methodOn target.type name.name
    throw (.classified .semantic name.offset (.within context (.cause (.absence missing))))

def property (types : Universe) (offset : Nat) (target : Target) (name : Ident) :
    Analyzer Expr :=
  let missing (absence : Universe.Absence) : Analyzer Expr :=
    throw (.classified .semantic name.offset
      (.within (.memberOn target.type name.name) (.cause (.absence absence))))
  match types.dataMembers target.type name.name target.isStatic with
  | [] => missing .notFound
  | [member] => return .property offset target.expression name member
  | _ => missing .ambiguous

def index (types : Universe) (offset : Nat) (target : Target) (indices : List Expr) :
    Analyzer Expr :=
  match target.type with
  | .array element rank =>
    if target.isStatic then fail offset .staticArrayIndex
    else if indices.length ≠ rank then fail offset (.arrayRank rank indices.length)
    else do
      let converted ← indices.mapM fun expression => castTo types expression .int32
      return .index offset target.expression converted none element
  | type =>
    match types.indexer? type with
    | none => fail target.expression.offset (.notIndexable type)
    | some indexer =>
      if target.isStatic && !indexer.isStatic then fail offset (.instanceIndexer type)
      else if indices.length ≠ indexer.params.length then
        fail offset (.indexerCount indices.length indexer.params.length)
      else do
        let converted ← castAll types indices indexer.params
        return .index offset target.expression converted (some indexer) indexer.type

def unary (types : Universe) (offset : Nat) (op : Operator) (operand : Expr) : Analyzer Expr :=
  if !operand.type.isValue then fail offset .notNumeric
  else
    match op with
    | .negate => return .unary offset op operand operand.type
    | .complement => do return .unary offset op (← castTo types operand .bool) .bool
    | _ => fail offset (.notUnary op)

def conditional (types : Universe) (offset : Nat) (condition yes no : Expr) : Analyzer Expr := do
  let common := types.compatible yes.type no.type
  let first ← castTo types yes common
  let second ← castTo types no common
  return .conditional offset condition first second common

def cast (types : Universe) (offset : Nat) (name : Ident) (operand : Expr) : Analyzer Expr := do
  let progress ← get
  match lookupType name progress with
  | .error failure =>
    throw (.classified .semantic name.offset (.within .resolvingDestination failure))
  | .ok (target, _) =>
    if target = .void then fail name.offset .inferredDestination
    else writtenCast types offset name target operand

mutual

def expression (dialect : Dialect) : Tree.Expr → Analyzer Expr
  | .literal offset value => return .literal offset value
  | .reference offset name => reference offset name
  | .operator offset op left right => do
    let first ← expression dialect left
    let second ← expression dialect right
    operator dialect.types offset op first second
  | .unary offset op operand => do
    unary dialect.types offset op (← expression dialect operand)
  | .conditional offset condition yes no => do
    let chosen ← castTo dialect.types (← expression dialect condition) .bool
    let first ← expression dialect yes
    let second ← expression dialect no
    conditional dialect.types offset chosen first second
  | .cast offset name operand => do
    cast dialect.types offset name (← expression dialect operand)
  | .conversion type operand => return final (.conversion type operand)
  | .call offset name arguments => do
    match ← lookup name.name with
    | none => fail name.offset (.noSuchMethod name.name)
    | some (.transform _ transform) =>
      let given ← expressions dialect arguments
      return .expansion offset name transform given (dialect.expand transform.key given)
    | some (.method _ method) =>
      if arguments.length ≠ method.params.length then
        fail offset (.argumentCount name.name arguments.length method.params.length)
      else
        let given ← expressions dialect arguments
        let converted ← castAll dialect.types given method.params
        return .call offset name method converted
    | some _ => fail name.offset (.notMethod name.name)
  | .invocation offset target name arguments => do
    let found ← typeTarget? target
    let receiver ←
      match found with
      | some named => pure named
      | none => valueTarget target.offset (← expression dialect target)
    let given ← expressions dialect arguments
    invocation dialect.types offset receiver name given
  | .lateInvocation offset target name arguments => do
    let receiver ← valueTarget target.offset (← expression dialect target)
    let given ← boxedExpressions dialect arguments
    return .lateInvocation offset receiver.expression name given
  | .property offset target name => do
    let found ← typeTarget? target
    let receiver ←
      match found with
      | some named => pure named
      | none => valueTarget target.offset (← expression dialect target)
    property dialect.types offset receiver name
  | .lateProperty offset target name => do
    let receiver ← valueTarget target.offset (← expression dialect target)
    return .lateProperty offset receiver.expression name
  | .index offset target indices => do
    let found ← typeTarget? target
    let receiver ←
      match found with
      | some named => pure named
      | none => valueTarget target.offset (← expression dialect target)
    let given ← expressions dialect indices
    index dialect.types offset receiver given

def expressions (dialect : Dialect) : List Tree.Expr → Analyzer (List Expr)
  | [] => return []
  | first :: rest => do
    let analysed ← expression dialect first
    let following ← expressions dialect rest
    return analysed :: following

def boxedExpressions (dialect : Dialect) : List Tree.Expr → Analyzer (List Expr)
  | [] => return []
  | first :: rest => do
    let boxed ← castTo dialect.types (← expression dialect first) .object
    let following ← boxedExpressions dialect rest
    return boxed :: following

end

def condition (dialect : Dialect) (tree : Tree.Expr) : Analyzer Expr := do
  let value ← expression dialect tree
  castTo dialect.types value .bool

/-- An assignment; a plain name means something before the value is analysed. -/
def assignment (dialect : Dialect) (offset : Nat) (target value : Tree.Expr) :
    Analyzer Typed.Statement := do
  match target with
  | .reference targetOffset name =>
    let place ← assigned targetOffset name
    let given ← expression dialect value
    return .assignment offset place (← castTo dialect.types given place.type)
  | _ =>
    let given ← expression dialect value
    let place ← expression dialect target
    if target.isAssignable then
      return .assignment offset place (← castTo dialect.types given place.type)
    else fail target.offset .invalidTarget

def declaration (dialect : Dialect) (offset : Nat) (typeName name : Ident) (value : Tree.Expr) :
    Analyzer Typed.Statement := do
  let given ← expression dialect value
  let named ← lookupType typeName
  let type := if named = .void then given.type else named
  if type = .void then fail name.offset (.voidVariable name.name)
  else
    let declared ← declare name type false
    return .declaration offset typeName name declared (← castTo dialect.types given type)

def persistentDeclaration (offset : Nat) (typeName name : Ident) : Analyzer Typed.Statement := do
  let type ← lookupType typeName
  if type = .void then fail typeName.offset .inferredPersistent
  else return .persistent offset typeName name (← declare name type true)

def openScope : Analyzer Unit :=
  modify fun progress => { progress with scopes := progress.scopes.push }

def closeScope : Analyzer SymbolTable := do
  let progress ← get
  match progress.scopes.pop with
  | .ok (table, scopes) =>
    set { progress with scopes }
    return table
  | .error fault => throw (.cause (.symbol fault))

mutual

def statement (dialect : Dialect) (loops : Nat) : Tree.Statement → Analyzer Typed.Statement
  | .block body => do return .block (← block dialect loops body)
  | .assignment offset target value => assignment dialect offset target value
  | .declaration offset typeName name value => declaration dialect offset typeName name value
  | .persistent offset typeName name => persistentDeclaration offset typeName name
  | .ifThen offset tree yes => do
    let chosen ← condition dialect tree
    return .ifThen offset chosen (← block dialect loops yes)
  | .ifElse offset tree yes no => do
    let chosen ← condition dialect tree
    let first ← block dialect loops yes
    return .ifElse offset chosen first (← block dialect loops no)
  | .whileLoop offset tree body => do
    let chosen ← condition dialect tree
    return .whileLoop offset chosen (← block dialect (loops + 1) body)
  | .breakLoop offset =>
    if loops = 0 then fail offset .breakOutside else return .breakLoop offset
  | .continueLoop offset =>
    if loops = 0 then fail offset .continueOutside else return .continueLoop offset
  | .leave offset => return .leave offset
  | .callStatement offset call => do return .callStatement offset (← expression dialect call)
  | .invocationStatement offset call => do
    return .invocationStatement offset (← expression dialect call)

def block (dialect : Dialect) (loops : Nat) : Tree.Block → Analyzer Typed.Block
  | .mk offset body => do
    openScope
    let analysed ← statements dialect loops body
    let scope ← closeScope
    return .mk offset scope analysed

def statements (dialect : Dialect) (loops : Nat) :
    List Tree.Statement → Analyzer (List Typed.Statement)
  | [] => return []
  | first :: rest => do
    let analysed ← statement dialect loops first
    let following ← statements dialect loops rest
    return analysed :: following

end

def script (dialect : Dialect) (root : Tree.Block) : Except CompileFailure Typed.Script := do
  let start : Progress :=
    { scopes := { global := dialect.binding.symbols.withoutVariables } }
  let (body, progress) ← block dialect 0 root start
  return { body, locals := progress.locals, persistent := progress.persistent }

end HostScript.Analysis

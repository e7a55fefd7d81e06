import HostScript.Value.Basic

/-!
# Members

Fields, properties and methods as scripts see them: name, types and what may be done with them.
-/

namespace HostScript

/-- Functions of the mathematical library. -/
inductive MathFunction where
  | abs | sin | cos | tan | asin | acos | atan | sqrt | pow | log | log10 | sign | min | max
  | rand | sigmoid | sqr
  deriving Repr, DecidableEq

/-- Routines that the library itself provides. -/
inductive Intrinsic where
  | toText
  | typeOf
  | typeName
  | typeKind
  /-- The order of the receiver and the argument. -/
  | compareTo
  /-- The count of code points of the receiver. -/
  | textLength
  | textEquality (agree : Bool)
  | math (function : MathFunction)
  deriving Repr, DecidableEq

/-- What a member does. -/
inductive Routine where
  | intrinsic (intrinsic : Intrinsic)
  | host (label : String)
  deriving Repr, DecidableEq

/-- A storage location. -/
structure Field where
  name : Text
  type : Ty
  /-- Whether the storage belongs to no instance. -/
  shared : Bool := false
  readOnly : Bool := false
  literal : Option Value := none
  hasReader : Bool := true
  hasWriter : Bool := true
  label : String := ""
  deriving Repr, DecidableEq

namespace Field

def isStatic (field : Field) : Bool :=
  field.shared || field.literal.isSome

def canRead (field : Field) : Bool :=
  field.literal.isSome || field.hasReader

def canWrite (field : Field) : Bool :=
  !field.readOnly && field.literal.isNone && field.hasWriter

end Field

/-- A pair of accessors; one with parameters is an indexer. -/
structure Property where
  name : Text
  type : Ty
  isStatic : Bool := false
  params : List Ty := []
  canRead : Bool := true
  canWrite : Bool := false
  routine : Routine
  deriving Repr, DecidableEq

/-- A member that can be called. -/
structure Method where
  name : Text
  params : List Ty := []
  /-- The type of the result; `none` and `void` both stand for no result. -/
  result : Option Ty := none
  isStatic : Bool := false
  routine : Routine
  deriving Repr, DecidableEq

namespace Method

def returnsValue (method : Method) : Bool :=
  method.result.isSome && method.result != some .void

/-- Name and parameter types. -/
def text (method : Method) : Text :=
  Text.join [method.name, "(", Text.joinWith ", " (method.params.map Ty.text), ")"]

/-- The type of a call; a method without result has the type `void`. -/
def type (method : Method) : Ty :=
  method.result.getD .void

end Method

/-- Members that hold a value. -/
inductive DataMember where
  | field (field : Field)
  | property (property : Property)
  deriving Repr, DecidableEq

namespace DataMember

def name : DataMember → Text
  | .field stored => stored.name
  | .property computed => computed.name

def type : DataMember → Ty
  | .field stored => stored.type
  | .property computed => computed.type

def isStatic : DataMember → Bool
  | .field stored => stored.isStatic
  | .property computed => computed.isStatic

def canWrite : DataMember → Bool
  | .field stored => stored.canWrite
  | .property computed => computed.canWrite

end DataMember

/-- A local variable of a script. -/
structure Variable where
  name : Text
  type : Ty
  slot : Nat
  /-- Whether its value is kept between invocations. -/
  isPersistent : Bool := false
  deriving Repr, DecidableEq

/-- A code pattern that is called like a method; its key says which. -/
structure Transform where
  result : Ty
  key : String
  deriving Repr, DecidableEq

/-- Named things that scripts can see. -/
inductive Symbol where
  | variable (declared : Variable)
  | field (name : Text) (field : Field)
  | method (name : Text) (method : Method)
  | transform (name : Text) (transform : Transform)
  /-- A name of a type; `void` stands for the type of the initial value. -/
  | typeName (name : Text) (type : Ty)
  deriving Repr, DecidableEq

namespace Symbol

def name : Symbol → Text
  | .variable declared => declared.name
  | .field name _ => name
  | .method name _ => name
  | .transform name _ => name
  | .typeName name _ => name

def isVariable : Symbol → Bool
  | .variable _ => true
  | _ => false

end Symbol

/-- Why tables of symbols refuse an operation. -/
inductive SymbolFault where
  | alreadyDeclared (name : Text)
  | underflow
  deriving Repr, DecidableEq

def SymbolFault.text : SymbolFault → Text
  | .alreadyDeclared name => Text.join ["symbol ", name.inQuotes, " is already declared"]
  | .underflow => "scope stack underflow"

/-- Symbols in the order of declaration, each name once. -/
abbrev SymbolTable := List Symbol

namespace SymbolTable

def find? (table : SymbolTable) (name : Text) : Option Symbol :=
  List.find? (fun symbol => symbol.name == name) table

def add (table : SymbolTable) (symbol : Symbol) : Except SymbolFault SymbolTable :=
  if (find? table symbol.name).isSome then .error (.alreadyDeclared symbol.name)
  else .ok (table ++ [symbol])

def withoutVariables (table : SymbolTable) : SymbolTable :=
  List.filter (fun symbol => !symbol.isVariable) table

end SymbolTable

/-- The tables visible at a place: those of the enclosing blocks and the global one. -/
structure Scopes where
  blocks : List SymbolTable := []
  global : SymbolTable
  deriving Repr, DecidableEq

namespace Scopes

/-- The symbol that a name means: the innermost declaration counts. -/
def find? (scopes : Scopes) (name : Text) : Option Symbol :=
  match scopes.blocks.findSome? fun table => table.find? name with
  | some symbol => some symbol
  | none => scopes.global.find? name

/-- Opens a block. -/
def push (scopes : Scopes) : Scopes :=
  { scopes with blocks := [] :: scopes.blocks }

/-- Closes the innermost block. -/
def pop (scopes : Scopes) : Except SymbolFault (SymbolTable × Scopes) :=
  match scopes.blocks with
  | [] => .error .underflow
  | table :: rest => .ok (table, { scopes with blocks := rest })

def declare (scopes : Scopes) (symbol : Symbol) : Except SymbolFault Scopes :=
  match scopes.blocks with
  | [] => do
    let global ← scopes.global.add symbol
    return { scopes with global }
  | table :: rest => do
    let changed ← table.add symbol
    return { scopes with blocks := changed :: rest }

def declareGlobal (scopes : Scopes) (symbol : Symbol) : Except SymbolFault Scopes := do
  let global ← scopes.global.add symbol
  return { scopes with global }

/-- The count of tables. -/
def depth (scopes : Scopes) : Nat :=
  scopes.blocks.length + 1

end Scopes

end HostScript

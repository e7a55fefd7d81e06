import HostScript.Code.Assembly
import HostScript.Member.Universe
import HostScript.Tree.Parser
import HostScript.Binding.Basic

/-!
# Typed trees

The tree of a script after analysis: names are resolved to symbols and members, conversions are
explicit, and every value has a type.
-/

namespace HostScript

/-- What goes wrong in a compilation, or what was being done then. -/
inductive CompileFault where
  | reading (fault : ReadFault)
  | symbol (fault : SymbolFault)
  | absence (missing : Universe.Absence)
  | assembly (fault : AssemblyFault)
  /-- What the author of a transform says. -/
  | said (message : Text)
  | breakOutside
  | continueOutside
  | notInLoop
  | voidVariable (name : Text)
  | inferredPersistent
  | undeclared (name : Text)
  | notVariableInExpression (name : Text)
  | notVariable (name : Text)
  | notMethod (name : Text)
  | noSuchMethod (name : Text)
  | argumentCount (name : Text) (given expected : Nat)
  | voidMembers
  | staticArrayIndex
  | arrayRank (rank given : Nat)
  | notIndexable (type : Ty)
  | instanceIndexer (type : Ty)
  | indexerCount (given expected : Nat)
  | unknownType (name : Text)
  | notType (name : Text)
  | previouslyDeclared (name : Text)
  | castToVoid
  | castFromVoid
  | inferredDestination
  | cannotBox (source target : Ty)
  | cannotUnbox (source target : Ty)
  | mixedComparison
  | notOnReferences (op : Operator)
  | notNumeric
  | notUnary (op : Operator)
  | notBinary (op : Operator)
  | propertyWriteOnly (name : Text)
  | indexerWriteOnly
  | indexerReadOnly
  | fieldReadOnly (name : Text)
  | memberReadOnly (name : Text)
  | cannotAssign (name : Text)
  | invalidTarget
  | declaring
  | resolvingDestination
  | expanding (name : Text)
  | callOn (type : Ty) (name : Text)
  | methodOn (type : Ty) (name : Text)
  | memberOn (type : Ty) (name : Text)
  | building
  /-- The type of an expression is not known where it is needed: this ends the program. -/
  | missingType
  deriving Repr, DecidableEq

namespace CompileFault

def memberText (type : Ty) (name : Text) : Text :=
  Text.join [type.text, ".", name]

def countText (given expected : Nat) : Text :=
  Text.join [Text.decimal given, " given, ", Text.decimal expected, " expected"]

/-- Whether a fault ends the program from within. -/
def isCrash : CompileFault → Bool
  | .missingType => true
  | _ => false

/-- What a fault says. -/
def text : CompileFault → Text
  | .reading fault => fault.text
  | .symbol fault => fault.text
  | .absence missing => missing.text
  | .assembly fault => fault.text
  | .said message => message
  | .breakOutside => "break outside of a loop"
  | .continueOutside => "continue outside of a loop"
  | .notInLoop => "not inside a loop"
  | .voidVariable name => Text.join ["variable ", name.inQuotes, " cannot be void"]
  | .inferredPersistent => "persistent variables cannot be type-inferred"
  | .undeclared name => "undeclared identifier " ++ name.inQuotes
  | .notVariableInExpression name =>
    Text.join ["identifier ", name.inQuotes, " used in an expression must be a variable"]
  | .notVariable name => name.inQuotes ++ " is not a variable"
  | .notMethod name => name.inQuotes ++ " is not a method"
  | .noSuchMethod name => "no such method " ++ name.inQuotes
  | .argumentCount name given expected =>
    Text.join ["incorrect argument count to method ", name.inQuotes, ": ",
      countText given expected]
  | .voidMembers => "void value has no members"
  | .staticArrayIndex => "cannot statically index an array"
  | .arrayRank rank given =>
    Text.join ["array of rank ", Text.decimal rank, " indexed with ", Text.decimal given,
      " indices"]
  | .notIndexable type => Text.join ["values of type ", type.text, " cannot be indexed"]
  | .instanceIndexer type => Text.join ["indexer of ", type.text, " requires an instance"]
  | .indexerCount given expected =>
    "incorrect parameter count to indexer: " ++ countText given expected
  | .unknownType name => "unknown type " ++ name.inQuotes
  | .notType name => name.inQuotes ++ " is not a type"
  | .previouslyDeclared name =>
    Text.join ["identifier ", name.inQuotes, " previously declared"]
  | .castToVoid => "cannot cast to void"
  | .castFromVoid => "cannot cast from void"
  | .inferredDestination => "destination type must not be the inferencing type"
  | .cannotBox source target => Text.join ["cannot box ", source.text, " as ", target.text]
  | .cannotUnbox source target => Text.join ["cannot unbox ", source.text, " as ", target.text]
  | .mixedComparison => "cannot compare reference and value types"
  | .notOnReferences op =>
    Text.join ["cannot apply ", op.text.inQuotes, " to object references"]
  | .notNumeric => "cannot operate on non-numeric values"
  | .notUnary op => op.text.inQuotes ++ " is not a unary operator"
  | .notBinary op => op.text.inQuotes ++ " is not a binary operator"
  | .propertyWriteOnly name => Text.join ["property ", name.inQuotes, " is write-only"]
  | .indexerWriteOnly => "indexer is write-only"
  | .indexerReadOnly => "indexer is read-only"
  | .fieldReadOnly name => "cannot assign to read-only field " ++ name.inQuotes
  | .memberReadOnly name => Text.join ["member ", name.inQuotes, " is read-only"]
  | .cannotAssign name => "cannot assign to " ++ name.inQuotes
  | .invalidTarget => "invalid assignment target"
  | .declaring => "failed to declare variable"
  | .resolvingDestination => "destination type could not be resolved"
  | .expanding name => "failed to expand " ++ name.inQuotes
  | .callOn type name => "call to " ++ memberText type name
  | .methodOn type name => "method " ++ memberText type name
  | .memberOn type name => "member " ++ memberText type name
  | .building => "failed to build program"
  | .missingType => "the type of an expression is missing"

end CompileFault

/-- Failures of compilation. -/
abbrev CompileFailure := Failure CompileFault

def semantic (offset : Nat) (fault : CompileFault) : CompileFailure :=
  Failure.located .semantic offset fault

end HostScript

namespace HostScript.Typed

mutual

/-- Expressions. -/
inductive Expr where
  | literal (offset : Nat) (value : Literal)
  /-- A name; what it means is missing only inside a conversion that was given as final. -/
  | reference (offset : Nat) (name : Text) (symbol : Option Symbol)
  | operator (offset : Nat) (op : Operator) (left right : Expr) (overload : Option Method)
      (type : Ty)
  | unary (offset : Nat) (op : Operator) (operand : Expr) (type : Ty)
  | conditional (offset : Nat) (condition yes no : Expr) (type : Ty)
  /-- A conversion; one that was not written has no name of a type. -/
  | cast (offset : Nat) (name : Option Ident) (type : Ty) (operand : Expr)
  | call (offset : Nat) (name : Ident) (method : Method) (arguments : List Expr)
  | expansion (offset : Nat) (name : Ident) (transform : Transform) (arguments : List Expr)
      (pieces : List Piece)
  | invocation (offset : Nat) (target : Expr) (name : Ident) (arguments : List Expr)
      (method : Method)
  | lateInvocation (offset : Nat) (target : Expr) (name : Ident) (arguments : List Expr)
  | property (offset : Nat) (target : Expr) (name : Ident) (member : DataMember)
  | lateProperty (offset : Nat) (target : Expr) (name : Ident)
  /-- An element of an array, or an access through an indexer. -/
  | index (offset : Nat) (target : Expr) (indices : List Expr) (indexer : Option Property)
      (type : Ty)

/-- Pieces of code that a transform stands for. -/
inductive Piece where
  | value (expression : Expr)
  | code (directive : Directive)
  /-- Reserves a local variable; later pieces know it by its number in this expansion. -/
  | reserve (type : Ty)
  | release (number : Nat)
  | slot (op : Op) (number : Nat)
  /-- Defines a label; later pieces know it by its number in this expansion. -/
  | label
  | mark (number : Nat)
  | jump (op : Op) (number : Nat)
  | fail (failure : CompileFailure)

end

namespace Expr

def offset : Expr → Nat
  | .literal offset _ => offset
  | .reference offset _ _ => offset
  | .operator offset _ _ _ _ _ => offset
  | .unary offset _ _ _ => offset
  | .conditional offset _ _ _ _ => offset
  | .cast offset _ _ _ => offset
  | .call offset _ _ _ => offset
  | .expansion offset _ _ _ _ => offset
  | .invocation offset _ _ _ _ => offset
  | .lateInvocation offset _ _ _ => offset
  | .property offset _ _ _ => offset
  | .lateProperty offset _ _ => offset
  | .index offset _ _ _ _ => offset

/-- The type of an expression; a name that is no value has none. -/
def type? : Expr → Option Ty
  | .literal _ value => some value.type
  | .reference _ _ (some (.variable declared)) => some declared.type
  | .reference _ _ (some (.field _ field)) => some field.type
  | .reference _ _ _ => none
  | .operator _ _ _ _ _ type => some type
  | .unary _ _ _ type => some type
  | .conditional _ _ _ _ type => some type
  | .cast _ _ type _ => some type
  | .call _ _ method _ => some method.type
  | .expansion _ _ transform _ _ => some transform.result
  | .invocation _ _ _ _ method => some method.type
  | .lateInvocation _ _ _ _ => some .object
  | .property _ _ _ member => some member.type
  | .lateProperty _ _ _ => some .object
  | .index _ _ _ _ type => some type

def type (expression : Expr) : Ty :=
  expression.type?.getD .void

def isNull : Expr → Bool
  | .literal _ .null => true
  | _ => false

/-- The type of an argument; the null reference as written has none. -/
def argumentType (expression : Expr) : Option Ty :=
  if expression.isNull then none else some expression.type

end Expr

mutual

/-- Statements. -/
inductive Statement where
  | block (block : Block)
  | assignment (offset : Nat) (target value : Expr)
  | declaration (offset : Nat) (type name : Ident) (declared : Variable) (value : Expr)
  | persistent (offset : Nat) (type name : Ident) (declared : Variable)
  | ifThen (offset : Nat) (condition : Expr) (yes : Block)
  | ifElse (offset : Nat) (condition : Expr) (yes no : Block)
  | whileLoop (offset : Nat) (condition : Expr) (body : Block)
  | breakLoop (offset : Nat)
  | continueLoop (offset : Nat)
  | leave (offset : Nat)
  | callStatement (offset : Nat) (call : Expr)
  | invocationStatement (offset : Nat) (call : Expr)

/-- A list of statements with the symbols declared among them. -/
inductive Block where
  | mk (offset : Nat) (scope : SymbolTable) (body : List Statement)

end

/-- A script after analysis. -/
structure Script where
  body : Block
  locals : Array Ty
  /-- The variables that are kept between invocations, in the order of declaration. -/
  persistent : List Variable

end HostScript.Typed

namespace HostScript

/-- The types, names and transforms that scripts of a host are written with. -/
structure Dialect where
  types : Universe
  binding : Binding
  expand : (key : String) → (arguments : List Typed.Expr) → List Typed.Piece

end HostScript

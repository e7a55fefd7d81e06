import HostScript.Ty.Basic

/-!
# Trees

The tree of a script as it was written.
-/

namespace HostScript

/-- Unary and binary operators. -/
inductive Operator where
  | add | subtract | multiply | divide | modulo | bitAnd | bitOr | both | either
  | equal | notEqual | less | greater | lessEqual | greaterEqual | negate | complement
  /-- What a tree that was not read from a source may hold in place of an operator. -/
  | unknown
  deriving Repr, DecidableEq

namespace Operator

def all : List Operator :=
  [.add, .subtract, .multiply, .divide, .modulo, .bitAnd, .bitOr, .both, .either, .equal,
    .notEqual, .less, .greater, .lessEqual, .greaterEqual, .negate, .complement]

def text : Operator → Text
  | .add => "+"
  | .subtract => "-"
  | .multiply => "*"
  | .divide => "/"
  | .modulo => "%"
  | .bitAnd => "&"
  | .bitOr => "|"
  | .both => "&&"
  | .either => "||"
  | .equal => "=="
  | .notEqual => "!="
  | .less => "<"
  | .greater => ">"
  | .lessEqual => "<="
  | .greaterEqual => ">="
  | .negate => "-"
  | .complement => "!"
  | .unknown => "?"

def isComparison : Operator → Bool
  | .equal | .notEqual | .less | .greater | .lessEqual | .greaterEqual | .both | .either => true
  | _ => false

end Operator

/-- Values written in a script. -/
inductive Literal where
  | integer (value : BitVec 32)
  | float (bits : BitVec 32)
  | string (value : Text)
  | boolean (value : Bool)
  | null
  deriving Repr, DecidableEq

/-- The type of a literal; the null reference counts as an object. -/
def Literal.type : Literal → Ty
  | .integer _ => .int32
  | .float _ => .single
  | .string _ => .string
  | .boolean _ => .bool
  | .null => .object

/-- A name as it stands in a script. -/
structure Ident where
  name : Text
  offset : Nat
  deriving Repr, DecidableEq

namespace Tree

/-- Expressions. -/
inductive Expr where
  | literal (offset : Nat) (value : Literal)
  | reference (offset : Nat) (name : Text)
  | operator (offset : Nat) (op : Operator) (left right : Expr)
  | unary (offset : Nat) (op : Operator) (operand : Expr)
  | conditional (offset : Nat) (condition yes no : Expr)
  | cast (offset : Nat) (type : Ident) (operand : Expr)
  /-- A conversion that no source can spell: its type is given and its operand is final. -/
  | conversion (type : Ty) (operand : Expr)
  | call (offset : Nat) (name : Ident) (arguments : List Expr)
  | invocation (offset : Nat) (target : Expr) (name : Ident) (arguments : List Expr)
  | lateInvocation (offset : Nat) (target : Expr) (name : Ident) (arguments : List Expr)
  | property (offset : Nat) (target : Expr) (name : Ident)
  | lateProperty (offset : Nat) (target : Expr) (name : Ident)
  | index (offset : Nat) (target : Expr) (indices : List Expr)

namespace Expr

def offset : Expr → Nat
  | .literal offset _ => offset
  | .reference offset _ => offset
  | .operator offset _ _ _ => offset
  | .unary offset _ _ => offset
  | .conditional offset _ _ _ => offset
  | .cast offset _ _ => offset
  | .conversion _ operand => operand.offset
  | .call offset _ _ => offset
  | .invocation offset _ _ _ => offset
  | .lateInvocation offset _ _ _ => offset
  | .property offset _ _ => offset
  | .lateProperty offset _ _ => offset
  | .index offset _ _ => offset

/-- Whether the type of an expression is known before analysis. -/
def hasType : Expr → Bool
  | .literal _ _ | .conversion _ _ => true
  | _ => false

/-- Whether something can be assigned to an expression. -/
def isAssignable : Expr → Bool
  | .reference _ _ | .property _ _ _ | .lateProperty _ _ _ | .index _ _ _ => true
  | _ => false

end Expr

mutual

/-- Statements. -/
inductive Statement where
  | block (block : Block)
  | assignment (offset : Nat) (target value : Expr)
  | declaration (offset : Nat) (type name : Ident) (value : Expr)
  | persistent (offset : Nat) (type name : Ident)
  | ifThen (offset : Nat) (condition : Expr) (yes : Block)
  | ifElse (offset : Nat) (condition : Expr) (yes no : Block)
  | whileLoop (offset : Nat) (condition : Expr) (body : Block)
  | breakLoop (offset : Nat)
  | continueLoop (offset : Nat)
  | leave (offset : Nat)
  /-- A call of a bound name whose result is dropped. -/
  | callStatement (offset : Nat) (call : Expr)
  /-- A member call whose result is dropped. -/
  | invocationStatement (offset : Nat) (call : Expr)

/-- A list of statements with a scope of its own. -/
inductive Block where
  | mk (offset : Nat) (body : List Statement)

end

def Block.offset : Block → Nat
  | .mk offset _ => offset

def Block.body : Block → List Statement
  | .mk _ body => body

end Tree

end HostScript

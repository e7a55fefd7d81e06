import HostScript.Member.Basic
import HostScript.Tree.Basic

/-!
# Outlines of trees as written
-/

namespace HostScript

/-- A tree seen from outside. -/
inductive Outline where
  | node (name : String) (offset : Nat) (parts : List (String × Outline))
  | list (items : List Outline)
  | text (text : Text)
  | ident (ident : Ident)
  | literal (value : Literal)
  | type (type : Ty)
  | number (value : Nat)
  | flag (value : Bool)
  | absent
  deriving Inhabited

namespace Outline

def literalName : Literal → String
  | .integer _ => "Integer"
  | .float _ => "Float"
  | .string _ => "String"
  | .boolean _ => "Boolean"
  | .null => "Null"

def literalParts : Literal → List (String × Outline)
  | .null => []
  | value => [("v", .literal value)]

def ofType? : Option Ty → Outline
  | some named => .type named
  | none => .absent

/-- The outline of a symbol: its sort, its name and what it stands for. -/
def ofSymbol : Symbol → Outline
  | .variable declared =>
    .list [.text "var", .text declared.name, .type declared.type, .number declared.slot,
      .flag declared.isPersistent]
  | .field name field => .list [.text "field", .text name, .type field.type]
  | .method name method =>
    .list [.text "method", .text name, .text method.text, ofType? method.result]
  | .transform name transform => .list [.text "transform", .text name, .type transform.result]
  | .typeName name named => .list [.text "type", .text name, .type named]

def ofMember (member : DataMember) : Outline :=
  let sort : Text :=
    match member with
    | .field _ => "field"
    | .property _ => "property"
  .list [.text sort, .text member.name, .type member.type, .flag member.isStatic]

def ofMethod (method : Method) : Outline :=
  .list [.text "method", .text method.text, ofType? method.result, .flag method.isStatic]

def optional (label : String) (view : α → Outline) : Option α → List (String × Outline)
  | some part => [(label, view part)]
  | none => []

end Outline

end HostScript

namespace HostScript.Tree

mutual

def Expr.outline : Expr → Outline
  | .literal offset value => .node (Outline.literalName value) offset (Outline.literalParts value)
  | .reference offset name => .node "Reference" offset [("name", .text name)]
  | .operator offset op left right =>
    .node "Operator" offset [("op", .text op.text), ("l", outline left), ("r", outline right)]
  | .unary offset op operand => .node "Unary" offset [("op", .text op.text), ("e", outline operand)]
  | .conditional offset condition yes no =>
    .node "Conditional" offset
      [("cond", outline condition), ("yes", outline yes), ("no", outline no)]
  | .cast offset type operand =>
    .node "Cast" offset [("type", .ident type), ("e", outline operand)]
  | .conversion _ operand =>
    .node "Cast" operand.offset [("type", .absent), ("e", outline operand)]
  | .call offset name arguments =>
    .node "Call" offset [("name", .ident name), ("args", .list (outlines arguments))]
  | .invocation offset target name arguments =>
    .node "Invocation" offset
      [("target", outline target), ("name", .ident name), ("args", .list (outlines arguments))]
  | .lateInvocation offset target name arguments =>
    .node "LateInvocation" offset
      [("target", outline target), ("name", .ident name), ("args", .list (outlines arguments))]
  | .property offset target name =>
    .node "Property" offset [("target", outline target), ("name", .ident name)]
  | .lateProperty offset target name =>
    .node "LateProperty" offset [("target", outline target), ("name", .ident name)]
  | .index offset target indices =>
    .node "Index" offset [("target", outline target), ("index", .list (outlines indices))]

def Expr.outlines : List Expr → List Outline
  | [] => []
  | first :: rest => outline first :: outlines rest

end

mutual

def Statement.outline : Statement → Outline
  | .block inner => Block.outline inner
  | .assignment offset target value =>
    .node "Assignment" offset [("target", target.outline), ("value", value.outline)]
  | .declaration offset type name value =>
    .node "Declaration" offset
      [("type", .ident type), ("name", .ident name), ("value", value.outline)]
  | .persistent offset type name =>
    .node "Persistent" offset [("type", .ident type), ("name", .ident name)]
  | .ifThen offset condition yes =>
    .node "If" offset [("cond", condition.outline), ("then", Block.outline yes)]
  | .ifElse offset condition yes no =>
    .node "IfElse" offset
      [("cond", condition.outline), ("then", Block.outline yes), ("else", Block.outline no)]
  | .whileLoop offset condition body =>
    .node "While" offset [("cond", condition.outline), ("body", Block.outline body)]
  | .breakLoop offset => .node "Break" offset []
  | .continueLoop offset => .node "Continue" offset []
  | .leave offset => .node "Return" offset []
  | .callStatement offset call => .node "CallStatement" offset [("call", call.outline)]
  | .invocationStatement offset call => .node "InvocationStatement" offset [("call", call.outline)]

def Block.outline : Block → Outline
  | .mk offset body => .node "Block" offset [("body", .list (Statement.outlines body))]

def Statement.outlines : List Statement → List Outline
  | [] => []
  | first :: rest => Statement.outline first :: Statement.outlines rest

end

end HostScript.Tree

namespace HostScript

/-- Everything that an outline can be read as. -/
structure Reading where
  expr : Tree.Expr := .literal 0 .null
  exprs : List Tree.Expr := []
  statement : Tree.Statement := .block (.mk 0 [])
  statements : List Tree.Statement := []
  block : Tree.Block := .mk 0 []
  ident : Ident := { name := [], offset := 0 }
  text : Text := []
  literal : Literal := .null
  type : Ty := .void

namespace Reading

def part (parts : List (String × Reading)) (label : String) : Reading :=
  (parts.lookup label).getD {}

/-- The operator with a spelling; one of a word is that operator in any place. -/
def operator (isUnary : Bool) (spelling : Text) : Operator :=
  let isCandidate (op : Operator) : Bool := (op = .negate ∨ op = .complement) = isUnary
  match Operator.all.find? fun op => isCandidate op && op.text == spelling with
  | some op => op
  | none =>
    let words : List (Text × Operator) := [("neg", .negate), ("add", .add), ("not", .complement)]
    (words.lookup spelling).getD .unknown

def nodeExpr (name : String) (offset : Nat) (parts : List (String × Reading)) : Tree.Expr :=
  let expr (label : String) : Tree.Expr := (part parts label).expr
  let exprs (label : String) : List Tree.Expr := (part parts label).exprs
  let ident (label : String) : Ident := (part parts label).ident
  let spelling := (part parts "op").text
  match name with
  | "Integer" | "Float" | "String" | "Boolean" => .literal offset (part parts "v").literal
  | "Reference" => .reference offset (part parts "name").text
  | "Operator" => .operator offset (operator false spelling) (expr "l") (expr "r")
  | "Unary" => .unary offset (operator true spelling) (expr "e")
  | "Conditional" => .conditional offset (expr "cond") (expr "yes") (expr "no")
  | "Cast" => .cast offset (ident "type") (expr "e")
  | "Implicit" => .conversion (part parts "type").type (expr "e")
  | "Call" => .call offset (ident "name") (exprs "args")
  | "Invocation" => .invocation offset (expr "target") (ident "name") (exprs "args")
  | "LateInvocation" => .lateInvocation offset (expr "target") (ident "name") (exprs "args")
  | "Property" => .property offset (expr "target") (ident "name")
  | "LateProperty" => .lateProperty offset (expr "target") (ident "name")
  | "Index" => .index offset (expr "target") (exprs "index")
  | _ => .literal offset .null

def nodeBlock (offset : Nat) (parts : List (String × Reading)) : Tree.Block :=
  .mk offset (part parts "body").statements

def nodeStatement (name : String) (offset : Nat) (parts : List (String × Reading)) :
    Tree.Statement :=
  let expr (label : String) : Tree.Expr := (part parts label).expr
  let block (label : String) : Tree.Block := (part parts label).block
  let ident (label : String) : Ident := (part parts label).ident
  match name with
  | "Assignment" => .assignment offset (expr "target") (expr "value")
  | "Declaration" => .declaration offset (ident "type") (ident "name") (expr "value")
  | "Persistent" => .persistent offset (ident "type") (ident "name")
  | "If" => .ifThen offset (expr "cond") (block "then")
  | "IfElse" => .ifElse offset (expr "cond") (block "then") (block "else")
  | "While" => .whileLoop offset (expr "cond") (block "body")
  | "Break" => .breakLoop offset
  | "Continue" => .continueLoop offset
  | "Return" => .leave offset
  | "CallStatement" => .callStatement offset (expr "call")
  | "InvocationStatement" => .invocationStatement offset (expr "call")
  | _ => .block (nodeBlock offset parts)

end Reading

mutual

def Outline.reading : Outline → Reading
  | .node name offset parts =>
    let read := readings parts
    { expr := Reading.nodeExpr name offset read
      statement := Reading.nodeStatement name offset read
      block := Reading.nodeBlock offset read }
  | .list items =>
    let read := listReadings items
    { exprs := read.map Reading.expr, statements := read.map Reading.statement }
  | .text content => { text := content }
  | .ident name => { ident := name }
  | .literal value => { literal := value }
  | .type named => { type := named }
  | _ => {}

def Outline.readings : List (String × Outline) → List (String × Reading)
  | [] => []
  | (label, part) :: rest => (label, reading part) :: readings rest

def Outline.listReadings : List Outline → List Reading
  | [] => []
  | first :: rest => reading first :: listReadings rest

end

end HostScript

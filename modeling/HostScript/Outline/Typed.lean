import HostScript.Outline.Tree
import HostScript.Typed.Basic

/-!
# Outlines of typed trees

Beside the parts of the tree as written, nodes show types, symbols and members.
-/

namespace HostScript.Typed

def Expr.node (expression : Expr) (name : String) (parts : List (String × Outline)) : Outline :=
  .node name expression.offset (parts ++ Outline.optional "t" .type expression.type?)

mutual

def Expr.outline : Expr → Outline
  | .literal offset value =>
    (Expr.literal offset value).node (Outline.literalName value) (Outline.literalParts value)
  | .reference offset name symbol =>
    (Expr.reference offset name symbol).node "Reference"
      (("name", .text name) :: Outline.optional "sym" Outline.ofSymbol symbol)
  | .operator offset op left right overload type =>
    (Expr.operator offset op left right overload type).node "Operator"
      ([("op", .text op.text), ("l", outline left), ("r", outline right)]
        ++ Outline.optional "overload" Outline.ofMethod overload)
  | .unary offset op operand type =>
    (Expr.unary offset op operand type).node "Unary"
      [("op", .text op.text), ("e", outline operand)]
  | .conditional offset condition yes no type =>
    (Expr.conditional offset condition yes no type).node "Conditional"
      [("cond", outline condition), ("yes", outline yes), ("no", outline no)]
  | .cast offset name type operand =>
    (Expr.cast offset name type operand).node "Cast"
      [("type", (name.map Outline.ident).getD .absent), ("e", outline operand)]
  | .call offset name method arguments =>
    (Expr.call offset name method arguments).node "Call"
      [("name", .ident name), ("args", .list (outlines arguments)),
        ("sym", Outline.ofSymbol (.method name.name method))]
  | .expansion offset name transform arguments pieces =>
    (Expr.expansion offset name transform arguments pieces).node "Call"
      [("name", .ident name), ("args", .list (outlines arguments)),
        ("sym", Outline.ofSymbol (.transform name.name transform))]
  | .invocation offset target name arguments method =>
    (Expr.invocation offset target name arguments method).node "Invocation"
      [("target", outline target), ("name", .ident name), ("args", .list (outlines arguments)),
        ("member", Outline.ofMethod method)]
  | .lateInvocation offset target name arguments =>
    (Expr.lateInvocation offset target name arguments).node "LateInvocation"
      [("target", outline target), ("name", .ident name), ("args", .list (outlines arguments))]
  | .property offset target name member =>
    (Expr.property offset target name member).node "Property"
      [("target", outline target), ("name", .ident name), ("member", Outline.ofMember member)]
  | .lateProperty offset target name =>
    (Expr.lateProperty offset target name).node "LateProperty"
      [("target", outline target), ("name", .ident name)]
  | .index offset target indices indexer type =>
    (Expr.index offset target indices indexer type).node "Index"
      ([("target", outline target), ("index", .list (outlines indices))]
        ++ Outline.optional "member" (fun property => Outline.ofMember (.property property))
          indexer)

def Expr.outlines : List Expr → List Outline
  | [] => []
  | first :: rest => outline first :: outlines rest

end

mutual

def Statement.outline : Statement → Outline
  | .block inner => Block.outline inner
  | .assignment offset target value =>
    .node "Assignment" offset [("target", target.outline), ("value", value.outline)]
  | .declaration offset type name declared value =>
    .node "Declaration" offset
      [("type", .ident type), ("name", .ident name), ("value", value.outline),
        ("sym", Outline.ofSymbol (.variable declared))]
  | .persistent offset type name declared =>
    .node "Persistent" offset
      [("type", .ident type), ("name", .ident name),
        ("sym", Outline.ofSymbol (.variable declared))]
  | .ifThen offset condition yes =>
    .node "If" offset [("cond", condition.outline), ("then", Block.outline yes)]
  | .ifElse offset condition yes no =>
    .node "IfElse" offset
      [("cond", condition.outline), ("then", Block.outline yes), ("else", Block.outline no)]
  | .whileLoop offset condition body =>
    .node "While" offset [("cond", condition.outline), ("body", Block.outline body)]
  | .breakLoop offset => .node "Break" offset []
  | .continueLoop offset => .node "Continue" offset []
  | .leave offset => .node "Return" offset []
  | .callStatement offset call => .node "CallStatement" offset [("call", call.outline)]
  | .invocationStatement offset call => .node "InvocationStatement" offset [("call", call.outline)]

def Block.outline : Block → Outline
  | .mk offset scope body =>
    .node "Block" offset
      [("scope", .list (scope.map Outline.ofSymbol)), ("body", .list (Statement.outlines body))]

def Statement.outlines : List Statement → List Outline
  | [] => []
  | first :: rest => Statement.outline first :: Statement.outlines rest

end

end HostScript.Typed

import HostScript.Typed.Basic

/-!
# Conversions and operators


-/

namespace HostScript

open Typed (Expr)

def Operator.overloadName? : Operator → Option Text
  | .add => some "op_Addition"
  | .subtract => some "op_Subtraction"
  | .multiply => some "op_Multiply"
  | .divide => some "op_Division"
  | .modulo => some "op_Modulus"
  | .bitAnd => some "op_BitwiseAnd"
  | .bitOr => some "op_BitwiseOr"
  | .less => some "op_LessThan"
  | .greater => some "op_GreaterThan"
  | .lessEqual => some "op_LessThanOrEqual"
  | .greaterEqual => some "op_GreaterThanOrEqual"
  | .equal => some "op_Equality"
  | .notEqual => some "op_Inequality"
  | .either => some "op_LogicalOr"
  | .both => some "op_LogicalAnd"
  | _ => none

namespace Analysis

variable (types : Universe)

def overload? (op : Operator) (left right : Ty) : Option Method :=
  match op.overloadName? with
  | none => none
  | some name =>
    (types.methods left name true ++ types.methods right name true).find? fun method =>
      method.params == [left, right]

/-- A conversion to a type other than `bool`; one that was written has the name of the type. -/
def convertTo (offset : Nat) (name : Option Ident) (expression : Expr) (target : Ty) :
    Except CompileFailure Expr :=
  let source := expression.type
  let converted : Expr := .cast offset name target expression
  if source.isValue && target.isReference then
    if types.isAssignable target source then .ok converted
    else .error (semantic offset (.cannotBox source target))
  else if source.isReference && target.isValue then
    if types.isAssignable source target then .ok converted
    else .error (semantic offset (.cannotUnbox source target))
  else .ok converted

/-- The conversion of a number to a type of numbers; a number of the type stays. -/
def toNumber (expression : Expr) (target : Ty) : Except CompileFailure Expr :=
  if expression.type = target then .ok expression
  else convertTo types expression.offset none expression target

/-- The comparison of a value that is no boolean with zero or with the null reference. -/
def truth (offset : Nat) (operand : Expr) : Except CompileFailure Expr :=
  let source := operand.type
  if source.isReference then
    .ok (.operator offset .notEqual operand (.literal offset .null) none .bool)
  else
    let zero : Expr := .literal offset (.integer 0)
    match overload? types .notEqual source .int32 with
    | some method => .ok (.operator offset .notEqual operand zero (some method) method.type)
    | none =>
      if source.isValue then do
        let common := types.compatible source .int32
        let left ← toNumber types operand common
        let right ← toNumber types zero common
        return .operator offset .notEqual left right none .bool
      else .error (semantic offset .notNumeric)

def castTo (expression : Expr) (target : Ty) : Except CompileFailure Expr :=
  let source := expression.type
  let offset := expression.offset
  if source = target then .ok expression
  else if target = .void then .error (semantic offset .castToVoid)
  else if source = .void then .error (semantic offset .castFromVoid)
  else
    match expression, target with
    | .literal offset (.float bits), .string =>
      .ok (.literal offset (.string (Binary.single.text Binary.general bits.toNat)))
    | _, .prim .bool => truth types offset expression
    | _, _ => convertTo types offset none expression target

def writtenCast (offset : Nat) (name : Ident) (target : Ty) (operand : Expr) :
    Except CompileFailure Expr :=
  let source := operand.type
  if source = target then .ok operand
  else if source = .void then .error (semantic offset .castFromVoid)
  else if target = .void then .error (semantic offset .castToVoid)
  else if target = .bool then truth types offset operand
  else convertTo types offset (some name) operand target

def operatingType (op : Operator) (left right : Ty) : Ty :=
  match op with
  | .bitAnd | .bitOr => .int32
  | .both | .either => .bool
  | .divide =>
    match types.compatible left right with
    | .prim (.float kind) => .prim (.float kind)
    | _ => .single
  | _ => types.compatible left right

def operator (offset : Nat) (op : Operator) (left right : Expr) : Except CompileFailure Expr :=
  match overload? types op left.type right.type with
  | some method => .ok (.operator offset op left right (some method) method.type)
  | none =>
    if left.type.isReference then
      if !right.type.isReference then .error (semantic offset .mixedComparison)
      else if op = .equal ∨ op = .notEqual then
        .ok (.operator offset op left right none .bool)
      else .error (semantic offset (.notOnReferences op))
    else if left.type.isValue && right.type.isValue then do
      let common := operatingType types op left.type right.type
      let first ← castTo types left common
      let second ← castTo types right common
      return .operator offset op first second none (if op.isComparison then .bool else common)
    else .error (semantic offset .notNumeric)

end Analysis

end HostScript

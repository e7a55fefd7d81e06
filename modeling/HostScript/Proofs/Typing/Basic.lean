import HostScript.Typed.Basic

namespace HostScript

/-!
# Typing of analysed trees

`Expr.Sound` says that the operands of an expression have the types that its members and
operators ask for.
-/

theorem Kind.ofNumber?_number (kind : Kind) : ofNumber? kind.number = some kind := by
  cases kind with
  | prim primitive =>
    cases primitive with
    | bool => rfl
    | int kind => cases kind <;> rfl
    | float kind => cases kind <;> rfl
  | _ => rfl

theorem Kind.number_lt (kind : Kind) : kind.number < 17 := by
  cases kind with
  | prim primitive =>
    cases primitive with
    | bool => decide
    | int kind => cases kind <;> decide
    | float kind => cases kind <;> decide
  | _ => decide

/-- Whether a type is one of data: not `void`, and no array of it. -/
def Ty.isData : Ty → Bool
  | .void => false
  | .array element _ => element.isData
  | _ => true

variable {type : Ty}

theorem Ty.ne_void_of_isData (isData : type.isData) : type ≠ .void := by
  rintro rfl
  exact nomatch isData

theorem Ty.exists_prim (isValue : type.isValue) : ∃ prim, type = .prim prim := by
  cases type <;> simp_all [Ty.isValue]

theorem Ty.isData_of_isValue (isValue : type.isValue) : type.isData := by
  cases type <;> first | rfl | exact nomatch isValue

/-- Whether a type may be that of an expression: `void` or one of data. -/
def Ty.IsResult (type : Ty) : Prop :=
  type = .void ∨ type.isData = true

theorem Ty.IsResult.isData (isResult : type.IsResult) (notVoid : type ≠ .void) : type.isData :=
  isResult.resolve_left notVoid

namespace Typed

/-- What is asked of the members that an analysed tree uses. -/
structure Rules where
  field : Field → Prop
  property : Property → Prop
  method : Method → Prop
  /-- The types that may stand for a boolean. -/
  truthful : Ty → Prop

variable {rules : Rules}

namespace Rules

/-- A value of one type may be used where another is wanted. -/
def Fits (rules : Rules) (actual wanted : Ty) : Prop :=
  actual = wanted ∨ wanted = .bool ∧ rules.truthful actual

/-- What is asked of a member that is read or written without index. -/
def Member (rules : Rules) : DataMember → Prop
  | .field field => rules.field field
  | .property property => rules.property property ∧ property.params = []

/-- Rules under which the values of all members are data. -/
structure Proper (rules : Rules) : Prop where
  field : ∀ field, rules.field field → field.type.isData = true
  property : ∀ property, rules.property property →
    property.type.isData = true ∧ ∀ param ∈ property.params, param.isData = true
  method : ∀ method, rules.method method →
    method.type.IsResult ∧ ∀ param ∈ method.params, param.isData = true
  truthful : ∀ type, rules.truthful type → type.isData = true

theorem Proper.member (proper : rules.Proper) {member}
    (allowed : rules.Member member) : member.type.isData := by
  cases member with
  | field stored => exact proper.field stored allowed
  | property computed => exact (proper.property computed allowed.1).1

theorem Proper.isData_of_fits (proper : rules.Proper) (fits : rules.Fits actual want)
    (isData : want.isData) : actual.isData := by
  rcases fits with same | ⟨_, truthful⟩
  · exact same ▸ isData
  · exact proper.truthful actual truthful

end Rules

def OperationSound (rules : Rules) (op : Operator) (left right type : Ty) : Prop :=
  if op = .both ∨ op = .either then rules.Fits left .bool ∧ rules.Fits right .bool ∧ type = .bool
  else
    left.isReference = true ∧ right.isReference = true ∧ (op = .equal ∨ op = .notEqual) ∧
        type = .bool ∨
      ∃ primitive, left = .prim primitive ∧ right = .prim primitive ∧
        type = (if op.isComparison then .bool else .prim primitive) ∧
        (op = .bitAnd ∨ op = .bitOr → primitive = .int .int32)

section

variable (rules : Rules) (types : Universe) (locals : Array Ty)

/-- A variable has its slot and its type. -/
def VariableSound (decl : Variable) : Prop :=
  locals[decl.slot]? = some decl.type ∧ decl.type.isData = true

mutual

def Expr.Sound : Expr → Prop
  | .literal _ _ => True
  | .reference _ _ (some (.variable decl)) => VariableSound locals decl
  | .reference _ _ (some (.field _ field)) => rules.field field
  | .reference _ _ _ => False
  | .operator _ _ left right (some method) type =>
    left.Sound ∧ right.Sound ∧ rules.method method ∧
      method.params = [left.type, right.type] ∧ type = method.type
  | .operator _ op left right none type =>
    left.Sound ∧ right.Sound ∧ OperationSound rules op left.type right.type type
  | .unary _ op operand type =>
    operand.Sound ∧ (op = .negate ∧ operand.type.isValue = true ∧ type = operand.type ∨
        op = .complement ∧ rules.Fits operand.type .bool ∧ type = .bool)
  | .conditional _ cond yes no type =>
    cond.Sound ∧ yes.Sound ∧ no.Sound ∧ rules.Fits cond.type .bool ∧
      rules.Fits yes.type type ∧ rules.Fits no.type type
  | .cast _ _ target operand =>
    operand.Sound ∧ operand.type.isData = true ∧ target.isData = true ∧ target ≠ .bool ∧
      (operand.type.isValue = true → target.isReference = true →
        types.isAssignable target operand.type = true)
  | .call _ _ method args =>
    rules.method method ∧ Expr.AllSound args method.params
  | .expansion _ _ transform _ _ => transform.result.IsResult
  | .invocation _ target _ args method =>
    rules.method method ∧ Expr.AllSound args method.params ∧
      (method.isStatic = false → target.Sound ∧ target.type.isData = true)
  | .lateInvocation _ target _ args =>
    target.Sound ∧ target.type.isData = true ∧ Expr.AllSound args (args.map fun _ => .object)
  | .property _ target _ member =>
    rules.Member member ∧ (member.isStatic = false → target.Sound ∧ target.type.isData = true)
  | .lateProperty _ target _ => target.Sound ∧ target.type.isData = true
  | .index _ target indices none type =>
    target.Sound ∧ target.type = .array type indices.length ∧
      type.isData = true ∧ Expr.AllSound indices (indices.map fun _ => .int32)
  | .index _ target indices (some indexer) type =>
    rules.property indexer ∧ type = indexer.type ∧ Expr.AllSound indices indexer.params ∧
      (indexer.isStatic = false → target.Sound ∧ target.type.isData = true)

def Expr.AllSound : List Expr → List Ty → Prop
  | [], wanted => wanted = []
  | first :: rest, wanted =>
    ∃ type others, wanted = type :: others ∧ first.Sound ∧ rules.Fits first.type type ∧
      Expr.AllSound rest others

end

mutual

def Statement.Sound : Statement → Prop
  | .block body => body.Sound
  | .assignment _ target value =>
    target.Sound rules types locals ∧ value.Sound rules types locals ∧
      rules.Fits value.type target.type
  | .declaration _ _ _ decl value =>
    VariableSound locals decl ∧ value.Sound rules types locals ∧ rules.Fits value.type decl.type
  | .persistent _ _ _ decl => VariableSound locals decl
  | .ifThen _ cond yes =>
    cond.Sound rules types locals ∧ rules.Fits cond.type .bool ∧ yes.Sound
  | .ifElse _ cond yes no =>
    cond.Sound rules types locals ∧ rules.Fits cond.type .bool ∧ yes.Sound ∧ no.Sound
  | .whileLoop _ cond body =>
    cond.Sound rules types locals ∧ rules.Fits cond.type .bool ∧ body.Sound
  | .breakLoop _ | .continueLoop _ | .leave _ => True
  | .callStatement _ call | .invocationStatement _ call => call.Sound rules types locals

/-- The expressions of a block have the types that are asked for. -/
def Block.Sound : Block → Prop
  | .mk _ _ body => Statement.AllSound body

/-- The expressions of statements have the types that are asked for. -/
def Statement.AllSound : List Statement → Prop
  | [] => True
  | first :: rest => first.Sound ∧ Statement.AllSound rest

end

end

/--
The tree of a script and its persistent variables are sound; each persistent variable has a
slot of its own.
-/
structure Script.Sound (rules : Rules) (types : Universe) (typed : Script) : Prop where
  body : typed.body.Sound rules types typed.locals
  persistent : ∀ decl ∈ typed.persistent, VariableSound typed.locals decl
  ascending : (typed.persistent.map Variable.slot).Pairwise (· < ·)

theorem Rules.Fits.isResult (fits : rules.Fits actual want) (isResult : actual.IsResult) :
    want.IsResult := by
  rcases fits with same | ⟨isBool, _⟩
  · exact same ▸ isResult
  · exact .inr (isBool ▸ rfl)

theorem OperationSound.isResult (sound : OperationSound rules op left right type) :
    type.IsResult := by
  unfold OperationSound at sound
  split at sound
  · exact .inr (sound.2.2 ▸ rfl)
  · rcases sound with ⟨_, _, _, isBool⟩ | ⟨_, _, _, shape, _⟩
    · exact .inr (isBool ▸ rfl)
    · rw [shape]
      split <;> exact .inr rfl

section

variable {types : Universe} {locals : Array Ty}

/-- The type of a sound expression is `void` or one of data. -/
theorem Expr.Sound.isResult (proper : rules.Proper) {expr : Expr}
    (sound : expr.Sound rules types locals) : expr.type.IsResult := by
  match expr, sound with
  | .literal _ val, _ => exact .inr (by cases val <;> rfl)
  | .reference _ _ (some (.variable _)), sound => exact .inr sound.2
  | .reference _ _ (some (.field _ field)), sound => exact .inr (proper.field field sound)
  | .operator _ _ _ _ (some meth) _, ⟨_, _, allowed, _, same⟩ =>
    exact same ▸ (proper.method meth allowed).1
  | .operator _ _ _ _ none _, ⟨_, _, operation⟩ => exact operation.isResult
  | .unary _ _ arg type, ⟨_, .inl ⟨_, isValue, same⟩⟩ =>
    exact .inr (same ▸ Ty.isData_of_isValue isValue)
  | .unary _ _ _ _, ⟨_, .inr ⟨_, _, same⟩⟩ => exact .inr (same ▸ rfl)
  | .conditional _ _ yes _ _, ⟨_, yesSound, _, _, fits, _⟩ =>
    exact fits.isResult (Expr.Sound.isResult proper yesSound)
  | .cast _ _ _ _, ⟨_, _, isData, _⟩ => exact .inr isData
  | .call _ _ meth _, ⟨allowed, _⟩ => exact (proper.method meth allowed).1
  | .expansion _ _ _ _ _, isResult => exact isResult
  | .invocation _ _ _ _ meth, ⟨allowed, _⟩ => exact (proper.method meth allowed).1
  | .lateInvocation _ _ _ _, _ => exact .inr rfl
  | .property _ _ _ _, ⟨allowed, _⟩ => exact .inr (proper.member allowed)
  | .lateProperty _ _ _, _ => exact .inr rfl
  | .index _ _ _ none _, ⟨_, _, isData, _⟩ => exact .inr isData
  | .index _ _ _ (some indexer) _, ⟨allowed, same, _⟩ =>
    exact .inr (same ▸ (proper.property indexer allowed).1)

end

end Typed

end HostScript

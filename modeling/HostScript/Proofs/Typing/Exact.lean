import HostScript.Proofs.Meter

namespace HostScript

open Typed (Expr)
open List

/-!
# Analysed expressions are well typed

`Expr.WellTyped` has the rule of each node of an analysed expression.
-/

namespace Typed

def Expr.isUnwritten : Expr → Bool
  | .cast _ none _ _ => true
  | _ => false

/-- The expression that a conversion that was not written is made of. -/
def Expr.unconverted : Expr → Expr
  | .cast _ none _ operand => operand
  | expression => expression

section

variable (types : Universe)

/-- What a conversion may do: convert numbers, box, unbox, or look at a reference as another. -/
def CastRule (source target : Ty) : Prop :=
  target ≠ .bool ∧ (source.isValue = true ∧ target.isValue = true ∨
      source.isValue = true ∧ target.isReference = true ∧ types.isAssignable target source = true ∨
      source.isReference = true ∧ target.isValue = true ∧ types.isAssignable source target = true ∨
      source.isReference = true ∧ target.isReference = true)

def OperationRule (op : Operator) (left right : Expr) (type : Ty) : Prop :=
  left.type.isReference = true ∧ right.type.isReference = true ∧
      (op = .equal ∨ op = .notEqual) ∧ type = .bool ∨
    ∃ primitive, left.type = .prim primitive ∧ right.type = .prim primitive ∧
      type = (if op.isComparison then .bool else .prim primitive) ∧
      match op with
      | .bitAnd | .bitOr => primitive = .int .int32
      | .both | .either => primitive = .bool
      | .divide => ∃ kind, primitive = .float kind
      | _ => .prim primitive = types.compatible left.unconverted.type right.unconverted.type

mutual

def Expr.WellTyped : Expr → Prop
  | .literal _ _ => True
  | .reference _ _ (some (.variable _)) | .reference _ _ (some (.field _ _)) => True
  | .reference _ _ _ => False
  | .operator _ _ left right (some method) type =>
    left.WellTyped ∧ right.WellTyped ∧ method.params = [left.type, right.type] ∧ type = method.type
  | .operator _ op left right none type =>
    left.WellTyped ∧ right.WellTyped ∧ OperationRule types op left right type
  | .unary _ op operand type =>
    operand.WellTyped ∧ operand.type = type ∧
      (op = .negate ∧ type.isValue = true ∨ op = .complement ∧ type = .bool)
  | .conditional _ cond yes no type =>
    cond.WellTyped ∧ yes.WellTyped ∧ no.WellTyped ∧ cond.type = .bool ∧
      yes.type = type ∧ no.type = type
  | .cast _ _ target operand => operand.WellTyped ∧ CastRule types operand.type target
  | .call _ _ method args =>
    Expr.AllWellTyped args ∧ args.map Expr.type = method.params
  | .expansion _ _ _ args _ => Expr.AllWellTyped args
  | .invocation _ target _ args method =>
    Expr.AllWellTyped args ∧ args.map Expr.type = method.params ∧
      if method.isStatic then target.namesType = true
      else target.WellTyped ∧ target.type ≠ .void
  | .lateInvocation _ target _ args =>
    target.WellTyped ∧ target.type ≠ .void ∧ Expr.AllWellTyped args ∧
      args.map Expr.type = args.map fun _ => .object
  | .property _ target _ mem =>
    if mem.isStatic then target.namesType = true
    else target.WellTyped ∧ target.type ≠ .void
  | .lateProperty _ target _ => target.WellTyped ∧ target.type ≠ .void
  | .index _ target indices none type =>
    target.WellTyped ∧ target.type = .array type indices.length ∧
      Expr.AllWellTyped indices ∧ indices.map Expr.type = indices.map fun _ => .int32
  | .index _ target indices (some indexer) type =>
    Expr.AllWellTyped indices ∧ indices.map Expr.type = indexer.params ∧ type = indexer.type ∧
      (target.namesType = true ∧ indexer.isStatic = true ∨ target.WellTyped ∧ target.type ≠ .void)

/-- Every node of all expressions obeys its rule. -/
def Expr.AllWellTyped : List Expr → Prop
  | [] => True
  | first :: rest => first.WellTyped ∧ Expr.AllWellTyped rest

end

end

end Typed

def Universe.HasPlainPrimitives (types : Universe) : Prop :=
  ∀ primitive op name, Operator.overloadName? op = some name →
    types.methods (.prim primitive) name true = []

namespace Analysis

open Typed (CastRule OperationRule)

section

variable {types : Universe} {given converted : Expr}

theorem overload?_prim (plain : types.HasPlainPrimitives) (op : Operator) (left right : Prim) :
    overload? types op (.prim left) (.prim right) = none := by
  unfold overload?
  split
  · rfl
  · next _ named => simp [plain _ _ _ named]

theorem castRule (sourceNotVoid : type ≠ .void) (targetNotVoid : tgt ≠ .void)
    (notBool : tgt ≠ .bool) (boxing : type.isValue → tgt.isReference → types.isAssignable tgt type)
    (unboxing : type.isReference → tgt.isValue → types.isAssignable type tgt) :
    CastRule types type tgt := by
  refine ⟨notBool, ?_⟩
  cases type <;> cases tgt <;> simp_all [Ty.isValue, Ty.isReference]

theorem convertTo_exact (sourceNotVoid : given.type ≠ .void) (targetNotVoid : tgt ≠ .void)
    (notBool : tgt ≠ .bool) (done : convertTo types off none given tgt = .ok converted) :
    converted.type = tgt ∧ converted.unconverted = given ∧
      (given.WellTyped types → converted.WellTyped types) := by
  obtain ⟨rfl, boxing, unboxing⟩ := convertTo_eq_ok done
  exact ⟨rfl, rfl, fun well => ⟨well, castRule sourceNotVoid targetNotVoid notBool boxing unboxing⟩⟩

theorem unconverted_of_written (written : given.isUnwritten = false) :
    given.unconverted = given := by
  unfold Expr.unconverted
  split
  · exact nomatch written
  · rfl

theorem toNumber_exact (sourceNotVoid : given.type ≠ .void) (notBool : prim ≠ .bool)
    (done : toNumber types given (.prim prim) = .ok converted) :
    converted.type = .prim prim ∧ (given.isUnwritten = false → converted.unconverted = given) ∧
      (given.WellTyped types → converted.WellTyped types) := by
  unfold toNumber at done
  split at done
  · next same => exact Except.ok.inj done ▸ ⟨same, unconverted_of_written, id⟩
  · have notVoid : Ty.prim prim ≠ .void := nofun
    have notBool : Ty.prim prim ≠ .bool := fun isBool => notBool (Ty.prim.inj isBool)
    obtain ⟨type, unconverted, well⟩ := convertTo_exact sourceNotVoid notVoid notBool done
    exact ⟨type, fun _ => unconverted, well⟩

theorem castTo_unconverted (onlyBool : prim = .bool → given.type = .bool)
    (written : given.isUnwritten = false) (done : castTo types given (.prim prim) = .ok converted) :
    converted.unconverted = given := by
  unfold castTo at done
  dsimp only at done
  split at done
  · exact Except.ok.inj done ▸ unconverted_of_written written
  · next differs =>
    have notVoid : Ty.prim prim ≠ .void := nofun
    rw [if_neg notVoid] at done
    split at done
    · cases done
    · next sourceNotVoid =>
      split at done
      · next isString => exact nomatch isString
      · next isBool =>
        cases isBool
        exact absurd (onlyBool rfl) differs
      · next notBool _ => exact (convertTo_exact sourceNotVoid notVoid notBool done).2.1

variable (plain : types.HasPlainPrimitives)

include plain

theorem truth_exact (sourceNotVoid : given.type ≠ .void)
    (done : truth types off given = .ok converted) :
    converted.type = .bool ∧ converted.isUnwritten = false ∧
      (given.WellTyped types → given.isUnwritten = false → converted.WellTyped types) := by
  unfold truth at done
  dsimp only at done
  split at done
  · next isReference =>
    cases done
    exact ⟨rfl, rfl, fun well _ => ⟨well, trivial, Or.inl ⟨isReference, rfl, Or.inr rfl, rfl⟩⟩⟩
  · next _ =>
    obtain ⟨prim, isPrimitive⟩ : ∃ prim, given.type = .prim prim := by
      cases src : given.type <;> simp_all [Ty.isReference]
    obtain ⟨common, isCommon, onlyBool⟩ := types.compatible_prim prim (.int .int32)
    rw [isPrimitive, show Ty.int32 = .prim (.int .int32) from rfl, overload?_prim plain,
      isCommon] at done
    have notBool : common ≠ .bool := fun isBool => Prim.noConfusion (onlyBool isBool).2
    obtain ⟨_, leftDone, done⟩ := ok_of_bind done
    obtain ⟨_, rightDone, done⟩ := ok_of_bind done
    cases done
    obtain ⟨leftType, leftWas, leftWell⟩ := toNumber_exact sourceNotVoid notBool leftDone
    have zeroNotVoid : (Expr.literal off (.integer 0)).type ≠ .void := Ty.noConfusion
    obtain ⟨rightType, rightWas, rightWell⟩ := toNumber_exact zeroNotVoid notBool rightDone
    refine ⟨rfl, rfl, fun well written => ⟨leftWell well, rightWell trivial, Or.inr
      ⟨common, leftType, rightType, rfl, ?_⟩⟩⟩
    dsimp only
    rw [leftWas written, rightWas rfl, isPrimitive]
    exact isCommon.symm

theorem castTo_exact (done : castTo types given tgt = .ok converted) :
    converted.type = tgt ∧
      (given.WellTyped types → given.isUnwritten = false → converted.WellTyped types) := by
  unfold castTo at done
  dsimp only at done
  split at done
  · next same => exact Except.ok.inj done ▸ ⟨same, fun well _ => well⟩
  · split at done
    · cases done
    · next targetNotVoid =>
      split at done
      · cases done
      · next sourceNotVoid =>
        split at done
        · exact Except.ok.inj done ▸ ⟨rfl, fun _ _ => trivial⟩
        · obtain ⟨type, _, well⟩ := truth_exact plain sourceNotVoid done
          exact ⟨type, well⟩
        · next notBool _ =>
          obtain ⟨type, _, well⟩ := convertTo_exact sourceNotVoid targetNotVoid notBool done
          exact ⟨type, fun wasWell _ => well wasWell⟩

theorem writtenCast_exact (well : given.WellTyped types) (written : given.isUnwritten = false)
    (done : writtenCast types off name tgt given = .ok converted) :
    converted.WellTyped types ∧ converted.isUnwritten = false := by
  unfold writtenCast at done
  dsimp only at done
  split at done
  · exact Except.ok.inj done ▸ ⟨well, written⟩
  · split at done
    · cases done
    · next sourceNotVoid =>
      split at done
      · cases done
      · next targetNotVoid =>
        split at done
        · obtain ⟨_, isWritten, isWell⟩ := truth_exact plain sourceNotVoid done
          exact ⟨isWell well written, isWritten⟩
        · next notBool =>
          obtain ⟨rfl, boxing, unboxing⟩ := convertTo_eq_ok done
          exact ⟨⟨well, castRule sourceNotVoid targetNotVoid notBool boxing unboxing⟩, rfl⟩

theorem operation_exact {left right} (leftWritten : left.isUnwritten = false)
    (rightWritten : right.isUnwritten = false)
    (areValues : (left.type.isValue && right.type.isValue))
    (firstDone : castTo types left (operatingType types op left.type right.type) = .ok first)
    (secondDone : castTo types right (operatingType types op left.type right.type) = .ok second) :
    OperationRule types op first second
      (if op.isComparison then .bool else operatingType types op left.type right.type) := by
  rw [Bool.and_eq_true] at areValues
  obtain ⟨leftPrim, isLeft⟩ := Ty.exists_prim areValues.1
  obtain ⟨rightPrim, isRight⟩ := Ty.exists_prim areValues.2
  obtain ⟨common, isCommon, onlyBool⟩ := types.compatible_prim leftPrim rightPrim
  have firstType := (castTo_exact plain firstDone).1
  have secondType := (castTo_exact plain secondDone).1
  have numbers : ∀ prim, operatingType types op left.type right.type = .prim prim →
      prim = common → first.unconverted = left ∧ second.unconverted = right := by
    rintro _ isOperating rfl
    rw [isOperating] at firstDone secondDone
    exact ⟨castTo_unconverted
        (fun isBool => isLeft.trans (congrArg Ty.prim (onlyBool isBool).1)) leftWritten firstDone,
      castTo_unconverted
        (fun isBool => isRight.trans (congrArg Ty.prim (onlyBool isBool).2)) rightWritten
        secondDone⟩
  refine .inr ?_
  cases op with
  | bitAnd | bitOr => exact ⟨.int .int32, firstType, secondType, rfl, rfl⟩
  | both | either => exact ⟨.bool, firstType, secondType, rfl, rfl⟩
  | divide =>
    obtain ⟨kind, isFloat⟩ : ∃ kind, operatingType types .divide left.type right.type =
        .prim (.float kind) := by
      unfold operatingType
      dsimp only
      rw [isLeft, isRight, isCommon]
      cases common with
      | float kind => exact ⟨kind, rfl⟩
      | bool | int kind => exact ⟨.single, rfl⟩
    exact ⟨.float kind, firstType.trans isFloat, secondType.trans isFloat,
      congrArg (ite _ _) isFloat, kind, rfl⟩
  | _ =>
    have isOperating := (congrArg₂ types.compatible isLeft isRight).trans isCommon
    obtain ⟨firstWas, secondWas⟩ := numbers common isOperating rfl
    refine ⟨common, firstType.trans isOperating, secondType.trans isOperating,
      congrArg (ite _ _) isOperating, ?_⟩
    dsimp only
    rw [firstWas, secondWas]
    exact isOperating.symm

theorem operator_exact {left right} (leftWell : left.WellTyped types)
    (rightWell : right.WellTyped types) (leftWritten : left.isUnwritten = false)
    (rightWritten : right.isUnwritten = false)
    (done : operator types off op left right = .ok operation) :
    operation.WellTyped types ∧ operation.isUnwritten = false := by
  unfold operator at done
  cases found : overload? types op left.type right.type with
  | some _ =>
    rw [found] at done
    cases done
    exact ⟨⟨leftWell, rightWell, (overload?_declared found).2, rfl⟩, rfl⟩
  | none =>
    rw [found] at done
    dsimp only at done
    split at done
    · next leftReference =>
      split at done
      · cases done
      · next rightReference =>
        have rightReference : right.type.isReference := by simpa using rightReference
        split at done
        · next comparison =>
          cases done
          exact ⟨⟨leftWell, rightWell, .inl ⟨leftReference, rightReference, comparison, rfl⟩⟩, rfl⟩
        · cases done
    · split at done
      · next areValues =>
        obtain ⟨_, firstDone, done⟩ := ok_of_bind done
        obtain ⟨_, secondDone, done⟩ := ok_of_bind done
        cases done
        exact ⟨⟨(castTo_exact plain firstDone).2 leftWell leftWritten,
          (castTo_exact plain secondDone).2 rightWell rightWritten,
          operation_exact plain leftWritten rightWritten areValues firstDone secondDone⟩, rfl⟩
      · cases done

theorem castAll_exact {given converted params}
    (areWell : ∀ argument ∈ given, argument.WellTyped types ∧ argument.isUnwritten = false)
    (many : given.length = params.length) (done : castAll types given params = .ok converted) :
    Expr.AllWellTyped types converted ∧ converted.map Expr.type = params := by
  induction given generalizing params converted with
  | nil =>
    obtain rfl := length_eq_zero_iff.mp many.symm
    cases done
    exact ⟨trivial, rfl⟩
  | cons _ _ ih =>
    cases params with
    | nil => exact nomatch many
    | cons _ params =>
      obtain ⟨argument, argumentDone, done⟩ := ok_of_bind done
      obtain ⟨_, followingDone, done⟩ := ok_of_bind done
      cases done
      rw [forall_mem_cons] at areWell
      obtain ⟨type, well⟩ := castTo_exact plain argumentDone
      obtain ⟨areTyped, followingTypes⟩ := ih areWell.2 (Nat.succ.inj many) followingDone
      exact ⟨⟨well areWell.1.1 areWell.1.2, areTyped⟩, congrArg₂ List.cons type followingTypes⟩

theorem castAll_exact_uniform {given converted param}
    (areWell : ∀ argument ∈ given, argument.WellTyped types ∧ argument.isUnwritten = false)
    (done : castAll types given (given.map fun _ => param) = .ok converted) :
    Expr.AllWellTyped types converted ∧ converted.map Expr.type = converted.map fun _ => param := by
  obtain ⟨areTyped, same⟩ := castAll_exact plain areWell (length_map _).symm done
  exact ⟨areTyped, same.trans (by rw [map_const', map_const', castAll_length done])⟩

omit plain in
theorem allWellTyped_of_forall (areWell : ∀ expr ∈ made, expr.WellTyped types) :
    Expr.AllWellTyped types made := by
  induction made with
  | nil => trivial
  | cons _ _ ih =>
    rw [forall_mem_cons] at areWell
    exact ⟨areWell.1, ih areWell.2⟩

end

section

variable {dialect : Dialect}

theorem Target.Proper.exact {tgt : Target} (proper : tgt.Proper) (val : tgt.isStatic = false →
      tgt.expression.WellTyped dialect.types ∧ tgt.expression.isUnwritten = false) :
    if tgt.isStatic then tgt.expression.namesType
    else tgt.expression.WellTyped dialect.types ∧ tgt.expression.type ≠ .void := by
  split
  · next isStatic => exact proper.named isStatic
  · next notStatic =>
    have notStatic : tgt.isStatic = false := by simpa using notStatic
    obtain ⟨same, notVoid⟩ := proper.value notStatic
    exact ⟨(val notStatic).1, same ▸ notVoid⟩

theorem Elaborated.exact (plain : dialect.types.HasPlainPrimitives)
    (elaborated : Elaborated dialect scopes False made) :
    made.WellTyped dialect.types ∧ made.isUnwritten = false := by
  induction elaborated with
  | literal => exact ⟨trivial, rfl⟩
  | reference _ _ isPlace =>
    rcases isPlace with ⟨_, rfl⟩ | ⟨_, _, rfl⟩
    · exact ⟨trivial, rfl⟩
    · exact ⟨trivial, rfl⟩
  | operator _ _ done left right =>
    exact operator_exact plain left.1 right.1 left.2 right.2 done
  | negation _ _ isValue arg => exact ⟨⟨arg.1, rfl, .inl ⟨rfl, isValue⟩⟩, rfl⟩
  | complement _ _ done arg =>
    obtain ⟨type, well⟩ := castTo_exact plain done
    exact ⟨⟨well arg.1 arg.2, type, .inr ⟨rfl, rfl⟩⟩, rfl⟩
  | conditional _ _ _ _ chosenDone firstDone secondDone cond yes no =>
    obtain ⟨chosenType, chosenWell⟩ := castTo_exact plain chosenDone
    obtain ⟨firstType, firstWell⟩ := castTo_exact plain firstDone
    obtain ⟨secondType, secondWell⟩ := castTo_exact plain secondDone
    exact ⟨⟨chosenWell cond.1 cond.2, firstWell yes.1 yes.2, secondWell no.1 no.2,
      chosenType, firstType, secondType⟩, rfl⟩
  | cast _ _ done arg => exact writtenCast_exact plain arg.1 arg.2 done
  | final allowed => exact allowed.elim
  | call _ _ _ many done given => exact ⟨castAll_exact plain given many done, rfl⟩
  | expansion _ _ _ _ given =>
    exact ⟨allWellTyped_of_forall fun argument mem => (given argument mem).1, rfl⟩
  | invocation _ proper _ _ candidate many done tgt given =>
    obtain ⟨areWell, params⟩ := castAll_exact plain given many done
    refine ⟨⟨areWell, params, ?_⟩, rfl⟩
    rw [Universe.isStatic_of_methods candidate]
    exact proper.exact tgt
  | lateInvocation _ _ _ notVoid _ done tgt given =>
    exact ⟨⟨tgt.1, notVoid, castAll_exact_uniform plain given done⟩, rfl⟩
  | property _ proper _ only tgt =>
    refine ⟨?_, rfl⟩
    unfold Expr.WellTyped
    rw [(Universe.dataMembers_obey Universe.obeys_nothing (only ▸ mem_singleton_self _)).2]
    exact proper.exact tgt
  | lateProperty _ _ _ notVoid tgt => exact ⟨⟨tgt.1, notVoid⟩, rfl⟩
  | element _ _ isArray _ done tgt given =>
    exact ⟨⟨tgt.1, castAll_length done ▸ isArray, castAll_exact_uniform plain given done⟩, rfl⟩
  | @indexed _ tgt _ _ _ proper _ _ isStatic _ many done targetExact given =>
    obtain ⟨areWell, params⟩ := castAll_exact plain given many done
    refine ⟨⟨areWell, params, rfl, ?_⟩, rfl⟩
    cases named : tgt.isStatic with
    | true => exact .inl ⟨proper.named named, isStatic named⟩
    | false =>
      obtain ⟨same, notVoid⟩ := proper.value named
      exact .inr ⟨(targetExact named).1, same ▸ notVoid⟩

end

end Analysis

namespace Meter

theorem plainPrimitives : dialect.types.HasPlainPrimitives := by
  intro _ _ _ _
  rw [eq_nil_iff_forall_not_mem]
  intro _ found
  exact (Universe.methods_obey
    (obeys ⟨fun _ => True, fun _ => True, fun _ => False, fun _ => True⟩) found).1

/-- The sum of an integer and a number with a fraction. -/
def mixedSum : Tree.Expr :=
  .operator 0 .add (.literal 0 (.integer 1)) (.literal 0 (.float 0x40200000))

end Meter

end HostScript

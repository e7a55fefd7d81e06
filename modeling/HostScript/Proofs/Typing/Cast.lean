import HostScript.Analysis.Cast
import HostScript.Proofs.Machine.Work
import HostScript.Proofs.Typing.Members

namespace HostScript

open Typed (Expr Rules)

/-!
# Conversions and operators are sound

What analysis makes of sound expressions is sound: a conversion fits the wanted type,
and an operation has operands of the types that it is done on.
-/

theorem Universe.compatible_isResult (tys : Universe) {left right}
    (leftResult : left.IsResult) (rightResult : right.IsResult) :
    (tys.compatible left right).IsResult := by
  unfold Universe.compatible
  split
  · exact leftResult
  · split
    · split
      · exact .inr rfl
      · split <;> exact .inr rfl
    · split
      · exact leftResult
      · split
        · exact rightResult
        · exact .inr rfl

/-- The type that two primitive types have in common is primitive, and `bool` only of `bool`. -/
theorem Universe.compatible_prim (tys : Universe) (left right : Prim) :
    ∃ common, tys.compatible (.prim left) (.prim right) = .prim common ∧
      (common = .bool → left = .bool ∧ right = .bool) := by
  unfold Universe.compatible
  split
  · next same =>
    have same : left = right := by simpa using same
    exact ⟨left, rfl, fun isBool => ⟨isBool, same ▸ isBool⟩⟩
  · dsimp only
    split
    · exact ⟨.int .int32, rfl, nofun⟩
    · split
      · exact ⟨.float .double, rfl, nofun⟩
      · exact ⟨.float .single, rfl, nofun⟩

namespace Analysis

/-- Types that are governed by rules: their members obey, and what a primitive type's own
comparison with zero yields may stand for a boolean. -/
structure Governed (types : Universe) (rules : Rules) : Prop where
  proper : rules.Proper
  obeys : types.Obeys rules
  truth : ∀ primitive method,
    overload? types .notEqual (.prim primitive) .int32 = some method → rules.Fits method.type .bool

section

variable {tys : Universe} {rules : Rules}

theorem overload?_declared (found : overload? tys op left right = some meth) :
    (∃ type name, meth ∈ tys.methods type name true) ∧ meth.params = [left, right] := by
  unfold overload? at found
  cases named : op.overloadName? with
  | none =>
    rw [named] at found
    cases found
  | some name =>
    rw [named] at found
    have agrees := List.find?_some found
    rw [beq_iff_eq] at agrees
    refine ⟨?_, agrees⟩
    rcases List.mem_append.mp (List.mem_of_find?_eq_some found) with inLeft | inRight
    · exact ⟨left, name, inLeft⟩
    · exact ⟨right, name, inRight⟩

theorem overload?_eq_some (obeys : tys.Obeys rules)
    (found : overload? tys op left right = some meth) :
    rules.method meth ∧ meth.params = [left, right] := by
  obtain ⟨⟨_, _, decl⟩, params⟩ := overload?_declared found
  exact ⟨(Universe.methods_obey obeys decl).1, params⟩

variable {tgt : Ty}

theorem convertTo_eq_ok {given : Expr} (done : convertTo tys off name given tgt = .ok converted) :
    converted = .cast off name tgt given ∧
      (given.type.isValue → tgt.isReference → tys.isAssignable tgt given.type) ∧
      (given.type.isReference → tgt.isValue → tys.isAssignable given.type tgt) := by
  have apart : ∀ type : Ty, type.isValue → type.isReference → False := by
    intro type isValue isReference
    cases type <;> simp_all [Ty.isValue, Ty.isReference]
  unfold convertTo at done
  dsimp only at done
  split at done
  · next boxed =>
    rw [Bool.and_eq_true] at boxed
    split at done
    · next assignable =>
      exact ⟨(Except.ok.inj done).symm, fun _ _ => assignable,
        fun isReference => (apart _ boxed.1 isReference).elim⟩
    · cases done
  · next notBoxed =>
    have never : given.type.isValue → tgt.isReference → tys.isAssignable tgt given.type :=
      fun isValue isReference => absurd (by rw [isValue, isReference]; rfl) notBoxed
    split at done
    · split at done
      · next assignable =>
        exact ⟨(Except.ok.inj done).symm, never, fun _ _ => assignable⟩
      · cases done
    · next notUnboxed =>
      exact ⟨(Except.ok.inj done).symm, never, fun isReference isValue =>
        absurd (by rw [isReference, isValue]; rfl) notUnboxed⟩

theorem convertTo_sound (sound : given.Sound rules tys locals)
    (sourceData : given.type.isData) (tgtData : tgt.isData)
    (notBool : tgt ≠ .bool) (done : convertTo tys off name given tgt = .ok converted) :
    converted.Sound rules tys locals ∧ converted.type = tgt := by
  obtain ⟨rfl, boxing, _⟩ := convertTo_eq_ok done
  exact ⟨⟨sound, sourceData, tgtData, notBool, boxing⟩, rfl⟩

theorem toNumber_sound (sound : given.Sound rules tys locals) (sourceData : given.type.isData)
    (tgtData : tgt.isData) (notBool : tgt ≠ .bool) (done : toNumber tys given tgt = .ok converted) :
    converted.Sound rules tys locals ∧ converted.type = tgt := by
  unfold toNumber at done
  split at done
  · next same => exact Except.ok.inj done ▸ ⟨sound, same⟩
  · exact convertTo_sound sound sourceData tgtData notBool done

section

variable (gov : Governed tys rules)

include gov

section

variable {given : Expr} (sound : given.Sound rules tys locals)

include sound

theorem truth_sound (sourceData : given.type.isData) (done : truth tys off given = .ok converted) :
    converted.Sound rules tys locals ∧ rules.Fits converted.type .bool := by
  unfold truth at done
  dsimp only at done
  split at done
  · next isReference =>
    cases done
    exact ⟨⟨sound, trivial, .inl ⟨isReference, rfl, .inr rfl, rfl⟩⟩, .inl rfl⟩
  · next _ =>
    obtain ⟨prim, isPrimitive⟩ : ∃ prim, given.type = .prim prim := by
      cases src : given.type <;> simp_all [Ty.isData, Ty.isReference]
    rw [isPrimitive] at done
    cases found : overload? tys .notEqual (.prim prim) .int32 with
    | some _ =>
      rw [found] at done
      cases done
      obtain ⟨allowed, params⟩ := overload?_eq_some gov.obeys found
      rw [← isPrimitive] at params
      exact ⟨⟨sound, trivial, allowed, params, rfl⟩, gov.truth _ _ found⟩
    | none =>
      rw [found] at done
      obtain ⟨common, isCommon, onlyBool⟩ := tys.compatible_prim prim (.int .int32)
      have isCommon : tys.compatible (.prim prim) .int32 = .prim common := isCommon
      have commonNotBool : Ty.prim common ≠ .bool := by
        intro isBool
        cases isBool
        cases (onlyBool rfl).2
      have zeroSound : Expr.Sound rules tys locals (.literal off (.integer 0)) := trivial
      have done := (if_pos rfl).symm.trans done
      rw [isCommon] at done
      obtain ⟨_, leftDone, done⟩ := ok_of_bind done
      obtain ⟨_, rightDone, done⟩ := ok_of_bind done
      obtain ⟨leftSound, leftType⟩ := toNumber_sound sound sourceData rfl commonNotBool leftDone
      obtain ⟨rightSound, rightType⟩ := toNumber_sound zeroSound rfl rfl commonNotBool rightDone
      cases done
      refine ⟨⟨leftSound, rightSound, .inr ⟨common, leftType, rightType, rfl, ?_⟩⟩, .inl rfl⟩
      intro bitwise
      rcases bitwise with absurd | absurd <;> cases absurd

theorem castTo_sound (targetResult : tgt.IsResult) (done : castTo tys given tgt = .ok converted) :
    converted.Sound rules tys locals ∧ rules.Fits converted.type tgt := by
  unfold castTo at done
  dsimp only at done
  split at done
  · next same => exact Except.ok.inj done ▸ ⟨sound, .inl same⟩
  · split at done
    · cases done
    · next targetNotVoid =>
      split at done
      · cases done
      · next sourceNotVoid =>
        have sourceData := (sound.isResult gov.proper).isData sourceNotVoid
        have tgtData := targetResult.isData targetNotVoid
        split at done
        · exact Except.ok.inj done ▸ ⟨trivial, .inl rfl⟩
        · exact truth_sound gov sound sourceData done
        · next notBool _ =>
          obtain ⟨convertedSound, same⟩ := convertTo_sound sound sourceData tgtData notBool done
          exact ⟨convertedSound, .inl same⟩

theorem castTo_number (onlyBool : prim = .bool → given.type = .bool)
    (done : castTo tys given (.prim prim) = .ok converted) :
    converted.Sound rules tys locals ∧ converted.type = .prim prim := by
  obtain ⟨convertedSound, same | ⟨isBool, _⟩⟩ := castTo_sound gov sound (.inr rfl) done
  · exact ⟨convertedSound, same⟩
  · cases isBool
    have same := onlyBool rfl
    have kept : castTo tys given (.prim .bool) = .ok given := if_pos same
    rw [kept] at done
    exact Except.ok.inj done ▸ ⟨sound, same⟩

theorem writtenCast_sound (targetResult : tgt.IsResult)
    (done : writtenCast tys off name tgt given = .ok converted) :
    converted.Sound rules tys locals := by
  unfold writtenCast at done
  dsimp only at done
  split at done
  · exact Except.ok.inj done ▸ sound
  · split at done
    · cases done
    · next sourceNotVoid =>
      split at done
      · cases done
      · next targetNotVoid =>
        have sourceData := (sound.isResult gov.proper).isData sourceNotVoid
        split at done
        · exact (truth_sound gov sound sourceData done).1
        · next notBool =>
          have tgtData := targetResult.isData targetNotVoid
          exact (convertTo_sound sound sourceData tgtData notBool done).1

end

omit gov in
theorem operatingType_prim (tys : Universe) (op : Operator) (left right : Prim) :
    if op = .both ∨ op = .either then operatingType tys op (.prim left) (.prim right) = .bool
    else
      ∃ common, operatingType tys op (.prim left) (.prim right) = .prim common ∧
        (common = .bool → left = .bool ∧ right = .bool) ∧
        (op = .bitAnd ∨ op = .bitOr → common = .int .int32) := by
  obtain ⟨common, isCommon, onlyBool⟩ := tys.compatible_prim left right
  cases op with
  | both | either => rfl
  | bitAnd | bitOr => exact ⟨.int .int32, rfl, nofun, fun _ => rfl⟩
  | divide =>
    rw [if_neg (by decide)]
    unfold operatingType
    rw [isCommon]
    cases common with
    | float kind => exact ⟨.float kind, rfl, nofun, nofun⟩
    | bool | int kind => exact ⟨.float .single, rfl, nofun, nofun⟩
  | _ => exact ⟨common, isCommon, onlyBool, nofun⟩

theorem operation_sound {left right}
    (leftSound : left.Sound rules tys locals) (rightSound : right.Sound rules tys locals)
    (areValues : (left.type.isValue && right.type.isValue))
    (firstDone : castTo tys left (operatingType tys op left.type right.type) = .ok first)
    (secondDone : castTo tys right (operatingType tys op left.type right.type) = .ok second) :
    Expr.Sound rules tys locals (.operator off op first second none
      (if op.isComparison then .bool else operatingType tys op left.type right.type)) := by
  rw [Bool.and_eq_true] at areValues
  obtain ⟨leftPrim, isLeft⟩ := Ty.exists_prim areValues.1
  obtain ⟨rightPrim, isRight⟩ := Ty.exists_prim areValues.2
  have operating := operatingType_prim tys op leftPrim rightPrim
  rw [← isLeft, ← isRight] at operating
  split at operating
  · next isLogical =>
    rw [operating] at firstDone secondDone ⊢
    obtain ⟨firstSound, firstFits⟩ := castTo_sound gov leftSound (.inr rfl) firstDone
    obtain ⟨secondSound, secondFits⟩ := castTo_sound gov rightSound (.inr rfl) secondDone
    refine ⟨firstSound, secondSound, ?_⟩
    unfold Typed.OperationSound
    rw [if_pos isLogical]
    exact ⟨firstFits, secondFits, ite_self _⟩
  · next notLogical =>
    obtain ⟨common, isCommon, onlyBool, bitwise⟩ := operating
    rw [isCommon] at firstDone secondDone ⊢
    obtain ⟨firstSound, firstType⟩ := castTo_number gov leftSound
      (fun isBool => isLeft.trans (congrArg Ty.prim (onlyBool isBool).1)) firstDone
    obtain ⟨secondSound, secondType⟩ := castTo_number gov rightSound
      (fun isBool => isRight.trans (congrArg Ty.prim (onlyBool isBool).2)) secondDone
    refine ⟨firstSound, secondSound, ?_⟩
    unfold Typed.OperationSound
    rw [if_neg notLogical]
    exact .inr ⟨common, firstType, secondType, rfl, bitwise⟩

theorem operator_sound {left right}
    (leftSound : left.Sound rules tys locals) (rightSound : right.Sound rules tys locals)
    (done : operator tys off op left right = .ok operation) : operation.Sound rules tys locals := by
  unfold operator at done
  cases found : overload? tys op left.type right.type with
  | some _ =>
    rw [found] at done
    cases done
    obtain ⟨allowed, params⟩ := overload?_eq_some gov.obeys found
    exact ⟨leftSound, rightSound, allowed, params, rfl⟩
  | none =>
    rw [found] at done
    dsimp only at done
    split at done
    · next leftReference =>
      split at done
      · cases done
      · next rightReference =>
        have rightReference : right.type.isReference := by simpa using rightReference
        split at done
        · next comparison =>
          cases done
          refine ⟨leftSound, rightSound, ?_⟩
          unfold Typed.OperationSound
          rw [if_neg (by rcases comparison with rfl | rfl <;> decide)]
          exact .inl ⟨leftReference, rightReference, comparison, rfl⟩
        · cases done
    · split at done
      · next areValues =>
        obtain ⟨_, firstDone, done⟩ := ok_of_bind done
        obtain ⟨_, secondDone, done⟩ := ok_of_bind done
        cases done
        exact operation_sound gov leftSound rightSound areValues firstDone secondDone
      · cases done

end

end

end Analysis

end HostScript

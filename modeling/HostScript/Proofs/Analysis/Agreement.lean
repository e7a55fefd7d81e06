import HostScript.Analysis.Resolve
import HostScript.Proofs.Evaluation.Basic
import HostScript.Proofs.Number.Exact
import HostScript.Proofs.Typing.Members

namespace HostScript

open Binary (single)
open Evaluation (converted value_literal)
open List
open Value (convert int integerValue ofScalar typeOf)

/-!
# Calls by type and calls by name

A method call is bound in two ways.
-/

theorem Ty.isValue_of_isReference {type : Ty} (isReference : type.isReference) :
    type.isValue = false := by
  cases type with
  | void | prim => cases isReference
  | string | object | named | array => rfl

def Value.isGenuine : Value → Bool
  | .object shown _ => shown.isReference
  | _ => true

/-- Types in which nothing lies below a primitive type or `void`. -/
structure Universe.IsGrounded (types : Universe) : Prop where
  base : ∀ {type parent}, types.base type = some parent → parent.isReference = true
  primitive : ∀ primitive, types.base (.prim primitive) = some .object
  object : types.base .object = none

/-- No type declares a comparison of a primitive type with `int32`. -/
def Universe.HasPlainNumbers (types : Universe) : Prop :=
  ∀ primitive : Prim, Analysis.overload? types .notEqual (.prim primitive) .int32 = none

namespace Universe

variable {tys : Universe}

theorem ancestorsWithin_eq_cons (tys : Universe) (bound : Nat) (type : Ty) :
    ∃ bases, tys.ancestorsWithin bound type = type :: bases := by
  cases bound with
  | zero => exact ⟨_, rfl⟩
  | succ bound =>
    unfold ancestorsWithin
    split <;> exact ⟨_, rfl⟩

theorem IsGrounded.isReference_of_mem (grounded : tys.IsGrounded) {bound type parent}
    (below : parent ∈ (tys.ancestorsWithin bound type).tail) : parent.isReference := by
  induction bound generalizing type with
  | zero => exact nomatch below
  | succ bound ih =>
    unfold ancestorsWithin at below
    split at below
    · next first isBase =>
      obtain ⟨_, chain⟩ := tys.ancestorsWithin_eq_cons bound first
      rw [tail_cons, chain] at below
      rcases mem_cons.mp below with rfl | _
      · exact grounded.base isBase
      · refine ih (show parent ∈ (tys.ancestorsWithin bound first).tail from ?_)
        rwa [chain]
    · exact nomatch below

theorem IsGrounded.eq_of_isAssignable (grounded : tys.IsGrounded) {target}
    (notReference : target.isReference = false) (assignable : tys.isAssignable target src) :
    src = target := by
  rw [isAssignable.eq_def] at assignable
  simp only [Bool.or_eq_true, beq_iff_eq, Bool.and_eq_true] at assignable
  rcases assignable with same | ⟨_, below⟩
  · exact same.symm
  · have contained : (tys.ancestors src).tail.contains target := by
      cases target with
      | void | prim =>
        simpa only [kind, reduceCtorEq, ↓reduceIte] using below
      | string | object | named | array => cases notReference
    have ref := grounded.isReference_of_mem (contains_iff_mem.mp contained)
    rw [notReference] at ref
    cases ref

/-- The only type that a primitive type lies below is `object`. -/
theorem IsGrounded.ancestors_prim (grounded : tys.IsGrounded) (primitive : Prim) :
    tys.ancestors (.prim primitive) = [.prim primitive, .object] := by
  simp only [ancestors, depth, ancestorsWithin, grounded.primitive, grounded.object]

theorem coerce_reference {target} (isReference : target.isReference) (value : Value) :
    tys.coerce value target =
      if value = .null || tys.isAssignableFrom target value.typeOf then .ok value
      else .error (.notAssignable value.typeOf target) := by
  cases target with
  | void | prim => cases isReference
  | string | object | named | array => rfl

theorem coerce_self {value type} (typed : value.typeOf = some type) :
    tys.coerce value type = .ok value := by
  have notNull : value ≠ .null := by
    rintro rfl
    cases typed
  cases type with
  | prim _ => simp only [coerce, notNull, typed, ↓reduceIte]
  | void | string | object | named | array =>
    simp only [coerce, typed, isAssignableFrom, isAssignable_self, Bool.or_true, ↓reduceIte]

theorem accepts_of_select {candidates args meth}
    (selected : tys.select candidates args = .ok meth) :
    ∀ pair ∈ meth.params.zip args, tys.accepts pair.1 pair.2 := by
  obtain ⟨-, agrees | test⟩ := select_cases selected
  · simp only [matchesExactly, beq_iff_eq] at agrees
    intro pair mem
    rw [← agrees, zip_map_right, mem_map] at mem
    obtain ⟨⟨_, _⟩, inside, rfl⟩ := mem
    obtain ⟨_, found⟩ := mem_iff_getElem?.mp inside
    obtain ⟨first, second⟩ := getElem?_zip_eq_some.mp found
    cases Option.some.inj (first.symm.trans second)
    simp only [Prod.map, accepts, tys.isAssignable_self, Bool.true_or, id_eq]
  · simp only [matchesLoosely, Bool.and_eq_true, all_eq_true] at test
    exact test.2

end Universe

theorem Act.mapM_of_still {action : α → Act H β} {given : α → β} {world : World H}
    (elements : List α) (still : ∀ elem ∈ elements, action elem world = (.ok (given elem), world)) :
    elements.mapM action world = (.ok (elements.map given), world) := by
  induction elements with
  | nil => rfl
  | cons _ _ ih =>
    obtain ⟨firstStill, restStill⟩ := forall_mem_cons.mp still
    rw [mapM_cons, bind_apply, firstStill]
    simp only [bind_apply, ih restStill]
    rfl

theorem Act.mapM_loadElement {list : ArrayRef} {given : List Value} {world : World H}
    (dimensions : list.dimensions = [given.length])
    (elements : world.elements list = given.toArray) :
    (List.range list.size).mapM (fun (i : Nat) => Act.loadElement list [(i : Int)]) world =
      (.ok given, world) := by
  have size : list.size = given.length := by
    rw [ArrayRef.size, dimensions]
    rfl
  have loaded : ∀ i ∈ List.range list.size,
      Act.loadElement list [(i : Int)] world = (.ok (given.getD i .null), world) := by
    intro i inside
    have below : i < given.length := size ▸ mem_range.mp inside
    have placed : list.offset [(i : Int)] = .ok i := by
      simp only [ArrayRef.offset, dimensions, length_cons, length_nil, ↓reduceIte,
        ArrayRef.offsetFrom, Int.zero_mul]
      rw [if_neg (by omega)]
      exact congrArg Except.ok (Int.zero_add _)
    simp only [Act.loadElement, Act.position, bind_apply, placed, Act.lift, pure_apply, get_apply,
      elements]
    rw [if_pos (by simpa using below)]
    simp [getD_eq_getElem?_getD, pure_apply, elements]
  rw [Act.mapM_of_still _ loaded, size]
  congr 2
  refine ext_getElem (by simp) fun i _ below => ?_
  simp [getElem?_eq_getElem below]

namespace Evaluation

variable {H : Type} {scene : Scene H}

theorem quietly_of_still (still : action scene.world = (.ok given, scene.world)) :
    quietly action scene = (.ok given, scene) := by
  simp only [quietly, act, still, append_nil]

end Evaluation

namespace Value

theorem exists_scalar {value : Value} (genuine : value.isGenuine)
    (type : value.typeOf = some (.prim primitive)) : ∃ scalar, value.scalar? = some scalar := by
  cases value with
  | bool | int | float => exact ⟨_, rfl⟩
  | object _ _ =>
    cases Option.some.inj type
    cases genuine
  | null | string | type | array | host | state | sealed | address => cases type

theorem type_ne_void {value : Value} {type : Ty} (genuine : value.isGenuine)
    (typed : value.typeOf = some type) : type ≠ .void := by
  rintro rfl
  cases value with
  | object _ _ =>
    cases Option.some.inj typed
    cases genuine
  | _ => cases typed

end Value

namespace Value

/-- A narrow integer differs from zero in 32 bits if it does. -/
theorem ofInt_integerValue_eq_zero {kind} (narrow : kind.width ≤ 32) (bits : BitVec kind.width) :
    BitVec.ofInt 32 (integerValue kind bits) = 0 ↔ integerValue kind bits = 0 := by
  have signedLow := BitVec.le_toInt bits
  have signedHigh : bits.toInt < 2 ^ (kind.width - 1) := BitVec.toInt_lt
  have unsignedHigh := bits.isLt
  have cut : BitVec.ofInt 32 (integerValue kind bits) = 0 ↔
      integerValue kind bits % 2 ^ 32 = 0 := by
    rw [← BitVec.toNat_inj, BitVec.toNat_ofInt]
    simp only [Nat.reducePow, BitVec.ofNat_eq_ofNat, BitVec.toNat_ofNat]
    omega
  rw [cut]
  cases kind <;> simp only [IntKind.width, integerValue, IntKind.signed] at * <;> omega

theorem equals_int32_zero (bits : BitVec 32) :
    (int .int32 bits).equals (.int .int32 0) = decide (bits = 0) := by
  rw [Bool.eq_iff_iff]
  simp only [equals, beq_iff_eq, decide_eq_true_eq]
  exact ⟨fun same => by cases same; rfl, fun isZero => by rw [isZero]; rfl⟩

end Value

namespace Analysis

open Typed (Expr)

open Evaluation (Scene value values)

variable {H : Type} {host : Host H} {tys : Universe} {slots : Array Value}

/-- An expression gives a value, in the same scene, wherever another one gives its own. -/
def Means (host : Host H) (types : Universe) (expr : Expr) (given : Value) (converted : Expr)
    (passed : Value) : Prop :=
  ∀ {slots scene after}, value host types slots expr scene = (.ok given, after) →
    value host types slots converted scene = (.ok passed, after)

/-- What a number becomes in a type of numbers; one of the type stays. -/
def numberIn (given : Value) (scalar : Scalar) (source target : Prim) : Value :=
  if source = target then given else Value.ofScalar scalar target

theorem value_cast {target off name given passed scene after}
    (evaluated : value host tys slots expr scene = (.ok given, after))
    (converts : converted host tys expr.type target given after.world = (.ok passed, after.world)) :
    value host tys slots (.cast off name target expr) scene = (.ok passed, after) := by
  rw [value, bind_apply, evaluated]
  exact Evaluation.quietly_of_still converts

variable {target : Prim} {given : Value} {scalar : Scalar}

theorem converted_number (isNumber : given.scalar? = some scalar) (world : World H) :
    converted host tys (.prim src) (.prim target) given world =
      (.ok (ofScalar scalar target), world) := by
  simp only [converted, Ty.isValue, Ty.isReference, Bool.and_false, Bool.false_and,
    Bool.false_eq_true, ↓reduceIte, Universe.kind, Value.convertToKind, Kind.ofNumber?_number,
    convert, isNumber]
  rfl

variable (host tys)

theorem toNumber_agrees (target : Prim) (typed : expr.type = .prim src)
    (isNumber : given.scalar? = some scalar) :
    ∃ converted, toNumber tys expr (.prim target) = .ok converted ∧
      Means host tys expr given converted (numberIn given scalar src target) := by
  by_cases same : src = target
  · refine ⟨expr, ?_, fun evaluated => ?_⟩
    · rw [toNumber, typed, if_pos (congrArg Ty.prim same)]
    · rw [numberIn, if_pos same]
      exact evaluated
  · have differs : ¬ Ty.prim src = Ty.prim target := fun equal => same (Ty.prim.inj equal)
    refine ⟨.cast expr.offset none (.prim target) expr, ?_, fun evaluated => ?_⟩
    · rw [toNumber, typed, if_neg differs, convertTo]
      simp only [typed, Ty.isValue, Ty.isReference, Bool.and_false, Bool.false_and,
        Bool.false_eq_true, ↓reduceIte]
    · rw [numberIn, if_neg same]
      refine value_cast evaluated ?_
      rw [typed]
      exact converted_number isNumber _

/-- The comparison with zero in the type that is common with `int32` tells what is not zero. -/
theorem exists_common (isNumber : given.scalar? = some scalar)
    (typed : given.typeOf = some (.prim src)) (notBool : src ≠ .bool) :
    ∃ common, tys.compatible (.prim src) .int32 = .prim common ∧
      (numberIn given scalar src common).equals
          (numberIn (.int .int32 0) (.integer 0) (.int .int32) common) =
        !scalar.isNonzero := by
  cases given with
  | int kind bits =>
    cases Ty.prim.inj (Option.some.inj typed)
    cases Option.some.inj isNumber
    by_cases narrow : kind.width ≤ 32
    · refine ⟨.int .int32, ?_, ?_⟩
      · cases kind <;> first | rfl | exact absurd narrow (by decide)
      · have zero : numberIn (.int .int32 0) (.integer 0) (.int .int32) (.int .int32) =
            .int .int32 0 := rfl
        have given : numberIn (.int kind bits) (.integer (integerValue kind bits))
            (.int kind) (.int .int32) = .int .int32 (BitVec.ofInt 32 (integerValue kind bits)) := by
          unfold numberIn
          split
          · next same =>
            cases same
            exact congrArg (int .int32) (BitVec.ofInt_toInt).symm
          · rfl
        rw [zero, given, Value.equals_int32_zero]
        rw [Bool.eq_iff_iff]
        simp only [Scalar.isNonzero, Value.ofInt_integerValue_eq_zero narrow, decide_eq_true_eq,
          Bool.not_eq_eq_eq_not, Bool.not_true, bne_eq_false_iff_eq]
    · refine ⟨.float .single, ?_, ?_⟩
      · cases kind <;> first | rfl | exact absurd (by decide) narrow
      · have zero : numberIn (.int .int32 0) (.integer 0) (.int .int32) (.float .single) =
            .float .single 0 := rfl
        rw [zero, numberIn, if_neg (by simp)]
        have same : (BitVec.ofNat 32 (single.ofInt (integerValue kind bits))).toNat =
            single.ofInt (integerValue kind bits) :=
          BitVec.toNat_ofNat _ _ |>.trans (Nat.mod_eq_of_lt (single.ofInt_lt _))
        have isZero := (single.unsigned_ofInt (integerValue kind bits) (by decide) (by decide)).2
        change single.equal (BitVec.ofNat 32 (single.ofInt _)).toNat 0 = _
        rw [same, Binary.Format.equal_zero, Bool.eq_iff_iff]
        simp only [Binary.Format.isZero, isZero, Scalar.isNonzero, decide_eq_true_eq,
          Bool.not_eq_eq_eq_not, Bool.not_true, bne_eq_false_iff_eq]
  | float kind bits =>
    cases Ty.prim.inj (Option.some.inj typed)
    cases Option.some.inj isNumber
    refine ⟨.float kind, ?_, ?_⟩
    · cases kind <;> rfl
    · have zero : ofScalar (.integer 0) (.float kind) = .float kind 0 := by
        cases kind <;> rfl
      rw [numberIn, if_pos rfl, numberIn, if_neg (by simp), zero]
      cases kind <;> simp only [Value.equals, Scalar.isNonzero, Bool.not_not, FloatKind.format] <;>
        exact Binary.Format.equal_zero _ _
  | bool => cases Option.some.inj typed; exact absurd rfl notBool
  | null | string | type | array | object | host | state | sealed | address => cases isNumber

theorem truth_agrees (plain : tys.HasPlainNumbers) (static : expr.type = .prim src)
    (isNumber : given.scalar? = some scalar) (typed : given.typeOf = some (.prim src))
    (notBool : src ≠ .bool) (off : Nat) :
    ∃ converted, truth tys off expr = .ok converted ∧
      Means host tys expr given converted (.bool scalar.isNonzero) := by
  obtain ⟨common, compatible, compared⟩ := exists_common tys isNumber typed notBool
  obtain ⟨left, leftMade, leftValue⟩ := toNumber_agrees host tys common static isNumber
  obtain ⟨right, rightMade, rightValue⟩ := toNumber_agrees host tys common
    (show (Expr.literal off (.integer 0)).type = .prim (.int .int32) from rfl)
    (show (int .int32 0).scalar? = some (.integer 0) from rfl)
  refine ⟨.operator off .notEqual left right none .bool, ?_, fun evaluated => ?_⟩
  · rw [truth]
    simp only [static, Ty.isReference, Bool.false_eq_true, ↓reduceIte, plain src, Ty.isValue,
      compatible, leftMade, rightMade]
    rfl
  · rw [value]
    simp only [reduceCtorEq, or_self, ↓reduceIte, bind_apply, leftValue evaluated]
    rw [rightValue (show value host tys _ (.literal off (.integer 0)) _ = _ by
      rw [value_literal]; rfl)]
    refine Evaluation.quietly_of_still ?_
    simp only [compared, Bool.not_not]
    rfl

theorem castTo_null_agrees (isReference : param.isReference) (off : Nat) :
    ∃ converted, castTo tys (.literal off .null) param = .ok converted ∧
      tys.coerce .null param = .ok .null ∧
      Means host tys (.literal off .null) .null converted .null := by
  have adapted : tys.coerce .null param = .ok .null := by
    rw [Universe.coerce_reference isReference]
    rfl
  by_cases same : Ty.object = param
  · exact ⟨.literal off .null, if_pos same, adapted, fun evaluated => evaluated⟩
  · refine ⟨.cast off none param (.literal off .null), ?_, adapted, fun evaluated => ?_⟩
    · cases param with
      | void | prim => cases isReference
      | object => exact absurd rfl same
      | string | named | array => rfl
    · refine value_cast evaluated ?_
      change (if param.isValue then Act.unboxed param .null
        else if tys.isAssignable param .object then pure .null
        else Act.classChecked host param .null : Act H Value) _ = _
      rw [Ty.isValue_of_isReference isReference]
      cases tys.isAssignable param .object <;> rfl

theorem castTo_number_agrees (plain : tys.HasPlainNumbers) (genuine : given.isGenuine)
    (static : expr.type = .prim src) (typed : given.typeOf = some (.prim src))
    (differs : src ≠ target) :
    ∃ converted passed, castTo tys expr (.prim target) = .ok converted ∧
      tys.coerce given (.prim target) = .ok passed ∧
      Means host tys expr given converted passed := by
  obtain ⟨scalar, isNumber⟩ := Value.exists_scalar genuine typed
  have adapted : tys.coerce given (.prim target) = .ok (ofScalar scalar target) := by
    have notNull : given ≠ .null := by
      rintro rfl
      cases typed
    simp only [Universe.coerce, notNull, typed, Option.some.injEq, Ty.prim.injEq, differs,
      convert, isNumber, ↓reduceIte]
  have other : ¬ Ty.prim src = Ty.prim target := fun same => differs (Ty.prim.inj same)
  by_cases isBool : target = .bool
  · subst isBool
    obtain ⟨converted, made, means⟩ :=
      truth_agrees host tys plain static isNumber typed differs expr.offset
    refine ⟨converted, _, ?_, adapted, fun evaluated => means evaluated⟩
    rw [← made, castTo.eq_def]
    simp only [static, other, reduceCtorEq, ↓reduceIte]
  · refine ⟨.cast expr.offset none (.prim target) expr, _, ?_, adapted,
      fun evaluated => value_cast evaluated ?_⟩
    · rw [castTo.eq_def]
      simp only [static, other, reduceCtorEq, ↓reduceIte]
      split
      · next string => cases string
      · next bool => exact absurd (Ty.prim.inj bool) isBool
      · simp only [convertTo, static, Ty.isValue, Ty.isReference, Bool.and_false, Bool.false_and,
          Bool.false_eq_true, ↓reduceIte]
    · rw [static]
      exact converted_number isNumber _

theorem castTo_reference_agrees (grounded : tys.IsGrounded) (genuine : given.isGenuine)
    (typed : given.typeOf = some expr.type) (isReference : param.isReference)
    (assignable : tys.isAssignable param expr.type) (differs : expr.type ≠ param) :
    ∃ converted, castTo tys expr param = .ok converted ∧ tys.coerce given param = .ok given ∧
      Means host tys expr given converted given := by
  have notVoid := Value.type_ne_void genuine typed
  have targetNotVoid : param ≠ .void := by
    rintro rfl
    cases isReference
  have notValue := Ty.isValue_of_isReference isReference
  refine ⟨.cast expr.offset none param expr, ?_, ?_, fun evaluated => value_cast evaluated ?_⟩
  · rw [castTo.eq_def]
    simp only [differs, targetNotVoid, notVoid, ↓reduceIte]
    split
    · next _ _ =>
      -- a number cannot be stored as a string
      have below : tys.isAssignable .string .single := assignable
      rw [Universe.isAssignable.eq_def] at below
      simp [Universe.kind, Ty.single, grounded.ancestors_prim] at below
    · cases isReference
    · simp only [convertTo, assignable, isReference, notValue, Bool.and_false, Bool.and_true,
        Bool.false_eq_true, ↓reduceIte]
      split <;> rfl
  · simp only [Universe.coerce_reference isReference, typed, Universe.isAssignableFrom, assignable,
      Bool.or_true, ↓reduceIte]
  · unfold converted
    rw [isReference, notValue, assignable]
    generalize expr.type = src at notVoid
    cases src <;> first | exact absurd rfl notVoid | rfl

theorem castTo_agrees (grounded : tys.IsGrounded) (plain : tys.HasPlainNumbers)
    (genuine : given.isGenuine) (shown : expr.argumentType = given.typeOf)
    (accepted : tys.accepts param given.typeOf) :
    ∃ converted passed, castTo tys expr param = .ok converted ∧
      tys.coerce given param = .ok passed ∧ Means host tys expr given converted passed := by
  unfold Expr.argumentType at shown
  split at shown
  · next isNull =>
    obtain ⟨off, rfl⟩ : ∃ off, expr = .literal off .null := by
      unfold Expr.isNull at isNull
      split at isNull
      · exact ⟨_, rfl⟩
      · cases isNull
    obtain rfl : given = .null := by
      cases given with
      | null => rfl
      | _ => cases shown
    obtain ⟨converted, made, adapted, means⟩ := castTo_null_agrees host tys accepted off
    exact ⟨converted, .null, made, adapted, means⟩
  · have typed := shown.symm
    rw [typed] at accepted
    simp only [Universe.accepts, Bool.or_eq_true, Bool.and_eq_true] at accepted
    by_cases same : expr.type = param
    · refine ⟨expr, given, ?_, ?_, fun evaluated => evaluated⟩
      · rw [castTo.eq_def]
        exact if_pos same
      · exact Universe.coerce_self (same ▸ typed)
    · cases param with
      | void =>
        rcases accepted with assignable | ⟨isValue, _⟩
        · exact absurd (grounded.eq_of_isAssignable rfl assignable) same
        · cases isValue
      | prim _ =>
        rcases accepted with assignable | ⟨_, isValue⟩
        · exact absurd (grounded.eq_of_isAssignable rfl assignable) same
        · obtain ⟨src, static⟩ : ∃ src, expr.type = .prim src := by
            cases static : expr.type with
            | prim src => exact ⟨src, rfl⟩
            | _ =>
              rw [static] at isValue
              cases isValue
          exact castTo_number_agrees host tys plain genuine static (static ▸ typed)
            fun equal => same (static.trans (congrArg Ty.prim equal))
      | string | object | named | array =>
        rcases accepted with assignable | ⟨isValue, _⟩
        · obtain ⟨converted, made, adapted, means⟩ :=
            castTo_reference_agrees host tys grounded genuine typed rfl assignable same
          exact ⟨converted, given, made, adapted, means⟩
        · cases isValue

theorem values_cons_eq_ok {slots first rest others scene after}
    (evaluated : values host tys slots (first :: rest) scene = (.ok (given :: others), after)) :
    ∃ between, value host tys slots first scene = (.ok given, between) ∧
      values host tys slots rest between = (.ok others, after) := by
  rw [values, bind_apply] at evaluated
  cases found : value host tys slots first scene with
  | mk res between =>
    rw [found] at evaluated
    cases res with
    | error trouble => cases evaluated
    | ok value =>
      simp only [bind_apply] at evaluated
      cases followed : values host tys slots rest between with
      | mk following _ =>
        rw [followed] at evaluated
        cases following with
        | error trouble => cases evaluated
        | ok values =>
          cases evaluated
          exact ⟨between, rfl, followed⟩

theorem castAll_agrees {args : List Expr} {params : List Ty} {given : List Value}
    (grounded : host.types.IsGrounded) (plain : host.types.HasPlainNumbers)
    (genuine : ∀ value ∈ given, value.isGenuine)
    (shown : args.map Expr.argumentType = given.map typeOf) (counted : params.length = args.length)
    (accepted : ∀ pair ∈ params.zip (given.map typeOf), host.types.accepts pair.1 pair.2) :
    ∃ converted passed, castAll host.types args params = .ok converted ∧
      (∀ (name : Text) (num : Nat) (world : World H),
        host.adaptArguments name num params given world = (.ok passed, world)) ∧
      ∀ (slots : Array Value) {scene after : Scene H},
        values host host.types slots args scene = (.ok given, after) →
          values host host.types slots converted scene = (.ok passed, after) := by
  induction args generalizing params given with
  | nil =>
    cases map_eq_nil_iff.mp shown.symm
    cases length_eq_zero_iff.mp counted
    exact ⟨[], [], rfl, fun _ _ _ => rfl, fun _ _ _ evaluated => evaluated⟩
  | cons _ args ih =>
    obtain ⟨value, others, rfl⟩ : ∃ value others, given = value :: others := by
      cases given with
      | nil => cases shown
      | cons value others => exact ⟨value, others, rfl⟩
    obtain ⟨param, params, rfl⟩ : ∃ param rest, params = param :: rest := by
      cases params with
      | nil => cases counted
      | cons param rest => exact ⟨param, rest, rfl⟩
    obtain ⟨firstShown, restShown⟩ := List.cons.inj shown
    obtain ⟨firstAccepted, restAccepted⟩ := forall_mem_cons.mp accepted
    obtain ⟨firstGenuine, restGenuine⟩ := forall_mem_cons.mp genuine
    obtain ⟨converted, passed, made, adapted, means⟩ :=
      ih restGenuine restShown (Nat.succ.inj counted) restAccepted
    obtain ⟨firstConverted, firstPassed, firstMade, firstAdapted, firstMeans⟩ :=
      castTo_agrees host host.types grounded plain firstGenuine firstShown firstAccepted
    refine ⟨firstConverted :: converted, firstPassed :: passed, ?_, fun name num world => ?_,
      fun slots _ _ evaluated => ?_⟩
    · rw [castAll, firstMade, made]
      rfl
    · simp only [Host.adaptArguments, firstAdapted, Act.lift, Act.during, bind_apply, pure_apply,
        adapted]
    · obtain ⟨_, evaluatedFirst, evaluatedRest⟩ := values_cons_eq_ok _ _ evaluated
      rw [values, bind_apply, firstMeans evaluatedFirst]
      simp only [bind_apply, means slots evaluatedRest]
      rfl

theorem lateCall_eq {receiver : Value} {given : List Value} {list : ArrayRef} {world : World H}
    (received : receiver.typeOf = some type) (dimensions : list.dimensions = [given.length])
    (elements : world.elements list = given.toArray) (name : Text) :
    host.lateCall receiver name list world =
      match host.types.select (host.types.methods type name false) (given.map Value.typeOf) with
      | .ok method =>
        (host.adaptArguments name 1 method.params given >>= fun adapted =>
          (fun result => if method.returnsValue then result else .null) <$>
            host.call method receiver adapted) world
      | .error missing =>
        (.error (.failed (.within (.methodOn name receiver.typeOf)
          (.cause (.absence missing)))), world) := by
  simp only [Host.lateCall, bind_apply, Act.mapM_loadElement dimensions elements, received,
    Option.getD_some]
  cases host.types.select (host.types.methods type name false) (given.map Value.typeOf) with
  | error missing => rfl
  | ok method => simp only [Act.lift, Act.during, pure_apply, map_apply]

/--
A call bound by the types of its arguments and one bound by the types of their values come to
the same method with the same values, or find none for the same reason.
-/
theorem invocation_agrees
    {target : Target} {arguments : List Expr} {receiver : Value} {given : List Value}
    {list : ArrayRef} {world : World H} (grounded : host.types.IsGrounded)
    (plain : host.types.HasPlainNumbers) (genuine : ∀ value ∈ given, value.isGenuine = true)
    (onInstance : target.isStatic = false) (received : receiver.typeOf = some target.type)
    (shown : arguments.map Expr.argumentType = given.map Value.typeOf)
    (dimensions : list.dimensions = [given.length]) (elements : world.elements list = given.toArray)
    (offset : Nat) (name : Ident) (progress : Progress) :
    match invocation host.types offset target name arguments progress with
    | .ok (call, next) => next = progress ∧ ∃ method passed,
        method ∈ host.types.methods target.type name.name false ∧
        (∀ {slots : Array Value} {scene between after : Scene H},
          value host host.types slots target.expression scene = (.ok receiver, between) →
          values host host.types slots arguments between = (.ok given, after) →
            value host host.types slots call scene =
              Evaluation.callOn host method receiver passed after) ∧
        host.lateCall receiver name.name list world =
          ((fun result => if method.returnsValue then result else .null) <$>
            host.call method receiver passed) world
    | .error failure => ∃ missing context,
        failure = .classified .semantic name.offset (.within context (.cause (.absence missing))) ∧
        host.lateCall receiver name.name list world =
          (.error (.failed (.within (.methodOn name.name receiver.typeOf)
            (.cause (.absence missing)))), world) := by
  have late := lateCall_eq host received dimensions elements name.name
  rw [← shown] at late
  cases selected : host.types.select (host.types.methods target.type name.name false)
      (arguments.map Expr.argumentType) with
  | error missing =>
    rw [selected] at late
    have analysed : ∃ context, invocation host.types offset target name arguments progress =
        .error (.classified .semantic name.offset
          (.within context (.cause (.absence missing)))) := by
      unfold invocation
      rw [onInstance, selected]
      exact ⟨_, rfl⟩
    obtain ⟨context, analysed⟩ := analysed
    rw [analysed]
    exact ⟨missing, context, rfl, late⟩
  | ok method =>
    rw [selected] at late
    obtain ⟨member, counted⟩ := Universe.select_eq_ok selected
    have accepted := Universe.accepts_of_select selected
    rw [shown] at accepted
    obtain ⟨converted, passed, made, adapted, means⟩ :=
      castAll_agrees host grounded plain genuine shown (by simpa using counted) accepted
    have analysed : invocation host.types offset target name arguments progress =
        .ok (.invocation offset target.expression name converted method, progress) := by
      unfold invocation
      rw [onInstance, selected]
      dsimp only
      rw [made]
      rfl
    rw [analysed]
    dsimp only at late
    rw [bind_apply, adapted] at late
    refine ⟨rfl, method, passed, member, fun evaluated given => ?_, late⟩
    have isStatic : method.isStatic = false := Universe.isStatic_of_methods member
    rw [value]
    simp only [isStatic, Bool.false_eq_true, ↓reduceIte, bind_apply, evaluated, means _ given]

end Analysis

namespace Gauge

open Typed (Expr)

def type : Ty :=
  .named { number := 3, name := [Text.byte 'g'] }

def switchName : Text := [Text.byte 's']

def switch : Method :=
  { name := switchName, params := [.bool], result := some .bool, routine := .host "switch" }

/-- A gauge tells how it was switched. -/
def host : Host Unit where
  types := { declarations := [(type, { methods := [switch] })] }
  readField _ _ := Act.crash .foreignValue
  writeField _ _ _ := Act.crash .foreignValue
  readProperty _ _ _ := Act.crash .foreignValue
  writeProperty _ _ _ _ := Act.crash .foreignValue
  invoke _ _ args := return args.headD .null
  describe _ _ := none

theorem isGrounded : host.types.IsGrounded where
  base := by
    intro decl parent isBase
    have object : parent = .object := by
      by_cases same : decl = type
      · subst same
        exact (Option.some.inj isBase).symm
      · have unknown : host.types.declarations.lookup decl = none := by
          simp only [host, List.lookup, beq_eq_false_iff_ne.mpr same]
        unfold Universe.base Universe.declaration at isBase
        rw [unknown] at isBase
        cases decl with
        | void | object => cases isBase
        | prim | string | named | array => exact (Option.some.inj isBase).symm
    rw [object]
    rfl
  primitive _ := rfl
  object := rfl

theorem hasPlainNumbers : host.types.HasPlainNumbers := by
  intro primitive
  cases primitive with
  | bool => decide
  | int kind => cases kind <;> decide
  | float kind => cases kind <;> decide

/-- The number with which a gauge is switched on. -/
def one : Value :=
  .int .int64 1

def written : Expr :=
  .cast 0 none (.prim (.int .int64)) (.literal 0 (.integer 1))

def target : Analysis.Target :=
  { expression := .reference 0 [] none, type := type, isStatic := false }

/-- A world with the list of the arguments of a late call. -/
def world : World Unit :=
  { host := (), arrays := #[#[one]] }

/-- The list of the arguments of a late call. -/
def list : ArrayRef :=
  { element := .object, dimensions := [1], address := 0 }

def start : Analysis.Progress :=
  { scopes := { global := [] } }

/-- A gauge is switched on by a 64-bit number in either way. -/
theorem switch_agrees :
    one.isGenuine = true ∧ (Value.object type 0).typeOf = some target.type ∧
      [written].map Expr.argumentType = [one].map Value.typeOf ∧
      world.elements list = [one].toArray ∧
      ∃ call method passed,
        Analysis.invocation host.types 0 target ⟨switchName, 0⟩ [written] start =
          .ok (call, start) ∧
        method ∈ host.types.methods type switchName false ∧
        host.lateCall (.object type 0) switchName list world =
          ((fun result => if method.returnsValue then result else .null) <$>
            host.call method (.object type 0) passed) world := by
  refine ⟨rfl, rfl, rfl, rfl, ?_⟩
  have agrees := Analysis.invocation_agrees host isGrounded hasPlainNumbers
    (fun _ member => by cases List.mem_singleton.mp member; rfl) rfl
    (show (Value.object type 0).typeOf = some target.type from rfl)
    (show [written].map Expr.argumentType = [one].map Value.typeOf from rfl)
    (show list.dimensions = [1] from rfl) (show world.elements list = [one].toArray from rfl)
    0 ⟨switchName, 0⟩ start
  obtain ⟨call, analysed⟩ : ∃ call, Analysis.invocation host.types 0 target ⟨switchName, 0⟩
      [written] start = .ok (call, start) := ⟨_, rfl⟩
  rw [analysed] at agrees
  obtain ⟨_, method, passed, member, _, late⟩ := agrees
  exact ⟨call, method, passed, analysed, member, late⟩

/-- A gauge whose type derives from `bool`. -/
def derived : Host Unit :=
  { host with types := { declarations := [(type, { base := some .bool, methods := [switch] })] } }

def held (slot : Nat) : Expr :=
  .reference 0 [] (some (.variable { name := [], type, slot, isPersistent := false }))

/-- A gauge is switched by another: the types of both are known, but only a late call finds out
that the other one is no boolean. -/
theorem derived_disagrees :
    let given : Value := .object type 1
    let world : World Unit := { host := (), arrays := #[#[given]] }
    let target : Analysis.Target := { expression := held 0, type, isStatic := false }
    given.isGenuine = true ∧ [held 1].map Expr.argumentType = [given].map Value.typeOf ∧
      world.elements list = [given].toArray ∧
      (∃ call, Analysis.invocation derived.types 0 target ⟨switchName, 0⟩ [held 1] start =
          .ok (call, start) ∧
        ∀ scene : Evaluation.Scene Unit, ∃ after, Evaluation.value derived derived.types
          #[.object type 0, given] call scene = (.ok (.bool true), after)) ∧
      (derived.lateCall (.object type 0) switchName list world).1 =
        .error (.failed
          (.within (.argument 1 switchName) (.cause (.value (.notNumeric type))))) := by
  intro given world target
  refine ⟨rfl, rfl, rfl, ⟨_, rfl, fun scene => ⟨_, rfl⟩⟩, rfl⟩

end Gauge

end HostScript

import HostScript.Analysis.Resolve
import HostScript.Proofs.Member.Assignability
import HostScript.Proofs.Typing.Cast

namespace HostScript

open Relation (ReflTransGen TransGen)
open Typed (Expr)

/-!
# Operating types

Two operands or branches are brought to one type.
-/

namespace Universe

/-- A type is below its base and what it implements, and `object` is above all other types. -/
def Below (types : Universe) (lower upper : Ty) : Prop :=
  types.Parent lower upper ∨ (lower ≠ .object ∧ upper = .object)

/-- No type is above itself, and no type has a primitive one as base. -/
structure IsOrderly (types : Universe) : Prop where
  acyclic : ∀ type, ¬TransGen types.Below type type
  base : ∀ type primitive, types.base type ≠ some (.prim primitive)

section

variable {tys : Universe} {left right : Ty}

namespace IsOrderly

variable (orderly : tys.IsOrderly)

include orderly

theorem top (upper : Ty) : ¬tys.Parent .object upper := by
  intro step
  by_cases same : upper = .object
  · exact orderly.acyclic .object (.single (.inl (same ▸ step)))
  · exact orderly.acyclic .object (.tail (.single (.inl step)) (.inr ⟨same, rfl⟩))

theorem isAssignable_antisymm (upward : tys.isAssignable left right)
    (downward : tys.isAssignable right left) : left = right := by
  refine (Universe.isAssignable_antisymm ?_ ?_ upward downward).symm
  · intro lower upper up down
    rcases Relation.reflTransGen_iff_eq_or_transGen.mp up with same | up
    · exact same.symm
    · exact absurd (TransGen.mono (p := tys.Below) (fun _ _ => Or.inl) _ _ (up.trans_left down))
        (orderly.acyclic lower)
  · intro upper reached
    rcases reached.cases_head with same | ⟨_, step, _⟩
    · exact same.symm
    · exact absurd step (orderly.top _)

theorem isReference_of_isAssignable (notVoid : left ≠ .void) (isReference : right.isReference)
    (assignable : tys.isAssignable left right) : left.isReference := by
  cases left with
  | void => exact absurd rfl notVoid
  | prim primitive =>
    have simple : IsSimple (.prim primitive) := ⟨Ty.noConfusion, rfl⟩
    have rightData : right ≠ .void := fun isVoid => nomatch isVoid ▸ isReference
    rcases (isAssignable_simple_iff simple rightData).mp assignable with same | above
    · cases same ▸ isReference
    · rcases (chain_of_ancestor (List.mem_of_mem_tail above)).cases_tail with same | ⟨_, _, isBase⟩
      · cases same ▸ isReference
      · exact absurd isBase (orderly.base _ primitive)
  | string | object | named | array => rfl

end IsOrderly

/-- Graphs that are built are orderly, where no interface extends itself. -/
theorem WellFormed.isOrderly (wf : tys.WellFormed)
    (acyclic : ∀ type, ¬TransGen tys.Implements type type)
    (bare : tys.interfaces .object = []) : tys.IsOrderly where
  acyclic type cycle := by
    have top : ∀ {upper}, ¬tys.Below .object upper := by
      rintro upper ((isBase | implemented) | ⟨other, _⟩)
      · cases wf.objectBase.symm.trans isBase
      · rw [Implements, bare] at implemented
        cases implemented
      · exact other rfl
    have parents : ∀ {upper}, TransGen tys.Below type upper →
        upper = .object ∨ TransGen tys.Parent type upper := by
      intro upper chain
      induction chain with
      | single step => exact step.elim (.inr ∘ .single) (.inl ∘ And.right)
      | tail _ step ih =>
        rcases ih with rfl | chain
        · exact absurd step top
        · exact step.elim (.inr ∘ chain.tail) (.inl ∘ And.right)
    rcases parents cycle with rfl | cycle
    · obtain ⟨_, step, _⟩ := TransGen.head'_iff.mp cycle
      exact top step
    obtain ⟨upper, step, back⟩ := TransGen.head'_iff.mp cycle
    obtain rfl := wf.reaches_antisymm acyclic (.single step) back
    rcases step with isBase | implemented
    · have longer := congrArg List.length (wf.ancestors_of_base isBase)
      rw [List.length_cons] at longer
      omega
    · exact acyclic type (.single implemented)
  base type primitive isBase := by
    rcases (wf.isBase isBase).2 with same | ⟨_, same, _⟩ <;> cases same

theorem data_cases (leftData : left ≠ .void) (rightData : right ≠ .void) :
    (∃ first second, left = .prim first ∧ right = .prim second) ∨
      (left.isReference ∨ right.isReference) := by
  cases left with
  | void => exact absurd rfl leftData
  | prim first =>
    cases right with
    | void => exact absurd rfl rightData
    | prim second => exact .inl ⟨first, second, rfl, rfl⟩
    | string | object | named | array => exact .inr (.inr rfl)
  | string | object | named | array => exact .inr (.inl rfl)

theorem compatible_self (type : Ty) : tys.compatible type type = type :=
  if_pos (beq_self_eq_true type)

/-- Primitive types apart, it is the upper one of two types, or `object`. -/
theorem compatible_of_reference (isReference : left.isReference ∨ right.isReference)
    (differ : left ≠ right) : tys.compatible left right =
      if tys.isAssignable left right = true then left
      else if tys.isAssignable right left = true then right else .object := by
  unfold compatible
  rw [if_neg (by simpa using differ)]
  split
  · rcases isReference with isReference | isReference <;> cases isReference
  · rfl

namespace IsOrderly

variable (orderly : tys.IsOrderly)

include orderly

theorem compatible_comm (leftData : left ≠ .void) (rightData : right ≠ .void) :
    tys.compatible left right = tys.compatible right left := by
  by_cases same : left = right
  · rw [same]
  rcases data_cases leftData rightData with ⟨first, second, rfl, rfl⟩ | isReference
  · have differ : (Ty.prim first == .prim second) = false := by simpa using same
    have differ' : (Ty.prim second == .prim first) = false := by simpa using Ne.symm same
    simp only [compatible, differ, differ', Bool.and_comm, Bool.or_comm]
    rfl
  · rw [compatible_of_reference isReference same,
      compatible_of_reference isReference.symm (Ne.symm same)]
    by_cases upward : tys.isAssignable left right = true <;>
      by_cases downward : tys.isAssignable right left
    · exact absurd (orderly.isAssignable_antisymm upward downward) same
    · rw [if_pos upward, if_neg downward, if_pos upward]
    · rw [if_neg upward, if_pos downward, if_pos downward]
    · rw [if_neg upward, if_neg downward, if_neg downward, if_neg upward]

theorem compatible_above (leftData : left ≠ .void) (rightData : right ≠ .void)
    (isReference : left.isReference ∨ right.isReference) :
    (tys.compatible left right).isReference ∧ tys.isAssignable (tys.compatible left right) left ∧
      tys.isAssignable (tys.compatible left right) right := by
  by_cases same : left = right
  · subst same
    rw [compatible_self]
    exact ⟨isReference.elim id id, tys.isAssignable_self left, tys.isAssignable_self left⟩
  rw [compatible_of_reference isReference same]
  split
  · next upward =>
    refine ⟨?_, tys.isAssignable_self left, upward⟩
    exact isReference.elim id fun isReference =>
      orderly.isReference_of_isAssignable leftData isReference upward
  · split
    · next downward =>
      refine ⟨?_, downward, tys.isAssignable_self right⟩
      exact isReference.elim (orderly.isReference_of_isAssignable rightData · downward) id
    · exact ⟨rfl, isAssignable_object leftData, isAssignable_object rightData⟩

theorem castTo_compatible (leftData : left ≠ .void) (rightData : right ≠ .void) {expr}
    (isLeft : expr.type = left) :
    ∃ converted, Analysis.castTo tys expr (tys.compatible left right) = .ok converted := by
  subst isLeft
  generalize common : tys.compatible expr.type right = tgt
  by_cases same : expr.type = tgt
  · exact ⟨expr, if_pos same⟩
  -- What is known of the common type: it suits both operands, or all three are numbers.
  have fits : tgt.isReference ∧ tys.isAssignable tgt expr.type ∨
      expr.type.isReference = false ∧ ∃ num, tgt = .prim num ∧ num ≠ .bool := by
    rcases data_cases leftData rightData with ⟨first, second, isFirst, rfl⟩ | isReference
    · obtain ⟨num, isNumber, ofBool⟩ := tys.compatible_prim first second
      rw [isFirst, isNumber] at common
      refine .inr ⟨isFirst ▸ rfl, num, common.symm, fun isBool => same ?_⟩
      rw [← common, isFirst, isBool, (ofBool isBool).1]
    · obtain ⟨isUpper, above, _⟩ := orderly.compatible_above leftData rightData isReference
      exact .inl ⟨common ▸ isUpper, common ▸ above⟩
  have notVoid : tgt ≠ .void := by
    rintro rfl
    rcases fits with ⟨isUpper, _⟩ | ⟨_, _, isNumber, _⟩
    · cases isUpper
    · cases isNumber
  unfold Analysis.castTo
  dsimp only
  rw [if_neg same, if_neg notVoid, if_neg leftData]
  split
  · exact ⟨_, rfl⟩
  · rcases fits with ⟨isUpper, _⟩ | ⟨_, _, isNumber, notBool⟩
    · cases isUpper
    · cases isNumber
      exact absurd rfl notBool
  · unfold Analysis.convertTo
    rcases fits with ⟨isUpper, above⟩ | ⟨isValue, num, rfl, _⟩
    · have notValue : tgt.isValue = false := by cases tgt <;> first | rfl | cases isUpper
      simp only [above, notValue, Bool.and_false, if_true, Bool.false_eq_true, if_false, ite_self]
      exact ⟨_, rfl⟩
    · have notReference : (Ty.prim num).isReference = false := rfl
      simp only [isValue, notReference, Bool.and_false, Bool.false_and, Bool.false_eq_true,
        if_false]
      exact ⟨_, rfl⟩

end IsOrderly

end

end Universe

namespace Universe

end Universe

end HostScript

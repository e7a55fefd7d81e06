import HostScript.Proofs.Emission.Shape

namespace HostScript

open Bool (eq_false_iff)
open Directive (labelCount labels)
open List

def DataMember.isConstant : DataMember → Bool
  | .field stored => stored.literal.isSome
  | .property _ => false

theorem Typed.OperationSound.isData (sound : Typed.OperationSound rules op left right type)
    (isStrict : ¬(op = .both ∨ op = .either)) (areResults : left.IsResult ∧ right.IsResult) :
    left.isData ∧ right.isData ∧ type.isData := by
  have ofReference : ∀ {type : Ty}, type.IsResult → type.isReference → type.isData := by
    rintro type (rfl | isData) isReference
    · cases isReference
    · exact isData
  rw [Typed.OperationSound, if_neg isStrict] at sound
  rcases sound with ⟨leftReference, rightReference, _, rfl⟩ | ⟨_, rfl, rfl, rfl, _⟩
  · exact ⟨ofReference areResults.1 leftReference, ofReference areResults.2 rightReference, rfl⟩
  · refine ⟨rfl, rfl, ?_⟩
    split <;> rfl

namespace Emission

open Typed (Expr Rules)

/-!
# Code flows

The code of an expression leaves its value on top of whatever was on the stack, and the code of
a statement leaves nothing: on every way through it, and with one shape at every label.
-/

/-- The fragments of the receiver of an instance member, given those of its value. -/
def receiverFragments (target : Expr) (inside : List Fragment) : List Fragment :=
  if target.type.isValue && (localVariable? target).isSome then [] else inside

mutual

def innerFragments : Expr → List Fragment
  | .literal _ _ | .reference _ _ _ | .expansion _ _ _ _ _ => []
  | .operator _ _ left right _ _ =>
    (.expression left :: innerFragments left) ++ (.expression right :: innerFragments right)
  | .unary _ _ operand _ | .cast _ _ _ operand => .expression operand :: innerFragments operand
  | .conditional _ cond yes no _ =>
    (.expression cond :: innerFragments cond) ++
      (.expression no :: innerFragments no) ++ (.expression yes :: innerFragments yes)
  | .call _ _ _ args => argumentFragments args
  | .invocation _ target _ args method =>
    (if method.isStatic then []
      else receiverFragments target (.expression target :: innerFragments target)) ++
        argumentFragments args
  | .lateInvocation _ target _ args =>
    argumentFragments args ++ (.expression target :: innerFragments target)
  | .property _ target _ member =>
    if member.isStatic || member.isConstant then []
    else receiverFragments target (.expression target :: innerFragments target)
  | .lateProperty _ target _ => .expression target :: innerFragments target
  | .index _ target indices none _ =>
    (.expression target :: innerFragments target) ++ argumentFragments indices
  | .index _ target indices (some indexer) _ =>
    (if indexer.isStatic then [] else .expression target :: innerFragments target) ++
      argumentFragments indices

/-- The expressions whose code is written within that of several expressions. -/
def argumentFragments : List Expr → List Fragment
  | [] => []
  | first :: rest => (.expression first :: innerFragments first) ++ argumentFragments rest

end

def Item.fragments : Item → List Fragment
  | .one value => .expression value :: innerFragments value
  | .many list | .elements _ _ list => argumentFragments list
  | .receiver target _ _ =>
    receiverFragments target (.expression target :: innerFragments target)

/-- Code after a draft may use a local variable of a type. -/
structure Uses (checker : Checker) (draft : Draft) (slot : Nat) (type : Ty) : Prop where
  declared : draft.declared[slot]? = some type
  own : slot < checker.variableCount ∨ checker.scratch ≤ slot

variable {chk : Checker} {draft after : Draft} {locals : Array Ty}

theorem Uses.later (uses : Uses chk draft slot type)
    (suffix : draft.directives <:+ after.directives) : Uses chk after slot type :=
  ⟨Draft.declared_of_suffix suffix uses.declared, uses.own⟩

/-- A draft declares the variables of a script and has its counts right. -/
structure Prepared (checker : Checker) (locals : Array Ty) (draft : Draft) : Prop where
  size : locals.size = checker.variableCount
  proper : draft.Proper checker.scratch
  declared : ∀ {slot : Nat} {type : Ty}, locals[slot]? = some type →
    draft.declared[slot]? = some type

namespace Prepared

section

variable (prepared : Prepared chk locals draft)

include prepared

theorem later (proper : after.Proper chk.scratch)
    (leads : draft.Leads after) : Prepared chk locals after :=
  ⟨prepared.size, proper, fun known => Draft.declared_of_suffix leads.directives
    (prepared.declared known)⟩

theorem grown (grows : draft.Grows chk.scratch after) : Prepared chk locals after :=
  prepared.later (grows prepared.proper).1 (grows prepared.proper).2

theorem wrote (d : Directive) : Prepared chk locals (draft.wrote d) :=
  prepared.grown ((Draft.Grows.refl _ draft).wrote d)

theorem code (code : Code chk.types item draft after) : Prepared chk locals after :=
  prepared.grown (code.grows chk.scratch).1

theorem uses (sound : Typed.VariableSound locals decl) : Uses chk draft decl.slot decl.type := by
  have inside := (Array.getElem?_eq_some_iff.mp sound.1).1
  exact ⟨prepared.declared sound.1, .inl (prepared.size ▸ inside)⟩

end

end Prepared

theorem lt_labels_of_suffix (prepared : Prepared chk locals draft) (defined : List Directive)
    (suffix : (draft.wroteAll defined).directives <:+ after.directives)
    (own : label < draft.nextLabel + labels defined) : label < labels after.directives := by
  have bound := labels_le_of_suffix suffix
  have numbered := (Draft.wroteAll_proper prepared.proper defined).labels
  rw [nextLabel_wroteAll] at numbered
  omega

theorem suits_called (proper : chk.rules.Proper) {actual want}
    (fits : chk.rules.Fits actual want) (shape : Shape) :
    chk.Suits (shape.called actual) (shape.called want) := by
  rcases fits with rfl | ⟨rfl, truthful⟩
  · exact .refl _
  · rw [shape.called_of_isData (proper.truthful actual truthful),
      shape.called_of_isData (show Ty.bool.isData from rfl)]
    exact .fits shape (.inr ⟨rfl, truthful⟩)

namespace Flows

variable {given : Expectation → Prop} {start : Shape} {first : Draft} {type : Ty}

theorem asValue (flows : Flows chk given frags start (start.called type) first second)
    (isData : type.isData) : Flows chk given frags start (.value type :: start) first second := by
  rwa [start.called_of_isData isData] at flows

theorem asFitting (proper : chk.rules.Proper)
    (flows : Flows chk given frags start (start.called type) first second)
    (fits : chk.rules.Fits type want) (isData : want.isData) :
    Flows chk given frags start (.value want :: start) first second :=
  (flows.asValue (proper.isData_of_fits fits isData)).suits (.fits start fits)

theorem ofValue (code : Code chk.types (.one val) first second) (isData : val.type.isData)
    (flows : Flows chk given frags start (.value val.type :: start) first second) :
    Flows chk given (.expression val :: frags) start (start.called val.type) first
      second :=
  ofExpression code (by rwa [start.called_of_isData isData])

variable {slot : Nat}

theorem loadLocal (flows : Flows chk given frags start mid first second)
    (uses : Uses chk second slot type) :
    Flows chk given frags start (.value type :: mid) first
      (second.wrote (.slot Op.loadLocal slot)) :=
  flows.wrote fun _ knows _ => .loadLocal mid
    (knows.earlier (suffix_cons _ _) _ _ uses.declared uses.own)

theorem storeLocal (flows : Flows chk given frags start (.value type :: finish) first second)
    (uses : Uses chk second slot type) :
    Flows chk given frags start finish first (second.wrote (.slot Op.storeLocal slot)) :=
  flows.wrote fun _ knows _ => .storeLocal finish
    (knows.earlier (suffix_cons _ _) _ _ uses.declared uses.own)

theorem loadLocalAddress (flows : Flows chk given frags start mid first second)
    (uses : Uses chk second slot type) :
    Flows chk given frags start (.address type :: mid) first
      (second.wrote (.slot Op.loadLocalAddress slot)) :=
  flows.wrote fun _ knows _ => .loadLocalAddress mid
    (knows.earlier (suffix_cons _ _) _ _ uses.declared uses.own)

variable {label : Nat}

/-- One more jump; what follows it is reached by its own label only. -/
theorem jump (flows : Flows chk given frags start mid first second)
    (known : ∀ want, given want → want.marks label = mid) (dead : Shape) :
    Flows chk given frags start dead first (second.wrote (.jump Op.jump label)) := by
  refine flows.wrote fun want _ holds => ?_
  rw [← known want holds]
  exact .jump dead

theorem jumpIf (flows : Flows chk given frags start (.value .bool :: mid) first second)
    {op : Op} (decides : op = .jumpIfTrue ∨ op = .jumpIfFalse)
    (known : ∀ want, given want → want.marks label = mid) :
    Flows chk given frags start mid first (second.wrote (.jump op label)) := by
  refine flows.wrote fun want _ holds => ?_
  rw [← known want holds]
  exact .jumpIf decides

/-- A choice: a condition, a part that ends by jumping over the other one, and that other part. -/
theorem choice (op : Op) (prepared : Prepared chk locals first)
    (decides : op = .jumpIfTrue ∨ op = .jumpIfFalse)
    (cond : Flows chk given conditionFragments start (.value .bool :: start)
      ((first.wrote .defineLabel).wrote .defineLabel) second)
    (one : Flows chk given firstFragments start mid (second.wrote (.jump op first.nextLabel)) third)
    (other : Flows chk given otherFragments start mid
      ((third.wrote (.jump Op.jump (first.nextLabel + 1))).wrote (.mark first.nextLabel)) fourth) :
    Flows chk given (conditionFragments ++ firstFragments ++ otherFragments) start mid first
      (fourth.wrote (.mark (first.nextLabel + 1))) := by
  refine .label start prepared.proper.labels
    (.label mid (prepared.wrote .defineLabel).proper.labels ?_)
  -- at the labels the parts meet with the shapes that were just fixed
  have decided := (cond.mono fun _ known => known.1.1).jumpIf decides
    fun want (known : (given want ∧ want.marks first.nextLabel = start) ∧
      want.marks (first.nextLabel + 1) = mid) => known.1.2
  have chosen := (decided.trans (one.mono fun _ known => known.1.1)).jump
    (fun _ known => known.2) start
  have marked := chosen.mark (lt_labels_of_suffix prepared [.defineLabel, .defineLabel]
    chosen.suffix (by simp [labelCount])) fun _ known => known.1.2
  have both := marked.trans (other.mono fun _ known => known.1.1)
  exact both.mark (lt_labels_of_suffix prepared [.defineLabel, .defineLabel]
    both.suffix (by simp [labelCount])) fun _ known => known.2

theorem operator
    (flows : Flows chk given frags start (.value right :: .value left :: start) first second)
    (isStrict : ¬(op = .both ∨ op = .either)) (isBinary : operatorDirectives? op = some ds)
    (operation : Typed.OperationSound chk.rules op left right type) :
    Flows chk given frags start (.value type :: start) first (second.wroteAll ds) := by
  rw [Typed.OperationSound, if_neg isStrict] at operation
  rcases operation with ⟨leftReference, rightReference, isEquality, rfl⟩ |
      ⟨primitive, rfl, rfl, rfl, bits⟩
  · have equal : Flows chk given frags start (.value .bool :: start) first
        (second.wrote (.plain Op.equal)) :=
      flows.pass (.equal start (.inr ⟨leftReference, rightReference⟩))
    rcases isEquality with rfl | rfl <;> cases isBinary
    · exact equal
    · exact equal.pass (.complement start)
  · have equal : Flows chk given frags start (.value .bool :: start) first
        (second.wrote (.plain Op.equal)) :=
      flows.pass (.equal start (.inl rfl))
    have less : Flows chk given frags start (.value .bool :: start) first
        (second.wrote (.plain Op.less)) :=
      flows.pass (.order start (.inr rfl))
    have greater : Flows chk given frags start (.value .bool :: start) first
        (second.wrote (.plain Op.greater)) :=
      flows.pass (.order start (.inl rfl))
    have arithmetic : ∀ {operation : Op}, operation.Computes primitive →
        Flows chk given frags start (.value (.prim primitive) :: start) first
          (second.wrote (.plain operation)) :=
      fun computes => flows.pass (.arithmetic start computes)
    cases op <;> cases isBinary
    all_goals
      first
      | exact equal
      | exact less
      | exact greater
      | exact equal.pass (.complement start)
      | exact less.pass (.complement start)
      | exact greater.pass (.complement start)
      | exact arithmetic (.inl (by decide))
      | exact arithmetic (.inr ⟨by decide, bits (by decide)⟩)

/-- A conversion after its operand. -/
theorem cast {tgt} (flows : Flows chk given frags start (.value src :: start) first second)
    (isData : src.isData) (tgtData : tgt.isData)
    (boxes : src.isValue → tgt.isReference → chk.types.isAssignable tgt src) :
    Flows chk given frags start (.value tgt :: start) first
      (second.wroteAll (castDirectives chk.types src tgt)) := by
  have isValue : ∀ {type : Ty}, type.isData → type.isReference = false → type.isValue := by
    intro type data notReference
    cases type with
    | void => cases data
    | prim => rfl
    | string | object | named | array => cases notReference
  unfold castDirectives
  split_ifs with boxed unboxed isReference assignable
  · rw [Bool.and_eq_true] at boxed
    exact flows.pass (.box start (boxes boxed.1 boxed.2))
  · rw [Bool.and_eq_true] at unboxed
    exact flows.pass (.unbox start unboxed.1 unboxed.2)
  · exact flows.suits (.assignable start isReference assignable)
  · exact flows.pass (.castClass start isReference)
  · have fromValue := isValue isData (eq_false_iff.mpr isReference)
    have toValue : tgt.isReference = false := by
      rw [fromValue, Bool.true_and] at boxed
      exact eq_false_iff.mpr boxed
    exact flows.pass (.convert start fromValue (isValue tgtData toValue))

end Flows

variable {member : DataMember}

theorem passes_member (isReadable : memberDirective? member = some d)
    (allowed : chk.rules.Member member) (recv : Cell)
    (takes : (if member.isStatic then start else recv :: start) = stack) :
    d.Passes chk want stack (.value member.type :: start) := by
  subst takes
  cases member with
  | field field =>
    cases isReadable
    cases isStatic : field.isStatic <;> simp only [DataMember.isStatic, isStatic]
    · exact .loadField recv start allowed
    · exact .loadStaticField start allowed
  | property property =>
    simp only [memberDirective?, Option.ite_none_right_eq_some] at isReadable
    obtain ⟨_, same⟩ := isReadable
    cases same
    cases isStatic : property.isStatic <;> simp only [DataMember.isStatic, isStatic]
    · have passes : Directive.Passes chk want (.property Op.getProperty property) _ _ :=
        .getProperty recv start allowed.1
      rwa [allowed.2] at passes
    · have passes : Directive.Passes chk want (.property Op.getStaticProperty property) _ _ :=
        .getStaticProperty start allowed.1
      rwa [allowed.2] at passes

def Item.Flowing (checker : Checker) (locals : Array Ty) (given : Expectation → Prop)
    (draft after : Draft) : Item → Prop
  | .one value => value.Sound checker.rules checker.types locals → ∀ start,
      Flows checker given (Item.one value).fragments start (start.called value.type) draft after
  | .many list => ∀ wanted, Expr.AllSound checker.rules checker.types locals list wanted →
      (∀ type ∈ wanted, type.isData = true) → ∀ start,
      Flows checker given (argumentFragments list) start (start.pushed wanted) draft after
  | .elements slot _ list => Uses checker draft slot (.array .object 1) →
      Expr.AllSound checker.rules checker.types locals list (list.map fun _ => .object) →
      ∀ start, Flows checker given (argumentFragments list) start start draft after
  | .receiver target isImmediate held => target.Sound checker.rules checker.types locals →
      target.type.isData = true → ∀ start, ∃ receiver,
      Flows checker given (Item.receiver target isImmediate held).fragments start
        (receiver :: start) draft after

theorem Flows.single (code : Code chk.types (.one val) draft (draft.wrote d))
    (isData : val.type.isData) (start : Shape) (passes : ∀ want, Knows chk want (draft.wrote d) →
      d.Passes chk want start (.value val.type :: start)) :
    Flows chk given [.expression val] start (start.called val.type) draft (draft.wrote d) :=
  .ofValue code isData ((Flows.refl chk given start draft).wrote
    fun want knows _ => passes want knows)

theorem Code.flows (given : Expectation → Prop) (proper : chk.rules.Proper)
    (code : Code chk.types item draft after) (prepared : Prepared chk locals draft) :
    item.Flowing chk locals given draft after := by
  induction code with
  | literal _ val =>
    intro _ start
    exact .single (.literal ..) (by cases val <;> rfl) start fun _ _ =>
      .constant start (.literal val)
  | localVariable =>
    intro sound start
    exact .ofValue (.localVariable ..) sound.2
      ((Flows.refl chk given start _).loadLocal (prepared.uses sound))
  | fieldConstant _ _ _ _ isConstant =>
    intro allowed start
    exact .single (.fieldConstant _ _ _ _ isConstant)
      (proper.field _ allowed) start fun _ _ => .constant start (.field allowed isConstant)
  | fieldShared _ _ _ _ isVariable isShared =>
    intro allowed start
    exact .single (.fieldShared _ _ _ _ isVariable isShared)
      (proper.field _ allowed) start fun _ _ => .loadStaticField start allowed
  | fieldOwn _ _ _ _ isVariable isOwn =>
    intro allowed start
    exact .ofValue (.fieldOwn _ _ _ _ isVariable isOwn)
      (proper.field _ allowed) (((Flows.refl chk given start _).pass
        (.loadHost start)).pass (.loadField .host start allowed))
  | overload _ _ meth _ leftCode rightCode left right =>
    rintro ⟨leftSound, rightSound, allowed, params, rfl⟩ start
    have areData := (proper.method meth allowed).2
    rw [params] at areData
    have operands := ((left prepared leftSound start).asValue (areData _ (by simp))).trans
      ((right (prepared.code leftCode) rightSound _).asValue (areData _ (by simp)))
    refine .ofExpression (.overload _ _ _ _ leftCode rightCode) (operands.wrote fun want _ _ => ?_)
    have passes : Directive.Passes chk want (.method Op.call meth) _ _ := .call start allowed
    rwa [params] at passes
  | @shortCircuit op _ _ _ _ _ _ _ isLogical leftCode rightCode leftFlows rightFlows =>
    intro ⟨leftSound, rightSound, operation⟩ start
    rw [Typed.OperationSound, if_pos isLogical] at operation
    obtain ⟨leftFits, rightFits, rfl⟩ := operation
    have within := (prepared.wrote .defineLabel).wrote .defineLabel
    refine .ofValue (.shortCircuit _ _ isLogical leftCode rightCode) rfl ?_
    have tested := (leftFlows within leftSound start).asFitting proper leftFits rfl
    have decided := (rightFlows ((within.code leftCode).wrote _) rightSound start).asFitting
      proper rightFits rfl
    have short : ∀ draft, Flows chk given [] start (.value .bool :: start) draft
        (draft.wrote (.constant (.bool (op = .either)))) :=
      fun draft => (Flows.refl chk given start draft).pass (.constant start (.literal (.boolean _)))
    rw [← append_nil (innerFragments _)]
    rcases isLogical with rfl | rfl
    · exact .choice .jumpIfFalse prepared (.inr rfl) tested decided (short _)
    · exact .choice .jumpIfTrue prepared (.inl rfl) tested decided (short _)
  | operator _ _ isStrict isBinary leftCode rightCode left right =>
    intro ⟨leftSound, rightSound, operation⟩ start
    have isData := operation.isData isStrict ⟨leftSound.isResult proper, rightSound.isResult proper⟩
    have operands := ((left prepared leftSound start).asValue isData.1).trans
      ((right (prepared.code leftCode) rightSound _).asValue isData.2.1)
    exact .ofValue (.operator _ _ isStrict isBinary leftCode rightCode) isData.2.2
      (operands.operator isStrict isBinary operation)
  | unary _ _ _ operandCode arg =>
    intro ⟨operandSound, typed⟩ start
    rcases typed with ⟨rfl, isValue, rfl⟩ | ⟨rfl, fits, rfl⟩
    · have isData := Ty.isData_of_isValue isValue
      exact .ofValue (.unary _ _ _ operandCode) isData
        (((arg prepared operandSound start).asValue isData).pass (.negate start isValue))
    · exact .ofValue (.unary _ _ _ operandCode) rfl
        (((arg prepared operandSound start).asFitting proper fits rfl).pass (.complement start))
  | @conditional _ _ _ draft _ _ _ _ _ condCode noCode yesCode conditionFlows noFlows yesFlows =>
    intro ⟨condSound, yesSound, noSound, conditionFits, yesFits, noFits⟩ start
    have within := (prepared.wrote .defineLabel).wrote .defineLabel
    have afterCondition := (within.code condCode).wrote (.jump Op.jumpIfTrue draft.nextLabel)
    have afterNo := ((afterCondition.code noCode).wrote
      (.jump Op.jump (draft.nextLabel + 1))).wrote (.mark draft.nextLabel)
    exact .ofExpression (.conditional _ _ condCode noCode yesCode) (.choice _ prepared (.inl rfl)
        ((conditionFlows within condSound start).asFitting proper conditionFits rfl)
        ((noFlows afterCondition noSound start).suits (suits_called proper noFits start))
        ((yesFlows afterNo yesSound start).suits (suits_called proper yesFits start)))
  | cast _ _ _ operandCode operandFlows =>
    intro ⟨operandSound, isData, tgtData, _, boxes⟩ start
    exact .ofValue (.cast _ _ _ operandCode) tgtData
      (((operandFlows prepared operandSound start).asValue isData).cast isData tgtData boxes)
  | call _ _ meth argumentsCode args =>
    intro ⟨allowed, argsSound⟩ start
    have areData := (proper.method meth allowed).2
    refine .ofExpression (.call _ _ _ argumentsCode) ?_
    unfold Method.callOp
    cases isStatic : meth.isStatic
    · simp only [isStatic, Bool.false_eq_true, if_false] at args ⊢
      exact (((Flows.refl chk given start _).pass (.loadHost start)).trans
        (args (prepared.wrote _) _ argsSound areData _)).pass (.callVirtual .host start allowed)
    · simp only [isStatic, if_true] at args ⊢
      exact (args prepared _ argsSound areData start).pass (.call start allowed)
  | staticInvocation _ _ _ isStatic argumentsCode args =>
    intro ⟨allowed, argsSound, _⟩ start
    have areData := (proper.method _ allowed).2
    rw [Item.fragments, innerFragments, if_pos isStatic]
    exact .ofExpression (.staticInvocation _ _ _ isStatic argumentsCode)
      ((args prepared _ argsSound areData start).pass (.call start allowed))
  | invocation _ _ isInstance tgtCode argumentsCode tgt args =>
    intro ⟨allowed, argsSound, tgtSound⟩ start
    obtain ⟨tgtSound, tgtData⟩ := tgtSound isInstance
    obtain ⟨recv, received⟩ := tgt prepared tgtSound tgtData start
    have areData := (proper.method _ allowed).2
    have called := (received.trans (args (prepared.code tgtCode) _ argsSound
      areData _)).pass (.callVirtual recv start allowed)
    rw [Item.fragments, innerFragments, if_neg (by simp [isInstance])]
    exact (called.released _).ofExpression (.invocation _ _ isInstance tgtCode argumentsCode)
  | @lateInvocation _ args draft _ _ _ _ argumentsCode tgtCode argumentsFlows targetFlows =>
    intro ⟨tgtSound, tgtData, argsSound⟩ start
    refine .ofValue (.lateInvocation _ _ argumentsCode tgtCode) rfl ?_
    obtain ⟨takenProper, takenLeads, _, above, known, _⟩ :=
      Draft.taken_owned prepared.proper (.array .object 1) false
    have taken := prepared.later takenProper takenLeads
    have made := ((taken.wrote (.constant (.int32 args.length))).wrote
      (.type Op.newArray .object)).wrote
      (.slot Op.storeLocal (draft.taken (.array .object 1) false).1.slot)
    have isList : Uses chk (draft.taken (.array .object 1) false).2
        (draft.taken (.array .object 1) false).1.slot (.array .object 1) :=
      ⟨known, .inr above⟩
    have allocated : Flows chk given [] start (.value (.array .object 1) :: start) draft
        (((draft.taken (.array .object 1) false).2.wrote
          (.constant (Value.int32 args.length))).wrote (.type Op.newArray .object)) :=
      (((Flows.refl chk given start draft).taken (.array .object 1) false).pass
        (.constant start (.literal (.integer _)))).pass (.newArray .object start)
    have stored := allocated.storeLocal (isList.later ⟨[_, _], rfl⟩)
    have filled := argumentsFlows made (isList.later ⟨[_, _, _], rfl⟩) argsSound start
    have received := (targetFlows (made.code argumentsCode) tgtSound start).asValue tgtData
    have listed := isList.later
      (((Draft.wroteAll_leads _ _).directives.trans filled.suffix).trans received.suffix)
    exact ((((stored.trans filled).trans received).loadLocal listed).pass
      (.lateCall _ _ start)).congr rfl
  | propertyConstant _ _ _ _ isConstant =>
    intro ⟨allowed, _⟩ start
    rw [Item.fragments, innerFragments, if_pos (by simp [DataMember.isConstant, isConstant])]
    exact .single (.propertyConstant _ _ _ _ isConstant)
      (proper.field _ allowed) start fun _ _ => .constant start (.field allowed isConstant)
  | staticProperty _ _ _ _ isVariable isStatic isReadable =>
    intro ⟨allowed, _⟩ start
    rw [Item.fragments, innerFragments, if_pos (by rw [isStatic]; rfl)]
    exact .single (.staticProperty _ _ _ _ isVariable isStatic isReadable)
      (proper.member allowed) start
      fun _ _ => passes_member isReadable allowed .host (if_pos isStatic)
  | @property _ member _ _ _ _ _ _ isVariable isInstance isReadable tgtCode tgt =>
    intro ⟨allowed, tgtSound⟩ start
    obtain ⟨tgtSound, tgtData⟩ := tgtSound isInstance
    obtain ⟨recv, received⟩ := tgt prepared tgtSound tgtData start
    have notConstant : member.isConstant = false := by
      cases member with
      | field stored => simp [DataMember.isConstant, isVariable stored rfl]
      | property _ => rfl
    rw [Item.fragments, innerFragments, isInstance, notConstant, if_neg (by simp)]
    exact .ofValue (.property _ _ isVariable isInstance isReadable tgtCode) (proper.member allowed)
      (received.wrote fun _ _ _ =>
        passes_member isReadable allowed recv (if_neg (eq_false_iff.mp isInstance)))
  | lateProperty _ _ tgtCode tgt =>
    intro ⟨tgtSound, tgtData⟩ start
    exact .ofValue (.lateProperty _ _ tgtCode) rfl
      (((tgt prepared tgtSound start).asValue tgtData).pass (.lateGet _ _ start))
  | @element _ idxs _ _ _ _ _ tgtCode idxsCode targetFlows indicesFlows =>
    intro ⟨tgtSound, isArray, isData, idxsSound⟩ start
    have array := targetFlows prepared tgtSound start
    rw [isArray] at array
    have indexed := (array.asValue isData).trans (indicesFlows (prepared.code tgtCode) _
      idxsSound (by simp [show Ty.int32.isData from rfl]) _)
    refine .ofValue (.element _ _ tgtCode idxsCode) isData (indexed.wrote fun want _ _ => ?_)
    rw [map_const']
    exact .loadElement idxs.length start isData
  | staticIndexer _ _ _ isReadable isStatic idxsCode idxs =>
    rintro ⟨allowed, rfl, idxsSound, _⟩ start
    obtain ⟨isData, areData⟩ := proper.property _ allowed
    rw [Item.fragments, innerFragments, if_pos isStatic]
    refine .ofValue (.staticIndexer _ _ _ isReadable isStatic idxsCode) isData
      ((idxs prepared _ idxsSound areData start).wrote fun _ _ _ => ?_)
    rw [indexerDirective, if_pos isStatic]
    exact .getStaticProperty start allowed
  | indexer _ _ isReadable isInstance tgtCode idxsCode tgt idxs =>
    rintro ⟨allowed, rfl, idxsSound, tgtSound⟩ start
    obtain ⟨tgtSound, tgtData⟩ := tgtSound isInstance
    obtain ⟨isData, areData⟩ := proper.property _ allowed
    have isNotStatic := eq_false_iff.mp isInstance
    rw [Item.fragments, innerFragments, if_neg isNotStatic]
    refine .ofValue (.indexer _ _ isReadable isInstance tgtCode idxsCode) isData
      ((((tgt prepared tgtSound start).asValue tgtData).trans
        (idxs (prepared.code tgtCode) _ idxsSound areData _)).wrote
        fun _ _ _ => ?_)
    rw [indexerDirective, if_neg isNotStatic]
    exact .getProperty _ start allowed
  | nil =>
    rintro want rfl _ start
    exact .refl chk given start _
  | cons firstCode restCode first rest =>
    rintro want ⟨type, others, rfl, firstSound, fits, restSound⟩ areData start
    exact ((first prepared firstSound start).asFitting proper fits
      (areData type mem_cons_self)).trans (rest (prepared.code firstCode) others
      restSound (fun other member => areData other (mem_cons_of_mem _ member)) _)
  | noElements =>
    intro _ _ start
    exact .refl chk given start _
  | @elements slot idx _ _ draft _ _ firstCode restCode firstFlows restFlows =>
    rintro isList ⟨_, _, same, firstSound, fits, restSound⟩ start
    cases same
    have placed : Flows chk given [] start
        (.value .int32 :: .value (.array .object 1) :: start) draft
        ((draft.wrote (.slot Op.loadLocal slot)).wrote (.constant (Value.int32 idx))) :=
      ((Flows.refl chk given start draft).loadLocal isList).pass
        (.constant _ (.literal (.integer _)))
    have within := (prepared.wrote (.slot Op.loadLocal slot)).wrote (.constant (.int32 idx))
    have element := (placed.trans ((firstFlows within firstSound _).asFitting proper fits
      rfl)).wrote fun want _ _ => show Directive.Passes chk want
        (.rank Op.storeElement 1) _ _ from .storeElement 1 start
    have after := (within.code firstCode).wrote (.rank Op.storeElement 1)
    exact element.trans (restFlows after (isList.later element.suffix) restSound start)
  | reference _ isReference tgtCode tgt =>
    intro tgtSound tgtData start
    have flows := (tgt prepared tgtSound start).asValue tgtData
    rw [Item.fragments, receiverFragments, isReference, Bool.false_and, if_neg Bool.false_ne_true]
    exact ⟨_, flows⟩
  | ownAddress _ _ isValue isVariable =>
    intro tgtSound _ start
    obtain ⟨_, _, rfl⟩ := eq_reference_of_localVariable? isVariable
    rw [Item.fragments, receiverFragments, isValue, isVariable, if_pos (by simp)]
    exact ⟨_, (Flows.refl chk given start _).loadLocalAddress (prepared.uses tgtSound)⟩
  | @address tgt _ second isImmediate isValue isComputed tgtCode targetFlows =>
    intro tgtSound tgtData start
    obtain ⟨takenProper, takenLeads, _, above, known, _⟩ := Draft.taken_owned
      (prepared.code tgtCode).proper tgt.type isImmediate
    have uses : Uses chk (second.taken tgt.type isImmediate).2
        (second.taken tgt.type isImmediate).1.slot tgt.type :=
      ⟨known, .inr above⟩
    have flows := ((((targetFlows prepared tgtSound start).asValue tgtData).taken
      tgt.type isImmediate).storeLocal uses).loadLocalAddress
      (uses.later (suffix_cons _ _))
    rw [Item.fragments, receiverFragments, isComputed, if_neg (by simp)]
    exact ⟨_, flows⟩

def expressionFragments (value : Expr) : List Fragment :=
  .expression value :: innerFragments value

theorem Code.flowsInto (given : Expectation → Prop) (proper : chk.rules.Proper)
    (sameTypes : tys = chk.types) (code : Code tys (.one val) draft after)
    (prepared : Prepared chk locals draft) (sound : val.Sound chk.rules chk.types locals)
    (fits : chk.rules.Fits val.type want) (isData : want.isData) (start : Shape) :
    Flows chk given (expressionFragments val) start (.value want :: start) draft after := by
  subst sameTypes
  exact (code.flows given proper prepared sound start).asFitting proper fits isData

/-- The expressions that an assignment computes before the value. -/
def targetFragments : Expr → List Fragment
  | .property _ target _ member =>
    if member.isStatic then [] else receiverFragments target (expressionFragments target)
  | .lateProperty _ target _ => expressionFragments target
  | .index _ target indices none _ => expressionFragments target ++ argumentFragments indices
  | .index _ target indices (some indexer) _ =>
    (if indexer.isStatic then [] else expressionFragments target) ++ argumentFragments indices
  | _ => []

mutual

def statementFragments : Typed.Statement → List Fragment
  | .block body => blockFragments body
  | .assignment _ target value => targetFragments target ++ expressionFragments value
  | .declaration _ _ _ _ value => expressionFragments value
  | .persistent _ _ _ _ | .breakLoop _ | .continueLoop _ | .leave _ => []
  | .ifThen _ cond yes => expressionFragments cond ++ blockFragments yes
  | .ifElse _ cond yes no =>
    expressionFragments cond ++ blockFragments yes ++ blockFragments no
  | .whileLoop _ cond body => expressionFragments cond ++ blockFragments body
  | .callStatement _ call | .invocationStatement _ call => expressionFragments call

/-- The statements of a block, and what is inside them. -/
def blockFragments : Typed.Block → List Fragment
  | .mk _ _ body => bodyFragments body

def bodyFragments : List Typed.Statement → List Fragment
  | [] => []
  | first :: rest => (.statement first :: statementFragments first) ++ bodyFragments rest

end

def BodyItem.fragments : BodyItem → List Fragment
  | .one act => .statement act :: statementFragments act
  | .block body => blockFragments body
  | .many list => bodyFragments list

def BodyItem.Sound (rules : Rules) (types : Universe) (locals : Array Ty) : BodyItem → Prop
  | .one tree => tree.Sound rules types locals
  | .block tree => tree.Sound rules types locals
  | .many trees => Typed.Statement.AllSound rules types locals trees

theorem passes_storeMember (allowed : chk.rules.Member member) (recv : Cell)
    (takes : (if member.isStatic then start else recv :: start) = stack) :
    (memberStoreDirective member).Passes chk want (.value member.type :: stack) start := by
  subst takes
  cases member with
  | field field =>
    cases isStatic : field.isStatic <;>
      simp only [memberStoreDirective, DataMember.isStatic, isStatic]
    · exact .storeField field recv start
    · exact .storeStaticField field start
  | property property =>
    cases isStatic : property.isStatic <;>
      simp only [memberStoreDirective, DataMember.isStatic, isStatic]
    · have passes : Directive.Passes chk want (.property Op.setProperty property) _ _ :=
        .setProperty property recv start
      rwa [allowed.2] at passes
    · have passes : Directive.Passes chk want (.property Op.setStaticProperty property) _ _ :=
        .setStaticProperty property start
      rwa [allowed.2] at passes

theorem Flows.dropped {given : Expectation → Prop} {frags : List Fragment} {first second : Draft}
    {type : Ty} (flows : Flows chk given frags [] (Shape.called [] type) first second)
    {leaves : Bool} (decides : leaves ↔ type ≠ .void) :
    Flows chk given frags [] [] first
      (second.wroteAll (if leaves then [.plain Op.pop] else [])) := by
  unfold Shape.called at flows
  split at flows
  · next isVoid =>
    rw [if_neg fun leaves => decides.mp leaves isVoid]
    exact flows
  · next hasValue =>
    rw [if_pos (decides.mpr hasValue)]
    exact flows.pass (.pop _ [])

theorem leavesValue_iff (call : Expr) : leavesValue call ↔ call.type ≠ .void := by
  cases call <;> simp [leavesValue, Expr.type, Expr.type?]

/-- The labels around a statement are reached with nothing on the stack. -/
def Surroundings.Bare (around : Surroundings) (marks : Nat → Shape) : Prop :=
  marks around.exit = [] ∧ ∀ label, around.targets label → marks label = []

theorem BodyCode.flows (proper : chk.rules.Proper) (code : BodyCode around item draft after)
    (sameTypes : around.types = chk.types) (prepared : Prepared chk locals draft)
    (given : Expectation → Prop) (bare : ∀ want, given want → around.Bare want.marks)
    (sound : item.Sound chk.rules chk.types locals) :
    Flows chk given item.fragments [] [] draft after := by
  induction code generalizing given with
  | assignVariable _ _ _ _ val | declaration _ _ _ _ val =>
    obtain ⟨tgtSound, valueSound, fits⟩ := sound
    have flows := val.flowsInto given proper sameTypes prepared valueSound fits tgtSound.2 []
    exact .ofStatement sameTypes (by constructor; exact val)
      (flows.storeLocal ((prepared.grown (val.grows _).1).uses tgtSound))
  | assignShared _ _ _ _ isWritable isShared val =>
    obtain ⟨allowed, valueSound, fits⟩ := sound
    have flows := val.flowsInto given proper sameTypes prepared valueSound fits
      (proper.field _ allowed) []
    exact .ofStatement sameTypes (.assignShared _ _ _ _ isWritable isShared val)
      (flows.pass (.storeStaticField _ []))
  | @assignOwn _ _ draft _ _ _ _ _ _ isWritable isOwn val =>
    obtain ⟨allowed, valueSound, fits⟩ := sound
    have hosted := (Flows.refl chk given [] draft).pass (.loadHost [])
    have flows := hosted.trans (val.flowsInto given proper sameTypes (prepared.wrote _)
      valueSound fits (proper.field _ allowed) _)
    exact .ofStatement sameTypes (.assignOwn _ _ _ _ isWritable isOwn val)
      (flows.pass (.storeField _ .host []))
  | assignStaticMember _ _ _ _ isWritable isStatic val =>
    obtain ⟨⟨allowed, _⟩, valueSound, fits⟩ := sound
    have flows := val.flowsInto given proper sameTypes prepared valueSound fits
      (proper.member allowed) []
    rw [BodyItem.fragments, statementFragments, targetFragments, if_pos isStatic]
    exact .ofStatement sameTypes (.assignStaticMember _ _ _ _ isWritable isStatic val)
      (flows.wrote fun _ _ _ => passes_storeMember allowed .host (if_pos isStatic))
  | assignMember _ _ _ isWritable isInstance tgt val =>
    obtain ⟨⟨allowed, tgtSound⟩, valueSound, fits⟩ := sound
    obtain ⟨tgtSound, tgtData⟩ := tgtSound isInstance
    obtain ⟨recv, received⟩ := (sameTypes ▸ tgt).flows given proper prepared tgtSound tgtData []
    have flows := received.trans (val.flowsInto given proper sameTypes
      (prepared.grown (tgt.grows _).1) valueSound fits (proper.member allowed) _)
    rw [BodyItem.fragments, statementFragments, targetFragments,
      if_neg (eq_false_iff.mp isInstance)]
    exact .ofStatement sameTypes (.assignMember _ _ _ isWritable isInstance tgt val)
      ((flows.wrote fun _ _ _ =>
        passes_storeMember allowed recv (if_neg (eq_false_iff.mp isInstance))).released _)
  | assignLate _ _ _ tgt val =>
    obtain ⟨⟨tgtSound, tgtData⟩, valueSound, fits⟩ := sound
    have flows := (((sameTypes ▸ tgt).flows given proper prepared tgtSound []).asValue
      tgtData).trans (val.flowsInto given proper sameTypes
      (prepared.grown (tgt.grows _).1) valueSound fits rfl _)
    exact .ofStatement sameTypes (.assignLate _ _ _ tgt val)
      (flows.pass (.lateSet _ _ []))
  | @assignElement _ _ idxs _ _ _ _ _ _ _ _ tgtCode idxsCode valueCode =>
    obtain ⟨⟨tgtSound, isArray, isData, idxsSound⟩, valueSound, fits⟩ := sound
    have array := (sameTypes ▸ tgtCode).flows given proper prepared tgtSound []
    rw [isArray] at array
    have afterTarget := prepared.grown (tgtCode.grows _).1
    have indexed := (array.asValue isData).trans ((sameTypes ▸ idxsCode).flows given proper
      afterTarget _
      idxsSound (by simp [show Ty.int32.isData from rfl]) _)
    have flows := indexed.trans (valueCode.flowsInto given proper sameTypes
      (afterTarget.grown (idxsCode.grows _).1) valueSound fits isData _)
    refine .ofStatement sameTypes (.assignElement _ _ _ tgtCode idxsCode valueCode)
      (flows.wrote fun _ _ _ => ?_)
    rw [map_const']
    exact .storeElement idxs.length []
  | assignStaticIndexer _ _ _ _ isWritable isStatic idxs val =>
    obtain ⟨⟨allowed, rfl, idxsSound, _⟩, valueSound, fits⟩ := sound
    obtain ⟨isData, areData⟩ := proper.property _ allowed
    have flows := ((sameTypes ▸ idxs).flows given proper prepared _ idxsSound areData
      []).trans (val.flowsInto given proper sameTypes (prepared.grown (idxs.grows _).1)
      valueSound fits isData _)
    rw [BodyItem.fragments, statementFragments, targetFragments, if_pos isStatic]
    refine .ofStatement sameTypes (.assignStaticIndexer _ _ _ _ isWritable isStatic idxs val)
      (flows.wrote fun _ _ _ => ?_)
    rw [indexerStoreDirective, if_pos isStatic]
    exact .setStaticProperty _ []
  | assignIndexer _ _ _ isWritable isInstance tgt idxs val =>
    obtain ⟨⟨allowed, rfl, idxsSound, tgtSound⟩, valueSound, fits⟩ := sound
    obtain ⟨tgtSound, tgtData⟩ := tgtSound isInstance
    obtain ⟨isData, areData⟩ := proper.property _ allowed
    have afterTarget := prepared.grown (tgt.grows _).1
    have flows := ((((sameTypes ▸ tgt).flows given proper prepared tgtSound []).asValue
      tgtData).trans ((sameTypes ▸ idxs).flows given proper afterTarget _ idxsSound
      areData _)).trans (val.flowsInto given proper sameTypes
      (afterTarget.grown (idxs.grows _).1) valueSound fits isData _)
    have isNotStatic := eq_false_iff.mp isInstance
    rw [BodyItem.fragments, statementFragments, targetFragments, if_neg isNotStatic]
    refine .ofStatement sameTypes (.assignIndexer _ _ _ isWritable isInstance tgt idxs val)
      (flows.wrote fun _ _ _ => ?_)
    rw [indexerStoreDirective, if_neg isNotStatic]
    exact .setProperty _ _ []
  | persistent => exact .ofStatement sameTypes (.persistent ..) (.refl chk given [] _)
  | inner bodyCode body =>
    exact .ofStatement sameTypes (.inner bodyCode) (body sameTypes prepared given bare sound)
  | @ifThen _ _ _ draft _ _ _ condCode yesCode yesFlows =>
    obtain ⟨condSound, fits, yesSound⟩ := sound
    refine .ofStatement sameTypes (.ifThen _ condCode yesCode) (.label [] prepared.proper.labels ?_)
    have within := prepared.wrote .defineLabel
    have decided := (condCode.flowsInto _ proper sameTypes within condSound fits rfl
      []).jumpIf (Or.inr rfl) fun want
      (known : given want ∧ want.marks draft.nextLabel = []) => known.2
    have flows := decided.trans (yesFlows sameTypes ((within.grown (condCode.grows _).1).wrote _) _
      (fun want known => bare want known.1) yesSound)
    exact flows.mark (lt_labels_of_suffix prepared [.defineLabel] flows.suffix
      (by simp [labelCount])) fun _ known => known.2
  | @ifElse _ _ _ _ draft _ _ _ _ condCode yesCode noCode yesFlows noFlows =>
    obtain ⟨condSound, fits, yesSound, noSound⟩ := sound
    have within := (prepared.wrote .defineLabel).wrote .defineLabel
    have afterCondition := (within.grown (condCode.grows _).1).wrote
      (.jump Op.jumpIfFalse draft.nextLabel)
    have afterYes := ((afterCondition.grown (yesCode.grows _)).wrote
      (.jump Op.jump (draft.nextLabel + 1))).wrote (.mark draft.nextLabel)
    exact .ofStatement sameTypes (.ifElse _ condCode yesCode noCode)
      (.choice _ prepared (Or.inr rfl)
      (condCode.flowsInto given proper sameTypes within condSound fits rfl [])
      (yesFlows sameTypes afterCondition given bare yesSound)
      (noFlows sameTypes afterYes given bare noSound))
  | @whileLoop around _ _ draft _ _ _ condCode bodyCode bodyFlows =>
    obtain ⟨condSound, fits, bodySound⟩ := sound
    refine .ofStatement sameTypes (.whileLoop _ condCode bodyCode) ?_
    refine .label [] prepared.proper.labels (.label [] (prepared.wrote _).proper.labels ?_)
    let inner : Expectation → Prop := fun want =>
      (given want ∧ want.marks draft.nextLabel = []) ∧ want.marks (draft.nextLabel + 1) = []
    have labelled := (prepared.wrote .defineLabel).wrote .defineLabel
    have started := (Flows.refl chk inner [] ((draft.wrote .defineLabel).wrote .defineLabel)).mark
      (lt_labels_of_suffix prepared [.defineLabel, .defineLabel] suffix_rfl
        (by simp [labelCount])) fun _ known => known.1.2
    have within := labelled.wrote (.mark draft.nextLabel)
    have decided := (started.trans (condCode.flowsInto inner proper sameTypes within
      condSound fits rfl [])).jumpIf (Or.inr rfl) fun _ known => known.2
    have bareInside : ∀ want, inner want → Surroundings.Bare
        { around with loops := ⟨draft.nextLabel, draft.nextLabel + 1⟩ :: around.loops }
        want.marks := by
      intro want known
      refine ⟨(bare want known.1.1).1, ?_⟩
      rintro label ⟨loop, member, same⟩
      rcases mem_cons.mp member with rfl | outer
      · rcases same with rfl | rfl
        · exact known.1.2
        · exact known.2
      · exact (bare want known.1.1).2 label ⟨loop, outer, same⟩
    have repeated := (decided.trans (bodyFlows sameTypes
      ((within.grown (condCode.grows _).1).wrote _) inner bareInside bodySound)).jump
      (fun _ known => known.1.2) []
    exact repeated.mark (lt_labels_of_suffix prepared [.defineLabel, .defineLabel]
      repeated.suffix (by simp [labelCount])) fun _ known => known.2
  | @breakLoop _ loop _ _ draft inLoop | @continueLoop _ loop _ _ draft inLoop =>
    refine .ofStatement sameTypes (by constructor; exact inLoop)
      ((Flows.refl chk given [] draft).jump (fun want known => ?_) [])
    exact (bare want known).2 _ ⟨loop, inLoop ▸ mem_cons_self, by simp⟩
  | leave =>
    exact .ofStatement sameTypes (.leave ..) ((Flows.refl chk given [] _).wrote fun want _ known =>
        .leave [] (bare want known).1)
  | callStatement _ call =>
    have flows := (sameTypes ▸ call).flows given proper prepared sound []
    exact .ofStatement sameTypes (.callStatement _ call) (flows.dropped (by simp))
  | invocationStatement _ call =>
    have flows := (sameTypes ▸ call).flows given proper prepared sound []
    exact .ofStatement sameTypes (.invocationStatement _ call) (flows.dropped (leavesValue_iff _))
  | block _ _ _ body => exact body sameTypes prepared given bare sound
  | nil => exact .refl chk given [] _
  | cons firstCode _ first rest =>
    exact (first sameTypes prepared given bare sound.1).trans
      (rest sameTypes (prepared.grown (firstCode.grows _)) given bare sound.2)

end Emission

end HostScript

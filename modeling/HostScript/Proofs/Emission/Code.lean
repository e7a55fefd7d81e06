import HostScript.Emission.Script
import HostScript.Proofs.Assembly.Draft
import HostScript.Proofs.Machine.Work

namespace HostScript

namespace Typed

mutual

def Expr.isDirect : Expr → Bool
  | .literal _ _ | .reference _ _ _ => true
  | .operator _ _ left right _ _ => left.isDirect && right.isDirect
  | .unary _ _ operand _ => operand.isDirect
  | .conditional _ cond yes no _ => cond.isDirect && yes.isDirect && no.isDirect
  | .cast _ _ _ operand => operand.isDirect
  | .call _ _ _ args => Expr.allDirect args
  | .expansion _ _ _ _ _ => false
  | .invocation _ target _ args _ => target.isDirect && Expr.allDirect args
  | .lateInvocation _ target _ args => target.isDirect && Expr.allDirect args
  | .property _ target _ _ => target.isDirect
  | .lateProperty _ target _ => target.isDirect
  | .index _ target indices _ _ => target.isDirect && Expr.allDirect indices

def Expr.allDirect : List Expr → Bool
  | [] => true
  | first :: rest => first.isDirect && Expr.allDirect rest

end

end Typed

variable {after : Draft}

namespace Emission

/-!
# Code of expressions, as a relation

`Code types item draft after` says that writing an expression, or several, leads from one draft
to another.
-/

namespace Draft

def wrote (draft : Draft) (directive : Directive) : Draft :=
  { draft with
    directives := directive :: draft.directives
    nextLabel := draft.nextLabel + directive.labelCount
    nextSlot := draft.nextSlot + directive.declared?.toList.length }

def taken (draft : Draft) (type : Ty) (isTemporary : Bool) : Scratch × Draft :=
  match draft.free.find? fun scratch => scratch.type == type with
  | some scratch =>
    if isTemporary then (scratch, draft)
    else
      (scratch, { draft with free := draft.free.eraseP fun other => other.type == type })
  | none =>
    let scratch : Scratch := { slot := draft.nextSlot, type }
    let decl := draft.wrote (.declareLocal type)
    if isTemporary then (scratch, { decl with free := decl.free ++ [scratch] })
    else (scratch, decl)

/-- A draft after a local variable was given back. -/
def returned (draft : Draft) (scratch : Scratch) : Draft :=
  { draft with free := draft.free ++ [scratch] }

/-- A draft after the local variable of a receiver was given back, if there is one. -/
def released (draft : Draft) : Option Scratch → Draft
  | none => draft
  | some scratch => draft.returned scratch

end Draft

theorem write_eq (d : Directive) (draft : Draft) : write d draft = .ok ((), draft.wrote d) := by
  cases d <;> rfl

theorem checkOut_eq (type : Ty) (isTemporary : Bool) (draft : Draft) :
    checkOut type isTemporary draft = .ok (draft.taken type isTemporary) := by
  unfold Draft.taken
  cases found : draft.free.find? fun scratch => scratch.type == type with
  | some scratch =>
    cases isTemporary <;>
      simp only [checkOut, bind, StateT.bind, get, getThe, MonadStateOf.get, StateT.get, pure,
        Except.pure, Except.bind, found] <;> rfl
  | none =>
    cases isTemporary <;>
      simp only [checkOut, bind, StateT.bind, get, getThe, MonadStateOf.get, StateT.get, pure,
        Except.pure, Except.bind, found] <;> rfl

end Emission

namespace Ensures

open Emission

variable {draft : Draft}

theorem write {post} (ensured : post () (draft.wrote d)) :
    Ensures draft (Emission.write d) post :=
  of_eq (write_eq d draft) ensured

variable {post : α → Draft → Prop}

theorem writing {next : Emitter α} (rest : Ensures (draft.wrote d) next post) :
    Ensures draft (do Emission.write d; next) post :=
  past (write_eq d draft) rest

theorem newLabel {next : Nat → Emitter α}
    (rest : Ensures (draft.wrote .defineLabel) (next draft.nextLabel) post) :
    Ensures draft (Emission.newLabel >>= next) post := rest

theorem newLocal {next : Scratch → Emitter α}
    (rest : Ensures (draft.wrote (.declareLocal type)) (next ⟨draft.nextSlot, type⟩) post) :
    Ensures draft (Emission.newLocal type >>= next) post := rest

theorem checkOut {next : Scratch → Emitter α}
    (rest : Ensures (draft.taken type isTemporary).2 (next (draft.taken type isTemporary).1) post) :
    Ensures draft (Emission.checkOut type isTemporary >>= next) post :=
  past (checkOut_eq type isTemporary draft) rest

theorem checkIn {post} (held : Option Scratch) (ensured : post () (draft.released held)) :
    Ensures draft (do if let some scratch := held then Emission.checkIn scratch) post := by
  cases held <;> exact of_eq rfl ensured

end Ensures

namespace Emission

open Typed (Expr)

/-- The directives of an operator after its operands; `none` for what is no binary operator. -/
def operatorDirectives? (op : Operator) : Option (List Directive) :=
  match op.arithmetic? with
  | some operation => some [.plain operation]
  | none =>
    match op with
    | .equal => some [.plain Op.equal]
    | .notEqual => some [.plain Op.equal, .plain Op.complement]
    | .less => some [.plain Op.less]
    | .greater => some [.plain Op.greater]
    | .lessEqual => some [.plain Op.greater, .plain Op.complement]
    | .greaterEqual => some [.plain Op.less, .plain Op.complement]
    | _ => none

/-- The directives of a conversion after its operand. -/
def castDirectives (types : Universe) (source target : Ty) : List Directive :=
  if source.isValue && target.isReference then [.type Op.box source]
  else if source.isReference && target.isValue then [.type Op.unbox target]
  else if source.isReference then
    if types.isAssignable target source then [] else [.type Op.castClass target]
  else [.convert (types.kind target).number]

/-- The directive that reads a member after its target; `none` if it cannot be read. -/
def memberDirective? : DataMember → Option Directive
  | .field field =>
    some (.field (if field.isStatic then Op.loadStaticField else Op.loadField) field)
  | .property property =>
    if property.canRead then
      some (.property (if property.isStatic then Op.getStaticProperty else Op.getProperty) property)
    else none

def indexerDirective (indexer : Property) : Directive :=
  .property (if indexer.isStatic then Op.getStaticProperty else Op.getProperty) indexer

def Draft.wroteAll (draft : Draft) (directives : List Directive) : Draft :=
  directives.foldl Draft.wrote draft

/-- What code is written for. -/
inductive Item where
  | one (expression : Expr)
  | many (expressions : List Expr)
  /-- Arguments that are put into the array in a slot, from an index on. -/
  | elements (slot index : Nat) (expressions : List Expr)
  /-- The receiver of an instance member, and the local variable that it holds for later. -/
  | receiver (target : Expr) (isImmediate : Bool) (held : Option Scratch)

section

variable (types : Universe)

/-- Writing the code of an item leads from one draft to another. -/
inductive Code : Item → Draft → Draft → Prop
  | literal (offset value draft) :
      Code (.one (.literal offset value)) draft (draft.wrote (.constant value.value))
  | localVariable (offset name decl draft) :
      Code (.one (.reference offset name (some (.variable decl)))) draft
        (draft.wrote (.slot Op.loadLocal decl.slot))
  | fieldConstant {field value} (offset name fieldName draft)
      (isConstant : field.literal = some value) :
      Code (.one (.reference offset name (some (.field fieldName field)))) draft
        (draft.wrote (.constant value))
  | fieldShared {field} (offset name fieldName draft) (isVariable : field.literal = none)
      (isShared : field.shared = true) :
      Code (.one (.reference offset name (some (.field fieldName field)))) draft
        (draft.wrote (.field Op.loadStaticField field))
  | fieldOwn {field} (offset name fieldName draft) (isVariable : field.literal = none)
      (isOwn : field.shared = false) :
      Code (.one (.reference offset name (some (.field fieldName field)))) draft
        ((draft.wrote (.plain Op.loadHost)).wrote (.field Op.loadField field))
  | overload {left right draft second third} (offset op method type)
      (leftCode : Code (.one left) draft second) (rightCode : Code (.one right) second third) :
      Code (.one (.operator offset op left right (some method) type)) draft
        (third.wrote (.method Op.call method))
  | shortCircuit {op left right draft second third} (offset type)
      (isLogical : op = .both ∨ op = .either)
      (leftCode : Code (.one left) ((draft.wrote .defineLabel).wrote .defineLabel) second)
      (rightCode : Code (.one right) (second.wrote
          (.jump (if op = .either then Op.jumpIfTrue else Op.jumpIfFalse) draft.nextLabel))
        third) :
      Code (.one (.operator offset op left right none type)) draft (third.wroteAll
          [.jump Op.jump (draft.nextLabel + 1), .mark draft.nextLabel,
            .constant (.bool (op = .either)), .mark (draft.nextLabel + 1)])
  | operator {op left right draft second third directives} (offset type)
      (isStrict : ¬(op = .both ∨ op = .either))
      (isBinary : operatorDirectives? op = some directives)
      (leftCode : Code (.one left) draft second) (rightCode : Code (.one right) second third) :
      Code (.one (.operator offset op left right none type)) draft (third.wroteAll directives)
  | unary {operand draft second} (offset op type) (operandCode : Code (.one operand) draft second) :
      Code (.one (.unary offset op operand type)) draft
        (second.wrote (.plain (Op.code (if op = .negate then .negate else .complement))))
  | conditional {cond yes no draft second third fourth} (offset type)
      (conditionCode : Code (.one cond)
        ((draft.wrote .defineLabel).wrote .defineLabel) second)
      (noCode : Code (.one no) (second.wrote (.jump Op.jumpIfTrue draft.nextLabel)) third)
      (yesCode : Code (.one yes)
        ((third.wrote (.jump Op.jump (draft.nextLabel + 1))).wrote (.mark draft.nextLabel))
        fourth) :
      Code (.one (.conditional offset cond yes no type)) draft
        (fourth.wrote (.mark (draft.nextLabel + 1)))
  | cast {operand draft second} (offset name target)
      (operandCode : Code (.one operand) draft second) :
      Code (.one (.cast offset name target operand)) draft
        (second.wroteAll (castDirectives types operand.type target))
  | call {args draft second} (offset name method)
      (argumentsCode : Code (.many args)
        (if method.isStatic then draft else draft.wrote (.plain Op.loadHost)) second) :
      Code (.one (.call offset name method args)) draft
        (second.wrote (.method method.callOp method))
  | staticInvocation {args draft second method} (offset target name)
      (isStatic : method.isStatic = true) (argumentsCode : Code (.many args) draft second) :
      Code (.one (.invocation offset target name args method)) draft
        (second.wrote (.method Op.call method))
  | invocation {target args draft second third held method} (offset name)
      (isInstance : method.isStatic = false)
      (targetCode : Code (.receiver target args.isEmpty held) draft second)
      (argumentsCode : Code (.many args) second third) :
      Code (.one (.invocation offset target name args method)) draft
        ((third.wrote (.method Op.callVirtual method)).released held)
  | lateInvocation {target args draft second third} (offset name)
      (argumentsCode : Code (.elements (draft.taken (.array .object 1) false).1.slot 0 args)
        ((draft.taken (.array .object 1) false).2.wroteAll
          [.constant (Value.int32 args.length), .type Op.newArray .object,
            .slot Op.storeLocal (draft.taken (.array .object 1) false).1.slot]) second)
      (targetCode : Code (.one target) second third) :
      Code (.one (.lateInvocation offset target name args)) draft ((third.wroteAll
          [.slot Op.loadLocal (draft.taken (.array .object 1) false).1.slot,
            .name Op.lateCall name.name]).returned
          (draft.taken (.array .object 1) false).1)
  | propertyConstant {field value} (offset target name draft)
      (isConstant : field.literal = some value) :
      Code (.one (.property offset target name (.field field))) draft
        (draft.wrote (.constant value))
  | staticProperty {member directive} (offset target name draft)
      (isVariable : ∀ field, member = .field field → field.literal = none)
      (isStatic : member.isStatic = true) (isReadable : memberDirective? member = some directive) :
      Code (.one (.property offset target name member)) draft (draft.wrote directive)
  | property {target member directive draft second held} (offset name)
      (isVariable : ∀ field, member = .field field → field.literal = none)
      (isInstance : member.isStatic = false) (isReadable : memberDirective? member = some directive)
      (targetCode : Code (.receiver target true held) draft second) :
      Code (.one (.property offset target name member)) draft (second.wrote directive)
  | lateProperty {target draft second} (offset name)
      (targetCode : Code (.one target) draft second) :
      Code (.one (.lateProperty offset target name)) draft
        (second.wrote (.name Op.lateGet name.name))
  | element {target indices draft second third} (offset type)
      (targetCode : Code (.one target) draft second)
      (indicesCode : Code (.many indices) second third) :
      Code (.one (.index offset target indices none type)) draft
        (third.wrote (.rank Op.loadElement indices.length))
  | staticIndexer {indices draft second indexer} (offset target type)
      (isReadable : indexer.canRead = true) (isStatic : indexer.isStatic = true)
      (indicesCode : Code (.many indices) draft second) :
      Code (.one (.index offset target indices (some indexer) type)) draft
        (second.wrote (indexerDirective indexer))
  | indexer {target indices draft second third indexer} (offset type)
      (isReadable : indexer.canRead = true) (isInstance : indexer.isStatic = false)
      (targetCode : Code (.one target) draft second)
      (indicesCode : Code (.many indices) second third) :
      Code (.one (.index offset target indices (some indexer) type)) draft
        (third.wrote (indexerDirective indexer))
  | nil (draft) : Code (.many []) draft draft
  | cons {first rest draft second third} (firstCode : Code (.one first) draft second)
      (restCode : Code (.many rest) second third) :
      Code (.many (first :: rest)) draft third
  | noElements (slot index draft) : Code (.elements slot index []) draft draft
  | elements {slot index first rest draft second third}
      (firstCode : Code (.one first)
        (draft.wroteAll [.slot Op.loadLocal slot, .constant (Value.int32 index)]) second)
      (restCode : Code (.elements slot (index + 1) rest)
        (second.wrote (.rank Op.storeElement 1)) third) :
      Code (.elements slot index (first :: rest)) draft third
  | reference {target draft second} (isImmediate) (isReference : target.type.isValue = false)
      (targetCode : Code (.one target) draft second) :
      Code (.receiver target isImmediate none) draft second
  | ownAddress {target decl} (isImmediate draft) (isValue : target.type.isValue = true)
      (isVariable : localVariable? target = some decl) :
      Code (.receiver target isImmediate none) draft
        (draft.wrote (.slot Op.loadLocalAddress decl.slot))
  | address {target draft second} (isImmediate)
      (isValue : target.type.isValue = true) (isComputed : localVariable? target = none)
      (targetCode : Code (.one target) draft second) :
      Code (.receiver target isImmediate
          (if isImmediate then none else some (second.taken target.type isImmediate).1))
        draft
        ((second.taken target.type isImmediate).2.wroteAll
          [.slot Op.storeLocal (second.taken target.type isImmediate).1.slot,
            .slot Op.loadLocalAddress (second.taken target.type isImmediate).1.slot])

end

section

variable {post : Unit → Draft → Prop}

theorem operatorCode_ensures
    (ensured : ∀ ds, operatorDirectives? op = some ds → post () (draft.wroteAll ds)) :
    Ensures draft (operatorCode off op) post := by
  cases op <;> first
    | exact .throw _
    | exact .of_eq rfl (ensured _ rfl)

theorem castCode_eq (types : Universe) (source target : Ty) (draft : Draft) :
    castCode types source target draft =
      .ok ((), draft.wroteAll (castDirectives types source target)) := by
  unfold castCode castDirectives
  split
  · rfl
  · split
    · rfl
    · split
      · split <;> rfl
      · rfl

theorem memberCode_ensures
    (ensured : ∀ d, memberDirective? member = some d → post () (draft.wrote d)) :
    Ensures draft (memberCode name member) post := by
  cases member with
  | field => exact .write (ensured _ rfl)
  | property property =>
    dsimp only [memberCode]
    cases canRead : property.canRead with
    | false => exact .throw _
    | true => exact .write (ensured _ (by simp [memberDirective?, canRead]))

end

theorem code_of_receiver
    (tgtCode : ∀ draft, Ensures draft (expression tys tgt) fun _ => Code tys (.one tgt) draft)
    (draft : Draft) : Ensures draft (receiver tgt (expression tys tgt) isImmediate) fun held =>
      Code tys (.receiver tgt isImmediate held) draft := by
  unfold receiver
  cases isValue : tgt.type.isValue with
  | false => exact (tgtCode draft).bind fun _ _ code => .pure (.reference _ isValue code)
  | true =>
    cases isVariable : localVariable? tgt with
    | some _ => exact .writing (.pure (.ownAddress _ _ isValue isVariable))
    | none =>
      exact (tgtCode draft).bind fun _ _ code =>
        .checkOut (.writing (.writing (.pure (.address _ isValue isVariable code))))

mutual

theorem code_of_expression : (expr : Expr) → expr.isDirect → ∀ draft,
    Ensures draft (expression tys expr) fun _ => Code tys (.one expr) draft
  | .literal _ _, _, _ => .write (.literal ..)
  | .reference _ _ (some (.variable _)), _, _ => .write (.localVariable ..)
  | .reference _ _ (some (.field _ field)), _, _ => by
    rw [expression, referenceCode, fieldCode]
    cases isConstant : field.literal with
    | some _ => exact .write (.fieldConstant _ _ _ _ isConstant)
    | none =>
      cases isShared : field.shared with
      | false => exact .writing (.write (.fieldOwn _ _ _ _ isConstant isShared))
      | true => exact .write (.fieldShared _ _ _ _ isConstant isShared)
  | .reference _ _ none, _, _ | .reference _ _ (some (.method _ _)), _, _
  | .reference _ _ (some (.transform _ _)), _, _ | .reference _ _ (some (.typeName _ _)), _, _ =>
    .throw _
  | .operator _ _ left right (some _) _, direct, draft => by
    obtain ⟨leftDirect, rightDirect⟩ := Bool.and_eq_true_iff.mp direct
    exact (code_of_expression left leftDirect draft).bind fun _ _ left =>
      (code_of_expression right rightDirect _).bind fun _ _ right =>
        .write (.overload _ _ _ _ left right)
  | .operator _ op left right none _, direct, draft => by
    obtain ⟨leftDirect, rightDirect⟩ := Bool.and_eq_true_iff.mp direct
    rw [expression]
    split
    · next isLogical =>
      exact .newLabel (.newLabel ((code_of_expression left leftDirect _).bind fun _ _ left =>
        .writing ((code_of_expression right rightDirect _).bind fun _ _ right =>
          .writing (.writing (.writing (.write (.shortCircuit _ _ isLogical left right)))))))
    · next isStrict =>
      exact (code_of_expression left leftDirect draft).bind fun _ _ left =>
        (code_of_expression right rightDirect _).bind fun _ _ right =>
          operatorCode_ensures fun _ isBinary => .operator _ _ isStrict isBinary left right
  | .unary _ _ operand _, direct, draft =>
    (code_of_expression operand direct draft).bind fun _ _ operand => .write (.unary _ _ _ operand)
  | .conditional _ cond yes no _, direct, draft => by
    simp only [Expr.isDirect, Bool.and_eq_true] at direct
    exact .newLabel (.newLabel ((code_of_expression cond direct.1.1 _).bind fun _ _ cond =>
      .writing ((code_of_expression no direct.2 _).bind fun _ _ no =>
        .writing (.writing ((code_of_expression yes direct.1.2 _).bind fun _ _ yes =>
          .write (.conditional _ _ cond no yes))))))
  | .cast _ _ _ operand, direct, draft =>
    (code_of_expression operand direct draft).bind fun _ _ operand =>
      .of_eq (castCode_eq _ _ _ _) (.cast _ _ _ operand)
  | .call _ _ meth args, direct, draft => by
    rw [expression]
    cases isStatic : meth.isStatic with
    | false =>
      exact .writing ((code_of_expressions args direct _).bind fun _ _ args =>
        .write (.call _ _ _ (by simpa [isStatic] using args)))
    | true =>
      exact (code_of_expressions args direct draft).bind fun _ _ args =>
        .write (.call _ _ _ (by simpa [isStatic] using args))
  | .expansion _ _ _ _ _, direct, _ => by simp [Expr.isDirect] at direct
  | .invocation _ tgt _ args meth, direct, draft => by
    obtain ⟨tgtDirect, argsDirect⟩ := Bool.and_eq_true_iff.mp direct
    rw [expression]
    cases isStatic : meth.isStatic with
    | true =>
      exact (code_of_expressions args argsDirect draft).bind fun _ _ args =>
        .write (.staticInvocation _ _ _ isStatic args)
    | false =>
      exact (code_of_receiver (code_of_expression tgt tgtDirect) draft).bind fun held _ target =>
        (code_of_expressions args argsDirect _).bind fun _ _ args =>
          .writing (.checkIn held (.invocation _ _ isStatic target args))
  | .lateInvocation _ tgt _ args, direct, draft => by
    obtain ⟨tgtDirect, argsDirect⟩ := Bool.and_eq_true_iff.mp direct
    exact .checkOut (.writing (.writing (.writing
      ((code_of_elements args argsDirect _ _ _).bind fun _ _ args =>
        (code_of_expression tgt tgtDirect _).bind fun _ _ target =>
          .writing (.writing (.of_eq rfl (.lateInvocation _ _ args target)))))))
  | .property _ tgt _ member, direct, draft => by
    rw [expression.eq_def]
    dsimp only
    split
    · exact .write (.propertyConstant _ _ _ _ rfl)
    · next other =>
      have isVariable : ∀ field, member = .field field → field.literal = none := by
        rintro ⟨_, _, _, _, literal, _, _, _⟩ shape
        cases literal with
        | none => rfl
        | some => exact (other _ _ _ _ _ _ _ _ shape).elim
      cases isStatic : member.isStatic with
      | false =>
        exact (code_of_receiver (code_of_expression tgt direct) draft).bind fun _ _ target =>
          memberCode_ensures fun _ isReadable => .property _ _ isVariable isStatic isReadable target
      | true =>
        exact memberCode_ensures fun _ isReadable =>
          .staticProperty _ _ _ _ isVariable isStatic isReadable
  | .lateProperty _ tgt _, direct, draft =>
    (code_of_expression tgt direct draft).bind fun _ _ target => .write (.lateProperty _ _ target)
  | .index _ tgt idxs none _, direct, draft => by
    obtain ⟨tgtDirect, idxsDirect⟩ := Bool.and_eq_true_iff.mp direct
    exact (code_of_expression tgt tgtDirect draft).bind fun _ _ target =>
      (code_of_expressions idxs idxsDirect _).bind fun _ _ indices =>
        .write (.element _ _ target indices)
  | .index _ tgt idxs (some indexer) _, direct, draft => by
    obtain ⟨tgtDirect, idxsDirect⟩ := Bool.and_eq_true_iff.mp direct
    rw [expression]
    cases canRead : indexer.canRead with
    | false =>
      intro _ _ done
      cases done
    | true =>
      cases isStatic : indexer.isStatic with
      | false =>
        exact (code_of_expression tgt tgtDirect draft).bind fun _ _ target =>
          (code_of_expressions idxs idxsDirect _).bind fun _ _ indices =>
            .write (.indexer _ _ canRead isStatic target indices)
      | true =>
        exact (code_of_expressions idxs idxsDirect draft).bind fun _ _ indices =>
          .write (.staticIndexer _ _ _ canRead isStatic indices)

theorem code_of_expressions : (list : List Expr) → Expr.allDirect list → ∀ draft,
    Ensures draft (expressions tys list) fun _ => Code tys (.many list) draft
  | [], _, _ => .pure (.nil _)
  | first :: rest, direct, draft => by
    obtain ⟨firstDirect, restDirect⟩ := Bool.and_eq_true_iff.mp direct
    exact (code_of_expression first firstDirect draft).bind fun _ _ first =>
      (code_of_expressions rest restDirect _).mono fun _ _ rest => .cons first rest

theorem code_of_elements : (list : List Expr) → Expr.allDirect list → ∀ slot idx draft,
    Ensures draft (elements tys slot idx list) fun _ => Code tys (.elements slot idx list) draft
  | [], _, _, _, _ => .pure (.noElements _ _ _)
  | first :: rest, direct, _, _, _ => by
    obtain ⟨firstDirect, restDirect⟩ := Bool.and_eq_true_iff.mp direct
    exact .writing (.writing ((code_of_expression first firstDirect _).bind fun _ _ first =>
      .writing ((code_of_elements rest restDirect _ _ _).mono fun _ _ rest =>
        .elements first rest)))

end

end Emission

end HostScript

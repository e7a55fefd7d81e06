import HostScript.Proofs.Emission.Code

namespace HostScript

open Directive (declared? labels)

namespace Typed

mutual

def Statement.isDirect : Statement → Bool
  | .block body => body.isDirect
  | .assignment _ target value => target.isDirect && value.isDirect
  | .declaration _ _ _ _ value => value.isDirect
  | .persistent _ _ _ _ | .breakLoop _ | .continueLoop _ | .leave _ => true
  | .ifThen _ cond yes => cond.isDirect && yes.isDirect
  | .ifElse _ cond yes no => cond.isDirect && yes.isDirect && no.isDirect
  | .whileLoop _ cond body => cond.isDirect && body.isDirect
  | .callStatement _ call | .invocationStatement _ call => call.isDirect

def Block.isDirect : Block → Bool
  | .mk _ _ body => Statement.allDirect body

def Statement.allDirect : List Statement → Bool
  | [] => true
  | first :: rest => first.isDirect && Statement.allDirect rest

end

end Typed

namespace Emission

open Typed (Expr)
open Draft

/-!
# Code of statements, as a relation

`BodyCode around item draft after` is to statements what `Code` is to expressions:
a case for each way in which writing a statement can succeed.
-/

/-- What the code of a body is written for. -/
inductive BodyItem where
  | one (statement : Typed.Statement)
  | block (block : Typed.Block)
  | many (statements : List Typed.Statement)

def memberStoreDirective : DataMember → Directive
  | .field field =>
    .field (if field.isStatic then Op.storeStaticField else Op.storeField) field
  | .property property =>
    .property (if property.isStatic then Op.setStaticProperty else Op.setProperty) property

def indexerStoreDirective (indexer : Property) : Directive :=
  .property (if indexer.isStatic then Op.setStaticProperty else Op.setProperty) indexer

/-- Writing a statement leads from one draft to another. -/
inductive BodyCode : Surroundings → BodyItem → Draft → Draft → Prop
  | assignVariable {around value draft second} (offset place name decl)
      (valueCode : Code around.types (.one value) draft second) :
      BodyCode around
        (.one (.assignment offset (.reference place name (some (.variable decl))) value))
        draft (second.wrote (.slot Op.storeLocal decl.slot))
  | assignShared {around value draft second field} (offset place name fieldName)
      (isWritable : field.canWrite = true) (isShared : field.shared = true)
      (valueCode : Code around.types (.one value) draft second) :
      BodyCode around
        (.one (.assignment offset (.reference place name (some (.field fieldName field))) value))
        draft (second.wrote (.field Op.storeStaticField field))
  | assignOwn {around value draft second field} (offset place name fieldName)
      (isWritable : field.canWrite = true) (isOwn : field.shared = false)
      (valueCode : Code around.types (.one value) (draft.wrote (.plain Op.loadHost)) second) :
      BodyCode around
        (.one (.assignment offset (.reference place name (some (.field fieldName field))) value))
        draft (second.wrote (.field Op.storeField field))
  | assignStaticMember {around value draft second mem} (offset place target name)
      (isWritable : mem.canWrite = true) (isStatic : mem.isStatic = true)
      (valueCode : Code around.types (.one value) draft second) :
      BodyCode around (.one (.assignment offset (.property place target name mem) value)) draft
        (second.wrote (memberStoreDirective mem))
  | assignMember {around target value draft second third held mem} (offset place name)
      (isWritable : mem.canWrite = true) (isInstance : mem.isStatic = false)
      (targetCode : Code around.types (.receiver target false held) draft second)
      (valueCode : Code around.types (.one value) second third) :
      BodyCode around (.one (.assignment offset (.property place target name mem) value)) draft
        ((third.wrote (memberStoreDirective mem)).released held)
  | assignLate {around target value draft second third} (offset place name)
      (targetCode : Code around.types (.one target) draft second)
      (valueCode : Code around.types (.one value) second third) :
      BodyCode around (.one (.assignment offset (.lateProperty place target name) value))
        draft (third.wrote (.name Op.lateSet name.name))
  | assignElement {around target indices value draft second third fourth} (offset place type)
      (targetCode : Code around.types (.one target) draft second)
      (indicesCode : Code around.types (.many indices) second third)
      (valueCode : Code around.types (.one value) third fourth) :
      BodyCode around (.one (.assignment offset (.index place target indices none type) value))
        draft (fourth.wrote (.rank Op.storeElement indices.length))
  | assignStaticIndexer {around indices value draft second third indexer} (offset place target type)
      (isWritable : indexer.canWrite = true) (isStatic : indexer.isStatic = true)
      (indicesCode : Code around.types (.many indices) draft second)
      (valueCode : Code around.types (.one value) second third) :
      BodyCode around
        (.one (.assignment offset (.index place target indices (some indexer) type) value)) draft
        (third.wrote (indexerStoreDirective indexer))
  | assignIndexer {around target indices value draft second third fourth indexer}
      (offset place type) (isWritable : indexer.canWrite = true)
      (isInstance : indexer.isStatic = false)
      (targetCode : Code around.types (.one target) draft second)
      (indicesCode : Code around.types (.many indices) second third)
      (valueCode : Code around.types (.one value) third fourth) :
      BodyCode around
        (.one (.assignment offset (.index place target indices (some indexer) type) value)) draft
        (fourth.wrote (indexerStoreDirective indexer))
  | declaration {around value draft second} (offset type name decl)
      (valueCode : Code around.types (.one value) draft second) :
      BodyCode around (.one (.declaration offset type name decl value))
        draft (second.wrote (.slot Op.storeLocal decl.slot))
  | persistent (around offset type name decl draft) :
      BodyCode around (.one (.persistent offset type name decl)) draft draft
  | inner {around body draft after} (bodyCode : BodyCode around (.block body) draft after) :
      BodyCode around (.one (.block body)) draft after
  | ifThen {around cond yes draft second third} (offset)
      (conditionCode : Code around.types (.one cond) (draft.wrote .defineLabel) second)
      (yesCode : BodyCode around (.block yes)
        (second.wrote (.jump Op.jumpIfFalse draft.nextLabel)) third) :
      BodyCode around (.one (.ifThen offset cond yes)) draft (third.wrote (.mark draft.nextLabel))
  | ifElse {around cond yes no draft second third fourth} (offset)
      (conditionCode : Code around.types (.one cond)
        ((draft.wrote .defineLabel).wrote .defineLabel) second)
      (yesCode : BodyCode around (.block yes)
        (second.wrote (.jump Op.jumpIfFalse draft.nextLabel)) third)
      (noCode : BodyCode around (.block no)
        ((third.wrote (.jump Op.jump (draft.nextLabel + 1))).wrote (.mark draft.nextLabel))
        fourth) :
      BodyCode around (.one (.ifElse offset cond yes no))
        draft (fourth.wrote (.mark (draft.nextLabel + 1)))
  | whileLoop {around cond body draft second third} (offset)
      (conditionCode : Code around.types (.one cond)
        (draft.wroteAll [.defineLabel, .defineLabel, .mark draft.nextLabel]) second)
      (bodyCode : BodyCode
        { around with
          loops := { start := draft.nextLabel, exit := draft.nextLabel + 1 } :: around.loops }
        (.block body) (second.wrote (.jump Op.jumpIfFalse (draft.nextLabel + 1))) third) :
      BodyCode around (.one (.whileLoop offset cond body))
        draft
        ((third.wrote (.jump Op.jump draft.nextLabel)).wrote (.mark (draft.nextLabel + 1)))
  | breakLoop {around loop outer} (offset draft) (inLoop : around.loops = loop :: outer) :
      BodyCode around (.one (.breakLoop offset)) draft (draft.wrote (.jump Op.jump loop.exit))
  | continueLoop {around loop outer} (offset draft) (inLoop : around.loops = loop :: outer) :
      BodyCode around (.one (.continueLoop offset)) draft (draft.wrote (.jump Op.jump loop.start))
  | leave (around offset draft) :
      BodyCode around (.one (.leave offset)) draft (draft.wrote (.jump Op.leave around.exit))
  | callStatement {around call draft second} (offset)
      (callCode : Code around.types (.one call) draft second) :
      BodyCode around (.one (.callStatement offset call)) draft
        (second.wroteAll (if call.type != .void then [.plain Op.pop] else []))
  | invocationStatement {around call draft second} (offset)
      (callCode : Code around.types (.one call) draft second) :
      BodyCode around (.one (.invocationStatement offset call)) draft
        (second.wroteAll (if leavesValue call then [.plain Op.pop] else []))
  | block {around body draft after} (offset scope)
      (bodyCode : BodyCode around (.many body) draft after) :
      BodyCode around (.block (.mk offset scope body)) draft after
  | nil (around draft) : BodyCode around (.many []) draft draft
  | cons {around first rest draft second third}
      (firstCode : BodyCode around (.one first) draft second)
      (restCode : BodyCode around (.many rest) second third) :
      BodyCode around (.many (first :: rest)) draft third

theorem bodyCode_of_store {around tgt val} (tgtDirect : tgt.isDirect) (valDirect : val.isDirect)
    (draft : Draft) : Ensures draft (store around.types tgt val) fun _ =>
      BodyCode around (.one (.assignment off tgt val)) draft := by
  have valCode : ∀ draft, Ensures draft (expression around.types val) fun _ =>
      Code around.types (.one val) draft :=
    code_of_expression val valDirect
  cases tgt with
  | reference _ _ sym =>
    rcases sym with _ | ⟨_ | ⟨_, field⟩ | _ | _ | _⟩
    case some.field =>
      dsimp only [store, storeReference]
      cases isWritable : field.canWrite with
      | false => exact .throw _
      | true =>
        cases isShared : field.shared with
        | false =>
          exact .writing ((valCode _).bind fun _ _ value =>
            .write (.assignOwn _ _ _ _ isWritable isShared value))
        | true =>
          exact (valCode draft).bind fun _ _ value =>
            .write (.assignShared _ _ _ _ isWritable isShared value)
    case some.variable =>
      exact (valCode draft).bind fun _ _ value => .write (.assignVariable _ _ _ _ value)
    all_goals exact .throw _
  | property _ owner _ member =>
    have stored : memberStoreCode member = write (memberStoreDirective member) := by
      cases member <;> rfl
    dsimp only [store, storeMember]
    rw [stored]
    cases isWritable : member.canWrite with
    | false => exact .throw _
    | true =>
      cases isStatic : member.isStatic with
      | false =>
        exact (code_of_receiver (code_of_expression owner tgtDirect) draft).bind
          fun held _ target => (valCode _).bind fun _ _ value =>
            .writing (.checkIn held (.assignMember _ _ _ isWritable isStatic target value))
      | true =>
        exact (valCode draft).bind fun _ _ value =>
          .writing (.pure (.assignStaticMember _ _ _ _ isWritable isStatic value))
  | lateProperty _ owner _ =>
    exact (code_of_expression owner tgtDirect draft).bind fun _ _ target =>
      (valCode _).bind fun _ _ value => .write (.assignLate _ _ _ target value)
  | index _ owner idxs indexer _ =>
    obtain ⟨ownerDirect, idxsDirect⟩ := Bool.and_eq_true_iff.mp tgtDirect
    have idxsCode : ∀ draft, Ensures draft (expressions around.types idxs) fun _ =>
        Code around.types (.many idxs) draft :=
      code_of_expressions idxs idxsDirect
    cases indexer with
    | none =>
      exact (code_of_expression owner ownerDirect draft).bind fun _ _ target =>
        (idxsCode _).bind fun _ _ indices => (valCode _).bind fun _ _ value =>
          .write (.assignElement _ _ _ target indices value)
    | some property =>
      dsimp only [store, storeIndexed]
      rw [show Directive.property _ property = indexerStoreDirective property from rfl]
      cases isWritable : property.canWrite with
      | false =>
        intro _ _ done
        cases done
      | true =>
        cases isStatic : property.isStatic with
        | false =>
          exact (code_of_expression owner ownerDirect draft).bind fun _ _ target =>
            (idxsCode _).bind fun _ _ indices => (valCode _).bind fun _ _ value =>
              .write (.assignIndexer _ _ _ isWritable isStatic target indices value)
        | true =>
          exact (idxsCode draft).bind fun _ _ indices => (valCode _).bind fun _ _ value =>
            .write (.assignStaticIndexer _ _ _ _ isWritable isStatic indices value)
  | literal | operator | unary | conditional | cast | call | expansion | invocation
  | lateInvocation => exact .throw _

theorem pop_ensures {post} (leaves : Bool)
    (ensured : post () (draft.wroteAll (if leaves then [.plain Op.pop] else []))) :
    Ensures draft (if leaves then plain .pop else pure ()) post := by
  cases leaves <;> exact .of_eq rfl ensured

mutual

theorem bodyCode_of_statement : (tree : Typed.Statement) → tree.isDirect → ∀ draft,
    Ensures draft (statement around tree) fun _ => BodyCode around (.one tree) draft
  | .block body, direct, draft => (bodyCode_of_block body direct draft).mono fun _ _ => .inner
  | .assignment _ _ _, direct, draft => by
    obtain ⟨tgtDirect, valDirect⟩ := Bool.and_eq_true_iff.mp direct
    exact bodyCode_of_store tgtDirect valDirect draft
  | .declaration _ _ _ _ val, direct, draft =>
    (code_of_expression val direct draft).bind fun _ _ value => .write (.declaration _ _ _ _ value)
  | .persistent _ _ _ _, _, _ => .pure (.persistent ..)
  | .ifThen _ cond yes, direct, draft => by
    obtain ⟨condDirect, yesDirect⟩ := Bool.and_eq_true_iff.mp direct
    exact .newLabel ((code_of_expression cond condDirect _).bind fun _ _ cond =>
      .writing ((bodyCode_of_block yes yesDirect _).bind fun _ _ yes =>
        .write (.ifThen _ cond yes)))
  | .ifElse _ cond yes no, direct, draft => by
    simp only [Typed.Statement.isDirect, Bool.and_eq_true] at direct
    exact .newLabel (.newLabel ((code_of_expression cond direct.1.1 _).bind fun _ _ cond =>
      .writing ((bodyCode_of_block yes direct.1.2 _).bind fun _ _ yes =>
        .writing (.writing ((bodyCode_of_block no direct.2 _).bind fun _ _ no =>
          .write (.ifElse _ cond yes no))))))
  | .whileLoop _ cond body, direct, draft => by
    obtain ⟨condDirect, bodyDirect⟩ := Bool.and_eq_true_iff.mp direct
    exact .newLabel (.newLabel (.writing
      ((code_of_expression cond condDirect _).bind fun _ _ cond =>
        .writing ((bodyCode_of_block body bodyDirect _).bind fun _ _ body =>
          .writing (.write (.whileLoop _ cond body))))))
  | .breakLoop _, _, _ | .continueLoop _, _, _ => by
    rw [statement]
    rcases inLoop : around.loops with _ | ⟨_, _⟩
    · exact .throw _
    · refine .write ?_
      constructor
      exact inLoop
  | .leave _, _, _ => .write (.leave ..)
  | .callStatement _ call, direct, draft =>
    (code_of_expression call direct draft).bind fun _ _ called =>
      pop_ensures _ (.callStatement _ called)
  | .invocationStatement _ call, direct, draft =>
    (code_of_expression call direct draft).bind fun _ _ called =>
      pop_ensures _ (.invocationStatement _ called)

theorem bodyCode_of_block : (tree : Typed.Block) → tree.isDirect → ∀ draft,
    Ensures draft (block around tree) fun _ => BodyCode around (.block tree) draft
  | .mk _ _ body, direct, draft =>
    (bodyCode_of_statements body direct draft).mono fun _ _ => .block _ _

theorem bodyCode_of_statements : (list : List Typed.Statement) → Typed.Statement.allDirect list →
    ∀ draft, Ensures draft (statements around list) fun _ => BodyCode around (.many list) draft
  | [], _, _ => .pure (.nil ..)
  | first :: rest, direct, draft => by
    obtain ⟨firstDirect, restDirect⟩ := Bool.and_eq_true_iff.mp direct
    exact (bodyCode_of_statement first firstDirect draft).bind fun _ _ first =>
      (bodyCode_of_statements rest restDirect _).mono fun _ _ rest => .cons first rest

end

@[simp] theorem Draft.wroteAll_nil (draft : Draft) : draft.wroteAll [] = draft := rfl

@[simp] theorem Draft.wroteAll_cons (draft : Draft) (first : Directive) (rest : List Directive) :
    draft.wroteAll (first :: rest) = (draft.wrote first).wroteAll rest := rfl

theorem Draft.wroteAll_append (draft : Draft) (first second : List Directive) :
    draft.wroteAll (first ++ second) = (draft.wroteAll first).wroteAll second := by
  simp [wroteAll]

theorem forIn_write (items : List α) (action : α → Emitter Unit) (ds : α → List Directive)
    (writes : ∀ item draft, action item draft = .ok ((), draft.wroteAll (ds item)))
    (draft : Draft) :
    (forIn items PUnit.unit fun item _ => do
        action item
        pure (ForInStep.yield PUnit.unit) : Emitter PUnit) draft =
      .ok ((), draft.wroteAll (items.flatMap ds)) := by
  induction items generalizing draft with
  | nil => rfl
  | cons first _ ih =>
    rw [List.forIn_cons, List.flatMap_cons, wroteAll_append, ← ih (draft.wroteAll (ds first))]
    simp only [bind, StateT.bind, writes first draft]
    rfl

def loadDirectives (held : Nat) (decl : Variable) : List Directive :=
  [.slot Op.loadLocal held, .constant (.string decl.name),
    .type Op.stateGet decl.type, .slot Op.storeLocal decl.slot]

def saveDirectives (held : Nat) (decl : Variable) : List Directive :=
  [.slot Op.loadLocal held, .constant (.string decl.name), .slot Op.loadLocal decl.slot] ++
    (if decl.type.isValue then [.type Op.box decl.type] else []) ++
    [.plain Op.stateSet]

/-- The directives before the body: variables and, with a store, the persistent ones' values. -/
def openingDirectives (state : Option Field) (typed : Typed.Script) : List Directive :=
  typed.locals.toList.map .declareLocal ++ .defineLabel ::
    match state with
    | none => []
    | some field =>
      [.declareLocal .scriptState, .plain Op.loadHost, .field Op.loadField field,
          .slot Op.storeLocal typed.locals.size] ++
        typed.persistent.flatMap (loadDirectives typed.locals.size) ++ [.beginTry]

def closingDirectives (state : Option Field) (typed : Typed.Script) : List Directive :=
  (match state with
    | none => []
    | some _ =>
      .beginFinally ::
        (typed.persistent.flatMap (saveDirectives typed.locals.size) ++ [.endTry])) ++
    [.mark 0, .plain Op.ret]

def opening (state : Option Field) (typed : Typed.Script) : Draft :=
  ({} : Draft).wroteAll (openingDirectives state typed)

theorem savePersistent_eq (held : Nat) (decl : Variable) (draft : Draft) :
    savePersistent held decl draft = .ok ((), draft.wroteAll (saveDirectives held decl)) := by
  unfold savePersistent saveDirectives
  cases decl.type.isValue <;> rfl

@[simp] theorem nextSlot_wroteAll (draft : Draft) (ds : List Directive) :
    (draft.wroteAll ds).nextSlot = draft.nextSlot + (ds.filterMap declared?).length := by
  induction ds generalizing draft with
  | nil => rfl
  | cons first _ ih =>
    rw [wroteAll_cons, ih]
    cases decl : first.declared?
    · simp [Draft.wrote, decl]
    · simp [Draft.wrote, decl]
      omega

@[simp] theorem nextLabel_wroteAll (draft : Draft) (ds : List Directive) :
    (draft.wroteAll ds).nextLabel = draft.nextLabel + labels ds := by
  induction ds generalizing draft with
  | nil => rfl
  | cons _ _ ih =>
    rw [wroteAll_cons, ih]
    simp [Draft.wrote, Nat.add_assoc]

theorem script_ensures {typed} (direct : typed.body.isDirect) :
    Ensures {} (script types state typed) fun _ after =>
      ∃ body, BodyCode { types, exit := 0 } (.block typed.body) (opening state typed) body ∧
        after = body.wroteAll (closingDirectives state typed) := by
  have declares : (forIn typed.locals PUnit.unit fun type _ => do
        write (.declareLocal type)
        pure (ForInStep.yield PUnit.unit) : Emitter PUnit) {} =
      .ok ((), ({} : Draft).wroteAll (typed.locals.toList.map .declareLocal)) := by
    rw [← Array.forIn_toList, List.map_eq_flatMap]
    exact forIn_write _ _ _ (fun _ _ => write_eq _ _) {}
  have exit : ({} : Draft).nextLabel + labels (typed.locals.toList.map .declareLocal) = 0 := by
    induction typed.locals.toList with
    | nil => rfl
    | cons _ _ ih => simpa [Directive.labelCount] using ih
  refine .past declares (.newLabel ?_)
  rw [nextLabel_wroteAll, exit]
  cases state with
  | none =>
    refine .bind ?_ fun _ body code => .writing (.write ⟨body, code, rfl⟩)
    rw [opening, openingDirectives, wroteAll_append]
    exact bodyCode_of_block _ direct _
  | some _ =>
    have slot : ((({} : Draft).wroteAll (typed.locals.toList.map .declareLocal)).wrote
        .defineLabel).nextSlot = typed.locals.size := by
      simp [Draft.wrote, List.filterMap_map, Function.comp_def, declared?]
    refine .newLocal ?_
    rw [slot]
    refine .writing (.writing (.writing
      (.past (forIn_write _ _ (loadDirectives _) (fun _ _ => rfl) _) (.writing ?_))))
    refine .bind ?_ fun _ body code => .writing
      (.past (forIn_write _ _ _ (savePersistent_eq typed.locals.size) _)
        (.writing (.writing (.write ⟨body, code, ?_⟩))))
    · rw [opening, openingDirectives, wroteAll_append]
      simp only [wroteAll_append, wroteAll_cons, wroteAll_nil]
      exact bodyCode_of_block _ direct _
    · simp only [closingDirectives, wroteAll_append, wroteAll_cons, wroteAll_nil]

end Emission

end HostScript

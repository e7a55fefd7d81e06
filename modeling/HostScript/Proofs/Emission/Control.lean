import HostScript.Proofs.Emission.Body
import HostScript.Proofs.Machine.Effect

namespace HostScript

open List

/-- Whether an operation goes on with the next one and leaves stored state alone. -/
def Op.isStraight (op : Op) : Bool :=
  op.goesOn && op != .stateGet && op != .stateSet

variable {d : Directive}

namespace Directive

/-- Whether a directive makes an instruction that goes on with the next one, or none. -/
def isStraight : Directive → Bool
  | .declareLocal _ | .defineLabel | .mark _ | .constant _ | .convert _ => true
  | .plain code => (Op.ofCode? code).any fun op => op.isStraight && op.operand == .absent
  | .slot code _ | .type code _ | .rank code _ | .field code _ | .property code _
  | .method code _ | .name code _ =>
    (Op.ofCode? code).any fun op => op.isStraight && op.operand != .absent
  | .jump _ _ | .beginTry | .beginFinally | .endTry => false

/-- A directive stays within some code: control goes on, to a label marked in it, or leaves by a
label that is meant for that. -/
def Stays (marked leaves : Nat → Prop) (directive : Directive) : Prop :=
  directive.isStraight = true ∨
    (∃ (op : Op) (label : Nat), op.isJump = true ∧ marked label ∧ directive = .jump op label) ∨
    ∃ label, leaves label ∧ directive = .jump Op.leave label

theorem Stays.isBorder {marked leaves} (stays : d.Stays marked leaves) : d.isBorder = false := by
  rcases stays with straight | ⟨_, _, _, _, rfl⟩ | ⟨_, _, rfl⟩
  · cases d <;> first | rfl | cases straight
  · rfl
  · rfl

end Directive

namespace Emission

open Typed (Expr)

/-!
# Where the code of a body leads

The code of expressions and statements opens no protected region, jumps to its own
labels and those of the loops around it, and leaves the script by one label only.
-/

variable {draft after : Draft}

namespace Draft

/--
What is written between two drafts stays within any code that has its marks and those of
the given labels.
-/
def Encloses (targets leaves : Nat → Prop) (draft after : Draft) : Prop :=
  ∃ new, after.directives = new ++ draft.directives ∧
    ∀ marked : Nat → Prop, (∀ label, targets label → marked label) →
      (∀ label, Directive.mark label ∈ new → marked label) →
      ∀ directive ∈ new, directive.Stays marked leaves

namespace Encloses

variable {targets leaves : Nat → Prop}

theorem refl (draft : Draft) : Encloses targets leaves draft draft :=
  ⟨[], rfl, fun _ _ _ _ member => nomatch member⟩

theorem trans (prev : Encloses targets leaves first second)
    (later : Encloses targets leaves second third) : Encloses targets leaves first third := by
  obtain ⟨new, shape, stays⟩ := prev
  obtain ⟨newer, newerShape, newerStays⟩ := later
  refine ⟨newer ++ new, by rw [newerShape, shape, append_assoc], ?_⟩
  intro marked known marks d member
  rcases mem_append.mp member with isNewer | isNew
  · exact newerStays marked known (fun label mark => marks label (mem_append_left _ mark)) d isNewer
  · exact stays marked known (fun label mark => marks label (mem_append_right _ mark)) d isNew

section

variable (encloses : Encloses targets leaves first second)

include encloses

theorem straight (goesOn : d.isStraight) :
    Encloses targets leaves first (second.wrote d) := by
  refine encloses.trans ⟨[d], rfl, fun _ _ _ _ member => ?_⟩
  rw [mem_singleton] at member
  exact member ▸ .inl goesOn

theorem straightAll (goesOn : ∀ d ∈ ds, d.isStraight) :
    Encloses targets leaves first (second.wroteAll ds) := by
  induction ds generalizing second with
  | nil => exact encloses
  | cons d _ ih =>
    exact ih (encloses.straight (goesOn d mem_cons_self))
      fun other member => goesOn other (mem_cons_of_mem _ member)

theorem jump (op : Op) (isJump : op.isJump) (tgt : targets label) :
    Encloses targets leaves first (second.wrote (.jump op label)) := by
  refine encloses.trans ⟨[.jump op label], rfl, fun _ known _ _ member => ?_⟩
  exact .inr (.inl ⟨op, label, isJump, known label tgt, mem_singleton.mp member⟩)

theorem leave (out : leaves label) :
    Encloses targets leaves first (second.wrote (.jump Op.leave label)) := by
  refine encloses.trans ⟨[.jump Op.leave label], rfl, fun _ _ _ _ member => ?_⟩
  exact .inr (.inr ⟨label, out, mem_singleton.mp member⟩)

end

theorem mark (label : Nat)
    (encloses : Encloses (fun other => targets other ∨ other = label) leaves first second) :
    Encloses targets leaves first (second.wrote (.mark label)) := by
  obtain ⟨new, shape, stays⟩ := encloses
  refine ⟨.mark label :: new, by rw [Draft.wrote, shape]; rfl, ?_⟩
  intro marked known marks d member
  rcases mem_cons.mp member with rfl | isNew
  · exact .inl rfl
  · refine stays marked ?_ (fun other mark => marks other (mem_cons_of_mem _ mark)) d isNew
    rintro other (tgt | rfl)
    · exact known other tgt
    · exact marks other mem_cons_self

theorem marked (label : Nat)
    (encloses : Encloses (fun other => targets other ∨ other = label) leaves
      (first.wrote (.mark label)) second) : Encloses targets leaves first second := by
  obtain ⟨new, shape, stays⟩ := encloses
  refine ⟨new ++ [.mark label], by rw [shape, Draft.wrote, append_assoc]; rfl, ?_⟩
  intro marked known marks d member
  rcases mem_append.mp member with isNew | isMark
  · refine stays marked ?_ (fun other mark => marks other (mem_append_left _ mark)) d isNew
    rintro other (tgt | rfl)
    · exact known other tgt
    · exact marks other (mem_append_right _ mem_cons_self)
  · rw [mem_singleton.mp isMark]
    exact .inl rfl

section

variable (encloses : Encloses targets leaves first second)

include encloses

theorem taken (type : Ty) (isTemporary : Bool) :
    Encloses targets leaves first (second.taken type isTemporary).2 := by
  unfold Draft.taken
  have decl : Encloses targets leaves first (second.wrote (.declareLocal type)) :=
    encloses.straight rfl
  split
  · cases isTemporary <;> exact encloses
  · cases isTemporary <;> exact decl

theorem released (held : Option Scratch) :
    Encloses targets leaves first (second.released held) := by
  cases held <;> exact encloses

theorem mono (included : ∀ label, targets label → more label) :
    Encloses more leaves first second := by
  obtain ⟨new, shape, stays⟩ := encloses
  exact ⟨new, shape, fun marked known => stays marked fun label tgt =>
    known label (included label tgt)⟩

end

/-- A choice: a condition, a part that ends by jumping over the other one, and that other part. -/
theorem choice (op : Op) (isJump : op.isJump)
    (cond : Encloses targets leaves ((first.wrote .defineLabel).wrote .defineLabel) second)
    (one : Encloses targets leaves (second.wrote (.jump op first.nextLabel)) third)
    (other : Encloses targets leaves ((third.wrote (.jump Op.jump (first.nextLabel + 1))).wrote
      (.mark first.nextLabel)) fourth) :
    Encloses targets leaves first (fourth.wrote (.mark (first.nextLabel + 1))) := by
  have labelled : Encloses (fun label =>
      (targets label ∨ label = first.nextLabel + 1) ∨ label = first.nextLabel) leaves first
      ((first.wrote .defineLabel).wrote .defineLabel) :=
    ((Encloses.refl first).straight rfl).straight rfl
  have decided := (labelled.trans (cond.mono fun _ tgt => .inl (.inl tgt))).jump op
    isJump (.inr rfl)
  have chosen := ((decided.trans (one.mono fun _ tgt => .inl (.inl tgt))).jump .jump rfl
    (.inl (.inr rfl))).mark first.nextLabel
  exact (chosen.trans (other.mono fun _ tgt => .inl tgt)).mark (first.nextLabel + 1)

end Encloses

end Draft

theorem operatorDirectives_isStraight (isBinary : operatorDirectives? op = some ds) :
    ∀ d ∈ ds, d.isStraight := by
  cases op <;> cases isBinary <;> decide

theorem castDirectives_isStraight (types : Universe) (source target : Ty) :
    ∀ d ∈ castDirectives types source target, d.isStraight := by
  intro d member
  unfold castDirectives at member
  split_ifs at member
  · exact mem_singleton.mp member ▸ rfl
  · exact mem_singleton.mp member ▸ rfl
  · cases member
  · exact mem_singleton.mp member ▸ rfl
  · exact mem_singleton.mp member ▸ rfl

theorem memberDirective_isStraight (isReadable : memberDirective? member = some d) :
    d.isStraight := by
  cases member with
  | field field =>
    cases isReadable
    cases field.isStatic <;> rfl
  | property property =>
    simp only [memberDirective?, Option.ite_none_right_eq_some, Option.some.injEq] at isReadable
    rw [← isReadable.2]
    cases property.isStatic <;> rfl

theorem memberStoreDirective_isStraight (member : DataMember) :
    (memberStoreDirective member).isStraight := by
  cases member with
  | field field =>
    simp only [memberStoreDirective]
    cases field.isStatic <;> rfl
  | property property =>
    simp only [memberStoreDirective]
    cases property.isStatic <;> rfl

theorem indexerDirective_isStraight (indexer : Property) :
    (indexerDirective indexer).isStraight := by
  unfold indexerDirective
  cases indexer.isStatic <;> rfl

theorem indexerStoreDirective_isStraight (indexer : Property) :
    (indexerStoreDirective indexer).isStraight := by
  unfold indexerStoreDirective
  cases indexer.isStatic <;> rfl

open Draft in
theorem Code.encloses (code : Code tys item draft after) : Encloses targets leaves draft after := by
  induction code with
  | literal | fieldConstant | propertyConstant | localVariable | ownAddress | fieldShared =>
    exact (Encloses.refl _).straight rfl
  | fieldOwn => exact ((Encloses.refl _).straight rfl).straight rfl
  | overload _ _ _ _ _ _ left right | element _ _ _ _ left right =>
    exact (left.trans right).straight rfl
  | shortCircuit _ _ isLogical _ _ left right =>
    rcases isLogical with rfl | rfl
    · exact .choice .jumpIfFalse rfl left right ((Encloses.refl _).straight rfl)
    · exact .choice .jumpIfTrue rfl left right ((Encloses.refl _).straight rfl)
  | operator _ _ _ isBinary _ _ left right =>
    exact (left.trans right).straightAll (operatorDirectives_isStraight isBinary)
  | unary _ _ _ _ arg =>
    refine arg.straight ?_
    split <;> rfl
  | conditional _ _ _ _ _ cond no yes => exact .choice _ rfl cond no yes
  | cast _ _ _ _ arg => exact arg.straightAll (castDirectives_isStraight _ _ _)
  | call _ _ meth _ args =>
    unfold Method.callOp
    cases isStatic : meth.isStatic
    · simp only [isStatic, Bool.false_eq_true, if_false] at args
      exact (((Encloses.refl _).straight rfl).trans args).straight rfl
    · simp only [isStatic, if_true] at args
      exact args.straight rfl
  | staticInvocation _ _ _ _ _ part | lateProperty _ _ _ part => exact part.straight rfl
  | invocation _ _ _ _ _ tgt args => exact ((tgt.trans args).straight rfl).released _
  | @lateInvocation _ _ draft _ _ _ _ _ _ args tgt =>
    have taken : Encloses targets leaves draft (draft.taken (.array .object 1) false).2 :=
      (Encloses.refl draft).taken _ _
    exact ((((((taken.straight rfl).straight rfl).straight rfl).trans
      (args.trans tgt)).straight rfl).straight rfl).released (some _)
  | staticProperty _ _ _ _ _ _ isReadable =>
    exact (Encloses.refl _).straight (memberDirective_isStraight isReadable)
  | property _ _ _ _ isReadable _ tgt => exact tgt.straight (memberDirective_isStraight isReadable)
  | staticIndexer _ _ _ _ _ _ idxs => exact idxs.straight (indexerDirective_isStraight _)
  | indexer _ _ _ _ _ _ tgt idxs =>
    exact (tgt.trans idxs).straight (indexerDirective_isStraight _)
  | nil | noElements => exact .refl _
  | cons _ _ first rest => exact first.trans rest
  | elements _ _ first rest =>
    exact (((((Encloses.refl _).straight rfl).straight rfl).trans first).straight rfl).trans rest
  | reference _ _ _ tgt => exact tgt
  | address _ _ _ _ tgt => exact ((tgt.taken _ _).straight rfl).straight rfl

def Surroundings.targets (around : Surroundings) (label : Nat) : Prop :=
  ∃ loop ∈ around.loops, label = loop.start ∨ label = loop.exit

open Draft in
theorem BodyCode.encloses (targets : Nat → Prop) (code : BodyCode around item draft after)
    (included : ∀ label, around.targets label → targets label) :
    Encloses targets (fun label => label = around.exit) draft after := by
  induction code generalizing targets with
  | assignVariable _ _ _ _ val | assignShared _ _ _ _ _ _ val | declaration _ _ _ _ val =>
    exact val.encloses.straight rfl
  | assignOwn _ _ _ _ _ _ val =>
    exact (((Encloses.refl _).straight rfl).trans val.encloses).straight rfl
  | assignStaticMember _ _ _ _ _ _ val =>
    exact val.encloses.straight (memberStoreDirective_isStraight _)
  | assignMember _ _ _ _ _ tgt val =>
    exact ((tgt.encloses.trans val.encloses).straight
      (memberStoreDirective_isStraight _)).released _
  | assignLate _ _ _ tgt val =>
    exact (tgt.encloses.trans val.encloses).straight rfl
  | assignElement _ _ _ tgt idxs val =>
    exact ((tgt.encloses.trans idxs.encloses).trans val.encloses).straight rfl
  | assignStaticIndexer _ _ _ _ _ _ idxs val =>
    exact (idxs.encloses.trans val.encloses).straight (indexerStoreDirective_isStraight _)
  | assignIndexer _ _ _ _ _ tgt idxs val =>
    exact ((tgt.encloses.trans idxs.encloses).trans
      val.encloses).straight (indexerStoreDirective_isStraight _)
  | persistent | nil => exact .refl _
  | inner _ body | block _ _ _ body => exact body targets included
  | @ifThen around _ _ draft _ _ _ cond _ yes =>
    have labelled : Encloses (fun other => targets other ∨ other = draft.nextLabel)
        (fun label => label = around.exit) draft (draft.wrote .defineLabel) :=
      (Encloses.refl draft).straight rfl
    have decided := (labelled.trans cond.encloses).jump .jumpIfFalse rfl (.inr rfl)
    exact (decided.trans (yes _ fun label tgt => .inl (included label tgt))).mark draft.nextLabel
  | ifElse _ cond _ _ yes no =>
    exact .choice _ rfl cond.encloses (yes targets included) (no targets included)
  | @whileLoop around _ _ draft _ _ _ cond _ body =>
    -- the start of the loop is marked before its code, the end after it
    have labelled : Encloses (fun other => targets other ∨ other = draft.nextLabel + 1)
        (fun label => label = around.exit) draft
        ((draft.wrote .defineLabel).wrote .defineLabel) :=
      ((Encloses.refl draft).straight rfl).straight rfl
    have tested : Encloses
        (fun other => (targets other ∨ other = draft.nextLabel + 1) ∨ other = draft.nextLabel)
        (fun label => label = around.exit) _ _ := cond.encloses
    have ran := (tested.jump .jumpIfFalse rfl (.inl (.inr rfl))).trans (body _ (by
      rintro label ⟨loop, member, same⟩
      rcases mem_cons.mp member with rfl | outer
      · exact same.elim .inr fun isExit => .inl (.inr isExit)
      · exact .inl (.inl (included label ⟨loop, outer, same⟩))))
    exact (labelled.trans (ran.jump .jump rfl (.inr rfl)).marked).mark (draft.nextLabel + 1)
  | @breakLoop _ loop _ _ _ inLoop | @continueLoop _ loop _ _ _ inLoop =>
    refine (Encloses.refl _).jump .jump rfl (included _ ⟨loop, inLoop ▸ mem_cons_self, ?_⟩)
    simp
  | leave => exact (Encloses.refl _).leave rfl
  | callStatement _ call | invocationStatement _ call =>
    refine call.encloses.straightAll ?_
    split <;> decide
  | cons _ _ first rest => exact (first targets included).trans (rest targets included)

end Emission

end HostScript

import HostScript.Proofs.Emission.Body
import HostScript.Proofs.Assembly.Layout

namespace HostScript.Emission

open Typed (Expr)
open Directive (declared? extent)
open List

/-!
# What code does to drafts

Code appends directives, counts labels and slots as assembly will number them, and takes its
local variables from those that nobody holds.
-/

theorem eq_reference_of_localVariable? (isVariable : localVariable? tgt = some decl) :
    ∃ off name, tgt = .reference off name (some (.variable decl)) := by
  unfold localVariable? at isVariable
  split at isVariable
  · cases isVariable
    exact ⟨_, _, rfl⟩
  · cases isVariable

theorem labels_le_of_suffix (suffix : first <:+ second) :
    Directive.labels first ≤ Directive.labels second := by
  obtain ⟨_, rfl⟩ := suffix
  rw [Directive.labels_append]
  omega

namespace Draft

/-- Code written from here on may use the slot: it is free, or not declared yet. -/
def Owns (draft : Draft) (slot : Nat) : Prop :=
  draft.nextSlot ≤ slot ∨ ∃ scratch ∈ draft.free, scratch.slot = slot

/-- The types of the declared local variables, by slot. -/
def declared (draft : Draft) : List Ty :=
  draft.directives.reverse.filterMap Directive.declared?

/-- The counts of a draft are right, and its free local variables are declared once each. -/
structure Proper (count : Nat) (draft : Draft) : Prop where
  labels : draft.nextLabel = Directive.labels draft.directives
  slots : draft.nextSlot = draft.declared.length
  above : count ≤ draft.nextSlot
  free : ∀ scratch ∈ draft.free,
    count ≤ scratch.slot ∧ draft.declared[scratch.slot]? = some scratch.type
  distinct : (draft.free.map Scratch.slot).Nodup

variable {draft : Draft} {count slot : Nat}

theorem Proper.mono (proper : Proper count draft) (less : fewer ≤ count) : Proper fewer draft where
  labels := proper.labels
  slots := proper.slots
  above := Nat.le_trans less proper.above
  free scratch mem := ⟨Nat.le_trans less (proper.free scratch mem).1, (proper.free scratch mem).2⟩
  distinct := proper.distinct

theorem Proper.le_of_owns (proper : Proper count draft) (owned : draft.Owns slot) :
    count ≤ slot := by
  rcases owned with fresh | ⟨scratch, free, rfl⟩
  · exact Nat.le_trans proper.above fresh
  · exact (proper.free scratch free).1

/-- What a later draft keeps of an earlier one. -/
structure Leads (draft after : Draft) : Prop where
  directives : draft.directives <:+ after.directives
  slots : draft.nextSlot ≤ after.nextSlot
  owns : ∀ slot, after.Owns slot → draft.Owns slot

theorem Leads.refl (draft : Draft) : Leads draft draft :=
  ⟨suffix_rfl, Nat.le_refl _, fun _ owned => owned⟩

theorem Leads.trans (prev : Leads first second) (later : Leads second third) : Leads first third :=
  ⟨prev.directives.trans later.directives, Nat.le_trans prev.slots later.slots,
    fun slot owned => prev.owns slot (later.owns slot owned)⟩

variable {after : Draft}

theorem Leads.extent_le (leads : Leads draft after) :
    extent draft.directives ≤ extent after.directives := by
  obtain ⟨_, shape⟩ := leads.directives
  rw [← shape, Directive.extent_append]
  omega

theorem declared_of_suffix (suffix : draft.directives <:+ after.directives)
    (known : draft.declared[slot]? = some type) : after.declared[slot]? = some type := by
  obtain ⟨_, shape⟩ := suffix
  have inside := (List.getElem?_eq_some_iff.mp known).1
  unfold declared at known inside ⊢
  rw [← shape, reverse_append, filterMap_append, getElem?_append_left inside, known]

theorem declared_wrote (draft : Draft) (d : Directive) :
    (draft.wrote d).declared = draft.declared ++ d.declared?.toList := by
  unfold declared wrote
  simp only [reverse_cons, filterMap_append]
  cases declared : d.declared? <;> simp [declared]

theorem wrote_leads (draft : Draft) (d : Directive) : Leads draft (draft.wrote d) := by
  refine ⟨suffix_cons _ _, Nat.le_add_right _ _, ?_⟩
  rintro _ (beyond | free)
  · exact .inl (Nat.le_trans (Nat.le_add_right _ _) beyond)
  · exact .inr free

theorem wrote_proper (proper : Proper count draft) (d : Directive) :
    Proper count (draft.wrote d) where
  labels := by
    change draft.nextLabel + d.labelCount = _
    rw [proper.labels, wrote, Directive.labels_cons, Nat.add_comm]
  slots := by
    rw [declared_wrote, length_append, ← proper.slots]
    rfl
  above := Nat.le_trans proper.above (Nat.le_add_right _ _)
  free := by
    intro scratch mem
    obtain ⟨above, known⟩ := proper.free scratch mem
    exact ⟨above, declared_of_suffix (suffix_cons _ _) known⟩
  distinct := proper.distinct

theorem wroteAll_leads (draft : Draft) (ds : List Directive) : Leads draft (draft.wroteAll ds) := by
  induction ds generalizing draft with
  | nil => exact .refl draft
  | cons first _ ih =>
    exact (wrote_leads draft first).trans (ih _)

theorem wroteAll_proper (proper : Proper count draft) (ds : List Directive) :
    Proper count (draft.wroteAll ds) := by
  induction ds generalizing draft with
  | nil => exact proper
  | cons first _ ih =>
    exact ih (wrote_proper proper first)

/-- A local variable that is held: taken from what a draft owns, and not owned any more. -/
structure Holds (count : Nat) (draft after : Draft) (scratch : Scratch) : Prop where
  owned : draft.Owns scratch.slot
  taken : ¬after.Owns scratch.slot
  above : count ≤ scratch.slot
  known : after.declared[scratch.slot]? = some scratch.type

theorem wrote_owns {d} (declaresNone : d.declared? = none)
    (slot : Nat) : (draft.wrote d).Owns slot ↔ draft.Owns slot := by
  simp [Owns, wrote, declaresNone]

/-- A local variable that is declared anew is held. -/
theorem declared_holds (proper : Proper count draft) (type : Ty) :
    Holds count draft (draft.wrote (.declareLocal type)) ⟨draft.nextSlot, type⟩ := by
  refine ⟨.inl (Nat.le_refl _), ?_, proper.above, ?_⟩
  · rintro (beyond | ⟨other, isFree, same⟩)
    · exact Nat.not_succ_le_self _ beyond
    · have declared := (List.getElem?_eq_some_iff.mp (proper.free other isFree).2).1
      rw [same, ← proper.slots] at declared
      exact Nat.lt_irrefl _ declared
  · change (draft.wrote (.declareLocal type)).declared[draft.nextSlot]? = some type
    rw [declared_wrote, proper.slots]
    simp [declared?]

variable {scratch : Scratch}

/-- A local variable that is held may be given back. -/
theorem returned_proper (proper : Proper count draft) (holds : Holds count pre draft scratch) :
    Proper count (draft.returned scratch) := by
  refine ⟨proper.labels, proper.slots, proper.above, ?_, ?_⟩
  · intro other mem
    rcases mem_append.mp mem with old | new
    · exact proper.free other old
    · cases mem_singleton.mp new
      exact ⟨holds.above, holds.known⟩
  · change ((draft.free ++ [scratch]).map Scratch.slot).Nodup
    rw [map_append, nodup_append]
    refine ⟨proper.distinct, by simp, ?_⟩
    intro old oldMember new newMember same
    cases mem_singleton.mp newMember
    obtain ⟨other, isFree, otherSlot⟩ := mem_map.mp oldMember
    exact holds.taken (.inr ⟨other, isFree, otherSlot.trans same⟩)

/-- What is given back was owned before it was taken. -/
theorem returned_leads (leads : Leads pre draft) (holds : Holds count pre draft scratch) :
    Leads pre (draft.returned scratch) := by
  refine ⟨leads.directives, leads.slots, ?_⟩
  rintro slot (beyond | ⟨other, isFree, rfl⟩)
  · exact leads.owns slot (.inl beyond)
  · rcases mem_append.mp isFree with old | new
    · exact leads.owns _ (.inr ⟨other, old, rfl⟩)
    · cases mem_singleton.mp new
      exact holds.owned

theorem type_taken (draft : Draft) (type : Ty) (isTemporary : Bool) :
    (draft.taken type isTemporary).1.type = type := by
  unfold taken
  split
  · next found =>
    have sameType := find?_some found
    cases isTemporary <;> exact beq_iff_eq.mp sameType
  · cases isTemporary <;> rfl

/-- A local variable of a type is taken from what a draft owns. -/
structure Taken (count : Nat) (draft : Draft) (type : Ty) (isTemporary : Bool) (scratch : Scratch)
    (after : Draft) : Prop where
  proper : Proper count after
  leads : Leads draft after
  owned : draft.Owns scratch.slot
  above : count ≤ scratch.slot
  known : after.declared[scratch.slot]? = some type
  held : isTemporary = false → ¬after.Owns scratch.slot

theorem taken_owned (proper : Proper count draft) (type : Ty) (isTemporary : Bool) :
    Taken count draft type isTemporary (draft.taken type isTemporary).1
      (draft.taken type isTemporary).2 := by
  unfold taken
  cases found : draft.free.find? fun scratch => scratch.type == type with
  | none =>
    have holds := declared_holds proper type
    cases isTemporary with
    | true =>
      exact ⟨returned_proper (wrote_proper proper _) holds,
        returned_leads (wrote_leads draft _) holds, holds.owned, holds.above, holds.known, nofun⟩
    | false =>
      exact ⟨wrote_proper proper _, wrote_leads draft _, holds.owned, holds.above, holds.known,
        fun _ => holds.taken⟩
  | some scratch =>
    have mem := mem_of_find?_eq_some found
    obtain ⟨above, known⟩ := proper.free scratch mem
    obtain ⟨matched, pre, after, split, unmatched⟩ := find?_eq_some_iff_append.mp found
    rw [beq_iff_eq.mp matched] at known
    cases isTemporary with
    | true => exact ⟨proper, .refl draft, .inr ⟨scratch, mem, rfl⟩, above, known, nofun⟩
    | false =>
      have erased : draft.free.eraseP (fun other => other.type == type) = pre ++ after := by
        rw [split, eraseP_append_right]
        · rw [eraseP_cons, matched, cond_true]
        · intro other isBefore
          simpa using unmatched other isBefore
      have distinct := proper.distinct
      rw [split, map_append, map_cons, perm_middle.nodup_iff, nodup_cons,
        ← map_append] at distinct
      have kept : ∀ other ∈ pre ++ after, other ∈ draft.free := by
        intro other isKept
        rw [split]
        grind
      refine ⟨⟨proper.labels, proper.slots, proper.above, ?_, ?_⟩,
        ⟨suffix_rfl, Nat.le_refl _, ?_⟩,
        .inr ⟨scratch, mem, rfl⟩, above, known, ?_⟩
      · intro other isFree
        exact proper.free other (kept other (erased ▸ isFree))
      · change ((draft.free.eraseP _).map Scratch.slot).Nodup
        rw [erased]
        exact distinct.2
      · rintro _ (beyond | ⟨other, isFree, rfl⟩)
        · exact .inl beyond
        · exact .inr ⟨other, kept other (erased ▸ isFree), rfl⟩
      · rintro _ (beyond | ⟨other, isFree, same⟩)
        · have inside := (List.getElem?_eq_some_iff.mp known).1
          rw [← proper.slots] at inside
          exact Nat.not_le_of_lt inside beyond
        · have isKept : other ∈ pre ++ after := erased ▸ isFree
          exact distinct.1 (same ▸ mem_map_of_mem isKept)

theorem taken_held (proper : Proper count draft) (type : Ty) :
    Proper count (draft.taken type false).2 ∧ Leads draft (draft.taken type false).2 ∧
      Holds count draft (draft.taken type false).2 (draft.taken type false).1 := by
  obtain ⟨takenProper, leads, owned, above, known, held⟩ := taken_owned proper type false
  exact ⟨takenProper, leads, owned, held rfl, above, by rwa [type_taken]⟩

/-- Taking a local variable writes no instruction. -/
theorem extent_taken (draft : Draft) (type : Ty) (isTemporary : Bool) :
    extent (draft.taken type isTemporary).2.directives = extent draft.directives := by
  unfold taken
  split
  · split <;> rfl
  · dsimp only
    split <;> simp [wrote]

/-- What is held stays held while more code is written. -/
theorem Holds.later (holds : Holds count pre draft scratch) (leads : Leads draft after) :
    Holds count pre after scratch :=
  ⟨holds.owned, fun owned => holds.taken (leads.owns _ owned), holds.above,
    declared_of_suffix leads.directives holds.known⟩

/-- What is held by code that started later is held by the whole. -/
theorem Holds.earlier (holds : Holds count second after scratch) (leads : Leads first second) :
    Holds count first after scratch :=
  ⟨leads.owns _ holds.owned, holds.taken, holds.above, holds.known⟩

def Grows (count : Nat) (draft after : Draft) : Prop :=
  Proper count draft → Proper count after ∧ Leads draft after

theorem Grows.refl (count : Nat) (draft : Draft) : Grows count draft draft :=
  fun proper => ⟨proper, .refl draft⟩

theorem Grows.trans (prev : Grows count first second) (later : Grows count second third) :
    Grows count first third := by
  intro proper
  obtain ⟨between, leads⟩ := prev proper
  obtain ⟨last, further⟩ := later between
  exact ⟨last, leads.trans further⟩

theorem Grows.wrote (prev : Grows count first second) (d : Directive) :
    Grows count first (second.wrote d) :=
  prev.trans fun proper => ⟨wrote_proper proper d, wrote_leads second d⟩

theorem Grows.one : Grows count draft (draft.wrote d) := .wrote (.refl _ _) _

theorem Grows.wroteAll (prev : Grows count first second) (ds : List Directive) :
    Grows count first (second.wroteAll ds) :=
  prev.trans fun proper => ⟨wroteAll_proper proper ds, wroteAll_leads second ds⟩

/-- What was held over more code is given back at its end. -/
theorem Grows.released (held : Option Scratch) (prev : Grows count first second)
    (holds : Proper count first → ∀ scratch, held = some scratch → Holds count first second scratch)
    (later : Grows count second third) : Grows count first (third.released held) := by
  intro proper
  obtain ⟨between, leads⟩ := prev proper
  obtain ⟨last, further⟩ := later between
  cases held with
  | none => exact ⟨last, leads.trans further⟩
  | some scratch =>
    have stillHeld := (holds proper scratch rfl).later further
    exact ⟨returned_proper last stillHeld, returned_leads (leads.trans further) stillHeld⟩

end Draft

/-- The local variable that the code of an item holds for later. -/
def Item.held : Item → Option Scratch
  | .receiver _ _ held => held
  | _ => none

open Draft

variable {after : Draft} {count : Nat}

theorem unheld {item : Item} (grows : Grows count draft after) (free : item.held = none) :
    Grows count draft after ∧ (Proper count draft → ∀ scratch, item.held = some scratch →
        Holds count draft after scratch) :=
  ⟨grows, fun _ _ held => nomatch free.symm.trans held⟩

theorem Code.grows (count : Nat) (code : Code tys item draft after) :
    Grows count draft after ∧ (Proper count draft → ∀ scratch, item.held = some scratch →
        Holds count draft after scratch) := by
  induction code with
  | literal | localVariable | fieldConstant | fieldShared | propertyConstant | staticProperty
  | ownAddress => exact unheld Grows.one rfl
  | fieldOwn => exact unheld (Grows.one.wrote _) rfl
  | overload _ _ _ _ _ _ left right | element _ _ _ _ left right | indexer _ _ _ _ _ _ left right =>
    exact unheld ((left.1.trans right.1).wrote _) rfl
  | shortCircuit _ _ _ _ _ left right =>
    exact unheld ((((Grows.one.wrote _).trans left.1).wrote _).trans right.1
      |>.wroteAll _) rfl
  | operator _ _ _ _ _ _ left right => exact unheld ((left.1.trans right.1).wroteAll _) rfl
  | unary _ _ _ _ part | staticInvocation _ _ _ _ _ part
  | property _ _ _ _ _ _ part | lateProperty _ _ _ part
  | staticIndexer _ _ _ _ _ _ part => exact unheld (part.1.wrote _) rfl
  | conditional _ _ _ _ _ cond no yes =>
    exact unheld (((((Grows.one.wrote _).trans cond.1).wrote _).trans no.1
      |>.wrote _ |>.wrote _ |>.trans yes.1).wrote _) rfl
  | cast _ _ _ _ arg => exact unheld (arg.1.wroteAll _) rfl
  | call _ _ meth _ args =>
    refine unheld (.wrote ?_ _) rfl
    cases isStatic : meth.isStatic
    · simp only [isStatic, Bool.false_eq_true, if_false] at args
      exact Grows.one.trans args.1
    · simp only [isStatic, if_true] at args
      exact args.1
  | invocation _ _ _ _ _ tgt args =>
    exact unheld (.released _ tgt.1 tgt.2 (args.1.wrote _)) rfl
  | @lateInvocation _ _ draft _ _ _ name _ _ args tgt =>
    refine unheld (fun proper => ?_) rfl
    obtain ⟨takenProper, takenLeads, holds⟩ := taken_held proper (.array .object 1)
    have rest := (((Grows.refl count _).wroteAll _).trans (args.1.trans tgt.1)).wroteAll
      [.slot Op.loadLocal (draft.taken (.array .object 1) false).1.slot,
        .name Op.lateCall name.name]
    exact Grows.released (some (draft.taken (.array .object 1) false).1)
      (fun _ => ⟨takenProper, takenLeads⟩)
      (fun _ scratch same => Option.some.inj same ▸ holds) rest proper
  | nil | noElements => exact unheld (.refl count _) rfl
  | cons _ _ first rest => exact unheld (first.1.trans rest.1) rfl
  | elements _ _ first rest =>
    exact unheld ((((Grows.refl count _).wroteAll _).trans first.1 |>.wrote _).trans rest.1) rfl
  | reference _ _ _ tgt => exact unheld tgt.1 rfl
  | @address tgt _ _ isImmediate _ _ _ ih =>
    refine ⟨fun proper => ?_, fun proper scratch same => ?_⟩
    · obtain ⟨between, leads⟩ := ih.1 proper
      obtain ⟨takenProper, takenLeads, _⟩ := taken_owned between tgt.type isImmediate
      exact ⟨wroteAll_proper takenProper _, leads.trans (takenLeads.trans (wroteAll_leads _ _))⟩
    · cases isImmediate with
      | true => cases same
      | false =>
        obtain ⟨between, leads⟩ := ih.1 proper
        obtain ⟨_, _, holds⟩ := taken_held between tgt.type
        cases same
        exact (holds.later (wroteAll_leads _ _)).earlier leads

theorem BodyCode.grows (count : Nat) (code : BodyCode around item draft after) :
    Grows count draft after := by
  induction code with
  | assignVariable _ _ _ _ val | assignShared _ _ _ _ _ _ val
  | assignStaticMember _ _ _ _ _ _ val | declaration _ _ _ _ val =>
    exact (val.grows count).1.wrote _
  | assignOwn _ _ _ _ _ _ val =>
    exact (Grows.one.trans (val.grows count).1).wrote _
  | assignMember _ _ _ _ _ tgt val =>
    exact .released _ (tgt.grows count).1 (tgt.grows count).2 ((val.grows count).1.wrote _)
  | assignLate _ _ _ tgt val =>
    exact ((tgt.grows count).1.trans (val.grows count).1).wrote _
  | assignElement _ _ _ tgt idxs val | assignIndexer _ _ _ _ _ tgt idxs val =>
    exact ((tgt.grows count).1.trans ((idxs.grows count).1.trans (val.grows count).1)).wrote _
  | assignStaticIndexer _ _ _ _ _ _ idxs val =>
    exact ((idxs.grows count).1.trans (val.grows count).1).wrote _
  | persistent | nil => exact .refl count _
  | inner _ body | block _ _ _ body => exact body
  | ifThen _ cond _ yes =>
    exact ((Grows.one.trans (cond.grows count).1 |>.wrote _).trans yes).wrote _
  | ifElse _ cond _ _ yes no =>
    exact (((Grows.one.wrote _).trans (cond.grows count).1
      |>.wrote _).trans yes |>.wrote _ |>.wrote _ |>.trans no).wrote _
  | whileLoop _ cond _ body =>
    exact ((((Grows.refl count _).wroteAll _).trans (cond.grows count).1 |>.wrote _).trans
      body).wrote _ |>.wrote _
  | breakLoop | continueLoop | leave => exact .one
  | callStatement _ call | invocationStatement _ call => exact (call.grows count).1.wroteAll _
  | cons _ _ first rest => exact first.trans rest

theorem free_wroteAll (draft : Draft) (ds : List Directive) :
    (draft.wroteAll ds).free = draft.free := by
  induction ds generalizing draft with
  | nil => rfl
  | cons first _ ih => exact ih (draft.wrote first)

theorem wroteAll_empty_proper {ds} (above : count ≤ (ds.filterMap declared?).length) :
    (({} : Draft).wroteAll ds).Proper count := by
  have start : ({} : Draft).Proper 0 :=
    ⟨rfl, rfl, Nat.le_refl _, fun _ mem => (nomatch mem), nodup_nil⟩
  have proper := Draft.wroteAll_proper start ds
  have nothingFree : (({} : Draft).wroteAll ds).free = [] := free_wroteAll {} _
  refine ⟨proper.labels, proper.slots, ?_, ?_, ?_⟩
  · rw [nextSlot_wroteAll]
    exact Nat.le_add_left_of_le above
  · intro _ mem
    rw [nothingFree] at mem
    exact nomatch mem
  · rw [nothingFree]
    exact nodup_nil

theorem filterMap_declareLocal (tys : List Ty) :
    (tys.map Directive.declareLocal).filterMap declared? = tys := by
  simp [filterMap_map, Function.comp_def, declared?]

theorem opening_proper (state : Option Field) (typed : Typed.Script) :
    (opening state typed).Proper typed.locals.size := by
  refine wroteAll_empty_proper ?_
  unfold openingDirectives
  rw [filterMap_append, filterMap_declareLocal, length_append, Array.length_toList]
  exact Nat.le_add_right _ _

end HostScript.Emission

namespace HostScript.Emission.Draft

open Directive (extent)

/-!
# Code of a draft in a program

A program that begins with what a draft wrote holds the instruction of every directive of
the draft where the directives before it end.
-/

theorem directives_wroteAll (draft : Draft) (ds : List Directive) :
    (draft.wroteAll ds).directives = ds.reverse ++ draft.directives := by
  induction ds generalizing draft with
  | nil => rfl
  | cons _ _ ih =>
    rw [Draft.wroteAll_cons, ih]
    simp [Draft.wrote]

theorem suffix_wroteAll (draft : Draft) (ds : List Directive) :
    draft.directives <:+ (draft.wroteAll ds).directives := by
  rw [directives_wroteAll]
  exact List.suffix_append _ _

def Emitted (draft : Draft) (prog : Program) : Prop :=
  ∃ rest, Assembly.assemble (draft.directives.reverse ++ rest) = .ok prog

namespace Emitted

variable {draft after : Draft} {prog : Program}

theorem earlier (emitted : after.Emitted prog) (suffix : draft.directives <:+ after.directives) :
    draft.Emitted prog := by
  obtain ⟨_, asm⟩ := emitted
  obtain ⟨_, shape⟩ := suffix
  rw [← shape, List.reverse_append, List.append_assoc] at asm
  exact ⟨_, asm⟩

theorem before_all (emitted : (draft.wroteAll ds).Emitted prog) : draft.Emitted prog :=
  emitted.earlier (draft.suffix_wroteAll ds)

theorem located (emitted : (draft.wrote d).Emitted prog) :
    ∃ rest, Assembly.assemble (draft.directives.reverse ++ d :: rest) = .ok prog := by
  obtain ⟨rest, asm⟩ := emitted
  exact ⟨rest, by simpa [wrote] using asm⟩

theorem holds (emitted : (draft.wrote d).Emitted prog) :
    ∃ labels pre, Assembly.Draft.position pre = extent draft.directives ∧
      Assembly.Holds prog labels pre d := by
  obtain ⟨_, asm⟩ := emitted.located
  obtain ⟨pos, holds⟩ := Assembly.assemble_holds asm
  exact ⟨_, _, pos.trans (Directive.extent_reverse _), holds⟩

variable {op : Op}

theorem plain (emitted : (draft.wrote (.plain op)).Emitted prog) :
    prog.code[extent draft.directives]? = some op.code := by
  obtain ⟨_, _, pos, holds⟩ := emitted.holds
  exact pos ▸ holds

theorem slot {slot : Nat} (emitted : (draft.wrote (.slot op slot)).Emitted prog) :
    prog.HasInstruction (extent draft.directives) op slot := by
  obtain ⟨_, _, pos, num, _, written⟩ := emitted.holds
  obtain rfl : slot = num := by omega
  exact pos ▸ written

theorem rank {rank : Nat} (emitted : (draft.wrote (.rank op rank)).Emitted prog) :
    prog.HasInstruction (extent draft.directives) op rank := by
  obtain ⟨_, _, pos, num, _, written⟩ := emitted.holds
  obtain rfl : rank = num := by omega
  exact pos ▸ written

theorem convert (emitted : (draft.wrote (.convert kind)).Emitted prog) :
    prog.HasInstruction (extent draft.directives) Op.convert (kind % 65536) := by
  obtain ⟨_, _, pos, written⟩ := emitted.holds
  exact pos ▸ written

theorem type {type} (emitted : (draft.wrote (.type op type)).Emitted prog) :
    ∃ idx, prog.HasInstruction (extent draft.directives) op idx ∧ prog.types[idx]? = some type := by
  obtain ⟨_, _, pos, pooled⟩ := emitted.holds
  exact pos ▸ pooled

theorem text {text} (emitted : (draft.wrote (.constant (.string text))).Emitted prog) :
    ∃ idx, prog.HasInstruction (extent draft.directives) Op.push idx ∧
      prog.constants[idx]? = some (.string text) := by
  obtain ⟨_, _, pos, idx, found, instr, present, same⟩ := emitted.holds
  rw [pos] at instr
  rcases same with rfl | ⟨_, same⟩
  · exact ⟨idx, instr, present⟩
  · have equal : Value.string text = found := by
      simpa [Value.equals] using same
    exact ⟨idx, instr, equal ▸ present⟩

end Emitted

end HostScript.Emission.Draft
